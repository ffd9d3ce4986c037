import MobilePhoneOs.Kernel.TimerTheorems

/-!
# What a poll may miss

A call sleeps in `poll_wq` between two rounds. It misses an event that came behind its scan and
whose wake was over before the park, one that no wake belongs to, and one whose wake does not
find the call in the queue any more.
-/

namespace MobilePhoneOs

open Function (update update_self update_of_ne)

namespace Poll

open Ipc Usock Sched

/-! ## Sections that wake nobody -/

section

variable {d : Data} {o : DataOp}

lemma pipePoll_update (i j : ℕ) (p : Pipe) (h : pipePoll p = pipePoll (d.pipe i)) :
    pipePoll (update d.pipe i p j) = pipePoll (d.pipe j) := by
  by_cases hj : j = i
  · rw [hj, update_self, h]
  · rw [update_of_ne hj]

variable {t : Ipc.Task} {hasBuf : Bool}

/-- A read that returns no data has at most put the reader to sleep. -/
lemma pipeRead_poll {p : Pipe} {len : ℕ}
    (h : isData (pipeRead p t hasBuf len).2 = false) :
    pipePoll (pipeRead p t hasBuf len).1 = pipePoll p := by
  unfold pipeRead at h ⊢
  split_ifs at h ⊢
  · rfl
  · simp [isData] at h
  · rfl
  · rfl

/-- A write that accepts nothing leaves the ring and the ends. -/
lemma pipeWrite_poll {p : Pipe} {src : List UInt8}
    (h : isAccepted (pipeWrite p t hasBuf src).2 = false) :
    pipePoll (pipeWrite p t hasBuf src).1 = pipePoll p := by
  unfold pipeWrite at h ⊢
  split_ifs at h ⊢
  · rfl
  · rfl
  · rfl
  · simp [isAccepted] at h
  · rfl

variable {s : Socks}

/-- A poll of sockets looks at four fields of an endpoint. -/
lemma socks_poll {s' : Socks}
    (h : ∀ f, (s'.ep f).state = (s.ep f).state ∧ (s'.ep f).ring = (s.ep f).ring ∧
      (s'.ep f).peer = (s.ep f).peer ∧ (s'.ep f).hup = (s.ep f).hup) (e : EpId) :
    usDataPoll s' e = usDataPoll s e ∧ usListenerPoll s' e = usListenerPoll s e := by
  unfold usDataPoll usListenerPoll
  obtain ⟨hstate, hring, hpeer, hhup⟩ := h e
  refine ⟨?_, ?_⟩
  · simp only [hring, hpeer, hhup]
    split
    · rfl
    · next f _ => rw [(h f).2.1]
  · rw [hstate]

variable {e : EpId}

lemma socks_setEp {x : Endpoint} (hstate : x.state = (s.ep e).state)
    (hring : x.ring = (s.ep e).ring) (hpeer : x.peer = (s.ep e).peer)
    (hhup : x.hup = (s.ep e).hup) (f : EpId) :
    ((s.setEp e x).ep f).state = (s.ep f).state ∧ ((s.setEp e x).ep f).ring = (s.ep f).ring ∧
      ((s.setEp e x).ep f).peer = (s.ep f).peer ∧ ((s.setEp e x).ep f).hup = (s.ep f).hup := by
  by_cases hf : f = e
  · rw [hf, Socks.setEp_self]
    exact ⟨hstate, hring, hpeer, hhup⟩
  · rw [Socks.setEp_of_ne _ _ hf]
    exact ⟨rfl, rfl, rfl, rfl⟩

/-- A socket read that returns no data has at most queued the reader. -/
lemma usRead_poll {len : ℕ}
    (h : isData (usRead s e t hasBuf len).2 = false) (f : EpId) :
    usDataPoll (usRead s e t hasBuf len).1 f = usDataPoll s f ∧
      usListenerPoll (usRead s e t hasBuf len).1 f = usListenerPoll s f := by
  unfold usRead at h ⊢
  dsimp only at h ⊢
  split_ifs at h ⊢
  · exact ⟨rfl, rfl⟩
  · simp [isData] at h
  · exact ⟨rfl, rfl⟩
  · refine socks_poll (fun g => socks_setEp ?_ ?_ ?_ ?_ g) f
    all_goals rfl

/-- A socket write that accepts nothing leaves every ring. -/
lemma usWrite_poll {src : List UInt8}
    (h : isAccepted (usWrite s e t hasBuf src).2 = false) (f : EpId) :
    usDataPoll (usWrite s e t hasBuf src).1 f = usDataPoll s f ∧
      usListenerPoll (usWrite s e t hasBuf src).1 f = usListenerPoll s f := by
  unfold usWrite at h ⊢
  dsimp only at h ⊢
  split_ifs at h ⊢
  · exact ⟨rfl, rfl⟩
  · exact ⟨rfl, rfl⟩
  · exact ⟨rfl, rfl⟩
  · split at h
    · exact ⟨rfl, rfl⟩
    · split_ifs at h ⊢
      · simp [isAccepted] at h
      · refine socks_poll (fun g => socks_setEp ?_ ?_ ?_ ?_ g) f
        all_goals rfl

/-- A function that does not go on to `ipc_wake_pollers` has changed nothing that a poll shows. -/
lemma fileReady_run (h : (o.run d).2 = false) (src : Source) :
    fileReady (o.run d).1 src = fileReady d src := by
  cases o with
  | pipeRead i t hasBuf len =>
    cases src with
    | pipe j => exact pipePoll_update i j _ (pipeRead_poll h)
    | _ => rfl
  | pipeWrite i t hasBuf bytes =>
    cases src with
    | pipe j => exact pipePoll_update i j _ (pipeWrite_poll h)
    | _ => rfl
  | usRead e t hasBuf len =>
    cases src with
    | data f => exact (usRead_poll h f).1
    | listener f => exact (usRead_poll h f).2
    | _ => rfl
  | usWrite e t hasBuf bytes =>
    cases src with
    | data f => exact (usWrite_poll h f).1
    | listener f => exact (usWrite_poll h f).2
    | _ => rfl
  -- these go on to `ipc_wake_pollers` in any case
  | pipeDestroy i reader => simp [DataOp.run] at h
  | linkClient cli srv => simp [DataOp.run] at h
  | epRelease e => simp [DataOp.run] at h
  | usListenerDestroy e i => simp [DataOp.run] at h

end

/-! ## Timeouts -/

/-- A timeout that is over is past the time of the park for the comparison of `sched_tick`. -/
lemma Call.Over.expired {call : Call} {now first : ℕ} {m : Machine} {x : Sched.Task} (h : call.Over first now)
    (hnow : m.jiffies = now) (hwake : x.wakeAt = State.wakeTime first call.parkMs) :
    m.expired x = true := by
  obtain ⟨e, he, hmod, hlt⟩ := h
  rw [Machine.expired, hnow, hwake, State.wakeTime, decide_eq_true_iff]
  unfold Nat.ModEq at hmod
  simp only [TIME_HZ] at hlt ⊢
  have hle : call.parkMs.toNat * 100 % 2 ^ 64 / 1000 + 1 ≤ e := by omega
  generalize call.parkMs.toNat * 100 % 2 ^ 64 / 1000 = d at hle ⊢
  omega

/-- No timeout is over in the tick in which it began. -/
lemma Call.Over.later {call : Call} {now first : ℕ} (h : call.Over first now) : ¬ now ≡ first [MOD 2 ^ 64] := by
  obtain ⟨e, he, hmod, hlt⟩ := h
  intro hsame
  unfold Nat.ModEq at hmod hsame
  omega

/-! ## The invariant -/

namespace State

variable {s s' : State} {c : ℕ} {t u : Slot} {call : Call}

/-- A call with a timeout sleeps until the time that its first park has said. -/
def Punctual (s : State) : Prop := ∀ t call, s.Waits t call → call.Finite →
  ∃ first, call.first = some first ∧ (s.m.task t).wakeAt = wakeTime first call.parkMs

/-- Sections that touch no wake-up time keep the sleepers punctual. -/
lemma Punctual.keep (h : s.Punctual) (hwaits : ∀ t call, s'.Waits t call → s.Waits t call)
    (hwake : ∀ t call, s'.Waits t call → (s'.m.task t).wakeAt = (s.m.task t).wakeAt) :
    s'.Punctual := by
  intro t call hw hfin
  obtain ⟨first, hfirst, hwakeAt⟩ := h t call (hwaits t call hw) hfin
  exact ⟨first, hfirst, (hwake t call hw).trans hwakeAt⟩

/-- No event is missed, the sleepers are punctual, and a scan has counted the entries that showed
an event. -/
structure Inv (s : State) : Prop where
  missed : s.NothingMissed
  punctual : s.Punctual
  counted : ∀ t call found ready, s.phase t = .scan call found ready →
    ready = found.countP (· ≠ 0)

lemma Start.inv (h : s.Start) : s.Inv where
  missed := fun t call hw => absurd ((h t).symm.trans hw.1) (by simp)
  punctual := fun t call hw => absurd ((h t).symm.trans hw.1) (by simp)
  counted := by
    intro t call found ready hphase
    rw [h t] at hphase
    simp at hphase

/-- An entry shows an event only through an open descriptor. -/
lemma events_ne_zero {w : PollFd} : s.events t w ≠ 0 ↔
    0 ≤ w.fd ∧ ∃ src, s.fds t w.fd = some src ∧ fileReady s.data src &&& w.wanted ≠ 0 := by
  unfold events
  by_cases hfd : w.fd < 0
  · simp [hfd]
  · rw [if_neg hfd]
    cases hsrc : s.fds t w.fd with
    | none => simp
    | some src => simp [not_lt.mp hfd]

/-- No event is missed exactly if no source shows a requested event to a sleeping call while no
wake is on its way. -/
lemma nothingMissed_iff : s.NothingMissed ↔
    ∀ src w, s.Watches s.fds src w → fileReady s.data src &&& w.wanted = 0 := by
  constructor
  · intro h src w hw
    obtain ⟨howed, t, call, hwaits, hmem, hfd, hsrc⟩ := hw
    by_contra hne
    have hready : s.Ready t call := ⟨w, hmem, events_ne_zero.mpr ⟨hfd, src, hsrc, hne⟩⟩
    have hpos := h t call hwaits hready
    omega
  · intro h t call hwaits hready
    obtain ⟨w, hmem, hev⟩ := hready
    obtain ⟨hfd, src, hsrc, hne⟩ := events_ne_zero.mp hev
    by_contra hpos
    exact hne (h src w ⟨by omega, t, call, hwaits, hmem, hfd, hsrc⟩)

/-- Where no source shows more and no wake is used up, nothing new is missed. -/
lemma NothingMissed.keep (h : s.NothingMissed) (hwaits : ∀ t call, s'.Waits t call → s.Waits t call)
    (hdata : ∀ src, fileReady s'.data src = fileReady s.data src) (hfds : s'.fds = s.fds)
    (howed : s.owed ≤ s'.owed) : s'.NothingMissed := by
  intro t call hw hready
  obtain ⟨w, hmem, hev⟩ := hready
  obtain ⟨hfd, src, hsrc, hne⟩ := events_ne_zero.mp hev
  rw [hdata] at hne
  rw [hfds] at hsrc
  have hready : s.Ready t call := ⟨w, hmem, events_ne_zero.mpr ⟨hfd, src, hsrc, hne⟩⟩
  exact lt_of_lt_of_le (h t call (hwaits t call hw) hready) howed

lemma setPhase_self (p : Phase) : (s.setPhase t p).phase t = p := update_self _ _ _

lemma setPhase_ne (p : Phase) (h : u ≠ t) : (s.setPhase t p).phase u = s.phase u :=
  update_of_ne h _ _

/-- A task that goes on in its call, or leaves it, waits no more. -/
lemma waits_setPhase {p : Phase} (hp : ∀ call, p ≠ .parked call)
    (h : (s.setPhase t p).Waits u call) : s.Waits u call := by
  obtain ⟨hphase, hstate⟩ := h
  by_cases hu : u = t
  · rw [hu, setPhase_self] at hphase
    exact absurd hphase (hp call)
  · rw [setPhase_ne p hu] at hphase
    exact ⟨hphase, hstate⟩

/-- A call that is not parked has nothing to miss. -/
lemma Inv.setPhase {p : Phase} (h : s.Inv) (hp : ∀ call, p ≠ .parked call)
    (hcount : ∀ call found ready, p = .scan call found ready → ready = found.countP (· ≠ 0)) :
    (s.setPhase t p).Inv where
  missed := h.missed.keep (fun _ _ hw => waits_setPhase hp hw) (fun _ => rfl) rfl le_rfl
  punctual := h.punctual.keep (fun _ _ hw => waits_setPhase hp hw) fun _ _ _ => rfl
  counted := by
    intro u call found ready hphase
    by_cases hu : u = t
    · rw [hu, setPhase_self] at hphase
      exact hcount call found ready hphase
    · rw [setPhase_ne p hu] at hphase
      exact h.counted u call found ready hphase

/-! ## Steps of `sys_poll` -/

variable {found : List (BitVec 32)}

lemma scanned_eq {ready : ℕ}
    (h : s.scanned t = some (call, found, ready)) :
    s.phase t = .scan call found ready := by
  unfold scanned at h
  split at h
  · next heq =>
    split_ifs at h
    cases h
    exact heq
  · simp at h

lemma Inv.called (h : s.Inv) (ufds : ℕ → PollFd) (nfds timeoutMs : BitVec 64) :
    (s.call t ufds nfds timeoutMs).Inv := by
  unfold State.call
  dsimp only
  split_ifs
  · exact h
  · refine h.setPhase (fun _ => by simp) fun call found ready hp => ?_
    cases hp
    rfl

/-- The count goes up with the entries that show an event. -/
lemma Inv.scan (h : s.Inv) : (s.scan t).Inv := by
  unfold State.scan
  split
  · next call found ready hphase =>
    split
    · next w _ =>
      refine h.setPhase (fun _ => by simp) fun call' found' ready' hp => ?_
      cases hp
      have hcount := h.counted t call found ready hphase
      rw [List.countP_append, ← hcount, List.countP_singleton]
      by_cases hm : s.entry t w = 0
      · rw [if_pos hm, if_neg (by simpa using hm)]
        rfl
      · rw [if_neg hm, if_pos (by simpa using hm)]
    · exact h
  · exact h

/-- A call that runs again starts its scan anew, at zero. -/
lemma Inv.resume (h : s.Inv) (ufds : ℕ → PollFd) : (s.act (.resume c t ufds)).Inv := by
  unfold State.act
  dsimp only
  split
  · refine h.setPhase (fun _ => by simp) fun call found ready hp => ?_
    cases hp
    rfl
  · exact h

lemma Inv.leave (h : s.Inv) : (s.setPhase t .user).Inv :=
  h.setPhase (fun _ => by simp) fun _ _ _ hp => absurd hp (by simp)

/-- A call reports 0 only if no entry of its last scan showed anything. -/
lemma Inv.report (h : s.Inv)
    (hscan : s.scanned t = some (call, found, 0)) {m : BitVec 32} (hm : m ∈ found) : m = 0 := by
  have hcount := h.counted t call found 0 (scanned_eq hscan)
  simpa using List.countP_eq_zero.mp hcount.symm m hm

/-- A park with a timeout is timed from the tick in which it happens. -/
lemma ipcPollPark_self (m : Machine) (timeoutMs : ℤ) :
    ((m.ipcPollPark c t timeoutMs).task t).state = .sleeping ∧
    (0 ≤ timeoutMs →
      ((m.ipcPollPark c t timeoutMs).task t).wakeAt = wakeTime m.jiffies timeoutMs) := by
  unfold Machine.ipcPollPark wakeTime
  rw [Machine.schedPark_self, Machine.modifyTask_self, Machine.link_self]
  refine ⟨rfl, fun h => ?_⟩
  rw [if_neg (by omega)]

/-- Two parks have one deadline exactly when the ticks agree, as counted in 64 bits. -/
lemma wakeTime_eq_iff {now first : ℕ} {timeoutMs : ℤ} :
    wakeTime now timeoutMs = wakeTime first timeoutMs ↔ now ≡ first [MOD 2 ^ 64] := by
  unfold wakeTime
  rw [Nat.add_assoc, Nat.add_assoc]
  exact ⟨fun h => Nat.ModEq.add_right_cancel' _ h, fun h => h.add_right _⟩

/-- What holds of the task that has parked, and that the others are where they were. -/
lemma park_spec {ready : ℕ}
    (hscan : s.scanned t = some (call, found, ready)) :
    (∀ k, (s.park c t).Waits t k → k.watch = call.watch) ∧ (∃ k, (s.park c t).Waits t k) ∧
    (∀ u, u ≠ t → ∀ k, (s.park c t).Waits u k → s.Waits u k) ∧
    (s.park c t).data = s.data ∧ (s.park c t).fds = s.fds ∧ (s.park c t).owed = s.owed ∧
    (call.Finite → ((s.park c t).m.task t).wakeAt = wakeTime s.m.jiffies call.parkMs) := by
  have hpark : s.park c t
      = { s.setPhase t (.parked { call with first := some (call.first.getD s.m.jiffies) }) with
          m := s.m.ipcPollPark c t call.parkMs } := by
    unfold State.park
    rw [hscan]
  have hphase : (s.park c t).phase t
      = .parked { call with first := some (call.first.getD s.m.jiffies) } := by
    rw [hpark]
    exact setPhase_self _
  have hself := ipcPollPark_self (c := c) (t := t) s.m call.parkMs
  refine ⟨fun k hk => ?_, ⟨_, hphase, ?_⟩, fun u hu k hk => ?_, ?_, ?_, ?_, fun hfin => ?_⟩
  · have heq := hphase.symm.trans hk.1
    cases heq
    rfl
  · rw [hpark]
    exact hself.1
  · obtain ⟨hk, hstate⟩ := hk
    rw [hpark] at hk hstate
    refine ⟨(setPhase_ne _ hu).symm.trans hk, ?_⟩
    have hother : ((s.m.ipcPollPark c t call.parkMs).task u).state = (s.m.task u).state := by
      unfold Machine.ipcPollPark
      rw [Machine.schedPark_state, Machine.modifyTask_ne _ hu, Machine.link_ne _ hu]
    exact hother.symm.trans hstate
  · rw [hpark]
    rfl
  · rw [hpark]
    rfl
  · rw [hpark]
    rfl
  · rw [hpark]
    exact hself.2 hfin

variable {k : Call}

lemma ready_congr (hdata : s'.data = s.data) (hfds : s'.fds = s.fds)
    (hwatch : k.watch = call.watch) : s'.Ready t k ↔ s.Ready t call := by
  unfold Ready events
  rw [hdata, hfds, hwatch]

/-- A park is where an event can be missed and a deadline can move. -/
lemma lawful_park (h : s.NothingMissed) (hscan : ∃ call found ready,
    s.scanned t = some (call, found, ready)) :
    Lawful s (.park c t) (s.park c t) ↔ s.Clean (.park c t) := by
  obtain ⟨call, found, ready, hscan⟩ := hscan
  obtain ⟨hwatch, ⟨k, hk⟩, hothers, hdata, hfds, howed, hwake⟩ := park_spec (c := c) hscan
  have hready : ∀ k, (s.park c t).Waits t k → ((s.park c t).Ready t k ↔ s.Ready t call) :=
    fun k hk => ready_congr hdata hfds (hwatch k hk)
  constructor
  · -- the task that has parked is a witness against the law if it has missed an event
    intro hlaw call' found' ready' hscan'
    cases hscan.symm.trans hscan'
    refine ⟨fun hfree hr => ?_, fun hfin first hfirst => ?_⟩
    · have hpos := hlaw.1 t k hk ((hready k hk).mpr hr)
      omega
    · have htime := (hlaw.2 call found ready first hscan hfin hfirst).1
      rw [hwake hfin] at htime
      exact wakeTime_eq_iff.mp htime
  · intro hclean
    obtain ⟨hmiss, htime⟩ := hclean call found ready hscan
    refine ⟨fun u k hk hr => ?_, fun call' found' ready' first hscan' hfin hfirst => ?_⟩
    · rw [howed]
      by_cases hu : u = t
      · subst hu
        by_contra hpos
        exact hmiss (by omega) ((hready k hk).mp hr)
      · exact h u k (hothers u hu k hk) ((ready_congr hdata hfds rfl).mp hr)
    · cases hscan.symm.trans hscan'
      rw [hwake hfin]
      exact ⟨wakeTime_eq_iff.mpr (htime hfin first hfirst), fun hover =>
        hover.later (htime hfin first hfirst)⟩

/-- The first park fixes the deadline, and a later one has to keep it. -/
lemma Inv.park (h : s.Inv) (hscan : ∃ call found ready, s.scanned t = some (call, found, ready))
    (hlaw : Lawful s (.park c t) (s.park c t)) : (s.park c t).Inv where
  missed := hlaw.1
  punctual := by
    obtain ⟨call, found, ready, hscan⟩ := hscan
    obtain ⟨-, -, hothers, -, -, -, hwake⟩ := park_spec (c := c) hscan
    intro u k hk hfin
    by_cases hu : u = t
    · subst hu
      have hphase := hk.1
      unfold State.park at hphase
      rw [hscan] at hphase
      obtain rfl := Phase.parked.inj ((setPhase_self _).symm.trans hphase)
      refine ⟨_, rfl, ?_⟩
      cases hfirst : call.first with
      | none => exact hwake hfin
      | some first => exact (hlaw.2 call found ready first hscan hfin hfirst).1
    · obtain ⟨first, hfirst, hwakeAt⟩ := h.punctual u k (hothers u hu k hk) hfin
      refine ⟨first, hfirst, Eq.trans ?_ hwakeAt⟩
      unfold State.park
      rw [hscan]
      show ((s.m.ipcPollPark c t call.parkMs).task u).wakeAt = _
      exact Machine.act_wakeAt (.pollPark c t call.parkMs) fun heq => hu heq.symm
  counted := by
    obtain ⟨call, found, ready, hscan⟩ := hscan
    intro u call' found' ready' hphase
    unfold State.park at hphase
    rw [hscan] at hphase
    by_cases hu : u = t
    · rw [hu] at hphase
      have hself := setPhase_self (s := s) (t := t)
        (.parked { call with first := some (call.first.getD s.m.jiffies) })
      exact absurd (hself.symm.trans hphase) (by simp)
    · exact h.counted u call' found' ready' ((setPhase_ne _ hu).symm.trans hphase)

/-! ## Wakes, and changes without a wake -/

/-- After a wake those sleep that it has not found in `poll_wq`. -/
lemma waits_wake : (s.act (.wake c)).Waits t k ↔
    s.Waits t k ∧ t ∉ s.m.onQueue .poll := by
  constructor
  · rintro ⟨hphase, hstate⟩
    obtain ⟨hsleep, hoff⟩ := Machine.sleeping_wake hstate
    exact ⟨⟨hphase, hsleep⟩, hoff⟩
  · rintro ⟨⟨hphase, hstate⟩, hoff⟩
    obtain ⟨m', hsw, -, htask, -⟩ :=
      Machine.wake_swept (m := s.m) (c := c) (q := .poll) .ipcWakePollers
    refine ⟨hphase, ?_⟩
    show ((s.m.wake .ipcWakePollers c .poll).task t).state = .sleeping
    rw [htask, hsw.off t hoff]
    exact hstate

/-- The last wake under way has to find every call that has an event. -/
lemma missed_wake (howed : 0 < s.owed) :
    (s.act (.wake c)).NothingMissed ↔ s.Clean (.wake c) := by
  constructor
  · intro hall hone t k hk hr
    by_contra hoff
    have hpos : 0 < s.owed - 1 := hall t k (waits_wake.mpr ⟨hk, hoff⟩) hr
    omega
  · intro hclean t k hk hr
    obtain ⟨hk, hoff⟩ := waits_wake.mp hk
    show 0 < s.owed - 1
    by_contra hpos
    exact hoff (hclean (by omega) t k hk hr)

/-- A section that changes what a poll shows owes a wake. -/
lemma missed_op (h : s.NothingMissed) (o : DataOp) : (s.act (.op o)).NothingMissed := by
  cases hwakes : (o.run s.data).2 with
  | true =>
    intro t k _ _
    show 0 < if (o.run s.data).2 then s.owed + 1 else s.owed
    rw [hwakes]
    exact Nat.succ_pos _
  | false =>
    refine h.keep (fun _ _ hw => hw) (fun src => fileReady_run hwakes src) rfl ?_
    show s.owed ≤ if (o.run s.data).2 then s.owed + 1 else s.owed
    rw [hwakes]
    exact le_rfl

/-- Only the sleepers that watch a source can miss its change. -/
lemma missed_source {d : Data} {p : Source} (h : s.NothingMissed)
    (hother : ∀ src, src ≠ p → fileReady d src = fileReady s.data src) :
    ({ s with data := d } : State).NothingMissed ↔
      ∀ w, s.Watches s.fds p w → fileReady d p &&& w.wanted = 0 := by
  rw [nothingMissed_iff]
  constructor
  · exact fun hall w hw => hall p w hw
  · intro hall src w hw
    by_cases hsrc : src = p
    · rw [hsrc] at hw ⊢
      exact hall w hw
    · rw [hother src hsrc]
      exact nothingMissed_iff.mp h src w hw

/-- The stack wakes no poller when a packet comes in. -/
lemma missed_net (h : s.NothingMissed) (k : ℕ) (iso : InetSock) :
    (s.act (.net k iso)).NothingMissed ↔ s.Clean (.net k iso) := by
  have hself : fileReady { s.data with inet := update s.data.inet k iso } (.inet k)
      = inetPoll iso := congrArg inetPoll (update_self _ _ _)
  have hsource := missed_source (d := { s.data with inet := update s.data.inet k iso })
    (p := .inet k) h ?_
  · rw [hself] at hsource
    exact hsource
  · intro src hne
    cases src with
    | inet j =>
      have hj : j ≠ k := fun heq => hne (congrArg Source.inet heq)
      exact congrArg inetPoll (update_of_ne hj _ _)
    | _ => rfl

/-- Nor does the console when a line is complete. -/
lemma missed_tty (h : s.NothingMissed) (lines : ℕ) :
    (s.act (.tty lines)).NothingMissed ↔ s.Clean (.tty lines) := by
  refine missed_source (p := .console) h fun src hne => ?_
  cases src with
  | console => exact absurd rfl hne
  | _ => rfl

/-- Nor does an input event. -/
lemma missed_input (h : s.NothingMissed) (count : ℕ) :
    (s.act (.input count)).NothingMissed ↔ s.Clean (.input count) := by
  refine missed_source (p := .event0) h fun src hne => ?_
  cases src with
  | event0 => exact absurd rfl hne
  | _ => rfl

/-! ## The law -/

/-- The scheduler puts no task into a poll. -/
lemma waits_sched {a : Sched.Act} (hactor : ∀ t, actor a = some t → s.phase t = .user) (h : (s.act (.sched a)).Waits t k) : s.Waits t k := by
  obtain ⟨hphase, hstate⟩ := h
  refine ⟨hphase, Machine.sleeping_act hstate fun ha => ?_⟩
  have huser := hactor t ha
  rw [show s.phase t = .parked k from hphase] at huser
  simp at huser

/-- The section of another task does not touch the time at which a call wakes up. -/
lemma wakeAt_sched {a : Sched.Act} (hactor : ∀ t, actor a = some t → s.phase t = .user)
    (h : (s.act (.sched a)).Waits t k) : ((s.m.act a).task t).wakeAt = (s.m.task t).wakeAt := by
  refine Machine.act_wakeAt a fun harms => ?_
  have hphase : s.phase t = .parked k := h.1
  cases a with
  | sleepArm c u msecs =>
    obtain rfl : u = t := harms
    exact absurd ((hactor u rfl).symm.trans hphase) (by simp)
  | pollPark c u timeoutMs =>
    obtain rfl : u = t := harms
    exact absurd ((hactor u rfl).symm.trans hphase) (by simp)
  | create u prio =>
    obtain rfl : u = t := harms
    have hready : ((s.m.taskCreate u prio).task u).state = .ready := by
      simp [Machine.taskCreate, Machine.taskPrime, Machine.modifyTask]
    exact absurd (hready.symm.trans h.2) (by simp)
  | _ => exact harms

lemma Inv.samePhase (h : s.Inv) (hphase : s'.phase = s.phase) (hmissed : s'.NothingMissed)
    (hpunctual : s'.Punctual) : s'.Inv where
  missed := hmissed
  punctual := hpunctual
  counted := by
    rw [hphase]
    exact h.counted

/-- Step by step the law is the condition; the tick wakes what is over by `expired`. -/
lemma Inv.lawful_iff {a : Act} (h : s.Inv) (hstep : Step s a s') : Lawful s a s' ↔ s.Clean a := by
  obtain ⟨hen, rfl⟩ := hstep
  cases a with
  | sched a =>
    -- no section of the scheduler puts a task to sleep that is in `sys_poll`
    refine iff_of_true ⟨?_, ?_⟩ trivial
    · exact h.missed.keep (fun _ _ hw => waits_sched hen.2 hw) (fun _ => rfl) rfl le_rfl
    · cases a with
      | tick c =>
        intro t call hw hfin
        obtain ⟨first, hfirst, hwakeAt⟩ := h.punctual t call hw hfin
        refine ⟨first, hfirst, fun hover => ?_⟩
        have hexp : s.m.expired (s.m.task t) = true := hover.expired rfl hwakeAt
        have hready := Machine.ready_of_expired (c := c) hw.2 hexp
        simpa only [State.act, Machine.act] using hready
      | _ => trivial
  | call c t ufds nfds timeoutMs =>
    exact iff_of_true ⟨(h.called ufds nfds timeoutMs).missed, trivial⟩ trivial
  | scan c t => exact iff_of_true ⟨h.scan.missed, trivial⟩ trivial
  | park c t =>
    obtain ⟨-, call, found, hscan, -⟩ := hen
    exact lawful_park h.missed ⟨call, found, 0, hscan⟩
  | ret c t =>
    exact iff_of_true ⟨h.leave.missed, fun call found hscan m hm => h.report hscan hm⟩ trivial
  | resume c t ufds => exact iff_of_true ⟨(h.resume ufds).missed, trivial⟩ trivial
  | fault c t => exact iff_of_true ⟨h.leave.missed, trivial⟩ trivial
  | op o => exact iff_of_true ⟨missed_op h.missed o, trivial⟩ trivial
  | wake c => exact (and_iff_left trivial).trans (missed_wake hen)
  | net k iso => exact (and_iff_left trivial).trans (missed_net h.missed k iso)
  | tty lines => exact (and_iff_left trivial).trans (missed_tty h.missed lines)
  | input count => exact (and_iff_left trivial).trans (missed_input h.missed count)
  | fdTable fds => exact (and_iff_left trivial).trans nothingMissed_iff

/-- The law of a step is what keeps the invariant. -/
lemma Inv.step {a : Act} (h : s.Inv) (hstep : Step s a s') (hlaw : Lawful s a s') : s'.Inv := by
  obtain ⟨hen, rfl⟩ := hstep
  cases a with
  | sched a =>
    exact h.samePhase rfl hlaw.1
      (h.punctual.keep (fun _ _ hw => waits_sched hen.2 hw) fun _ _ hw => wakeAt_sched hen.2 hw)
  | call c t ufds nfds timeoutMs => exact h.called ufds nfds timeoutMs
  | scan c t => exact h.scan
  | park c t =>
    obtain ⟨-, call, found, hscan, -⟩ := hen
    exact h.park ⟨call, found, 0, hscan⟩ hlaw
  | ret c t => exact h.leave
  | resume c t ufds => exact h.resume ufds
  | fault c t => exact h.leave
  | op o => exact h.samePhase rfl hlaw.1 h.punctual
  | wake c =>
    exact h.samePhase rfl hlaw.1 (h.punctual.keep (fun _ _ hw => (waits_wake.mp hw).1) fun t _ _ =>
      (Machine.wake_still .ipcWakePollers _).wakeAt t)
  | net k iso => exact h.samePhase rfl hlaw.1 h.punctual
  | tty lines => exact h.samePhase rfl hlaw.1 h.punctual
  | input count => exact h.samePhase rfl hlaw.1 h.punctual
  | fdTable fds => exact h.samePhase rfl hlaw.1 h.punctual

/-- **Poll loses no event.** The runs in which no call sleeps while a requested event holds and no
wake is on its way, no call with a timeout sleeps beyond the end of its first park, and a call
reports 0 only if its last scan found nothing, are the runs in which no event comes between the
scan and the park, no call with a timeout parks again in a later tick, every wake finds the calls
it is for in the queue, and what wakes no poller shows no poller an event. -/
theorem poll_loses_nothing {start : State} {as : List Act} (h : start.Start) :
    Run (Guarded Clean Step) start as s ↔
      Run (fun s a u => Step s a u ∧ Lawful s a u) start as s := by
  refine Run.guarded_iff (I := Inv) (fun s a u hs hstep hlaw => hs.step hstep hlaw)
    (fun s a u hs hstep => hs.lawful_iff hstep) h.inv

/-! ## An event between the scan and the park -/

/-- A task that has descriptor 0 on a pipe is ready to run. -/
def oneTask : State where
  m := Machine.boot.taskCreate 0 10
  data :=
    { pipe := fun _ => pipeMake
      socks := Socks.init
      inet := fun _ => ⟨false, none, 0⟩
      ttyLines := 0
      inputCount := 0 }
  fds := fun _ fd => if fd = 0 then some (.pipe 0) else none
  owed := 0
  phase := fun _ => .user

lemma oneTask_start : oneTask.Start := fun _ => rfl

/-- It waits a millisecond for the pipe to become readable. -/
def readable : Call := ⟨[⟨0, 1⟩], 1, none⟩

/-- The call has scanned the pipe. -/
def emptyScan : State :=
  (((oneTask.act (.sched (.dispatch 0))).act (.call 0 0 (fun _ => ⟨0, 1⟩) 1 1)).act (.scan 0 0))

lemma emptyScan_run : Run (Guarded Clean Step) oneTask
    [.sched (.dispatch 0), .call 0 0 (fun _ => ⟨0, 1⟩) 1 1, .scan 0 0] emptyScan := by
  have h₁ : Step oneTask (.sched (.dispatch 0)) (oneTask.act (.sched (.dispatch 0))) :=
    ⟨⟨rfl, nofun⟩, rfl⟩
  have h₂ : Step (oneTask.act (.sched (.dispatch 0))) (.call 0 0 (fun _ => ⟨0, 1⟩) 1 1) _ :=
    ⟨⟨by decide, rfl⟩, rfl⟩
  have h₃ : Step ((oneTask.act (.sched (.dispatch 0))).act
      (.call 0 0 (fun _ => ⟨0, 1⟩) 1 1)) (.scan 0 0) emptyScan :=
    ⟨⟨by decide, readable, [], 0, by decide, by decide⟩, rfl⟩
  exact ((Run.nil.guarded h₁ trivial).guarded h₂ trivial).guarded h₃ trivial

/-- The call parks, its timeout passes, and it runs again. -/
def timedOut : List Act :=
  [.sched (.dispatch 0), .call 0 0 (fun _ => ⟨0, 1⟩) 1 1, .scan 0 0, .park 0 0, .sched .clock,
    .sched (.tick 1), .sched (.dispatch 0)]

/-- The theorem on this run. -/
theorem poll_loses_nothing_scan :
    ∃ s, Run (fun s a u => Step s a u ∧ Lawful s a u) oneTask timedOut s ∧
      (s.m.task 0).state = .running := by
  have hscan : emptyScan.scanned 0 = some (readable, [0], 0) := by decide
  have hpark : Step emptyScan (.park 0 0) (emptyScan.act (.park 0 0)) :=
    ⟨⟨by decide, readable, [0], hscan, by decide⟩, rfl⟩
  have hclean : emptyScan.Clean (.park 0 0) := by
    intro call found ready heq
    obtain ⟨rfl, -⟩ := Prod.mk.inj (Option.some.inj (hscan.symm.trans heq))
    refine ⟨fun _ hready => ?_, fun _ first hfirst => ?_⟩
    · obtain ⟨w, hw, hev⟩ := hready
      obtain rfl := List.mem_singleton.mp hw
      exact hev (by decide)
    · exact absurd (show none = some first from hfirst) (by simp)
  let s₁ := emptyScan.act (.park 0 0)
  let s₂ := s₁.act (.sched .clock)
  let s₃ := s₂.act (.sched (.tick 1))
  have hclock : Step s₁ (.sched .clock) s₂ := ⟨⟨trivial, nofun⟩, rfl⟩
  have htick : Step s₂ (.sched (.tick 1)) s₃ := ⟨⟨.inr rfl, nofun⟩, rfl⟩
  have hidle : (s₃.m.cpu 0).dispatched = false := by decide +kernel
  have hagain : Step s₃ (.sched (.dispatch 0)) _ := ⟨⟨hidle, nofun⟩, rfl⟩
  have hrun := (((emptyScan_run.guarded hpark hclean).guarded hclock trivial).guarded htick
    trivial).guarded hagain trivial
  refine ⟨_, (poll_loses_nothing oneTask_start).mp hrun, ?_⟩
  decide +kernel

/-- A byte is written to the pipe and its wake is over. -/
def written : State := (emptyScan.act (.op (.pipeWrite 0 1 true [65]))).act (.wake 1)

/-- The call parks behind the only wake of the byte that it waits for. -/
theorem poll_misses_write :
    ¬ ∀ (start s s' : State) (as : List Act) (a : Act), start.Start → Run Step start as s →
      Step s a s' → s'.NothingMissed := by
  intro hall
  have hwrite : Step emptyScan (.op (.pipeWrite 0 1 true [65])) _ := ⟨trivial, rfl⟩
  have howed : 0 < (emptyScan.act (.op (.pipeWrite 0 1 true [65]))).owed := by decide
  have hwake : Step (emptyScan.act (.op (.pipeWrite 0 1 true [65]))) (.wake 1) written :=
    ⟨howed, rfl⟩
  have hpark : Step written (.park 0 0) (written.act (.park 0 0)) :=
    ⟨⟨by decide, readable, [0], by decide, by decide⟩, rfl⟩
  have hrun := ((emptyScan_run.mono fun _ _ _ h => h.2).snoc hwrite).snoc hwake
  have hmissed := hall _ _ _ _ _ oneTask_start hrun hpark
  have hwaits : (written.act (.park 0 0)).Waits 0 { readable with first := some 0 } :=
    ⟨by decide, by decide⟩
  have hready : (written.act (.park 0 0)).Ready 0 { readable with first := some 0 } :=
    ⟨⟨0, 1⟩, by decide, by decide⟩
  have hpos := hmissed 0 _ hwaits hready
  revert hpos
  decide

end State

end Poll
end MobilePhoneOs
