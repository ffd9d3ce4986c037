import MobilePhoneOs.Kernel.Unixsock

/-!
# A socket pair is two byte streams, and when its wakeups reach the right endpoint

Each direction is the ring of its reader. The ring loops are shown to take from, or append to,
the queue that the ring stands for, and every section is described by what it does to the two
rings and to the four wait queues of the pair.
-/

namespace MobilePhoneOs

namespace Ipc

open Mem

/-! ## The byte ring -/

namespace IpcRing

/-- The bytes queued in the ring, oldest first. -/
def queued (r : IpcRing) : List UInt8 := Ring.contents r.cap r.buf r.head r.len

/-- The indices stay inside the ring. -/
structure Ok (r : IpcRing) : Prop where
  head_lt : r.head < r.cap
  len_le : r.len ≤ r.cap

/-- The loop of `ipc_ring_pull` moves the head over the bytes that it copies. -/
lemma pullLoop_spec (fuel : ℕ) (r : IpcRing) (left : ℕ) (hr : r.head < r.cap)
    (hleft : left ≤ r.cap) (hfuel : left ≤ fuel) :
    ∃ head', head' < r.cap ∧ (pullLoop fuel r left).1 = { r with head := head' } ∧
      (pullLoop fuel r left).2 = Ring.contents r.cap r.buf r.head left ∧
      head' = (r.head + left) % r.cap := by
  induction fuel generalizing r left with
  | zero =>
    obtain rfl : left = 0 := by omega
    exact ⟨r.head, hr, rfl, rfl, (Nat.mod_eq_of_lt hr).symm⟩
  | succ fuel ih =>
    rw [pullLoop]
    split_ifs with h0
    · subst h0
      exact ⟨r.head, hr, rfl, rfl, (Nat.mod_eq_of_lt hr).symm⟩
    set seg := min (r.cap - r.head) left with hseg
    have hcap : 0 < r.cap := by omega
    obtain ⟨head', hh, hfst, hsnd, hhead⟩ := ih { r with head := (r.head + seg) % r.cap }
      (left - seg) (Nat.mod_lt _ hcap) (show left - seg ≤ r.cap by omega) (by omega)
    refine ⟨head', hh, hfst, ?_, ?_⟩
    · have hfirst : Ring.contents r.cap r.buf r.head seg = slice r.buf r.head seg :=
        Ring.contents_eq_slice (by omega)
      have hsplit : Ring.contents r.cap r.buf r.head left = _ ++ _ :=
        Ring.contents_split r.buf r.head (show seg ≤ left by omega)
      show slice r.buf r.head seg ++ _ = _
      rw [hsplit, hfirst, hsnd]
    · rw [hhead]
      rw [Nat.mod_add_mod]
      congr 1
      omega

/-- `ipc_ring_pull` takes bytes from the front of the queue, as many as it can. -/
lemma pull_spec {r : IpcRing} (hr : r.Ok) (n : ℕ) :
    (ipcRingPull r n).1.Ok ∧ (ipcRingPull r n).1.cap = r.cap ∧
      (ipcRingPull r n).1.len = r.len - min n r.len ∧
      r.queued = (ipcRingPull r n).2 ++ (ipcRingPull r n).1.queued := by
  have hmin : (if n > r.len then r.len else n) = min n r.len := by
    split_ifs <;> omega
  have hlen := hr.len_le
  obtain ⟨head', hh, hfst, hsnd, hhead⟩ := pullLoop_spec (min n r.len) r (min n r.len)
    hr.head_lt (by omega) le_rfl
  have hsplit : Ring.contents r.cap r.buf r.head r.len = _ ++ _ :=
    Ring.contents_split r.buf r.head (min_le_right n r.len)
  simp only [ipcRingPull, hmin, hfst, hsnd]
  refine ⟨⟨hh, show r.len - _ ≤ r.cap by omega⟩, trivial, trivial, ?_⟩
  rw [queued, hsplit, ← hhead]
  rfl

/-- The loop of `ipc_ring_push` appends its bytes to the queue. -/
lemma pushLoop_spec (fuel : ℕ) (r : IpcRing) (src : List UInt8) (hr : r.head < r.cap)
    (hroom : r.len + src.length ≤ r.cap) (hfuel : src.length ≤ fuel) :
    ∃ buf', pushLoop fuel r src = { r with buf := buf', len := r.len + src.length } ∧
      (pushLoop fuel r src).queued = r.queued ++ src := by
  induction fuel generalizing r src with
  | zero =>
    obtain rfl : src = [] := List.length_eq_zero_iff.mp (by omega)
    exact ⟨r.buf, rfl, (List.append_nil _).symm⟩
  | succ fuel ih =>
    rw [pushLoop]
    split_ifs with h0
    · obtain rfl : src = [] := List.length_eq_zero_iff.mp h0
      exact ⟨r.buf, rfl, (List.append_nil _).symm⟩
    set tail := (r.head + r.len) % r.cap with htail
    set seg := min (r.cap - tail) src.length with hseg
    have htl : tail < r.cap := Nat.mod_lt _ (by omega)
    have hlen : (src.take seg).length = seg := List.length_take_of_le (by omega)
    -- one round appends a contiguous piece of the source
    let q : IpcRing := { r with buf := store r.buf tail (src.take seg), len := r.len + seg }
    have hround : q.queued = r.queued ++ src.take seg := by
      have happ := Ring.contents_store htail (show r.len + (src.take seg).length ≤ _ by omega)
        (show tail + (src.take seg).length ≤ _ by omega) (b := r.buf)
      rw [hlen] at happ
      exact happ
    have hdrop : (src.drop seg).length = src.length - seg := List.length_drop
    obtain ⟨buf', heq, hcont⟩ := ih q (src.drop seg) hr
      (show r.len + seg + _ ≤ r.cap by omega) (by omega)
    refine ⟨buf', ?_, ?_⟩
    · have hrest : r.len + seg + (src.drop seg).length = r.len + src.length := by omega
      rw [← hrest]
      exact heq
    · rw [hcont, hround, List.append_assoc, List.take_append_drop]

/-- `ipc_ring_push` appends as much of the source as there is room for. -/
lemma push_spec {r : IpcRing} (hr : r.Ok) (src : List UInt8) :
    (ipcRingPush r src).2 = min src.length (r.cap - r.len) ∧ (ipcRingPush r src).1.Ok ∧
      (ipcRingPush r src).1.cap = r.cap ∧
      (ipcRingPush r src).1.queued = r.queued ++ src.take (ipcRingPush r src).2 := by
  have hmin : (if src.length > r.cap - r.len then r.cap - r.len else src.length)
      = min src.length (r.cap - r.len) := by
    split_ifs <;> omega
  have hlen := hr.len_le
  have htake : (src.take (min src.length (r.cap - r.len))).length
      = min src.length (r.cap - r.len) := List.length_take_of_le (by omega)
  obtain ⟨buf', heq, hcont⟩ := pushLoop_spec (min src.length (r.cap - r.len)) r
    (src.take (min src.length (r.cap - r.len))) hr.head_lt (by omega) (by omega)
  simp only [ipcRingPush, hmin]
  refine ⟨trivial, ?_, ?_, hcont⟩
  · rw [heq]
    exact ⟨hr.head_lt, show r.len + _ ≤ r.cap by omega⟩
  · rw [heq]

end IpcRing

namespace Usock

open Socks (setEp_of_ne setEp_self)

/-! ## What a section does -/

variable {s : Socks} {e : EpId}

/-- A section of `us_read` leaves everything, or takes bytes from the ring of the endpoint and
wakes its writers, or parks on an empty ring whose peer is there. -/
lemma usRead_cases {s' : Socks} {t : Task} {hasBuf : Bool} {len : ℕ}
    {out : ReadOutcome} (h : (s', out) = usRead s e t hasBuf len) :
    (s' = s ∧ (∀ bytes, out ≠ .data bytes) ∧
      ¬ (len ≠ 0 ∧ hasBuf = true ∧ (s.ep e).ring.len ≠ 0)) ∨
    ((len ≠ 0 ∧ hasBuf = true ∧ (s.ep e).ring.len ≠ 0) ∧
      out = .data (ipcRingPull (s.ep e).ring len).2 ∧
      s' = s.setEp e { s.ep e with ring := (ipcRingPull (s.ep e).ring len).1, wq := [] }) ∨
    ((s.ep e).ring.len = 0 ∧ (s.ep e).hup = false ∧ out = .parked ∧
      s' = s.setEp e { s.ep e with rq := t :: (s.ep e).rq }) := by
  unfold usRead at h
  dsimp only at h
  split_ifs at h with h0 hne heof
  · obtain ⟨rfl, rfl⟩ := Prod.mk.inj h
    exact .inl ⟨rfl, nofun, fun hc => by rcases h0 with h0 | h0 <;> simp_all⟩
  · obtain ⟨rfl, rfl⟩ := Prod.mk.inj h
    rw [not_or, Bool.not_eq_false] at h0
    exact .inr (.inl ⟨⟨h0.1, h0.2, hne⟩, rfl, rfl⟩)
  · obtain ⟨rfl, rfl⟩ := Prod.mk.inj h
    exact .inl ⟨rfl, nofun, fun hc => hne hc.2.2⟩
  · obtain ⟨rfl, rfl⟩ := Prod.mk.inj h
    rw [not_or, Bool.not_eq_true] at heof
    exact .inr (.inr ⟨not_not.mp hne, heof.2, rfl, rfl⟩)

/-- A section of `us_write` leaves everything, or puts bytes into the ring of the peer and wakes
its readers, or parks while that ring takes nothing. -/
lemma usWrite_cases {s' : Socks} {t : Task} {hasBuf : Bool} {src : List UInt8}
    {out : WriteOutcome} (h : (s', out) = usWrite s e t hasBuf src) :
    (s' = s ∧ ∀ n, out ≠ .accepted n) ∨
    ∃ f, (s.ep e).peer = some f ∧ (s.ep e).hup = false ∧ src.length ≠ 0 ∧
      (((ipcRingPush (s.ep f).ring src).2 ≠ 0 ∧
          out = .accepted (ipcRingPush (s.ep f).ring src).2 ∧
          s' = s.setEp f { s.ep f with ring := (ipcRingPush (s.ep f).ring src).1, rq := [] }) ∨
        ((ipcRingPush (s.ep f).ring src).2 = 0 ∧ out = .parked ∧
          s' = s.setEp e { s.ep e with wq := t :: (s.ep e).wq })) := by
  unfold usWrite at h
  dsimp only at h
  split_ifs at h with h0 hbuf hhup
  · obtain ⟨rfl, rfl⟩ := Prod.mk.inj h
    exact .inl ⟨rfl, nofun⟩
  · obtain ⟨rfl, rfl⟩ := Prod.mk.inj h
    exact .inl ⟨rfl, nofun⟩
  · obtain ⟨rfl, rfl⟩ := Prod.mk.inj h
    exact .inl ⟨rfl, nofun⟩
  · rw [Bool.not_eq_true] at hhup
    split at h
    · obtain ⟨rfl, rfl⟩ := Prod.mk.inj h
      exact .inl ⟨rfl, nofun⟩
    · next f hpeer =>
      refine .inr ⟨f, hpeer, hhup, h0, ?_⟩
      split_ifs at h with hput
      · obtain ⟨rfl, rfl⟩ := Prod.mk.inj h
        exact .inl ⟨hput, rfl, rfl⟩
      · obtain ⟨rfl, rfl⟩ := Prod.mk.inj h
        exact .inr ⟨not_not.mp hput, rfl, rfl⟩

/-- `ep_release` tells a peer that is still open, and wakes everyone there. -/
lemma epRelease_cases {f : EpId} (hef : f ≠ e) (hpeer : (s.ep e).peer = some f) :
    (epRelease s e).ep e = { s.ep e with peer := none, state := .free } ∧
      (epRelease s e).ep f = if (s.ep f).state = .free then s.ep f
        else { s.ep f with hup := true, rq := [], wq := [] } := by
  unfold epRelease
  rw [hpeer]
  by_cases hfree : (s.ep f).state = .free
  · rw [if_pos hfree]
    simp [Option.filter, hfree, setEp_of_ne _ _ hef]
  · rw [if_neg hfree]
    simp [Option.filter, hfree, setEp_of_ne _ _ hef, setEp_of_ne _ _ hef.symm,
      usWakeAll]

namespace Stream

variable {a b e : EpId} {s s' : Socks}

/-! ## The pair -/

lemma other_mem (a b e : EpId) : other a b e = a ∨ other a b e = b := by
  unfold other
  split_ifs
  · exact .inr rfl
  · exact .inl rfl

lemma other_ne (hab : a ≠ b) (he : e = a ∨ e = b) : other a b e ≠ e := by
  unfold other
  rcases he with rfl | rfl
  · rw [if_pos rfl]
    exact hab.symm
  · rw [if_neg hab.symm]
    exact hab

lemma other_other (hab : a ≠ b) (he : e = a ∨ e = b) : other a b (other a b e) = e := by
  unfold other
  rcases he with rfl | rfl
  · rw [if_pos rfl, if_neg hab.symm]
  · rw [if_neg hab.symm, if_pos rfl]

/-- What holds of an endpoint of the pair and of the other one holds of both. -/
lemma forall_pair {P : EpId → Prop} (he : e = a ∨ e = b) (h : P e) (h' : P (other a b e)) (g : EpId)
    (hg : g = a ∨ g = b) : P g := by
  rcases eq_or_ne g e with rfl | hne
  · exact h
  · have hother : g = other a b e := by
      unfold other
      split_ifs with hea
      · exact hg.resolve_left fun hga => hne (hga.trans hea.symm)
      · exact hg.resolve_right fun hgb => hne (hgb.trans (he.resolve_left hea).symm)
    rw [hother]
    exact h'

/-- An endpoint `x` of the pair and how it is wired to the other one, `y` with the id `f`. -/
structure Wired (f : EpId) (x y : Endpoint) : Prop where
  ok : x.ring.Ok
  cap : x.ring.cap = USOCK_BUF_CAP
  state : x.state = .data ∨ x.state = .free
  peer : x.state = .data → x.peer = some f
  hup : x.state = .data → (x.hup = false ↔ y.state = .data)

/-- Parked readers have nothing to read but may still get something; parked writers have no
room; nobody is parked on a closed endpoint. -/
structure Queues (x y : Endpoint) : Prop where
  rq : x.rq ≠ [] → x.state = .data ∧ x.ring.len = 0 ∧ y.state = .data
  wq : x.wq ≠ [] → x.state = .data ∧ y.ring.len = USOCK_BUF_CAP

/-- Both directions of the pair are wired, and what was accepted at one end is what was read at
the other followed by what is still queued there. -/
structure Inv (a b : EpId) (hist : List Event) (s : Socks) : Prop where
  wired : ∀ e, e = a ∨ e = b → Wired (other a b e) (s.ep e) (s.ep (other a b e))
  stream : ∀ e, e = a ∨ e = b →
    bytesWritten (other a b e) hist = bytesRead e hist ++ (s.ep e).ring.queued

section

variable (hab : a ≠ b) (h : ∀ g, g = a ∨ g = b → Wired (other a b g) (s.ep g) (s.ep (other a b g)))
  (he : e = a ∨ e = b)
include hab h he

/-- A change to one endpoint that keeps its wiring. -/
lemma wired_setEp {x : Endpoint} (hok : x.ring.Ok)
    (hcap : x.ring.cap = (s.ep e).ring.cap) (hstate : x.state = (s.ep e).state)
    (hpeer : x.peer = (s.ep e).peer) (hhup : x.hup = (s.ep e).hup) :
    ∀ g, g = a ∨ g = b →
      Wired (other a b g) ((s.setEp e x).ep g) ((s.setEp e x).ep (other a b g)) := by
  have hne := other_ne hab he
  have hx := h e he
  have hy := h _ (other_mem a b e)
  rw [other_other hab he] at hy
  refine forall_pair he ?_ ?_
  · rw [setEp_self, setEp_of_ne _ _ hne]
    refine ⟨hok, hcap.trans hx.cap, ?_, ?_, ?_⟩
    · rw [hstate]
      exact hx.state
    · rw [hstate, hpeer]
      exact hx.peer
    · rw [hstate, hhup]
      exact hx.hup
  · rw [other_other hab he, setEp_self, setEp_of_ne _ _ hne]
    refine ⟨hy.ok, hy.cap, hy.state, hy.peer, ?_⟩
    rw [hstate]
    exact hy.hup

/-- Closing one endpoint. -/
lemma wired_release (hopen : (s.ep e).state = .data) :
    ∀ g, g = a ∨ g = b →
      Wired (other a b g) ((epRelease s e).ep g) ((epRelease s e).ep (other a b g)) := by
  have hx := h e he
  have hy := h _ (other_mem a b e)
  rw [other_other hab he] at hy
  obtain ⟨hself, hother⟩ := epRelease_cases (other_ne hab he) (hx.peer hopen)
  refine forall_pair he ?_ ?_
  · rw [hself]
    exact ⟨hx.ok, hx.cap, .inr rfl, nofun, nofun⟩
  · rw [other_other hab he, hself, hother]
    split_ifs with hfree
    · refine ⟨hy.ok, hy.cap, hy.state, hy.peer, fun hdata => ?_⟩
      rw [hfree] at hdata
      cases hdata
    · refine ⟨hy.ok, hy.cap, hy.state, hy.peer, fun _ => ?_⟩
      simp

end

lemma bytesRead_snoc (e : EpId) (hist : List Event) (ev : Event) :
    bytesRead e (hist ++ [ev]) = bytesRead e hist ++ bytesRead e [ev] := by
  simp [bytesRead]

lemma bytesWritten_snoc (e : EpId) (hist : List Event) (ev : Event) :
    bytesWritten e (hist ++ [ev]) = bytesWritten e hist ++ bytesWritten e [ev] := by
  simp [bytesWritten]

/-! ## The two streams -/

/-- Bytes that an event neither accepts nor returns. -/
structure Silent (ev : Event) : Prop where
  read : ∀ g, bytesRead g [ev] = []
  written : ∀ g, bytesWritten g [ev] = []

lemma silent_read {t : Task} {hasBuf : Bool} {len : ℕ} {out : ReadOutcome}
    (hout : ∀ bytes, out ≠ .data bytes) : Silent (.read e t hasBuf len out) := by
  refine ⟨fun g => ?_, fun g => rfl⟩
  cases out with
  | data bytes => exact absurd rfl (hout bytes)
  | nothing => rfl
  | eof => rfl
  | parked => rfl

lemma silent_write {t : Task} {hasBuf : Bool} {src : List UInt8} {out : WriteOutcome}
    (hout : ∀ n, out ≠ .accepted n) : Silent (.write e t hasBuf src out) := by
  refine ⟨fun g => rfl, fun g => ?_⟩
  cases out with
  | accepted n => exact absurd rfl (hout n)
  | nothing => rfl
  | inval => rfl
  | brokenPipe => rfl
  | parked => rfl

lemma silent_close : Silent (.close e) := ⟨fun _ => rfl, fun _ => rfl⟩

variable {hist : List Event} {ev : Event}

/-- The streams go on when the ring of one endpoint turns what came into it, and what it held,
into what went out and what it holds. -/
lemma stream_setEp (hab : a ≠ b) (h : Inv a b hist s)
    (he : e = a ∨ e = b) {x : Endpoint}
    (hflow : (s.ep e).ring.queued ++ bytesWritten (other a b e) [ev]
      = bytesRead e [ev] ++ x.ring.queued)
    (hr : bytesRead (other a b e) [ev] = []) (hw : bytesWritten e [ev] = []) :
    ∀ g, g = a ∨ g = b → bytesWritten (other a b g) (hist ++ [ev])
      = bytesRead g (hist ++ [ev]) ++ ((s.setEp e x).ep g).ring.queued := by
  have hx := h.stream e he
  have hy := h.stream _ (other_mem a b e)
  rw [other_other hab he] at hy
  refine forall_pair he ?_ ?_
  · rw [bytesRead_snoc, bytesWritten_snoc, setEp_self, hx, List.append_assoc, hflow,
      List.append_assoc]
  · rw [bytesRead_snoc, bytesWritten_snoc, other_other hab he,
      setEp_of_ne _ _ (other_ne hab he), hy, hr, hw, List.append_nil, List.append_nil]

/-- A silent event keeps the streams if the rings hold what they held. -/
lemma stream_silent (h : Inv a b hist s) (hev : Silent ev)
    (hring : ∀ g, g = a ∨ g = b → (s'.ep g).ring = (s.ep g).ring) :
    ∀ g, g = a ∨ g = b → bytesWritten (other a b g) (hist ++ [ev])
      = bytesRead g (hist ++ [ev]) ++ (s'.ep g).ring.queued := by
  intro g hg
  rw [bytesRead_snoc, bytesWritten_snoc, hev.read, hev.written, List.append_nil, List.append_nil,
    hring g hg]
  exact h.stream g hg

/-- Every section keeps the wiring and both streams. -/
lemma inv_step (hab : a ≠ b) (h : Inv a b hist s)
    (hstep : Step a b s ev s') : Inv a b (hist ++ [ev]) s' := by
  cases ev with
  | read e t hasBuf len out =>
    obtain ⟨he, hopen, hrun⟩ := hstep
    rcases usRead_cases hrun with ⟨rfl, hout, _⟩ | ⟨_, rfl, rfl⟩ | ⟨_, _, rfl, rfl⟩
    · exact ⟨h.wired, stream_silent h (silent_read hout) fun _ _ => rfl⟩
    · obtain ⟨hok, hcap, _, hq⟩ := IpcRing.pull_spec (h.wired e he).ok len
      refine ⟨wired_setEp hab h.wired he hok hcap rfl rfl rfl, stream_setEp hab h he ?_ ?_ rfl⟩
      · simpa [bytesRead, bytesWritten] using hq
      · simp [bytesRead, (other_ne hab he).symm]
    · refine ⟨wired_setEp hab h.wired he (h.wired e he).ok rfl rfl rfl rfl,
        stream_silent h (silent_read nofun) ?_⟩
      refine forall_pair he ?_ ?_
      · rw [setEp_self]
      · rw [setEp_of_ne _ _ (other_ne hab he)]
  | write e t hasBuf src out =>
    obtain ⟨he, hopen, hrun⟩ := hstep
    rcases usWrite_cases hrun with ⟨rfl, hout⟩ | ⟨f, hpeer, _, _, hcase⟩
    · exact ⟨h.wired, stream_silent h (silent_write hout) fun _ _ => rfl⟩
    obtain rfl : f = other a b e :=
      Option.some.inj (hpeer.symm.trans ((h.wired e he).peer hopen))
    have hf := other_mem a b e
    rcases hcase with ⟨_, rfl, rfl⟩ | ⟨_, rfl, rfl⟩
    · obtain ⟨_, hok, hcap, hq⟩ := IpcRing.push_spec (h.wired _ hf).ok src
      refine ⟨wired_setEp hab h.wired hf hok hcap rfl rfl rfl, stream_setEp hab h hf ?_ rfl ?_⟩
      · rw [other_other hab he]
        simpa [bytesRead, bytesWritten] using hq.symm
      · simp [bytesWritten, (other_ne hab he).symm]
    · refine ⟨wired_setEp hab h.wired he (h.wired e he).ok rfl rfl rfl rfl,
        stream_silent h (silent_write nofun) ?_⟩
      refine forall_pair he ?_ ?_
      · rw [setEp_self]
      · rw [setEp_of_ne _ _ (other_ne hab he)]
  | close e =>
    obtain ⟨he, hopen, _, _, rfl⟩ := hstep
    refine ⟨wired_release hab h.wired he hopen, stream_silent h silent_close ?_⟩
    obtain ⟨hself, hother⟩ := epRelease_cases (other_ne hab he) ((h.wired e he).peer hopen)
    refine forall_pair he ?_ ?_
    · rw [hself]
    · rw [hother]
      split_ifs <;> rfl

/-! ## The wait queues -/

/-- The section does not take bytes out of a ring while a task is parked at the other end for
room in it. -/
def Wakes (a b : EpId) (s : Socks) : Event → Prop
  | .read e _ hasBuf len _ =>
    len ≠ 0 ∧ hasBuf = true ∧ (s.ep e).ring.len ≠ 0 → (s.ep (other a b e)).wq = []
  | .write _ _ _ _ _ | .close _ => True

def AllQueues (a b : EpId) (s : Socks) : Prop :=
  ∀ e, e = a ∨ e = b → Queues (s.ep e) (s.ep (other a b e))

/-- A task parked in `us_write` implies that the ring of its peer is full, and one parked in
`us_read` that its own ring is empty and its peer open. -/
def Parked (a b : EpId) (s : Socks) : Prop := ∀ e, e = a ∨ e = b →
  (∀ t ∈ (s.ep e).wq, (s.ep (other a b e)).ring.len = USOCK_BUF_CAP) ∧
  (∀ t ∈ (s.ep e).rq, (s.ep e).ring.len = 0 ∧ (s.ep (other a b e)).state = .data)

lemma AllQueues.parked (h : AllQueues a b s) : Parked a b s := fun e he =>
  ⟨fun _ ht => ((h e he).wq (List.ne_nil_of_mem ht)).2,
    fun _ ht => ((h e he).rq (List.ne_nil_of_mem ht)).2⟩

/-- Both ends of a change to one endpoint. -/
lemma queues_setEp (hab : a ≠ b) (he : e = a ∨ e = b) {x : Endpoint}
    (hx : Queues x (s.ep (other a b e))) (hy : Queues (s.ep (other a b e)) x) :
    AllQueues a b (s.setEp e x) := by
  refine forall_pair he ?_ ?_
  · rw [setEp_self, setEp_of_ne _ _ (other_ne hab he)]
    exact hx
  · rw [other_other hab he, setEp_self, setEp_of_ne _ _ (other_ne hab he)]
    exact hy

section

variable (hab : a ≠ b) {hist : List Event} (h : Inv a b hist s) (hq : AllQueues a b s)
include hab h hq

lemma queues_read {t : Task} {hasBuf : Bool} {len : ℕ} {out : ReadOutcome}
    (hstep : Step a b s (.read e t hasBuf len out) s') :
    (Parked a b s' ↔ Wakes a b s (.read e t hasBuf len out)) ∧
      (Wakes a b s (.read e t hasBuf len out) → AllQueues a b s') := by
  obtain ⟨he, hopen, hrun⟩ := hstep
  have hx := hq e he
  have hy := hq _ (other_mem a b e)
  rw [other_other hab he] at hy
  rcases usRead_cases hrun with ⟨rfl, _, hno⟩ | ⟨hyes, rfl, rfl⟩ | ⟨hempty, hhup, rfl, rfl⟩
  · have hwakes : Wakes a b s' (.read e t hasBuf len out) := fun hc => absurd hc hno
    exact ⟨⟨fun _ => hwakes, fun _ => hq.parked⟩, fun _ => hq⟩
  · obtain ⟨hok, hcap, hlen, _⟩ := IpcRing.pull_spec (h.wired e he).ok len
    have hcapx := (h.wired e he).cap
    have hle := (h.wired e he).ok.len_le
    -- the ring is not full afterwards
    have hroom : (ipcRingPull (s.ep e).ring len).1.len ≠ USOCK_BUF_CAP := by
      rw [hlen, ← hcapx]
      omega
    have hqueues : Wakes a b s (.read e t hasBuf len (.data (ipcRingPull (s.ep e).ring len).2)) →
        AllQueues a b (s.setEp e
          { s.ep e with ring := (ipcRingPull (s.ep e).ring len).1, wq := [] }) := by
      intro hwakes
      refine queues_setEp hab he ⟨fun hrq => ?_, fun hwq => absurd rfl hwq⟩
        ⟨fun hrq => hy.rq hrq, fun hwq => absurd (hwakes hyes) hwq⟩
      exact absurd (hx.rq hrq).2.1 hyes.2.2
    refine ⟨⟨fun hparked _ => ?_, fun hwakes => (hqueues hwakes).parked⟩, hqueues⟩
    by_contra hwq
    obtain ⟨u, hu⟩ := List.exists_mem_of_ne_nil _ hwq
    have hfull := (hparked _ (other_mem a b e)).1 u
    rw [other_other hab he, setEp_self, setEp_of_ne _ _ (other_ne hab he)] at hfull
    exact hroom (hfull hu)
  · have hpeer := ((h.wired e he).hup hopen).mp hhup
    have hqueues : AllQueues a b (s.setEp e { s.ep e with rq := t :: (s.ep e).rq }) :=
      queues_setEp hab he ⟨fun _ => ⟨hopen, hempty, hpeer⟩, fun hwq => hx.wq hwq⟩
        ⟨fun hrq => hy.rq hrq, fun hwq => hy.wq hwq⟩
    have hwakes : Wakes a b s (.read e t hasBuf len .parked) := fun hc => absurd hempty hc.2.2
    exact ⟨⟨fun _ => hwakes, fun _ => hqueues.parked⟩, fun _ => hqueues⟩

lemma queues_write {t : Task} {hasBuf : Bool} {src : List UInt8} {out : WriteOutcome}
    (hstep : Step a b s (.write e t hasBuf src out) s') : AllQueues a b s' := by
  obtain ⟨he, hopen, hrun⟩ := hstep
  have hx := hq e he
  have hy := hq _ (other_mem a b e)
  rw [other_other hab he] at hy
  rcases usWrite_cases hrun with ⟨rfl, _⟩ | ⟨f, hpeer, hhup, hsrc, hcase⟩
  · exact hq
  obtain rfl : f = other a b e := Option.some.inj (hpeer.symm.trans ((h.wired e he).peer hopen))
  have hf := other_mem a b e
  have hok := (h.wired _ hf).ok
  have hcap := (h.wired _ hf).cap
  have hle := hok.len_le
  have hput := (IpcRing.push_spec hok src).1
  rcases hcase with ⟨hne, rfl, rfl⟩ | ⟨hzero, rfl, rfl⟩
  · -- nobody was parked for room at this end, since there was room
    refine queues_setEp hab hf ?_ ?_
    · rw [other_other hab he]
      refine ⟨fun hrq => absurd rfl hrq, fun hwq => ?_⟩
      exact hy.wq hwq
    · rw [other_other hab he]
      refine ⟨fun hrq => hx.rq hrq, fun hwq => ?_⟩
      have hfull := (hx.wq hwq).2
      omega
  · refine queues_setEp hab he ⟨fun hrq => hx.rq hrq, fun _ => ⟨hopen, ?_⟩⟩
      ⟨fun hrq => hy.rq hrq, fun hwq => hy.wq hwq⟩
    omega

lemma queues_close (hstep : Step a b s (.close e) s') : AllQueues a b s' := by
  obtain ⟨he, hopen, hrq, hwq, rfl⟩ := hstep
  have hy := hq _ (other_mem a b e)
  rw [other_other hab he] at hy
  obtain ⟨hself, hother⟩ := epRelease_cases (other_ne hab he) ((h.wired e he).peer hopen)
  refine forall_pair he ?_ ?_
  · rw [hself]
    exact ⟨fun hne => absurd hrq hne, fun hne => absurd hwq hne⟩
  · rw [other_other hab he, hself, hother]
    split_ifs with hfree
    · refine ⟨fun hne => ?_, fun hne => ?_⟩
      · have hopen' := (hy.rq hne).1
        rw [hfree] at hopen'
        cases hopen'
      · have hopen' := (hy.wq hne).1
        rw [hfree] at hopen'
        cases hopen'
    · exact ⟨fun hne => absurd rfl hne, fun hne => absurd rfl hne⟩

end

/-- Two endpoints as `usocket_pair` and a finished handshake leave them. -/
structure Connected (a b : EpId) (s : Socks) : Prop where
  ne : a ≠ b
  ep : ∀ e, e = a ∨ e = b → (s.ep e).state = .data ∧ (s.ep e).peer = some (other a b e) ∧
    (s.ep e).hup = false ∧ (s.ep e).rq = [] ∧ (s.ep e).wq = [] ∧
    (s.ep e).ring.cap = USOCK_BUF_CAP ∧ (s.ep e).ring.head = 0 ∧ (s.ep e).ring.len = 0

lemma epAlloc_some (h : epAlloc s = some (s', e)) :
    s.epUsed e = false ∧ s'.epUsed = Function.update s.epUsed e true ∧
      s'.ep = Function.update s.ep e Endpoint.fresh := by
  obtain ⟨i, hi, heq⟩ := Option.map_eq_some_iff.mp h
  obtain ⟨rfl, rfl⟩ := Prod.mk.inj heq
  exact ⟨by simpa using List.find?_some hi, rfl, rfl⟩

/-- `usocket_pair` hands out a connected pair. -/
lemma usocketPair_connected {ma mb : FileMemory}
    (h : usocketPair s ma mb = (s', some (a, b))) : Connected a b s' := by
  unfold usocketPair at h
  split at h
  · exact absurd (Prod.mk.inj h).2 nofun
  next s₁ a' hfirst =>
  split at h
  · exact absurd (Prod.mk.inj h).2 nofun
  next s₂ b' hsecond =>
  obtain ⟨_, hused, hep₁⟩ := epAlloc_some hfirst
  obtain ⟨hclear, _, hep₂⟩ := epAlloc_some hsecond
  have hne : b' ≠ a' := by
    rintro rfl
    rw [hused, Function.update_self] at hclear
    cases hclear
  have hfresh : s₂.ep a' = Endpoint.fresh ∧ s₂.ep b' = Endpoint.fresh := by
    rw [hep₂, hep₁]
    simp [hne.symm]
  dsimp only at h
  split_ifs at h with hfiles
  · cases ma <;> cases mb <;> simp only [endpointFile, Bool.false_eq_true, and_false, false_and]
      at hfiles
    obtain ⟨rfl, hpair⟩ := Prod.mk.inj h
    obtain ⟨rfl, rfl⟩ := Prod.mk.inj (Option.some.inj hpair)
    refine ⟨hne.symm, fun e he => ?_⟩
    rcases he with rfl | rfl
    · simp [endpointFile, Socks.setEp, hne.symm, hfresh.1, Endpoint.fresh, other]
    · simp [endpointFile, Socks.setEp, hne, hne.symm, hfresh.2, Endpoint.fresh, other]
  · exact absurd (Prod.mk.inj h).2 nofun

lemma Connected.inv (h : Connected a b s) : Inv a b [] s where
  wired := by
    intro e he
    obtain ⟨hstate, hpeer, hhup, _, _, hcap, hhead, hlen⟩ := h.ep e he
    have hother := (h.ep _ (other_mem a b e)).1
    refine ⟨⟨?_, ?_⟩, hcap, .inl hstate, fun _ => hpeer, fun _ => ?_⟩
    · rw [hcap, hhead]
      decide
    · rw [hlen]
      exact Nat.zero_le _
    · simp [hhup, hother]
  stream := by
    intro e he
    obtain ⟨_, _, _, _, _, _, _, hlen⟩ := h.ep e he
    rw [IpcRing.queued, hlen]
    rfl

lemma Connected.queues (h : Connected a b s) : AllQueues a b s := by
  intro e he
  obtain ⟨_, _, _, hrq, hwq, _⟩ := h.ep e he
  exact ⟨fun hne => absurd hrq hne, fun hne => absurd hwq hne⟩

/-- **A socket pair.** In every run the bytes read at one end are a prefix of those accepted at
the other. In every run that takes no bytes out of a ring while a task is parked for room in
it, the parked tasks are those that have to wait; and a further section keeps this if and only
if it does not do so either. -/
theorem us_stream {a b : EpId} {s₀ : Socks} (h₀ : Connected a b s₀) :
    (∀ hist s, Run (Step a b) s₀ hist s →
      ∀ e, e = a ∨ e = b → bytesRead e hist <+: bytesWritten (other a b e) hist) ∧
    (∀ hist s, Run (Guarded (Wakes a b) (Step a b)) s₀ hist s →
      Parked a b s ∧ ∀ ev s', Step a b s ev s' → (Parked a b s' ↔ Wakes a b s ev)) := by
  have hab := h₀.ne
  refine ⟨fun hist s hrun e he => ?_, fun hist s hrun => ?_⟩
  · have hinv : Inv a b hist s :=
      hrun.invariant_history h₀.inv fun _ _ _ _ hs hstep => inv_step hab hs hstep
    exact ⟨_, (hinv.stream e he).symm⟩
  · have hinv : Inv a b hist s ∧ AllQueues a b s := by
      refine hrun.invariant_history (I := fun hist s => Inv a b hist s ∧ AllQueues a b s)
        ⟨h₀.inv, h₀.queues⟩ ?_
      rintro hist s ev s' ⟨hs, hq⟩ ⟨hwakes, hstep⟩
      refine ⟨inv_step hab hs hstep, ?_⟩
      cases ev with
      | read e t hasBuf len out => exact (queues_read hab hs hq hstep).2 hwakes
      | write e t hasBuf src out => exact queues_write hab hs hq hstep
      | close e => exact queues_close hab hs hq hstep
    refine ⟨hinv.2.parked, fun ev s' hstep => ?_⟩
    cases ev with
    | read e t hasBuf len out => exact (queues_read hab hinv.1 hinv.2 hstep).1
    | write e t hasBuf src out =>
      exact ⟨fun _ => trivial, fun _ => (queues_write hab hinv.1 hinv.2 hstep).parked⟩
    | close e =>
      exact ⟨fun _ => trivial, fun _ => (queues_close hab hinv.1 hinv.2 hstep).parked⟩

/-- The first two endpoints, linked. -/
def pair : Socks := (usocketPair Socks.init .ok .ok).1

lemma pair_connected : Connected 0 1 pair := by
  have hpair : usocketPair Socks.init .ok .ok = (pair, some (0, 1)) := rfl
  exact usocketPair_connected hpair

/-- The ring of endpoint 1 is full, and task 1 has parked for room in it. -/
def stuffed : Socks := (usWrite pair 0 1 true (List.replicate USOCK_BUF_CAP 7)).1

def blocked : Socks := (usWrite stuffed 0 1 true [8]).1

/-- Task 2 reads everything, and task 1 is still parked. -/
theorem us_stream_writer_left :
    ∃ s₀ hist s, Connected 0 1 s₀ ∧ Run (Step 0 1) s₀ hist s ∧ (s.ep 0).wq = [1] ∧
      (s.ep 1).ring.len = 0 := by
  have hfill : Step 0 1 pair (.write 0 1 true (List.replicate USOCK_BUF_CAP 7)
      (usWrite pair 0 1 true (List.replicate USOCK_BUF_CAP 7)).2) stuffed :=
    ⟨.inl rfl, by decide, Prod.mk.eta⟩
  have hpark : Step 0 1 stuffed (.write 0 1 true [8] (usWrite stuffed 0 1 true [8]).2) blocked :=
    ⟨.inl rfl, by decide +kernel, Prod.mk.eta⟩
  have hdrain : Step 0 1 blocked (.read 1 2 true USOCK_BUF_CAP
      (usRead blocked 1 2 true USOCK_BUF_CAP).2) (usRead blocked 1 2 true USOCK_BUF_CAP).1 :=
    ⟨.inr rfl, by decide +kernel, Prod.mk.eta⟩
  refine ⟨pair, _, _, pair_connected, ((Run.nil.snoc hfill).snoc hpark).snoc hdrain, ?_, ?_⟩
  · decide +kernel
  · decide +kernel

/-- Task 2 is parked at endpoint 1. -/
def waiting : Socks := (usRead pair 1 2 true 2).1

/-- Endpoint 1 has three bytes to read. -/
def three : Socks := (usWrite waiting 0 1 true [1, 2, 3]).1

def threeEvents : List Event :=
  [.read 1 2 true 2 .parked, .write 0 1 true [1, 2, 3] (.accepted 3), .read 1 2 true 2 (.data [1, 2])]

/-- The theorem on a run in which a reader parks and a write wakes it. -/
theorem us_stream_woken :
    bytesRead 1 threeEvents <+: bytesWritten 0 threeEvents ∧ Parked 0 1 (usRead three 1 2 true 2).1 := by
  have hpark : Step 0 1 pair (.read 1 2 true 2 .parked) waiting := ⟨.inr rfl, by decide, rfl⟩
  have hwrite : Step 0 1 waiting (.write 0 1 true [1, 2, 3] (.accepted 3)) three :=
    ⟨.inl rfl, by decide, rfl⟩
  have hread : Step 0 1 three (.read 1 2 true 2 (.data [1, 2])) (usRead three 1 2 true 2).1 :=
    ⟨.inr rfl, by decide, rfl⟩
  have hquiet : Wakes 0 1 pair (.read 1 2 true 2 .parked) := fun _ => by decide
  have hwakes : Wakes 0 1 three (.read 1 2 true 2 (.data [1, 2])) := fun _ => by decide
  have hrun : Run (Guarded (Wakes 0 1) (Step 0 1)) pair threeEvents _ :=
    ((Run.single ⟨hquiet, hpark⟩).snoc ⟨trivial, hwrite⟩).snoc ⟨hwakes, hread⟩
  have hstream := us_stream pair_connected
  exact ⟨hstream.1 _ _ (hrun.mono fun _ _ _ h => h.2) 1 (.inr rfl), (hstream.2 _ _ hrun).1⟩

end Stream
end Usock
end Ipc
end MobilePhoneOs
