import MobilePhoneOs.Kernel.Blocking
import MobilePhoneOs.Kernel.UnixsockTheorems

/-!
# No blocking under a spinlock

The locks of a task are those that its calls hold, so a park of the innermost call happens with
the locks of its callers still taken. Two callers hold a lock across a call that may park: a miss
of the sector cache and the fan-out of modem events.
-/

namespace MobilePhoneOs.Blocking

open Ipc Usock Block
open Virtio.Blk.Vblk (act)

/-! ## The locks of a call stack -/

/-- The locks that the calls of a stack hold. -/
def locks (st : List Frame) : List Lock := st.flatMap Frame.holds

@[simp] lemma locks_nil : locks [] = [] := rfl

@[simp] lemma locks_cons (f : Frame) (st : List Frame) : locks (f :: st) = f.holds ++ locks st :=
  rfl

/-- The interrupt mask that the function restores, where it has saved one. -/
def OpPoint.saved : OpPoint → Bool
  | enter => true
  | body _ saved => saved
  | leave _ saved => saved

/-- The calls that are made under a lock: a write to a client by the fan-out, which has
interrupts masked, and the transfer of a miss. -/
inductive Caller : Frame → Frame → Prop
  | event {e : EpId} {hasBuf : Bool} {src line : List UInt8} {p : OpPoint} {i : ℕ} {m : Bool}
      (hsaved : p.saved = true) :
      Caller (.op (.usWrite e hasBuf src) p) (.mdEventLine line (.client i m))
  | miss {dev dev' c lba : ℕ} {p : VblkPoint} {m : Bool} :
      Caller (.vblkRw dev p) (.cacheReadSector dev' c lba (.fetched m))

/-- The stacks of calls. -/
inductive Shape : List Frame → Prop
  | idle : Shape []
  | one (f : Frame) : Shape [f]
  | two {f g : Frame} (h : Caller f g) : Shape [f, g]

lemma Shape.tail {f : Frame} {rest : List Frame} (h : Shape (f :: rest)) : Shape rest := by
  cases h with
  | one => exact .idle
  | two => exact .one _

/-- A call that is made under no lock is the only one. -/
lemma Shape.alone {f : Frame} {rest : List Frame} (h : Shape (f :: rest)) (hnil : locks rest = []) :
    rest = [] := by
  cases h with
  | one => rfl
  | two hcall => cases hcall <;> simp [Frame.holds] at hnil

/-- The locks a task has taken are those of its calls; it has interrupts masked while it holds
one, and holds none while it is parked. -/
structure Thread.Ok (th : Thread) : Prop where
  held : th.held = locks th.stack
  shape : Shape th.stack
  masked : th.held ≠ [] → th.masked = true
  parked : th.parked = true → th.held = []

namespace Thread

variable {th : Thread} {rest : List Frame} {f g : Frame}

/-- The call on top goes on with the locks it has. -/
lemma Ok.setTop (h : th.Ok) (hst : th.stack = f :: rest) (hholds : g.holds = f.holds)
    (hshape : Shape (g :: rest)) : (th.setStack (g :: rest)).Ok where
  held := by
    show th.held = locks (g :: rest)
    rw [h.held, hst, locks_cons, locks_cons, hholds]
  shape := hshape
  masked := h.masked
  parked := h.parked

/-- The call on top returns and holds no lock. -/
lemma Ok.pop (h : th.Ok) (hst : th.stack = f :: rest) (hholds : f.holds = []) :
    (th.setStack rest).Ok where
  held := by
    show th.held = locks rest
    rw [h.held, hst, locks_cons, hholds, List.nil_append]
  shape := by
    have hshape := h.shape
    rw [hst] at hshape
    exact hshape.tail
  masked := h.masked
  parked := h.parked

/-- With interrupts enabled no lock is held. -/
lemma Ok.held_of_unmasked (h : th.Ok) (hmask : th.masked = false) : th.held = [] := by
  by_contra hne
  have hm := h.masked hne
  rw [hmask] at hm
  simp at hm

lemma Ok.setBytes (h : th.Ok) (b : Option (ℕ → UInt8)) : { th with bytes := b }.Ok :=
  ⟨h.held, h.shape, h.masked, h.parked⟩

lemma Ok.take (h : th.Ok) (hst : th.stack = f :: rest) (hrun : th.parked = false) {l : Lock}
    (hf : f.holds = []) (hg : g.holds = [l]) (hshape : Shape (g :: rest)) :
    ((th.take l).setStack (g :: rest)).Ok where
  held := by
    show l :: th.held = locks (g :: rest)
    rw [h.held, hst, locks_cons, locks_cons, hf, hg]
    rfl
  shape := hshape
  masked := fun _ => rfl
  parked := fun hp => absurd (hrun.symm.trans hp) (by simp)

/-- The call on top releases its lock and returns. -/
lemma Ok.release (h : th.Ok) (hst : th.stack = f :: rest) (hrun : th.parked = false) {l : Lock}
    {m : Bool} (hl : th.held.erase l = locks rest) (hm : locks rest ≠ [] → m = true) :
    ((th.release l m).setStack rest).Ok where
  held := hl
  shape := by
    have hshape := h.shape
    rw [hst] at hshape
    exact hshape.tail
  masked := by
    intro hne
    refine hm ?_
    rw [← hl]
    exact hne
  parked := fun hp => absurd (hrun.symm.trans hp) (by simp)

end Thread

namespace State

variable {s s' : State} {t : Task} {th : Thread} {rest : List Frame} {e : Effect}

def Inv (s : State) : Prop := ∀ t, (s.thread t).Ok

lemma Start.inv (h : s.Start) : s.Inv := by
  intro t
  obtain ⟨hst, hheld, -⟩ := h t
  refine ⟨?_, ?_, fun hne => absurd hheld hne, fun _ => hheld⟩
  · rw [hheld, hst, locks_nil]
  · rw [hst]
    exact .idle

lemma Inv.setThread (h : s.Inv) (hth : th.Ok) : (s.setThread t th).Inv := by
  intro u
  by_cases hu : u = t
  · rw [hu]
    show (Function.update s.thread t th t).Ok
    rw [Function.update_self]
    exact hth
  · show (Function.update s.thread t th u).Ok
    rw [Function.update_of_ne hu]
    exact h u

/-! ## Steps of a function with one lock -/

section

variable {o : Op} {p : OpPoint}

/-- The lock of a function is not one of its caller. -/
lemma lock_notMem (h : Shape (.op o p :: rest)) : o.lock ∉ locks rest := by
  cases h with
  | one => simp
  | two hcall =>
    cases hcall with
    | event => simp [Frame.holds, Op.lock]

/-- The function releases its lock, whether it has taken it again after a park or not. -/
lemma erase_lock (h : th.Ok) (hst : th.stack = .op o p :: rest) :
    th.held.erase o.lock = locks rest := by
  have hshape := h.shape
  rw [hst] at hshape
  have hnot := lock_notMem hshape
  have hfree : ∀ l : List Lock, l = [] → (l ++ locks rest).erase o.lock = locks rest := by
    intro l hl
    rw [hl]
    exact List.erase_of_not_mem hnot
  have hheld : ([o.lock] ++ locks rest).erase o.lock = locks rest := List.erase_cons_head ..
  rw [h.held, hst, locks_cons]
  cases p with
  | enter => exact hfree _ rfl
  | body again saved =>
    cases again with
    | false => exact hheld
    | true => exact hfree _ rfl
  | leave again saved =>
    cases again with
    | false => exact hheld
    | true => exact hfree _ rfl

/-- Under a caller with a lock the function restores masked interrupts. -/
lemma saved_of_locks (h : Shape (.op o p :: rest)) (hne : locks rest ≠ []) : p.saved = true := by
  cases h with
  | one => exact absurd rfl hne
  | two hcall =>
    cases hcall with
    | event hsaved => exact hsaved

lemma shape_op {q : OpPoint} (h : Shape (.op o p :: rest)) (hq : locks rest ≠ [] → q.saved = true) :
    Shape (.op o q :: rest) := by
  cases h with
  | one => exact .one _
  | two hcall =>
    cases hcall with
    | event => exact .two (.event (hq (by simp [Frame.holds])))

/-- A function with one lock parks with that lock released and those of its callers held. -/
lemma opStep_park {l : List Lock} (h : th.Ok) (hst : th.stack = .op o p :: rest)
    (hstep : s.opStep t th o rest p = some e) (hpark : e.park = some l) :
    l = .task_state_lock :: locks rest ∧
      ∃ again saved d, p = .body again saved ∧ o.run s.data t again = some (d, true) := by
  cases p with
  | enter =>
    simp only [opStep] at hstep
    split_ifs at hstep
    · cases hstep
      simp [ownStep] at hpark
    · cases hstep
      simp at hpark
  | body again saved =>
    simp only [opStep] at hstep
    split at hstep
    · simp at hstep
    · cases hstep
      simp at hpark
    · next d hbody =>
      cases hstep
      have hl : Lock.task_state_lock :: th.held.erase o.lock = l := by
        simpa [Thread.release] using hpark
      rw [erase_lock h hst] at hl
      exact ⟨hl.symm, again, saved, d, rfl, hbody⟩
  | leave again saved =>
    cases hstep
    simp at hpark

lemma opStep_ok (h : th.Ok) (hst : th.stack = .op o p :: rest) (hrun : th.parked = false)
    (hstep : s.opStep t th o rest p = some e) (hpark : e.park ≠ none → rest = []) :
    e.thread.Ok := by
  have hshape := h.shape
  rw [hst] at hshape
  -- what it saves on entry: a caller with a lock has interrupts masked
  have hmasked : locks rest ≠ [] → th.masked = true := by
    intro hne
    refine h.masked fun hnil => hne ?_
    have heq := h.held
    rw [hnil, hst, locks_cons] at heq
    exact (List.append_eq_nil_iff.mp heq.symm).2
  cases p with
  | enter =>
    simp only [opStep] at hstep
    split_ifs at hstep
    · cases hstep
      exact h.pop hst rfl
    · cases hstep
      exact h.take hst hrun rfl rfl (shape_op hshape hmasked)
  | body again saved =>
    simp only [opStep] at hstep
    split at hstep
    · simp at hstep
    · cases hstep
      have hsaved : locks rest ≠ [] → saved = true := saved_of_locks hshape
      refine h.setTop hst ?_ (shape_op hshape hsaved)
      cases again <;> rfl
    · cases hstep
      -- it parks, so it has no caller, and behind the release nothing is held
      have hrest := hpark (by simp)
      have hheld := erase_lock h hst
      rw [hrest] at hheld
      refine ⟨?_, ?_, fun _ => rfl, fun _ => hheld⟩
      · show th.held.erase o.lock = locks _
        rw [hheld]
        by_cases hre : o.relocks
        · simp [hre, hrest, Thread.setStack, Frame.holds]
        · simp [hre, hrest, Thread.setStack, Frame.holds]
      · rw [hrest]
        exact .one _
  | leave again saved =>
    cases hstep
    exact h.release hst hrun (erase_lock h hst) (saved_of_locks hshape)

end

/-! ## Steps of the driver -/

section

variable {dev : ℕ}

variable {p : VblkPoint}

lemma shape_vblk {q : VblkPoint} (h : Shape (.vblkRw dev p :: rest)) :
    Shape (.vblkRw dev q :: rest) := by
  cases h with
  | one => exact .one _
  | two hcall =>
    cases hcall with
    | miss => exact .two .miss

/-- A call of the driver sleeps exactly if its request is pending. -/
lemma check_sleeps {v : Virtio.Blk.Vblk} {now : BitVec 64} :
    (v.act (.check t now)).2 = .sleeps ↔ Pending v t now := by
  unfold Pending
  cases hcall : v.calls t with
  | none => simp [act, hcall]
  | some w =>
    by_cases hdone : v.done = true
    · by_cases hok : v.ok = true
      · simp [act, hcall, Virtio.Blk.Vblk.check, hdone, hok]
      · simp [act, hcall, Virtio.Blk.Vblk.check, hdone, hok]
    · have hact : v.act (.check t now) = v.check t w now := by
        simp [act, hcall]
      rw [hact, Virtio.Blk.Vblk.check, if_neg hdone]
      by_cases hlate : 0 ≤ (now - w.deadline).toInt
      · rw [if_pos hlate]
        refine ⟨nofun, ?_⟩
        rintro ⟨w', hw', -, hlt⟩
        rw [Option.some.inj hw'] at hlate
        omega
      · rw [if_neg hlate]
        exact ⟨fun _ => ⟨w, rfl, by simpa using hdone, not_le.mp hlate⟩, fun _ => rfl⟩

lemma held_vblk (h : th.Ok) (hst : th.stack = .vblkRw dev p :: rest) :
    th.held = locks rest := by
  rw [h.held, hst, locks_cons]
  cases p <;> rfl

/-- The driver parks exactly if its request is pending, and the locks of its caller are held. -/
lemma vblkStep_park {l : List Lock} (h : th.Ok)
    (hst : th.stack = .vblkRw dev p :: rest) (hstep : s.vblkStep t th dev rest p = some e)
    (hpark : e.park = some l) :
    l = .task_state_lock :: locks rest ∧ p = .check ∧ Pending (s.data.vblk dev) t s.jiffies := by
  cases p with
  | start r =>
    simp only [vblkStep] at hstep
    split at hstep
    · cases hstep
      simp at hpark
    · cases hstep
      simp at hpark
  | check =>
    simp only [vblkStep] at hstep
    split at hstep
    · next hsleeps =>
      cases hstep
      rw [← held_vblk h hst]
      exact ⟨(Option.some.inj hpark).symm, rfl, check_sleeps.mp hsleeps⟩
    · cases hstep
      simp at hpark
    · cases hstep
      simp at hpark
  | poll =>
    simp only [vblkStep] at hstep
    split_ifs at hstep
    · cases hstep
      simp [ownStep] at hpark
    · cases hstep
      simp at hpark

lemma vblkStep_of_pending (hpend : Pending (s.data.vblk dev) t s.jiffies)
    (hstep : s.vblkStep t th dev rest .check = some e) :
    e.park = some (.task_state_lock :: th.held) := by
  simp only [vblkStep] at hstep
  rw [check_sleeps.mpr hpend] at hstep
  cases hstep
  rfl

lemma vblkStep_ok (h : th.Ok) (hst : th.stack = .vblkRw dev p :: rest)
    (hstep : s.vblkStep t th dev rest p = some e) (hpark : e.park ≠ none → rest = []) :
    e.thread.Ok := by
  have hshape := h.shape
  rw [hst] at hshape
  have hholds : (Frame.vblkRw dev p).holds = [] := by cases p <;> rfl
  have hpop := h.pop hst hholds
  cases p with
  | start r =>
    simp only [vblkStep] at hstep
    split at hstep
    · cases hstep
      exact h.setTop hst rfl (shape_vblk hshape)
    · cases hstep
      exact hpop.setBytes none
  | check =>
    simp only [vblkStep] at hstep
    split at hstep
    · cases hstep
      have hheld : th.held = [] := by
        rw [held_vblk h hst, hpark (by simp)]
        rfl
      exact ⟨hheld.trans (by rw [hpark (by simp)]; rfl), shape_vblk hshape, fun _ => rfl,
        fun _ => hheld⟩
    · cases hstep
      exact hpop.setBytes _
    · cases hstep
      exact hpop.setBytes none
  | poll =>
    simp only [vblkStep] at hstep
    split_ifs at hstep
    · cases hstep
      exact h.setTop hst rfl (shape_vblk hshape)
    · cases hstep
      exact h

end

/-! ## Steps of a cached read and of the fan-out -/

lemma cacheStep_ok {dev c lba : ℕ} {p : CachePoint} (h : th.Ok)
    (hst : th.stack = .cacheReadSector dev c lba p :: rest) (hrun : th.parked = false)
    (hstep : s.cacheStep th dev c lba rest p = some e) : e.park = none ∧ e.thread.Ok := by
  have hshape := h.shape
  rw [hst] at hshape
  have hrest : rest = [] := by
    cases hshape with
    | one => rfl
    | two hcall => cases hcall
  subst hrest
  have hheld := h.held
  rw [hst] at hheld
  have htop : ∀ q : CachePoint, (Frame.cacheReadSector dev c lba q).holds
      = (Frame.cacheReadSector dev c lba p).holds →
      (th.setStack [.cacheReadSector dev c lba q]).Ok := fun q hq => h.setTop hst hq (.one _)
  cases p with
  | enter =>
    simp only [cacheStep] at hstep
    split_ifs at hstep
    cases hstep
    exact ⟨rfl, h.take hst hrun rfl rfl (.one _)⟩
  | lookup saved =>
    simp only [cacheStep] at hstep
    split at hstep
    · cases hstep
      exact ⟨rfl, (htop (.leave saved) rfl).setBytes _⟩
    · cases hstep
      exact ⟨rfl, hheld, .two .miss, h.masked, h.parked⟩
  | fetched saved =>
    simp only [cacheStep] at hstep
    split at hstep
    · cases hstep
      exact ⟨rfl, htop (.leave saved) rfl⟩
    · cases hstep
      exact ⟨rfl, htop (.leave saved) rfl⟩
  | leave saved =>
    cases hstep
    refine ⟨rfl, h.release hst hrun ?_ fun hne => absurd rfl hne⟩
    rw [hheld]
    exact List.erase_cons_head ..

lemma mdStep_ok {line : List UInt8} {p : MdPoint} (h : th.Ok)
    (hst : th.stack = .mdEventLine line p :: rest) (hrun : th.parked = false)
    (hstep : s.mdStep th line rest p = some e) : e.park = none ∧ e.thread.Ok := by
  have hshape := h.shape
  rw [hst] at hshape
  have hrest : rest = [] := by
    cases hshape with
    | one => rfl
    | two hcall => cases hcall
  subst hrest
  have hheld := h.held
  rw [hst] at hheld
  cases p with
  | enter =>
    simp only [mdStep] at hstep
    split_ifs at hstep
    cases hstep
    exact ⟨rfl, h.take hst hrun rfl rfl (.one _)⟩
  | client i saved =>
    simp only [mdStep] at hstep
    split_ifs at hstep
    · split at hstep
      · cases hstep
        exact ⟨rfl, hheld, .two (.event rfl), h.masked, h.parked⟩
      · cases hstep
        exact ⟨rfl, h.setTop hst rfl (.one _)⟩
    · cases hstep
      refine ⟨rfl, h.release hst hrun ?_ fun hne => absurd rfl hne⟩
      rw [hheld]
      exact List.erase_cons_head ..

/-! ## The discipline -/

lemma ring_push_zero {r : IpcRing} {src : List UInt8} (hsrc : src ≠ []) :
    (ipcRingPush r src).2 = 0 ↔ r.cap ≤ r.len := by
  have hlen : 0 < src.length := List.length_pos_iff.mpr hsrc
  simp only [ipcRingPush]
  split_ifs with h
  · omega
  · omega

/-- `us_write` parks exactly if it finds no room. -/
lemma usWrite_parked {k : Socks} {x : EpId} {hasBuf : Bool} {src : List UInt8} :
    (Usock.usWrite k x t hasBuf src).2 = .parked ↔ src ≠ [] ∧ hasBuf = true ∧ NoRoom k x := by
  unfold Usock.usWrite NoRoom
  by_cases hsrc : src = []
  · simp [hsrc]
  · have hlen : src.length ≠ 0 := by simpa using hsrc
    by_cases hbuf : hasBuf = false
    · simp [hlen, hbuf]
    · by_cases hhup : (k.ep x).hup = true
      · simp [hlen, hbuf, hhup]
      · cases hpeer : (k.ep x).peer with
        | none => simp [hlen, hbuf, hhup, hpeer]
        | some f =>
          have hzero := ring_push_zero (r := (k.ep f).ring) hsrc
          by_cases hput : (ipcRingPush (k.ep f).ring src).2 = 0
          · simp [hlen, hbuf, hhup, hpeer, hput, hsrc, hzero.mp hput]
          · have hroom : (k.ep f).ring.len < (k.ep f).ring.cap :=
              not_le.mp fun hle => hput (hzero.mpr hle)
            simp [hlen, hbuf, hhup, hpeer, hput, hsrc, hroom]

/-- A step that does not park under a lock keeps the locks in order. -/
lemma code_ok (h : s.Inv) (hrun : (s.thread t).parked = false) (hcode : s.code t = some e)
    (hlaw : s.Lawful (.run t)) : e.thread.Ok := by
  have hok := h t
  have hpark : ∀ l, e.park = some l → l = [.task_state_lock] := by
    intro l hl
    refine hlaw l ?_
    simp [parksWith, hcode, hl]
  simp only [code] at hcode
  split at hcode
  · simp at hcode
  · next o p rest hst =>
    refine opStep_ok hok hst hrun hcode fun hne => ?_
    obtain ⟨l, hl⟩ := Option.ne_none_iff_exists'.mp hne
    have hlocks := (opStep_park hok hst hcode hl).1
    rw [hpark l hl] at hlocks
    exact (hst ▸ hok.shape).alone (List.cons.inj hlocks).2.symm
  · next dev p rest hst =>
    refine vblkStep_ok hok hst hcode fun hne => ?_
    obtain ⟨l, hl⟩ := Option.ne_none_iff_exists'.mp hne
    have hlocks := (vblkStep_park hok hst hcode hl).1
    rw [hpark l hl] at hlocks
    exact (hst ▸ hok.shape).alone (List.cons.inj hlocks).2.symm
  · next dev c lba p rest hst => exact (cacheStep_ok hok hst hrun hcode).2
  · next line p rest hst => exact (mdStep_ok hok hst hrun hcode).2

/-- A lawful step keeps the locks in order. -/
lemma Inv.step {a : Act} (h : s.Inv) (hstep : Step s a s') (hlaw : s.Lawful a) : s'.Inv := by
  cases hstep with
  | @call t c masked hidle hrun hmask =>
    have hheld : (s.thread t).held = [] := by
      rw [(h t).held, hidle]
      rfl
    refine h.setThread ⟨?_, .one _, fun hne => absurd hheld hne, fun _ => hheld⟩
    rw [hheld]
    cases c <;> rfl
  | run hrun hcode => exact Inv.setThread h (code_ok h hrun hcode hlaw)
  | @preempt t hrun hmask =>
    have hheld : (s.thread t).held = [] := (h t).held_of_unmasked hmask
    exact h.setThread ⟨(h t).held, (h t).shape, fun _ => rfl, fun _ => hheld⟩
  | @resume t hpark hready =>
    have hheld := (h t).parked hpark
    exact h.setThread ⟨(h t).held, (h t).shape, fun hne => absurd hheld hne,
      fun hp => absurd hp (by simp)⟩
  | tick => exact h
  | disk dev ev he hen => exact h

/-- A step of a task that parks under no lock of its callers. -/
lemma lawful_run (h : s.Inv) (hrun : (s.thread t).parked = false) (hcode : s.code t = some e) :
    s.Lawful (.run t) ↔ s.Clean (.run t) := by
  have hok := h t
  have hlaw : s.Lawful (.run t) ↔ ∀ l, e.park = some l → l = [.task_state_lock] := by
    simp [Lawful, parksWith, hcode]
  rw [hlaw]
  have hstep := hcode
  simp only [code] at hstep
  split at hstep
  · simp at hstep
  · next o p rest hst =>
    have hshape := hok.shape
    rw [hst] at hshape
    cases hshape with
    | one =>
      -- on its own it has released its lock before it parks
      have hclean : s.Clean (.run t) := by simp [Clean, hst]
      refine iff_of_true (fun l hl => ?_) hclean
      simpa using (opStep_park hok hst hstep hl).1
    | two hcall =>
      cases hcall with
      | @event x hasBuf src line p i m hsaved =>
        constructor
        · intro hall
          cases p with
          | body again saved =>
            simp only [Clean, hst]
            intro hroom
            have hparked := (usWrite_parked (k := s.data.socks) (t := t)).mpr hroom
            simp only [opStep, Op.run, hparked, decide_true] at hstep
            cases hstep
            have hl := hall _ rfl
            have hheld := erase_lock hok hst
            simp [Thread.release, hheld, Frame.holds] at hl
          | enter => simp [Clean, hst]
          | leave again saved => simp [Clean, hst]
        · intro hclean l hl
          obtain ⟨-, again, saved, d, rfl, hbody⟩ := opStep_park hok hst hstep hl
          simp only [Clean, hst] at hclean
          have hparked : (Usock.usWrite s.data.socks x t hasBuf src).2 = .parked := by
            simp only [Op.run, Option.some.injEq, Prod.mk.injEq, decide_eq_true_eq] at hbody
            exact hbody.2
          exact absurd (usWrite_parked.mp hparked) hclean
  · next dev p rest hst =>
    have hshape := hok.shape
    rw [hst] at hshape
    cases hshape with
    | one =>
      -- the driver takes no lock
      have hclean : s.Clean (.run t) := by simp [Clean, hst]
      refine iff_of_true (fun l hl => ?_) hclean
      simpa using (vblkStep_park hok hst hstep hl).1
    | two hcall =>
      cases hcall with
      | @miss dev' c lba m p =>
        constructor
        · intro hall
          cases p with
          | check =>
            simp only [Clean, hst]
            intro hpend
            have hl := hall _ (vblkStep_of_pending hpend hstep)
            rw [held_vblk hok hst] at hl
            simp [Frame.holds] at hl
          | start r => simp [Clean, hst]
          | poll => simp [Clean, hst]
        · intro hclean l hl
          obtain ⟨-, rfl, hpend⟩ := vblkStep_park hok hst hstep hl
          simp only [Clean, hst] at hclean
          exact absurd hpend hclean
  · next dev c lba p rest hst =>
    have hno := (cacheStep_ok hok hst hrun hstep).1
    simp [hno, Clean, hst]
  · next line p rest hst =>
    have hno := (mdStep_ok hok hst hrun hstep).1
    simp [hno, Clean, hst]

/-- A step with the locks in order parks under no further lock just when it is clean. -/
lemma Inv.lawful_iff {a : Act} (h : s.Inv) (hstep : Step s a s') : s.Lawful a ↔ s.Clean a := by
  cases hstep with
  | run hrun hcode => exact lawful_run h hrun hcode
  | @preempt t hrun hmask =>
    have hheld : (s.thread t).held = [] := (h t).held_of_unmasked hmask
    refine iff_of_true (fun l hl => ?_) trivial
    rw [← Option.some.inj hl, hheld]
  | call c masked hidle hrun hmask => exact iff_of_true (fun l hl => nomatch hl) trivial
  | resume hpark hready => exact iff_of_true (fun l hl => nomatch hl) trivial
  | tick => exact iff_of_true (fun l hl => nomatch hl) trivial
  | disk dev ev he hen => exact iff_of_true (fun l hl => nomatch hl) trivial

/-- **No blocking under a spinlock.** The runs in which every task that parks holds
`task_state_lock` and no other spinlock are the runs in which no miss of the sector cache waits
for its disk and no modem event meets a connected client whose ring is full. -/
theorem parks_unlocked {start : State} {as : List Act} (h : start.Start) :
    Run (Guarded Clean Step) start as s ↔
      Run (fun s a u => Step s a u ∧ s.Lawful a) start as s := by
  refine Run.guarded_iff (I := Inv) (fun s a u hs hstep hlaw => hs.step hstep hlaw)
    (fun s a u hs hstep => hs.lawful_iff hstep) h.inv

/-! ## A miss on a disk that takes its time -/

/-- A step of a task, where it has one. -/
def exec (s : State) (t : Task) : State :=
  match s.code t with
  | some e => { s with data := e.data, word := e.word }.setThread t e.thread
  | none => s

lemma step_exec (hrun : (s.thread t).parked = false) (hcode : (s.code t).isSome = true) :
    Step s (.run t) (s.exec t) := by
  obtain ⟨e, he⟩ := Option.isSome_iff_exists.mp hcode
  unfold exec
  rw [he]
  exact .run hrun he

lemma sectors_lt : 64 < 2 ^ 64 := by decide

/-- A disk of 64 sectors has been attached and nothing has run. -/
def attached : State where
  data :=
    { pipe := fun _ => pipeMake
      mq := fun _ => Mqueue.zero
      socks := Socks.init
      blk := .boot fun _ => ⟨64, 8, fun _ => 0, sectors_lt⟩
      vblk := fun _ => Virtio.Blk.attached 64 (fun _ _ => 0) fun _ => 0
      mdClients := fun _ => none }
  word := fun _ => false
  jiffies := 0
  thread := fun _ => ⟨[], [], false, false, none⟩

lemma attached_start : attached.Start := fun _ => ⟨rfl, rfl, rfl⟩

/-- A task reads sector 0 through the cache. -/
def reading : State :=
  attached.setThread 0 { attached.thread 0 with
    stack := [(Call.cacheReadSector 0 0 0).frame], masked := false }

lemma reading_step : Step attached (.call 0 (.cacheReadSector 0 0 0) false) reading :=
  .call _ _ rfl rfl (by simp [Call.needsMask])

/-- A task reads an empty pipe. -/
def pipeReading : State :=
  attached.setThread 0 { attached.thread 0 with
    stack := [(Call.op (.pipeRead 0 true 8)).frame], masked := false }

/-- The theorem on the run in which that read parks. -/
theorem parks_unlocked_pipe :
    Run (fun s a u => Step s a u ∧ s.Lawful a) attached
      [.call 0 (.op (.pipeRead 0 true 8)) false, .run 0, .run 0] ((pipeReading.exec 0).exec 0) ∧
      (((pipeReading.exec 0).exec 0).thread 0).parked = true := by
  have hcall : Step attached (.call 0 (.op (.pipeRead 0 true 8)) false) pipeReading :=
    .call _ _ rfl rfl (by simp [Call.needsMask])
  have hlock : Step pipeReading (.run 0) (pipeReading.exec 0) := step_exec rfl (by decide)
  have hpark : Step (pipeReading.exec 0) (.run 0) ((pipeReading.exec 0).exec 0) :=
    step_exec rfl (by decide)
  have hclean : pipeReading.Clean (.run 0) ∧ (pipeReading.exec 0).Clean (.run 0) :=
    ⟨trivial, trivial⟩
  have hone : Run (Guarded Clean Step) attached [.call 0 (.op (.pipeRead 0 true 8)) false]
      pipeReading := Run.single ⟨trivial, hcall⟩
  have hrun := (hone.guarded hlock hclean.1).guarded hpark hclean.2
  exact ⟨(parks_unlocked attached_start).mp hrun, by decide⟩

/-- The read has taken the lock of the cache, missed, and submitted its request. -/
def submitted : State := ((reading.exec 0).exec 0).exec 0

/-- The first read of a sector sleeps in `vblk_rw` with the lock of the cache held. -/
theorem cache_miss_parks_locked :
    ¬ ∀ (start s s' : State) (as : List Act) (a : Act), start.Start → Run Step start as s →
      Step s a s' → s.Lawful a := by
  intro hall
  have hrun : Run Step attached _ submitted :=
    (((Run.nil.snoc reading_step).snoc (step_exec (t := 0) rfl (by decide))).snoc
      (step_exec (t := 0) rfl (by decide))).snoc
      (step_exec (t := 0) rfl (by decide))
  have hstep : Step submitted (.run 0) (submitted.exec 0) := step_exec rfl (by decide)
  have hpark : submitted.parksWith (.run 0) = some [.task_state_lock, .cache 0] := by
    decide
  have hlaw := hall _ _ _ _ _ attached_start hrun hstep _ hpark
  simp at hlaw

end State
end MobilePhoneOs.Blocking
