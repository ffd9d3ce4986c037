import MobilePhoneOs.Kernel.PipePool
import Mathlib.Data.List.Nodup

/-!
# When the pool of pipes stays whole

A flag of `pipe_used` that a working pipe has taken never comes back, and an object comes
back only if it is empty when its second end is closed. What holds under these conditions
is carried by one invariant on the objects and one on the flags.
-/

namespace MobilePhoneOs.Ipc.PipePool

open Obj (destroyEnd)

/-! ## Reads and writes leave the ends alone -/

/-- The two end counts and the two hang-up flags. -/
def ends (p : Pipe) : ℕ × ℕ × Bool × Bool := (p.readers, p.writers, p.rdDead, p.wrDead)

lemma pipeCopyOut_ends (fuel : ℕ) (p : Pipe) (n : ℕ) : ends (pipeCopyOut fuel p n).1 = ends p := by
  induction fuel generalizing p n with
  | zero => rfl
  | succ fuel ih =>
    rw [pipeCopyOut]
    split_ifs with h0
    · rfl
    · exact ih _ _

lemma pipeCopyIn_ends (fuel : ℕ) (p : Pipe) (src : List UInt8) :
    ends (pipeCopyIn fuel p src) = ends p := by
  induction fuel generalizing p src with
  | zero => rfl
  | succ fuel ih =>
    rw [pipeCopyIn]
    split_ifs with h0
    · rfl
    · exact ih _ _

lemma pipeRead_ends (p : Pipe) (t : Task) (hasBuf : Bool) (len : ℕ) :
    ends (pipeRead p t hasBuf len).1 = ends p := by
  unfold pipeRead
  split_ifs with h0 hne heof
  · rfl
  · exact pipeCopyOut_ends (min p.len len) p (min p.len len)
  · rfl
  · rfl

lemma pipeWrite_ends (p : Pipe) (t : Task) (hasBuf : Bool) (src : List UInt8) :
    ends (pipeWrite p t hasBuf src).1 = ends p := by
  unfold pipeWrite
  split_ifs with h0 hbuf hbroken hroom
  · rfl
  · rfl
  · rfl
  · exact pipeCopyIn_ends (min (PIPE_BUF_CAP - p.len) src.length) p _
  · rfl

/-! ## One object -/

/-- What an object's ends say agrees with the counts in the pipe, and `kfree` was called once
if both ends are closed and not before. -/
structure Obj.Sound (o : Obj) : Prop where
  readers : o.pipe.readers = if o.rdOpen then 1 else 0
  writers : o.pipe.writers = if o.wrOpen then 1 else 0
  rdDead : o.pipe.rdDead = !o.rdOpen
  wrDead : o.pipe.wrDead = !o.wrOpen
  frees : o.frees = if o.isOpen then 0 else 1
  slot : o.isOpen = true → o.slot.isSome = true

namespace Obj

/-- A section that leaves the ends alone. -/
lemma Sound.withPipe {o : Obj} {p : Pipe} (h : o.Sound) (hends : ends p = ends o.pipe) :
    Sound { o with pipe := p } := by
  simp only [ends, Prod.mk.injEq] at hends
  obtain ⟨hr, hw, hrd, hwd⟩ := hends
  exact ⟨hr.trans h.readers, hw.trans h.writers, hrd.trans h.rdDead, hwd.trans h.wrDead, h.frees,
    h.slot⟩

/-- The end that is not closed. -/
def otherOpen (o : Obj) (reader : Bool) : Bool := if reader then o.wrOpen else o.rdOpen

/-- What closing an open end does: the other end decides whether the pipe stays open, and the
pipe is freed if it does not and is empty. -/
lemma Sound.destroyEnd_spec {o : Obj} {reader : Bool} (h : o.Sound)
    (hopen : (if reader then o.rdOpen else o.wrOpen) = true) :
    (o.destroyEnd reader).isOpen = o.otherOpen reader ∧
      (o.destroyEnd reader).frees = if o.otherOpen reader = false ∧ o.pipe.len = 0 then 1 else 0 := by
  have hr := h.readers
  have hw := h.writers
  have hrd := h.rdDead
  have hwd := h.wrDead
  have hf := h.frees
  cases reader with
  | true =>
    rw [if_pos rfl] at hopen
    rw [hopen] at hr hrd
    have hfrees : o.frees = 0 := by simpa [isOpen, hopen] using hf
    refine ⟨by simp [destroyEnd, isOpen, otherOpen], ?_⟩
    cases hwr : o.wrOpen <;> rw [hwr] at hw hwd <;>
      simp [destroyEnd, pipeDestroy, otherOpen, hr, hw, hwd, hfrees, hwr]
  | false =>
    rw [if_neg Bool.false_ne_true] at hopen
    rw [hopen] at hw hwd
    have hfrees : o.frees = 0 := by simpa [isOpen, hopen] using hf
    refine ⟨by simp [destroyEnd, isOpen, otherOpen], ?_⟩
    cases hro : o.rdOpen <;> rw [hro] at hr hrd <;>
      simp [destroyEnd, pipeDestroy, otherOpen, hr, hw, hrd, hfrees, hro]

section

variable {o : Obj} {reader : Bool} (h : o.Sound)
  (hopen : (if reader then o.rdOpen else o.wrOpen) = true)
include h hopen

/-- Closing an open end frees the object when it should if and only if it is not the second
end of a pipe with bytes in it. -/
lemma Sound.destroyEnd_frees :
    ((o.destroyEnd reader).frees = if (o.destroyEnd reader).isOpen then 0 else 1) ↔
      (o.otherOpen reader = false → o.pipe.len = 0) := by
  obtain ⟨hisOpen, hfrees⟩ := h.destroyEnd_spec hopen
  rw [hisOpen, hfrees]
  cases hother : o.otherOpen reader with
  | true => simp
  | false =>
    by_cases hlen : o.pipe.len = 0
    · simp [hlen]
    · simp [hlen]

lemma Sound.destroyEnd
    (hlen : o.otherOpen reader = false → o.pipe.len = 0) : (o.destroyEnd reader).Sound := by
  have hfrees := (h.destroyEnd_frees hopen).mpr hlen
  have hr := h.readers
  have hw := h.writers
  cases reader with
  | true =>
    rw [if_pos rfl] at hopen
    have hslot := h.slot (by simp [isOpen, hopen])
    refine ⟨?_, ?_, ?_, ?_, hfrees, fun _ => hslot⟩
    · simp [destroyEnd, pipeDestroy, hr, hopen]
    · simpa [destroyEnd, pipeDestroy] using hw
    · simp [destroyEnd, pipeDestroy]
    · simpa [destroyEnd, pipeDestroy] using h.wrDead
  | false =>
    rw [if_neg Bool.false_ne_true] at hopen
    have hslot := h.slot (by simp [isOpen, hopen])
    refine ⟨?_, ?_, ?_, ?_, hfrees, fun _ => hslot⟩
    · simpa [destroyEnd, pipeDestroy] using hr
    · simp [destroyEnd, pipeDestroy, hw, hopen]
    · simpa [destroyEnd, pipeDestroy] using h.rdDead
    · simp [destroyEnd, pipeDestroy]

end

end Obj

/-- A new pipe with both ends. -/
lemma sound_made (slot : ℕ) : Obj.Sound ⟨pipeMake, some slot, true, true, 0⟩ :=
  ⟨rfl, rfl, rfl, rfl, rfl, fun _ => rfl⟩

/-- The error exit frees the object if and only if both ends had got their vnode. -/
lemma unwind_frees (m : Memory) (slot : ℕ) :
    (unwind m ⟨pipeMake, some slot, true, true, 0⟩).frees = 1 ↔ m.rvn = true ∧ m.wvn = true := by
  obtain ⟨_, rvn, wvn, _, _⟩ := m
  cases rvn <;> cases wvn <;> simp [unwind, destroyEnd, pipeDestroy, pipeMake]

lemma sound_unwind {m : Memory} (slot : ℕ) (hr : m.rvn = true) (hw : m.wvn = true) :
    (unwind m ⟨pipeMake, some slot, true, true, 0⟩).Sound := by
  unfold unwind
  rw [hr, hw]
  exact ⟨rfl, rfl, rfl, rfl, rfl, fun h => absurd h Bool.false_ne_true⟩

/-! ## The flags -/

/-- The flags still taken for some object. -/
def Sys.slots (s : Sys) : List ℕ := s.objs.filterMap Obj.slot

/-- Every taken flag belongs to exactly one object. -/
structure Sys.Flags (s : Sys) : Prop where
  nodup : s.slots.Nodup
  mem : ∀ i, i ∈ s.slots ↔ i < PIPES_MAX ∧ s.pipeUsed i = true

lemma freeSlot_some {used : ℕ → Bool} {i : ℕ} (h : freeSlot used = some i) :
    i < PIPES_MAX ∧ used i = false := by
  have hmem := List.mem_of_find?_eq_some h
  have hclear := List.find?_some h
  exact ⟨List.mem_range.mp hmem, by simpa using hclear⟩

lemma freeSlot_none {used : ℕ → Bool} (h : freeSlot used = none) {i : ℕ} (hi : i < PIPES_MAX) :
    used i = true := by
  have hall := List.find?_eq_none.mp h i (List.mem_range.mpr hi)
  simpa using hall

/-- With every flag taken, as many objects hold one. -/
lemma Sys.Flags.length {s : Sys} (h : s.Flags) (hfull : freeSlot s.pipeUsed = none) :
    s.slots.length = PIPES_MAX := by
  have hperm : s.slots.Perm (List.range PIPES_MAX) := by
    refine (List.perm_ext_iff_of_nodup h.nodup List.nodup_range).mpr fun i => ?_
    rw [h.mem, List.mem_range]
    exact ⟨fun hi => hi.1, fun hi => ⟨hi, freeSlot_none hfull hi⟩⟩
  rw [hperm.length_eq, List.length_range]

/-- Two counts of one list are equal when the weaker condition holds for no more elements. -/
lemma countP_eq_iff {α : Type} {p q : α → Bool} {l : List α}
    (h : ∀ x ∈ l, p x = true → q x = true) :
    l.countP p = l.countP q ↔ ∀ x ∈ l, q x = true → p x = true := by
  induction l with
  | nil => simp
  | cons x l ih =>
    have hrest := ih fun y hy => h y (List.mem_cons_of_mem x hy)
    have hle : l.countP p ≤ l.countP q :=
      List.countP_mono_left fun y hy => h y (List.mem_cons_of_mem x hy)
    have hx := h x List.mem_cons_self
    rw [List.countP_cons, List.countP_cons, List.forall_mem_cons, ← hrest]
    cases hp : p x with
    | true => simp [hx hp]
    | false =>
      cases hq : q x with
      | true => simp; omega
      | false => simp

lemma length_filterMap_slot (l : List Obj) :
    (l.filterMap Obj.slot).length = l.countP fun o => o.slot.isSome := by
  induction l with
  | nil => rfl
  | cons o l ih =>
    cases hslot : o.slot with
    | none => simp [hslot, ih]
    | some i => simp [hslot, ih]

/-! ## The system -/

namespace Sys

/-- Every pipe object is freed exactly once, when its second end is closed. -/
def FreedOnce (s : Sys) : Prop := ∀ o ∈ s.objs, o.frees = if o.isOpen then 0 else 1

/-- A `pipe_make` that fails with `-ENFILE` finds `PIPES_MAX` pipes with an open end. -/
def EnfileFull (s : Sys) : Event → Prop
  | .make hasOut m => (pipeMakeCall s hasOut m).2 = .nfile → s.openPipes = PIPES_MAX
  | _ => True

/-- A `pipe_make` with all flags taken finds none taken for a pipe whose ends are both closed;
with a flag and an object it gets both vnodes; and the second end of a pipe is closed only
when the pipe is empty. -/
def Clean (s : Sys) : Event → Prop
  | .make hasOut m => hasOut = true →
    (freeSlot s.pipeUsed = none → ∀ o ∈ s.objs, o.slot.isSome = true → o.isOpen = true) ∧
    (freeSlot s.pipeUsed ≠ none → m.pipe = true → m.rvn = true ∧ m.wvn = true)
  | .close i reader => ∀ o ∈ s.objs[i]?, o.otherOpen reader = false → o.pipe.len = 0
  | .read _ _ _ _ | .write _ _ _ _ => True

structure Inv (s : Sys) : Prop where
  sound : ∀ o ∈ s.objs, o.Sound
  flags : s.Flags

lemma inv_init : init.Inv where
  sound := fun o ho => absurd ho (by simp [init])
  flags := ⟨List.nodup_nil, fun i => by simp [init, slots]⟩

variable {s : Sys}

lemma Inv.freedOnce (h : s.Inv) : s.FreedOnce := fun o ho => (h.sound o ho).frees

/-- With all flags taken, every pipe that holds one is open if and only if `PIPES_MAX` are. -/
lemma Inv.openPipes_iff (h : s.Inv) (hfull : freeSlot s.pipeUsed = none) :
    s.openPipes = PIPES_MAX ↔ ∀ o ∈ s.objs, o.slot.isSome = true → o.isOpen = true := by
  rw [← h.flags.length hfull, slots, length_filterMap_slot]
  exact countP_eq_iff fun o ho => (h.sound o ho).slot

section

variable {i : ℕ} {f : Obj → Obj}

lemma mem_modify {l : List Obj} {o : Obj} (ho : o ∈ l.modify i f) :
    o ∈ l ∨ ∃ a, l[i]? = some a ∧ o = f a := by
  obtain ⟨j, hj⟩ := List.mem_iff_getElem?.mp ho
  rw [List.getElem?_modify] at hj
  split_ifs at hj with hij
  · obtain ⟨a, ha, rfl⟩ := Option.map_eq_some_iff.mp hj
    exact .inr ⟨a, by rw [hij]; exact ha, rfl⟩
  · exact .inl (List.mem_iff_getElem?.mpr ⟨j, by simpa using hj⟩)

lemma modify_mem {l : List Obj} {a : Obj} (ha : l[i]? = some a) :
    f a ∈ l.modify i f :=
  List.mem_iff_getElem?.mpr ⟨i, by rw [List.getElem?_modify_eq, ha]; rfl⟩

/-- A change to one object that keeps its flag keeps all of them. -/
lemma slots_onPipe (hf : ∀ o, (f o).slot = o.slot) :
    (s.onPipe i f).slots = s.slots := by
  have hmap : (s.objs.modify i f).map Obj.slot = s.objs.map Obj.slot := by
    refine List.ext_getElem? fun j => ?_
    rw [List.getElem?_map, List.getElem?_map, List.getElem?_modify]
    cases s.objs[j]? with
    | none => simp
    | some o =>
      by_cases hij : i = j
      · simp [hij, hf]
      · simp [hij]
  show (s.objs.modify i f).filterMap Obj.slot = s.objs.filterMap Obj.slot
  have hred : ∀ l : List Obj, l.filterMap Obj.slot = (l.map Obj.slot).filterMap id := fun l => by
    rw [List.filterMap_map]
    rfl
  rw [hred, hred, hmap]

lemma Inv.onPipe (h : s.Inv) (hslot : ∀ o, (f o).slot = o.slot)
    (hsound : ∀ o, s.objs[i]? = some o → o.Sound → (f o).Sound) : (s.onPipe i f).Inv where
  sound := by
    intro o ho
    rcases mem_modify ho with hold | ⟨a, ha, rfl⟩
    · exact h.sound o hold
    · exact hsound a ha (h.sound a (List.mem_of_getElem? ha))
  flags := by
    have hslots := slots_onPipe (s := s) (i := i) hslot
    exact ⟨by rw [hslots]; exact h.flags.nodup, fun j => by rw [hslots]; exact h.flags.mem j⟩

end

/-- A `pipe_make` that succeeds takes one flag for its object. -/
lemma Inv.made {slot : ℕ} (h : s.Inv) (hslot : freeSlot s.pipeUsed = some slot) :
    Inv ⟨Function.update s.pipeUsed slot true,
      s.objs ++ [⟨pipeMake, some slot, true, true, 0⟩]⟩ := by
  obtain ⟨hlt, hclear⟩ := freeSlot_some hslot
  have hfresh : slot ∉ s.slots := by
    intro hmem
    have hused := ((h.flags.mem slot).mp hmem).2
    rw [hclear] at hused
    cases hused
  have hslots : Sys.slots ⟨Function.update s.pipeUsed slot true,
      s.objs ++ [⟨pipeMake, some slot, true, true, 0⟩]⟩ = s.slots ++ [slot] := by
    simp [slots]
  refine ⟨?_, ⟨?_, fun i => ?_⟩⟩
  · intro o ho
    rcases List.mem_append.mp ho with hold | hnew
    · exact h.sound o hold
    · rw [List.mem_singleton.mp hnew]
      exact sound_made slot
  · rw [hslots]
    refine List.nodup_append.mpr ⟨h.flags.nodup, List.nodup_singleton slot, ?_⟩
    intro i hi j hj hij
    rw [hij, List.mem_singleton.mp hj] at hi
    exact hfresh hi
  · rw [hslots, List.mem_append, List.mem_singleton, h.flags.mem]
    by_cases hi : i = slot
    · subst hi
      simp [hlt]
    · simp [hi]

/-- A failed `pipe_make` has given its flag back. -/
lemma Inv.failed {used : ℕ → Bool} {o : Obj} (h : s.Inv) (hused : used = s.pipeUsed)
    (ho : o.Sound) (hslot : o.slot = none) : Inv ⟨used, s.objs ++ [o]⟩ := by
  subst hused
  have hslots : Sys.slots ⟨s.pipeUsed, s.objs ++ [o]⟩ = s.slots := by simp [slots, hslot]
  refine ⟨?_, ⟨by rw [hslots]; exact h.flags.nodup, fun i => by rw [hslots]; exact h.flags.mem i⟩⟩
  intro o' ho'
  rcases List.mem_append.mp ho' with hold | hnew
  · exact h.sound o' hold
  · rw [List.mem_singleton.mp hnew]
    exact ho

lemma given_eq {used : ℕ → Bool} {slot : ℕ} (h : freeSlot used = some slot) :
    Function.update (Function.update used slot true) slot false = used := by
  rw [Function.update_idem, ← (freeSlot_some h).2, Function.update_eq_self]

/-! ## One call -/

/-- `pipe_make` keeps the two properties if and only if it is clean. -/
lemma Inv.make (h : s.Inv) (hasOut : Bool) (m : Memory) :
    (s.EnfileFull (.make hasOut m) ∧ (s.act (.make hasOut m)).FreedOnce
      ↔ s.Clean (.make hasOut m)) ∧ (s.Clean (.make hasOut m) → (s.act (.make hasOut m)).Inv) := by
  have hold : s.FreedOnce := h.freedOnce
  simp only [EnfileFull, Clean, act, pipeMakeCall]
  cases hasOut with
  | false => simpa using ⟨hold, h⟩
  | true =>
    rw [if_neg (by simp)]
    cases hslot : freeSlot s.pipeUsed with
    | none =>
      -- no flag is clear: the state stays, and the answer is right if all flags are live
      have hiff := h.openPipes_iff hslot
      refine ⟨⟨fun hlaw _ => ⟨fun _ => hiff.mp (hlaw.1 rfl), fun hne => absurd rfl hne⟩,
        fun hclean => ⟨fun _ => hiff.mpr ((hclean rfl).1 rfl), hold⟩⟩, fun _ => h⟩
    | some slot =>
      have hgiven := given_eq hslot
      cases hp : m.pipe with
      | false =>
        have hsame : (⟨s.pipeUsed, s.objs⟩ : Sys) = s := rfl
        simpa [hgiven, hsame] using ⟨hold, h⟩
      | true =>
        simp only [Bool.true_eq_false, if_false]
        split_ifs with hfail
        · -- the error exit: what was destroyed depends on the two vnodes
          have hfrees := unwind_frees m slot
          refine ⟨⟨fun hlaw _ => ⟨fun hnone => absurd hnone (by simp), fun _ _ => ?_⟩,
            fun hclean => ⟨fun hout => absurd hout (by simp), ?_⟩⟩, fun hclean => ?_⟩
          · exact hfrees.mp (hlaw.2 _ (List.mem_append_right _ (List.mem_singleton_self _)))
          · obtain ⟨hr, hw⟩ := (hclean trivial).2 (by simp) trivial
            exact (h.failed hgiven (sound_unwind slot hr hw) rfl).freedOnce
          · obtain ⟨hr, hw⟩ := (hclean trivial).2 (by simp) trivial
            exact h.failed hgiven (sound_unwind slot hr hw) rfl
        · have hmade := h.made hslot
          simp only [not_or, Bool.not_eq_false] at hfail
          refine ⟨⟨fun _ _ => ⟨fun hnone => absurd hnone (by simp), fun _ _ => ?_⟩,
            fun _ => ⟨fun hout => absurd hout (by simp), hmade.freedOnce⟩⟩, fun _ => hmade⟩
          exact ⟨hfail.1, hfail.2.1⟩

/-- Each call keeps the two properties if and only if it is clean. -/
lemma Inv.step {e : Event} (h : s.Inv) (hen : s.Enabled e) :
    (s.EnfileFull e ∧ (s.act e).FreedOnce ↔ s.Clean e) ∧ (s.Clean e → (s.act e).Inv) := by
  cases e with
  | read i t hasBuf len =>
    have hinv : (s.act (.read i t hasBuf len)).Inv :=
      h.onPipe (fun _ => rfl) fun o _ ho => ho.withPipe (pipeRead_ends o.pipe t hasBuf len)
    exact ⟨⟨fun _ => trivial, fun _ => ⟨trivial, hinv.freedOnce⟩⟩, fun _ => hinv⟩
  | write i t hasBuf src =>
    have hinv : (s.act (.write i t hasBuf src)).Inv :=
      h.onPipe (fun _ => rfl) fun o _ ho => ho.withPipe (pipeWrite_ends o.pipe t hasBuf src)
    exact ⟨⟨fun _ => trivial, fun _ => ⟨trivial, hinv.freedOnce⟩⟩, fun _ => hinv⟩
  | close i reader =>
    obtain ⟨o, ho, hopen⟩ := hen
    have hsound := h.sound o (List.mem_of_getElem? ho)
    have hinv : s.Clean (.close i reader) → (s.act (.close i reader)).Inv := by
      intro hclean
      refine h.onPipe (fun _ => rfl) fun a ha hsa => ?_
      obtain rfl : a = o := Option.some.inj (ha.symm.trans ho)
      exact hsa.destroyEnd hopen (hclean a ho)
    refine ⟨⟨fun hlaw a ha => ?_, fun hclean => ⟨trivial, (hinv hclean).freedOnce⟩⟩, hinv⟩
    obtain rfl : a = o := Option.some.inj (Option.mem_def.mp ha |>.symm.trans ho)
    exact (hsound.destroyEnd_frees hopen).mp (hlaw.2 _ (modify_mem ho))
  | make hasOut m => exact h.make hasOut m

end Sys

open Sys

/-- In every run whose calls are clean, every pipe object has been freed once if both its ends
are closed and not before; and a further call keeps this, and fails with `-ENFILE` only while
`PIPES_MAX` pipes have an open end, if and only if it is clean too. -/
theorem pipe_pool {es : List Event} {s : Sys} (hrun : Run (Guarded Clean Step) Sys.init es s) :
    s.FreedOnce ∧ ∀ e s', Step s e s' → (s.EnfileFull e ∧ s'.FreedOnce ↔ s.Clean e) := by
  have hinv : s.Inv := by
    refine hrun.invariant inv_init ?_
    rintro s e s' hs ⟨hclean, hen, rfl⟩
    exact (hs.step hen).2 hclean
  refine ⟨hinv.freedOnce, ?_⟩
  rintro e s' ⟨hen, rfl⟩
  exact (hinv.step hen).1

/-- All allocations succeed. -/
def enough : Memory := ⟨true, true, true, true, true⟩

/-- A pipe is made, and its ends are closed. -/
def cycle (i : ℕ) : List Event := [.make true enough, .close i true, .close i false]

/-- Eight pipes, one after another. -/
def cycles : List Event := (List.range PIPES_MAX).flatMap cycle

/-- Every pipe is closed, and `pipe_make` fails with `-ENFILE`. -/
theorem pipe_pool_cycles :
    ∃ s, Run Step Sys.init cycles s ∧ (pipeMakeCall s true enough).2 = .nfile ∧
      s.openPipes = 0 := by
  have henables : Enables Sys.Enabled Sys.act Sys.init cycles := by decide
  refine ⟨_, Run.of_enables (fun _ _ h => ⟨h, rfl⟩) henables, ?_, ?_⟩
  · decide
  · decide

/-- A pipe that is drained before its second end is closed. -/
def drained : List Event :=
  [.make true enough, .write 0 1 true [7], .read 0 2 true 1, .close 0 false, .close 0 true]

/-- The theorem on this run: the object is freed once. -/
theorem pipe_pool_drained :
    (drained.foldl Sys.act Sys.init).objs.map Obj.frees = [1] ∧
      (drained.foldl Sys.act Sys.init).FreedOnce := by
  have henables : Enables (fun s e => s.Clean e ∧ s.Enabled e) Sys.act Sys.init drained := by
    refine ⟨⟨?_, trivial⟩, ⟨trivial, ?_⟩, ⟨trivial, ?_⟩, ⟨?_, ?_⟩, ⟨?_, ?_⟩, trivial⟩
    · exact fun _ => ⟨fun _ => nofun, fun _ _ => ⟨rfl, rfl⟩⟩
    · decide
    · decide
    · show ∀ o ∈ _, _
      decide
    · decide
    · show ∀ o ∈ _, _
      decide
    · decide
  have hrun : Run (Guarded Clean Step) Sys.init drained (drained.foldl Sys.act Sys.init) :=
    Run.of_enables (fun _ _ h => ⟨h.1, h.2, rfl⟩) henables
  exact ⟨by decide, (pipe_pool hrun).1⟩

end MobilePhoneOs.Ipc.PipePool
