import MobilePhoneOs.Kernel.MqueueLife
import MobilePhoneOs.Kernel.MqueueTheorems

/-!
# When message queues live exactly as long as they are used

For every queue five numbers matter: its two counters, the handle slots that name it, the
handles in hand and the live tasks inside. Each section is described by how it moves them; the
invariant and the exact condition under which it survives are then arithmetic.
-/

namespace MobilePhoneOs

open Function (update update_self update_of_ne)
namespace Ipc
namespace MqLife

open Mq (Call)

/-! ## The pool -/

/-- The part of a queue that decides about its life. -/
def life (q : Mqueue) : Bool × ℕ × ℕ := (q.used, q.handles, q.inflight)

lemma sendSection_life (q : Mqueue) (t : Task) (msg : List UInt8) :
    (sendSection q t msg).2 = .accepted ∧
        life (sendSection q t msg).1 = (q.used, q.handles, q.inflight - 1) ∨
      (sendSection q t msg).2 = .parked ∧ life (sendSection q t msg).1 = life q := by
  unfold sendSection
  split_ifs with hroom
  · exact .inl ⟨rfl, rfl⟩
  · exact .inr ⟨rfl, rfl⟩

lemma receiveSection_life (q : Mqueue) (t : Task) (buflen : ℕ) :
    (receiveSection q t buflen).2 ≠ .parked ∧
        life (receiveSection q t buflen).1 = (q.used, q.handles, q.inflight - 1) ∨
      (receiveSection q t buflen).2 = .parked ∧ life (receiveSection q t buflen).1 = life q := by
  unfold receiveSection
  split_ifs with hcount
  · exact .inl ⟨nofun, rfl⟩
  · exact .inr ⟨rfl, rfl⟩

/-- `mq_open` takes a handle to a used queue, or makes one with one handle. -/
lemma mqOpen_cases (pool : Pool) (name : List UInt8) :
    ((mqOpen pool name).1 = pool ∧
      ((mqOpen pool name).2 = .inval ∨ (mqOpen pool name).2 = .nfile)) ∨
    ∃ id, id < MQ_QUEUES_MAX ∧
      ((mqOpen pool name).2 = .opened id ∧ (pool id).used = true ∧
          (mqOpen pool name).1
            = update pool id { pool id with handles := (pool id).handles + 1 } ∨
        (mqOpen pool name).2 = .created id ∧ (pool id).used = false ∧
          ∃ q, life q = (true, 1, 0) ∧ (mqOpen pool name).1 = update pool id q) := by
  unfold mqOpen
  split_ifs with hname
  · exact .inl ⟨rfl, .inl rfl⟩
  · dsimp only
    split
    · next id hid =>
      have hlt := List.mem_range.mp (List.mem_of_find?_eq_some hid)
      have hfound := List.find?_some hid
      simp only [Bool.and_eq_true] at hfound
      exact .inr ⟨id, hlt, .inl ⟨rfl, hfound.1, rfl⟩⟩
    · split
      · exact .inl ⟨rfl, .inr rfl⟩
      · next id hid =>
        have hlt := List.mem_range.mp (List.mem_of_find?_eq_some hid)
        have hfree : (pool id).used = false := by simpa using List.find?_some hid
        exact .inr ⟨id, hlt, .inr ⟨rfl, hfree, _, rfl, rfl⟩⟩

/-- `mq_close_id` of a used queue with a handle. -/
lemma mqCloseId_of_used {pool : Pool} {id : ℕ} (hid : id < MQ_QUEUES_MAX)
    (hused : (pool id).used = true) (hhandles : (pool id).handles ≠ 0) :
    ∃ q, (mqCloseId pool id).1 = update pool id q ∧
      life q = (decide ¬ ((pool id).handles = 1 ∧ (pool id).inflight = 0),
        (pool id).handles - 1, (pool id).inflight) := by
  unfold mqCloseId
  rw [if_neg (Nat.not_le.mpr hid), if_pos ⟨hused, hhandles⟩]
  refine ⟨_, rfl, ?_⟩
  unfold mqTryFree
  split_ifs with hfree
  · obtain ⟨_, hzero, hnone⟩ := hfree
    have hone : (pool id).handles = 1 := by
      simp only at hzero
      omega
    simp only at hnone
    simp [life, mqWakePair, hone, hnone]
  · simp only [hused, true_and, not_and] at hfree
    simp only [life, hused]
    congr 1
    simp only [eq_comm (a := true), decide_eq_true_eq, not_and]
    intro hone
    exact hfree (by omega)

/-- `mq_send_id` up to its first park leaves the pool, or runs on a used queue and keeps its pin
if and only if it parks. -/
lemma mqSendId_cases (pool : Pool) (t : Task) (id : ℕ) (hasBuf : Bool) (msg : List UInt8) :
    ((mqSendId pool t id hasBuf msg).1 = pool ∧ (mqSendId pool t id hasBuf msg).2 ≠ .parked) ∨
    ∃ q, (pool id).used = true ∧ (mqSendId pool t id hasBuf msg).1 = update pool id q ∧
      ((mqSendId pool t id hasBuf msg).2 ≠ .parked ∧ life q = life (pool id) ∨
        (mqSendId pool t id hasBuf msg).2 = .parked ∧
          life q = ((pool id).used, (pool id).handles, (pool id).inflight + 1)) := by
  unfold mqSendId
  split_ifs with hbuf hsize hbad
  · exact .inl ⟨rfl, nofun⟩
  · exact .inl ⟨rfl, nofun⟩
  · exact .inl ⟨rfl, nofun⟩
  · rw [not_or, Bool.not_eq_false] at hbad
    refine .inr ⟨_, hbad.2, rfl, ?_⟩
    rcases sendSection_life { pool id with inflight := (pool id).inflight + 1 } t msg with h | h
    · exact .inl ⟨by rw [h.1]; exact nofun, h.2⟩
    · exact .inr h

/-- The same of `mq_receive_id`. -/
lemma mqReceiveId_cases (pool : Pool) (t : Task) (id : ℕ) (hasBuf : Bool) (buflen : ℕ) :
    ((mqReceiveId pool t id hasBuf buflen).1 = pool ∧
      (mqReceiveId pool t id hasBuf buflen).2 ≠ .parked) ∨
    ∃ q, (pool id).used = true ∧
      (mqReceiveId pool t id hasBuf buflen).1 = update pool id q ∧
      ((mqReceiveId pool t id hasBuf buflen).2 ≠ .parked ∧ life q = life (pool id) ∨
        (mqReceiveId pool t id hasBuf buflen).2 = .parked ∧
          life q = ((pool id).used, (pool id).handles, (pool id).inflight + 1)) := by
  unfold mqReceiveId
  split_ifs with hbuf hbad
  · exact .inl ⟨rfl, nofun⟩
  · exact .inl ⟨rfl, nofun⟩
  · rw [not_or, Bool.not_eq_false] at hbad
    refine .inr ⟨_, hbad.2, rfl, ?_⟩
    exact receiveSection_life { pool id with inflight := (pool id).inflight + 1 } t buflen

/-! ## Counting -/

namespace Sys

lemma countP_starts (P : Task × Phase → Bool) (s : Sys) (t : Task) (new : Phase) :
    (s.starts t new).calls.countP P = s.calls.countP P + if P (t, new) then 1 else 0 :=
  List.countP_cons ..

variable {s : Sys} {t : Task} {old : Phase}

lemma countP_done (P : Task × Phase → Bool)
    (h : (t, old) ∈ s.calls) :
    (s.done t old).calls.countP P + (if P (t, old) then 1 else 0) = s.calls.countP P := by
  have herase := List.countP_erase P s.calls (t, old)
  show (s.calls.erase (t, old)).countP P + _ = _
  rw [herase]
  by_cases hP : P (t, old) = true
  · have hpos := List.countP_pos_iff.mpr ⟨_, h, hP⟩
    rw [if_pos ⟨h, hP⟩, if_pos hP]
    omega
  · rw [if_neg fun hc => hP hc.2, if_neg hP, Nat.add_zero, Nat.sub_zero]

lemma countP_goes (P : Task × Phase → Bool) (new : Phase)
    (h : (t, old) ∈ s.calls) :
    (s.goes t old new).calls.countP P + (if P (t, old) then 1 else 0)
      = s.calls.countP P + if P (t, new) then 1 else 0 := by
  have hdone := countP_done P h
  have hgoes : (s.goes t old new).calls.countP P
      = (s.done t old).calls.countP P + if P (t, new) then 1 else 0 := List.countP_cons ..
  omega

lemma held_starts (s : Sys) (t : Task) (new : Phase) (j : ℕ) :
    (s.starts t new).held j = s.held j + if isHeld j (t, new) then 1 else 0 := countP_starts ..

lemma inside_starts (s : Sys) (t : Task) (new : Phase) (j : ℕ) :
    (s.starts t new).inside j = s.inside j + if isInside j (t, new) then 1 else 0 :=
  countP_starts ..

lemma held_done (h : (t, old) ∈ s.calls) (j : ℕ) :
    (s.done t old).held j + (if isHeld j (t, old) then 1 else 0) = s.held j := countP_done _ h

lemma inside_done (h : (t, old) ∈ s.calls) (j : ℕ) :
    (s.done t old).inside j + (if isInside j (t, old) then 1 else 0) = s.inside j :=
  countP_done _ h

@[simp] lemma held_pool (s : Sys) (pool : Pool) (j : ℕ) : (s.setPool pool).held j = s.held j :=
  rfl

@[simp] lemma inside_pool (s : Sys) (pool : Pool) (j : ℕ) :
    (s.setPool pool).inside j = s.inside j := rfl

@[simp] lemma held_setHandle (s : Sys) (p : ProcId) (i : Fin PROC_MQ_MAX) (v j : ℕ) :
    (s.setHandle p i v).held j = s.held j := rfl

@[simp] lemma inside_setHandle (s : Sys) (p : ProcId) (i : Fin PROC_MQ_MAX) (v j : ℕ) :
    (s.setHandle p i v).inside j = s.inside j := rfl

lemma naming_update (id : ℕ) (h : Handles) (i : Fin PROC_MQ_MAX) (v : ℕ) :
    naming id (update h i v) + (if h i = id + 1 then 1 else 0)
      = naming id h + if v = id + 1 then 1 else 0 :=
  sum_update_add Finset.univ (fun x => if x = id + 1 then 1 else 0) h (Finset.mem_univ i) v

variable {p : ProcId}

lemma slots_setHandle {n : ℕ} (s : Sys) (hp : p < n) (i : Fin PROC_MQ_MAX) (v id : ℕ) :
    slots n (s.setHandle p i v) id + (if s.mqHandles p i = id + 1 then 1 else 0)
      = slots n s id + if v = id + 1 then 1 else 0 := by
  have hsum := sum_update_add (Finset.range n) (naming id) s.mqHandles (Finset.mem_range.mpr hp)
    (update (s.mqHandles p) i v)
  have hone := naming_update id (s.mqHandles p) i v
  have hnew : slots n (s.setHandle p i v) id = ∑ x ∈ Finset.range n,
    naming id (update s.mqHandles p (update (s.mqHandles p) i v) x) := rfl
  have hold : slots n s id = ∑ x ∈ Finset.range n, naming id (s.mqHandles x) := rfl
  omega

@[simp] lemma isHeld_holds (j id : ℕ) (t : Task) : isHeld j (t, .holds id) = decide (id = j) := rfl

@[simp] lemma isHeld_picked (j id : ℕ) (t : Task) (p : ProcId) (i : Fin PROC_MQ_MAX) :
    isHeld j (t, .picked p i id) = decide (id = j) := rfl

@[simp] lemma isHeld_inside (j : ℕ) (t : Task) (c : Call) : isHeld j (t, .inside c) = false := rfl

@[simp] lemma isInside_holds (j id : ℕ) (t : Task) : isInside j (t, .holds id) = false := rfl

@[simp] lemma isInside_picked (j id : ℕ) (t : Task) (p : ProcId) (i : Fin PROC_MQ_MAX) :
    isInside j (t, .picked p i id) = false := rfl

@[simp] lemma isInside_inside (j : ℕ) (t : Task) (c : Call) :
    isInside j (t, .inside c) = decide (c.id = j) := rfl

/-! ## The invariant -/

/-- The open-handle count is the number of handle slots that name the queue plus the handles
not in a slot. -/
def Counts (n : ℕ) (s : Sys) (id : ℕ) : Prop := (s.pool id).handles = s.slots n id + s.held id

/-- A queue in use has an open handle or a task inside. -/
def Needed (s : Sys) (id : ℕ) : Prop :=
  (s.pool id).used = true → 0 < (s.pool id).handles ∨ 0 < s.inside id

def Law (n : ℕ) (s : Sys) : Prop := ∀ id, s.Counts n id ∧ s.Needed id

/-- Every task inside has a pin, and a queue not in use has no counts. -/
structure Side (s : Sys) (id : ℕ) : Prop where
  pinned : s.inside id ≤ (s.pool id).inflight
  clear : (s.pool id).used = false → (s.pool id).handles = 0 ∧ (s.pool id).inflight = 0
  bound : (s.pool id).used = true → id < MQ_QUEUES_MAX

/-- The five numbers of a queue, and whether it is in use. -/
structure Same (n : ℕ) (s s' : Sys) (id : ℕ) : Prop where
  life : life (s'.pool id) = life (s.pool id)
  slots : s'.slots n id = s.slots n id
  held : s'.held id = s.held id
  inside : s'.inside id = s.inside id

variable {n : ℕ} {s s' : Sys}

lemma life_eq {q : Mqueue} {u : Bool} {h f : ℕ} (hlife : life q = (u, h, f)) :
    q.used = u ∧ q.handles = h ∧ q.inflight = f := by
  simpa [life] using hlife

variable {id : ℕ}

lemma Same.counts (h : Same n s s' id) : s'.Counts n id ↔ s.Counts n id := by
  obtain ⟨_, hhandles, _⟩ := life_eq h.life
  rw [Counts, Counts, hhandles, h.slots, h.held]

lemma Same.needed (h : Same n s s' id) : s'.Needed id ↔ s.Needed id := by
  obtain ⟨hused, hhandles, _⟩ := life_eq h.life
  rw [Needed, Needed, hused, hhandles, h.inside]

lemma Same.side (h : Same n s s' id) (hs : s.Side id) : s'.Side id := by
  obtain ⟨hused, hhandles, hinflight⟩ := life_eq h.life
  refine ⟨?_, ?_, ?_⟩
  · rw [h.inside, hinflight]
    exact hs.pinned
  · rw [hused, hhandles, hinflight]
    exact hs.clear
  · rw [hused]
    exact hs.bound

variable {j : ℕ}

/-- The other queues when one entry of the pool changes. -/
lemma same_update {q : Mqueue} (hj : j ≠ id) :
    Same n s (s.setPool (update s.pool id q)) j := by
  refine ⟨?_, rfl, rfl, rfl⟩
  show life (update s.pool id q j) = _
  rw [update_of_ne hj]

lemma Same.trans {s'' : Sys} (h : Same n s s' j) (h' : Same n s' s'' j) :
    Same n s s'' j :=
  ⟨h'.life.trans h.life, h'.slots.trans h.slots, h'.held.trans h.held, h'.inside.trans h.inside⟩

lemma same_starts {new : Phase} (hh : isHeld j (t, new) = false)
    (hi : isInside j (t, new) = false) : Same n s (s.starts t new) j := by
  refine ⟨rfl, rfl, ?_, ?_⟩
  · show (s.starts t new).calls.countP (isHeld j) = s.calls.countP (isHeld j)
    rw [countP_starts, hh, if_neg Bool.false_ne_true, Nat.add_zero]
  · show (s.starts t new).calls.countP (isInside j) = s.calls.countP (isInside j)
    rw [countP_starts, hi, if_neg Bool.false_ne_true, Nat.add_zero]

lemma same_done (hmem : (t, old) ∈ s.calls)
    (hh : isHeld j (t, old) = false) (hi : isInside j (t, old) = false) :
    Same n s (s.done t old) j := by
  refine ⟨rfl, rfl, ?_, ?_⟩
  · have hcount := countP_done (isHeld j) hmem
    rw [hh, if_neg Bool.false_ne_true, Nat.add_zero] at hcount
    exact hcount
  · have hcount := countP_done (isInside j) hmem
    rw [hi, if_neg Bool.false_ne_true, Nat.add_zero] at hcount
    exact hcount

/-- A section that moves the numbers of one queue only. -/
lemma of_same (hlaw : s.Law n) (hside : ∀ j, s.Side j)
    (hsame : ∀ j, j ≠ id → Same n s s' j) (hat : s'.Side id) {P : Prop}
    (hiff : s'.Counts n id ∧ s'.Needed id ↔ P) : (s'.Law n ↔ P) ∧ ∀ j, s'.Side j := by
  refine ⟨⟨fun h => hiff.mp (h id), fun hP j => ?_⟩, fun j => ?_⟩
  · rcases eq_or_ne j id with rfl | hj
    · exact hiff.mpr hP
    · exact ⟨(hsame j hj).counts.mpr (hlaw j).1, (hsame j hj).needed.mpr (hlaw j).2⟩
  · rcases eq_or_ne j id with rfl | hj
    · exact hat
    · exact (hsame j hj).side (hside j)

/-- What the section needs so that every count and every queue stays right. -/
def Ok (s : Sys) : Event → Prop
  | .pick _ p _ => mqHandleInstall (s.mqHandles p) ≠ none
  | .store _ p i _ => s.mqHandles p i = 0
  | .resend _ id _ =>
    (s.pool id).count < MQ_DEPTH → (s.pool id).handles ≠ 0 ∨ 1 < s.inside id
  | .rereceive _ id _ => (s.pool id).count ≠ 0 → (s.pool id).handles ≠ 0 ∨ 1 < s.inside id
  | .kill _ c => (s.pool c.id).handles ≠ 0 ∨ 1 < s.inside c.id
  | .close _ id => (s.pool id).handles = 1 → s.inside id = 0 → (s.pool id).inflight = 0
  | .open _ _ | .send _ _ _ _ | .receive _ _ _ _ | .release _ _ _ => True

/-! ## One section -/

section

variable (hlaw : s.Law n) (hside : ∀ j, s.Side j)
include hlaw hside

/-- A task goes from holding one handle to holding the same one elsewhere. -/
lemma step_pick (hen : s.Enabled n (.pick t p id)) :
    ((s.act (.pick t p id)).Law n ↔ s.Ok (.pick t p id)) ∧ ∀ j, (s.act (.pick t p id)).Side j := by
  obtain ⟨hmem, hp⟩ := hen
  simp only [act, Ok]
  cases hfind : mqHandleInstall (s.mqHandles p) with
  | some i =>
    have hsame : ∀ j, Same n s (s.goes t (.holds id) (.picked p i id)) j := fun j => by
      have hheld := countP_goes (isHeld j) (.picked p i id) hmem
      have hinside := countP_goes (isInside j) (.picked p i id) hmem
      exact ⟨rfl, rfl, Nat.add_right_cancel hheld, Nat.add_right_cancel hinside⟩
    refine ⟨⟨fun _ => nofun, fun _ j => ?_⟩, fun j => (hsame j).side (hside j)⟩
    exact ⟨(hsame j).counts.mpr (hlaw j).1, (hsame j).needed.mpr (hlaw j).2⟩
  | none =>
    have hheld := fun j => countP_done (isHeld j) hmem
    have hinside := fun j => countP_done (isInside j) hmem
    simp only [isHeld_holds, isInside_holds, decide_eq_true_eq] at hheld hinside
    have hsame : ∀ j, j ≠ id → Same n s (s.done t (.holds id)) j := fun j hj =>
      same_done hmem (by simp [hj.symm]) rfl
    refine of_same hlaw hside hsame ?_ ?_
    · have hin : (s.done t (.holds id)).inside id = s.inside id := hinside id
      refine ⟨?_, (hside id).clear, (hside id).bound⟩
      rw [hin]
      exact (hside id).pinned
    · -- the handle is in nobody's hands any more, and the count still has it
      refine ⟨fun h => absurd h.1 ?_, fun h => absurd rfl h⟩
      have hat := hheld id
      have hcount := (hlaw id).1
      rw [if_pos rfl] at hat
      intro hbad
      unfold Counts at hbad hcount
      have hsl : (s.done t (.holds id)).slots n id = s.slots n id := rfl
      have hpool : (s.done t (.holds id)).pool = s.pool := rfl
      unfold held at hbad hcount
      rw [hpool, hsl] at hbad
      omega

/-- The handle is in the slot, and out of the hand. -/
lemma step_store {i : Fin PROC_MQ_MAX} (hen : s.Enabled n (.store t p i id)) :
    ((s.act (.store t p i id)).Law n ↔ s.Ok (.store t p i id)) ∧
      ∀ j, (s.act (.store t p i id)).Side j := by
  obtain ⟨hmem, hp⟩ := hen
  let s' := (s.setHandle p i (id + 1)).done t (.picked p i id)
  have hslots : ∀ j, s'.slots n j + (if s.mqHandles p i = j + 1 then 1 else 0)
      = s.slots n j + if id + 1 = j + 1 then 1 else 0 := fun j => slots_setHandle s hp i (id + 1) j
  have hheld : ∀ j, s'.held j + (if id = j then 1 else 0) = s.held j := fun j => by
    simpa using held_done (s := s.setHandle p i (id + 1)) hmem j
  have hinside : ∀ j, s'.inside j = s.inside j := fun j => by
    simpa using inside_done (s := s.setHandle p i (id + 1)) hmem j
  have hneeded : ∀ j, s'.Needed j := fun j => by
    rw [Needed, hinside]
    exact (hlaw j).2
  have hside' : ∀ j, s'.Side j := fun j => by
    refine ⟨?_, (hside j).clear, (hside j).bound⟩
    rw [hinside]
    exact (hside j).pinned
  refine ⟨⟨fun h => ?_, fun hok j => ⟨?_, hneeded j⟩⟩, hside'⟩
  · -- a handle that was in the slot is lost
    by_contra hne
    obtain ⟨v, hv⟩ : ∃ v, s.mqHandles p i = v + 1 := Nat.exists_eq_succ_of_ne_zero hne
    have hnew : (s.pool v).handles = s'.slots n v + s'.held v := (h v).1
    have hold : (s.pool v).handles = s.slots n v + s.held v := (hlaw v).1
    have hsl := hslots v
    have hhe := hheld v
    rw [if_pos hv] at hsl
    by_cases hid : id = v
    · rw [if_pos hid] at hhe
      rw [if_pos (by omega)] at hsl
      omega
    · rw [if_neg hid] at hhe
      rw [if_neg (by omega)] at hsl
      omega
  · show (s.pool j).handles = s'.slots n j + s'.held j
    have hold : (s.pool j).handles = s.slots n j + s.held j := (hlaw j).1
    have hsl := hslots j
    have hhe := hheld j
    have hzero : s.mqHandles p i = 0 := hok
    rw [hzero, if_neg (Nat.succ_ne_zero j).symm] at hsl
    by_cases hid : id = j
    · rw [if_pos hid] at hhe
      rw [if_pos (by omega)] at hsl
      omega
    · rw [if_neg hid] at hhe
      rw [if_neg (by omega)] at hsl
      omega

/-- The first section of a send or a receive. The queue it finds in use was right before, so it
is right whether the call goes through or parks. -/
lemma step_enter {pool : Pool} {parked : Prop}
    [Decidable parked] {c : Call} (hid : c.id = id)
    (hcases : (pool = s.pool ∧ ¬ parked) ∨
      ∃ q, (s.pool id).used = true ∧ pool = update s.pool id q ∧
        (¬ parked ∧ life q = life (s.pool id) ∨
          parked ∧ life q = ((s.pool id).used, (s.pool id).handles, (s.pool id).inflight + 1))) :
    let s' := if parked then (s.setPool pool).starts t (.inside c)
      else s.setPool pool
    s'.Law n ∧ ∀ j, s'.Side j := by
  rcases hcases with ⟨rfl, hno⟩ | ⟨q, hused, rfl, ⟨hno, hlife⟩ | ⟨hyes, hlife⟩⟩
  · simp only [if_neg hno]
    exact ⟨hlaw, hside⟩
  · simp only [if_neg hno]
    have hsame : ∀ j, Same n s (s.setPool (update s.pool id q)) j := fun j => by
      rcases eq_or_ne j id with rfl | hj
      · refine ⟨?_, rfl, rfl, rfl⟩
        show life (update s.pool j q j) = _
        rw [update_self]
        exact hlife
      · exact same_update hj
    exact ⟨fun j => ⟨(hsame j).counts.mpr (hlaw j).1, (hsame j).needed.mpr (hlaw j).2⟩,
      fun j => (hsame j).side (hside j)⟩
  · simp only [if_pos hyes]
    obtain ⟨hu, hh, hf⟩ := life_eq hlife
    have hpool : ((s.setPool (update s.pool id q)).starts t (.inside c)).pool id = q :=
      update_self ..
    have hheld := held_starts (s.setPool (update s.pool id q)) t (.inside c) id
    have hinside := inside_starts (s.setPool (update s.pool id q)) t (.inside c) id
    rw [isHeld_inside, if_neg Bool.false_ne_true, Nat.add_zero, held_pool] at hheld
    rw [isInside_inside, if_pos (by simp [hid]), inside_pool] at hinside
    have hslots : ((s.setPool (update s.pool id q)).starts t (.inside c)).slots n id
        = s.slots n id := rfl
    generalize hs' : (s.setPool (update s.pool id q)).starts t (.inside c) = s'
      at hpool hheld hinside hslots
    have hat : s'.Side id := by
      have hpinned := (hside id).pinned
      refine ⟨?_, ?_, ?_⟩
      · rw [hpool, hinside, hf]
        omega
      · rw [hpool, hu, hused]
        exact nofun
      · rw [hpool, hu]
        exact (hside id).bound
    have hlawAt : s'.Counts n id ∧ s'.Needed id := by
      refine ⟨?_, fun _ => ?_⟩
      · rw [Counts, hpool, hh, hheld, hslots]
        exact (hlaw id).1
      · rw [hinside]
        omega
    have hsame : ∀ j, j ≠ id → Same n s s' j := fun j hj => by
      rw [← hs']
      exact (same_update hj).trans (same_starts rfl (by simp [hid, hj.symm]))
    have hboth := of_same hlaw hside hsame hat (iff_true_intro hlawAt)
    exact ⟨hboth.1.mpr trivial, hboth.2⟩

/-- A later section of a send or a receive: it goes through, with its task gone from the queue,
or it parks again. -/
lemma step_again {parked : Prop} [Decidable parked] {c : Call} {q : Mqueue} (hid : c.id = id)
    (hmem : (t, .inside c) ∈ s.calls)
    (hcases : ¬ parked ∧
        life q = ((s.pool id).used, (s.pool id).handles, (s.pool id).inflight - 1) ∨
      parked ∧ life q = life (s.pool id)) :
    let s' := if parked then s.setPool (update s.pool id q)
      else (s.setPool (update s.pool id q)).done t (.inside c)
    (s'.Law n ↔ (¬ parked → (s.pool id).handles ≠ 0 ∨ 1 < s.inside id)) ∧ ∀ j, s'.Side j := by
  rcases hcases with ⟨hno, hlife⟩ | ⟨hyes, hlife⟩
  · simp only [if_neg hno]
    obtain ⟨hu, hh, hf⟩ := life_eq hlife
    have hmem' : (t, .inside c) ∈ (s.setPool (update s.pool id q)).calls := hmem
    have hpool : ((s.setPool (update s.pool id q)).done t (.inside c)).pool id = q :=
      update_self ..
    have hheld := held_done hmem' id
    have hinside := inside_done hmem' id
    rw [isHeld_inside, if_neg Bool.false_ne_true, Nat.add_zero, held_pool] at hheld
    rw [isInside_inside, if_pos (by simp [hid]), inside_pool] at hinside
    have hsame : ∀ j, j ≠ id → Same n s
        ((s.setPool (update s.pool id q)).done t (.inside c)) j := fun j hj =>
      (same_update hj).trans (same_done hmem' rfl (by simp [hid, hj.symm]))
    have hslots : ((s.setPool (update s.pool id q)).done t (.inside c)).slots n id
        = s.slots n id := rfl
    generalize (s.setPool (update s.pool id q)).done t (.inside c) = s'
      at hpool hheld hinside hsame hslots
    have hpinned := (hside id).pinned
    -- its own pin shows that the queue is in use
    have hused : (s.pool id).used = true := by
      by_contra hfree
      have hzero := ((hside id).clear (by simpa using hfree)).2
      omega
    have hat : s'.Side id := by
      refine ⟨?_, ?_, ?_⟩
      · rw [hpool, hf]
        omega
      · rw [hpool, hu, hused]
        exact nofun
      · rw [hpool, hu]
        exact (hside id).bound
    refine of_same hlaw hside hsame hat ⟨fun h _ => ?_, fun hok => ⟨?_, fun _ => ?_⟩⟩
    · have hneeded := h.2
      rw [Needed, hpool, hu, hh] at hneeded
      have := hneeded hused
      omega
    · rw [Counts, hpool, hh, hheld, hslots]
      exact (hlaw id).1
    · rw [hpool, hh]
      have := hok hno
      omega
  · simp only [if_pos hyes]
    have hsame : ∀ j, Same n s (s.setPool (update s.pool id q)) j := fun j => by
      rcases eq_or_ne j id with rfl | hj
      · refine ⟨?_, rfl, rfl, rfl⟩
        show life (update s.pool j q j) = _
        rw [update_self]
        exact hlife
      · exact same_update hj
    refine ⟨⟨fun _ hno => absurd hyes hno, fun _ j => ?_⟩, fun j => (hsame j).side (hside j)⟩
    exact ⟨(hsame j).counts.mpr (hlaw j).1, (hsame j).needed.mpr (hlaw j).2⟩

/-- A killed task leaves its pin behind. -/
lemma step_kill {c : Call}
    (hmem : (t, .inside c) ∈ s.calls) :
    ((s.act (.kill t c)).Law n ↔ s.Ok (.kill t c)) ∧ ∀ j, (s.act (.kill t c)).Side j := by
  have hheld := held_done hmem c.id
  have hinside := inside_done hmem c.id
  rw [isHeld_inside, if_neg Bool.false_ne_true, Nat.add_zero] at hheld
  rw [isInside_inside, if_pos (by simp)] at hinside
  have hpinned := (hside c.id).pinned
  have hused : (s.pool c.id).used = true := by
    by_contra hfree
    have hzero := ((hside c.id).clear (by simpa using hfree)).2
    omega
  have hat : (s.done t (.inside c)).Side c.id := by
    refine ⟨?_, (hside c.id).clear, (hside c.id).bound⟩
    show _ ≤ (s.pool c.id).inflight
    omega
  have hsame : ∀ j, j ≠ c.id → Same n s (s.done t (.inside c)) j := fun j hj =>
    same_done hmem rfl (by simp [hj.symm])
  refine of_same hlaw hside hsame hat ⟨fun h => ?_, fun hok => ⟨?_, fun _ => ?_⟩⟩
  · show (s.pool c.id).handles ≠ 0 ∨ 1 < s.inside c.id
    have hneeded : 0 < (s.pool c.id).handles ∨ 0 < (s.done t (.inside c)).inside c.id := h.2 hused
    omega
  · show (s.pool c.id).handles = s.slots n c.id + (s.done t (.inside c)).held c.id
    rw [hheld]
    exact (hlaw c.id).1
  · show 0 < (s.pool c.id).handles ∨ _
    have hor : (s.pool c.id).handles ≠ 0 ∨ 1 < s.inside c.id := hok
    omega

/-- A handle goes from its slot into the hand of the exiting process. -/
lemma step_release {i : Fin PROC_MQ_MAX} (hp : p < n) :
    (s.act (.release t p i)).Law n ∧ ∀ j, (s.act (.release t p i)).Side j := by
  simp only [act, mqHandleLookup]
  by_cases hzero : s.mqHandles p i = 0
  · simp only [if_pos hzero]
    exact ⟨hlaw, hside⟩
  · simp only [if_neg hzero]
    have hslots := slots_setHandle s hp i 0
    have hheld := held_starts (s.setHandle p i 0) t (.holds (s.mqHandles p i - 1))
    have hinside := inside_starts (s.setHandle p i 0) t (.holds (s.mqHandles p i - 1))
    simp only [isHeld_holds, isInside_holds, held_setHandle, inside_setHandle, decide_eq_true_eq,
      Bool.false_eq_true, if_false, Nat.add_zero] at hheld hinside
    refine ⟨fun j => ⟨?_, ?_⟩, fun j => ⟨?_, (hside j).clear, (hside j).bound⟩⟩
    · show (s.pool j).handles = (s.setHandle p i 0).slots n j + _
      have hold : (s.pool j).handles = s.slots n j + s.held j := (hlaw j).1
      have hsl := hslots j
      have hhe := hheld j
      rw [if_neg (Nat.succ_ne_zero j).symm] at hsl
      by_cases hj : s.mqHandles p i - 1 = j
      · rw [if_pos hj] at hhe
        rw [if_pos (by omega)] at hsl
        omega
      · rw [if_neg hj] at hhe
        rw [if_neg (by omega)] at hsl
        omega
    · rw [Needed, hinside]
      exact (hlaw j).2
    · rw [hinside]
      exact (hside j).pinned

/-- An open takes one more handle, to a queue in use or to a new one. -/
lemma step_open (t : Task) (name : List UInt8) :
    (s.act (.open t name)).Law n ∧ ∀ j, (s.act (.open t name)).Side j := by
  have htake : ∀ (id : ℕ) (q : Mqueue), id < MQ_QUEUES_MAX →
      life q = (true, (s.pool id).handles + 1, (s.pool id).inflight) →
      let s' := (s.setPool (update s.pool id q)).starts t (.holds id)
      s'.Law n ∧ ∀ j, s'.Side j := by
    intro id q hid hlife
    obtain ⟨hu, hh, hf⟩ := life_eq hlife
    have hheld := held_starts (s.setPool (update s.pool id q)) t (.holds id) id
    have hinside := inside_starts (s.setPool (update s.pool id q)) t (.holds id) id
    simp only [isHeld_holds, decide_true, if_true, held_pool] at hheld
    have hpool : ((s.setPool (update s.pool id q)).starts t (.holds id)).pool id = q :=
      update_self ..
    have hslots : ((s.setPool (update s.pool id q)).starts t (.holds id)).slots n id
        = s.slots n id := rfl
    have hsame : ∀ j, j ≠ id →
        Same n s ((s.setPool (update s.pool id q)).starts t (.holds id)) j := fun j hj =>
      (same_update hj).trans (same_starts (by simp [hj.symm]) rfl)
    generalize (s.setPool (update s.pool id q)).starts t (.holds id) = s'
      at hheld hinside hpool hslots hsame
    have hcount : (s.pool id).handles = s.slots n id + s.held id := (hlaw id).1
    have hat : s'.Side id := by
      refine ⟨?_, ?_, fun _ => hid⟩
      · rw [hinside, hpool, hf]
        exact (hside id).pinned
      · rw [hpool, hu]
        exact nofun
    have hlawAt : s'.Counts n id ∧ s'.Needed id := by
      refine ⟨?_, fun _ => .inl ?_⟩
      · rw [Counts, hpool, hh, hslots, hheld]
        omega
      · rw [hpool, hh]
        omega
    have hboth := of_same hlaw hside hsame hat (iff_true_intro hlawAt)
    exact ⟨hboth.1.mpr trivial, hboth.2⟩
  simp only [act]
  rcases mqOpen_cases s.pool name with ⟨hpool, hout⟩ | ⟨id, hid, ⟨hout, hused, hpool⟩ |
    ⟨hout, hfree, q, hlife, hpool⟩⟩
  · have hsame : s.setPool (mqOpen s.pool name).1 = s := by rw [hpool]; rfl
    rcases hout with hout | hout
    · simp only [hout, hsame]
      exact ⟨hlaw, hside⟩
    · simp only [hout, hsame]
      exact ⟨hlaw, hside⟩
  · simp only [hout, hpool]
    exact htake id _ hid (by simp [life, hused])
  · simp only [hout, hpool]
    obtain ⟨hh, hf⟩ := (hside id).clear hfree
    exact htake id q hid (by rw [hlife, hh, hf])

/-- A close gives one handle back; the last one frees the queue unless something has a pin. -/
lemma step_close (hmem : (t, .holds id) ∈ s.calls) :
    ((s.act (.close t id)).Law n ↔ s.Ok (.close t id)) ∧ (∀ j, (s.act (.close t id)).Side j) ∧
      ∀ j, (s.pool j).used = true → ((s.act (.close t id)).pool j).used = false →
        (s.pool j).inflight = 0 := by
  have hcount : (s.pool id).handles = s.slots n id + s.held id := (hlaw id).1
  have hpos : 0 < s.held id := List.countP_pos_iff.mpr ⟨_, hmem, by simp⟩
  have hused : (s.pool id).used = true := by
    by_contra hfree
    have hzero := ((hside id).clear (by simpa using hfree)).1
    omega
  obtain ⟨q, hq, hlife⟩ := mqCloseId_of_used ((hside id).bound hused) hused (by omega)
  obtain ⟨hu, hh, hf⟩ := life_eq hlife
  have hmem' : (t, .holds id) ∈ (s.setPool (update s.pool id q)).calls := hmem
  have hheld := held_done hmem' id
  have hinside := inside_done hmem' id
  simp only [isHeld_holds, decide_true, if_true, held_pool] at hheld
  simp only [isInside_holds, Bool.false_eq_true, if_false, inside_pool, Nat.add_zero] at hinside
  have hpool : ((s.setPool (update s.pool id q)).done t (.holds id)).pool
      = update s.pool id q := rfl
  have hslots : ((s.setPool (update s.pool id q)).done t (.holds id)).slots n id
      = s.slots n id := rfl
  have hsame : ∀ j, j ≠ id →
      Same n s ((s.setPool (update s.pool id q)).done t (.holds id)) j := fun j hj =>
    (same_update hj).trans (same_done hmem' (by simp [hj.symm]) rfl)
  have hact : s.act (.close t id)
      = (s.setPool (update s.pool id q)).done t (.holds id) := by rw [act, hq]
  rw [hact]
  generalize (s.setPool (update s.pool id q)).done t (.holds id) = s'
    at hheld hinside hpool hslots hsame
  have hpoolAt : s'.pool id = q := by rw [hpool, update_self]
  have hpinned := (hside id).pinned
  have hat : s'.Side id := by
    refine ⟨?_, fun hfree => ?_, fun _ => (hside id).bound hused⟩
    · rw [hpoolAt, hinside, hf]
      exact hpinned
    · rw [hpoolAt] at hfree ⊢
      rw [hu, decide_eq_false_iff_not, not_not] at hfree
      omega
  have hboth := of_same (P := s.Ok (.close t id)) hlaw hside hsame hat ?_
  · refine ⟨hboth.1, hboth.2, fun j hj hfree => ?_⟩
    rcases eq_or_ne j id with rfl | hne
    · rw [hpoolAt, hu, decide_eq_false_iff_not, not_not] at hfree
      exact hfree.2
    · rw [(life_eq (hsame j hne).life).1, hj] at hfree
      cases hfree
  · refine ⟨fun h hone hnone => ?_, fun hok => ⟨?_, fun hused' => ?_⟩⟩
    · by_contra hpin
      have hneeded := h.2
      rw [Needed, hpoolAt, hu, hh, hinside] at hneeded
      have hor := hneeded (by simp [hpin])
      omega
    · rw [Counts, hpoolAt, hh, hslots]
      omega
    · rw [hpoolAt] at hused' ⊢
      rw [hu, decide_eq_true_eq] at hused'
      rw [hh, hinside]
      have himp : (s.pool id).handles = 1 → s.inside id = 0 → (s.pool id).inflight = 0 := hok
      by_cases hone : (s.pool id).handles = 1
      · by_cases hnone : s.inside id = 0
        · exact absurd ⟨hone, himp hone hnone⟩ hused'
        · omega
      · omega

end

/-- Every section keeps the invariant if and only if it meets the condition, and frees a queue
only when nothing has a pin. -/
lemma step_law {e : Event} (hlaw : s.Law n) (hside : ∀ j, s.Side j) (hen : s.Enabled n e) :
    ((s.act e).Law n ↔ s.Ok e) ∧ ∀ j, (s.act e).Side j := by
  cases e with
  | «open» t name =>
    obtain ⟨hlaw', hside'⟩ := step_open hlaw hside t name
    exact ⟨⟨fun _ => trivial, fun _ => hlaw'⟩, hside'⟩
  | pick t p id => exact step_pick hlaw hside hen
  | store t p i id => exact step_store hlaw hside hen
  | send t id hasBuf msg =>
    obtain ⟨hlaw', hside'⟩ := step_enter (c := .send id msg) (t := t) hlaw hside rfl
      (mqSendId_cases s.pool t id hasBuf msg)
    exact ⟨⟨fun _ => trivial, fun _ => hlaw'⟩, hside'⟩
  | receive t id hasBuf buflen =>
    obtain ⟨hlaw', hside'⟩ := step_enter (c := .receive id buflen) (t := t) hlaw hside rfl
      (mqReceiveId_cases s.pool t id hasBuf buflen)
    exact ⟨⟨fun _ => trivial, fun _ => hlaw'⟩, hside'⟩
  | resend t id msg =>
    have hroom : (sendSection (s.pool id) t msg).2 ≠ .parked ↔ (s.pool id).count < MQ_DEPTH := by
      unfold sendSection
      split_ifs with h <;> simp [h]
    have hstep := step_again (c := .send id msg) hlaw hside rfl hen.1
      ((sendSection_life (s.pool id) t msg).imp_left fun h => ⟨by rw [h.1]; exact nofun, h.2⟩)
    exact ⟨hstep.1.trans (imp_congr_left hroom), hstep.2⟩
  | rereceive t id buflen =>
    have hsome : (receiveSection (s.pool id) t buflen).2 ≠ .parked ↔ (s.pool id).count ≠ 0 := by
      unfold receiveSection
      split_ifs with h <;> simp [h]
    have hstep := step_again (c := .receive id buflen) hlaw hside rfl hen.1
      (receiveSection_life (s.pool id) t buflen)
    exact ⟨hstep.1.trans (imp_congr_left hsome), hstep.2⟩
  | kill t c => exact step_kill hlaw hside hen
  | release t p i =>
    obtain ⟨hlaw', hside'⟩ := step_release hlaw hside (t := t) (i := i) hen.2
    exact ⟨⟨fun _ => trivial, fun _ => hlaw'⟩, hside'⟩
  | close t id =>
    obtain ⟨hiff, hside', _⟩ := step_close hlaw hside hen
    exact ⟨hiff, hside'⟩

/-- Only a close takes a queue out of use. -/
lemma used_kept {e : Event} (hne : ∀ t id, e ≠ .close t id)
    (hused : (s.pool j).used = true) : ((s.act e).pool j).used = true := by
  have hupdate : ∀ (id : ℕ) (q : Mqueue), q.used = (s.pool id).used ∨ q.used = true →
      (update s.pool id q j).used = true := by
    intro id q hq
    rcases eq_or_ne j id with rfl | hj
    · rw [update_self]
      exact hq.elim (fun h => h.trans hused) id
    · rw [update_of_ne hj]
      exact hused
  cases e with
  | «open» t name =>
    have hpool : ((mqOpen s.pool name).1 j).used = true := by
      rcases mqOpen_cases s.pool name with ⟨hpool, _⟩ | ⟨id, _, ⟨_, _, hpool⟩ | ⟨_, _, q, hq, hpool⟩⟩
      · rw [hpool]
        exact hused
      · rw [hpool]
        exact hupdate id _ (.inl rfl)
      · rw [hpool]
        exact hupdate id q (.inr (life_eq hq).1)
    simp only [act]
    split <;> exact hpool
  | pick t p id =>
    simp only [act]
    split <;> exact hused
  | store t p i id => exact hused
  | send t id hasBuf msg =>
    have hpool : ((mqSendId s.pool t id hasBuf msg).1 j).used = true := by
      rcases mqSendId_cases s.pool t id hasBuf msg with ⟨hpool, _⟩ | ⟨q, _, hpool, hq⟩
      · rw [hpool]
        exact hused
      · rw [hpool]
        exact hupdate id q (.inl (hq.elim (fun h => (life_eq h.2).1) fun h => (life_eq h.2).1))
    simp only [act]
    split_ifs <;> exact hpool
  | receive t id hasBuf buflen =>
    have hpool : ((mqReceiveId s.pool t id hasBuf buflen).1 j).used = true := by
      rcases mqReceiveId_cases s.pool t id hasBuf buflen with ⟨hpool, _⟩ | ⟨q, _, hpool, hq⟩
      · rw [hpool]
        exact hused
      · rw [hpool]
        exact hupdate id q (.inl (hq.elim (fun h => (life_eq h.2).1) fun h => (life_eq h.2).1))
    simp only [act]
    split_ifs <;> exact hpool
  | resend t id msg =>
    have hpool := hupdate id (sendSection (s.pool id) t msg).1 (.inl
      ((sendSection_life (s.pool id) t msg).elim (fun h => (life_eq h.2).1)
        fun h => (life_eq h.2).1))
    simp only [act]
    split_ifs <;> exact hpool
  | rereceive t id buflen =>
    have hpool := hupdate id (receiveSection (s.pool id) t buflen).1 (.inl
      ((receiveSection_life (s.pool id) t buflen).elim (fun h => (life_eq h.2).1)
        fun h => (life_eq h.2).1))
    simp only [act]
    split_ifs <;> exact hpool
  | kill t c => exact hused
  | release t p i =>
    simp only [act]
    split <;> exact hused
  | close t id => exact absurd rfl (hne t id)

lemma law_init (n : ℕ) : init.Law n := by
  refine fun id => ⟨?_, fun h => absurd h Bool.false_ne_true⟩
  have hslots : init.slots n id = 0 := Finset.sum_eq_zero fun p _ => by
    simp [naming, init]
  show 0 = init.slots n id + 0
  rw [hslots]

lemma side_init (id : ℕ) : init.Side id :=
  ⟨Nat.le_refl 0, fun _ => ⟨rfl, rfl⟩, fun h => absurd h Bool.false_ne_true⟩

/-- Where sections come one after another and meet the condition, the law holds; a further section
keeps it if and only if it meets the condition, and frees no queue that a task is inside of. -/
lemma lifetime_of_run {es : List Event} (hrun : Run (Guarded Ok (Step n)) init es s) :
    s.Law n ∧ ∀ e, s.Enabled n e → ((s.act e).Law n ↔ s.Ok e) ∧
      ∀ id, (s.pool id).used = true → ((s.act e).pool id).used = false → s.inside id = 0 := by
  have hinv : s.Law n ∧ ∀ j, s.Side j := by
    refine hrun.invariant (I := fun s => s.Law n ∧ ∀ j, s.Side j) ⟨law_init n, side_init⟩ ?_
    rintro s e s' ⟨hlaw, hside⟩ ⟨hok, hen, rfl⟩
    obtain ⟨hiff, hside'⟩ := step_law hlaw hside hen
    exact ⟨hiff.mpr hok, hside'⟩
  refine ⟨hinv.1, fun e hen => ⟨(step_law hinv.1 hinv.2 hen).1, fun id hused hfree => ?_⟩⟩
  have hpinned := (hinv.2 id).pinned
  cases e with
  | close t i =>
    have hzero := (step_close hinv.1 hinv.2 hen).2.2 id hused hfree
    omega
  | _ =>
    refine absurd (hfree.symm.trans (used_kept ?_ hused)) Bool.false_ne_true
    exact fun _ _ => nofun

end Sys

open Sys

/-! ## Sections that overlap -/

/-- A section that no other one overlaps is one step, and takes the lock for itself only. -/
lemma run_sectionCode (s : Mq.Locked Sys) (e : Event) :
    ∃ b, (b = true → s.ipcLock = true) ∧ (sectionCode e).run s = ((), ⟨b, s.sys.act e⟩) := by
  cases e with
  | resend t id msg =>
    refine ⟨false, nofun, ?_⟩
    rw [sectionCode, Mq.run_resumed (w := Sys.setPool) (fun _ _ => rfl) (fun _ _ _ => rfl) fun _ => rfl,
      Mq.run_sendCode]
    rfl
  | rereceive t id buflen =>
    refine ⟨false, nofun, ?_⟩
    rw [sectionCode, Mq.run_resumed (w := Sys.setPool) (fun _ _ => rfl) (fun _ _ _ => rfl) fun _ => rfl,
      Mq.run_receiveCode]
    rfl
  | pick | store | kill | release => exact ⟨s.ipcLock, id, rfl⟩
  | _ => exact ⟨false, nofun, rfl⟩

lemma whole_of_step {n : ℕ} {s s' : Sys} {e : Event} (h : Step n s e s') :
    Calls.Whole sectionCode (Begins n) ⟨false, s⟩ (e, ()) ⟨false, s'⟩ := by
  obtain ⟨hen, rfl⟩ := h
  obtain ⟨b, hb, hrun⟩ := run_sectionCode ⟨false, s⟩ e
  obtain rfl : b = false := Bool.not_eq_true _ ▸ fun htrue => Bool.false_ne_true (hb htrue)
  exact ⟨⟨nofun, fun _ => rfl, hen⟩, hrun⟩

/-- The free lock, the empty pool and no section under way. -/
def atBoot : Calls (Mq.Locked Sys) Event Unit := ⟨⟨false, init⟩, []⟩

/-- **Queue lifetime.** In every run in which a section begins only while no other one is under
way, and where it meets its condition: when none is under way, every queue in use has an open
handle or a task inside, and its handle count is right; a further section keeps this if and only
if it meets the condition, and frees no queue that a task is inside of. -/
theorem mq_lifetime {n : ℕ} {labels : List (Calls.Label Event Unit)}
    {p : Calls (Mq.Locked Sys) Event Unit}
    (hrun : Run (Guarded (Calls.Serial fun s e => s.sys.Ok e) (Calls.Step sectionCode (Begins n)))
      atBoot labels p) (hidle : p.running = []) :
    p.shared.sys.Law n ∧ ∀ e s', Calls.Whole sectionCode (Begins n) p.shared (e, ()) s' →
      (s'.sys.Law n ↔ p.shared.sys.Ok e) ∧
      ∀ id, (p.shared.sys.pool id).used = true → (s'.sys.pool id).used = false →
        p.shared.sys.inside id = 0 := by
  obtain ⟨s, hwhole, hrest⟩ := Calls.whole_of_serial hrun
  obtain rfl := hrest.idle hidle
  have hact : ∀ {s t : Mq.Locked Sys} {e : Event}, (sectionCode e).run s = ((), t) →
      t.sys = s.sys.act e := by
    intro s t e hcode
    obtain ⟨b, -, hrun⟩ := run_sectionCode s e
    exact congrArg (fun x : Unit × Mq.Locked Sys => x.2.sys) (hcode.symm.trans hrun)
  have hsteps : Run (Guarded Ok (Step n)) init ((Calls.answers labels).map Prod.fst) p.shared.sys :=
    hwhole.map (f := Mq.Locked.sys) fun s x t hstep => ⟨hstep.1, hstep.2.1.2.2, hact hstep.2.2⟩
  obtain ⟨hlaw, hnext⟩ := lifetime_of_run hsteps
  refine ⟨hlaw, ?_⟩
  rintro e s' ⟨hpre, hcode⟩
  rw [hact hcode]
  exact hnext e hpre.2.2

/-- A task opens a queue, waits for a message and is killed; then its process is reaped. -/
def killed : List Event :=
  [.open 1 [97], .pick 1 0 0, .store 1 0 0 0, .receive 1 0 true 8, .kill 1 (.receive 0 8),
    .release 2 0 0, .close 2 0]

/-- The queue stays in use, with no handle and nobody inside. -/
theorem mq_lifetime_killed :
    ∃ labels p, Run (Calls.Step sectionCode (Begins 1)) atBoot labels p ∧
      Calls.answers labels = killed.map (·, ()) ∧ p.running = [] ∧
      (p.shared.sys.pool 0).used = true ∧ (p.shared.sys.pool 0).handles = 0 ∧
      p.shared.sys.inside 0 = 0 := by
  have henables : Enables (Sys.Enabled 1) Sys.act Sys.init killed := by decide
  have hrun : Run (Step 1) Sys.init killed (killed.foldl Sys.act Sys.init) :=
    Run.of_enables (fun _ _ h => ⟨h, rfl⟩) henables
  have hwhole : Run (Guarded (fun _ _ => True) (Calls.Whole sectionCode (Begins 1)))
      ⟨false, init⟩ (killed.map (·, ())) ⟨false, killed.foldl Sys.act init⟩ :=
    hrun.map (f := Mq.Locked.mk false) (g := (·, ())) fun _ _ _ hstep => ⟨trivial, whole_of_step hstep⟩
  obtain ⟨labels, hanswers, hserial⟩ := Calls.serial_of_whole (fun _ _ => True) hwhole
  refine ⟨labels, _, hserial.mono fun _ _ _ h => h.2, hanswers, rfl, ?_, ?_, ?_⟩
  · decide
  · decide
  · decide

/-- A task opens a queue and sends a message; then its process is reaped. -/
def reaped : List Event :=
  [.open 1 [97], .pick 1 0 0, .store 1 0 0 0, .send 1 0 true [7], .release 2 0 0, .close 2 0]

/-- The theorem on this run: the queue is free again. -/
theorem mq_lifetime_reaped :
    (reaped.foldl Sys.act Sys.init).Law 1 ∧
      ((reaped.foldl Sys.act Sys.init).pool 0).used = false := by
  have henables : Enables (fun s e => s.Ok e ∧ s.Enabled 1 e) Sys.act Sys.init reaped := by
    refine ⟨⟨trivial, ?_⟩, ⟨?_, ?_⟩, ⟨?_, ?_⟩, ⟨trivial, ?_⟩, ⟨trivial, ?_⟩, ⟨?_, ?_⟩, trivial⟩
    · decide
    · show mqHandleInstall _ ≠ none
      decide
    · decide
    · show Sys.mqHandles _ _ _ = 0
      decide
    · decide
    · decide
    · decide
    · show _ → _ → _
      decide
    · decide
  have hrun : Run (Guarded Ok (Step 1)) Sys.init reaped (reaped.foldl Sys.act Sys.init) :=
    Run.of_enables (fun _ _ h => ⟨h.1, h.2, rfl⟩) henables
  have hwhole : Run (Guarded (fun s x => s.sys.Ok x.1) (Calls.Whole sectionCode (Begins 1)))
      ⟨false, init⟩ (reaped.map (·, ())) ⟨false, reaped.foldl Sys.act init⟩ :=
    hrun.map (f := Mq.Locked.mk false) (g := (·, ())) fun _ _ _ hstep => ⟨hstep.1, whole_of_step hstep.2⟩
  obtain ⟨labels, -, hserial⟩ := Calls.serial_of_whole _ hwhole
  exact ⟨(mq_lifetime hserial rfl).1, by decide⟩

end MqLife
end Ipc
end MobilePhoneOs
