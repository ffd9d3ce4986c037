import MobilePhoneOs.Kernel.SchedOrder
import MobilePhoneOs.Kernel.TaskTheorems
import Mathlib.Data.List.Pairwise

/-!
# The scheduler picks in the order of arrival

A section draws a key for each task that it makes ready, and the keys grow. As long as no ready
task draws a key again, the order of the keys is the order of arrival, and `pick_next` finds the
head of the best priority.
-/

namespace MobilePhoneOs

open List (mem_append mem_cons mem_finRange mem_singleton)
namespace Sched
namespace Machine

variable {m m₁ m' : Machine} {t u : Slot} {L : List Slot} {C : Slot → Prop}

/-! ## Drawing keys -/

/-- What `pick_next` looks at. -/
def core (x : Task) : TaskState × ℕ × ℕ := (x.state, x.prio, x.rqKey)

/-- The tasks `L` have been put into the run queue one after the other, and nothing else of what
`pick_next` looks at has changed. -/
structure Stamps (m : Machine) (L : List Slot) (m' : Machine) : Prop where
  ready : ∀ t ∈ L, (m'.task t).state = .ready
  above : ∀ t ∈ L, m.rqSeq < (m'.task t).rqKey
  below : ∀ t ∈ L, (m'.task t).rqKey ≤ m'.rqSeq
  order : L.Pairwise fun t u => (m'.task t).rqKey < (m'.task u).rqKey
  seq : m'.rqSeq = m.rqSeq + L.length
  prio : ∀ u, (m'.task u).prio = (m.task u).prio
  others : ∀ u ∉ L, core (m'.task u) = core (m.task u)

lemma Stamps.nil (hcore : ∀ u, core (m'.task u) = core (m.task u)) (hseq : m'.rqSeq = m.rqSeq) :
    Stamps m [] m' where
  ready := nofun
  above := nofun
  below := nofun
  order := List.Pairwise.nil
  seq := hseq
  prio u := congrArg (·.2.1) (hcore u)
  others u _ := hcore u

/-- One task more in front. -/
lemma Stamps.cons (hstate : (m₁.task t).state = .ready) (hkey : (m₁.task t).rqKey = m.rqSeq + 1)
    (hprio : (m₁.task t).prio = (m.task t).prio) (hseq : m₁.rqSeq = m.rqSeq + 1)
    (hne : ∀ u, u ≠ t → core (m₁.task u) = core (m.task u))
    (ht : t ∉ L) (h : Stamps m₁ L m') : Stamps m (t :: L) m' := by
  have hcore := h.others t ht
  have hkey' : (m'.task t).rqKey = m.rqSeq + 1 := (congrArg (·.2.2) hcore).trans hkey
  have hseq' := h.seq
  constructor
  · intro u hu
    rcases mem_cons.mp hu with rfl | hu
    · exact (congrArg (·.1) hcore).trans hstate
    · exact h.ready u hu
  · intro u hu
    rcases mem_cons.mp hu with rfl | hu
    · omega
    · have habove := h.above u hu
      omega
  · intro u hu
    rcases mem_cons.mp hu with rfl | hu
    · omega
    · exact h.below u hu
  · apply List.pairwise_cons.mpr
    refine ⟨fun u hu => ?_, h.order⟩
    have habove := h.above u hu
    omega
  · rw [List.length_cons]
    omega
  · intro u
    rw [h.prio]
    by_cases hu : u = t
    · rw [hu, hprio]
    · exact congrArg (·.2.1) (hne u hu)
  · intro u hu
    rw [mem_cons, not_or] at hu
    exact (h.others u hu.2).trans (hne u hu.1)

/-- A step in front that `pick_next` does not see. -/
lemma Stamps.skip (hcore : ∀ u, core (m₁.task u) = core (m.task u)) (hseq : m₁.rqSeq = m.rqSeq)
    (h : Stamps m₁ L m') : Stamps m L m' where
  ready := h.ready
  above t ht := hseq ▸ h.above t ht
  below := h.below
  order := h.order
  seq := hseq ▸ h.seq
  prio u := (h.prio u).trans (congrArg (·.2.1) (hcore u))
  others u hu := (h.others u hu).trans (hcore u)

/-- A step behind that `pick_next` does not see. -/
lemma Stamps.trans (h : Stamps m L m₁) (hcore : ∀ u, core (m'.task u) = core (m₁.task u))
    (hseq : m'.rqSeq = m₁.rqSeq) : Stamps m L m' := by
  have hkey : ∀ u, (m'.task u).rqKey = (m₁.task u).rqKey := fun u => congrArg (·.2.2) (hcore u)
  constructor
  · exact fun t ht => (congrArg (·.1) (hcore t)).trans (h.ready t ht)
  · intro t ht
    rw [hkey]
    exact h.above t ht
  · intro t ht
    rw [hkey, hseq]
    exact h.below t ht
  · apply h.order.imp
    intro t u hlt
    rwa [hkey, hkey]
  · rw [hseq, h.seq]
  · exact fun u => (congrArg (·.2.1) (hcore u)).trans (h.prio u)
  · exact fun u hu => (hcore u).trans (h.others u hu)

lemma nextKey_eq (h : m.rqSeq + 1 < 2 ^ 64) : m.nextKey = m.rqSeq + 1 := Nat.mod_eq_of_lt h

/-- A task is put into the run queue, and then the others. -/
lemma Stamps.requeue (hroom : m.rqSeq + 1 < 2 ^ 64) (ht : t ∉ L)
    (h : Stamps (m.requeue t) L m') : Stamps m (t :: L) m' := by
  have hkey := nextKey_eq hroom
  refine Stamps.cons ?_ ?_ ?_ hkey ?_ ht h
  · rw [requeue_self]
  · rw [requeue_self]
    exact hkey
  · rw [requeue_self]
  · exact fun u hu => congrArg core (requeue_ne hu)

lemma requeue_stamps (t : Slot) (hroom : m.rqSeq + 1 < 2 ^ 64) : Stamps m [t] (m.requeue t) :=
  Stamps.requeue hroom List.not_mem_nil (.nil (fun _ => rfl) rfl)

/-! ## The loops -/

lemma foldl_tickStep_stamps {l : List Slot} (hl : l.Nodup)
    (hroom : m.rqSeq + (m.expiring l).length < 2 ^ 64) :
    Stamps m (m.expiring l) (l.foldl tickStep m) := by
  induction l generalizing m with
  | nil => exact .nil (fun _ => rfl) rfl
  | cons t l ih =>
    obtain ⟨ht, hl⟩ := List.nodup_cons.mp hl
    rw [List.foldl_cons]
    by_cases hcond : (m.task t).state = .sleeping ∧ m.expired (m.task t) = true
    · have hlist : m.expiring (t :: l) = t :: m.expiring l := List.filter_cons_of_pos (by simpa)
      rw [hlist, List.length_cons] at hroom
      have hstep : m.tickStep t = m.requeue t := if_pos hcond
      have hrest : (m.requeue t).expiring l = m.expiring l := by
        apply List.filter_congr
        intro u hu
        have hut : u ≠ t := fun heq => ht (heq ▸ hu)
        rw [requeue_ne hut]
        rfl
      have hseq : (m.requeue t).rqSeq = m.rqSeq + 1 := nextKey_eq (by omega)
      have hih := @ih (m.requeue t) hl (by rw [hrest, hseq]; omega)
      rw [hrest] at hih
      rw [hlist, hstep]
      apply Stamps.requeue (by omega) ?_ hih
      exact fun hmem => ht (List.mem_of_mem_filter hmem)
    · have hsame : m.tickStep t = m := by rw [tickStep, if_neg hcond]
      have hlist : m.expiring (t :: l) = m.expiring l :=
        List.filter_cons_of_neg (by simpa using hcond)
      rw [hlist] at hroom ⊢
      rw [hsame]
      exact ih hl hroom

/-- The loop of the wakers, for the tasks `l` that it goes through. -/
lemma wakeLoop_stamps (checkDead : Bool) (cur : Option Slot) (q : QueueId) (fuel : ℕ)
    (preempt : Bool) {l : List Slot} (hl : sweep fuel (fun t => (m.task t).wqNext) (m.head q) = l)
    (hnodup : (m.waking checkDead l).Nodup)
    (hroom : m.rqSeq + (m.waking checkDead l).length < 2 ^ 64) :
    Stamps m (m.waking checkDead l) (wakeLoop checkDead cur q fuel m preempt).1 := by
  induction fuel generalizing m preempt l with
  | zero =>
    rw [← hl]
    exact .nil (fun _ => rfl) rfl
  | succ fuel ih =>
    cases hhead : m.head q with
    | none =>
      rw [← hl, hhead, wakeLoop, hhead]
      exact .nil (fun _ => rfl) rfl
    | some t =>
      obtain ⟨preempt', hround⟩ := @wakeLoop_succ m t q checkDead cur fuel preempt hhead
      have hcore : ∀ u, core ((m.unlink t q).task u) = core (m.task u) := by
        intro u
        by_cases hu : u = t
        · rw [hu, unlink_self]
          rfl
        · rw [unlink_ne hu]
      rw [hhead, sweep] at hl
      subst hl
      generalize hrest : sweep fuel (Function.update (fun u => (m.task u).wqNext) t none)
        (m.task t).wqNext = rest at hnodup hroom ⊢
      rw [hround]
      by_cases hdead : checkDead = true ∧ (m.task t).state = .dead
      · have hlist : m.waking checkDead (t :: rest) = (m.unlink t q).waking checkDead rest := by
          unfold waking
          rw [List.filter_cons_of_neg (by simpa using hdead)]
          apply List.filter_congr
          intro u _
          rw [show ((m.unlink t q).task u).state = (m.task u).state from congrArg (·.1) (hcore u)]
        rw [if_pos hdead, hlist]
        rw [hlist] at hnodup hroom
        refine Stamps.skip hcore rfl (ih preempt' ?_ hnodup hroom)
        rw [unlink_links, unlink_head]
        exact hrest
      · have hfront : m.waking checkDead (t :: rest) = t :: m.waking checkDead rest := by
          exact List.filter_cons_of_pos (decide_eq_true hdead)
        rw [hfront] at hnodup hroom ⊢
        obtain ⟨ht, hnodup⟩ := List.nodup_cons.mp hnodup
        rw [List.length_cons] at hroom
        have hkept : t ∉ rest := by
          intro hmem
          exact ht (List.mem_filter.mpr ⟨hmem, decide_eq_true hdead⟩)
        have hlist :
            ((m.unlink t q).requeue t).waking checkDead rest = m.waking checkDead rest := by
          apply List.filter_congr
          intro u hu
          have hut : u ≠ t := fun heq => hkept (heq ▸ hu)
          rw [requeue_ne hut, unlink_ne hut]
        have hseq : ((m.unlink t q).requeue t).rqSeq = m.rqSeq + 1 :=
          @nextKey_eq (m.unlink t q) (by show m.rqSeq + 1 < 2 ^ 64; omega)
        have hih := @ih ((m.unlink t q).requeue t) preempt' rest
          (by rw [requeue_links, unlink_links, requeue_head, unlink_head]; exact hrest)
          (by rw [hlist]; exact hnodup) (by rw [hlist, hseq]; omega)
        rw [hlist] at hih
        rw [if_neg hdead]
        refine Stamps.skip hcore rfl (Stamps.requeue ?_ ht hih)
        show m.rqSeq + 1 < 2 ^ 64
        omega

/-! ## The sections -/

/-- The tasks `L` have become ready in order, the other ready tasks were ready with the same keys
before, and only the tasks in `C` are new. -/
structure Readies (m : Machine) (L : List Slot) (C : Slot → Prop) (m' : Machine) : Prop where
  ready : ∀ t ∈ L, (m'.task t).state = .ready
  above : ∀ t ∈ L, m.rqSeq < (m'.task t).rqKey
  below : ∀ t ∈ L, (m'.task t).rqKey ≤ m'.rqSeq
  order : L.Pairwise fun t u => (m'.task t).rqKey < (m'.task u).rqKey
  seq : m.rqSeq ≤ m'.rqSeq
  prio : ∀ u, ¬ C u → (m'.task u).prio = (m.task u).prio
  others : ∀ u ∉ L, (m'.task u).state = .ready → core (m'.task u) = core (m.task u)

lemma Stamps.readies (h : Stamps m L m') : Readies m L C m' where
  ready := h.ready
  above := h.above
  below := h.below
  order := h.order
  seq := by
    have hseq := h.seq
    omega
  prio u _ := h.prio u
  others u hu _ := h.others u hu

lemma readies_nil (hseq : m.rqSeq ≤ m'.rqSeq)
    (hprio : ∀ u, ¬ C u → (m'.task u).prio = (m.task u).prio)
    (h : ∀ u, (m'.task u).state = .ready → core (m'.task u) = core (m.task u)) :
    Readies m [] C m' where
  ready := nofun
  above := nofun
  below := nofun
  order := List.Pairwise.nil
  seq := hseq
  prio := hprio
  others u _ := h u

/-- A section that `pick_next` does not see. -/
lemma readies_same (hseq : m'.rqSeq = m.rqSeq) (hcore : ∀ u, core (m'.task u) = core (m.task u)) :
    Readies m [] C m' :=
  readies_nil (Nat.le_of_eq hseq.symm) (fun u _ => congrArg (·.2.1) (hcore u)) fun u _ => hcore u

/-- A section that changes one task, which is not ready afterwards or was so with its key. -/
lemma readies_of_one (hseq : m.rqSeq ≤ m'.rqSeq)
    (hne : ∀ u, u ≠ t → core (m'.task u) = core (m.task u))
    (hprio : ¬ C t → (m'.task t).prio = (m.task t).prio)
    (hself : (m'.task t).state = .ready → core (m'.task t) = core (m.task t)) :
    Readies m [] C m' := by
  apply readies_nil hseq
  · intro u hu
    by_cases hut : u = t
    · rw [hut] at hu ⊢
      exact hprio hu
    · exact congrArg (·.2.1) (hne u hut)
  · intro u hu
    by_cases hut : u = t
    · rw [hut] at hu ⊢
      exact hself hu
    · exact hne u hut

lemma schedPark_core (c : ℕ) (t u : Slot) : core ((m.schedPark c t).task u) = core (m.task u) := by
  by_cases hu : u = t
  · rw [hu, schedPark_self]
    rfl
  · rw [schedPark_ne hu]

variable {f : Task → Task}

/-- A change of one task that `pick_next` does not see. -/
lemma modifyTask_core (hf : ∀ x, core (f x) = core x) (u : Slot) :
    core ((m.modifyTask t f).task u) = core (m.task u) := by
  by_cases hu : u = t
  · rw [hu, modifyTask_self, hf]
  · rw [modifyTask_ne _ hu]

lemma tickQuantum_core (c : ℕ) (u : Slot) : core ((m.tickQuantum c).task u) = core (m.task u) := by
  unfold tickQuantum
  split
  · rfl
  · split
    · dsimp only
      split
      · rw [modifyCpu_task]
        apply modifyTask_core
        exact fun _ => rfl
      · apply modifyTask_core
        exact fun _ => rfl
    · rfl

lemma tickQuantum_rqSeq (c : ℕ) : (m.tickQuantum c).rqSeq = m.rqSeq := by
  unfold tickQuantum
  split
  · rfl
  · split
    · dsimp only
      split <;> rfl
    · rfl

/-- The task on the cpu goes from its state to one that is not ready, or stays. -/
lemma readies_park {m₁ : Machine} (c : ℕ) (hseq : m₁.rqSeq = m.rqSeq)
    (hne : ∀ u, u ≠ t → core (m₁.task u) = core (m.task u))
    (hprio : (m₁.task t).prio = (m.task t).prio)
    (hself : (m₁.task t).state = .ready → core (m₁.task t) = core (m.task t)) :
    Readies m [] C (m₁.schedPark c t) := by
  refine readies_of_one (t := t) (Nat.le_of_eq hseq.symm) ?_ ?_ ?_
  · exact fun u hu => (schedPark_core c t u).trans (hne u hu)
  · exact fun _ => (congrArg (·.2.1) (schedPark_core c t t)).trans hprio
  · rw [schedPark_core, schedPark_state]
    exact hself

lemma readies_dispatch (c : ℕ) : Readies m [] C (m.schedRun c) := by
  unfold schedRun
  split
  · next t _ =>
    refine readies_of_one (t := t) (Nat.le_refl _) ?_ ?_ ?_
    · intro u hu
      rw [modifyCpu_task, modifyTask_ne _ hu]
    · rw [modifyCpu_task, modifyTask_self]
      exact fun _ => rfl
    · rw [modifyCpu_task, modifyTask_self]
      exact nofun
  · exact readies_same rfl fun _ => rfl

lemma readies_tick (c : ℕ)
    (hroom : m.rqSeq + (m.expiring (List.finRange MAX_TASKS)).length < 2 ^ 64) :
    Readies m (m.expiring (List.finRange MAX_TASKS)) C (m.schedTick c) := by
  have hloop := foldl_tickStep_stamps (List.nodup_finRange MAX_TASKS) hroom
  exact (hloop.trans (fun u => tickQuantum_core c u) (tickQuantum_rqSeq c)).readies

lemma readies_wake (w : Waker) (c n : ℕ)
    (hnodup : (m.waking w.checksDead (m.onQueue (w.queue n))).Nodup)
    (hroom : m.rqSeq + (m.waking w.checksDead (m.onQueue (w.queue n))).length < 2 ^ 64) :
    Readies m (m.waking w.checksDead (m.onQueue (w.queue n))) C (m.wake w c (w.queue n)) := by
  have hloop := wakeLoop_stamps w.checksDead (m.cpu c).current (w.queue n) (MAX_TASKS + 1) false rfl
    hnodup hroom
  refine (hloop.trans (fun u => ?_) ?_).readies
  · unfold wake
    dsimp only
    split <;> rfl
  · unfold wake
    dsimp only
    split <;> rfl

/-- A task goes back into the run queue and off its cpu. -/
lemma readies_requeue (c : ℕ) (t : Slot) (hroom : m.rqSeq + 1 < 2 ^ 64) :
    Readies m [t] C ((m.requeue t).schedPark c t) :=
  ((requeue_stamps t hroom).trans (fun u => schedPark_core c t u) rfl).readies

lemma readies_postIrq (c : ℕ) (hroom : m.rqSeq + (m.putBack c).length < 2 ^ 64) :
    Readies m (m.putBack c) C (m.schedPostIrq c) := by
  unfold putBack at hroom ⊢
  unfold schedPostIrq
  cases hcur : (m.cpu c).current with
  | none => exact readies_same rfl fun _ => rfl
  | some t =>
    rw [hcur] at hroom
    dsimp only at hroom ⊢
    cases hflag : (m.cpu c).needResched with
    | false =>
      rw [if_neg (fun h => nomatch h.1), if_pos rfl]
      exact readies_same rfl fun _ => rfl
    | true =>
      rw [hflag] at hroom
      have hset : ¬ true = false := nofun
      by_cases hrun : (m.task t).state = .running
      · rw [if_pos ⟨rfl, hrun⟩] at hroom ⊢
        rw [if_neg hset, modifyCpu_task, if_pos hrun]
        have hback := @readies_requeue (m.modifyCpu c fun p => { p with needResched := false })
          C c t hroom
        exact ⟨hback.ready, hback.above, hback.below, hback.order, hback.seq, hback.prio,
          hback.others⟩
      · rw [if_neg fun h => hrun h.2, if_neg hset, modifyCpu_task, if_neg hrun]
        exact readies_park c rfl (fun _ _ => rfl) rfl fun _ => rfl

lemma readies_modify (hprio : (f (m.task t)).prio = (m.task t).prio)
    (hself : (f (m.task t)).state = .ready → core (f (m.task t)) = core (m.task t)) :
    Readies m [] C (m.modifyTask t f) := by
  refine readies_of_one (t := t) (Nat.le_refl _) ?_ ?_ ?_
  · intro u hu
    rw [modifyTask_ne _ hu]
  · rw [modifyTask_self]
    exact fun _ => hprio
  · rwa [modifyTask_self]

lemma readies_park_modify (c : ℕ) (hprio : (f (m.task t)).prio = (m.task t).prio)
    (hself : (f (m.task t)).state = .ready → core (f (m.task t)) = core (m.task t)) :
    Readies m [] C ((m.modifyTask t f).schedPark c t) := by
  refine readies_park c rfl ?_ ?_ ?_
  · intro u hu
    rw [modifyTask_ne _ hu]
  · rw [modifyTask_self, hprio]
  · rwa [modifyTask_self]

lemma link_core_ne (q : QueueId) (state : TaskState) (hu : u ≠ t) :
    core ((m.link t q state).task u) = core (m.task u) := by rw [link_ne _ hu]

/-- The task on a cpu goes on a queue, with changes that `pick_next` does not see, and parks. -/
lemma readies_park_link (c : ℕ) (q : QueueId) {state : TaskState} (hstate : state ≠ .ready)
    (hm₁ : ∀ u, core (m₁.task u) = core ((m.link t q state).task u)) (hseq : m₁.rqSeq = m.rqSeq) :
    Readies m [] C (m₁.schedPark c t) := by
  refine readies_park c hseq ?_ ?_ ?_
  · exact fun u hu => (hm₁ u).trans (link_core_ne q state hu)
  · rw [show (m₁.task t).prio = ((m.link t q state).task t).prio from congrArg (·.2.1) (hm₁ t),
      link_self]
  · intro hready
    have hsame : (m₁.task t).state = state := by
      rw [show (m₁.task t).state = ((m.link t q state).task t).state from congrArg (·.1) (hm₁ t),
        link_self]
    exact absurd (hsame.symm.trans hready) hstate

lemma readies_linkUnlocked (t : Slot) (q : Option ℕ) : Readies m [] C (m.linkUnlocked t q) := by
  unfold linkUnlocked
  split
  · next n =>
    refine readies_of_one (t := t) (Nat.le_refl _) ?_ ?_ ?_
    · intro u hu
      rw [modifyTask_ne _ hu, link_ne _ hu]
    · rw [modifyTask_self, link_self]
      exact fun _ => rfl
    · rw [modifyTask_self, link_self]
      exact nofun
  · apply readies_modify rfl
    exact nofun

lemma taskPrime_ne {prio : ℕ} (hu : u ≠ t) : (m.taskPrime t prio).task u = m.task u :=
  Function.update_of_ne hu _ _

lemma readies_taskPrime (t : Slot) (prio : ℕ) (hC : C t) (hroom : m.rqSeq + 1 < 2 ^ 64) :
    Readies m [t] C (m.taskPrime t prio) := by
  have hself : (m.taskPrime t prio).task t = { m.task t with
      state := .ready, prio := prio, rqKey := m.nextKey, quantumLeft := 0, wakeAt := 0,
      wqNext := none } := Function.update_self _ _ _
  have hkey : ((m.taskPrime t prio).task t).rqKey = m.rqSeq + 1 := by
    rw [hself]
    exact nextKey_eq hroom
  have hseq : (m.taskPrime t prio).rqSeq = m.rqSeq + 1 := nextKey_eq hroom
  constructor
  · intro u hu
    rw [mem_singleton.mp hu, hself]
  · intro u hu
    rw [mem_singleton.mp hu, hkey]
    omega
  · intro u hu
    rw [mem_singleton.mp hu, hkey, hseq]
  · exact List.pairwise_singleton _ _
  · omega
  · intro u hu
    have hne : u ≠ t := fun heq => hu (heq ▸ hC)
    rw [taskPrime_ne hne]
  · intro u hu _
    rw [taskPrime_ne fun heq => hu (mem_singleton.mpr heq)]

lemma readies_markDead (p : ProcId) (leader : Option Slot) :
    Readies m [] C (m.markDead p leader) := by
  refine readies_nil (Nat.le_refl _) (fun u _ => ?_) fun u hu => ?_
  · unfold markDead
    dsimp only
    split <;> rfl
  · unfold markDead at hu ⊢
    dsimp only at hu ⊢
    split at hu
    · exact nomatch hu
    · next hlive => rw [if_neg hlive]

lemma readies_createDeferred (t : Slot) (prio : ℕ) (hC : C t) (hroom : m.rqSeq + 1 < 2 ^ 64) :
    Readies m [] C (m.taskCreateDeferred t prio) := by
  have hseq : (m.taskCreateDeferred t prio).rqSeq = m.rqSeq + 1 := nextKey_eq hroom
  refine readies_of_one (t := t) (by omega) ?_ (fun hnot => absurd hC hnot) ?_
  · intro u hu
    unfold taskCreateDeferred
    rw [modifyTask_ne _ hu, taskPrime_ne hu]
  · unfold taskCreateDeferred
    rw [modifyTask_self]
    exact nofun

lemma readies_launch (t : Slot) (hroom : m.rqSeq + 1 < 2 ^ 64) :
    Readies m [t] C (m.taskLaunch t) := by
  refine ((requeue_stamps t hroom).trans (fun u => ?_) ?_).readies
  · apply modifyTask_core
    exact fun _ => rfl
  · rfl

lemma readies_reapSlot (t : Slot) : Readies m [] C (m.reapSlot t) := by
  unfold reapSlot
  split
  · apply readies_modify rfl
    exact nofun
  · exact readies_same rfl fun _ => rfl

/-- What the sections of the scheduler do to the run queue. -/
lemma readies_act (a : Act) (hnodup : (m.readies (.life (.sched a))).Nodup)
    (hroom : m.rqSeq + (m.readies (.life (.sched a))).length < 2 ^ 64) :
    Readies m (m.readies (.life (.sched a))) (fun u => LifeAct.creates u (.sched a)) (m.act a) := by
  cases a with
  | clock => exact readies_same rfl fun _ => rfl
  | dispatch c => exact readies_dispatch c
  | tick c => exact readies_tick c hroom
  | postIrq c => exact readies_postIrq c hroom
  | yield c t => exact readies_requeue c t hroom
  | exit c t =>
    apply readies_park_modify c rfl
    exact nofun
  | sleepArm c t msecs =>
    show Readies m [] _ (m.sleepArm t msecs)
    unfold sleepArm
    apply readies_modify rfl
    exact fun _ => rfl
  | sleepPark c t =>
    apply readies_park_modify c rfl
    exact nofun
  | park c t n =>
    exact readies_park_link c (.other n) (nofun : TaskState.blocked ≠ .ready) (fun _ => rfl) rfl
  | pollPark c t timeoutMs =>
    refine readies_park_link c .poll (nofun : TaskState.sleeping ≠ .ready) (fun u => ?_) rfl
    apply modifyTask_core
    exact fun _ => rfl
  | linkUnlocked c t q => exact readies_linkUnlocked t q
  | barePark c t =>
    apply readies_park_modify c rfl
    exact fun _ => rfl
  | wake w c n => exact readies_wake w c n hnodup hroom
  | create t prio => exact readies_taskPrime t prio rfl hroom

/-- What every section does to the run queue. -/
lemma readies_move (a : Move) (hnodup : (m.readies a).Nodup)
    (hroom : m.rqSeq + m.draws a < 2 ^ 64) :
    Readies m (m.readies a) (fun u => a.creates u) (m.move a) := by
  cases a with
  | handBack t =>
    unfold readies move
    apply readies_modify rfl
    exact nofun
  | life a =>
    cases a with
    | sched a => exact readies_act a hnodup (by cases a <;> exact hroom)
    | createDeferred t prio => exact readies_createDeferred t prio rfl hroom
    | attach t p kstack =>
      show Readies m [] _ (m.attach t p kstack)
      apply readies_modify rfl
      exact fun _ => rfl
    | launch t => exact readies_launch t hroom
    | kill p leader => exact readies_markDead p leader
    | reclaim t =>
      show Readies m [] _ (m.reclaim t)
      apply readies_modify rfl
      exact nofun
    | reapSlot t => exact readies_reapSlot t

/-! ## The choice -/

lemma better_iff {a b : Task} :
    better a b = true ↔ a.prio < b.prio ∨ a.prio = b.prio ∧ a.rqKey < b.rqKey := by
  unfold better
  split
  · next hne =>
    rw [decide_eq_true_iff]
    omega
  · next heq =>
    rw [decide_eq_true_iff]
    omega

lemma not_better_trans {a b c : Task} (hab : ¬ better a b = true) (hbc : ¬ better b c = true) :
    ¬ better a c = true := by
  rw [better_iff] at *
  omega

/-- The best of the ready tasks among `l`. -/
structure Best (m : Machine) (l : List Slot) (best : Option Slot) : Prop where
  present : ∀ u ∈ l, (m.task u).state = .ready → best ≠ none
  ready : ∀ b, best = some b → (m.task b).state = .ready
  least : ∀ b, best = some b → ∀ u ∈ l, (m.task u).state = .ready →
    ¬ better (m.task u) (m.task b) = true

/-- A later task takes the lead only with a better key. -/
lemma Best.step {l : List Slot} {best : Option Slot} (h : Best m l best) (t : Slot) :
    Best m (l ++ [t]) (m.pickStep best t) := by
  have hready := pickStep_ready h.ready t
  unfold pickStep at hready ⊢
  by_cases ht : (m.task t).state = .ready
  · rw [if_neg (not_not_intro ht)] at hready ⊢
    cases best with
    | none =>
      refine ⟨fun _ _ _ => nofun, hready, fun b hb u hu hur => ?_⟩
      rcases mem_append.mp hu with hu | hu
      · exact absurd rfl (h.present u hu hur)
      · rw [← Option.some.inj hb, mem_singleton.mp hu, better_iff]
        omega
    | some b =>
      dsimp only at hready ⊢
      by_cases hbetter : better (m.task t) (m.task b) = true
      · rw [if_pos hbetter] at hready ⊢
        refine ⟨fun _ _ _ => nofun, hready, fun b' hb' u hu hur => ?_⟩
        rw [← Option.some.inj hb']
        rcases mem_append.mp hu with hu | hu
        · refine not_better_trans (h.least b rfl u hu hur) ?_
          rw [better_iff] at hbetter ⊢
          omega
        · rw [mem_singleton.mp hu, better_iff]
          omega
      · rw [if_neg hbetter] at hready ⊢
        refine ⟨fun _ _ _ => nofun, hready, fun b' hb' u hu hur => ?_⟩
        rw [← Option.some.inj hb']
        rcases mem_append.mp hu with hu | hu
        · exact h.least b rfl u hu hur
        · rwa [mem_singleton.mp hu]
  · rw [if_pos ht] at hready ⊢
    refine ⟨fun u hu hur => ?_, hready, fun b hb u hu hur => ?_⟩
    · rcases mem_append.mp hu with hu | hu
      · exact h.present u hu hur
      · exact absurd (mem_singleton.mp hu ▸ hur) ht
    · rcases mem_append.mp hu with hu | hu
      · exact h.least b hb u hu hur
      · exact absurd (mem_singleton.mp hu ▸ hur) ht

/-- `pick_next` finds the best of the ready tasks. -/
lemma pickNext_best (m : Machine) : Best m (List.finRange MAX_TASKS) m.pickNext := by
  have hfold : ∀ (l seen : List Slot) (best : Option Slot), Best m seen best →
      Best m (seen ++ l) (l.foldl m.pickStep best) := by
    intro l
    induction l with
    | nil =>
      intro seen best h
      rwa [List.append_nil]
    | cons t l ih =>
      intro seen best h
      rw [← List.singleton_append, ← List.append_assoc]
      exact ih _ _ (h.step t)
  exact hfold _ [] none ⟨nofun, nofun, nofun⟩

end Machine

namespace Tracked

open Machine

variable {s s' : Tracked} {t u : Slot} {a : Move}

/-! ## The order of the keys -/

/-- The queue holds the ready tasks, in the order of their keys. -/
structure Ordered (s : Tracked) : Prop where
  ready : ∀ t, t ∈ s.fifo ↔ s.Ready t
  keys : ∀ t, s.Ready t → (s.m.task t).rqKey ≤ s.m.rqSeq
  order : s.fifo.Pairwise fun t u => (s.m.task t).rqKey < (s.m.task u).rqKey

/-- Tasks that are not there yet come behind in order. -/
lemma foldl_arrive {L fifo : List Slot} (hnodup : L.Nodup) (hnew : ∀ t ∈ L, t ∉ fifo) :
    L.foldl arrive fifo = fifo ++ L := by
  induction L generalizing fifo with
  | nil => rw [List.foldl_nil, List.append_nil]
  | cons t L ih =>
    obtain ⟨ht, hnodup⟩ := List.nodup_cons.mp hnodup
    have harrive : arrive fifo t = fifo ++ [t] := if_neg (hnew t List.mem_cons_self)
    rw [List.foldl_cons, harrive, ih hnodup, List.append_assoc, List.singleton_append]
    intro u hu hmem
    rcases mem_append.mp hmem with hmem | hmem
    · exact hnew u (List.mem_cons_of_mem _ hu) hmem
    · exact ht (mem_singleton.mp hmem ▸ hu)

/-- The tasks that a section makes ready were not in the queue. -/
lemma next_fifo (h : s.Ordered) (hfresh : s.Fresh a) :
    (s.next a).fifo
      = s.fifo.filter (fun t => ((s.m.move a).task t).state = .ready) ++ s.m.readies a := by
  apply foldl_arrive hfresh.nodup
  intro t ht hmem
  exact hfresh.waiting t ht ((h.ready t).mp (List.mem_of_mem_filter hmem))

lemma ordered_next (h : s.Ordered) (hfresh : s.Fresh a) : (s.next a).Ordered := by
  have hm := readies_move a hfresh.nodup hfresh.keys
  have hfifo := next_fifo h hfresh
  have hold : ∀ t, t ∉ s.m.readies a → (s.next a).Ready t →
      s.Ready t ∧ ((s.next a).m.task t).rqKey = (s.m.task t).rqKey := by
    intro t ht hr
    have hcore := hm.others t ht hr
    have hstate : ((s.next a).m.task t).state = (s.m.task t).state := congrArg Prod.fst hcore
    exact ⟨hstate.symm.trans hr, congrArg (·.2.2) hcore⟩
  -- who stays in the queue keeps the key
  have hstay : ∀ t ∈ s.fifo.filter (fun t => ((s.m.move a).task t).state = .ready),
      s.Ready t ∧ ((s.next a).m.task t).rqKey = (s.m.task t).rqKey := by
    intro t ht
    obtain ⟨hmem, hr⟩ := List.mem_filter.mp ht
    apply hold t ?_ (of_decide_eq_true hr)
    exact fun hready => hfresh.waiting t hready ((h.ready t).mp hmem)
  constructor
  · intro t
    rw [hfifo, mem_append, List.mem_filter, decide_eq_true_iff]
    constructor
    · rintro (⟨-, hr⟩ | ht)
      · exact hr
      · exact hm.ready t ht
    · intro hr
      by_cases ht : t ∈ s.m.readies a
      · exact .inr ht
      · exact .inl ⟨(h.ready t).mpr (hold t ht hr).1, hr⟩
  · intro t hr
    by_cases ht : t ∈ s.m.readies a
    · exact hm.below t ht
    · obtain ⟨hready, hkey⟩ := hold t ht hr
      rw [hkey]
      exact (h.keys t hready).trans hm.seq
  · rw [hfifo]
    apply List.pairwise_append.mpr
    refine ⟨?_, hm.order, fun t ht u hu => ?_⟩
    · refine (h.order.filter _).imp_of_mem fun ht hu hlt => ?_
      rwa [(hstay _ ht).2, (hstay _ hu).2]
    · rw [(hstay t ht).2]
      exact Nat.lt_of_le_of_lt (h.keys t (hstay t ht).1) (hm.above u hu)

/-- Nothing is in the queue at the start. -/
lemma ordered_init {m₀ : Machine} (h₀ : ∀ t, (m₀.task t).state = .unused) :
    Ordered ⟨m₀, [], []⟩ := by
  have hidle : ∀ t, ¬ Ready ⟨m₀, [], []⟩ t := fun t hr => nomatch (h₀ t).symm.trans hr
  exact ⟨fun t => ⟨nofun, fun hr => absurd hr (hidle t)⟩, fun t hr => absurd hr (hidle t), .nil⟩

/-! ## The laws -/

/-- The queue is in the order of the keys, so a smaller key is in front. -/
lemma idxOf_lt (h : s.Ordered) (ht : s.Ready t) (hu : s.Ready u)
    (hlt : (s.m.task t).rqKey < (s.m.task u).rqKey) : s.fifo.idxOf t < s.fifo.idxOf u := by
  have hit := List.idxOf_lt_length_of_mem ((h.ready t).mpr ht)
  have hiu := List.idxOf_lt_length_of_mem ((h.ready u).mpr hu)
  have hget : ∀ v, (hv : s.fifo.idxOf v < s.fifo.length) → s.fifo[s.fifo.idxOf v] = v :=
    fun v hv => List.getElem_idxOf hv
  by_contra hge
  rcases Nat.lt_or_eq_of_le (Nat.not_lt.mp hge) with hless | heq
  · have hkeys := List.pairwise_iff_getElem.mp h.order _ _ hiu hit hless
    rw [hget u hiu, hget t hit] at hkeys
    omega
  · have hsame : t = u := by
      rw [← hget t hit, ← hget u hiu]
      simp only [heq]
    rw [hsame] at hlt
    exact Nat.lt_irrefl _ hlt

/-- Two ready tasks have different keys. -/
lemma key_ne (h : s.Ordered) (ht : s.Ready t) (hu : s.Ready u) (hne : t ≠ u) :
    (s.m.task t).rqKey ≠ (s.m.task u).rqKey := by
  have hsymm : Std.Symm fun t u => (s.m.task t).rqKey ≠ (s.m.task u).rqKey :=
    ⟨fun _ _ hne => Ne.symm hne⟩
  have hkeys : s.fifo.Pairwise fun t u => (s.m.task t).rqKey ≠ (s.m.task u).rqKey :=
    h.order.imp Nat.ne_of_lt
  exact hkeys.forall ((h.ready t).mpr ht) ((h.ready u).mpr hu) hne

lemma pickLaw_of_ordered (h : s.Ordered) : s.PickLaw := by
  have hbest := pickNext_best s.m
  constructor
  · exact fun t hr => hbest.present t (mem_finRange t) hr
  · exact hbest.ready
  · intro t u ht hu
    have hnot := hbest.least t ht u (mem_finRange u) hu
    rw [better_iff] at hnot
    omega
  · intro t u ht hu hprio hne
    have hr := hbest.ready t ht
    have hnot := hbest.least t ht u (mem_finRange u) hu
    rw [better_iff] at hnot
    have hkey := key_ne h hr hu (Ne.symm hne)
    exact idxOf_lt h hr hu (by omega)

/-! ## Round robin -/

/-- Between the requeue of `t` and its dispatch: `u` waits in front of `t`, or has been dispatched
and comes behind it. -/
structure Between (p : ℕ) (t u : Slot) (s : Tracked) : Prop where
  ordered : s.Ordered
  last : s.Ready t
  lastPrio : (s.m.task t).prio = p
  prio : (s.m.task u).prio = p
  turn : u ∉ s.log ∧ s.Ready u ∧ (s.m.task u).rqKey < (s.m.task t).rqKey ∨
    s.log.count u = 1 ∧ (s.Ready u → (s.m.task t).rqKey < (s.m.task u).rqKey)

/-- A ready task that is ready after a section has kept its priority and its key. -/
lemma core_next (hfresh : s.Fresh a) (ht : s.Ready t) (ht' : (s.next a).Ready t) :
    core ((s.next a).m.task t) = core (s.m.task t) := by
  have hm := readies_move a hfresh.nodup hfresh.keys
  exact hm.others t (fun hmem => hfresh.waiting t hmem ht) ht'

lemma dispatch_of_picks (h : s.m.picks a = some t) :
    ∃ c, a = .life (.sched (.dispatch c)) ∧ s.m.pickNext = some t := by
  unfold picks at h
  split at h
  · next c => exact ⟨c, rfl, h⟩
  · exact nomatch h

/-- The task that a section picks is the best of the ready ones. -/
lemma picked_best (h : s.m.picks a = some t) :
    s.Ready t ∧ ∀ u, s.Ready u → ¬ better (s.m.task u) (s.m.task t) = true := by
  obtain ⟨c, -, hpick⟩ := dispatch_of_picks h
  have hbest := pickNext_best s.m
  exact ⟨hbest.ready t hpick, fun u hu => hbest.least t hpick u (mem_finRange u) hu⟩

/-- A task that has been picked is not ready. -/
lemma not_ready_of_picks (h : s.m.picks a = some t) : ¬ (s.next a).Ready t := by
  obtain ⟨c, rfl, hpick⟩ := dispatch_of_picks h
  have hrun : (((s.m.schedRun c).task t).state) = .running := by
    unfold schedRun
    rw [hpick]
    rw [modifyCpu_task, modifyTask_self]
  exact fun hr => nomatch hrun.symm.trans hr

lemma Between.next {p : ℕ} (h : Between p t u s) (hfresh : s.Fresh a) (hwaits : s.Waits t u a)
    (ht : t ∉ (s.next a).log) : Between p t u (s.next a) := by
  have hm := readies_move a hfresh.nodup hfresh.keys
  have hlog : (s.next a).log = s.log ++ (s.m.picks a).toList := rfl
  rw [hlog, mem_append, Option.mem_toList] at ht
  obtain ⟨-, hpickt⟩ := not_or.mp ht
  have hlast : (s.next a).Ready t := hwaits.last.resolve_left hpickt
  have hcoret := core_next hfresh h.last hlast
  have hkeyt : ((s.next a).m.task t).rqKey = (s.m.task t).rqKey := congrArg (·.2.2) hcoret
  have hpriou : ((s.next a).m.task u).prio = (s.m.task u).prio := hm.prio u hwaits.same
  refine ⟨ordered_next h.ordered hfresh, hlast, (congrArg (·.2.1) hcoret).trans h.lastPrio,
    hpriou.trans h.prio, ?_⟩
  rw [hlog]
  obtain ⟨hnot, hready, hkey⟩ | ⟨hcount, hbehind⟩ := h.turn
  · by_cases hpick : s.m.picks a = some u
    -- its turn
    · refine .inr ⟨?_, fun hr => absurd hr (not_ready_of_picks hpick)⟩
      rw [hpick, List.count_append, List.count_eq_zero.mpr hnot, Option.toList_some,
        List.count_singleton_self]
    · have hready' : (s.next a).Ready u :=
        (hwaits.other.resolve_left hnot).resolve_left hpick
      refine .inl ⟨?_, hready', ?_⟩
      · rw [mem_append, Option.mem_toList]
        exact not_or.mpr ⟨hnot, hpick⟩
      · rw [hkeyt, show ((s.next a).m.task u).rqKey = (s.m.task u).rqKey from
          congrArg (·.2.2) (core_next hfresh hready hready')]
        exact hkey
  · have hpick : s.m.picks a ≠ some u := by
      intro hpick
      obtain ⟨hr, hbest⟩ := picked_best hpick
      have hnot := hbest t h.last
      rw [better_iff, h.lastPrio, h.prio] at hnot
      have hkey := hbehind hr
      omega
    refine .inr ⟨?_, fun hr => ?_⟩
    · rw [List.count_append, hcount, List.count_eq_zero.mpr]
      rwa [Option.mem_toList]
    · rw [hkeyt]
      by_cases hmem : u ∈ s.m.readies a
      -- a task that becomes ready again comes behind
      · exact Nat.lt_of_le_of_lt (h.ordered.keys t h.last) (hm.above u hmem)
      · have hcore := hm.others u hmem hr
        have hold : s.Ready u := (congrArg Prod.fst hcore).symm.trans hr
        rw [show ((s.next a).m.task u).rqKey = (s.m.task u).rqKey from congrArg (·.2.2) hcore]
        exact hbehind hold

lemma roundRobin_of_ordered (h : s.Ordered) : s.RoundRobin := by
  intro t u a s₁ as s₂ ht hu hstep hu₁ hprio hrun hlog hpick
  obtain ⟨hfresh, -, rfl⟩ := hstep
  have hm := readies_move a hfresh.nodup hfresh.keys
  have hordered := ordered_next h hfresh
  have hstart : Between ((s.next a).m.task t).prio t u { s.next a with log := [] } := by
    refine ⟨⟨hordered.ready, hordered.keys, hordered.order⟩, hm.ready t ht, rfl, hprio,
      .inl ⟨List.not_mem_nil, hu₁, ?_⟩⟩
    have hkeyu : ((s.next a).m.task u).rqKey = (s.m.task u).rqKey :=
      congrArg (·.2.2) (core_next hfresh hu hu₁)
    rw [hkeyu]
    exact Nat.lt_of_le_of_lt (h.keys u hu) (hm.above t ht)
  have hbetween : t ∉ s₂.log → Between ((s.next a).m.task t).prio t u s₂ := by
    apply hrun.invariant (I := fun s' => t ∉ s'.log → Between _ t u s') (fun _ => hstart)
    rintro s' b _ hprev ⟨⟨hfresh', hwaits⟩, -, rfl⟩ hnot
    have hnot' : t ∉ s'.log := fun hmem => hnot (List.mem_append_left _ hmem)
    exact (hprev hnot').next hfresh' hwaits hnot
  obtain ⟨hordered₂, hlast, hlastPrio, hprio₂, hturn⟩ := hbetween hlog
  obtain ⟨-, hready, hkey⟩ | ⟨hcount, -⟩ := hturn
  · have hnot := (pickNext_best s₂.m).least t hpick u (mem_finRange u) hready
    rw [better_iff, hlastPrio, hprio₂] at hnot
    omega
  · exact hcount

/-- In every run from a machine without tasks in which no section makes a ready task ready again,
the scheduler picks in the order of arrival. -/
theorem scheduling_order {m₀ : Machine} (h₀ : ∀ t, (m₀.task t).state = .unused) {as : List Move}
    (hrun : Run (Guarded Fresh Step) ⟨m₀, [], []⟩ as s) : s.PickLaw ∧ s.RoundRobin := by
  have hordered : s.Ordered := by
    apply hrun.invariant (I := Ordered) (ordered_init h₀)
    rintro s a _ h ⟨hfresh, -, rfl⟩
    exact ordered_next h hfresh
  exact ⟨pickLaw_of_ordered hordered, roundRobin_of_ordered hordered⟩

/-- The machine at boot, with nothing ready. -/
def start : Tracked := ⟨boot, [], []⟩

/-- Two tasks of one priority, the first of them running. -/
def twoTasks : List Move :=
  [.life (.sched (.create 0 10)), .life (.sched (.create 1 10)), .life (.sched (.dispatch 0))]

theorem scheduling_order_two_tasks :
    (twoTasks.foldl next start).PickLaw ∧ (twoTasks.foldl next start).RoundRobin := by
  have henables : Enables (fun s a => Fresh s a ∧ s.m.MoveEnabled a) next start twoTasks := by
    decide
  have hrun : Run (Guarded Fresh Step) start twoTasks (twoTasks.foldl next start) :=
    Run.of_enables (fun _ _ h => ⟨h.1, h.2, rfl⟩) henables
  exact scheduling_order (fun _ => rfl) hrun

/-- On one cpu: task 0 polls with a timeout of 1 ms, and task 1 runs. The next tick makes task 0
ready; then task 1 creates task 2, wakes the pollers and yields. -/
def pollTimeout : List Move :=
  [.life (.sched (.create 0 10)), .life (.sched (.dispatch 0)), .life (.sched (.pollPark 0 0 1)),
    .life (.sched (.create 1 10)), .life (.sched (.dispatch 0)), .life (.sched .clock),
    .life (.sched (.tick 0)), .life (.sched (.create 2 10)),
    .life (.sched (.wake .ipcWakePollers 0 0)), .life (.sched (.yield 0 1))]

/-- The timeout has left task 0 on the queue of the pollers, and the wake sends it to the end of
the run queue, behind a task that became ready after it. -/
theorem scheduling_order_poll_timeout :
    Run Step start pollTimeout (pollTimeout.foldl next start) ∧
      ¬ (pollTimeout.foldl next start).PickLaw := by
  have henables : Enables (fun s a => s.m.MoveEnabled a) next start pollTimeout := by
    decide +kernel
  refine ⟨Run.of_enables (fun _ _ h => ⟨h, rfl⟩) henables, fun hlaw => ?_⟩
  have hpick : (pollTimeout.foldl next start).m.pickNext = some 2 := by decide +kernel
  have hfirst := hlaw.first 2 0 hpick (by decide +kernel) (by decide +kernel) (by decide)
  exact absurd hfirst (by decide +kernel)

end Tracked
end Sched
end MobilePhoneOs
