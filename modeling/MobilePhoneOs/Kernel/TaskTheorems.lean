import MobilePhoneOs.Kernel.Task
import MobilePhoneOs.Lib.Chain
import Mathlib.Data.Fintype.Card

/-!
# Scheduler consistency and the finality of death

The links of every wait queue form a list; `Links` says which. A section either leaves the
links alone, puts the running task in front of one list, or sweeps one list. What the source
gets wrong is found in the sections that change the state of a task behind the back of its
queue or its cpu.
-/

namespace MobilePhoneOs

open Function (update update_self update_of_ne update_eq_self)
namespace Sched
namespace Machine

open Machine (act life)

variable {m m' : Machine} {c c' : ℕ} {t u : Slot} {q q' : QueueId}

/-! ## Fields after an update -/

@[simp] lemma modifyTask_self (f : Task → Task) : (m.modifyTask t f).task t = f (m.task t) :=
  update_self _ _ _

lemma modifyTask_ne (f : Task → Task) (h : u ≠ t) : (m.modifyTask t f).task u = m.task u :=
  update_of_ne h _ _

@[simp] lemma modifyTask_cpu (f : Task → Task) : (m.modifyTask t f).cpu = m.cpu := rfl

@[simp] lemma modifyCpu_self (f : PerCpu → PerCpu) : (m.modifyCpu c f).cpu c = f (m.cpu c) :=
  update_self _ _ _

lemma modifyCpu_ne (f : PerCpu → PerCpu) (h : c' ≠ c) : (m.modifyCpu c f).cpu c' = m.cpu c' :=
  update_of_ne h _ _

@[simp] lemma modifyCpu_task (f : PerCpu → PerCpu) : (m.modifyCpu c f).task = m.task := rfl

@[simp] lemma requeue_self : (m.requeue t).task t
    = { m.task t with state := .ready, rqKey := m.nextKey } :=
  update_self _ _ _

lemma requeue_ne (h : u ≠ t) : (m.requeue t).task u = m.task u := update_of_ne h _ _

@[simp] lemma requeue_head : (m.requeue t).head = m.head := rfl

@[simp] lemma link_self (s : TaskState) : (m.link t q s).task t
    = { m.task t with wqNext := m.head q, state := s } :=
  update_self _ _ _

lemma link_ne (s : TaskState) (h : u ≠ t) : (m.link t q s).task u = m.task u :=
  update_of_ne h _ _

lemma link_head (s : TaskState) : (m.link t q s).head = update m.head q (some t) := rfl

lemma schedPark_ne (h : u ≠ t) : (m.schedPark c t).task u = m.task u := by
  rw [schedPark, modifyCpu_task, modifyTask_ne _ h]

@[simp] lemma schedPark_self :
    (m.schedPark c t).task t = { m.task t with parked := true } := by
  rw [schedPark, modifyCpu_task, modifyTask_self]

lemma schedPark_state : ((m.schedPark c t).task u).state = (m.task u).state := by
  by_cases h : u = t
  · rw [h, schedPark_self]
  · rw [schedPark_ne h]

lemma schedPark_wqNext : ((m.schedPark c t).task u).wqNext = (m.task u).wqNext := by
  by_cases h : u = t
  · rw [h, schedPark_self]
  · rw [schedPark_ne h]

/-- After a park its cpu runs nothing, the others run what they ran. -/
lemma schedPark_runs : (m.schedPark c t).Runs c' u ↔ c' ≠ c ∧ m.Runs c' u := by
  unfold Runs schedPark
  by_cases h : c' = c
  · rw [h, modifyCpu_self]
    simp
  · rw [modifyCpu_ne _ h, modifyTask_cpu]
    simp [h]

/-! ## Lists of links -/

/-- The walk from the pointer `p` along `next` goes through exactly `l`. -/
def Links (next : Slot → Option Slot) : Option Slot → List Slot → Prop
  | p, [] => p = none
  | p, t :: l => p = some t ∧ Links next (next t) l

/-- The queue `q` holds the tasks `l`, first to be woken first. -/
def IsQueue (m : Machine) (q : QueueId) (l : List Slot) : Prop :=
  Links (fun t => (m.task t).wqNext) (m.head q) l

variable {next : Slot → Option Slot} {p : Option Slot} {l : List Slot}

/-- A list of links is a chain of the pointers. -/
lemma Links.linked
    (h : Links next p l) :
    Chain.Linked (fun x : Option Slot => x.bind next) (· = none) p (l.map some) := by
  induction l generalizing p with
  | nil => exact Chain.linked_nil.mpr h
  | cons t l ih => exact Chain.linked_cons.mpr ⟨h.1, by simp, by simpa using ih h.2⟩

lemma Links.nodup
    (h : Links next p l) : l.Nodup :=
  h.linked.nodup.of_map

lemma Links.unique {l' : List Slot}
    (h : Links next p l) (h' : Links next p l') : l = l' :=
  List.map_injective_iff.mpr (Option.some_injective _) (h.linked.unique h'.linked)

lemma Links.congr {next' : Slot → Option Slot}
    (h : Links next p l) (hag : ∀ t ∈ l, next' t = next t) : Links next' p l := by
  induction l generalizing p with
  | nil => exact h
  | cons t l ih =>
    refine ⟨h.1, ?_⟩
    rw [hag t List.mem_cons_self]
    exact ih h.2 fun u hu => hag u (List.mem_cons_of_mem _ hu)

/-- Slots are few, so a list of links is short. -/
lemma Links.length_le
    (h : Links next p l) : l.length ≤ MAX_TASKS := by
  have hcard := h.nodup.length_le_card
  rwa [Fintype.card_fin] at hcard

/-- A sweep of a proper list goes through the list. -/
lemma sweep_of_links (fuel : ℕ)
    (h : Links next p l) (hfuel : l.length < fuel) : sweep fuel next p = l := by
  induction l generalizing next p fuel with
  | nil =>
    obtain ⟨fuel, rfl⟩ := Nat.exists_eq_add_of_lt hfuel
    rw [show p = none from h]
    simp [sweep]
  | cons t l ih =>
    have hnd := List.nodup_cons.mp h.nodup
    obtain ⟨rfl, hrest⟩ := h
    cases fuel with
    | zero => simp at hfuel
    | succ fuel =>
      rw [sweep, ih fuel]
      · -- the link that the sweep resets is not one of the rest
        exact hrest.congr fun u hu =>
          update_of_ne (fun (heq : u = t) => hnd.1 (heq ▸ hu)) _ _
      · simpa using hfuel

lemma IsQueue.onQueue (h : m.IsQueue q l) : m.onQueue q = l :=
  sweep_of_links _ h (Nat.lt_succ_of_le h.length_le)

/-! ## Sweeps -/

/-- What a waker leaves of a task it meets. -/
def woken (checkDead : Bool) (s : TaskState) : TaskState :=
  if checkDead = true ∧ s = .dead then .dead else .ready

/-- What one sweep does to each task, and that it touches no cpu and no other queue. -/
structure Swept (checkDead : Bool) (q : QueueId) (l : List Slot) (m m' : Machine) : Prop where
  off : ∀ u ∉ l, m'.task u = m.task u
  state : ∀ u ∈ l, (m'.task u).state = woken checkDead (m.task u).state
  wqNext : ∀ u ∈ l, (m'.task u).wqNext = none
  owesPark : ∀ u, (m'.task u).owesPark = (m.task u).owesPark
  cpu : m'.cpu = m.cpu
  head : ∀ q', q' ≠ q → m'.head q' = m.head q'

lemma woken_woken (checkDead : Bool) (s : TaskState) :
    woken checkDead (woken checkDead s) = woken checkDead s := by
  unfold woken
  split_ifs <;> simp_all

variable {checkDead : Bool}

/-- One round of a sweep, then the rest. -/
lemma Swept.cons (m₁ : Machine)
    (hoff : ∀ u, u ≠ t → m₁.task u = m.task u)
    (hstate : (m₁.task t).state = woken checkDead (m.task t).state)
    (hnext : (m₁.task t).wqNext = none) (howes : (m₁.task t).owesPark = (m.task t).owesPark)
    (hcpu : m₁.cpu = m.cpu) (hhead : ∀ q', q' ≠ q → m₁.head q' = m.head q')
    (h : Swept checkDead q l m₁ m') : Swept checkDead q (t :: l) m m' where
  off := by
    intro u hu
    rw [List.mem_cons, not_or] at hu
    rw [h.off u hu.2, hoff u hu.1]
  state := by
    intro u hu
    by_cases hl : u ∈ l
    · rw [h.state u hl]
      by_cases hut : u = t
      · rw [hut, hstate, woken_woken]
      · rw [hoff u hut]
    · obtain rfl : u = t := (List.mem_cons.mp hu).resolve_right hl
      rw [h.off u hl, hstate]
  wqNext := by
    intro u hu
    by_cases hl : u ∈ l
    · exact h.wqNext u hl
    · obtain rfl : u = t := (List.mem_cons.mp hu).resolve_right hl
      rw [h.off u hl, hnext]
  owesPark := by
    intro u
    rw [h.owesPark u]
    by_cases hut : u = t
    · rw [hut, howes]
    · rw [hoff u hut]
  cpu := h.cpu.trans hcpu
  head := fun q' hq => (h.head q' hq).trans (hhead q' hq)

/-- The machine when a sweep has taken `t` off the queue. -/
def unlink (m : Machine) (t : Slot) (q : QueueId) : Machine :=
  { m.modifyTask t fun t => { t with wqNext := none } with
    head := update m.head q (m.task t).wqNext }

@[simp] lemma unlink_self : (m.unlink t q).task t = { m.task t with wqNext := none } :=
  update_self _ _ _

lemma unlink_ne (h : u ≠ t) : (m.unlink t q).task u = m.task u := update_of_ne h _ _

@[simp] lemma unlink_head : (m.unlink t q).head q = (m.task t).wqNext := update_self _ _ _

lemma unlink_head_ne (h : q' ≠ q) : (m.unlink t q).head q' = m.head q' := update_of_ne h _ _

lemma unlink_links : (fun u => ((m.unlink t q).task u).wqNext)
    = update (fun u => (m.task u).wqNext) t none := by
  funext u
  by_cases hu : u = t
  · rw [hu, unlink_self, update_self]
  · rw [unlink_ne hu, update_of_ne hu]

lemma requeue_links :
    (fun u => ((m.requeue t).task u).wqNext) = fun u => (m.task u).wqNext := by
  funext u
  by_cases hu : u = t
  · rw [hu, requeue_self]
  · rw [requeue_ne hu]

lemma wakeLoop_succ (cur : Option Slot) (fuel : ℕ) (preempt : Bool)
    (hhead : m.head q = some t) : ∃ preempt',
    wakeLoop checkDead cur q (fuel + 1) m preempt =
      if checkDead = true ∧ (m.task t).state = .dead then
        wakeLoop checkDead cur q fuel (m.unlink t q) preempt'
      else wakeLoop checkDead cur q fuel ((m.unlink t q).requeue t) preempt' := by
  have hstate : ((m.unlink t q).task t).state = (m.task t).state := by rw [unlink_self]
  rw [← hstate, wakeLoop, hhead]
  split_ifs with hdead
  · exact ⟨preempt, if_pos hdead⟩
  · exact ⟨_, if_neg hdead⟩

/-- The loop of the wakers goes through the links it finds. -/
lemma wakeLoop_swept (checkDead : Bool) (cur : Option Slot) (q : QueueId) (fuel : ℕ) (m : Machine)
    (preempt : Bool) :
    Swept checkDead q (sweep fuel (fun t => (m.task t).wqNext) (m.head q)) m
      (wakeLoop checkDead cur q fuel m preempt).1 := by
  induction fuel generalizing m preempt with
  | zero => exact ⟨fun _ _ => rfl, by simp [sweep], by simp [sweep], fun _ => rfl, rfl, fun _ _ => rfl⟩
  | succ fuel ih =>
    cases hhead : m.head q with
    | none =>
      rw [wakeLoop, hhead]
      exact ⟨fun _ _ => rfl, by simp [sweep], by simp [sweep], fun _ => rfl, rfl, fun _ _ => rfl⟩
    | some t =>
      obtain ⟨preempt', hround⟩ := wakeLoop_succ cur fuel preempt hhead
      rw [hround, sweep]
      by_cases hdead : checkDead = true ∧ (m.task t).state = .dead
      · rw [if_pos hdead]
        have hsw := ih (m.unlink t q) preempt'
        rw [unlink_links, unlink_head] at hsw
        refine Swept.cons (m.unlink t q) (fun u hu => unlink_ne hu) ?_ ?_ ?_ rfl
          (fun q' hq => unlink_head_ne hq) hsw
        · rw [unlink_self, woken, if_pos hdead]
          exact hdead.2
        · rw [unlink_self]
        · rw [unlink_self]
      · rw [if_neg hdead]
        have hsw := ih ((m.unlink t q).requeue t) preempt'
        rw [requeue_links, unlink_links, requeue_head, unlink_head] at hsw
        refine Swept.cons ((m.unlink t q).requeue t) ?_ ?_ ?_ ?_ rfl
          (fun q' hq => unlink_head_ne hq) hsw
        · exact fun u hu => (requeue_ne hu).trans (unlink_ne hu)
        · rw [requeue_self, woken, if_neg hdead]
        · rw [requeue_self, unlink_self]
        · rw [requeue_self, unlink_self]

/-- The loop empties a proper list. -/
lemma wakeLoop_head {cur : Option Slot} (fuel : ℕ)
    {preempt : Bool} (h : m.IsQueue q l) (hfuel : l.length < fuel) :
    (wakeLoop checkDead cur q fuel m preempt).1.head q = none := by
  induction fuel generalizing m preempt l with
  | zero => simp at hfuel
  | succ fuel ih =>
    cases l with
    | nil =>
      have hnone : m.head q = none := h
      rw [wakeLoop, hnone]
      exact hnone
    | cons t l =>
      have hnd := List.nodup_cons.mp h.nodup
      obtain ⟨hhead, hrest⟩ := h
      -- resetting the link of the first task leaves the rest of the list
      have hunlink : (m.unlink t q).IsQueue q l := by
        unfold IsQueue
        rw [unlink_head]
        exact hrest.congr fun u hu => congrArg Task.wqNext (unlink_ne fun heq => hnd.1 (heq ▸ hu))
      have hlen : l.length < fuel := by simpa using hfuel
      obtain ⟨preempt', hround⟩ := wakeLoop_succ cur fuel preempt hhead
      rw [hround]
      split_ifs with hdead
      · exact ih hunlink hlen
      · refine ih ?_ hlen
        unfold IsQueue
        rw [requeue_links]
        exact hunlink

/-- A wake sweeps its queue; beyond that it may set the flag of its cpu. -/
lemma wake_swept (w : Waker) : ∃ m', Swept w.checksDead q (m.onQueue q) m m' ∧
    (∀ l, m.IsQueue q l → m'.head q = none) ∧ (m.wake w c q).task = m'.task ∧
    (m.wake w c q).head = m'.head ∧ (∀ c' u, (m.wake w c q).Runs c' u ↔ m.Runs c' u) := by
  have hsw := wakeLoop_swept w.checksDead (m.cpu c).current q (MAX_TASKS + 1) m false
  refine ⟨_, hsw, fun l hl => wakeLoop_head _ hl (Nat.lt_succ_of_le hl.length_le), ?_⟩
  have hruns : ∀ c' u, (wakeLoop w.checksDead (m.cpu c).current q (MAX_TASKS + 1) m false).1.Runs
      c' u ↔ m.Runs c' u := by
    intro c' u
    unfold Runs
    rw [hsw.cpu]
  unfold wake
  dsimp only
  split_ifs with hflag
  · refine ⟨rfl, rfl, fun c' u => ?_⟩
    rw [← hruns]
    unfold Runs
    by_cases hc : c' = c
    · rw [hc, modifyCpu_self]
    · rw [modifyCpu_ne _ hc]
  · exact ⟨rfl, rfl, hruns⟩

/-! ## The invariant of the scheduler -/

/-- The queues are disjoint lists of waiting tasks. -/
structure Queues (m : Machine) (qs : QueueId → List Slot) : Prop where
  links : ∀ q, m.IsQueue q (qs q)
  disjoint : ∀ q q' t, t ∈ qs q → t ∈ qs q' → q = q'
  waiting : ∀ q, ∀ t ∈ qs q, (m.task t).state = .blocked ∨ (m.task t).state = .sleeping

/-- A task that a cpu executes is marked running, or has just linked itself, and no second
cpu executes it. -/
structure Cpus (m : Machine) : Prop where
  state : ∀ c t, m.Runs c t →
    (m.task t).state = .running ∨ (m.task t).state = .blocked ∧ (m.task t).owesPark = true
  once : ∀ c c' t, m.Runs c t → m.Runs c' t → c = c'

section

variable {qs : QueueId → List Slot}

/-- Linked tasks that keep their state and link keep the queues. -/
lemma Queues.keep (h : Queues m qs) (hhead : m'.head = m.head)
    (hmem : ∀ q, ∀ t ∈ qs q, (m'.task t).state = (m.task t).state ∧
      (m'.task t).wqNext = (m.task t).wqNext) : Queues m' qs := by
  refine ⟨fun q => ?_, h.disjoint, fun q t ht => ?_⟩
  · unfold IsQueue
    rw [hhead]
    exact (h.links q).congr fun t ht => (hmem q t ht).2
  · rw [(hmem q t ht).1]
    exact h.waiting q t ht

/-- A task in another state is linked nowhere. -/
lemma Queues.notMem (h : Queues m qs) (hb : (m.task t).state ≠ .blocked)
    (hs : (m.task t).state ≠ .sleeping) : t ∉ qs q := by
  intro hmem
  rcases h.waiting q t hmem with hc | hc
  · exact hb hc
  · exact hs hc

/-- A change of one task that is linked nowhere. -/
lemma Queues.keep_off (h : Queues m qs) (hhead : m'.head = m.head)
    (hoff : ∀ q, t ∉ qs q) (hother : ∀ u, u ≠ t → (m'.task u).state = (m.task u).state ∧
      (m'.task u).wqNext = (m.task u).wqNext) : Queues m' qs :=
  h.keep hhead fun q u hu => hother u fun heq => hoff q (heq ▸ hu)

/-- A task that was linked nowhere goes in front of a queue. -/
lemma Queues.link (h : Queues m qs) (hoff : ∀ q, t ∉ qs q) {s : TaskState}
    (hs : s = .blocked ∨ s = .sleeping) :
    Queues (m.link t q s) (update qs q (t :: qs q)) := by
  have hrest : ∀ q', ∀ u ∈ qs q', u ≠ t := fun q' u hu heq => hoff q' (heq ▸ hu)
  have hmem : ∀ q' u, u ∈ update qs q (t :: qs q) q' → u = t ∧ q' = q ∨ u ∈ qs q' := by
    intro q' u hu
    by_cases hq : q' = q
    · rw [hq, update_self, List.mem_cons] at hu
      rw [hq]
      exact hu.imp (fun hut => ⟨hut, rfl⟩) id
    · rw [update_of_ne hq] at hu
      exact .inr hu
  have hkeep : ∀ q', Links (fun u => ((m.link t q s).task u).wqNext) (m.head q') (qs q') :=
    fun q' => (h.links q').congr fun u hu => by rw [link_ne _ (hrest q' u hu)]
  refine ⟨fun q' => ?_, fun q₁ q₂ u h₁ h₂ => ?_, fun q' u hu => ?_⟩
  · unfold IsQueue
    rw [link_head]
    by_cases hq : q' = q
    · rw [hq, update_self, update_self]
      refine ⟨rfl, ?_⟩
      show Links _ ((m.link t q s).task t).wqNext (qs q)
      rw [link_self]
      exact hkeep q
    · rw [update_of_ne hq, update_of_ne hq]
      exact hkeep q'
  · rcases hmem q₁ u h₁ with ⟨hut, hq₁⟩ | h₁
    · rcases hmem q₂ u h₂ with ⟨_, hq₂⟩ | h₂
      · rw [hq₁, hq₂]
      · exact absurd hut (hrest q₂ u h₂)
    · rcases hmem q₂ u h₂ with ⟨hut, _⟩ | h₂
      · exact absurd hut (hrest q₁ u h₁)
      · exact h.disjoint q₁ q₂ u h₁ h₂
  · rcases hmem q' u hu with ⟨rfl, _⟩ | hu
    · rw [link_self]
      exact hs
    · rw [link_ne _ (hrest q' u hu)]
      exact h.waiting q' u hu

/-- A swept queue is empty, the others are as they were. -/
lemma Queues.swept {checkDead : Bool} (h : Queues m qs)
    (hsw : Swept checkDead q (qs q) m m') (hhead : m'.head q = none) :
    Queues m' (update qs q []) := by
  have hmem : ∀ q' u, u ∈ update qs q [] q' → q' ≠ q ∧ u ∈ qs q' := by
    intro q' u hu
    by_cases hq : q' = q
    · rw [hq, update_self] at hu
      exact absurd hu List.not_mem_nil
    · rw [update_of_ne hq] at hu
      exact ⟨hq, hu⟩
  have hoff : ∀ q', q' ≠ q → ∀ u ∈ qs q', m'.task u = m.task u := by
    intro q' hq u hu
    exact hsw.off u fun hc => hq (h.disjoint q' q u hu hc)
  refine ⟨fun q' => ?_, fun q₁ q₂ u h₁ h₂ => ?_, fun q' u hu => ?_⟩
  · unfold IsQueue
    by_cases hq : q' = q
    · rw [hq, update_self]
      exact hhead
    · rw [update_of_ne hq, hsw.head q' hq]
      exact (h.links q').congr fun u hu => by rw [hoff q' hq u hu]
  · exact h.disjoint q₁ q₂ u (hmem q₁ u h₁).2 (hmem q₂ u h₂).2
  · obtain ⟨hq, hu⟩ := hmem q' u hu
    rw [hoff q' hq u hu]
    exact h.waiting q' u hu

/-- Cpus whose tasks are left alone. -/
lemma Cpus.keep (h : Cpus m) (hruns : ∀ c t, m'.Runs c t → m.Runs c t ∧
    (m'.task t).state = (m.task t).state ∧ (m'.task t).owesPark = (m.task t).owesPark) :
    Cpus m' := by
  refine ⟨fun c t hr => ?_, fun c c' t hr hr' => h.once c c' t (hruns c t hr).1 (hruns c' t hr').1⟩
  obtain ⟨hold, hs, ho⟩ := hruns c t hr
  rw [hs, ho]
  exact h.state c t hold

/-- The task of a cpu parks: only that task may have changed. -/
lemma Cpus.park {m₁ : Machine} (h : Cpus m) (hrun : m.Runs c t) (hcpu : m₁.cpu = m.cpu)
    (hother : ∀ u, u ≠ t → (m₁.task u).state = (m.task u).state ∧
      (m₁.task u).owesPark = (m.task u).owesPark) : Cpus (m₁.schedPark c t) := by
  refine h.keep fun c' u hr => ?_
  obtain ⟨hc, hr⟩ := schedPark_runs.mp hr
  have hold : m.Runs c' u := by
    unfold Runs at hr ⊢
    rwa [hcpu] at hr
  have hu : u ≠ t := fun heq => hc (h.once c' c t (heq ▸ hold) hrun)
  rw [schedPark_ne hu]
  exact ⟨hold, (hother u hu).1, (hother u hu).2⟩

/-- A task on a cpu that has not linked itself is linked nowhere. -/
lemma off_of_runs (hq : Queues m qs) (hc : Cpus m) (hrun : m.Runs c t)
    (howes : (m.task t).owesPark = false) : (m.task t).state = .running ∧ ∀ q, t ∉ qs q := by
  have hstate : (m.task t).state = .running := by
    rcases hc.state c t hrun with hs | ⟨_, ho⟩
    · exact hs
    · exact absurd (howes.symm.trans ho) (by simp)
  refine ⟨hstate, fun q => hq.notMem ?_ ?_⟩
  · rw [hstate]
    simp
  · rw [hstate]
    simp

end

/-! ## The sections of the scheduler -/

lemma pickStep_ready {best : Option Slot} (h : ∀ b, best = some b → (m.task b).state = .ready)
    (u : Slot) : ∀ b, m.pickStep best u = some b → (m.task b).state = .ready := by
  intro b hb
  unfold pickStep at hb
  split_ifs at hb with hu
  · exact h b hb
  · have hu := not_not.mp hu
    cases best with
    | none =>
      cases hb
      exact hu
    | some b' =>
      dsimp only at hb
      split_ifs at hb
      · cases hb
        exact hu
      · cases hb
        exact h _ rfl

lemma pickNext_ready (h : m.pickNext = some t) : (m.task t).state = .ready := by
  have hfold : ∀ (l : List Slot) (best : Option Slot),
      (∀ b, best = some b → (m.task b).state = .ready) →
      ∀ b, l.foldl m.pickStep best = some b → (m.task b).state = .ready := by
    intro l
    induction l with
    | nil => exact fun best hbest => hbest
    | cons u l ih => exact fun best hbest => ih _ (pickStep_ready hbest u)
  exact hfold _ none (by simp) t h

/-- What the sleeper loop of `sched_tick` does: expired sleepers become ready. -/
structure Ticked (m m' : Machine) : Prop where
  task : ∀ u, m'.task u = m.task u ∨
    ((m.task u).state = .sleeping ∧ m.expired (m.task u) = true ∧ (m'.task u).state = .ready ∧
      (m'.task u).wqNext = (m.task u).wqNext ∧ (m'.task u).owesPark = (m.task u).owesPark)
  cpu : m'.cpu = m.cpu
  head : m'.head = m.head
  jiffies : m'.jiffies = m.jiffies

lemma tickStep_ticked (m : Machine) (u : Slot) : Ticked m (m.tickStep u) := by
  unfold tickStep
  split_ifs with h
  · refine ⟨fun v => ?_, rfl, rfl, rfl⟩
    by_cases hv : v = u
    · subst hv
      refine .inr ⟨h.1, h.2, ?_⟩
      simp [modifyTask]
    · exact .inl (update_of_ne hv _ _)
  · exact ⟨fun _ => .inl rfl, rfl, rfl, rfl⟩

lemma Ticked.trans {m'' : Machine} (h : Ticked m m') (h' : Ticked m' m'') : Ticked m m'' := by
  refine ⟨fun u => ?_, h'.cpu.trans h.cpu, h'.head.trans h.head, h'.jiffies.trans h.jiffies⟩
  rcases h'.task u with heq | ⟨hs, hx, hready, hnext, howes⟩
  · rw [heq]
    exact h.task u
  · rcases h.task u with heq | ⟨_, _, hr, _⟩
    · have hexp : m.expired (m.task u) = true := by
        unfold expired at hx ⊢
        rwa [heq, h'.jiffies.symm.trans (h'.jiffies.trans h.jiffies)] at hx
      rw [heq] at hs hnext howes
      exact .inr ⟨hs, hexp, hready, hnext, howes⟩
    · exact absurd (hr.symm.trans hs) (by simp)

lemma foldl_ticked (l : List Slot) (m : Machine) : Ticked m (l.foldl tickStep m) := by
  induction l generalizing m with
  | nil => exact ⟨fun _ => .inl rfl, rfl, rfl, rfl⟩
  | cons u l ih => exact (tickStep_ticked m u).trans (ih _)

/-- The quantum bookkeeping touches neither states nor links. -/
lemma tickQuantum_same (m : Machine) (c : ℕ) :
    (∀ u, ((m.tickQuantum c).task u).state = (m.task u).state ∧
      ((m.tickQuantum c).task u).wqNext = (m.task u).wqNext ∧
      ((m.tickQuantum c).task u).owesPark = (m.task u).owesPark) ∧
    (m.tickQuantum c).head = m.head ∧ ∀ c' u, (m.tickQuantum c).Runs c' u ↔ m.Runs c' u := by
  have hq : ∀ (t u : Slot) (left : ℕ),
      ((m.modifyTask t fun t => { t with quantumLeft := left }).task u).state = (m.task u).state ∧
      ((m.modifyTask t fun t => { t with quantumLeft := left }).task u).wqNext
        = (m.task u).wqNext ∧
      ((m.modifyTask t fun t => { t with quantumLeft := left }).task u).owesPark
        = (m.task u).owesPark := by
    intro t u left
    by_cases hu : u = t
    · rw [hu, modifyTask_self]
      exact ⟨rfl, rfl, rfl⟩
    · rw [modifyTask_ne _ hu]
      exact ⟨rfl, rfl, rfl⟩
  unfold tickQuantum
  split
  · exact ⟨fun _ => ⟨rfl, rfl, rfl⟩, rfl, fun _ _ => Iff.rfl⟩
  · next t _ =>
    split_ifs with hrun
    · dsimp only
      split_ifs with hleft
      · refine ⟨fun u => hq t u _, rfl, fun c' u => ?_⟩
        unfold Runs
        by_cases hc : c' = c
        · rw [hc, modifyCpu_self]
          rfl
        · rw [modifyCpu_ne _ hc]
          rfl
      · exact ⟨fun u => hq t u _, rfl, fun _ _ => Iff.rfl⟩
    · exact ⟨fun _ => ⟨rfl, rfl, rfl⟩, rfl, fun _ _ => Iff.rfl⟩

/-- A section is calm: a tick finds no expired sleeper that is still linked, a waker no task that
is still on a cpu, and no task parks without `task_state_lock`. -/
def Calm (m : Machine) : Act → Prop
  | .tick _ => ∀ q, ∀ t ∈ m.onQueue q, (m.task t).state = .sleeping → m.expired (m.task t) = false
  | .wake w _ n => ∀ t ∈ m.onQueue (w.queue n), ∀ c, ¬ m.Runs c t
  | .barePark _ _ => False
  | _ => True

/-- The queues and the cpus are in order. -/
def Inv (m : Machine) : Prop := ∃ qs, Queues m qs ∧ Cpus m

/-- A task that is picked was ready, so no other cpu runs it. -/
lemma inv_dispatch (h : m.Inv) (hen : (m.cpu c).dispatched = false) : (m.schedRun c).Inv := by
  obtain ⟨qs, hq, hc⟩ := h
  refine ⟨qs, ?_⟩
  unfold schedRun
  split
  · next t hpick =>
    have hready := pickNext_ready hpick
    have hoff : ∀ q, t ∉ qs q := fun q => hq.notMem (by rw [hready]; simp) (by rw [hready]; simp)
    refine ⟨hq.keep_off rfl hoff fun u hu => ?_, ?_⟩
    · rw [modifyCpu_task, modifyTask_ne _ hu]
      exact ⟨rfl, rfl⟩
    · -- the picked task was ready, so no other cpu executes it
      have hruns : ∀ c' u, ((m.modifyTask t fun t => { t with
            state := .running, quantumLeft := SCHED_QUANTUM }).modifyCpu c fun p =>
            { p with current := some t, dispatched := true }).Runs c' u →
          c' = c ∧ u = t ∨ c' ≠ c ∧ u ≠ t ∧ m.Runs c' u := by
        intro c' u hr
        unfold Runs at hr
        by_cases hcc : c' = c
        · rw [hcc, modifyCpu_self] at hr
          exact .inl ⟨hcc, (Option.some.inj hr.2).symm⟩
        · rw [modifyCpu_ne _ hcc] at hr
          refine .inr ⟨hcc, fun hut => ?_, hr⟩
          rcases hc.state c' u hr with hs | ⟨hs, _⟩
          · rw [hut, hready] at hs
            simp at hs
          · rw [hut, hready] at hs
            simp at hs
      refine ⟨fun c' u hr => ?_, fun c₁ c₂ u h₁ h₂ => ?_⟩
      · rcases hruns c' u hr with ⟨_, rfl⟩ | ⟨_, hu, hold⟩
        · rw [modifyCpu_task, modifyTask_self]
          exact .inl rfl
        · rw [modifyCpu_task, modifyTask_ne _ hu]
          exact hc.state c' u hold
      · rcases hruns c₁ u h₁ with ⟨rfl, hut⟩ | ⟨_, hut, hold₁⟩
        · rcases hruns c₂ u h₂ with ⟨rfl, _⟩ | ⟨_, hut', _⟩
          · rfl
          · exact absurd hut hut'
        · rcases hruns c₂ u h₂ with ⟨_, hut'⟩ | ⟨_, _, hold₂⟩
          · exact absurd hut' hut
          · exact hc.once c₁ c₂ u hold₁ hold₂
  · refine ⟨hq.keep rfl fun _ _ _ => ⟨rfl, rfl⟩, hc.keep fun c' u hr => ⟨?_, rfl, rfl⟩⟩
    unfold Runs at hr ⊢
    by_cases hcc : c' = c
    · rw [hcc, modifyCpu_self] at hr
      exact absurd hr.2 (by simp)
    · rwa [modifyCpu_ne _ hcc] at hr

lemma inv_tick (h : m.Inv) (hcalm : m.Calm (.tick c)) : (m.schedTick c).Inv := by
  obtain ⟨qs, hq, hc⟩ := h
  have htk := foldl_ticked (List.finRange MAX_TASKS) m
  unfold schedTick
  generalize (List.finRange MAX_TASKS).foldl tickStep m = m₁ at htk ⊢
  obtain ⟨hsame, hhead, hruns⟩ := tickQuantum_same m₁ c
  refine ⟨qs, hq.keep (hhead.trans htk.head) fun q t ht => ?_, hc.keep fun c' t hr => ?_⟩
  · -- a linked sleeper has not expired
    have heq : m₁.task t = m.task t := by
      rcases htk.task t with heq | ⟨hs, hx, _⟩
      · exact heq
      · have hlive := hcalm q t (by rwa [(hq.links q).onQueue]) hs
        exact absurd (hlive.symm.trans hx) (by simp)
    have hs := hsame t
    rw [heq] at hs
    exact ⟨hs.1, hs.2.1⟩
  · have hold : m.Runs c' t := by
      have hmid := (hruns c' t).mp hr
      unfold Runs at hmid ⊢
      rwa [htk.cpu] at hmid
    have heq : m₁.task t = m.task t := by
      rcases htk.task t with heq | ⟨hs, _⟩
      · exact heq
      · rcases hc.state c' t hold with hrun | ⟨hb, _⟩
        · exact absurd (hs.symm.trans hrun) (by simp)
        · exact absurd (hs.symm.trans hb) (by simp)
    have hs := hsame t
    rw [heq] at hs
    exact ⟨hold, hs.1, hs.2.2⟩

lemma inv_postIrq (h : m.Inv) (hen : m.Interruptible c) : (m.schedPostIrq c).Inv := by
  obtain ⟨qs, hq, hc⟩ := h
  unfold schedPostIrq
  split
  · exact ⟨qs, hq, hc⟩
  · next t hcur =>
    by_cases hflag : (m.cpu c).needResched = false
    · rw [if_pos hflag]
      exact ⟨qs, hq, hc⟩
    rw [if_neg hflag]
    dsimp only
    have hrun : m.Runs c t := by
      rcases hen with hd | hn
      · exact ⟨hd, hcur⟩
      · rw [hcur] at hn
        simp at hn
    set m₁ := m.modifyCpu c fun p => { p with needResched := false } with hm₁
    have hruns : ∀ c' u, m₁.Runs c' u ↔ m.Runs c' u := by
      intro c' u
      unfold Runs
      by_cases hcc : c' = c
      · rw [hcc, hm₁, modifyCpu_self]
      · rw [hm₁, modifyCpu_ne _ hcc]
    have hc₁ : Cpus m₁ := hc.keep fun c' u hr => ⟨(hruns c' u).mp hr, rfl, rfl⟩
    have hq₁ : Queues m₁ qs := hq.keep rfl fun _ _ _ => ⟨rfl, rfl⟩
    split_ifs with hstate
    · have hoff : ∀ q, t ∉ qs q := fun q =>
        hq₁.notMem (by rw [hstate]; simp) (by rw [hstate]; simp)
      refine ⟨qs, hq₁.keep_off rfl hoff fun u hu => ?_, ?_⟩
      · rw [schedPark_ne hu, requeue_ne hu]
        exact ⟨rfl, rfl⟩
      · refine hc₁.park ((hruns c t).mpr hrun) rfl fun u hu => ?_
        rw [requeue_ne hu]
        exact ⟨rfl, rfl⟩
    · refine ⟨qs, hq₁.keep rfl fun q u _ => ⟨schedPark_state, schedPark_wqNext⟩, ?_⟩
      exact hc₁.park ((hruns c t).mpr hrun) rfl fun _ _ => ⟨rfl, rfl⟩

/-- The running task parks without linking itself. -/
lemma inv_park_off {m₁ : Machine} (h : m.Inv) (hrun : m.Runs c t)
    (howes : (m.task t).owesPark = false) (hcpu : m₁.cpu = m.cpu) (hhead : m₁.head = m.head)
    (hother : ∀ u, u ≠ t → m₁.task u = m.task u) : (m₁.schedPark c t).Inv := by
  obtain ⟨qs, hq, hc⟩ := h
  obtain ⟨_, hoff⟩ := off_of_runs hq hc hrun howes
  refine ⟨qs, hq.keep_off hhead hoff fun u hu => ?_, hc.park hrun hcpu fun u hu => ?_⟩
  · rw [schedPark_ne hu, hother u hu]
    exact ⟨rfl, rfl⟩
  · rw [hother u hu]
    exact ⟨rfl, rfl⟩

/-- The running task links itself and parks. -/
lemma inv_park_on {s : TaskState} (h : m.Inv) (hrun : m.Runs c t)
    (howes : (m.task t).owesPark = false) (hs : s = .blocked ∨ s = .sleeping)
    (f : Task → Task) (hf : ∀ x, (f x).state = x.state ∧ (f x).wqNext = x.wqNext) :
    (((m.link t q s).modifyTask t f).schedPark c t).Inv := by
  obtain ⟨qs, hq, hc⟩ := h
  obtain ⟨_, hoff⟩ := off_of_runs hq hc hrun howes
  have hfields : ∀ u, ((((m.link t q s).modifyTask t f).schedPark c t).task u).state
        = ((m.link t q s).task u).state ∧
      ((((m.link t q s).modifyTask t f).schedPark c t).task u).wqNext
        = ((m.link t q s).task u).wqNext := by
    intro u
    rw [schedPark_state, schedPark_wqNext]
    by_cases hu : u = t
    · rw [hu, modifyTask_self]
      exact hf _
    · rw [modifyTask_ne _ hu]
      exact ⟨rfl, rfl⟩
  refine ⟨_, (hq.link hoff hs).keep rfl fun q' u _ => hfields u, ?_⟩
  refine hc.park hrun rfl fun u hu => ?_
  rw [modifyTask_ne _ hu, link_ne _ hu]
  exact ⟨rfl, rfl⟩

lemma inv_linkUnlocked (h : m.Inv) (hrun : m.Runs c t) (howes : (m.task t).owesPark = false)
    (n : Option ℕ) : (m.linkUnlocked t n).Inv := by
  obtain ⟨qs, hq, hc⟩ := h
  obtain ⟨_, hoff⟩ := off_of_runs hq hc hrun howes
  -- either way the task is left blocked, on its cpu, and owing a park
  have hcpus : ∀ m₁ : Machine, m₁.cpu = m.cpu → (∀ u, u ≠ t → m₁.task u = m.task u) →
      (m₁.task t).state = .blocked → (m₁.task t).owesPark = true → Cpus m₁ := by
    intro m₁ hcpu hother hs ho
    have hruns : ∀ c' u, m₁.Runs c' u → m.Runs c' u := by
      intro c' u hr
      unfold Runs at hr ⊢
      rwa [hcpu] at hr
    refine ⟨fun c' u hr => ?_, fun c₁ c₂ u h₁ h₂ => hc.once c₁ c₂ u (hruns _ _ h₁) (hruns _ _ h₂)⟩
    by_cases hu : u = t
    · rw [hu]
      exact .inr ⟨hs, ho⟩
    · rw [hother u hu]
      exact hc.state c' u (hruns c' u hr)
  cases n with
  | some n =>
    refine ⟨_, (hq.link (q := .other n) hoff (.inl rfl)).keep rfl fun q u _ => ?_, ?_⟩
    · by_cases hu : u = t
      · rw [linkUnlocked, hu, modifyTask_self]
        exact ⟨rfl, rfl⟩
      · rw [linkUnlocked, modifyTask_ne _ hu]
        exact ⟨rfl, rfl⟩
    · refine hcpus _ rfl (fun u hu => ?_) ?_ ?_
      · rw [linkUnlocked, modifyTask_ne _ hu, link_ne _ hu]
      · rw [linkUnlocked, modifyTask_self, link_self]
      · rw [linkUnlocked, modifyTask_self]
  | none =>
    refine ⟨qs, hq.keep_off rfl hoff fun u hu => ?_, ?_⟩
    · rw [linkUnlocked, modifyTask_ne _ hu]
      exact ⟨rfl, rfl⟩
    · refine hcpus _ rfl (fun u hu => ?_) ?_ ?_
      · rw [linkUnlocked, modifyTask_ne _ hu]
      · rw [linkUnlocked, modifyTask_self]
      · rw [linkUnlocked, modifyTask_self]

lemma inv_wake (h : m.Inv) {w : Waker} {n : ℕ} (hcalm : m.Calm (.wake w c n)) :
    (m.wake w c (w.queue n)).Inv := by
  obtain ⟨qs, hq, hc⟩ := h
  have hon := (hq.links (w.queue n)).onQueue
  obtain ⟨m', hsw, hempty, htask, hhead, hruns⟩ := wake_swept (m := m) (c := c) (q := w.queue n) w
  rw [hon] at hsw
  refine ⟨update qs (w.queue n) [], ?_, ?_⟩
  · refine (hq.swept hsw (hempty _ (hq.links _))).keep hhead fun q u _ => ?_
    rw [htask]
    exact ⟨rfl, rfl⟩
  · refine hc.keep fun c' u hr => ?_
    have hold := (hruns c' u).mp hr
    have hu : u ∉ qs (w.queue n) := fun hmem => hcalm u (by rwa [hon]) c' hold
    rw [htask, hsw.off u hu]
    exact ⟨hold, rfl, rfl⟩

/-- Every calm section keeps the invariant. -/
lemma inv_step {a : Act} (h : m.Inv) (hcalm : m.Calm a) (hstep : Step m a m') : m'.Inv := by
  obtain ⟨hen, rfl⟩ := hstep
  cases a with
  | clock =>
    obtain ⟨qs, hq, hc⟩ := h
    exact ⟨qs, hq.keep rfl fun _ _ _ => ⟨rfl, rfl⟩, hc.keep fun _ _ hr => ⟨hr, rfl, rfl⟩⟩
  | dispatch c => exact inv_dispatch h hen
  | tick c => exact inv_tick h hcalm
  | postIrq c => exact inv_postIrq h hen
  | yield c t => exact inv_park_off h hen.1 hen.2 rfl rfl fun u hu => requeue_ne hu
  | exit c t => exact inv_park_off h hen.1 hen.2 rfl rfl fun u hu => modifyTask_ne _ hu
  | sleepArm c t msecs =>
    obtain ⟨qs, hq, hc⟩ := h
    have hsame : ∀ u, ((m.sleepArm t msecs).task u).state = (m.task u).state ∧
        ((m.sleepArm t msecs).task u).wqNext = (m.task u).wqNext ∧
        ((m.sleepArm t msecs).task u).owesPark = (m.task u).owesPark := by
      intro u
      unfold Machine.sleepArm
      by_cases hu : u = t
      · rw [hu, modifyTask_self]
        exact ⟨rfl, rfl, rfl⟩
      · rw [modifyTask_ne _ hu]
        exact ⟨rfl, rfl, rfl⟩
    exact ⟨qs, hq.keep rfl fun _ u _ => ⟨(hsame u).1, (hsame u).2.1⟩,
      hc.keep fun _ u hr => ⟨hr, (hsame u).1, (hsame u).2.2⟩⟩
  | sleepPark c t => exact inv_park_off h hen.1 hen.2 rfl rfl fun u hu => modifyTask_ne _ hu
  | park c t n =>
    have hpark := inv_park_on (q := .other n) h hen.1 hen.2 (.inl rfl) id fun _ => ⟨rfl, rfl⟩
    have hid : (m.link t (.other n) .blocked).modifyTask t id = m.link t (.other n) .blocked := by
      unfold modifyTask
      rw [id, update_eq_self]
    rw [hid] at hpark
    exact hpark
  | pollPark c t timeoutMs =>
    exact inv_park_on h hen.1 hen.2 (.inr rfl) _ fun _ => ⟨rfl, rfl⟩
  | linkUnlocked c t n => exact inv_linkUnlocked h hen.1 hen.2 n
  | barePark c t => exact hcalm.elim
  | wake w c n => exact inv_wake h hcalm
  | create t prio =>
    obtain ⟨qs, hq, hc⟩ := h
    have hoff : ∀ q, t ∉ qs q := fun q => hq.notMem (by rw [hen]; simp) (by rw [hen]; simp)
    have hother : ∀ u, u ≠ t → (m.taskCreate t prio).task u = m.task u := fun u hu =>
      update_of_ne hu _ _
    refine ⟨qs, hq.keep_off rfl hoff fun u hu => ?_, hc.keep fun c' u hr => ?_⟩
    · show ((m.taskCreate t prio).task u).state = (m.task u).state ∧
        ((m.taskCreate t prio).task u).wqNext = (m.task u).wqNext
      rw [hother u hu]
      exact ⟨rfl, rfl⟩
    · have hold : m.Runs c' u := hr
      have hu : u ≠ t := by
        intro heq
        rcases hc.state c' u hold with hs | ⟨hs, _⟩
        · rw [heq, hen] at hs
          simp at hs
        · rw [heq, hen] at hs
          simp at hs
      show m.Runs c' u ∧ ((m.taskCreate t prio).task u).state = (m.task u).state ∧
        ((m.taskCreate t prio).task u).owesPark = (m.task u).owesPark
      rw [hother u hu]
      exact ⟨hold, rfl, rfl⟩

/-- The machine before the first task is created. -/
structure Init (m : Machine) : Prop where
  idle : ∀ c, (m.cpu c).dispatched = false
  empty : ∀ q, m.head q = none

/-- What the scheduler promises: a task on a cpu is not ready and on no second cpu, and is not
picked; the links of every queue form a list without repetition, of blocked or sleeping
tasks, and no task is on two of them. -/
structure Consistent (m : Machine) : Prop where
  notReady : ∀ c t, m.Runs c t → (m.task t).state ≠ .ready
  once : ∀ c c' t, m.Runs c t → m.Runs c' t → c = c'
  notPicked : ∀ c t, m.Runs c t → m.pickNext ≠ some t
  list : ∀ q, ∃ l, m.IsQueue q l ∧ l.Nodup
  waiting : ∀ q l, m.IsQueue q l → ∀ t ∈ l,
    (m.task t).state = .blocked ∨ (m.task t).state = .sleeping
  oneQueue : ∀ q q' l l' t, m.IsQueue q l → m.IsQueue q' l' → t ∈ l → t ∈ l' → q = q'

lemma Init.inv (h : m.Init) : m.Inv := by
  have hruns : ∀ c t, ¬ m.Runs c t := fun c t hr => by
    have hd := hr.1
    rw [h.idle c] at hd
    simp at hd
  exact ⟨fun _ => [], ⟨h.empty, fun _ _ _ ht => absurd ht List.not_mem_nil,
    fun _ _ ht => absurd ht List.not_mem_nil⟩, ⟨fun c t hr => absurd hr (hruns c t),
    fun c _ t hr => absurd hr (hruns c t)⟩⟩

lemma Inv.consistent (h : m.Inv) : m.Consistent := by
  obtain ⟨qs, hq, hc⟩ := h
  have hready : ∀ c t, m.Runs c t → (m.task t).state ≠ .ready := by
    intro c t hr heq
    rcases hc.state c t hr with hs | ⟨hs, _⟩
    · exact absurd (heq.symm.trans hs) (by simp)
    · exact absurd (heq.symm.trans hs) (by simp)
  have huniq : ∀ q l, m.IsQueue q l → l = qs q := fun q l hl => hl.unique (hq.links q)
  refine ⟨hready, hc.once, fun c t hr hp => hready c t hr (pickNext_ready hp),
    fun q => ⟨qs q, hq.links q, (hq.links q).nodup⟩, fun q l hl t ht => ?_,
    fun q q' l l' t hl hl' ht ht' => ?_⟩
  · rw [huniq q l hl] at ht
    exact hq.waiting q t ht
  · rw [huniq q l hl] at ht
    rw [huniq q' l' hl'] at ht'
    exact hq.disjoint q q' t ht ht'

/-- Two cpus in their scheduler loops and an empty task table. -/
def boot : Machine where
  task := fun _ => ⟨.unused, 0, 0, 0, 0, none, none, false, none, false, false⟩
  cpu := fun _ => ⟨none, false, false⟩
  head := fun _ => none
  rqSeq := 0
  jiffies := 0

lemma boot_init : boot.Init := ⟨fun _ => rfl, fun _ => rfl⟩

/-- The task is dead, or its slot has been given back. -/
def Gone (m : Machine) (t : Slot) : Prop :=
  (m.task t).state = .dead ∨ (m.task t).state = .unused

/-- A section leaves the dead where they are, but for a slot that it creates a task in. -/
def Final (m : Machine) (a : LifeAct) (m' : Machine) : Prop :=
  ∀ t, m.Gone t → m'.Gone t ∨ a.creates t

/-- A waker meets no slot that was given back while linked, and no dead task unless it checks;
a task that parks or yields has not been killed while it ran, and a slot that is launched has
not been killed before. -/
def Spares (m : Machine) : LifeAct → Prop
  | .sched (.wake w _ n) => ∀ t ∈ m.onQueue (w.queue n),
      (m.task t).state ≠ .unused ∧ (w.checksDead = true ∨ (m.task t).state ≠ .dead)
  | .sched (.yield _ t) => ¬ m.Gone t
  | .sched (.sleepPark _ t) => ¬ m.Gone t
  | .sched (.park _ t _) => ¬ m.Gone t
  | .sched (.pollPark _ t _) => ¬ m.Gone t
  | .sched (.linkUnlocked _ t _) => ¬ m.Gone t
  | .launch t => ¬ m.Gone t
  | _ => True

lemma Gone.congr (h : m.Gone t) (hs : (m'.task t).state = (m.task t).state) : m'.Gone t := by
  unfold Gone
  rw [hs]
  exact h

variable {a : LifeAct}

lemma final_of_states (h : ∀ u, (m'.task u).state = (m.task u).state) :
    Final m a m' := fun u hu => .inl (hu.congr (h u))

/-- A section that puts one task into a living state. -/
lemma final_iff_of_set (hother : ∀ u, u ≠ t → (m'.task u).state = (m.task u).state)
    (hself : ¬ m'.Gone t) (hcreates : ¬ a.creates t) : Final m a m' ↔ ¬ m.Gone t := by
  constructor
  · intro h hgone
    rcases h t hgone with h' | h'
    · exact hself h'
    · exact hcreates h'
  · intro hlive u hu
    have hut : u ≠ t := fun heq => hlive (heq ▸ hu)
    exact .inl (hu.congr (hother u hut))

/-- A section that takes one task to its end. -/
lemma final_of_end (hother : ∀ u, u ≠ t → (m'.task u).state = (m.task u).state)
    (hself : m'.Gone t) : Final m a m' := by
  intro u hu
  by_cases hut : u = t
  · rw [hut]
    exact .inl hself
  · exact .inl (hu.congr (hother u hut))

lemma final_dispatch (m : Machine) (c : ℕ) : Final m (.sched (.dispatch c)) (m.schedRun c) := by
  intro u hu
  unfold schedRun
  split
  · next t hpick =>
    have hut : u ≠ t := by
      intro heq
      have hready := pickNext_ready hpick
      rw [← heq] at hready
      rcases hu with hs | hs
      · exact absurd (hready.symm.trans hs) (by simp)
      · exact absurd (hready.symm.trans hs) (by simp)
    refine .inl (hu.congr ?_)
    rw [modifyCpu_task, modifyTask_ne _ hut]
  · exact .inl hu

lemma final_tick (m : Machine) (c : ℕ) : Final m (.sched (.tick c)) (m.schedTick c) := by
  intro u hu
  have htk := foldl_ticked (List.finRange MAX_TASKS) m
  unfold schedTick
  generalize (List.finRange MAX_TASKS).foldl tickStep m = m₁ at htk ⊢
  refine .inl (hu.congr ?_)
  rw [((tickQuantum_same m₁ c).1 u).1]
  rcases htk.task u with heq | ⟨hs, _⟩
  · rw [heq]
  · rcases hu with hd | hd
    · exact absurd (hs.symm.trans hd) (by simp)
    · exact absurd (hs.symm.trans hd) (by simp)

lemma final_postIrq (m : Machine) (c : ℕ) :
    Final m (.sched (.postIrq c)) (m.schedPostIrq c) := by
  intro u hu
  unfold schedPostIrq
  split
  · exact .inl hu
  · next t hcur =>
    by_cases hflag : (m.cpu c).needResched = false
    · rw [if_pos hflag]
      exact .inl hu
    rw [if_neg hflag]
    refine .inl (hu.congr ?_)
    rw [schedPark_state]
    split_ifs with hrun
    · have hut : u ≠ t := by
        intro heq
        rw [modifyCpu_task, ← heq] at hrun
        rcases hu with hs | hs
        · exact absurd (hrun.symm.trans hs) (by simp)
        · exact absurd (hrun.symm.trans hs) (by simp)
      rw [requeue_ne hut, modifyCpu_task]
    · rw [modifyCpu_task]

/-- A wake revives exactly the dead tasks it meets without checking, and the slots that were
given back while they were linked. -/
lemma final_wake (m : Machine) (w : Waker) (c n : ℕ) :
    Final m (.sched (.wake w c n)) (m.wake w c (w.queue n)) ↔ m.Spares (.sched (.wake w c n)) := by
  obtain ⟨m', hsw, _, htask, _, _⟩ := wake_swept (m := m) (c := c) (q := w.queue n) w
  have hgone : ∀ u ∈ m.onQueue (w.queue n), m.Gone u → ((m.wake w c (w.queue n)).Gone u ↔
      w.checksDead = true ∧ (m.task u).state = .dead) := by
    intro u hu _
    unfold Gone
    rw [htask, hsw.state u hu]
    unfold woken
    split_ifs with hc
    · simp [hc]
    · simp [hc]
  constructor
  · intro h t ht
    refine ⟨fun hs => ?_, ?_⟩
    · have hg : m.Gone t := .inr hs
      rcases h t hg with h' | h'
      · exact absurd (hs.symm.trans ((hgone t ht hg).mp h').2) (by simp)
      · exact h'
    · by_cases hs : (m.task t).state = .dead
      · have hg : m.Gone t := .inl hs
        rcases h t hg with h' | h'
        · exact .inl ((hgone t ht hg).mp h').1
        · exact h'.elim
      · exact .inr hs
  · intro h u hu
    by_cases hmem : u ∈ m.onQueue (w.queue n)
    · obtain ⟨hunused, hdead⟩ := h u hmem
      have hs : (m.task u).state = .dead := hu.resolve_right hunused
      exact .inl ((hgone u hmem hu).mpr ⟨hdead.resolve_right (not_not.mpr hs), hs⟩)
    · refine .inl (hu.congr ?_)
      rw [htask, hsw.off u hmem]

/-- Which sections leave the dead where they are. -/
lemma final_iff_spares (h : LifeStep m a m') : Final m a m' ↔ m.Spares a := by
  obtain ⟨hen, rfl⟩ := h
  cases a with
  | sched a =>
    cases a with
    | clock => exact iff_of_true (final_of_states fun _ => rfl) trivial
    | dispatch c => exact iff_of_true (final_dispatch m c) trivial
    | tick c => exact iff_of_true (final_tick m c) trivial
    | postIrq c => exact iff_of_true (final_postIrq m c) trivial
    | yield c t =>
      refine final_iff_of_set (fun u hu => ?_) ?_ id
      · exact schedPark_state.trans (congrArg Task.state (requeue_ne hu))
      · unfold Gone life act taskYield
        simp
    | exit c t =>
      refine iff_of_true (final_of_end (t := t) (fun u hu => ?_) ?_) trivial
      · exact schedPark_state.trans (congrArg Task.state (modifyTask_ne _ hu))
      · unfold Gone life act taskExit
        simp
    | sleepArm c t msecs =>
      refine iff_of_true (final_of_states fun u => ?_) trivial
      by_cases hu : u = t
      · unfold life act Machine.sleepArm
        rw [hu, modifyTask_self]
      · exact congrArg Task.state (update_of_ne hu _ _)
    | sleepPark c t =>
      refine final_iff_of_set (fun u hu => ?_) ?_ id
      · exact schedPark_state.trans (congrArg Task.state (modifyTask_ne _ hu))
      · unfold Gone life act Machine.sleepPark
        simp
    | park c t n =>
      refine final_iff_of_set (fun u hu => ?_) ?_ id
      · exact schedPark_state.trans (congrArg Task.state (link_ne _ hu))
      · unfold Gone life act Machine.park
        simp
    | pollPark c t timeoutMs =>
      refine final_iff_of_set (fun u hu => ?_) ?_ id
      · refine schedPark_state.trans ?_
        rw [modifyTask_ne _ hu, link_ne _ hu]
      · unfold Gone life act ipcPollPark
        simp
    | linkUnlocked c t q =>
      cases q with
      | some n =>
        refine final_iff_of_set (fun u hu => ?_) ?_ id
        · show ((m.linkUnlocked t (some n)).task u).state = _
          rw [linkUnlocked, modifyTask_ne _ hu, link_ne _ hu]
        · unfold Gone life act linkUnlocked
          simp
      | none =>
        refine final_iff_of_set (fun u hu => ?_) ?_ id
        · show ((m.linkUnlocked t none).task u).state = _
          rw [linkUnlocked, modifyTask_ne _ hu]
        · unfold Gone life act linkUnlocked
          simp
    | barePark c t =>
      refine iff_of_true (final_of_states fun u => ?_) trivial
      refine schedPark_state.trans ?_
      by_cases hu : u = t
      · rw [hu, modifyTask_self]
      · rw [modifyTask_ne _ hu]
    | wake w c n => exact final_wake m w c n
    | create t prio =>
      refine iff_of_true (fun u hu => ?_) trivial
      by_cases hut : u = t
      · exact .inr hut.symm
      · exact .inl (hu.congr (congrArg Task.state (update_of_ne hut _ _)))
  | createDeferred t prio =>
    refine iff_of_true (fun u hu => ?_) trivial
    by_cases hut : u = t
    · exact .inr hut.symm
    · refine .inl (hu.congr ?_)
      show ((m.taskCreateDeferred t prio).task u).state = _
      rw [taskCreateDeferred, modifyTask_ne _ hut]
      exact congrArg Task.state (update_of_ne hut _ _)
  | attach t p kstack =>
    refine iff_of_true (final_of_states fun u => ?_) trivial
    by_cases hu : u = t
    · unfold life attach
      rw [hu, modifyTask_self]
    · exact congrArg Task.state (update_of_ne hu _ _)
  | launch t =>
    refine final_iff_of_set (fun u hu => ?_) ?_ id
    · show ((m.taskLaunch t).task u).state = _
      rw [taskLaunch, modifyTask_ne _ hu, requeue_ne hu]
    · unfold Gone life taskLaunch
      simp
  | kill p leader =>
    refine iff_of_true (fun u hu => .inl ?_) trivial
    unfold Gone life markDead
    dsimp only
    split_ifs with hk
    · exact .inl rfl
    · exact hu
  | reclaim t =>
    refine iff_of_true (final_of_end (t := t) (fun u hu => ?_) ?_) trivial
    · exact congrArg Task.state (update_of_ne hu _ _)
    · unfold Gone life reclaim
      simp
  | reapSlot t =>
    refine iff_of_true ?_ trivial
    unfold life reapSlot
    dsimp only
    split_ifs with hdead
    · refine final_of_end (t := t) (fun u hu => ?_) ?_
      · exact congrArg Task.state (modifyTask_ne _ hu)
      · unfold Gone
        simp
    · exact final_of_states fun _ => rfl

/-- **Death is final.** A section leaves every dead task dead, or its slot free, until a task
is created in the slot, if and only if it spares the dead; so no dead task comes back in a
run whose sections all do. -/
theorem death_is_final (m : Machine) :
    (∀ a m', LifeStep m a m' → (Final m a m' ↔ m.Spares a)) ∧
    (∀ as m', Run (Guarded Spares LifeStep) m as m' → ∀ t, m.Gone t →
      (∀ a ∈ as, ¬ a.creates t) → m'.Gone t) := by
  refine ⟨fun a m' h => final_iff_spares h, fun as m' h t hgone => ?_⟩
  induction h with
  | nil => exact fun _ => hgone
  | snoc _ hstep ih =>
    intro hcreates
    have hmid := ih fun a ha => hcreates a (List.mem_append_left _ ha)
    rcases (final_iff_spares hstep.2).mpr hstep.1 t hmid with h' | h'
    · exact h'
    · exact absurd h' (hcreates _ (by simp))

/-- A task that has parked on a mutex and been killed there. -/
def killedParked : Machine :=
  (((boot.taskCreate 0 10).schedRun 0).park 0 0 0).markDead 7 (some 0)

lemma killedParked_run : Run LifeStep boot [.sched (.create 0 10), .sched (.dispatch 0),
    .sched (.park 0 0 0), .kill 7 (some 0)] killedParked := by
  have h₁ : LifeStep boot (.sched (.create 0 10)) (boot.taskCreate 0 10) := ⟨rfl, rfl⟩
  have h₂ : LifeStep (boot.taskCreate 0 10) (.sched (.dispatch 0))
      ((boot.taskCreate 0 10).schedRun 0) := ⟨rfl, rfl⟩
  have h₃ : LifeStep ((boot.taskCreate 0 10).schedRun 0) (.sched (.park 0 0 0))
      (((boot.taskCreate 0 10).schedRun 0).park 0 0 0) := by
    refine ⟨⟨⟨?_, ?_⟩, ?_⟩, rfl⟩
    · decide
    · decide
    · decide
  have h₄ : LifeStep (((boot.taskCreate 0 10).schedRun 0).park 0 0 0) (.kill 7 (some 0))
      killedParked := ⟨trivial, rfl⟩
  exact (((Run.nil.snoc h₁).snoc h₂).snoc h₃).snoc h₄

/-- `wake_batch` makes the killed task ready again. -/
theorem death_is_final_wake_batch :
    ∃ as m', Run LifeStep boot as killedParked ∧ (killedParked.task 0).state = .dead ∧
      LifeStep killedParked (.sched (.wake .wakeBatch 1 0)) m' ∧ (m'.task 0).state = .ready := by
  refine ⟨_, _, killedParked_run, ?_, ⟨.inr ?_, rfl⟩, ?_⟩
  · decide
  · rfl
  · decide

/-- The theorem on the checked waker: a wake by `ipc_wake` keeps the killed task dead. -/
theorem death_is_final_ipc_wake : (killedParked.wake .ipcWake 1 (.other 0)).Gone 0 := by
  have hstep : LifeStep killedParked (.sched (.wake .ipcWake 1 0))
      (killedParked.wake .ipcWake 1 (.other 0)) := ⟨.inr rfl, rfl⟩
  have hspares : killedParked.Spares (.sched (.wake .ipcWake 1 0)) := by
    have hon : killedParked.onQueue (Waker.ipcWake.queue 0) = [0] := by decide
    intro t ht
    rw [hon, List.mem_singleton] at ht
    refine ⟨?_, .inl rfl⟩
    rw [ht]
    decide
  have hdead : killedParked.Gone 0 := .inl (by decide)
  rcases ((death_is_final killedParked).1 _ _ hstep).mpr hspares 0 hdead with h | h
  · exact h
  · exact h.elim

end Machine
end Sched
end MobilePhoneOs
