import MobilePhoneOs.Kernel.Sync
import Mathlib.Data.Fintype.Card

/-!
# Mutexes are exclusive, waits are acyclic, and no wakeup is lost

The walk of `would_deadlock` follows the edges of the wait-for graph, so it finds the caller
exactly when waiting would close a cycle. A section either hands a mutex to a task that
waits for nothing, parks a task behind an owner that does not lead back to it, or takes an
edge away; each of them keeps the graph acyclic.
-/

namespace MobilePhoneOs

open Function (update update_self update_of_ne update_eq_self)
namespace Sync

open Sched (Slot TaskState)
open Relation (TransGen ReflTransGen)
open Sys (init)

/-- The mutex that a parked call waits for. -/
def Call.mutex? : Call → Option MutexId
  | .lock m => some m
  | .wait _ => none

/-- `lock_wait` is the mutex of the call in progress. -/
def Intent (s : Sys) : Prop := ∀ t, (s.locks.task t).lockWait = (s.call t).bind Call.mutex?

variable {s : Sys} {t : Slot}

lemma Intent.lock (h : Intent s) {m : MutexId} :
    (s.locks.task t).lockWait = some m ↔ s.call t = some (.lock m) := by
  rw [h t]
  cases s.call t with
  | none => simp
  | some c => cases c <;> simp [Call.mutex?]

/-! ## The deadlock detector -/

section Walk

variable {s : Sys} {me cur next : Slot} {m : MutexId} {visited : List Slot} {seen : List MutexId}

/-- An owner waits for one mutex at most. -/
lemma waits_unique {a b c : Slot} (hb : s.Waits a b) (hc : s.Waits a c) : b = c := by
  obtain ⟨m, hm, hb⟩ := hb
  obtain ⟨m', hm', hc⟩ := hc
  obtain rfl : m = m' := by simpa [hm] using hm'
  exact Option.some.inj (hb.symm.trans hc)

/-- What the walk has behind it when it stands at the owner `cur`: owners that lead to `cur`,
and mutexes whose owners do. -/
structure Trail (s : Sys) (visited : List Slot) (seen : List MutexId) (cur : Slot) : Prop where
  nodup : visited.Nodup
  leads : ∀ v ∈ visited, TransGen s.Waits v cur
  seen : ∀ x ∈ seen, ∃ o, (s.locks.mutex x).owner = some o ∧ ReflTransGen s.Waits o cur

lemma Trail.start : Trail s [] [] cur := ⟨List.nodup_nil, by simp, by simp⟩

section

variable (h : Trail s visited seen cur) (hac : Acyclic s.Waits)
include h hac

lemma Trail.not_mem : cur ∉ visited :=
  fun hcur => hac cur (h.leads cur hcur)

/-- A mutex seen before would close a cycle of owners. -/
lemma Trail.fresh (hcall : s.call cur = some (.lock m)) : m ∉ seen := by
  intro hm
  obtain ⟨o, howner, hpath⟩ := h.seen m hm
  have hedge : s.Waits cur o := ⟨m, hcall, howner⟩
  exact hac cur (TransGen.head' hedge hpath)

lemma Trail.hop
    (hcall : s.call cur = some (.lock m)) (howner : (s.locks.mutex m).owner = some next) :
    Trail s (cur :: visited) (m :: seen) next := by
  have hedge : s.Waits cur next := ⟨m, hcall, howner⟩
  constructor
  · exact List.nodup_cons.mpr ⟨h.not_mem hac, h.nodup⟩
  · intro v hv
    rcases List.mem_cons.mp hv with rfl | hv
    · exact .single hedge
    · exact (h.leads v hv).tail hedge
  · intro x hx
    rcases List.mem_cons.mp hx with rfl | hx
    · exact ⟨next, howner, .refl⟩
    · obtain ⟨o, ho, hpath⟩ := h.seen x hx
      exact ⟨o, ho, hpath.tail hedge⟩

/-- There are no more owners than tasks. -/
lemma Trail.length_lt :
    visited.length < Sched.MAX_TASKS := by
  have hnodup : (cur :: visited).Nodup := List.nodup_cons.mpr ⟨h.not_mem hac, h.nodup⟩
  have hcard := hnodup.length_le_card
  rwa [Fintype.card_fin] at hcard

end

/-- What the walk answers from the owner `cur` on. -/
def Found (s : Sys) (me cur : Slot) (v : Verdict) : Prop :=
  (v = .closes ∧ ReflTransGen s.Waits cur me) ∨
    ((v = .vanished ∨ v = .outside) ∧ ¬ ReflTransGen s.Waits cur me)

/-- A path from an owner that is not the caller starts with its only edge. -/
lemma found_hop (hne : cur ≠ me) (hedge : s.Waits cur next) {v : Verdict}
    (h : Found s me next v) : Found s me cur v := by
  have hiff : ReflTransGen s.Waits cur me ↔ ReflTransGen s.Waits next me := by
    constructor
    · intro hpath
      rcases ReflTransGen.cases_head hpath with heq | ⟨b, hb, hrest⟩
      · exact absurd heq hne
      · rwa [waits_unique hedge hb]
    · exact ReflTransGen.head hedge
  unfold Found
  rwa [hiff]

/-- An owner without edges does not lead to the caller. -/
lemma not_leads (hne : cur ≠ me) (hsink : ∀ b, ¬ s.Waits cur b) : ¬ ReflTransGen s.Waits cur me := by
  intro hpath
  rcases ReflTransGen.cases_head hpath with heq | ⟨b, hb, _⟩
  · exact hne heq
  · exact hsink b hb

section

variable (hint : Intent s) (hac : Acyclic s.Waits)
include hint hac

/-- A trail longer than the number of tasks would meet an owner twice. -/
lemma walk_found (budget : ℕ)
    (howner : (s.locks.mutex m).owner = some cur) (htrail : Trail s visited seen cur)
    (hbudget : Sched.MAX_TASKS ≤ visited.length + budget) :
    Found s me cur (walk s.locks me budget seen m) := by
  induction budget generalizing m cur visited seen with
  | zero => exact absurd (htrail.length_lt hac) (by omega)
  | succ budget ih =>
    rw [walk]
    simp only [howner]
    split_ifs with hme
    · exact .inl ⟨rfl, hme ▸ .refl⟩
    · cases hnext : (s.locks.task cur).lockWait with
      | none =>
        refine .inr ⟨.inr rfl, not_leads hme ?_⟩
        rintro b ⟨x, hx, _⟩
        rw [hint.lock.mpr hx] at hnext
        cases hnext
      | some x =>
        have hcall := hint.lock.mp hnext
        simp only [if_neg (htrail.fresh hac hcall)]
        cases hx : (s.locks.mutex x).owner with
        | none =>
          have hwalk : walk s.locks me budget (x :: seen) x = .vanished := by
            unfold walk
            simp only [hx]
          rw [hwalk]
          refine .inr ⟨.inl rfl, not_leads hme ?_⟩
          rintro b ⟨y, hy, hb⟩
          obtain rfl : x = y := by simpa [hcall] using hy
          rw [hx] at hb
          cases hb
        | some next =>
          refine found_hop hme ⟨x, hcall, hx⟩ (ih hx (htrail.hop hac hcall hx) ?_)
          rw [List.length_cons]
          omega

/-- The walk from a mutex with an owner never ends at a repetition or at its bound. -/
lemma walk_owned (howner : (s.locks.mutex m).owner = some cur) :
    Found s me cur (walk s.locks me DEADLK_VISIT_MAX [] m) :=
  walk_found hint hac _ howner .start (by decide)

lemma wouldDeadlock_iff (howner : (s.locks.mutex m).owner = some cur) :
    wouldDeadlock s.locks me m = true ↔ ReflTransGen s.Waits cur me := by
  have hfound : Found s me cur (walk s.locks me DEADLK_VISIT_MAX [] m) :=
    walk_owned hint hac howner
  unfold wouldDeadlock
  rcases hfound with ⟨hv, hpath⟩ | ⟨hv | hv, hpath⟩
  · simp [hv, hpath]
  · simp [hv, hpath]
  · simp [hv, hpath]

end

end Walk

/-! ## What one step does -/

section Projections

variable (k : Locks) (m : MutexId) (i : SemId) (t : Slot)

@[simp] lemma setMutex_mutex (f : Kmutex → Kmutex) :
    (k.setMutex m f).mutex = update k.mutex m (f (k.mutex m)) := rfl
@[simp] lemma setMutex_sem (f : Kmutex → Kmutex) : (k.setMutex m f).sem = k.sem := rfl
@[simp] lemma setSem_sem (f : Ksem → Ksem) :
    (k.setSem i f).sem = update k.sem i (f (k.sem i)) := rfl
@[simp] lemma setTask_mutex (f : Task → Task) : (k.setTask t f).mutex = k.mutex := rfl
@[simp] lemma setTask_sem (f : Task → Task) : (k.setTask t f).sem = k.sem := rfl
@[simp] lemma setTask_task (f : Task → Task) :
    (k.setTask t f).task = update k.task t (f (k.task t)) := rfl
@[simp] lemma setStats_mutex (f : Stats → Stats) : (k.setStats f).mutex = k.mutex := rfl
@[simp] lemma setStats_sem (f : Stats → Stats) : (k.setStats f).sem = k.sem := rfl
@[simp] lemma setStats_task (f : Stats → Stats) : (k.setStats f).task = k.task := rfl
@[simp] lemma wakeBatch_mutex (wq : List Slot) : (wakeBatch k wq).mutex = k.mutex := rfl
@[simp] lemma wakeBatch_sem (wq : List Slot) : (wakeBatch k wq).sem = k.sem := rfl

end Projections

/-- A batch wakes the tasks of the queue and nothing else. -/
lemma wakeLoop_apply (wq : List Slot) (task : Slot → Task) (u : Slot) :
    wakeLoop wq task u = if u ∈ wq then { task u with state := .ready } else task u := by
  induction wq generalizing task with
  | nil => simp [wakeLoop]
  | cons t wq ih =>
    rw [wakeLoop, ih]
    by_cases hu : u = t
    · subst hu
      simp
    · simp [hu]

/-- The part of the state that decides who waits for whom. -/
structure View where
  mutex : MutexId → Kmutex
  sem : SemId → Ksem
  call : Slot → Option Call
  asleep : Slot → Bool

namespace View

/-- As `Sys.Waits`. -/
def Waits (v : View) (a b : Slot) : Prop :=
  ∃ m, v.call a = some (.lock m) ∧ (v.mutex m).owner = some b

/-- As `Sys.queue`. -/
def queue (v : View) : Call → List Slot
  | .lock m => (v.mutex m).wq
  | .wait i => (v.sem i).wq

/-- The task may run the section of this call. -/
def Acts (v : View) (t : Slot) (c : Call) : Prop :=
  v.asleep t = false ∧ (v.call t = none ∨ v.call t = some c)

/-- The moves of the wait-for graph and of the counts. -/
inductive Moves (v : View) : View → Prop
  | still : Moves v v
  | acquire {t m} (hacts : v.Acts t (.lock m)) (hfree : (v.mutex m).owner = none) :
      Moves v { v with
        mutex := update v.mutex m { v.mutex m with owner := some t }
        call := update v.call t none }
  | refuse {t m} (hacts : v.Acts t (.lock m)) :
      Moves v { v with call := update v.call t none }
  | release {t m} (howner : (v.mutex m).owner = some t) :
      Moves v { v with
        mutex := update v.mutex m { owner := none, wq := [] }
        asleep := fun u => v.asleep u && decide (u ∉ (v.mutex m).wq) }
  | block {t m o} (hacts : v.Acts t (.lock m)) (howner : (v.mutex m).owner = some o)
      (hpath : ¬ ReflTransGen v.Waits o t) :
      Moves v { v with
        mutex := update v.mutex m { v.mutex m with wq := t :: (v.mutex m).wq }
        call := update v.call t (some (.lock m))
        asleep := update v.asleep t true }
  | take {t i} (hacts : v.Acts t (.wait i)) (hpos : 0 < (v.sem i).count) :
      Moves v { v with
        sem := update v.sem i { v.sem i with count := (v.sem i).count - 1 }
        call := update v.call t none }
  | drained {t i} (hacts : v.Acts t (.wait i)) (hzero : (v.sem i).count ≤ 0) :
      Moves v { v with
        sem := update v.sem i { v.sem i with wq := t :: (v.sem i).wq }
        call := update v.call t (some (.wait i))
        asleep := update v.asleep t true }
  | post {i} :
      Moves v { v with
        sem := update v.sem i
          { v.sem i with
            count := if (v.sem i).count < (v.sem i).max then (v.sem i).count + 1
              else (v.sem i).count
            wq := [] }
        asleep := fun u => v.asleep u && decide (u ∉ (v.sem i).wq) }

end View

/-- What the view shows of a state. -/
def Sys.view (s : Sys) : View where
  mutex := s.locks.mutex
  sem := s.locks.sem
  call := s.call
  asleep := fun t => decide ((s.locks.task t).state = .blocked)

/-- A running task sleeps in no call. -/
lemma running_acts {c : Call} (hrun : (s.locks.task t).state = .running)
    (hcall : s.call t = none ∨ s.call t = some c) : s.view.Acts t c := by
  refine ⟨?_, hcall⟩
  show decide _ = false
  rw [hrun]
  rfl

/-- The view after a batch. -/
lemma wakeLoop_asleep (wq : List Slot) (task : Slot → Task) :
    (fun u => decide ((wakeLoop wq task u).state = .blocked))
      = fun u => decide ((task u).state = .blocked) && decide (u ∉ wq) := by
  funext u
  rw [wakeLoop_apply]
  by_cases hu : u ∈ wq
  · simp [hu]
  · simp [hu]

/-- A change of one task that keeps it awake shows nothing. -/
lemma update_asleep {task : Slot → Task} {x : Task} (h : (task t).state ≠ .blocked)
    (hx : x.state ≠ .blocked) :
    (fun u => decide ((update task t x u).state = .blocked))
      = fun u => decide ((task u).state = .blocked) := by
  funext u
  by_cases hu : u = t
  · subst hu
    simp [h, hx]
  · simp [hu]

/-- A task that parks is asleep. -/
lemma update_blocked {task : Slot → Task} {x : Task} (hx : x.state = .blocked) :
    (fun u => decide ((update task t x u).state = .blocked))
      = update (fun u => decide ((task u).state = .blocked)) t true := by
  funext u
  by_cases hu : u = t
  · subst hu
    simp [hx]
  · simp [hu]

/-- A task without a call in progress leaves none. -/
lemma call_eq_update (h : s.call t = none) :
    s.call = update s.call t none := by
  rw [← h, update_eq_self]

variable {s' : Sys}

/-- A move to what the view of `s'` is, field by field. -/
lemma moves_to {v : View} (h : View.Moves s.view v) (hm : s'.locks.mutex = v.mutex)
    (hs : s'.locks.sem = v.sem) (hc : s'.call = v.call)
    (ha : (fun t => decide ((s'.locks.task t).state = .blocked)) = v.asleep) :
    View.Moves s.view s'.view := by
  unfold Sys.view at h ⊢
  rwa [hm, hs, hc, ha]

open View in
/-- Every section is a move of the view. -/
lemma step_moves {e : Event} (hint : Intent s) (hac : Acyclic s.Waits)
    (h : Step s e s') : Moves s.view s'.view := by
  have hawake {t : Slot} (hrun : (s.locks.task t).state = .running) :
      (s.locks.task t).state ≠ .blocked := by simp [hrun]
  cases e with
  | tryLock t m out =>
    obtain ⟨hrun, hcall, hout, hc⟩ := h
    unfold kmutexTry at hout
    split_ifs at hout with hbusy
    · obtain ⟨hl, -⟩ := Prod.mk.inj hout
      exact moves_to .still (by rw [hl]; rfl) (by rw [hl]; rfl) hc (by rw [hl]; rfl)
    · obtain ⟨hl, -⟩ := Prod.mk.inj hout
      have hmove := Moves.acquire (running_acts hrun (.inl hcall)) (not_not.mp hbusy)
      refine moves_to hmove ?_ ?_ ?_ ?_
      · rw [hl]; rfl
      · rw [hl]; rfl
      · rw [hc]; exact call_eq_update hcall
      · rw [hl]; rfl
  | lock t m out =>
    obtain ⟨hrun, hcall, hout, hc⟩ := h
    have hacts := running_acts hrun hcall
    unfold lockSection at hout
    split_ifs at hout with hfree hdead
    · obtain ⟨hl, rfl⟩ := Prod.mk.inj hout
      refine moves_to (Moves.acquire hacts hfree) ?_ ?_ ?_ ?_
      · rw [hl]; rfl
      · rw [hl]; rfl
      · rw [hc]; rfl
      · rw [hl]; exact update_asleep (hawake hrun) (hawake hrun)
    · obtain ⟨hl, rfl⟩ := Prod.mk.inj hout
      refine moves_to (Moves.refuse hacts) ?_ ?_ ?_ ?_
      · rw [hl]; rfl
      · rw [hl]; rfl
      · rw [hc]; rfl
      · rw [hl]; exact update_asleep (hawake hrun) (hawake hrun)
    · obtain ⟨hl, rfl⟩ := Prod.mk.inj hout
      obtain ⟨o, howner⟩ := Option.ne_none_iff_exists'.mp hfree
      have hpath : ¬ ReflTransGen s.Waits o t := by
        rwa [← wouldDeadlock_iff hint hac howner]
      refine moves_to (Moves.block hacts howner hpath) ?_ ?_ ?_ ?_
      · rw [hl]; rfl
      · rw [hl]; rfl
      · rw [hc]; rfl
      · rw [hl]; exact update_blocked rfl
  | unlock t m out =>
    obtain ⟨hrun, hcall, hout, hc⟩ := h
    unfold kmutexUnlock at hout
    split_ifs at hout with howner
    · obtain ⟨hl, -⟩ := Prod.mk.inj hout
      exact moves_to .still (by rw [hl]; rfl) (by rw [hl]; rfl) hc (by rw [hl]; rfl)
    · obtain ⟨hl, -⟩ := Prod.mk.inj hout
      refine moves_to (Moves.release (not_not.mp howner)) ?_ ?_ ?_ ?_
      · rw [hl]; rfl
      · rw [hl]; rfl
      · rw [hc]; rfl
      · rw [hl]; exact wakeLoop_asleep _ _
  | wait t i out =>
    obtain ⟨hrun, hcall, hout, hc⟩ := h
    have hacts := running_acts hrun hcall
    unfold waitSection at hout
    split_ifs at hout with hpos
    · obtain ⟨hl, rfl⟩ := Prod.mk.inj hout
      refine moves_to (Moves.take hacts hpos) ?_ ?_ ?_ ?_
      · rw [hl]; rfl
      · rw [hl]; rfl
      · rw [hc]; rfl
      · rw [hl]; rfl
    · obtain ⟨hl, rfl⟩ := Prod.mk.inj hout
      refine moves_to (Moves.drained hacts (not_lt.mp hpos)) ?_ ?_ ?_ ?_
      · rw [hl]; rfl
      · rw [hl]; rfl
      · rw [hc]; rfl
      · rw [hl]; exact update_blocked rfl
  | trywait t i out =>
    obtain ⟨hrun, hcall, hout, hc⟩ := h
    unfold ksemTrywait at hout
    split_ifs at hout with hzero
    · obtain ⟨hl, -⟩ := Prod.mk.inj hout
      exact moves_to .still (by rw [hl]; rfl) (by rw [hl]; rfl) hc (by rw [hl]; rfl)
    · obtain ⟨hl, -⟩ := Prod.mk.inj hout
      refine moves_to (Moves.take (running_acts hrun (.inl hcall)) (not_le.mp hzero)) ?_ ?_ ?_ ?_
      · rw [hl]; rfl
      · rw [hl]; rfl
      · rw [hc]; exact call_eq_update hcall
      · rw [hl]; rfl
  | post i full =>
    obtain ⟨-, hl, hc⟩ := h
    refine moves_to (Moves.post (i := i)) ?_ ?_ ?_ ?_
    · rw [hl]; rfl
    · rw [hl]; rfl
    · rw [hc]; rfl
    · rw [hl]; exact wakeLoop_asleep _ _
  | dispatch t =>
    obtain ⟨hready, hl, hc⟩ := h
    exact moves_to .still (by rw [hl]; rfl) (by rw [hl]; rfl) hc
      (by rw [hl]; exact update_asleep (by simp [hready]) (by simp))
  | preempt t =>
    obtain ⟨hrun, hl, hc⟩ := h
    exact moves_to .still (by rw [hl]; rfl) (by rw [hl]; rfl) hc
      (by rw [hl]; exact update_asleep (hawake hrun) (by simp))

/-! ## The invariants of a run -/

/-- The intents after one task and its call changed together. -/
lemma intent_update (hint : Intent s) {x : Task} {c : Option Call}
    (hx : x.lockWait = c.bind Call.mutex?) (u : Slot) :
    (update s.locks.task t x u).lockWait
      = (update s.call t c u).bind Call.mutex? := by
  by_cases hu : u = t
  · subst hu
    simpa using hx
  · simpa [hu] using hint u

/-- A batch leaves the intents alone. -/
lemma wakeLoop_lockWait (wq : List Slot) (task : Slot → Task) (u : Slot) :
    (wakeLoop wq task u).lockWait = (task u).lockWait := by
  rw [wakeLoop_apply]
  split_ifs
  · rfl
  · rfl

lemma step_intent {e : Event} (hint : Intent s) (h : Step s e s') : Intent s' := by
  intro u
  cases e with
  | tryLock t m out =>
    obtain ⟨hrun, hcall, hout, hc⟩ := h
    unfold kmutexTry at hout
    rw [hc]
    split_ifs at hout with hbusy
    · rw [(Prod.mk.inj hout).1]
      exact hint u
    · rw [(Prod.mk.inj hout).1]
      exact hint u
  | lock t m out =>
    obtain ⟨hrun, hcall, hout, hc⟩ := h
    unfold lockSection at hout
    rw [hc]
    split_ifs at hout with hfree hdead
    · obtain ⟨hl, rfl⟩ := Prod.mk.inj hout
      rw [hl]
      exact intent_update hint rfl u
    · obtain ⟨hl, rfl⟩ := Prod.mk.inj hout
      rw [hl]
      exact intent_update hint rfl u
    · obtain ⟨hl, rfl⟩ := Prod.mk.inj hout
      rw [hl]
      exact intent_update hint rfl u
  | unlock t m out =>
    obtain ⟨hrun, hcall, hout, hc⟩ := h
    unfold kmutexUnlock at hout
    rw [hc]
    split_ifs at hout with howner
    · rw [(Prod.mk.inj hout).1]
      exact hint u
    · rw [(Prod.mk.inj hout).1]
      exact (wakeLoop_lockWait _ _ u).trans (hint u)
  | wait t i out =>
    obtain ⟨hrun, hcall, hout, hc⟩ := h
    -- a task that waits on a semaphore has published no intent
    have hnone : (s.locks.task t).lockWait = none := by
      rw [hint t]
      rcases hcall with hcall | hcall
      · rw [hcall]; rfl
      · rw [hcall]; rfl
    unfold waitSection at hout
    rw [hc]
    split_ifs at hout with hpos
    · obtain ⟨hl, rfl⟩ := Prod.mk.inj hout
      rw [hl]
      have hself : s.locks.task = update s.locks.task t (s.locks.task t) := by simp
      show (s.locks.task u).lockWait = _
      rw [hself]
      exact intent_update hint hnone u
    · obtain ⟨hl, rfl⟩ := Prod.mk.inj hout
      rw [hl]
      exact intent_update hint hnone u
  | trywait t i out =>
    obtain ⟨hrun, hcall, hout, hc⟩ := h
    unfold ksemTrywait at hout
    rw [hc]
    split_ifs at hout with hzero
    · rw [(Prod.mk.inj hout).1]
      exact hint u
    · rw [(Prod.mk.inj hout).1]
      exact hint u
  | post i full =>
    obtain ⟨-, hl, hc⟩ := h
    rw [hl, hc]
    exact (wakeLoop_lockWait _ _ u).trans (hint u)
  | dispatch t =>
    obtain ⟨hready, hl, hc⟩ := h
    have hself : s.call = update s.call t (s.call t) := by simp
    rw [hl, hc, hself]
    exact intent_update (x := { s.locks.task t with state := .running }) hint (hint t) u
  | preempt t =>
    obtain ⟨hrun, hl, hc⟩ := h
    have hself : s.call = update s.call t (s.call t) := by simp
    rw [hl, hc, hself]
    exact intent_update (x := { s.locks.task t with state := .ready }) hint (hint t) u

namespace View

/-- Each queue holds the sleepers of its call. -/
def Queued (v : View) : Prop := ∀ c t, t ∈ v.queue c ↔ v.call t = some c ∧ v.asleep t = true

/-- A mutex that somebody sleeps on has an owner, a semaphore that somebody sleeps on has no
permit, and the counts stay in their range. -/
structure Held (v : View) : Prop where
  owned : ∀ m t, t ∈ (v.mutex m).wq → (v.mutex m).owner ≠ none
  empty : ∀ i t, t ∈ (v.sem i).wq → (v.sem i).count = 0
  bounds : ∀ i, 0 ≤ (v.sem i).count ∧ (v.sem i).count ≤ (v.sem i).max

variable {v w : View}

/-- Fewer calls that wait and fewer owners leave the graph acyclic. -/
lemma acyclic_of_le (h : Acyclic v.Waits)
    (hcall : ∀ a m, w.call a = some (.lock m) → v.call a = some (.lock m))
    (howner : ∀ m b, (w.mutex m).owner = some b → (v.mutex m).owner = some b) :
    Acyclic w.Waits := by
  apply h.mono
  rintro a b ⟨m, ha, hb⟩
  exact ⟨m, hcall a m ha, howner m b hb⟩

/-- A call that ends, or that waits for no mutex, adds no edge. -/
lemma call_update {a : Slot} {m : MutexId} {c : Option Call} (hc : ∀ m, c ≠ some (.lock m))
    (h : update v.call t c a = some (.lock m)) : v.call a = some (.lock m) := by
  by_cases ha : a = t
  · subst ha
    rw [update_self] at h
    exact absurd h (hc m)
  · rwa [update_of_ne ha] at h

/-- A task that gets a mutex waits for nothing, so the new edges end in it. -/
lemma Moves.acyclic (hinv : Acyclic v.Waits) (h : Moves v w) : Acyclic w.Waits := by
  cases h with
  | still => exact hinv
  | @acquire t m hacts hfree =>
    apply hinv.sink (t := t)
    · rintro b ⟨x, hx, _⟩
      simp at hx
    · rintro a b ⟨x, hx, hb⟩ hbt
      have hxm : x ≠ m := by
        rintro rfl
        simp only [update_self, Option.some.injEq] at hb
        exact hbt hb.symm
      simp only [update_of_ne hxm] at hb
      exact ⟨x, call_update (by simp) hx, hb⟩
  | refuse => exact acyclic_of_le hinv (fun _ _ => call_update (by simp)) fun _ _ hb => hb
  | @release t m howner =>
    refine acyclic_of_le hinv (fun _ _ hx => hx) ?_
    intro x b hb
    have hxm : x ≠ m := by
      rintro rfl
      simp at hb
    simpa only [update_of_ne hxm] using hb
  | @block t m o hacts howner hpath =>
    -- the only new edge is the one from the task to the owner
    apply ((acyclic_addEdge hinv).mpr hpath).mono
    rintro a b ⟨x, hx, hb⟩
    have hkept : (v.mutex x).owner = some b := by
      by_cases hxm : x = m
      · subst hxm
        simpa using hb
      · simpa [hxm] using hb
    by_cases ha : a = t
    · subst ha
      obtain rfl : m = x := by simpa using hx
      exact .inr ⟨rfl, Option.some.inj (hkept.symm.trans howner)⟩
    · simp only [update_of_ne ha] at hx
      exact .inl ⟨x, hx, hkept⟩
  | take => exact acyclic_of_le hinv (fun _ _ => call_update (by simp)) fun _ _ hb => hb
  | drained => exact acyclic_of_le hinv (fun _ _ => call_update (by simp)) fun _ _ hb => hb
  | post => exact hinv

lemma queue_of_mutex {m : MutexId} {x : Kmutex} (hm : w.mutex = update v.mutex m x)
    (hs : w.sem = v.sem) : w.queue = update v.queue (.lock m) x.wq := by
  funext c
  cases c with
  | lock m' =>
    show (w.mutex m').wq = _
    rw [hm]
    by_cases hmm : m' = m
    · subst hmm
      simp
    · simp [hmm, queue]
  | wait i =>
    show (w.sem i).wq = _
    rw [hs]
    simp [queue]

lemma queue_of_sem {i : SemId} {x : Ksem} (hm : w.mutex = v.mutex)
    (hs : w.sem = update v.sem i x) :
    w.queue = update v.queue (.wait i) x.wq := by
  funext c
  cases c with
  | lock m =>
    show (w.mutex m).wq = _
    rw [hm]
    simp [queue]
  | wait i' =>
    show (w.sem i').wq = _
    rw [hs]
    by_cases hii : i' = i
    · subst hii
      simp
    · simp [hii, queue]

/-- A task that is awake is in no queue, whatever becomes of its call. -/
lemma queued_awake (h : Queued v) (hawake : v.asleep t = false)
    (hq : w.queue = v.queue) (hc : w.call = update v.call t none)
    (ha : w.asleep = v.asleep) : Queued w := by
  intro c u
  rw [hq, hc, ha, h c u]
  by_cases hu : u = t
  · subst hu
    simp [hawake]
  · rw [update_of_ne hu]

/-- The batch empties one queue and wakes its tasks. -/
lemma queued_wake (h : Queued v) {c : Call} (hq : w.queue = update v.queue c [])
    (hc : w.call = v.call) (ha : w.asleep = fun u => v.asleep u && decide (u ∉ v.queue c)) :
    Queued w := by
  intro c' u
  rw [hq, hc, ha]
  by_cases hcc : c' = c
  · subst hcc
    have hiff := h c' u
    simp only [update_self, List.not_mem_nil, false_iff]
    rintro ⟨hcall, hasleep⟩
    simp only [Bool.and_eq_true, decide_eq_true_eq] at hasleep
    exact hasleep.2 (hiff.mpr ⟨hcall, hasleep.1⟩)
  · rw [update_of_ne hcc, h c' u]
    constructor
    · rintro ⟨hcall, hasleep⟩
      -- a task of the other queue sleeps in another call
      have hother : u ∉ v.queue c := by
        intro hu
        have hcall' := ((h c u).mp hu).1
        exact hcc (Option.some.inj (hcall.symm.trans hcall'))
      exact ⟨hcall, by simp [hasleep, hother]⟩
    · rintro ⟨hcall, hasleep⟩
      simp only [Bool.and_eq_true] at hasleep
      exact ⟨hcall, hasleep.1⟩

/-- A park puts a task that was awake into one queue. -/
lemma queued_park (h : Queued v) {c : Call} (hawake : v.asleep t = false)
    (hq : w.queue = update v.queue c (t :: v.queue c))
    (hc : w.call = update v.call t (some c))
    (ha : w.asleep = update v.asleep t true) : Queued w := by
  intro c' u
  rw [hq, hc, ha]
  by_cases hu : u = t
  · subst hu
    by_cases hcc : c' = c
    · subst hcc
      simp
    · rw [update_of_ne hcc, h c' u]
      simp [hawake, Ne.symm hcc]
  · rw [update_of_ne hu, update_of_ne hu, ← h c' u]
    by_cases hcc : c' = c
    · subst hcc
      simp [hu]
    · rw [update_of_ne hcc]

lemma Moves.queued (hinv : Queued v) (h : Moves v w) : Queued w := by
  cases h with
  | still => exact hinv
  | @acquire t m hacts hfree =>
    refine queued_awake hinv hacts.1 (Eq.trans ?_ (update_eq_self (.lock m) v.queue)) rfl rfl
    exact queue_of_mutex (x := { v.mutex m with owner := some t }) rfl rfl
  | refuse hacts => exact queued_awake hinv hacts.1 rfl rfl rfl
  | @release t m howner =>
    refine queued_wake (c := .lock m) hinv ?_ rfl rfl
    exact queue_of_mutex (x := { owner := none, wq := [] }) rfl rfl
  | @block t m o hacts howner hpath =>
    refine queued_park hinv hacts.1 ?_ rfl rfl
    exact queue_of_mutex (x := { v.mutex m with wq := t :: (v.mutex m).wq }) rfl rfl
  | @take t i hacts hpos =>
    refine queued_awake hinv hacts.1 (Eq.trans ?_ (update_eq_self (.wait i) v.queue)) rfl rfl
    exact queue_of_sem (x := { v.sem i with count := (v.sem i).count - 1 }) rfl rfl
  | @drained t i hacts hzero =>
    refine queued_park hinv hacts.1 ?_ rfl rfl
    exact queue_of_sem (x := { v.sem i with wq := t :: (v.sem i).wq }) rfl rfl
  | @post i =>
    refine queued_wake (c := .wait i) hinv ?_ rfl rfl
    exact queue_of_sem (x := { count := _, max := _, wq := [] }) rfl rfl

/-- One mutex is replaced by one that keeps the rule. -/
lemma held_mutex (h : Held v) {m : MutexId} {x : Kmutex} (hx : ∀ t, t ∈ x.wq → x.owner ≠ none)
    (hm : w.mutex = update v.mutex m x) (hs : w.sem = v.sem) : Held w := by
  constructor
  · intro m' t ht
    rw [hm] at ht ⊢
    by_cases hmm : m' = m
    · subst hmm
      simp only [update_self] at ht ⊢
      exact hx t ht
    · simp only [update_of_ne hmm] at ht ⊢
      exact h.owned m' t ht
  · rw [hs]
    exact h.empty
  · rw [hs]
    exact h.bounds

/-- One semaphore is replaced by one that keeps the rules. -/
lemma held_sem (h : Held v) {i : SemId} {x : Ksem} (hx : ∀ t, t ∈ x.wq → x.count = 0)
    (hb : 0 ≤ x.count ∧ x.count ≤ x.max) (hm : w.mutex = v.mutex)
    (hs : w.sem = update v.sem i x) : Held w := by
  constructor
  · rw [hm]
    exact h.owned
  · intro i' t ht
    rw [hs] at ht ⊢
    by_cases hii : i' = i
    · subst hii
      simp only [update_self] at ht ⊢
      exact hx t ht
    · simp only [update_of_ne hii] at ht ⊢
      exact h.empty i' t ht
  · intro i'
    rw [hs]
    by_cases hii : i' = i
    · subst hii
      simpa only [update_self] using hb
    · simpa only [update_of_ne hii] using h.bounds i'

/-- A mutex is freed, and a permit posted, with the whole queue woken. -/
lemma Moves.held (hinv : Held v) (h : Moves v w) : Held w := by
  cases h with
  | still => exact hinv
  | @acquire t m hacts hfree =>
    refine held_mutex hinv ?_ rfl rfl
    intro u hu
    simp
  | refuse => exact ⟨hinv.owned, hinv.empty, hinv.bounds⟩
  | @release t m howner =>
    refine held_mutex hinv ?_ rfl rfl
    intro u hu
    simp at hu
  | @block t m o hacts howner hpath =>
    refine held_mutex hinv ?_ rfl rfl
    intro u hu
    simp [howner]
  | @take t i hacts hpos =>
    have hb := hinv.bounds i
    refine held_sem hinv ?_ ⟨?_, ?_⟩ rfl rfl
    · intro u hu
      have hzero := hinv.empty i u hu
      omega
    · show 0 ≤ (v.sem i).count - 1
      omega
    · show (v.sem i).count - 1 ≤ (v.sem i).max
      omega
  | @drained t i hacts hzero =>
    have hb := hinv.bounds i
    refine held_sem (x := { v.sem i with wq := t :: (v.sem i).wq }) hinv ?_ hb rfl rfl
    intro u hu
    show (v.sem i).count = 0
    omega
  | @post i =>
    have hb := hinv.bounds i
    refine held_sem hinv ?_ ⟨?_, ?_⟩ rfl rfl
    · intro u hu
      simp at hu
    · show 0 ≤ if (v.sem i).count < (v.sem i).max then (v.sem i).count + 1 else (v.sem i).count
      split_ifs <;> omega
    · show (if (v.sem i).count < (v.sem i).max then (v.sem i).count + 1 else (v.sem i).count)
        ≤ (v.sem i).max
      split_ifs <;> omega

end View

/-- Everything that holds between two sections. -/
structure Inv (s : Sys) : Prop where
  intent : Intent s
  acyclic : Acyclic s.Waits
  queued : s.view.Queued
  held : s.view.Held

lemma step_inv {e : Event} (hinv : Inv s) (h : Step s e s') : Inv s' := by
  have hmoves := step_moves hinv.intent hinv.acyclic h
  constructor
  · exact step_intent hinv.intent h
  · exact View.Moves.acyclic (v := s.view) hinv.acyclic hmoves
  · exact hmoves.queued hinv.queued
  · exact hmoves.held hinv.held

section Runs

variable {state : Slot → TaskState} {initial max : SemId → ℤ} {s s' : Sys} {hist : List Event}
  {e : Event} {m : MutexId} {i : SemId}

lemma ksemInit_bounds (a b : ℤ) : 0 ≤ (ksemInit a b).count ∧ (ksemInit a b).count ≤ (ksemInit a b).max := by
  unfold ksemInit
  dsimp only
  split_ifs <;> omega

lemma inv_init : Inv (init state initial max) := by
  constructor
  · exact fun _ => rfl
  · intro a ha
    obtain ⟨b, ⟨m, hm, _⟩, _⟩ := TransGen.head'_iff.mp ha
    cases hm
  · rintro (m | i) t
    · simp [Sys.view, init, View.queue, kmutexInit]
    · simp [Sys.view, init, View.queue, ksemInit]
  · constructor
    · intro m t ht
      simp [Sys.view, init, kmutexInit] at ht
    · intro i t ht
      simp [Sys.view, init, ksemInit] at ht
    · exact fun i => ksemInit_bounds (initial i) (max i)

lemma run_inv (hrun : Run Step (init state initial max) hist s) : Inv s :=
  hrun.invariant inv_init fun _ _ _ hinv h => step_inv hinv h

/-- What an event does to the owner of `m`: it enters, it leaves, or it has no part. -/
lemma step_owner (h : Step s e s') :
    (∃ t, (e = .tryLock t m .ok ∨ e = .lock t m .acquired) ∧
        (s.locks.mutex m).owner = none ∧ (s'.locks.mutex m).owner = some t) ∨
      (∃ t, e = .unlock t m .released ∧
        (s.locks.mutex m).owner = some t ∧ (s'.locks.mutex m).owner = none) ∨
      ((∀ l, hold m l e = l) ∧ (s'.locks.mutex m).owner = (s.locks.mutex m).owner) := by
  cases e with
  | tryLock t m' out =>
    obtain ⟨-, -, hout, -⟩ := h
    unfold kmutexTry at hout
    split_ifs at hout with hbusy
    · obtain ⟨hl, rfl⟩ := Prod.mk.inj hout
      exact .inr (.inr ⟨fun l => rfl, by rw [hl]⟩)
    · obtain ⟨hl, rfl⟩ := Prod.mk.inj hout
      by_cases hm : m' = m
      · subst hm
        exact .inl ⟨t, .inl rfl, not_not.mp hbusy, by simp [hl]⟩
      · exact .inr (.inr ⟨fun l => by simp [hold, hm], by simp [hl, Ne.symm hm]⟩)
  | lock t m' out =>
    obtain ⟨-, -, hout, -⟩ := h
    unfold lockSection at hout
    split_ifs at hout with hfree hdead
    · obtain ⟨hl, rfl⟩ := Prod.mk.inj hout
      by_cases hm : m' = m
      · subst hm
        exact .inl ⟨t, .inr rfl, hfree, by simp [hl]⟩
      · exact .inr (.inr ⟨fun l => by simp [hold, hm], by simp [hl, Ne.symm hm]⟩)
    · obtain ⟨hl, rfl⟩ := Prod.mk.inj hout
      exact .inr (.inr ⟨fun l => rfl, by simp [hl]⟩)
    · obtain ⟨hl, rfl⟩ := Prod.mk.inj hout
      refine .inr (.inr ⟨fun l => rfl, ?_⟩)
      by_cases hm : m = m'
      · subst hm
        simp [hl, parkOnMutex]
      · simp [hl, parkOnMutex, hm]
  | unlock t m' out =>
    obtain ⟨-, -, hout, -⟩ := h
    unfold kmutexUnlock at hout
    split_ifs at hout with howner
    · obtain ⟨hl, rfl⟩ := Prod.mk.inj hout
      exact .inr (.inr ⟨fun l => rfl, by rw [hl]⟩)
    · obtain ⟨hl, rfl⟩ := Prod.mk.inj hout
      by_cases hm : m' = m
      · subst hm
        exact .inr (.inl ⟨t, rfl, not_not.mp howner, by simp [hl]⟩)
      · exact .inr (.inr ⟨fun l => by simp [hold, hm], by simp [hl, Ne.symm hm]⟩)
  | wait t i out =>
    obtain ⟨-, -, hout, -⟩ := h
    unfold waitSection at hout
    refine .inr (.inr ⟨fun l => rfl, ?_⟩)
    split_ifs at hout with hpos
    · rw [(Prod.mk.inj hout).1]
      rfl
    · rw [(Prod.mk.inj hout).1]
      rfl
  | trywait t i out =>
    obtain ⟨-, -, hout, -⟩ := h
    unfold ksemTrywait at hout
    refine .inr (.inr ⟨fun l => rfl, ?_⟩)
    split_ifs at hout with hzero
    · rw [(Prod.mk.inj hout).1]
    · rw [(Prod.mk.inj hout).1]
      rfl
  | post i full =>
    obtain ⟨-, hl, -⟩ := h
    exact .inr (.inr ⟨fun l => rfl, by rw [hl]; rfl⟩)
  | dispatch t =>
    obtain ⟨-, hl, -⟩ := h
    exact .inr (.inr ⟨fun l => rfl, by rw [hl]; rfl⟩)
  | preempt t =>
    obtain ⟨-, hl, -⟩ := h
    exact .inr (.inr ⟨fun l => rfl, by rw [hl]; rfl⟩)

/-- By what the calls returned, the owner is the only holder. -/
lemma run_holders (hrun : Run Step (init state initial max) hist s) :
    holders m hist = (s.locks.mutex m).owner.toList := by
  refine hrun.invariant_history (I := fun hist s => holders m hist = (s.locks.mutex m).owner.toList)
    rfl ?_
  intro hist t e u hinv hstep
  unfold holders at hinv ⊢
  rw [List.foldl_append, hinv]
  show hold m _ e = _
  rcases step_owner (m := m) hstep with ⟨x, he, hfree, howner⟩ | ⟨x, rfl, howner, hfree⟩ | ⟨hid, hsame⟩
  · rcases he with rfl | rfl
    · simp [hold, hfree, howner]
    · simp [hold, hfree, howner]
  · simp [hold, hfree, howner]
  · rw [hid, hsame]

/-- Mutual exclusion, release by the owner only, no cycle of waits, and exact detection of
the cycles that a lock would close. -/
theorem mutex_safety (hrun : Run Step (init state initial max) hist s) :
    (∀ m, holders m hist = (s.locks.mutex m).owner.toList) ∧
      (∀ m o e s', Step s e s' → (s.locks.mutex m).owner = some o →
        (s'.locks.mutex m).owner ≠ some o → e = .unlock o m .released) ∧
      (∀ m t out s', Step s (.unlock t m out) s' → (s.locks.mutex m).owner ≠ some t →
        s' = s ∧ out = .nonOwner) ∧
      Acyclic s.Waits ∧
      (∀ t m out s', Step s (.lock t m out) s' →
        (out = .deadlock ↔
          ∃ o, (s.locks.mutex m).owner = some o ∧ ¬ Acyclic (AddEdge s.Waits t o))) ∧
      ∀ t m, walk s.locks t DEADLK_VISIT_MAX [] m ≠ .exhausted := by
  have hinv := run_inv hrun
  refine ⟨fun m => run_holders hrun, ?_, ?_, hinv.acyclic, ?_, ?_⟩
  · intro m o e s' hstep howner hlost
    rcases step_owner (m := m) hstep with ⟨x, -, hfree, -⟩ | ⟨x, rfl, hx, -⟩ | ⟨-, hsame⟩
    · rw [howner] at hfree
      cases hfree
    · obtain rfl : o = x := Option.some.inj (howner.symm.trans hx)
      rfl
    · exact absurd (hsame.trans howner) hlost
  · intro m t out s' hstep howner
    obtain ⟨-, -, hout, hc⟩ := hstep
    unfold kmutexUnlock at hout
    rw [if_pos howner] at hout
    obtain ⟨hl, rfl⟩ := Prod.mk.inj hout
    refine ⟨?_, rfl⟩
    cases s
    cases s'
    simp_all
  · intro t m out s' hstep
    obtain ⟨-, -, hout, -⟩ := hstep
    unfold lockSection at hout
    cases howner : (s.locks.mutex m).owner with
    | none =>
      rw [if_pos howner] at hout
      obtain ⟨-, rfl⟩ := Prod.mk.inj hout
      simp
    | some o =>
      have hiff : wouldDeadlock s.locks t m = true ↔ ReflTransGen s.Waits o t :=
        wouldDeadlock_iff hinv.intent hinv.acyclic howner
      rw [if_neg (by simp [howner])] at hout
      split_ifs at hout with hdead
      · obtain ⟨-, rfl⟩ := Prod.mk.inj hout
        simp [acyclic_addEdge hinv.acyclic, hiff.mp hdead]
      · obtain ⟨-, rfl⟩ := Prod.mk.inj hout
        have hpath : ¬ ReflTransGen s.Waits o t := fun hpath => hdead (hiff.mpr hpath)
        simp [acyclic_addEdge hinv.acyclic, hpath]
  · intro t m
    cases howner : (s.locks.mutex m).owner with
    | none =>
      unfold walk
      simp [howner]
    | some o =>
      have hfound : Found s t o (walk s.locks t DEADLK_VISIT_MAX [] m) :=
        walk_owned hinv.intent hinv.acyclic howner
      rcases hfound with ⟨hv, -⟩ | ⟨hv | hv, -⟩
      · simp [hv]
      · simp [hv]
      · simp [hv]

/-- Sixty-four running tasks, every semaphore with one permit. -/
def start : Sys := init (fun _ => .running) (fun _ => 1) (fun _ => 1)

/-- The second task sleeps behind the first. -/
def contended : Sys where
  locks := (lockSection (kmutexTry start.locks 0 0).1 1 0).1
  call := update start.call 1 (some (.lock 0))

lemma contended_run : Run Step start [.tryLock 0 0 .ok, .lock 1 0 .parked] contended :=
  have hfirst : Step start (.tryLock 0 0 .ok) ⟨(kmutexTry start.locks 0 0).1, start.call⟩ :=
    ⟨rfl, rfl, rfl, rfl⟩
  (Run.single hfirst).snoc ⟨rfl, .inl rfl, rfl, rfl⟩

theorem mutex_safety_contended :
    holders 0 [.tryLock 0 0 .ok, .lock 1 0 .parked] = [0] ∧ Acyclic contended.Waits := by
  have hsafe := mutex_safety contended_run
  exact ⟨hsafe.1 0, hsafe.2.2.2.1⟩

/-- What an event does to the count of `i`. -/
lemma step_count (h : Step s e s') :
    (s'.locks.sem i).max = (s.locks.sem i).max ∧
      (s'.locks.sem i).count + (if completes i e then 1 else 0) + (if overflows i e then 1 else 0)
        = (s.locks.sem i).count + if posts i e then 1 else 0 := by
  cases e with
  | tryLock t m out =>
    obtain ⟨-, -, hout, -⟩ := h
    unfold kmutexTry at hout
    split_ifs at hout with hbusy
    · rw [(Prod.mk.inj hout).1]
      simp [completes, overflows, posts]
    · rw [(Prod.mk.inj hout).1]
      simp [completes, overflows, posts]
  | lock t m out =>
    obtain ⟨-, -, hout, -⟩ := h
    unfold lockSection at hout
    split_ifs at hout with hfree hdead
    · rw [(Prod.mk.inj hout).1]
      simp [completes, overflows, posts]
    · rw [(Prod.mk.inj hout).1]
      simp [completes, overflows, posts]
    · rw [(Prod.mk.inj hout).1]
      simp [completes, overflows, posts, parkOnMutex]
  | unlock t m out =>
    obtain ⟨-, -, hout, -⟩ := h
    unfold kmutexUnlock at hout
    split_ifs at hout with howner
    · rw [(Prod.mk.inj hout).1]
      simp [completes, overflows, posts]
    · rw [(Prod.mk.inj hout).1]
      simp [completes, overflows, posts]
  | wait t j out =>
    obtain ⟨-, -, hout, -⟩ := h
    unfold waitSection at hout
    split_ifs at hout with hpos
    · obtain ⟨hl, rfl⟩ := Prod.mk.inj hout
      by_cases hj : j = i
      · subst hj
        simp [hl, completes, overflows, posts]
      · simp [hl, completes, overflows, posts, hj, Ne.symm hj]
    · obtain ⟨hl, rfl⟩ := Prod.mk.inj hout
      by_cases hj : j = i
      · subst hj
        simp [hl, completes, overflows, posts, parkOnSem]
      · simp [hl, completes, overflows, posts, parkOnSem, Ne.symm hj]
  | trywait t j out =>
    obtain ⟨-, -, hout, -⟩ := h
    unfold ksemTrywait at hout
    split_ifs at hout with hzero
    · obtain ⟨hl, rfl⟩ := Prod.mk.inj hout
      simp [hl, completes, overflows, posts]
    · obtain ⟨hl, rfl⟩ := Prod.mk.inj hout
      by_cases hj : j = i
      · subst hj
        simp [hl, completes, overflows, posts]
      · simp [hl, completes, overflows, posts, hj, Ne.symm hj]
  | post j full =>
    obtain ⟨hfull, hl, -⟩ := h
    by_cases hj : j = i
    · subst hj
      by_cases hroom : (s.locks.sem j).count < (s.locks.sem j).max
      · simp [hl, hfull, completes, overflows, posts, ksemPost, hroom, not_le.mpr hroom]
      · simp [hl, hfull, completes, overflows, posts, ksemPost, hroom, not_lt.mp hroom]
    · simp [hl, completes, overflows, posts, ksemPost, hj, Ne.symm hj]
  | dispatch t =>
    obtain ⟨-, hl, -⟩ := h
    simp [hl, completes, overflows, posts]
  | preempt t =>
    obtain ⟨-, hl, -⟩ := h
    simp [hl, completes, overflows, posts]

/-- No permit is made or lost but at the maximum. -/
lemma run_count (hrun : Run Step (init state initial max) hist s) :
    (s.locks.sem i).max = (ksemInit (initial i) (max i)).max ∧
      (s.locks.sem i).count + hist.countP (completes i) + hist.countP (overflows i)
        = (ksemInit (initial i) (max i)).count + hist.countP (posts i) := by
  refine hrun.invariant_history (I := fun hist s =>
    (s.locks.sem i).max = (ksemInit (initial i) (max i)).max ∧
      (s.locks.sem i).count + hist.countP (completes i) + hist.countP (overflows i)
        = (ksemInit (initial i) (max i)).count + hist.countP (posts i)) ⟨rfl, by simp [init]⟩ ?_
  rintro hist t e u ⟨hmax, hcount⟩ hstep
  obtain ⟨hmax', hcount'⟩ := step_count (i := i) hstep
  refine ⟨hmax'.trans hmax, ?_⟩
  simp only [List.countP_append, List.countP_singleton]
  split_ifs at hcount' ⊢ <;> omega

/-- Nobody sleeps on a free mutex or on a permit, the sleepers are exactly what the queues
hold, and every permit is accounted for. -/
theorem no_lost_wakeup (hrun : Run Step (init state initial max) hist s) :
    (∀ c t, s.Parked t c ↔ t ∈ s.queue c) ∧
      (∀ m t, t ∈ s.queue (.lock m) → ∃ o, (s.locks.mutex m).owner = some o ∧ o ≠ t) ∧
      (∀ i t, t ∈ s.queue (.wait i) → (s.locks.sem i).count = 0) ∧
      (∀ i, 0 ≤ (s.locks.sem i).count ∧ (s.locks.sem i).count ≤ (s.locks.sem i).max ∧
        (s.locks.sem i).max = (ksemInit (initial i) (max i)).max) ∧
      ∀ i, (s.locks.sem i).count + hist.countP (completes i) + hist.countP (overflows i)
          = (ksemInit (initial i) (max i)).count + hist.countP (posts i) ∧
        (hist.countP (completes i) : ℤ)
          ≤ (ksemInit (initial i) (max i)).count + hist.countP (posts i) := by
  have hinv := run_inv hrun
  have hqueued : ∀ c t, s.Parked t c ↔ t ∈ s.queue c := by
    intro c t
    have hq := hinv.queued c t
    simp only [Sys.view, decide_eq_true_eq] at hq
    unfold Sys.Parked
    rw [← hq]
    cases c with
    | lock => rfl
    | wait => rfl
  refine ⟨hqueued, ?_, fun i t ht => hinv.held.empty i t ht, ?_, ?_⟩
  · intro m t ht
    obtain ⟨o, howner⟩ := Option.ne_none_iff_exists'.mp (hinv.held.owned m t ht)
    refine ⟨o, howner, ?_⟩
    rintro rfl
    have hcall := ((hqueued (.lock m) o).mpr ht).1
    exact hinv.acyclic o (.single ⟨m, hcall, howner⟩)
  · intro i
    obtain ⟨hlo, hhi⟩ := hinv.held.bounds i
    exact ⟨hlo, hhi, (run_count hrun).1⟩
  · intro i
    have hcount := (run_count (i := i) hrun).2
    have hlo : 0 ≤ (s.locks.sem i).count := (hinv.held.bounds i).1
    refine ⟨hcount, ?_⟩
    omega

/-- The second task sleeps on a semaphore that the first has emptied. -/
def emptied : Sys where
  locks := (waitSection (waitSection start.locks 0 0).1 1 0).1
  call := update start.call 1 (some (.wait 0))

lemma emptied_run : Run Step start [.wait 0 0 .taken, .wait 1 0 .parked] emptied :=
  have hfirst : Step start (.wait 0 0 .taken) ⟨(waitSection start.locks 0 0).1, start.call⟩ :=
    ⟨rfl, .inl rfl, rfl, (update_eq_self _ _).symm⟩
  (Run.single hfirst).snoc ⟨rfl, .inl rfl, rfl, rfl⟩

theorem no_lost_wakeup_emptied : emptied.Parked 1 (.wait 0) ∧ (emptied.locks.sem 0).count = 0 := by
  have hnone := no_lost_wakeup emptied_run
  have hmem : (1 : Slot) ∈ emptied.queue (.wait 0) := by decide
  exact ⟨(hnone.1 _ _).mpr hmem, hnone.2.2.1 0 1 hmem⟩

end Runs
end Sync
end MobilePhoneOs
