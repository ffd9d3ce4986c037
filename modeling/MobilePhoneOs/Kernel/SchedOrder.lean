import MobilePhoneOs.Kernel.Task

/-!
# The order of dispatches (`kernel/sched.c`, `kernel/task.c`)

Beside the machine, the queue that the keys are to stand for: the ready tasks in the order in
which they became ready, and the dispatches so far. Neither looks at a key.
-/

namespace MobilePhoneOs.Sched

/-- A section under `task_state_lock`: one in the life of a task, or the one in which
`proc_thread_create` hands a slot back that it has reserved. -/
inductive Move
  | life (a : LifeAct)
  | handBack (t : Slot)

/-- Whether a section puts a fresh task into slot `t`. -/
def Move.creates (t : Slot) : Move → Prop
  | .life a => a.creates t
  | .handBack _ => False

namespace Machine

variable (m : Machine)

def move : Move → Machine
  | .life a => m.life a
  | .handBack t => m.modifyTask t fun t => { t with state := .unused, deferred := false }

def MoveEnabled : Move → Prop
  | .life a => m.LifeEnabled a
  | .handBack t => (m.task t).deferred = true

instance : ∀ a, Decidable (m.LifeEnabled a)
  | .sched a => inferInstanceAs (Decidable (m.Enabled a))
  | .createDeferred _ _ | .attach _ _ _ | .launch _ | .reapSlot _ =>
    inferInstanceAs (Decidable (_ = _))
  | .kill _ _ => inferInstanceAs (Decidable True)
  | .reclaim _ => inferInstanceAs (Decidable (_ ∧ _ ∧ _))

instance : ∀ a, Decidable (m.MoveEnabled a)
  | .life a => inferInstanceAs (Decidable (m.LifeEnabled a))
  | .handBack _ => inferInstanceAs (Decidable (_ = _))

/-- The tasks among `l` that a waker makes ready. -/
def waking (checkDead : Bool) (l : List Slot) : List Slot :=
  l.filter fun t => ¬ (checkDead = true ∧ (m.task t).state = .dead)

/-- The sleepers among `l` that a tick makes ready. -/
def expiring (l : List Slot) : List Slot :=
  l.filter fun t => (m.task t).state = .sleeping ∧ m.expired (m.task t)

/-- The task that `sched_post_irq` puts back into the run queue. -/
def putBack (c : ℕ) : List Slot :=
  match (m.cpu c).current with
  | some t => if (m.cpu c).needResched = true ∧ (m.task t).state = .running then [t] else []
  | none => []

/-- The tasks that a section makes ready, in the order in which it does. -/
def readies : Move → List Slot
  | .life (.sched (.tick _)) => m.expiring (List.finRange MAX_TASKS)
  | .life (.sched (.postIrq c)) => m.putBack c
  | .life (.sched (.yield _ t)) => [t]
  | .life (.sched (.wake w _ n)) => m.waking w.checksDead (m.onQueue (w.queue n))
  | .life (.sched (.create t _)) => [t]
  | .life (.launch t) => [t]
  | _ => []

/-- How many keys a section draws. -/
def draws : Move → ℕ
  | .life (.createDeferred _ _) => 1
  | a => (m.readies a).length

/-- The task that a section dispatches. -/
def picks : Move → Option Slot
  | .life (.sched (.dispatch _)) => m.pickNext
  | _ => none

end Machine

/-- A machine with its history: the ready tasks by the time at which they became ready, and the
tasks that were dispatched. -/
structure Tracked where
  m : Machine
  fifo : List Slot
  log : List Slot

/-- A task that becomes ready comes behind those that are. -/
def arrive (fifo : List Slot) (t : Slot) : List Slot := if t ∈ fifo then fifo else fifo ++ [t]

namespace Tracked

variable (s : Tracked)

/-- The task is ready. -/
def Ready (t : Slot) : Prop := (s.m.task t).state = .ready

instance (t : Slot) : Decidable (s.Ready t) := inferInstanceAs (Decidable (_ = _))

def next (a : Move) : Tracked where
  m := s.m.move a
  fifo := (s.m.readies a).foldl arrive (s.fifo.filter fun t => ((s.m.move a).task t).state = .ready)
  log := s.log ++ (s.m.picks a).toList

def Step (s : Tracked) (a : Move) (s' : Tracked) : Prop := s.m.MoveEnabled a ∧ s' = s.next a

/-- The law of the scheduler's choice: a task is picked if one is ready, it is of the best
priority that is ready, and of that priority it has been ready for longest. -/
structure PickLaw : Prop where
  present : ∀ t, s.Ready t → s.m.pickNext ≠ none
  ready : ∀ t, s.m.pickNext = some t → s.Ready t
  best : ∀ t u, s.m.pickNext = some t → s.Ready u → (s.m.task t).prio ≤ (s.m.task u).prio
  first : ∀ t u, s.m.pickNext = some t → s.Ready u → (s.m.task u).prio = (s.m.task t).prio →
    u ≠ t → s.fifo.idxOf t < s.fifo.idxOf u

/-- A section makes no task ready that is ready already, none twice, and the counter of the keys
does not wrap around. -/
structure Fresh (a : Move) : Prop where
  nodup : (s.m.readies a).Nodup
  waiting : ∀ t ∈ s.m.readies a, ¬ s.Ready t
  keys : s.m.rqSeq + s.m.draws a < 2 ^ 64

instance (a : Move) : Decidable (s.Fresh a) :=
  decidable_of_iff ((s.m.readies a).Nodup ∧ (∀ t ∈ s.m.readies a, ¬ s.Ready t) ∧
    s.m.rqSeq + s.m.draws a < 2 ^ 64)
    ⟨fun h => ⟨h.1, h.2.1, h.2.2⟩, fun h => ⟨h.nodup, h.waiting, h.keys⟩⟩

/-- The task `t` stays ready until it is dispatched, and so does `u`, whose slot is not given to
another task. -/
structure Waits (t u : Slot) (a : Move) : Prop where
  last : s.m.picks a = some t ∨ (s.next a).Ready t
  other : u ∈ s.log ∨ s.m.picks a = some u ∨ (s.next a).Ready u
  same : ¬ a.creates u

/-- The law of round robin: where `t` is put into the run queue while `u` of the same priority is
ready, and both stay ready until they are dispatched, then between there and the dispatch of `t`
the task `u` is dispatched once. -/
def RoundRobin : Prop := ∀ (t u : Slot) (a : Move) (s₁ : Tracked) (as : List Move) (s₂ : Tracked),
  t ∈ s.m.readies a → s.Ready u → Guarded Fresh Step s a s₁ → s₁.Ready u →
  (s₁.m.task u).prio = (s₁.m.task t).prio →
  Run (Guarded (fun s a => s.Fresh a ∧ s.Waits t u a) Step) { s₁ with log := [] } as s₂ →
  t ∉ s₂.log → s₂.m.pickNext = some t → s₂.log.count u = 1

end Tracked
end MobilePhoneOs.Sched
