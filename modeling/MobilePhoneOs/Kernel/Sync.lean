import MobilePhoneOs.Kernel.Task
import MobilePhoneOs.Lib.Acyclic

/-!
# Sleeping mutexes and semaphores (`kernel/sync.c`)

The primitives and the fields of the tasks that `sync_lock` guards. Every function below is
one section under `sync_lock`: a park publishes the intent, links and marks the task BLOCKED
before the lock is dropped, and the loops of `kmutex_lock` and `ksem_wait` run their section
again after a wake.
-/

namespace MobilePhoneOs.Sync

open Sched (Slot TaskState)
open Function (update)

def DEADLK_VISIT_MAX : ℕ := 128

/-- A mutex, by its address. -/
abbrev MutexId := ℕ

/-- A semaphore, by its address. -/
abbrev SemId := ℕ

/-- `struct kmutex` -/
structure Kmutex where
  owner : Option Slot
  wq : List Slot

/-- `struct ksem` -/
structure Ksem where
  count : ℤ
  max : ℤ
  wq : List Slot

/-- The fields of `struct task` that the primitives use. -/
structure Task where
  state : TaskState
  lockWait : Option MutexId

/-- `struct sync_stats` -/
structure Stats where
  acquires : ℕ
  blocks : ℕ
  deadlocksDetected : ℕ
  maxWakeups : ℕ

/-- Everything that `sync_lock` guards. -/
structure Locks where
  mutex : MutexId → Kmutex
  sem : SemId → Ksem
  task : Slot → Task
  ss : Stats

/-- `kmutex_init` -/
def kmutexInit : Kmutex := { owner := none, wq := [] }

/-- `ksem_init` -/
def ksemInit (initial max : ℤ) : Ksem :=
  let top := if max < 1 then 1 else max
  { max := top
    count := if initial < 0 then 0 else if initial > top then top else initial
    wq := [] }

namespace Locks

def setMutex (k : Locks) (m : MutexId) (f : Kmutex → Kmutex) : Locks :=
  { k with mutex := update k.mutex m (f (k.mutex m)) }

def setSem (k : Locks) (s : SemId) (f : Ksem → Ksem) : Locks :=
  { k with sem := update k.sem s (f (k.sem s)) }

def setTask (k : Locks) (t : Slot) (f : Task → Task) : Locks :=
  { k with task := update k.task t (f (k.task t)) }

def setStats (k : Locks) (f : Stats → Stats) : Locks := { k with ss := f k.ss }

end Locks

/-- The loop of `wake_batch`. -/
def wakeLoop : List Slot → (Slot → Task) → Slot → Task
  | [], task => task
  | t :: wq, task => wakeLoop wq (update task t { task t with state := .ready })

/-- `wake_batch` of a queue with the tasks `wq`; the caller leaves the queue empty. -/
def wakeBatch (k : Locks) (wq : List Slot) : Locks :=
  { k with
    task := wakeLoop wq k.task
    ss := { k.ss with maxWakeups := Nat.max k.ss.maxWakeups wq.length } }

/-- What ends the walk of `would_deadlock`. -/
inductive Verdict
  /-- a mutex without owner -/
  | vanished
  /-- an owner that waits for no mutex -/
  | outside
  /-- the caller itself -/
  | closes
  /-- a mutex seen before -/
  | revisit
  /-- `DEADLK_VISIT_MAX` -/
  | exhausted
deriving DecidableEq, Repr

/-- The loop of `would_deadlock`, with what is left of the visit bound. -/
def walk (k : Locks) (me : Slot) : ℕ → List MutexId → MutexId → Verdict
  | budget, seen, m =>
    match (k.mutex m).owner with
    | none => .vanished
    | some owner =>
      if owner = me then .closes
      else
        match (k.task owner).lockWait with
        | none => .outside
        | some next =>
          match budget with
          | 0 => .exhausted
          | budget + 1 => if next ∈ seen then .revisit else walk k me budget (next :: seen) next

/-- `would_deadlock` -/
def wouldDeadlock (k : Locks) (me : Slot) (target : MutexId) : Bool :=
  match walk k me DEADLK_VISIT_MAX [] target with
  | .vanished | .outside => false
  | .closes | .revisit | .exhausted => true

inductive TryOutcome
  | ok
  /-- `-SYNC_EBUSY` -/
  | busy
deriving DecidableEq, Repr

/-- `kmutex_try` -/
def kmutexTry (k : Locks) (me : Slot) (m : MutexId) : Locks × TryOutcome :=
  if (k.mutex m).owner ≠ none then (k, .busy)
  else
    ((k.setMutex m fun x => { x with owner := some me }).setStats
      fun ss => { ss with acquires := ss.acquires + 1 }, .ok)

inductive LockOutcome
  | acquired
  /-- `-SYNC_DEADLK` -/
  | deadlock
  | parked
deriving DecidableEq, Repr

/-- `park_on_queue` on a mutex, with the intent published before. -/
def parkOnMutex (k : Locks) (me : Slot) (m : MutexId) : Locks :=
  (k.setTask me fun _ => { lockWait := some m, state := .blocked }).setMutex m
    fun x => { x with wq := me :: x.wq }

/-- The loop body of `kmutex_lock`. -/
def lockSection (k : Locks) (me : Slot) (m : MutexId) : Locks × LockOutcome :=
  if (k.mutex m).owner = none then
    (((k.setMutex m fun x => { x with owner := some me }).setTask me
      fun t => { t with lockWait := none }).setStats
      fun ss => { ss with acquires := ss.acquires + 1 }, .acquired)
  else if wouldDeadlock k me m then
    ((k.setTask me fun t => { t with lockWait := none }).setStats
      fun ss => { ss with deadlocksDetected := ss.deadlocksDetected + 1 }, .deadlock)
  else
    ((parkOnMutex k me m).setStats fun ss => { ss with blocks := ss.blocks + 1 }, .parked)

inductive UnlockOutcome
  | released
  | nonOwner
deriving DecidableEq, Repr

/-- `kmutex_unlock` -/
def kmutexUnlock (k : Locks) (me : Slot) (m : MutexId) : Locks × UnlockOutcome :=
  if (k.mutex m).owner ≠ some me then (k, .nonOwner)
  else (wakeBatch (k.setMutex m fun _ => { owner := none, wq := [] }) (k.mutex m).wq, .released)

inductive WaitOutcome
  | taken
  | parked
deriving DecidableEq, Repr

/-- `park_on_queue` on a semaphore. -/
def parkOnSem (k : Locks) (me : Slot) (s : SemId) : Locks :=
  (k.setTask me fun t => { t with state := .blocked }).setSem s fun x => { x with wq := me :: x.wq }

/-- The loop body of `ksem_wait`. -/
def waitSection (k : Locks) (me : Slot) (s : SemId) : Locks × WaitOutcome :=
  if (k.sem s).count > 0 then
    ((k.setSem s fun x => { x with count := x.count - 1 }).setStats
      fun ss => { ss with acquires := ss.acquires + 1 }, .taken)
  else ((parkOnSem k me s).setStats fun ss => { ss with blocks := ss.blocks + 1 }, .parked)

inductive TrywaitOutcome
  | taken
  /-- `-EAGAIN` -/
  | again
deriving DecidableEq, Repr

/-- `ksem_trywait` -/
def ksemTrywait (k : Locks) (s : SemId) : Locks × TrywaitOutcome :=
  if (k.sem s).count ≤ 0 then (k, .again)
  else
    ((k.setSem s fun x => { x with count := x.count - 1 }).setStats
      fun ss => { ss with acquires := ss.acquires + 1 }, .taken)

/-- `ksem_post` -/
def ksemPost (k : Locks) (s : SemId) : Locks :=
  wakeBatch (k.setSem s fun x =>
    { x with count := if x.count < x.max then x.count + 1 else x.count, wq := [] }) (k.sem s).wq

/-! ## Interleavings -/

/-- A call that has parked and not returned. -/
inductive Call
  | lock (m : MutexId)
  | wait (s : SemId)
deriving DecidableEq

/-- One section of some task with what it returned, or a decision of the scheduler. -/
inductive Event
  | tryLock (t : Slot) (m : MutexId) (out : TryOutcome)
  | lock (t : Slot) (m : MutexId) (out : LockOutcome)
  | unlock (t : Slot) (m : MutexId) (out : UnlockOutcome)
  | wait (t : Slot) (s : SemId) (out : WaitOutcome)
  | trywait (t : Slot) (s : SemId) (out : TrywaitOutcome)
  /-- `full`: the count was at its maximum -/
  | post (s : SemId) (full : Bool)
  | dispatch (t : Slot)
  | preempt (t : Slot)

/-- The primitives and the calls in progress. -/
structure Sys where
  locks : Locks
  call : Slot → Option Call

/-- After the init functions, with no call in progress. -/
def Sys.init (state : Slot → TaskState) (initial max : SemId → ℤ) : Sys where
  locks :=
    { mutex := fun _ => kmutexInit
      sem := fun s => ksemInit (initial s) (max s)
      task := fun t => { state := state t, lockWait := none }
      ss := { acquires := 0, blocks := 0, deadlocksDetected := 0, maxWakeups := 0 } }
  call := fun _ => none

/-- A task that acts is running. It starts a call when it has none in progress, and runs the
section of a parked call again. -/
def Step (s : Sys) : Event → Sys → Prop
  | .tryLock t m out, s' =>
    (s.locks.task t).state = .running ∧ s.call t = none ∧
      (s'.locks, out) = kmutexTry s.locks t m ∧ s'.call = s.call
  | .lock t m out, s' =>
    (s.locks.task t).state = .running ∧ (s.call t = none ∨ s.call t = some (.lock m)) ∧
      (s'.locks, out) = lockSection s.locks t m ∧
      s'.call = update s.call t (if out = .parked then some (.lock m) else none)
  | .unlock t m out, s' =>
    (s.locks.task t).state = .running ∧ s.call t = none ∧
      (s'.locks, out) = kmutexUnlock s.locks t m ∧ s'.call = s.call
  | .wait t i out, s' =>
    (s.locks.task t).state = .running ∧ (s.call t = none ∨ s.call t = some (.wait i)) ∧
      (s'.locks, out) = waitSection s.locks t i ∧
      s'.call = update s.call t (if out = .parked then some (.wait i) else none)
  | .trywait t i out, s' =>
    (s.locks.task t).state = .running ∧ s.call t = none ∧
      (s'.locks, out) = ksemTrywait s.locks i ∧ s'.call = s.call
  | .post i full, s' =>
    full = decide ((s.locks.sem i).max ≤ (s.locks.sem i).count) ∧
      s'.locks = ksemPost s.locks i ∧ s'.call = s.call
  | .dispatch t, s' =>
    (s.locks.task t).state = .ready ∧
      s'.locks = s.locks.setTask t (fun x => { x with state := .running }) ∧ s'.call = s.call
  | .preempt t, s' =>
    (s.locks.task t).state = .running ∧
      s'.locks = s.locks.setTask t (fun x => { x with state := .ready }) ∧ s'.call = s.call

/-- The wait-for graph: a task whose `kmutex_lock` has parked and not returned points at the
owner of the mutex. -/
def Sys.Waits (s : Sys) (a b : Slot) : Prop :=
  ∃ m, s.call a = some (.lock m) ∧ (s.locks.mutex m).owner = some b

/-- The task sleeps in this call. -/
def Sys.Parked (s : Sys) (t : Slot) (c : Call) : Prop :=
  s.call t = some c ∧ (s.locks.task t).state = .blocked

/-- The queue that a call parks on. -/
def Sys.queue (s : Sys) : Call → List Slot
  | .lock m => (s.locks.mutex m).wq
  | .wait i => (s.locks.sem i).wq

/-- The tasks that an event puts into, and takes out of, the section that `m` guards. -/
def hold (m : MutexId) (holders : List Slot) : Event → List Slot
  | .tryLock t m' .ok => if m' = m then t :: holders else holders
  | .lock t m' .acquired => if m' = m then t :: holders else holders
  | .unlock t m' .released => if m' = m then holders.erase t else holders
  | _ => holders

/-- The tasks that hold `m` by what their calls returned. -/
def holders (m : MutexId) (hist : List Event) : List Slot := hist.foldl (hold m) []

/-- Whether an event completes a wait on `s`. -/
def completes (s : SemId) : Event → Bool
  | .wait _ s' .taken => s' = s
  | .trywait _ s' .taken => s' = s
  | _ => false

/-- Whether an event is a post of `s`. -/
def posts (s : SemId) : Event → Bool
  | .post s' _ => s' = s
  | _ => false

/-- Whether an event is a post of `s` at its maximum. -/
def overflows (s : SemId) : Event → Bool
  | .post s' full => s' = s ∧ full
  | _ => false

end MobilePhoneOs.Sync
