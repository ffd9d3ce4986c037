import MobilePhoneOs.Lib.Run
import Mathlib.Data.Fintype.Basic

/-!
# Tasks, wait queues and the scheduler (`kernel/task.c`, `kernel/sched.c`)

The task table with the intrusive `wq_next` links, the cpus and the heads of the wait queues.
Every function below is one section under `task_state_lock`; a park holds the lock across the
switch, so it is part of the section that decides to park. The exceptions are `linkUnlocked`
and `barePark`, the two halves of the parks in `net/udp.c` and `drivers/input.c`, which
release the lock in between.
-/

namespace MobilePhoneOs.Sched

open Function (update)

def MAX_TASKS : ℕ := 64
def TIME_HZ : ℕ := 100
def SCHED_QUANTUM : ℕ := 5

instance : NeZero MAX_TASKS := ⟨by decide⟩

/-- A slot of the task table. -/
abbrev Slot := Fin MAX_TASKS

/-- A process, by the address of its `struct proc`. -/
abbrev ProcId := ℕ

/-- `enum task_state` -/
inductive TaskState
  | unused
  | ready
  | running
  | sleeping
  | blocked
  | dead
deriving DecidableEq, Repr

/-- `struct task`. Two ghosts: `owesPark`, the task has linked itself without parking yet, and
`deferred`, the slot has been reserved and not been launched yet. -/
structure Task where
  state : TaskState
  prio : ℕ
  rqKey : ℕ
  quantumLeft : ℕ
  wakeAt : ℕ
  wqNext : Option Slot
  proc : Option ProcId
  parked : Bool
  tKstack : Option ℕ
  owesPark : Bool
  deferred : Bool

/-- `struct per_cpu`. `current` goes stale while the cpu is in its scheduler loop; the ghost
`dispatched` tells whether the cpu executes it. -/
structure PerCpu where
  current : Option Slot
  needResched : Bool
  dispatched : Bool

/-- A `struct waitqueue`: `poll_wq`, or any other. -/
inductive QueueId
  | poll
  | other (n : ℕ)
deriving DecidableEq, Repr

/-- Everything that `task_state_lock` guards, and `jiffies`. -/
structure Machine where
  task : Slot → Task
  cpu : ℕ → PerCpu
  head : QueueId → Option Slot
  rqSeq : ℕ
  jiffies : ℕ

namespace Machine

/-- A cpu executes a task. -/
def Runs (m : Machine) (c : ℕ) (t : Slot) : Prop :=
  (m.cpu c).dispatched = true ∧ (m.cpu c).current = some t

instance (m : Machine) (c : ℕ) (t : Slot) : Decidable (m.Runs c t) :=
  inferInstanceAs (Decidable (_ ∧ _))

/-- The machine with one slot of the table changed. -/
def modifyTask (m : Machine) (t : Slot) (f : Task → Task) : Machine :=
  { m with task := update m.task t (f (m.task t)) }

/-- The machine with one cpu changed. -/
def modifyCpu (m : Machine) (c : ℕ) (f : PerCpu → PerCpu) : Machine :=
  { m with cpu := update m.cpu c (f (m.cpu c)) }

/-! ## Scheduling -/

/-- `better` -/
def better (a b : Task) : Bool :=
  if a.prio ≠ b.prio then a.prio < b.prio else a.rqKey < b.rqKey

/-- One round of `pick_next`. -/
def pickStep (m : Machine) (best : Option Slot) (t : Slot) : Option Slot :=
  if (m.task t).state ≠ .ready then best
  else
    match best with
    | none => some t
    | some b => if better (m.task t) (m.task b) then some t else some b

/-- `pick_next` -/
def pickNext (m : Machine) : Option Slot := (List.finRange MAX_TASKS).foldl (pickStep m) none

/-- The locked part of `sched_run`. -/
def schedRun (m : Machine) (c : ℕ) : Machine :=
  match pickNext m with
  | some next =>
    (m.modifyTask next fun t => { t with state := .running, quantumLeft := SCHED_QUANTUM }).modifyCpu
      c fun p => { p with current := some next, dispatched := true }
  | none => m.modifyCpu c fun p => { p with current := none }

/-- `sched_park` of the task `t` on cpu `c`: its context is saved, and the scheduler loop of
the cpu takes over. -/
def schedPark (m : Machine) (c : ℕ) (t : Slot) : Machine :=
  (m.modifyTask t fun t => { t with parked := true }).modifyCpu c fun p =>
    { p with dispatched := false }

/-- `(long)(jiffies_read() - t->wake_at) >= 0` on 64-bit words. -/
def expired (m : Machine) (t : Task) : Bool :=
  (m.jiffies + 2 ^ 64 - t.wakeAt) % 2 ^ 64 < 2 ^ 63

/-- `task_next_key`; the answer is the counter afterwards. -/
def nextKey (m : Machine) : ℕ := (m.rqSeq + 1) % 2 ^ 64

/-- One round of the sleeper loop of `sched_tick`. -/
def tickStep (m : Machine) (t : Slot) : Machine :=
  if (m.task t).state = .sleeping ∧ m.expired (m.task t) then
    { m.modifyTask t fun t => { t with state := .ready, rqKey := m.nextKey } with
      rqSeq := m.nextKey }
  else m

/-- The quantum part of `sched_tick`. -/
def tickQuantum (m : Machine) (c : ℕ) : Machine :=
  match (m.cpu c).current with
  | none => m
  | some t =>
    if (m.task t).state = .running then
      let left := (m.task t).quantumLeft - 1
      let m := m.modifyTask t fun t => { t with quantumLeft := left }
      if left = 0 then m.modifyCpu c fun p => { p with needResched := true } else m
    else m

/-- `sched_tick` -/
def schedTick (m : Machine) (c : ℕ) : Machine :=
  tickQuantum ((List.finRange MAX_TASKS).foldl tickStep m) c

/-- A task is put back in the run queue. -/
def requeue (m : Machine) (t : Slot) : Machine :=
  { m.modifyTask t fun t => { t with state := .ready, rqKey := m.nextKey } with
    rqSeq := m.nextKey }

/-- `sched_post_irq` -/
def schedPostIrq (m : Machine) (c : ℕ) : Machine :=
  match (m.cpu c).current with
  | none => m
  | some t =>
    if (m.cpu c).needResched = false then m
    else
      let m := m.modifyCpu c fun p => { p with needResched := false }
      let m := if (m.task t).state = .running then m.requeue t else m
      m.schedPark c t

/-! ## Parks of the task `t` that cpu `c` executes -/

/-- `task_yield` -/
def taskYield (m : Machine) (c : ℕ) (t : Slot) : Machine := (m.requeue t).schedPark c t

/-- `task_exit` -/
def taskExit (m : Machine) (c : ℕ) (t : Slot) : Machine :=
  (m.modifyTask t fun t => { t with state := .dead }).schedPark c t

/-- The first section of `msleep`: the deadline, in whole ticks rounded up. -/
def sleepArm (m : Machine) (t : Slot) (msecs : ℕ) : Machine :=
  let ticks := (msecs * TIME_HZ + 999) % 2 ^ 64 / 1000
  m.modifyTask t fun t => { t with wakeAt := (m.jiffies + max ticks 1) % 2 ^ 64 }

/-- `park_current(TASK_SLEEPING)`, the second section of `msleep`. -/
def sleepPark (m : Machine) (c : ℕ) (t : Slot) : Machine :=
  (m.modifyTask t fun t => { t with state := .sleeping }).schedPark c t

/-- The task goes in front of a wait queue, in the given state. -/
def link (m : Machine) (t : Slot) (q : QueueId) (state : TaskState) : Machine :=
  { m.modifyTask t fun t => { t with wqNext := m.head q, state := state } with
    head := update m.head q (some t) }

/-- `wait_sleep_when` with an unmet condition, `park_on_queue`, `ipc_park` and `us_park`. -/
def park (m : Machine) (c : ℕ) (t : Slot) (n : ℕ) : Machine :=
  (m.link t (.other n) .blocked).schedPark c t

/-- `ipc_poll_park` -/
def ipcPollPark (m : Machine) (c : ℕ) (t : Slot) (timeoutMs : ℤ) : Machine :=
  let wakeAt := if timeoutMs < 0 then 2 ^ 64 - 1
    else (m.jiffies + timeoutMs.toNat * TIME_HZ % 2 ^ 64 / 1000 + 1) % 2 ^ 64
  ((m.link t .poll .sleeping).modifyTask t fun t => { t with wakeAt := wakeAt }).schedPark c t

/-- The locked section of the parks in `udp_recv` and `ev0_read`; `udp_recv` links nowhere
when the socket has no queue. -/
def linkUnlocked (m : Machine) (t : Slot) (q : Option ℕ) : Machine :=
  match q with
  | some n => (m.link t (.other n) .blocked).modifyTask t fun t => { t with owesPark := true }
  | none => m.modifyTask t fun t =>
      { t with wqNext := none, state := .blocked, owesPark := true }

/-- Their `sched_park`, which comes after the lock has been released. `sched_run` unlocks it all
the same; if another cpu holds it then, sections overlap, which no step here shows. -/
def barePark (m : Machine) (c : ℕ) (t : Slot) : Machine :=
  (m.modifyTask t fun t => { t with owesPark := false }).schedPark c t

/-! ## Wakers -/

/-- The loop that all wakers share, with or without the check for a dead task; the flag is
set when a woken task outranks the task `cur`. The links it follows are reset as it goes, so
it ends after at most `MAX_TASKS + 1` rounds. -/
def wakeLoop (checkDead : Bool) (cur : Option Slot) (q : QueueId) :
    ℕ → Machine → Bool → Machine × Bool
  | 0, m, preempt => (m, preempt)
  | fuel + 1, m, preempt =>
    match m.head q with
    | none => (m, preempt)
    | some t =>
      let next := (m.task t).wqNext
      let m : Machine := { m.modifyTask t fun t => { t with wqNext := none } with
        head := update m.head q next }
      if checkDead = true ∧ (m.task t).state = .dead then wakeLoop checkDead cur q fuel m preempt
      else
        let outranks := match cur with
          | some c => decide ((m.task t).prio < (m.task c).prio)
          | none => false
        wakeLoop checkDead cur q fuel (m.requeue t) (preempt || outranks)

/-- The wakers of the kernel. -/
inductive Waker
  | waitWakeAll
  | wakeBatch
  | ipcWake
  | ipcWakePollers
  | usWakeAll
  | netSockWake
  | inputPush
deriving DecidableEq, Repr

/-- Whether the waker leaves a dead task dead. -/
def Waker.checksDead : Waker → Bool
  | .waitWakeAll => true
  | .wakeBatch => false
  | .ipcWake => true
  | .ipcWakePollers => true
  | .usWakeAll => false
  | .netSockWake => false
  | .inputPush => false

/-- Whether the waker asks for a reschedule when it wakes a task of higher priority. -/
def Waker.preempts : Waker → Bool
  | .waitWakeAll => true
  | .wakeBatch => true
  | .ipcWake => false
  | .ipcWakePollers => false
  | .usWakeAll => false
  | .netSockWake => true
  | .inputPush => true

/-- One wake on cpu `c`. -/
def wake (m : Machine) (w : Waker) (c : ℕ) (q : QueueId) : Machine :=
  let r := wakeLoop w.checksDead (m.cpu c).current q (MAX_TASKS + 1) m false
  if w.preempts && r.2 then r.1.modifyCpu c fun p => { p with needResched := true } else r.1

/-- The queue that a waker sweeps. -/
def Waker.queue (w : Waker) (n : ℕ) : QueueId :=
  if w = .ipcWakePollers then .poll else .other n

/-- The tasks that a sweep of a queue goes through. -/
def sweep : ℕ → (Slot → Option Slot) → Option Slot → List Slot
  | 0, _, _ => []
  | _ + 1, _, none => []
  | fuel + 1, next, some t => t :: sweep fuel (update next t none) (next t)

/-- The tasks linked into a queue, as a waker finds them. -/
def onQueue (m : Machine) (q : QueueId) : List Slot :=
  sweep (MAX_TASKS + 1) (fun t => (m.task t).wqNext) (m.head q)

/-! ## Creation and reclaim -/

/-- `task_prime` -/
def taskPrime (m : Machine) (t : Slot) (prio : ℕ) : Machine :=
  { m.modifyTask t fun t => { t with
      state := .ready, prio := prio, rqKey := m.nextKey, quantumLeft := 0, wakeAt := 0,
      wqNext := none } with
    rqSeq := m.nextKey }

/-- `task_create` in the unused slot that `alloc_task` found. -/
def taskCreate (m : Machine) (t : Slot) (prio : ℕ) : Machine := m.taskPrime t prio

/-- `task_create_deferred` -/
def taskCreateDeferred (m : Machine) (t : Slot) (prio : ℕ) : Machine :=
  (m.taskPrime t prio).modifyTask t fun t =>
    { t with state := .blocked, parked := false, tKstack := none, deferred := true }

/-- What `proc_thread_create` and `proc_spawn` fill in before the launch. -/
def attach (m : Machine) (t : Slot) (p : ProcId) (kstack : Option ℕ) : Machine :=
  m.modifyTask t fun t => { t with proc := some p, tKstack := kstack }

/-- `task_launch` -/
def taskLaunch (m : Machine) (t : Slot) : Machine :=
  (m.requeue t).modifyTask t fun t => { t with deferred := false }

/-- The marking loop of `mark_zombie` for the process `p` with its leader's slot. -/
def markDead (m : Machine) (p : ProcId) (leader : Option Slot) : Machine :=
  { m with task := fun t =>
      if (m.task t).state ≠ .unused ∧
          (leader = some t ∨ ((m.task t).tKstack ≠ none ∧ (m.task t).proc = some p)) then
        { m.task t with state := .dead }
      else m.task t }

/-- The locked section of `proc_threads_reclaim`, which does not look at the slot again. -/
def giveBack (m : Machine) (t : Slot) : Machine :=
  m.modifyTask t fun t => { t with state := .unused, proc := none, parked := false }

/-- Its `kfree` of the stack, which comes after the unlock. -/
def freeStack (m : Machine) (t : Slot) : Machine := m.modifyTask t fun t => { t with tKstack := none }

/-- The two one after the other. -/
def reclaim (m : Machine) (t : Slot) : Machine :=
  m.modifyTask t fun t =>
    { t with state := .unused, proc := none, parked := false, tKstack := none }

/-- The slot part of `reap_one`. -/
def reapSlot (m : Machine) (t : Slot) : Machine :=
  if (m.task t).state = .dead then
    m.modifyTask t fun t => { t with state := .unused, proc := none }
  else m

end Machine

/-! ## Steps -/

/-- One locked section of the scheduler, of a parking task or of a waker. -/
inductive Act
  | clock
  | dispatch (c : ℕ)
  | tick (c : ℕ)
  | postIrq (c : ℕ)
  | yield (c : ℕ) (t : Slot)
  | exit (c : ℕ) (t : Slot)
  | sleepArm (c : ℕ) (t : Slot) (msecs : ℕ)
  | sleepPark (c : ℕ) (t : Slot)
  | park (c : ℕ) (t : Slot) (n : ℕ)
  | pollPark (c : ℕ) (t : Slot) (timeoutMs : ℤ)
  | linkUnlocked (c : ℕ) (t : Slot) (q : Option ℕ)
  | barePark (c : ℕ) (t : Slot)
  | wake (w : Machine.Waker) (c : ℕ) (n : ℕ)
  | create (t : Slot) (prio : ℕ)

/-- The machine after a section. -/
def Machine.act (m : Machine) : Act → Machine
  | .clock => { m with jiffies := (m.jiffies + 1) % 2 ^ 64 }
  | .dispatch c => m.schedRun c
  | .tick c => m.schedTick c
  | .postIrq c => m.schedPostIrq c
  | .yield c t => m.taskYield c t
  | .exit c t => m.taskExit c t
  | .sleepArm _ t msecs => m.sleepArm t msecs
  | .sleepPark c t => m.sleepPark c t
  | .park c t n => m.park c t n
  | .pollPark c t timeoutMs => m.ipcPollPark c t timeoutMs
  | .linkUnlocked _ t q => m.linkUnlocked t q
  | .barePark c t => m.barePark c t
  | .wake w c n => m.wake w c (w.queue n)
  | .create t prio => m.taskCreate t prio

/-- Interrupts reach a cpu while it executes a task or idles, not in its scheduler loop. -/
def Machine.Interruptible (m : Machine) (c : ℕ) : Prop :=
  (m.cpu c).dispatched = true ∨ (m.cpu c).current = none

/-- Who can run a section: the scheduler loop, an interrupt, or the task on the cpu. A task
that has linked itself goes on to its park. -/
def Machine.Enabled (m : Machine) : Act → Prop
  | .clock => True
  | .dispatch c => (m.cpu c).dispatched = false
  | .tick c => m.Interruptible c
  | .postIrq c => m.Interruptible c
  | .yield c t => m.Runs c t ∧ (m.task t).owesPark = false
  | .exit c t => m.Runs c t ∧ (m.task t).owesPark = false
  | .sleepArm c t _ => m.Runs c t ∧ (m.task t).owesPark = false
  | .sleepPark c t => m.Runs c t ∧ (m.task t).owesPark = false
  | .park c t _ => m.Runs c t ∧ (m.task t).owesPark = false
  | .pollPark c t _ => m.Runs c t ∧ (m.task t).owesPark = false
  | .linkUnlocked c t _ => m.Runs c t ∧ (m.task t).owesPark = false
  | .barePark c t => m.Runs c t ∧ (m.task t).owesPark = true
  | .wake _ c _ => m.Interruptible c
  | .create t _ => (m.task t).state = .unused

instance (m : Machine) : ∀ a, Decidable (m.Enabled a)
  | .clock => inferInstanceAs (Decidable True)
  | .dispatch _ => inferInstanceAs (Decidable (_ = _))
  | .tick _ | .postIrq _ | .wake _ _ _ => inferInstanceAs (Decidable (_ ∨ _))
  | .yield _ _ | .exit _ _ | .sleepArm _ _ _ | .sleepPark _ _ | .park _ _ _ | .pollPark _ _ _
  | .linkUnlocked _ _ _ | .barePark _ _ => inferInstanceAs (Decidable (_ ∧ _))
  | .create _ _ => inferInstanceAs (Decidable (_ = _))

def Step (m : Machine) (a : Act) (m' : Machine) : Prop := m.Enabled a ∧ m' = m.act a

/-- The sections above and those that create, kill and reclaim the tasks of processes. -/
inductive LifeAct
  | sched (a : Act)
  | createDeferred (t : Slot) (prio : ℕ)
  | attach (t : Slot) (p : ProcId) (kstack : Option ℕ)
  | launch (t : Slot)
  | kill (p : ProcId) (leader : Option Slot)
  | reclaim (t : Slot)
  | reapSlot (t : Slot)

def Machine.life (m : Machine) : LifeAct → Machine
  | .sched a => m.act a
  | .createDeferred t prio => m.taskCreateDeferred t prio
  | .attach t p kstack => m.attach t p kstack
  | .launch t => m.taskLaunch t
  | .kill p leader => m.markDead p leader
  | .reclaim t => m.reclaim t
  | .reapSlot t => m.reapSlot t

/-- A launch is for a slot reserved before, a reclaim for a dead thread that has parked. -/
def Machine.LifeEnabled (m : Machine) : LifeAct → Prop
  | .sched a => m.Enabled a
  | .createDeferred t _ => (m.task t).state = .unused
  | .attach t _ _ => (m.task t).deferred = true
  | .launch t => (m.task t).deferred = true
  | .kill _ _ => True
  | .reclaim t => (m.task t).tKstack ≠ none ∧ (m.task t).state = .dead ∧ (m.task t).parked = true
  | .reapSlot t => (m.task t).tKstack = none

def LifeStep (m : Machine) (a : LifeAct) (m' : Machine) : Prop := m.LifeEnabled a ∧ m' = m.life a

/-- Whether a section puts a fresh task into slot `t`. -/
def LifeAct.creates (t : Slot) : LifeAct → Prop
  | .sched (.create u _) => u = t
  | .createDeferred u _ => u = t
  | _ => False

end MobilePhoneOs.Sched
