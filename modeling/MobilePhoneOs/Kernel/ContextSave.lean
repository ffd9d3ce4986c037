import MobilePhoneOs.Kernel.Task

/-!
# The handoff of `task_state_lock` (`kernel/task.c`, `kernel/sched.c`)

The lock word, the point that the code of each cpu has reached, and what `cpu_switch_to` last
saved of each task. A section that takes the lock and gives it back is one step. A park takes
three: the path marks the task under the lock, `sched_park` switches to the scheduler loop of
the cpu, and `sched_run` releases the lock it has inherited. `udp_recv` and `ev0_read` release
the lock before they call `sched_park`.
-/

namespace MobilePhoneOs.Sched

/-! ## Paths that park the current task -/

/-- The callers of `sched_park`, with the queue they link the task into. `wait_sleep_when`
serves the tty and `waitpid`, `park_on_queue` mutexes and semaphores, `ipc_park` pipes and
message queues, `us_park` sockets, `park_current` is the second section of `msleep`. -/
inductive Path
  | taskYield
  | taskExit
  | schedPostIrq
  | parkCurrent
  | waitSleepWhen (n : ℕ)
  | parkOnQueue (n : ℕ)
  | ipcPark (n : ℕ)
  | ipcPollPark (timeoutMs : ℤ)
  | usPark (n : ℕ)
  | udpRecv (wq : Option ℕ)
  | ev0Read (n : ℕ)
deriving DecidableEq, Repr

namespace Path

/-- Whether the path goes into `sched_park` with `task_state_lock` held. -/
def keepsLock : Path → Bool
  | udpRecv _ => false
  | ev0Read _ => false
  | _ => true

/-- What the path does to the current task `t` of cpu `c` under `task_state_lock`. -/
def mark (m : Machine) (c : ℕ) (t : Slot) : Path → Machine
  | taskYield => m.requeue t
  | taskExit => m.modifyTask t fun t => { t with state := .dead }
  | schedPostIrq =>
    let m := m.modifyCpu c fun p => { p with needResched := false }
    if (m.task t).state = .running then m.requeue t else m
  | parkCurrent => m.modifyTask t fun t => { t with state := .sleeping }
  | waitSleepWhen n => m.link t (.other n) .blocked
  | parkOnQueue n => m.link t (.other n) .blocked
  | ipcPark n => m.link t (.other n) .blocked
  | ipcPollPark timeoutMs =>
    let wakeAt := if timeoutMs < 0 then 2 ^ 64 - 1
      else (m.jiffies + timeoutMs.toNat * TIME_HZ % 2 ^ 64 / 1000 + 1) % 2 ^ 64
    (m.link t .poll .sleeping).modifyTask t fun t => { t with wakeAt := wakeAt }
  | usPark n => m.link t (.other n) .blocked
  | udpRecv (some n) => m.link t (.other n) .blocked
  -- a socket that nobody gave a queue: the task is blocked and on no list
  | udpRecv none => m.modifyTask t fun t => { t with wqNext := none, state := .blocked }
  | ev0Read n => m.link t (.other n) .blocked

end Path

/-! ## Cpus and contexts -/

/-- Where the code of a task goes on: in its body, or in `udp_recv` or `ev0_read` between the
release of the lock and the call of `sched_park`. -/
inductive Code
  | body
  | unlocked
deriving DecidableEq, Repr

/-- Where a cpu is: in the scheduler loop; about to load the task it has picked; waiting for
an interrupt; in the code of its task; in a park with the lock held, on top of that code; in
the scheduler loop again, right after the switch. -/
inductive Point
  | loop
  | loading
  | idle
  | exec (k : Code)
  | parking (k : Code)
  | back
deriving DecidableEq, Repr

/-- From the pick of a task to the save of its context, the cpu has the task. -/
def Point.hasTask : Point → Bool
  | loading => true
  | exec _ => true
  | parking _ => true
  | _ => false

/-- The code the cpu is in, where it is the code of its task. -/
def Point.code : Point → Option Code
  | exec k => some k
  | _ => none

/-- Interrupts are taken in the code of a task and while the cpu idles. -/
def Point.interruptible : Point → Bool
  | exec _ => true
  | idle => true
  | _ => false

/-- The scheduler with `task_state_lock`: `some c` when cpu `c` was the last to set the word.
The context of a task is the code it resumes. -/
structure Handoff where
  mach : Machine
  lock : Option ℕ
  point : ℕ → Point
  ctx : Slot → Code

/-- A section that takes the lock and gives it back. -/
inductive Plain
  | tick
  | wake (w : Machine.Waker) (n : ℕ)
  | sleepArm (msecs : ℕ)
  | create (t : Slot) (prio : ℕ)

/-- The section on cpu `c`. -/
def Plain.run (m : Machine) (c : ℕ) : Plain → Machine
  | tick => m.schedTick c
  | wake w n => m.wake w c (w.queue n)
  | sleepArm msecs =>
    match (m.cpu c).current with
    | some t => m.sleepArm t msecs
    | none => m
  | create t prio => m.taskCreate t prio

/-- Ticks and wakes also come from interrupts; the rest is code of a task. -/
def Plain.enabled (m : Machine) (p : Point) : Plain → Bool
  | tick => p.interruptible
  | wake _ _ => p.interruptible
  | sleepArm _ => p.code = some .body
  | create t _ => p.code = some .body && (m.task t).state = .unused

/-! ## Steps -/

/-- The steps of the handoff. -/
inductive Turn
  | clock
  | dispatch (c : ℕ)
  | load (c : ℕ)
  | plain (c : ℕ) (a : Plain)
  | enter (c : ℕ) (p : Path)
  | switch (c : ℕ)
  | back (c : ℕ)

namespace Handoff

/-- The task of a cpu, from its pick to the save of its context. -/
def OnCpu (s : Handoff) (c : ℕ) (t : Slot) : Prop :=
  (s.point c).hasTask = true ∧ (s.mach.cpu c).current = some t

instance (s : Handoff) (c : ℕ) (t : Slot) : Decidable (s.OnCpu c t) :=
  inferInstanceAs (Decidable (_ ∧ _))

def setPoint (s : Handoff) (c : ℕ) (p : Point) : Handoff :=
  { s with point := Function.update s.point c p }

/-- One round of `sched_run` up to the release of the lock. -/
def dispatch (s : Handoff) (c : ℕ) : Handoff :=
  { s.setPoint c (if s.mach.pickNext = none then .idle else .loading) with
    mach := s.mach.schedRun c }

/-- `cpu_switch_to(&pc->sched_ctx, &next->ctx)` -/
def load (s : Handoff) (c : ℕ) : Handoff :=
  match (s.mach.cpu c).current with
  | some t => s.setPoint c (.exec (s.ctx t))
  | none => s

/-- The path up to its `sched_park`, or up to the release of the lock where that comes first.
An interrupt resumes the code it has interrupted. -/
def enter (s : Handoff) (c : ℕ) (p : Path) : Handoff :=
  match (s.mach.cpu c).current, (s.point c).code with
  | some t, some k =>
    if p.keepsLock then
      { s.setPoint c (.parking k) with mach := p.mark s.mach c t, lock := some c }
    -- marked, and the lock is free again, while the cpu still runs on the task's stack
    else { s.setPoint c (.exec .unlocked) with mach := p.mark s.mach c t }
  | _, _ => s

/-- What the task resumes when it is switched out at this point: behind `sched_park`. -/
def resumes : Point → Code
  | .parking k => k
  | _ => .body

/-- `sched_park` -/
def switch (s : Handoff) (c : ℕ) : Handoff :=
  match (s.mach.cpu c).current with
  | some t => { s.setPoint c .back with ctx := Function.update s.ctx t (resumes (s.point c)) }
  | none => s

/-- `sched_run` after the switch: the lock word is cleared, whoever has set it. -/
def back (s : Handoff) (c : ℕ) : Handoff :=
  match (s.mach.cpu c).current with
  | some t => { s.setPoint c .loop with mach := s.mach.schedPark c t, lock := none }
  | none => s

/-- The state after a step. -/
def turn (s : Handoff) : Turn → Handoff
  | .clock => { s with mach := s.mach.act .clock }
  | .dispatch c => s.dispatch c
  | .load c => s.load c
  | .plain c a => { s with mach := a.run s.mach c }
  | .enter c p => s.enter c p
  | .switch c => s.switch c
  | .back c => s.back c

/-- Sections wait for the lock. `sched_post_irq` needs a pending reschedule and interrupts any
code; the other paths are called from the body of a task. -/
def enabled (s : Handoff) : Turn → Bool
  | .clock => true
  | .dispatch c => s.lock = none && (s.point c = .loop || s.point c = .idle)
  | .load c => s.point c = .loading
  | .plain c a => s.lock = none && a.enabled s.mach (s.point c)
  | .enter c p => s.lock = none &&
      if p = .schedPostIrq then (s.mach.cpu c).needResched && (s.point c).code.isSome
      else s.point c = .exec .body
  | .switch c => s.point c = .exec .unlocked || s.point c = .parking .body ||
      s.point c = .parking .unlocked
  | .back c => s.point c = .back

def Step (s : Handoff) (a : Turn) (s' : Handoff) : Prop := s.enabled a = true ∧ s' = s.turn a

/-- Every cpu is on its way into the scheduler loop and the lock is free. -/
structure Start (s : Handoff) : Prop where
  point : ∀ c, s.point c = .loop
  lock : s.lock = none
  ctx : ∀ t, s.ctx t = .body

/-! ## The discipline -/

/-- A task that a cpu has and that is not marked running is in a park whose lock is held. -/
def Held (s : Handoff) : Prop :=
  ∀ c t, s.OnCpu c t → (s.mach.task t).state ≠ .running → s.lock = some c

/-- `sched_park` is entered with the lock held, and a task that is picked or loaded is not on
another cpu: its context has been saved. -/
def SavesContext (s : Handoff) : Turn → Prop
  | .switch c => s.lock = some c
  | .dispatch c => ∀ t, s.mach.pickNext = some t → ∀ c', c' ≠ c → ¬ s.OnCpu c' t
  | .load c => ∀ t, (s.mach.cpu c).current = some t → ∀ c', c' ≠ c → ¬ s.OnCpu c' t
  | _ => True

/-- The step keeps the discipline, and leaves every task that is no longer marked running
under the lock of its cpu. -/
def Lawful (s : Handoff) (a : Turn) (s' : Handoff) : Prop := s.SavesContext a ∧ s'.Held

/-- No path that releases the lock early, and no wake that finds a task still on a cpu. -/
def Clean (s : Handoff) : Turn → Prop
  | .enter _ p => p.keepsLock = true
  | .plain _ (.wake w n) => ∀ t ∈ s.mach.onQueue (w.queue n), ∀ c, ¬ s.OnCpu c t
  | _ => True

end Handoff
end MobilePhoneOs.Sched
