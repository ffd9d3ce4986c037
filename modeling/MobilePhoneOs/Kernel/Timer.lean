import MobilePhoneOs.Kernel.Task

/-!
# The timers of the cpus (`kernel/time.c`)

The handler `timer_tick` runs on the timer interrupt of every cpu: `jiffies_inc`, and then
`sched_tick`. All handlers advance the one counter `jiffies`. The timers are periodic, so each
cpu's fires once per period, and the cpus take turns within a period in any order.
-/

namespace MobilePhoneOs

open Function (update)
namespace Sched

/-- The cpu that runs a section of the scheduler. -/
def Act.cpu : Act → Option ℕ
  | .clock => none
  | .dispatch c | .tick c | .postIrq c | .yield c _ | .exit c _ | .sleepArm c _ _
  | .sleepPark c _ | .park c _ _ | .pollPark c _ _ | .linkUnlocked c _ _ | .barePark c _
  | .wake _ c _ => some c
  | .create _ _ => none

/-- A wait for a time: the milliseconds asked for, none when the wait is infinite, and the period
in which the task has parked. -/
structure Nap where
  ms : Option ℕ
  since : ℕ

/-- The machine, and the cpus whose handler is between its two halves. Ghosts: how often each
timer has fired, how many periods have begun, the last wait of each task, and the tasks between
the two sections of `msleep`. -/
structure Timed where
  m : Machine
  inTimer : ℕ → Bool
  fires : ℕ → ℕ
  period : ℕ
  nap : Slot → Option Nap
  armed : Slot → Bool

/-- A half of `timer_tick`, or any other section. -/
inductive TimerAct
  | jiffiesInc (c : ℕ)
  | schedTick (c : ℕ)
  | other (a : LifeAct)

namespace Timed

variable (s : Timed)

/-- The waits after a section: `msleep` and `ipc_poll_park` begin one, and a task in a fresh slot
has none. -/
def napAfter : LifeAct → Slot → Option Nap
  | .sched (.sleepArm _ t msecs) => update s.nap t (some ⟨some msecs, s.period⟩)
  | .sched (.sleepPark _ t) =>
    update s.nap t ((s.nap t).map fun nap => { nap with since := s.period })
  | .sched (.pollPark _ t timeoutMs) =>
    update s.nap t
      (some ⟨if timeoutMs < 0 then none else some timeoutMs.toNat, s.period⟩)
  | .sched (.create t _) | .createDeferred t _ => update s.nap t none
  | _ => s.nap

/-- The tasks between the two sections of `msleep` after a section. -/
def armedAfter : LifeAct → Slot → Bool
  | .sched (.sleepArm _ t _) => update s.armed t true
  | .sched (.sleepPark _ t) | .sched (.create t _) | .createDeferred t _ =>
    update s.armed t false
  | _ => s.armed

/-- The system after a section. -/
def act : TimerAct → Timed
  | .jiffiesInc c =>
    { s with
      m := s.m.act .clock
      inTimer := update s.inTimer c true
      fires := update s.fires c (s.fires c + 1)
      period := max s.period (s.fires c + 1) }
  | .schedTick c =>
    { s with m := s.m.schedTick c, inTimer := update s.inTimer c false }
  | .other a => { s with m := s.m.life a, nap := s.napAfter a, armed := s.armedAfter a }

/-- The two halves of the handler belong to `timer_tick`, the second half of `msleep` comes after
the first, and a cpu in its handler does nothing else. -/
def Runs (n : ℕ) : LifeAct → Prop
  | .sched .clock | .sched (.tick _) => False
  | .sched (.sleepPark c t) => c < n ∧ s.inTimer c = false ∧ s.armed t = true
  | .sched a => ∀ c, a.cpu = some c → c < n ∧ s.inTimer c = false
  | _ => True

/-- What can run with `n` cpus online. A timer fires when it has fired no more often than any
other, so that each fires once per period. -/
def Enabled (n : ℕ) : TimerAct → Prop
  | .jiffiesInc c =>
    c < n ∧ s.inTimer c = false ∧ s.m.Interruptible c ∧ ∀ c' < n, s.fires c ≤ s.fires c'
  | .schedTick c => s.inTimer c = true
  | .other a => s.Runs n a ∧ s.m.LifeEnabled a

def Step (n : ℕ) (s : Timed) (a : TimerAct) (s' : Timed) : Prop := s.Enabled n a ∧ s' = s.act a

/-- A machine whose timers start. -/
def start (m : Machine) : Timed := ⟨m, fun _ => false, fun _ => 0, 0, fun _ => none, fun _ => false⟩

/-- The wait of the task is finite, and its milliseconds have passed in periods of the timers. -/
def Waited (t : Slot) : Prop :=
  ∃ nap ms, s.nap t = some nap ∧ nap.ms = some ms ∧ ms * TIME_HZ ≤ (s.period - nap.since) * 1000

/-- The law of a step: `sched_tick` makes a sleeper ready only when its wait is over. -/
def Lawful (s : Timed) (a : TimerAct) (s' : Timed) : Prop :=
  match a with
  | .schedTick _ => ∀ t, (s.m.task t).state = .sleeping → (s'.m.task t).state = .ready → s.Waited t
  | _ => True

/-- The condition on a step: the milliseconds fit the word they are converted in, no period begins
between the two sections of `msleep`, and a tick finds an infinite wait only while `jiffies` is in
its upper half and not at its end. -/
def Timely (s : Timed) : TimerAct → Prop
  | .schedTick _ => ∀ t nap, s.nap t = some nap → nap.ms = none → (s.m.task t).state = .sleeping →
      2 ^ 63 ≤ s.m.jiffies + 1 ∧ s.m.jiffies + 1 < 2 ^ 64
  | .other (.sched (.sleepArm _ _ msecs)) => msecs * TIME_HZ + 999 < 2 ^ 64
  | .other (.sched (.sleepPark _ t)) => ∀ nap, s.nap t = some nap → nap.since = s.period
  | .other (.sched (.pollPark _ _ timeoutMs)) => timeoutMs.toNat * TIME_HZ < 2 ^ 64
  | _ => True

end Timed
end Sched
end MobilePhoneOs
