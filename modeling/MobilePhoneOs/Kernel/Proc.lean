import MobilePhoneOs.Kernel.Task
import MobilePhoneOs.Lib.Interleave

/-!
# Processes: spawn, exit, reparenting and reaping (`kernel/proc.c`)

The process entries and the registry over the machine of tasks and cpus. Every event is one
locked section, or one unlocked stretch that touches a process entry, of the task that runs
it; between two sections any other event may come. An entry is known by its address, and no
address is given out twice.
-/

namespace MobilePhoneOs.Process

open Sched (Slot ProcId TaskState Machine Act MAX_TASKS)
open Sched.Machine (Waker)
open Function (update)

def SIGCHLD : ℕ := 17

/-- The number of `reap_wq`. -/
def REAP_WQ : ℕ := 0

/-- `struct proc`. `rootPa` and `kstack` tell whether the address space and the kernel stack
are still there. Two ghosts: `freed`, the entry has been given to `kfree`, and `orphaned`,
its exit has been through the reparenting loop. -/
structure Proc where
  pid : ℕ
  parent : Option ProcId
  alive : Bool
  exitCode : ℕ
  task : Option Slot
  sigPending : ℕ
  rootPa : Bool
  kstack : Bool
  freed : Bool
  orphaned : Bool

/-- How far `mark_zombie` and `proc_die` have come. -/
inductive ExitStage
  /-- `alive` is off and the exit code is set -/
  | begun
  /-- the children have been moved -/
  | reparented
  /-- the tasks are marked -/
  | marked
  /-- the waiters are woken; `task_exit` is next -/
  | woken
deriving DecidableEq, Repr

/-- How far `reap_one` has come. -/
inductive ReapStage
  | found
  /-- after `registry_del` -/
  | deleted
  /-- after `space_destroy` -/
  | spaceGone
  /-- after the `kfree` of the kernel stack -/
  | stackGone
  /-- the exit code and the pid are stored -/
  | reported
  /-- the task slot is given back; `kfree` of the entry is next -/
  | slotGone
deriving DecidableEq, Repr

/-- Where a task stands, with the entries and slots it carries in local variables. -/
inductive Pc
  | idle
  /-- a launched leader that has not adopted its process yet -/
  | newborn (p : ProcId)
  | spawning (p : ProcId) (u : Slot)
  | launching (u : Slot)
  | threading (p : ProcId) (u : Slot)
  | exiting (p : ProcId) (stage : ExitStage)
  /-- `proc_kernel_reap` between the lookup and `threads_settled` -/
  | looked (z : ProcId)
  | reaping (z : ProcId) (stage : ReapStage)
  /-- `proc_note_init_pid` between the lookup and the store -/
  | noting (p : ProcId)
deriving DecidableEq, Repr

/-- What a slot of the task table is used for. -/
inductive Role
  | free
  | kernel
  | leader (p : ProcId)
  | thread (p : ProcId)
deriving DecidableEq, Repr

/-- The machine, the entries, `proc_list` and `init_proc`. Three ghosts: the next address
that `kzalloc` gives out, where each task stands, and what each slot is used for. -/
structure Sys where
  m : Machine
  proc : ProcId → Proc
  list : List ProcId
  initProc : Option ProcId
  nextPid : ℕ
  fresh : ProcId
  pc : Slot → Pc
  role : Slot → Role

namespace Sys

def setPc (s : Sys) (t : Slot) (x : Pc) : Sys := { s with pc := update s.pc t x }

def setRole (s : Sys) (t : Slot) (x : Role) : Sys := { s with role := update s.role t x }

def setProc (s : Sys) (p : ProcId) (f : Proc → Proc) : Sys :=
  { s with proc := update s.proc p (f (s.proc p)) }

def setMachine (s : Sys) (m : Machine) : Sys := { s with m := m }

/-- `proc_current` of the task `t` -/
def procCurrent (s : Sys) (t : Slot) : Option ProcId := (s.m.task t).proc

/-- `threads_settled` -/
def threadsSettled (s : Sys) (p : ProcId) : Bool :=
  (List.finRange MAX_TASKS).all fun t =>
    !((s.m.task t).tKstack ≠ none ∧ (s.m.task t).proc = some p ∧
      !((s.m.task t).state = .dead ∧ (s.m.task t).parked))

/-- `find_zombie` -/
def findZombie (s : Sys) (parent : ProcId) (want : ℤ) : Option ProcId :=
  s.list.find? fun z =>
    (s.proc z).parent = some parent ∧ (s.proc z).alive = false ∧
      (want < 0 ∨ ((s.proc z).pid : ℤ) = want) ∧ s.threadsSettled z

/-- The lookup of `proc_kernel_reap`: the first entry with this pid, if it is a zombie. -/
def kernelFind (s : Sys) (pid : ℕ) : Option ProcId :=
  (s.list.find? fun z => (s.proc z).pid = pid).filter fun z => (s.proc z).alive = false

/-- The lookup of `proc_note_init_pid` -/
def noteFind (s : Sys) (pid : ℕ) : Option ProcId :=
  s.list.find? fun p => (s.proc p).pid = pid ∧ (s.proc p).alive

/-- One round of `reparent_children_locked`. -/
def reparentStep (init p : ProcId) (proc : ProcId → Proc) (it : ProcId) : ProcId → Proc :=
  if (proc it).parent = some p ∧ it ≠ p then
    let proc := update proc it { proc it with parent := some init }
    update proc init
      { proc init with sigPending := (proc init).sigPending ||| 1 <<< (SIGCHLD - 1) }
  else proc

/-- `reparent_children_locked` -/
def reparentChildrenLocked (s : Sys) (p : ProcId) : Sys :=
  match s.initProc with
  | none => s
  | some init =>
    if init = p then s else { s with proc := s.list.foldl (reparentStep init p) s.proc }

/-- `proc_spawn` and `proc_do_fork` by the task `t`, up to the reserved slot `u` and its link
to the new entry. -/
def spawn (s : Sys) (t u : Slot) (prio : ℕ) : Sys :=
  let p := s.fresh
  let entry : Proc :=
    { pid := s.nextPid, parent := s.procCurrent t, alive := true, exitCode := 0, task := some u
      sigPending := 0, rootPa := true, kstack := true, freed := false, orphaned := false }
  (({ s with
      m := s.m.taskCreateDeferred u prio
      proc := update s.proc p entry
      nextPid := s.nextPid + 1
      fresh := s.fresh + 1 }.setRole u (.leader p)).setPc u (.newborn p)).setPc t (.spawning p u)

/-- `proc_thread_create` by the task `t`, up to the reserved slot `u`. -/
def threadCreate (s : Sys) (t u : Slot) (p : ProcId) (prio : ℕ) : Sys :=
  (((s.setMachine (s.m.taskCreateDeferred u prio)).setRole u (.thread p)).setPc u .idle).setPc t
    (.threading p u)

/-- The rest of `proc_thread_create` up to the launch; without memory for the stack the slot
is handed back. -/
def threadAttach (s : Sys) (t u : Slot) (p : ProcId) : Option ℕ → Sys
  | some kstack => (s.setMachine (s.m.attach u p (some kstack))).setPc t (.launching u)
  | none =>
    (((s.setMachine (s.m.modifyTask u fun x => { x with state := .unused })).setRole u .free).setPc u
      .idle).setPc t .idle

/-- The section that takes an exit from a stage to the next; cpu `c` executes `t`. -/
def exitStep (s : Sys) (c : ℕ) (t : Slot) (p : ProcId) : ExitStage → Sys
  | .begun =>
    ((s.reparentChildrenLocked p).setProc p fun x => { x with orphaned := true }).setPc t
      (.exiting p .reparented)
  | .reparented =>
    (s.setMachine (s.m.markDead p (s.proc p).task)).setPc t (.exiting p .marked)
  | .marked =>
    (s.setMachine (s.m.wake .waitWakeAll c (.other REAP_WQ))).setPc t (.exiting p .woken)
  | .woken => (s.setMachine (s.m.taskExit c t)).setPc t .idle

/-- The slot part of `reap_one`. -/
def releaseSlot (s : Sys) (z : ProcId) : Sys :=
  match (s.proc z).task with
  | none => s
  | some u =>
    if (s.m.task u).state = .dead then
      ((s.setMachine (s.m.reapSlot u)).setRole u .free).setPc u .idle
    else s

/-- The section that takes `reap_one` by the task `t` from a stage to the next. -/
def reapStep (s : Sys) (t : Slot) (z : ProcId) : ReapStage → Sys
  | .found => { s with list := s.list.erase z }.setPc t (.reaping z .deleted)
  | .deleted =>
    (s.setProc z fun x => { x with rootPa := false }).setPc t (.reaping z .spaceGone)
  | .spaceGone =>
    (s.setProc z fun x => { x with kstack := false }).setPc t (.reaping z .stackGone)
  | .stackGone => s.setPc t (.reaping z .reported)
  | .reported => (s.releaseSlot z).setPc t (.reaping z .slotGone)
  | .slotGone => (s.setProc z fun x => { x with freed := true }).setPc t .idle

end Sys

/-! ## Steps -/

/-- One section: of the scheduler, a park or a waker, or of the task `t` on cpu `c` inside
`proc.c`. -/
inductive Event
  | mach (a : Act)
  | spawn (c : ℕ) (t u : Slot) (prio : ℕ)
  /-- `registry_add` -/
  | register (c : ℕ) (t : Slot) (p : ProcId) (u : Slot)
  /-- `task_launch` -/
  | launch (c : ℕ) (t u : Slot)
  /-- `proc_task_body` and `fork_child_body` -/
  | adopt (c : ℕ) (t : Slot) (p : ProcId)
  | threadCreate (c : ℕ) (t u : Slot) (p : ProcId) (prio : ℕ)
  | threadAttach (c : ℕ) (t u : Slot) (p : ProcId) (kstack : Option ℕ)
  /-- `proc_threads_reclaim` for one slot -/
  | reclaim (c : ℕ) (t u : Slot)
  | exitBegin (c : ℕ) (t : Slot) (p : ProcId) (code : ℕ)
  | exit (c : ℕ) (t : Slot) (p : ProcId) (stage : ExitStage)
  /-- `proc_poll_reap` with the child it finds -/
  | findZombie (c : ℕ) (t : Slot) (p : ProcId) (want : ℤ) (z : ProcId)
  | kernelFind (c : ℕ) (t : Slot) (pid : ℕ) (z : ProcId)
  | kernelSettled (c : ℕ) (t : Slot) (z : ProcId)
  | reap (c : ℕ) (t : Slot) (z : ProcId) (stage : ReapStage)
  | noteFind (c : ℕ) (t : Slot) (pid : ℕ) (p : ProcId)
  | noteStore (c : ℕ) (t : Slot) (p : ProcId)

namespace Sys

/-- The state after an event. -/
def act (s : Sys) : Event → Sys
  | .mach (.create t prio) =>
    ((s.setMachine (s.m.act (.create t prio))).setRole t .kernel).setPc t .idle
  | .mach a => s.setMachine (s.m.act a)
  | .spawn _ t u prio => s.spawn t u prio
  | .register _ t p u => { s with list := p :: s.list }.setPc t (.launching u)
  | .launch _ t u => (s.setMachine (s.m.taskLaunch u)).setPc t .idle
  | .adopt _ t p => (s.setMachine (s.m.modifyTask t fun x => { x with proc := some p })).setPc t .idle
  | .threadCreate _ t u p prio => s.threadCreate t u p prio
  | .threadAttach _ t u p kstack => s.threadAttach t u p kstack
  | .reclaim _ _ u => ((s.setMachine (s.m.reclaim u)).setRole u .free).setPc u .idle
  | .exitBegin _ t p code =>
    (s.setProc p fun x => { x with alive := false, exitCode := code }).setPc t (.exiting p .begun)
  | .exit c t p stage => s.exitStep c t p stage
  | .findZombie _ t _ _ z => s.setPc t (.reaping z .found)
  | .kernelFind _ t _ z => s.setPc t (.looked z)
  | .kernelSettled _ t z => s.setPc t (if s.threadsSettled z then .reaping z .found else .idle)
  | .reap _ t z stage => s.reapStep t z stage
  | .noteFind _ t _ p => s.setPc t (.noting p)
  | .noteStore _ t p => { s with initProc := some p }.setPc t .idle

/-- A task runs its own sections, one after another. -/
def Enabled (s : Sys) : Event → Prop
  | .mach a => s.m.Enabled a
  | .spawn c t u _ => s.m.Runs c t ∧ s.pc t = .idle ∧ (s.m.task u).state = .unused
  | .register c t p u => s.m.Runs c t ∧ s.pc t = .spawning p u
  | .launch c t u => s.m.Runs c t ∧ s.pc t = .launching u
  | .adopt c t p => s.m.Runs c t ∧ s.pc t = .newborn p ∧ (s.m.task t).proc = none
  | .threadCreate c t u p _ => s.m.Runs c t ∧ s.pc t = .idle ∧ s.procCurrent t = some p ∧
      (s.proc p).alive = true ∧ (s.m.task u).state = .unused
  | .threadAttach c t u p _ => s.m.Runs c t ∧ s.pc t = .threading p u
  | .reclaim c t u => s.m.Runs c t ∧ s.pc t = .idle ∧ (s.m.task u).tKstack ≠ none ∧
      (s.m.task u).state = .dead ∧ (s.m.task u).parked = true
  | .exitBegin c t p _ => s.m.Runs c t ∧ s.pc t = .idle ∧ s.procCurrent t = some p
  | .exit c t p stage => s.m.Runs c t ∧ s.pc t = .exiting p stage
  | .findZombie c t p want z => s.m.Runs c t ∧ s.pc t = .idle ∧ s.procCurrent t = some p ∧
      s.findZombie p want = some z
  | .kernelFind c t pid z => s.m.Runs c t ∧ s.pc t = .idle ∧ s.kernelFind pid = some z
  | .kernelSettled c t z => s.m.Runs c t ∧ s.pc t = .looked z
  | .reap c t z stage => s.m.Runs c t ∧ s.pc t = .reaping z stage
  | .noteFind c t pid p => s.m.Runs c t ∧ s.pc t = .idle ∧ s.noteFind pid = some p
  | .noteStore c t p => s.m.Runs c t ∧ s.pc t = .noting p

instance (s : Sys) : ∀ e, Decidable (s.Enabled e)
  | .mach _ => inferInstanceAs (Decidable (Machine.Enabled _ _))
  | .spawn _ _ _ _ | .register _ _ _ _ | .launch _ _ _ | .adopt _ _ _ | .threadCreate _ _ _ _ _
  | .threadAttach _ _ _ _ _ | .reclaim _ _ _ | .exitBegin _ _ _ _ | .exit _ _ _ _
  | .findZombie _ _ _ _ _ | .kernelFind _ _ _ _ | .kernelSettled _ _ _ | .reap _ _ _ _
  | .noteFind _ _ _ _ | .noteStore _ _ _ => inferInstanceAs (Decidable (_ ∧ _))

/-- Kernel tasks only, before the first process. -/
structure Init (s : Sys) : Prop where
  list : s.list = []
  fresh : s.fresh = 0
  initProc : s.initProc = none
  pc : ∀ t, s.pc t = .idle
  role : ∀ t, s.role t = if (s.m.task t).state = .unused then .free else .kernel
  proc : ∀ t, (s.m.task t).proc = none
  tKstack : ∀ t, (s.m.task t).tKstack = none

end Sys

/-- Sections one after another; a round of `proc_threads_reclaim` is one of them. -/
def Step (s : Sys) (e : Event) (s' : Sys) : Prop := s.Enabled e ∧ s' = s.act e

/-- The accesses of a section. A round of `proc_threads_reclaim` looks at the slot, gives it back
under the lock, and frees the stack behind the unlock. -/
def sectionCode : Event → Code Sys Unit
  | .reclaim _ _ u =>
    .read fun _ =>
    .write (fun s => s.setMachine (s.m.giveBack u)) <|
    .write (fun s => ((s.setMachine (s.m.freeStack u)).setRole u .free).setPc u .idle) (.done ())
  | e => .write (·.act e) (.done ())

/-- A section begins where it is enabled, whatever round is under way. -/
def Begins (s : Sys) (_ : List Event) (e : Event) : Prop := s.Enabled e

/-- The event stores the exit code and the pid of `z` for a waiter. -/
def reports (z : ProcId) : Event → Bool
  | .reap _ _ z' .stackGone => z' = z
  | _ => false

/-- The event gives the entry `z` to `kfree`. -/
def frees (z : ProcId) : Event → Bool
  | .reap _ _ z' .slotGone => z' = z
  | _ => false

end MobilePhoneOs.Process
