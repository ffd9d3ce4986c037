import MobilePhoneOs.Kernel.Task

/-!
# Open files and descriptor tables (`fs/vfs.c` and the descriptor calls of `kernel/syscall.c`)

The open files with their reference counts, the descriptor table of every process and, for
every task, what is left of the call it is in. Every event is one locked section of a call, or
the point where a call returns; between two of them any other task may come. What a call does
with a file that it holds (reads, writes, copies to user space, blocks) changes no count, so
only its end shows. The counts are taken to change at once, although `vfs_fd_get` and
`file_close` do so under different locks, and never to reach `2 ^ 32`.
-/

namespace MobilePhoneOs

open Function (update)
namespace Vfs

open Sched (Slot ProcId)

def PROC_FD_MAX : ℕ := 16

instance : NeZero PROC_FD_MAX := ⟨by decide⟩

/-- A `struct file`, by its address; no address is given out twice. -/
abbrev FileId := ℕ

/-- An index into `files`; every other number is turned down with `-EBADF`. -/
abbrev Fd := Fin PROC_FD_MAX

/-- `struct file`. The ghost `freed` tells that it has been given to `kfree`. -/
structure File where
  refs : ℕ
  freed : Bool

/-- All files, and the next address that `kzalloc` gives out. -/
structure Files where
  file : FileId → File
  fresh : FileId

namespace Files

/-- `file_alloc` with enough memory; the new file is `s.fresh`. -/
def alloc (s : Files) : Files where
  file := update s.file s.fresh ⟨1, false⟩
  fresh := s.fresh + 1

/-- `f->refs++` -/
def ref (s : Files) (f : FileId) : Files :=
  { s with file := update s.file f { s.file f with refs := (s.file f).refs + 1 } }

/-- `file_close` -/
def close (s : Files) (f : FileId) : Files :=
  let left := (s.file f).refs - 1
  { s with file := update s.file f ⟨left, (s.file f).freed || left = 0⟩ }

end Files

/-- `files` of a `struct fd_table` -/
abbrev Table := Fd → Option FileId

/-- `vfs_fd_install` -/
def fdInstall (tab : Table) (f : FileId) : Option Table :=
  ((List.finRange PROC_FD_MAX).find? fun fd => tab fd = none).map fun fd =>
    update tab fd (some f)

/-- The loop of `vfs_proc_fds_init`; the list tells which of the `console_file` calls find
the console and the memory. -/
def consoleFiles : List Bool → Files → Table → Files × Table
  | [], s, tab => (s, tab)
  | false :: std, s, tab => consoleFiles std s tab
  | true :: std, s, tab =>
    match fdInstall tab s.fresh with
    | some tab => consoleFiles std s.alloc tab
    | none => consoleFiles std (s.alloc.close s.fresh) tab

/-- `vfs_proc_fds_init` with enough memory for the table -/
def vfsProcFdsInit (s : Files) (std : Fin 3 → Bool) : Files × Table :=
  consoleFiles (List.ofFn std) s fun _ => none

/-- One round of the loop of `vfs_proc_fds_inherit`. -/
def refStep (tab : Table) (s : Files) (fd : Fd) : Files :=
  match tab fd with
  | some f => s.ref f
  | none => s

/-- The loop of `vfs_proc_fds_inherit` -/
def refAll (s : Files) (tab : Table) : Files := (List.finRange PROC_FD_MAX).foldl (refStep tab) s

/-! ## Calls -/

/-- What is left of a call, with the files that it has in local variables. -/
inductive Call
  | ret
  | close (f : FileId) (k : Call)
  /-- `vfs_fd_put` -/
  | put (fd : Fd) (k : Call)
  /-- `fd_install_of` -/
  | install (f : FileId) (ok fail : Call)
  /-- `vfs_proc_fds_init` inside `fd_install_of` -/
  | late (f : FileId) (ok fail : Call)
  /-- `vfs_fd_install` in `sys_dup`, which returns whether there is room or not -/
  | dup (f : FileId)
  /-- the call goes on without `f` and has not closed it -/
  | forget (f : FileId) (k : Call)
  /-- `usock_accept` on the listener -/
  | accepting (lf : FileId)
  /-- `proc_spawn` between the table of the new process and its task -/
  | spawning (p : ProcId)
  /-- `proc_do_fork` between the table of the child and its task -/
  | forking (p : ProcId)
deriving DecidableEq

namespace Call

/-- The files in local variables that the call still has to close or hand over. -/
def held : Call → List FileId
  | .ret | .spawning _ | .forking _ => []
  | .close f k | .forget f k => f :: k.held
  | .put _ k => k.held
  | .install f ok _ | .late f ok _ => f :: ok.held
  | .dup f | .accepting f => [f]

/-- A call that uses an open file and closes it on every path. -/
def borrow (f : FileId) : Call := .close f .ret

def sysWrite : FileId → Call := borrow
def sysRead : FileId → Call := borrow
def sysLseek : FileId → Call := borrow
def sysGetdents : FileId → Call := borrow

/-- One entry of `sys_poll` -/
def sysPoll : FileId → Call := borrow

/-- One bit of `sys_select` -/
def sysSelect : FileId → Call := borrow

/-- The internet socket calls look their socket up in this way. -/
def vfsVnodeOfFd : FileId → Call := borrow

/-- `fd_vnode_of` answers with the vnode only, and nobody closes the file. -/
def sysIoctl (f : FileId) : Call := .forget f .ret

def sysDup (f : FileId) : Call := .dup f

def sysClose (fd : Fd) (f : FileId) : Call := .close f (.put fd .ret)

def sysUsockAccept (lf : FileId) : Call := .accepting lf

/-- The rest of it with the new connection; no path closes the listener. -/
def accepted (lf cf : FileId) : Call :=
  .install cf (.forget lf .ret) (.close cf (.forget lf .ret))

/-- A call that puts a new file into the table, or closes it. -/
def installNew (f : FileId) : Call := .install f .ret (.close f .ret)

def sysOpen : FileId → Call := installNew
def sysUsockServe : FileId → Call := installNew
def sysUsockConnect : FileId → Call := installNew
def vfsInstallVnode : FileId → Call := installNew

/-- A call that puts two new files into the table. When there is room for the first only, it
stays there. -/
def installPair (f g : FileId) : Call :=
  .install f (.install g .ret (.close g .ret)) (.close g (.close f .ret))

def sysPipe : FileId → FileId → Call := installPair
def sysSocketpair : FileId → FileId → Call := installPair

/-- One round of the loop of `vfs_proc_fds_release`, and the rest of it. -/
def releaseStep (tab : Table) (fd : Fd) (k : Call) : Call :=
  match tab fd with
  | some f => .close f k
  | none => k

/-- The loop of `vfs_proc_fds_release` over a table that no process has any more -/
def release (tab : Table) : Call := (List.finRange PROC_FD_MAX).foldr (releaseStep tab) .ret

end Call

/-- The calls that start with `vfs_fd_get`. -/
inductive FdCall
  | write | read | lseek | getdents | poll | select | vnodeOfFd | ioctl | dup | close
  | usockAccept
deriving DecidableEq

/-- What they do with the file they get. -/
def FdCall.rest (fd : Fd) (f : FileId) : FdCall → Call
  | .write => .sysWrite f
  | .read => .sysRead f
  | .lseek => .sysLseek f
  | .getdents => .sysGetdents f
  | .poll => .sysPoll f
  | .select => .sysSelect f
  | .vnodeOfFd => .vfsVnodeOfFd f
  | .ioctl => .sysIoctl f
  | .dup => .sysDup f
  | .close => .sysClose fd f
  | .usockAccept => .sysUsockAccept f

/-- The calls that make one file. -/
inductive NewCall
  | open
  /-- the path may be taken, or no room left for a listener -/
  | usockServe (published : Bool)
  | usockConnect
  | installVnode
deriving DecidableEq

def NewCall.rest (f : FileId) : NewCall → Call
  | .open => .sysOpen f
  | .usockServe published => if published then .sysUsockServe f else .close f .ret
  | .usockConnect => .sysUsockConnect f
  | .installVnode => .vfsInstallVnode f

/-- The calls that make two files. -/
inductive PairCall
  | pipe
  | socketpair
deriving DecidableEq

def PairCall.rest (f g : FileId) : PairCall → Call
  | .pipe => .sysPipe f g
  | .socketpair => .sysSocketpair f g

/-! ## The system -/

/-- The files, `fds` of every process (none once it is gone), how many processes there have
been, the process of every task and what is left of its call. -/
structure Sys where
  files : Files
  fds : ProcId → Option Table
  nproc : ℕ
  proc : Slot → Option ProcId
  call : Slot → Call

namespace Sys

def setCall (s : Sys) (t : Slot) (k : Call) : Sys := { s with call := update s.call t k }

def setFds (s : Sys) (p : ProcId) (tab : Option Table) : Sys :=
  { s with fds := update s.fds p tab }

/-- `proc_current()->fds` -/
def fdsOf (s : Sys) (t : Slot) : Option (ProcId × Table) :=
  (s.proc t).bind fun p => (s.fds p).map fun tab => (p, tab)

/-- `vfs_fd_get` by the task `t` -/
def fdGet (s : Sys) (t : Slot) (fd : Fd) : Option FileId := (s.fdsOf t).bind fun x => x.2 fd

/-- `vfs_fd_install` by the task `t` -/
def fdInstall (s : Sys) (t : Slot) (x : ProcId × Table) (f : FileId) (ok fail : Call) : Sys :=
  match Vfs.fdInstall x.2 f with
  | some tab => (s.setFds x.1 (some tab)).setCall t ok
  | none => s.setCall t fail

/-- The next section of the call of the task `t`. -/
def next (s : Sys) (t : Slot) : Sys :=
  match s.call t with
  | .close f k => { s with files := s.files.close f }.setCall t k
  | .put fd k =>
    match s.fdsOf t with
    | some (p, tab) =>
      match tab fd with
      | some f => (s.setFds p (some (update tab fd none))).setCall t (.close f k)
      | none => s.setCall t k
    | none => s.setCall t k
  | .install f ok fail =>
    match s.fdsOf t with
    | some x => s.fdInstall t x f ok fail
    | none => s.setCall t (.late f ok fail)
  | .dup f =>
    match s.fdsOf t with
    | some x => s.fdInstall t x f .ret .ret
    | none => s.setCall t .ret
  | .forget _ k => s.setCall t k
  | _ => s

/-- The rest of `fd_install_of` after its `vfs_proc_fds_init`, which does not look at the
table that another task may have put there meanwhile. -/
def fdsInit (s : Sys) (t : Slot) (p : ProcId) (std : Fin 3 → Bool) (f : FileId)
    (ok fail : Call) : Sys :=
  let r := vfsProcFdsInit s.files std
  ({ s with files := r.1 }.setFds p (some r.2)).setCall t (.install f ok fail)

/-- `pipe_make` and `usocket_pair` with the files they get, and the rest of the call. -/
def pair (s : Sys) (t : Slot) (k : PairCall) (first second : Bool) : Sys :=
  let f := s.files.fresh
  match first, second with
  | true, true =>
    { s with files := s.files.alloc.alloc }.setCall t (k.rest f (f + 1))
  | false, false => s
  | _, _ => { s with files := s.files.alloc }.setCall t (.close f .ret)

/-- `proc_spawn` up to its `vfs_proc_fds_init` -/
def spawn (s : Sys) (t : Slot) (std : Fin 3 → Bool) : Sys :=
  let r := vfsProcFdsInit s.files std
  ({ s with files := r.1, nproc := s.nproc + 1 }.setFds s.nproc (some r.2)).setCall t
    (.spawning s.nproc)

/-- `proc_do_fork` up to its `vfs_proc_fds_inherit`, with or without memory for the table -/
def fork (s : Sys) (t : Slot) (copied : Bool) : Sys :=
  match s.fdsOf t, copied with
  | some (_, tab), true =>
    ({ s with files := refAll s.files tab, nproc := s.nproc + 1 }.setFds s.nproc
      (some tab)).setCall t (.forking s.nproc)
  | _, _ => { s with nproc := s.nproc + 1 }.setCall t (.forking s.nproc)

/-- `vfs_proc_fds_release` of the process `p` by the task `t` -/
def release (s : Sys) (t : Slot) (p : ProcId) : Sys :=
  match s.fds p with
  | some tab => (s.setFds p none).setCall t (.release tab)
  | none => s.setCall t .ret

end Sys

/-! ## Steps -/

inductive Event
  /-- `vfs_fd_get` finds an open file -/
  | get (t : Slot) (k : FdCall) (fd : Fd)
  | make (t : Slot) (k : NewCall)
  | pair (t : Slot) (k : PairCall) (first second : Bool)
  | next (t : Slot)
  | fdsInit (t : Slot) (std : Fin 3 → Bool)
  | fdsInitFails (t : Slot)
  | accepted (t : Slot)
  | acceptFails (t : Slot)
  | spawn (t : Slot) (std : Fin 3 → Bool)
  | spawned (t u : Slot)
  | spawnFails (t : Slot)
  | fork (t : Slot) (copied : Bool)
  | forked (t u : Slot)
  | forkFails (t : Slot)
  /-- `proc_do_exec` leaves the table alone -/
  | execve (t : Slot)
  | threadCreate (t u : Slot)
  /-- the slot of a dead task is given back, wherever it was -/
  | reclaim (u : Slot)
  /-- `reap_one` by the task `t` -/
  | reap (t : Slot) (p : ProcId)

namespace Sys

/-- The state after an event. -/
def act (s : Sys) : Event → Sys
  | .get t k fd =>
    match s.fdGet t fd with
    | some f => { s with files := s.files.ref f }.setCall t (k.rest fd f)
    | none => s
  | .make t k => { s with files := s.files.alloc }.setCall t (k.rest s.files.fresh)
  | .pair t k first second => s.pair t k first second
  | .next t => s.next t
  | .fdsInit t std =>
    match s.proc t, s.call t with
    | some p, .late f ok fail => s.fdsInit t p std f ok fail
    | _, _ => s
  | .fdsInitFails t =>
    match s.call t with
    | .late _ _ fail => s.setCall t fail
    | _ => s
  | .accepted t =>
    match s.call t with
    | .accepting lf =>
      { s with files := s.files.alloc }.setCall t (.accepted lf s.files.fresh)
    | _ => s
  | .acceptFails t =>
    match s.call t with
    | .accepting lf => s.setCall t (.forget lf .ret)
    | _ => s
  | .spawn t std => s.spawn t std
  | .spawned t u =>
    match s.call t with
    | .spawning p => { s with proc := update s.proc u (some p) }.setCall t .ret
    | _ => s
  | .spawnFails t =>
    match s.call t with
    | .spawning p => s.release t p
    | _ => s
  | .fork t copied => s.fork t copied
  | .forked t u =>
    match s.call t with
    | .forking p => { s with proc := update s.proc u (some p) }.setCall t .ret
    | _ => s
  | .forkFails t =>
    match s.call t with
    | .forking p => (s.setFds p none).setCall t .ret
    | _ => s
  | .execve _ => s
  | .threadCreate t u => { s with proc := update s.proc u (s.proc t) }
  | .reclaim u => { s with proc := update s.proc u none }.setCall u .ret
  | .reap t p => s.release t p

/-- The slot is free for a new task. -/
def Spare (s : Sys) (u : Slot) : Prop := s.proc u = none ∧ s.call u = .ret

/-- A task does one thing after another. -/
def Enabled (s : Sys) : Event → Prop
  | .get t _ fd => s.call t = .ret ∧ (s.fdGet t fd).isSome
  | .make t _ | .pair t _ _ _ | .fork t _ | .execve t => s.call t = .ret ∧ (s.proc t).isSome
  | .next t => s.call t ≠ .ret
  | .fdsInit t _ => (s.proc t).isSome ∧ s.call t ≠ .ret
  | .fdsInitFails t | .accepted t | .acceptFails t | .spawnFails t | .forkFails t =>
    s.call t ≠ .ret
  | .spawned t u | .forked t u => s.call t ≠ .ret ∧ t ≠ u ∧ s.Spare u
  | .spawn t _ => s.call t = .ret
  | .threadCreate t u => s.call t = .ret ∧ (s.proc t).isSome ∧ t ≠ u ∧ s.Spare u
  | .reclaim u => (s.proc u).isSome
  | .reap t p => s.call t = .ret ∧ p < s.nproc

instance (s : Sys) (u : Slot) : Decidable (s.Spare u) := inferInstanceAs (Decidable (_ ∧ _))

instance (s : Sys) : ∀ e, Decidable (s.Enabled e)
  | .get _ _ _ | .make _ _ | .pair _ _ _ _ | .fork _ _ | .execve _ | .fdsInit _ _
  | .spawned _ _ | .forked _ _ | .threadCreate _ _ | .reap _ _ =>
    inferInstanceAs (Decidable (_ ∧ _))
  | .next _ | .fdsInitFails _ | .accepted _ | .acceptFails _ | .spawnFails _ | .forkFails _ =>
    inferInstanceAs (Decidable (_ ≠ _))
  | .spawn _ _ => inferInstanceAs (Decidable (_ = _))
  | .reclaim _ => inferInstanceAs (Decidable (Option.isSome _ = true))

end Sys

def Step (s : Sys) (e : Event) (s' : Sys) : Prop := s.Enabled e ∧ s' = s.act e

end Vfs
end MobilePhoneOs
