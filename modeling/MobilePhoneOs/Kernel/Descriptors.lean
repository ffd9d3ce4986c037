import MobilePhoneOs.Fs.Vfs
import MobilePhoneOs.Kernel.MqueueLife
import MobilePhoneOs.Kernel.PipePool
import MobilePhoneOs.Kernel.Uaccess
import MobilePhoneOs.Kernel.UnixsockConnect

/-!
# The syscalls that make descriptors (`kernel/syscall.c`)

`sys_pipe`, `sys_socketpair`, `sys_dup`, `sys_msgget` and `sys_usock_accept` from their entry to
their return, over the descriptor table and the queue handles of the caller, the open files, the
three pools and user memory. One call runs at a time. Which allocations find memory is an
argument of the call. The vnode of a file that is neither a pipe nor a socket is not followed.
-/

namespace MobilePhoneOs.Descriptors

open Ipc (Task Pool mqOpen)
open Ipc.Usock (Socks EpId FileMemory epAlloc epRelease usocketPair endpointFile acceptSection
  tellClient linkClient usListenerDestroy nextClient)
open Ipc.MqLife (Handles PROC_MQ_MAX mqHandleInstall)
open Vfs (Fd FileId Files Table PROC_FD_MAX vfsProcFdsInit)

def ENOENT : ℤ := 2
def EBADF : ℤ := 9
def ENOMEM : ℤ := 12
def EFAULT : ℤ := 14
def EINVAL : ℤ := 22
def ENFILE : ℤ := 23
def EMFILE : ℤ := 24
def ENOTSOCK : ℤ := 88

/-! ## Files and descriptors -/

/-- What a file is open on. -/
inductive Vnode
  /-- one end of the pipe `i` -/
  | pipe (i : ℕ) (reader : Bool)
  | data (e : EpId)
  | listener (e : EpId)
  | other
deriving DecidableEq

/-- The endpoint behind a vnode of type `V_SOCK`. -/
def Vnode.endpoint : Vnode → Option EpId
  | .data e | .listener e => some e
  | .pipe _ _ | .other => none

/-- What the calls work on; `fds` is null until the first descriptor of a process is installed. -/
structure State where
  fds : Option Table
  mqHandles : Handles
  files : Files
  vnode : FileId → Vnode
  pipes : Ipc.PipePool.Sys
  socks : Socks
  queues : Pool
  mem : Mm.Mem
  root : ℕ

/-- Which allocations of a call find memory. -/
structure Memory where
  pipe : Ipc.PipePool.Memory
  a : FileMemory
  b : FileMemory
  /-- `kmalloc` in `vfs_proc_fds_init` -/
  table : Bool
  /-- the `console_file` calls there -/
  std : Fin 3 → Bool

namespace State

/-- `file_alloc` with enough memory -/
def fileAlloc (s : State) (v : Vnode) : State :=
  { s with files := s.files.alloc, vnode := Function.update s.vnode s.files.fresh v }

/-- The destroy hook of a vnode -/
def destroy (s : State) : Vnode → State
  | .pipe i reader => { s with pipes := s.pipes.onPipe i fun o => o.destroyEnd reader }
  | .data e => { s with socks := epRelease s.socks e }
  | .listener e =>
    match (s.socks.ep e).lslot with
    | some i => { s with socks := usListenerDestroy s.socks e i }
    | none => s
  | .other => s

/-- `file_close` -/
def fileClose (s : State) (f : FileId) : State :=
  let left := (s.files.file f).refs - 1
  let s := { s with files := s.files.close f }
  if left = 0 then s.destroy (s.vnode f) else s

/-- The file under the descriptor `fd`. -/
def openFile (s : State) (fd : ℤ) : Option FileId :=
  match s.fds with
  | none => none
  | some tab => if h : 0 ≤ fd ∧ fd.toNat < PROC_FD_MAX then tab ⟨fd.toNat, h.2⟩ else none

/-- `vfs_fd_get` -/
def vfsFdGet (s : State) (fd : ℤ) : Option (State × FileId) :=
  (s.openFile fd).map fun f => ({ s with files := s.files.ref f }, f)

/-- `vfs_fd_install` into the table of the caller -/
def vfsFdInstall (s : State) (f : FileId) : State × ℤ :=
  match s.fds with
  | none => (s, -EINVAL)
  | some tab =>
    match (List.finRange PROC_FD_MAX).find? fun fd => tab fd = none with
    | some fd => ({ s with fds := some (Function.update tab fd (some f)) }, (fd : ℕ))
    | none => (s, -EMFILE)

/-- `vfs_proc_fds_init` with enough memory for the table -/
def fdsInit (s : State) (std : Fin 3 → Bool) : State :=
  let r := vfsProcFdsInit s.files std
  { s with
    fds := some r.2
    files := r.1
    vnode := fun f => if s.files.fresh ≤ f then .other else s.vnode f }

/-- `fd_install_of` -/
def fdInstallOf (m : Memory) (s : State) (f : FileId) : State × ℤ :=
  match s.fds with
  | some _ => s.vfsFdInstall f
  | none => if m.table = false then (s, -EMFILE) else (s.fdsInit m.std).vfsFdInstall f

end State

/-- The bytes of `out` in `sys_pipe` and `sys_socketpair`. -/
def outBytes (a b : ℤ) (i : ℕ) : ℕ :=
  ((if i < 4 then a else b) % 2 ^ 32).toNat / 2 ^ (8 * (i % 4)) % 256

/-! ## The calls -/

/-- What `sys_pipe` and `sys_socketpair` do with their two files. -/
def installPair (m : Memory) (junk ufds : ℕ) (s : State) (fa fb : FileId) : State × ℤ :=
  let (s, a) := s.fdInstallOf m fa
  if a < 0 then ((s.fileClose fb).fileClose fa, -EMFILE)
  else
    let (s, b) := s.fdInstallOf m fb
    if b < 0 then (s.fileClose fb, -EMFILE) -- the first file stays installed
    else
      let (e, mem, _) := Uaccess.copyOut s.mem s.root junk ufds (outBytes a b) 8
      if e ≠ 0 then (s, -EFAULT) else ({ s with mem := mem }, 0)

/-- `sys_pipe` -/
def sysPipe (m : Memory) (junk ufds : ℕ) (s : State) : State × ℤ :=
  let i := s.pipes.objs.length
  let (pipes, out) := Ipc.PipePool.pipeMakeCall s.pipes true m.pipe
  let s := { s with pipes := pipes }
  if out ≠ .made then (s, -ENFILE)
  else
    let rf := s.files.fresh
    let s := s.fileAlloc (.pipe i true)
    let wf := s.files.fresh
    let s := s.fileAlloc (.pipe i false)
    installPair m junk ufds s rf wf

/-- `sys_socketpair` -/
def sysSocketpair (m : Memory) (junk ufds : ℕ) (s : State) : State × ℤ :=
  let (socks, out) := usocketPair s.socks m.a m.b
  let s := { s with socks := socks }
  match out with
  | none => (s, -ENFILE)
  | some (a, b) =>
    let fa := s.files.fresh
    let s := s.fileAlloc (.data a)
    let fb := s.files.fresh
    let s := s.fileAlloc (.data b)
    installPair m junk ufds s fa fb

/-- `sys_dup` -/
def sysDup (fd : ℕ) (s : State) : State × ℤ :=
  if s.fds = none ∨ fd ≥ PROC_FD_MAX then (s, -EBADF)
  else
    match s.vfsFdGet fd with
    | none => (s, -EBADF)
    | some (s, f) => s.vfsFdInstall f

/-- The part of `sys_msgget` that reads the name. -/
def nameIn (s : State) (junk uname : ℕ) : Except ℤ (List UInt8) :=
  let nl := Uaccess.strnlenUser s.mem s.root uname (Ipc.MQ_NAME_MAX - 1)
  if nl ≤ 0 then .error (if nl < 0 then -EFAULT else -ENOENT)
  else
    let (e, name, _) := Uaccess.copyIn s.mem s.root junk (fun _ => 0) uname nl.toNat
    if e ≠ 0 then .error (-EFAULT)
    else .ok ((List.range nl.toNat).map fun i => UInt8.ofNat (name i))

/-- The part of `sys_msgget` after `mq_open`. -/
def installHandle (s : State) (id : ℕ) : State × ℤ :=
  match mqHandleInstall s.mqHandles with
  | some i => ({ s with mqHandles := Function.update s.mqHandles i (id + 1) }, (i : ℕ) + 1)
  | none => (s, -EMFILE)

/-- `sys_msgget` -/
def sysMsgget (junk uname : ℕ) (s : State) : State × ℤ :=
  match nameIn s junk uname with
  | .error e => (s, e)
  | .ok name =>
    let (queues, out) := mqOpen s.queues name
    let s := { s with queues := queues }
    match out with
    | .inval => (s, -EINVAL)
    | .nfile => (s, -ENFILE)
    | .opened id | .created id => installHandle s id

/-- `usock_accept` from a round of its loop on, by task `t`: what it returns, or `none` when the
round parks. -/
def usockAccept (m : FileMemory) (t : Task) (s : State) (lf : FileId) :
    State × Option (Except ℤ FileId) :=
  match (s.vnode lf).endpoint with
  | none => (s, some (.error (-ENOTSOCK)))
  | some l =>
    let (socks, popped) := acceptSection s.socks l t
    match popped with
    | .closed => ({ s with socks := socks }, some (.error (-EINVAL)))
    | .parked => ({ s with socks := socks }, none)
    | .client cli =>
      match epAlloc socks with
      | none => ({ s with socks := tellClient socks cli (-ENOMEM) }, some (.error (-ENOMEM)))
      | some (socks, srv) =>
        let socks := socks.setEp srv { socks.ep srv with state := .data }
        let (socks, made) := endpointFile (linkClient socks cli srv) srv m
        if made = false then
          ({ s with socks := epRelease (epRelease socks srv) cli }, some (.error (-ENOMEM)))
        else
          (({ s with socks := socks } : State).fileAlloc (.data srv), some (.ok s.files.fresh))

/-- What `sys_usock_accept` does once it has the listener's file, from its start and after a
park. -/
def acceptOn (m : Memory) (t : Task) (s : State) (lf : FileId) : State × Option ℤ :=
  let (s, out) := usockAccept m.a t s lf
  match out with
  | none => (s, none)
  | some (.error rc) => (s, some rc)
  | some (.ok cf) =>
    let (s, nfd) := s.fdInstallOf m cf
    if nfd < 0 then (s.fileClose cf, some (-EMFILE)) else (s, some nfd)

/-- `sys_usock_accept`; `none` when it parks. -/
def sysUsockAccept (m : Memory) (t : Task) (fd : ℕ) (s : State) : State × Option ℤ :=
  match s.vfsFdGet (Int.bmod fd (2 ^ 32)) with
  | none => (s, some (-EBADF))
  | some (s, lf) => acceptOn m t s lf

/-! ## Nothing is left behind -/

/-- The descriptor table, the handle table, the reference counts and the pools are the same. -/
structure Same (s s' : State) : Prop where
  fds : s'.fds = s.fds
  mqHandles : s'.mqHandles = s.mqHandles
  refs : ∀ f, (s'.files.file f).refs = (s.files.file f).refs
  pipeUsed : s'.pipes.pipeUsed = s.pipes.pipeUsed
  objs : s.pipes.objs <+: s'.pipes.objs
  socks : s'.socks = s.socks
  queues : s'.queues = s.queues

/-- A call that returns an error has changed none of them. -/
def Atomic (s : State) (r : State × ℤ) : Prop := r.2 < 0 → Same s r.1

/-- The same of a call that may park. -/
def AtomicOrParked (s : State) (r : State × Option ℤ) : Prop := ∀ rc ∈ r.2, rc < 0 → Same s r.1

/-- The descriptors that are free. -/
def freeFds (tab : Table) : ℕ := ∑ fd, if tab fd = none then 1 else 0

/-- The endpoints that are free. -/
def freeEps (s : Socks) : ℕ :=
  ∑ e ∈ Finset.range Ipc.Usock.USOCK_EP_MAX, if s.epUsed e = true then 0 else 1

namespace State

/-- `k` files can be installed, in a new table if need be. -/
def FdRoom (m : Memory) (s : State) (k : ℕ) : Prop :=
  match s.fds with
  | some tab => k ≤ freeFds tab
  | none => m.table = true

/-- The user may write the `len` bytes at `va`. -/
def Writable (s : State) (va len : ℕ) : Prop :=
  Uaccess.rangeOk va len = true ∧ Uaccess.checkRange s.mem s.root va len true = 0

/-- `k` endpoints can be allocated. -/
def EpRoom (s : State) (k : ℕ) : Prop := k ≤ freeEps s.socks

/-- There is a flag of `pipe_used` and the memory for a pipe and its two ends. -/
def PipeRoom (m : Memory) (s : State) : Prop :=
  Ipc.PipePool.freeSlot s.pipes.pipeUsed ≠ none ∧ m.pipe = ⟨true, true, true, true, true⟩

/-- There is a queue of the name, or an entry for one. -/
def QueueRoom (s : State) (name : List UInt8) : Prop :=
  ∃ id < Ipc.MQ_QUEUES_MAX, (s.queues id).used = false ∨
    Ipc.strncmpEq (s.queues id).name name Ipc.MQ_NAME_MAX = true

/-- The listener in the slot `i` is behind the file. -/
def Listens (s : State) (i : ℕ) (lf : FileId) : Prop :=
  ∃ l, (s.vnode lf).endpoint = some l ∧ (s.socks.ep l).state = .listener ∧
    (s.socks.ep l).lslot = some i

/-- An accept on the file parks, or has all that it needs for the client. -/
def CanAccept (m : Memory) (s : State) (lf : FileId) : Prop :=
  ∃ i, s.Listens i lf ∧ (nextClient s.socks i = none ∨
    s.EpRoom 1 ∧ m.a = .ok ∧ s.FdRoom m 1)

/-- The state without one of the references to the file. -/
def unref (s : State) (f : FileId) : State := { s with files := s.files.close f }

/-- The descriptors of the caller are open on files that there are. -/
def Live (s : State) : Prop :=
  ∀ tab ∈ s.fds, ∀ fd, ∀ f ∈ tab fd, f < s.files.fresh

end State

end MobilePhoneOs.Descriptors
