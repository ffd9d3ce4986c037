import MobilePhoneOs.Kernel.Mqueue
import MobilePhoneOs.Lib.Tally

/-!
# The life of a message queue (`kernel/ipc.c`, `sys_msgget`)

The queues of `Mqueue` with the handle slots of every process and with what every task has in
hand: a queue that it has opened and not yet installed, a handle slot that it has picked, or
a blocking operation that it is inside of. A task that is killed inside an operation never
runs again; nothing takes its pin back.
-/

namespace MobilePhoneOs.Ipc.MqLife

open Mq (Call Locked locked resumed)

/-- `PROC_MQ_MAX` -/
def PROC_MQ_MAX : ℕ := 4

instance : NeZero PROC_MQ_MAX := ⟨by decide⟩

/-- A `struct proc`, by number. -/
abbrev ProcId := ℕ

/-- `mq_handles` of one process: the queue plus one, or 0 -/
abbrev Handles := Fin PROC_MQ_MAX → ℕ

/-- What a task has in hand between two locked sections. -/
inductive Phase
  /-- the queue `id` is open, and no slot holds its handle -/
  | holds (id : ℕ)
  /-- `mq_handle_install` has found the slot `i` of `p` empty -/
  | picked (p : ProcId) (i : Fin PROC_MQ_MAX) (id : ℕ)
  /-- inside `mq_send_id` or `mq_receive_id`, parked or woken -/
  | inside (c : Call)
deriving DecidableEq

structure Sys where
  pool : Pool
  mqHandles : ProcId → Handles
  calls : List (Task × Phase)

/-- The loop of `mq_handle_install` up to the slot that it takes. -/
def mqHandleInstall (h : Handles) : Option (Fin PROC_MQ_MAX) :=
  (List.finRange PROC_MQ_MAX).find? fun i => h i = 0

/-- `mq_handle_lookup` of the handle `i + 1` -/
def mqHandleLookup (h : Handles) (i : Fin PROC_MQ_MAX) : Option ℕ :=
  if h i = 0 then none else some (h i - 1)

namespace Sys

/-- `ipc_subsys_init`, and no process with a handle. -/
def init : Sys := ⟨fun _ => Mqueue.zero, fun _ _ => 0, []⟩

def setPool (s : Sys) (pool : Pool) : Sys := { s with pool := pool }

def setHandle (s : Sys) (p : ProcId) (i : Fin PROC_MQ_MAX) (v : ℕ) : Sys :=
  { s with mqHandles := Function.update s.mqHandles p (Function.update (s.mqHandles p) i v) }

/-- The task goes from one phase to another. -/
def goes (s : Sys) (t : Task) (old new : Phase) : Sys :=
  { s with calls := (t, new) :: s.calls.erase (t, old) }

def done (s : Sys) (t : Task) (old : Phase) : Sys := { s with calls := s.calls.erase (t, old) }

def starts (s : Sys) (t : Task) (new : Phase) : Sys := { s with calls := (t, new) :: s.calls }

end Sys

inductive Event
  /-- `mq_open` in `sys_msgget` -/
  | open (t : Task) (name : List UInt8)
  /-- `mq_handle_install` in `sys_msgget`; if it finds no slot, the call returns `-EMFILE` -/
  | pick (t : Task) (p : ProcId) (id : ℕ)
  | store (t : Task) (p : ProcId) (i : Fin PROC_MQ_MAX) (id : ℕ)
  | send (t : Task) (id : ℕ) (hasBuf : Bool) (msg : List UInt8)
  | resend (t : Task) (id : ℕ) (msg : List UInt8)
  | receive (t : Task) (id : ℕ) (hasBuf : Bool) (buflen : ℕ)
  | rereceive (t : Task) (id : ℕ) (buflen : ℕ)
  /-- a task is killed inside an operation -/
  | kill (t : Task) (c : Call)
  /-- one round of `ipc_proc_exit` up to `mq_handle_release` -/
  | release (t : Task) (p : ProcId) (i : Fin PROC_MQ_MAX)
  /-- `mq_close_id` of a queue in hand -/
  | close (t : Task) (id : ℕ)

namespace Sys

def act (s : Sys) : Event → Sys
  | .open t name =>
    let r := mqOpen s.pool name
    match r.2 with
    | .opened id | .created id => (s.setPool r.1).starts t (.holds id)
    | .inval | .nfile => s.setPool r.1
  | .pick t p id =>
    match mqHandleInstall (s.mqHandles p) with
    | some i => s.goes t (.holds id) (.picked p i id)
    | none => s.done t (.holds id)
  | .store t p i id => (s.setHandle p i (id + 1)).done t (.picked p i id)
  | .send t id hasBuf msg =>
    let r := mqSendId s.pool t id hasBuf msg
    if r.2 = .parked then (s.setPool r.1).starts t (.inside (.send id msg))
    else s.setPool r.1
  | .resend t id msg =>
    let r := sendSection (s.pool id) t msg
    let s := s.setPool (Function.update s.pool id r.1)
    if r.2 = .parked then s else s.done t (.inside (.send id msg))
  | .receive t id hasBuf buflen =>
    let r := mqReceiveId s.pool t id hasBuf buflen
    if r.2 = .parked then (s.setPool r.1).starts t (.inside (.receive id buflen))
    else s.setPool r.1
  | .rereceive t id buflen =>
    let r := receiveSection (s.pool id) t buflen
    let s := s.setPool (Function.update s.pool id r.1)
    if r.2 = .parked then s else s.done t (.inside (.receive id buflen))
  | .kill t c => s.done t (.inside c)
  | .release t p i =>
    match mqHandleLookup (s.mqHandles p) i with
    | some id => (s.setHandle p i 0).starts t (.holds id)
    | none => s
  | .close t id => (s.setPool (mqCloseId s.pool id).1).done t (.holds id)

/-- The task is not in the middle of a call. -/
def Idle (s : Sys) (t : Task) : Prop := ∀ x ∈ s.calls, x.1 ≠ t

/-- A task does one thing after another, a parked task runs again once it is off the wait queue,
and there are `n` processes. -/
def Enabled (n : ℕ) (s : Sys) : Event → Prop
  | .open t _ | .send t _ _ _ | .receive t _ _ _ => s.Idle t
  | .pick t p id => (t, .holds id) ∈ s.calls ∧ p < n
  | .store t p i id => (t, .picked p i id) ∈ s.calls ∧ p < n
  | .resend t id msg => (t, .inside (.send id msg)) ∈ s.calls ∧ t ∉ (s.pool id).sq
  | .rereceive t id buflen => (t, .inside (.receive id buflen)) ∈ s.calls ∧ t ∉ (s.pool id).rq
  | .kill t c => (t, .inside c) ∈ s.calls
  | .release t p _ => s.Idle t ∧ p < n
  | .close t id => (t, .holds id) ∈ s.calls

instance (s : Sys) (t : Task) : Decidable (s.Idle t) := inferInstanceAs (Decidable (∀ x ∈ _, _))

instance (n : ℕ) (s : Sys) : ∀ e, Decidable (s.Enabled n e)
  | .open _ _ | .send _ _ _ _ | .receive _ _ _ _ => inferInstanceAs (Decidable (Idle _ _))
  | .pick _ _ _ | .store _ _ _ _ | .resend _ _ _ | .rereceive _ _ _ | .release _ _ _ =>
    inferInstanceAs (Decidable (_ ∧ _))
  | .kill _ _ | .close _ _ => inferInstanceAs (Decidable (_ ∈ _))

/-! ## What is counted -/

/-- The handle slots of one process that name the queue `id`. -/
def naming (id : ℕ) (h : Handles) : ℕ := ∑ i, if h i = id + 1 then 1 else 0

/-- The handle slots of the first `n` processes that name it. -/
def slots (n : ℕ) (s : Sys) (id : ℕ) : ℕ := ∑ p ∈ Finset.range n, naming id (s.mqHandles p)

/-- A handle to the queue `id` that is not in a slot. -/
def isHeld (id : ℕ) (x : Task × Phase) : Bool :=
  match x.2 with
  | .holds j | .picked _ _ j => j = id
  | .inside _ => false

/-- A live task inside an operation on the queue `id`. -/
def isInside (id : ℕ) (x : Task × Phase) : Bool :=
  match x.2 with
  | .inside c => c.id = id
  | _ => false

def held (s : Sys) (id : ℕ) : ℕ := s.calls.countP (isHeld id)

def inside (s : Sys) (id : ℕ) : ℕ := s.calls.countP (isInside id)

end Sys

/-- Sections one after another. -/
def Step (n : ℕ) (s : Sys) (e : Event) (s' : Sys) : Prop := s.Enabled n e ∧ s' = s.act e

def Event.task : Event → Task
  | .open t _ | .pick t _ _ | .store t _ _ _ | .send t _ _ _ | .resend t _ _ | .receive t _ _ _
  | .rereceive t _ _ | .kill t _ | .release t _ _ | .close t _ => t

/-- The section takes `ipc_lock`. -/
def Event.locks : Event → Bool
  | .open _ _ | .send _ _ _ _ | .receive _ _ _ _ | .close _ _ => true
  | _ => false

/-- The sections as sequences of accesses. A resumed one goes on without the lock. -/
def sectionCode : Event → Code (Locked Sys) Unit
  | .resend t id msg =>
    resumed Sys.pool Sys.setPool id (sendCode t msg)
      (fun out s => if out = .parked then s else s.done t (.inside (.send id msg))) fun _ => ()
  | .rereceive t id buflen =>
    resumed Sys.pool Sys.setPool id (receiveCode t buflen)
      (fun out s => if out = .parked then s else s.done t (.inside (.receive id buflen))) fun _ => ()
  | e =>
    if e.locks then locked fun s => (s.act e, ())
    else .write (fun s => { s with sys := s.sys.act e }) (.done ())

/-- A section begins when its task is in no other, and where it takes the lock, when that is
free; `es` are the sections under way. -/
def Begins (n : ℕ) (s : Locked Sys) (es : List Event) (e : Event) : Prop :=
  (∀ e' ∈ es, e'.task ≠ e.task) ∧ (e.locks = true → s.ipcLock = false) ∧ s.sys.Enabled n e

end MobilePhoneOs.Ipc.MqLife
