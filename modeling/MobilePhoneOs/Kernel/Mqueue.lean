import MobilePhoneOs.Kernel.Pipe
import MobilePhoneOs.Lib.Interleave

/-!
# Message queues (`kernel/ipc.c`)

A pool of named queues, each a ring of `MQ_DEPTH` messages. `sendSection` and
`receiveSection` are the loop bodies of `mq_send_id` and `mq_receive_id`. The first time the
body runs under `ipc_lock`. A caller that parks keeps its `inflight` pin and gives the lock
back; after a wake it goes on with the body without the lock, and unlocks it at the end all the
same. `sendCode` and `receiveCode` are the bodies access by access.
-/

namespace MobilePhoneOs

open Function (update)
namespace Ipc

open Mem

def MQ_NAME_MAX : ℕ := 24
def MQ_MSG_MAX : ℕ := 192
def MQ_DEPTH : ℕ := 12
def MQ_QUEUES_MAX : ℕ := 8

/-- `struct mqueue` -/
structure Mqueue where
  used : Bool
  name : List UInt8
  head : ℕ
  count : ℕ
  msgs : ℕ → ℕ → UInt8
  mlen : ℕ → ℕ
  handles : ℕ
  inflight : ℕ
  sq : List Task
  rq : List Task

/-- A queue after `memset`. -/
def Mqueue.zero : Mqueue where
  used := false
  name := []
  head := 0
  count := 0
  msgs := fun _ _ => 0
  mlen := fun _ => 0
  handles := 0
  inflight := 0
  sq := []
  rq := []

/-- `mq_pool` -/
abbrev Pool := ℕ → Mqueue

/-- `mq_wake_pair` -/
def mqWakePair (q : Mqueue) : Mqueue := { q with sq := ipcWake q.sq, rq := ipcWake q.rq }

/-- `strncmp(a, b, n) == 0` for strings without NUL. -/
def strncmpEq (a b : List UInt8) (n : ℕ) : Bool := (a ++ [0]).take n = (b ++ [0]).take n

inductive OpenOutcome
  /-- `-EINVAL` -/
  | inval
  | opened (id : ℕ)
  | created (id : ℕ)
  /-- `-ENFILE` -/
  | nfile
deriving DecidableEq, Repr

/-- `mq_open` -/
def mqOpen (pool : Pool) (name : List UInt8) : Pool × OpenOutcome :=
  if name = [] then (pool, .inval)
  else
    let ids := List.range MQ_QUEUES_MAX
    match ids.find? fun i => (pool i).used && strncmpEq (pool i).name name MQ_NAME_MAX with
    | some id =>
      (update pool id { pool id with handles := (pool id).handles + 1 }, .opened id)
    | none =>
      match ids.find? fun i => !(pool i).used with
      | none => (pool, .nfile)
      | some empty =>
        (update pool empty
          { Mqueue.zero with used := true, name := name.take (MQ_NAME_MAX - 1), handles := 1 },
          .created empty)

/-- `mq_try_free` -/
def mqTryFree (q : Mqueue) : Mqueue :=
  if q.used = true ∧ q.handles = 0 ∧ q.inflight = 0 then mqWakePair { q with used := false }
  else q

inductive CloseOutcome
  | ok
  /-- `-EBADF` -/
  | badf
  /-- `-ENOENT` -/
  | noent
deriving DecidableEq, Repr

/-- `mq_close_id` -/
def mqCloseId (pool : Pool) (id : ℕ) : Pool × CloseOutcome :=
  if id ≥ MQ_QUEUES_MAX then (pool, .badf)
  else if (pool id).used = true ∧ (pool id).handles ≠ 0 then
    (update pool id
      (mqTryFree { pool id with handles := (pool id).handles - 1 }), .ok)
  else (pool, .noent)

inductive SendOutcome
  /-- `-EINVAL` -/
  | inval
  /-- `-EMSGSIZE` -/
  | msgsize
  /-- `-ENOENT` -/
  | noent
  | accepted
  | parked
deriving DecidableEq, Repr

/-- The loop body of `mq_send_id`. -/
def sendSection (q : Mqueue) (t : Task) (msg : List UInt8) : Mqueue × SendOutcome :=
  if q.count < MQ_DEPTH then
    let tail := (q.head + q.count) % MQ_DEPTH
    ({ q with
        msgs := update q.msgs tail (store (q.msgs tail) 0 msg)
        mlen := update q.mlen tail (msg.length % 2 ^ 16)
        count := q.count + 1
        inflight := q.inflight - 1
        rq := ipcWake q.rq }, .accepted)
  else ({ q with sq := ipcPark q.sq t }, .parked)

/-- `mq_send_id` up to its first park. -/
def mqSendId (pool : Pool) (t : Task) (id : ℕ) (hasBuf : Bool) (msg : List UInt8) :
    Pool × SendOutcome :=
  if hasBuf = false ∧ msg.length ≠ 0 then (pool, .inval)
  else if msg.length > MQ_MSG_MAX then (pool, .msgsize)
  else if id ≥ MQ_QUEUES_MAX ∨ (pool id).used = false then (pool, .noent)
  else
    let r := sendSection { pool id with inflight := (pool id).inflight + 1 } t msg
    (update pool id r.1, r.2)

inductive ReceiveOutcome
  /-- `-EINVAL` -/
  | inval
  /-- `-ENOENT` -/
  | noent
  /-- the full length, and what was copied to the caller's buffer -/
  | message (len : ℕ) (bytes : List UInt8)
  | parked
deriving DecidableEq, Repr

/-- The loop body of `mq_receive_id`. -/
def receiveSection (q : Mqueue) (t : Task) (buflen : ℕ) : Mqueue × ReceiveOutcome :=
  if q.count ≠ 0 then
    let slot := q.head
    let mlen := q.mlen slot
    let bytes := slice (q.msgs slot) 0 (if mlen < buflen then mlen else buflen)
    ({ q with
        head := (q.head + 1) % MQ_DEPTH
        count := q.count - 1
        inflight := q.inflight - 1
        sq := ipcWake q.sq }, .message mlen bytes)
  else ({ q with rq := ipcPark q.rq t }, .parked)

/-- `mq_receive_id` up to its first park. -/
def mqReceiveId (pool : Pool) (t : Task) (id : ℕ) (hasBuf : Bool) (buflen : ℕ) :
    Pool × ReceiveOutcome :=
  if hasBuf = false then (pool, .inval)
  else if id ≥ MQ_QUEUES_MAX ∨ (pool id).used = false then (pool, .noent)
  else
    let r := receiveSection { pool id with inflight := (pool id).inflight + 1 } t buflen
    (update pool id r.1, r.2)

/-! ## The loop bodies access by access -/

def sendCode (t : Task) (msg : List UInt8) : Code Mqueue SendOutcome :=
  .read fun q =>
    if q.count < MQ_DEPTH then
      .read fun q =>
        let tail := (q.head + q.count) % MQ_DEPTH
        .write (fun q => { q with msgs := update q.msgs tail (store (q.msgs tail) 0 msg) }) <|
        .write (fun q => { q with mlen := update q.mlen tail (msg.length % 2 ^ 16) }) <|
        .read fun q => .write ({ · with count := q.count + 1 }) <|
        .read fun q => .write ({ · with inflight := q.inflight - 1 }) <|
        .write (fun q => { q with rq := ipcWake q.rq }) (.done .accepted)
    else .write (fun q => { q with sq := ipcPark q.sq t }) (.done .parked)

def receiveCode (t : Task) (buflen : ℕ) : Code Mqueue ReceiveOutcome :=
  .read fun q =>
    if q.count ≠ 0 then
      .read fun q =>
        let slot := q.head
        .read fun q =>
          let mlen := q.mlen slot
          .read fun q =>
            let bytes := slice (q.msgs slot) 0 (if mlen < buflen then mlen else buflen)
            .read fun q => .write ({ · with head := (q.head + 1) % MQ_DEPTH }) <|
            .read fun q => .write ({ · with count := q.count - 1 }) <|
            .read fun q => .write ({ · with inflight := q.inflight - 1 }) <|
            .write (fun q => { q with sq := ipcWake q.sq }) (.done (.message mlen bytes))
    else .write (fun q => { q with rq := ipcPark q.rq t }) (.done .parked)

/-! ## Interleavings -/

namespace Mq

/-- A call that is parked, or woken and not yet run again. -/
inductive Call
  | send (id : ℕ) (msg : List UInt8)
  | receive (id : ℕ) (buflen : ℕ)
deriving DecidableEq

def Call.id : Call → ℕ
  | .send id _ => id
  | .receive id _ => id

/-- One section of some task, with what it returned. -/
inductive Event
  | open (name : List UInt8) (out : OpenOutcome)
  | close (id : ℕ) (out : CloseOutcome)
  | send (t : Task) (id : ℕ) (hasBuf : Bool) (msg : List UInt8) (out : SendOutcome)
  | resend (t : Task) (id : ℕ) (msg : List UInt8) (out : SendOutcome)
  | receive (t : Task) (id : ℕ) (hasBuf : Bool) (buflen : ℕ) (out : ReceiveOutcome)
  | rereceive (t : Task) (id : ℕ) (buflen : ℕ) (out : ReceiveOutcome)
deriving DecidableEq

/-- The pool and the calls in progress. -/
structure Sys where
  pool : Pool
  blocked : List (Task × Call)

/-- `ipc_subsys_init` -/
def Sys.init : Sys := ⟨fun _ => Mqueue.zero, []⟩

def Sys.setPool (s : Sys) (pool : Pool) : Sys := { s with pool := pool }

/-- Sections one after another. A task has one call in progress at a time; a parked task runs
again once it is off the wait queue. -/
def Step (s : Sys) : Event → Sys → Prop
  | .open name out, s' => (s'.pool, out) = mqOpen s.pool name ∧ s'.blocked = s.blocked
  | .close id out, s' => (s'.pool, out) = mqCloseId s.pool id ∧ s'.blocked = s.blocked
  | .send t id hasBuf msg out, s' =>
    (∀ c, (t, c) ∉ s.blocked) ∧ (s'.pool, out) = mqSendId s.pool t id hasBuf msg ∧
      s'.blocked = if out = .parked then (t, .send id msg) :: s.blocked else s.blocked
  | .resend t id msg out, s' =>
    (t, .send id msg) ∈ s.blocked ∧ t ∉ (s.pool id).sq ∧
      (s'.pool, out) =
        (update s.pool id (sendSection (s.pool id) t msg).1,
          (sendSection (s.pool id) t msg).2) ∧
      s'.blocked = if out = .parked then s.blocked else s.blocked.erase (t, .send id msg)
  | .receive t id hasBuf buflen out, s' =>
    (∀ c, (t, c) ∉ s.blocked) ∧ (s'.pool, out) = mqReceiveId s.pool t id hasBuf buflen ∧
      s'.blocked = if out = .parked then (t, .receive id buflen) :: s.blocked else s.blocked
  | .rereceive t id buflen out, s' =>
    (t, .receive id buflen) ∈ s.blocked ∧ t ∉ (s.pool id).rq ∧
      (s'.pool, out) =
        (update s.pool id (receiveSection (s.pool id) t buflen).1,
          (receiveSection (s.pool id) t buflen).2) ∧
      s'.blocked = if out = .parked then s.blocked else s.blocked.erase (t, .receive id buflen)

/-- A section that begins. -/
inductive Section
  | open (name : List UInt8)
  | close (id : ℕ)
  | send (t : Task) (id : ℕ) (hasBuf : Bool) (msg : List UInt8)
  | resend (t : Task) (id : ℕ) (msg : List UInt8)
  | receive (t : Task) (id : ℕ) (hasBuf : Bool) (buflen : ℕ)
  | rereceive (t : Task) (id : ℕ) (buflen : ℕ)
deriving DecidableEq

def Section.task : Section → Option Task
  | .open _ | .close _ => none
  | .send t _ _ _ | .resend t _ _ | .receive t _ _ _ | .rereceive t _ _ => some t

/-- What `ipc_lock` is there for, with its word. -/
structure Locked (σ : Type) where
  ipcLock : Bool
  sys : σ

/-- The unlock at the end of a section, after `f`. -/
def Locked.leave {σ : Type} (f : σ → σ) (s : Locked σ) : Locked σ := ⟨false, f s.sys⟩

/-- A section that takes the lock and does `f` under it. -/
def locked {σ β : Type} (f : σ → σ × β) : Code (Locked σ) β :=
  .write ({ · with ipcLock := true }) <|
  .access (fun s => { s with sys := (f s.sys).1 }) fun s => .write (.leave id) (.done (f s.sys).2)

/-- A section that goes on after a park with the loop body `c` of queue `id`. It takes no lock,
and unlocks at its end. -/
def resumed {σ β γ : Type} (pool : σ → Pool) (setPool : σ → Pool → σ) (id : ℕ) (c : Code Mqueue β)
    (f : β → σ → σ) (e : β → γ) : Code (Locked σ) γ :=
  (c.zoom (fun s => pool s.sys id) fun q s =>
      { s with sys := setPool s.sys (update (pool s.sys) id q) }).bind fun out =>
    .write (.leave (f out)) (.done (e out))

/-- The sections as sequences of accesses. A resumed one takes no lock. -/
def sectionCode : Section → Code (Locked Sys) Event
  | .open name => locked fun s =>
    let r := mqOpen s.pool name
    ({ s with pool := r.1 }, .open name r.2)
  | .close id => locked fun s =>
    let r := mqCloseId s.pool id
    ({ s with pool := r.1 }, .close id r.2)
  | .send t id hasBuf msg => locked fun s =>
    let r := mqSendId s.pool t id hasBuf msg
    (⟨r.1, if r.2 = .parked then (t, .send id msg) :: s.blocked else s.blocked⟩,
      .send t id hasBuf msg r.2)
  | .resend t id msg =>
    resumed Sys.pool Sys.setPool id (sendCode t msg)
      (fun out s => { s with
        blocked := if out = .parked then s.blocked else s.blocked.erase (t, .send id msg) })
      (.resend t id msg)
  | .receive t id hasBuf buflen => locked fun s =>
    let r := mqReceiveId s.pool t id hasBuf buflen
    (⟨r.1, if r.2 = .parked then (t, .receive id buflen) :: s.blocked else s.blocked⟩,
      .receive t id hasBuf buflen r.2)
  | .rereceive t id buflen =>
    resumed Sys.pool Sys.setPool id (receiveCode t buflen)
      (fun out s => { s with
        blocked := if out = .parked then s.blocked else s.blocked.erase (t, .receive id buflen) })
      (.rereceive t id buflen)

/-- A section begins when its task is in no other, and where it takes the lock, when that is
free; `as` are the sections under way. -/
def Begins (s : Locked Sys) (as : List Section) (a : Section) : Prop :=
  (∀ b ∈ as, b.task = none ∨ b.task ≠ a.task) ∧
    match a with
    | .open _ | .close _ => s.ipcLock = false
    | .send t _ _ _ | .receive t _ _ _ => s.ipcLock = false ∧ ∀ x ∈ s.sys.blocked, x.1 ≠ t
    | .resend t id msg => (t, .send id msg) ∈ s.sys.blocked ∧ t ∉ (s.sys.pool id).sq
    | .rereceive t id buflen => (t, .receive id buflen) ∈ s.sys.blocked ∧ t ∉ (s.sys.pool id).rq

instance (s : Locked Sys) (as : List Section) : ∀ a, Decidable (Begins s as a)
  | .open _ | .close _ | .send _ _ _ _ | .receive _ _ _ _ | .resend _ _ _ | .rereceive _ _ _ => by
    unfold Begins
    infer_instance

/-- What one receive returned: the size of its buffer, the length and the bytes. -/
structure Receipt where
  buflen : ℕ
  len : ℕ
  bytes : List UInt8

/-- The message that an event's send put on queue `id`. -/
def acceptedBy (id : ℕ) : Event → List (List UInt8)
  | .send _ i _ msg .accepted => if i = id then [msg] else []
  | .resend _ i msg .accepted => if i = id then [msg] else []
  | _ => []

/-- The receipt of an event's receive from queue `id`. -/
def receivedBy (id : ℕ) : Event → List Receipt
  | .receive _ i _ buflen (.message len bytes) => if i = id then [⟨buflen, len, bytes⟩] else []
  | .rereceive _ i buflen (.message len bytes) => if i = id then [⟨buflen, len, bytes⟩] else []
  | _ => []

/-- Whether an event makes a new queue in slot `id`. -/
def creates (id : ℕ) : Event → Bool
  | .open _ (.created i) => i = id
  | _ => false

/-- What the events yielded since the queue in slot `id` was made. -/
def sinceCreated {β : Type} (id : ℕ) (f : Event → List β) (hist : List Event) : List β :=
  hist.foldl (fun acc e => if creates id e then [] else acc ++ f e) []

/-- The messages accepted by the queue in slot `id`, in order. -/
def accepted (id : ℕ) (hist : List Event) : List (List UInt8) :=
  sinceCreated id (acceptedBy id) hist

/-- The receipts from the queue in slot `id`, in order. -/
def received (id : ℕ) (hist : List Event) : List Receipt :=
  sinceCreated id (receivedBy id) hist

/-- The receipt returns exactly this message: its length, and its bytes as far as the
buffer goes. -/
def Receipt.Returns (r : Receipt) (m : List UInt8) : Prop :=
  r.len = m.length ∧ r.bytes = m.take r.buflen

end Mq
end Ipc
end MobilePhoneOs
