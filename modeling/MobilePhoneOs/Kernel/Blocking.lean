import MobilePhoneOs.Drivers.Block
import MobilePhoneOs.Drivers.VirtioBlk
import MobilePhoneOs.Kernel.PipePool
import MobilePhoneOs.Kernel.UnixsockConnect

/-!
# Spinlocks across the I/O paths

The paths of `drivers/block.c` over `drivers/virtio_blk.c`, of `kernel/modemd.c` and of
`kernel/ipc.c` and `kernel/unixsock.c`, down to the `sched_park` in the innermost function. Every
task has a stack of calls; a step belongs to the call on top. What runs under one lock is one
step, and so is a park: `task_state_lock` is taken where the task is marked, the lock of the
subsystem is released under it, and the switch hands it on.
-/

namespace MobilePhoneOs

open Function (update)
namespace Blocking

open Ipc Usock Block

/-- The spinlocks of these paths; `cache c` is `caches[c].lock`. -/
inductive Lock
  | task_state_lock
  | ipc_lock
  | unix_lock
  | md_lock
  | cache (c : ℕ)
deriving DecidableEq, Repr

def MD_CLIENTS : ℕ := 8

/-- What the locks guard, and the disks behind the block layer. -/
structure Data where
  pipe : ℕ → Pipe
  mq : Pool
  socks : Socks
  blk : Blk
  vblk : ℕ → Virtio.Blk.Vblk
  mdClients : ℕ → Option EpId

/-! ## Functions with one lock -/

/-- The functions that take the lock of their subsystem, run a section and leave or park. An
accept and a connect are several of them. -/
inductive Op
  | pipeRead (i : ℕ) (hasBuf : Bool) (len : ℕ)
  | pipeWrite (i : ℕ) (hasBuf : Bool) (src : List UInt8)
  | pipeDestroy (i : ℕ) (reader : Bool)
  | mqOpen (name : List UInt8)
  | mqCloseId (id : ℕ)
  | mqSendId (id : ℕ) (hasBuf : Bool) (msg : List UInt8)
  | mqReceiveId (id : ℕ) (hasBuf : Bool) (buflen : ℕ)
  | usRead (e : EpId) (hasBuf : Bool) (len : ℕ)
  | usWrite (e : EpId) (hasBuf : Bool) (src : List UInt8)
  | usocketPair (ma mb : FileMemory)
  | queueClient (cli : EpId) (path : List UInt8)
  | checkClient (cli : EpId)
  | acceptSection (l : EpId)
  | linkClient (cli srv : EpId)
  | epRelease (e : EpId)
  | usListenerDestroy (e : EpId) (i : ℕ)
  | mdAdd (conn : EpId)
  | mdRemove (conn : EpId)
  | cacheFillWrite (c lba : ℕ) (data : ℕ → UInt8)

namespace Op

def lock : Op → Lock
  | pipeRead .. | pipeWrite .. | pipeDestroy .. => .ipc_lock
  | mqOpen .. | mqCloseId .. | mqSendId .. | mqReceiveId .. => .ipc_lock
  | usRead .. | usWrite .. | usocketPair .. | queueClient .. | checkClient .. => .unix_lock
  | acceptSection .. | linkClient .. | epRelease .. | usListenerDestroy .. => .unix_lock
  | mdAdd .. | mdRemove .. => .md_lock
  | cacheFillWrite c _ _ => .cache c

/-- Whether the function returns before it takes the lock. -/
def early : Op → Bool
  | pipeRead _ hasBuf len => len = 0 || !hasBuf
  | pipeWrite _ hasBuf src => src.isEmpty || !hasBuf
  | mqOpen name => name.isEmpty
  | mqCloseId id => id ≥ MQ_QUEUES_MAX
  | mqSendId _ hasBuf msg => (!hasBuf && !msg.isEmpty) || msg.length > MQ_MSG_MAX
  | mqReceiveId _ hasBuf _ => !hasBuf
  | usRead _ hasBuf len => len = 0 || !hasBuf
  | usWrite _ hasBuf src => src.isEmpty || !hasBuf
  | _ => false

/-- Whether the function takes its lock again after a park. The loops of `mq_send_id` and
`mq_receive_id` do not. -/
def relocks : Op → Bool
  | mqSendId .. => false
  | mqReceiveId .. => false
  | _ => true

/-- The slot that `modemd_task` finds for a connection. -/
def freeClient (d : Data) : Option ℕ :=
  (List.range MD_CLIENTS).find? fun i => (d.mdClients i).isNone

/-- The section of task `t`, and whether it parks; `none` where the code spins for the lock it
holds. `again` is the round after a park. -/
def run (d : Data) (t : Task) (again : Bool) : Op → Option (Data × Bool)
  | pipeRead i hasBuf len =>
    let r := Ipc.pipeRead (d.pipe i) t hasBuf len
    some ({ d with pipe := update d.pipe i r.1 }, r.2 = .parked)
  | pipeWrite i hasBuf src =>
    let r := Ipc.pipeWrite (d.pipe i) t hasBuf src
    some ({ d with pipe := update d.pipe i r.1 }, r.2 = .parked)
  | pipeDestroy i reader =>
    some ({ d with pipe := update d.pipe i (Ipc.pipeDestroy (d.pipe i) reader).1 }, false)
  | mqOpen name => some ({ d with mq := (Ipc.mqOpen d.mq name).1 }, false)
  | mqCloseId id => some ({ d with mq := (Ipc.mqCloseId d.mq id).1 }, false)
  | mqSendId id hasBuf msg =>
    -- behind a park the loop looks at the queue only; the checks of the head are not made again
    if again then
      let r := sendSection (d.mq id) t msg
      some ({ d with mq := update d.mq id r.1 }, r.2 = .parked)
    else
      let r := Ipc.mqSendId d.mq t id hasBuf msg
      some ({ d with mq := r.1 }, r.2 = .parked)
  | mqReceiveId id hasBuf buflen =>
    if again then
      let r := receiveSection (d.mq id) t buflen
      some ({ d with mq := update d.mq id r.1 }, r.2 = .parked)
    else
      let r := Ipc.mqReceiveId d.mq t id hasBuf buflen
      some ({ d with mq := r.1 }, r.2 = .parked)
  | usRead e hasBuf len =>
    let r := Usock.usRead d.socks e t hasBuf len
    some ({ d with socks := r.1 }, r.2 = .parked)
  | usWrite e hasBuf src =>
    let r := Usock.usWrite d.socks e t hasBuf src
    some ({ d with socks := r.1 }, r.2 = .parked)
  | usocketPair ma mb => some ({ d with socks := (Usock.usocketPair d.socks ma mb).1 }, false)
  | queueClient cli path =>
    let r := Usock.queueClient d.socks cli path
    -- without a backlog slot the path is looked up under `unix_lock` once more
    if r.2 then some ({ d with socks := r.1 }, false) else none
  | checkClient cli =>
    let r := Usock.checkClient d.socks cli t
    some ({ d with socks := r.1 }, r.2 = .parked)
  | acceptSection l =>
    let r := Usock.acceptSection d.socks l t
    some ({ d with socks := r.1 }, r.2 = .parked)
  | linkClient cli srv => some ({ d with socks := Usock.linkClient d.socks cli srv }, false)
  | epRelease e => some ({ d with socks := Usock.epRelease d.socks e }, false)
  | usListenerDestroy e i =>
    some ({ d with socks := Usock.usListenerDestroy d.socks e i }, false)
  | mdAdd conn =>
    match freeClient d with
    | some i => some ({ d with mdClients := update d.mdClients i (some conn) }, false)
    | none => some (d, false)
  | mdRemove conn =>
    some ({ d with mdClients := fun i =>
      if d.mdClients i = some conn then none else d.mdClients i }, false)
  | cacheFillWrite c lba data => some ({ d with blk := d.blk.cache_fill_write c lba data }, false)

/-- Whether the task is still linked into the queue it parked on. -/
def waits (d : Data) (t : Task) : Op → Bool
  | pipeRead i _ _ => t ∈ (d.pipe i).rq
  | pipeWrite i _ _ => t ∈ (d.pipe i).wq
  | mqSendId id _ _ => t ∈ (d.mq id).sq
  | mqReceiveId id _ _ => t ∈ (d.mq id).rq
  | usRead e _ _ => t ∈ (d.socks.ep e).rq
  | usWrite e _ _ => t ∈ (d.socks.ep e).wq
  | checkClient cli => t ∈ (d.socks.ep cli).hsWq
  | acceptSection l => t ∈ (d.socks.ep l).acceptWq
  | _ => false

end Op

/-! ## Calls -/

/-- Where a function with one lock is; `saved` is the interrupt mask that it restores. -/
inductive OpPoint
  | enter
  | body (again saved : Bool)
  | leave (again saved : Bool)

/-- Where `vblk_rw` is: before its first line, at the head of its loop, behind `msleep`. -/
inductive VblkPoint
  | start (r : Virtio.Blk.Req)
  | check
  | poll

/-- Where `cache_read_sector` is: before the lock, at the lookup, behind the driver call, before
the release. -/
inductive CachePoint
  | enter
  | lookup (saved : Bool)
  | fetched (saved : Bool)
  | leave (saved : Bool)

/-- Where `md_event_line` is: before the lock, at the client `i`. -/
inductive MdPoint
  | enter
  | client (i : ℕ) (saved : Bool)

/-- A call that has not returned. -/
inductive Frame
  | op (o : Op) (p : OpPoint)
  | vblkRw (dev : ℕ) (p : VblkPoint)
  | cacheReadSector (dev c lba : ℕ) (p : CachePoint)
  | mdEventLine (line : List UInt8) (p : MdPoint)

/-- The locks that a call has taken and not released. -/
def Frame.holds : Frame → List Lock
  | op o (.body false _) => [o.lock]
  | op o (.leave false _) => [o.lock]
  | cacheReadSector _ c _ (.lookup _) => [.cache c]
  | cacheReadSector _ c _ (.fetched _) => [.cache c]
  | cacheReadSector _ c _ (.leave _) => [.cache c]
  | mdEventLine _ (.client _ _) => [.md_lock]
  | _ => []

/-- A task: its calls, innermost first, the spinlocks it has taken, whether interrupts are
masked, whether it is parked, and the bytes of its last transfer, if that succeeded. -/
structure Thread where
  stack : List Frame
  held : List Lock
  masked : Bool
  parked : Bool
  bytes : Option (ℕ → UInt8)

namespace Thread

def take (th : Thread) (l : Lock) : Thread := { th with held := l :: th.held, masked := true }

def release (th : Thread) (l : Lock) (saved : Bool) : Thread :=
  { th with held := th.held.erase l, masked := saved }

def setStack (th : Thread) (st : List Frame) : Thread := { th with stack := st }

end Thread

/-- The machine: the words of the spinlocks, and the tasks. -/
structure State where
  data : Data
  word : Lock → Bool
  jiffies : BitVec 64
  thread : Task → Thread

/-- What a step of a task does; `park` has the spinlocks held at `sched_park`, where it comes
to that. -/
structure Effect where
  data : Data
  word : Lock → Bool
  thread : Thread
  park : Option (List Lock)

namespace State

/-- A step that changes the task only. -/
def ownStep (s : State) (th : Thread) : Effect := ⟨s.data, s.word, th, none⟩

/-- A step of a function with one lock. -/
def opStep (s : State) (t : Task) (th : Thread) (o : Op) (rest : List Frame) :
    OpPoint → Option Effect
  | .enter =>
    if o.early then some (s.ownStep (th.setStack rest))
    else if s.word o.lock then none
    else
      some ⟨s.data, update s.word o.lock true,
        (th.take o.lock).setStack (.op o (.body false th.masked) :: rest), none⟩
  | .body again saved =>
    match o.run s.data t again with
    | none => none
    | some (d, false) =>
      some ⟨d, s.word, th.setStack (.op o (.leave again saved) :: rest), none⟩
    | some (d, true) =>
      -- the lock of the subsystem is released under `task_state_lock`
      let th := th.release o.lock true
      let p : OpPoint := if o.relocks then .enter else .body true saved
      some ⟨d, update s.word o.lock false,
        { th.setStack (.op o p :: rest) with parked := true },
        some (.task_state_lock :: th.held)⟩
  | .leave _ saved =>
    some ⟨s.data, update s.word o.lock false, (th.release o.lock saved).setStack rest,
      none⟩

def setVblk (d : Data) (dev : ℕ) (v : Virtio.Blk.Vblk) : Data :=
  { d with vblk := update d.vblk dev v }

/-- A step of `vblk_read`, `vblk_write` and `vblk_rw`. -/
def vblkStep (s : State) (t : Task) (th : Thread) (dev : ℕ) (rest : List Frame) :
    VblkPoint → Option Effect
  | .start r =>
    let out := (s.data.vblk dev).act (.start t r s.jiffies)
    let d := setVblk s.data dev out.1
    match out.2 with
    | .sleeps => some ⟨d, s.word, th.setStack (.vblkRw dev .check :: rest), none⟩
    | _ => some ⟨d, s.word, { th.setStack rest with bytes := none }, none⟩
  | .check =>
    let out := (s.data.vblk dev).act (.check t s.jiffies)
    let d := setVblk s.data dev out.1
    match out.2 with
    | .sleeps =>
      -- `msleep`, whatever locks the callers hold
      some ⟨d, s.word,
        { th.setStack (.vblkRw dev .poll :: rest) with parked := true, masked := true },
        some (.task_state_lock :: th.held)⟩
    | .success buf => some ⟨d, s.word, { th.setStack rest with bytes := some buf }, none⟩
    | _ => some ⟨d, s.word, { th.setStack rest with bytes := none }, none⟩
  | .poll =>
    -- `virtio_poll` drains the used ring
    if (s.data.vblk dev).q.last_used = (s.data.vblk dev).q.used_idx then
      some (s.ownStep (th.setStack (.vblkRw dev .check :: rest)))
    else
      some ⟨setVblk s.data dev ((s.data.vblk dev).act .drain).1, s.word, th, none⟩

/-- A step of `cache_read_sector`. -/
def cacheStep (s : State) (th : Thread) (dev c lba : ℕ) (rest : List Frame) :
    CachePoint → Option Effect
  | .enter =>
    if s.word (.cache c) then none
    else
      some ⟨s.data, update s.word (.cache c) true,
        (th.take (.cache c)).setStack (.cacheReadSector dev c lba (.lookup th.masked) :: rest),
        none⟩
  | .lookup saved =>
    match s.data.blk.lookup c lba with
    | some data =>
      some (s.ownStep
        { th.setStack (.cacheReadSector dev c lba (.leave saved) :: rest) with bytes := some data })
    | none =>
      some (s.ownStep (th.setStack (.vblkRw dev (.start ⟨false, lba, 1, fun _ => 0⟩) ::
        .cacheReadSector dev c lba (.fetched saved) :: rest)))
  | .fetched saved =>
    let th' := th.setStack (.cacheReadSector dev c lba (.leave saved) :: rest)
    match th.bytes with
    | some bytes =>
      some ⟨{ s.data with blk := (s.data.blk.fetch c lba bytes).tag c lba }, s.word, th', none⟩
    | none => some (s.ownStep th')
  | .leave saved =>
    some ⟨s.data, update s.word (.cache c) false,
      (th.release (.cache c) saved).setStack rest, none⟩

/-- A step of `md_event_line`; `f_write` on a connection is `us_write`. -/
def mdStep (s : State) (th : Thread) (line : List UInt8) (rest : List Frame) :
    MdPoint → Option Effect
  | .enter =>
    if s.word .md_lock then none
    else
      some ⟨s.data, update s.word .md_lock true,
        (th.take .md_lock).setStack (.mdEventLine line (.client 0 th.masked) :: rest), none⟩
  | .client i saved =>
    if i < MD_CLIENTS then
      let next : List Frame := .mdEventLine line (.client (i + 1) saved) :: rest
      match s.data.mdClients i with
      -- the write is made with `md_lock` held
      | some e => some (s.ownStep (th.setStack (.op (.usWrite e true line) .enter :: next)))
      | none => some (s.ownStep (th.setStack next))
    else
      some ⟨s.data, update s.word .md_lock false,
        (th.release .md_lock saved).setStack rest, none⟩

/-- The next step of the innermost call of a task; `none` while it spins for a lock. -/
def code (s : State) (t : Task) : Option Effect :=
  let th := s.thread t
  match th.stack with
  | [] => none
  | .op o p :: rest => s.opStep t th o rest p
  | .vblkRw dev p :: rest => s.vblkStep t th dev rest p
  | .cacheReadSector dev c lba p :: rest => s.cacheStep th dev c lba rest p
  | .mdEventLine line p :: rest => s.mdStep th line rest p

end State

/-! ## Steps -/

/-- What a task calls. -/
inductive Call
  | op (o : Op)
  | vblkRw (dev : ℕ) (r : Virtio.Blk.Req)
  | cacheReadSector (dev c lba : ℕ)
  | mdEventLine (line : List UInt8)

def Call.frame : Call → Frame
  | op o => .op o .enter
  | vblkRw dev r => .vblkRw dev (.start r)
  | cacheReadSector dev c lba => .cacheReadSector dev c lba .enter
  | mdEventLine line => .mdEventLine line .enter

/-- `usocket_pair` leaves interrupts as they are; the system call has them masked. -/
def Call.needsMask : Call → Bool
  | op (.usocketPair _ _) => true
  | _ => false

/-- A call with interrupts masked or not; a step of a task; `sched_post_irq` in a task; a parked
task that is dispatched again; the clock; the disk or the interrupt handler that drains its
queue. -/
inductive Act
  | call (t : Task) (c : Call) (masked : Bool)
  | run (t : Task)
  | preempt (t : Task)
  | resume (t : Task)
  | tick
  | disk (dev : ℕ) (e : Virtio.Blk.Event)

namespace State

def setThread (s : State) (t : Task) (th : Thread) : State :=
  { s with thread := update s.thread t th }

/-- A parked task is on no queue any more; a sleeper may be dispatched at any time. -/
def ready (s : State) (t : Task) : Bool :=
  match (s.thread t).stack with
  | .op o _ :: _ => !o.waits s.data t
  | _ => true

/-- The events of the disk itself and of its interrupt. -/
def ofDisk : Virtio.Blk.Event → Bool
  | .drain => true
  | .take => true
  | .dma _ _ => true
  | .give _ => true
  | _ => false

/-- One step. A task resumes with interrupts unmasked. -/
inductive Step : State → Act → State → Prop
  | call {s : State} {t : Task} (c : Call) (masked : Bool) (hidle : (s.thread t).stack = [])
      (hrun : (s.thread t).parked = false) (hmask : c.needsMask = true → masked = true) :
      Step s (.call t c masked)
        (s.setThread t { s.thread t with stack := [c.frame], masked })
  | run {s : State} {t : Task} {e : Effect} (hrun : (s.thread t).parked = false)
      (hcode : s.code t = some e) :
      Step s (.run t) ({ s with data := e.data, word := e.word }.setThread t e.thread)
  | preempt {s : State} {t : Task} (hrun : (s.thread t).parked = false)
      (hmask : (s.thread t).masked = false) :
      Step s (.preempt t) (s.setThread t { s.thread t with parked := true, masked := true })
  | resume {s : State} {t : Task} (hpark : (s.thread t).parked = true)
      (hready : s.ready t = true) :
      Step s (.resume t) (s.setThread t { s.thread t with parked := false, masked := false })
  | tick {s : State} : Step s .tick { s with jiffies := s.jiffies + 1 }
  | disk {s : State} (dev : ℕ) (e : Virtio.Blk.Event) (he : ofDisk e = true)
      (hen : (s.data.vblk dev).Enabled e) :
      Step s (.disk dev e) { s with data := setVblk s.data dev ((s.data.vblk dev).act e).1 }

/-- No task is in a call. -/
def Start (s : State) : Prop :=
  ∀ t, (s.thread t).stack = [] ∧ (s.thread t).held = [] ∧ (s.thread t).parked = false

/-! ## The discipline -/

/-- The spinlocks that are held when a step comes to `sched_park`. -/
def parksWith (s : State) : Act → Option (List Lock)
  | .run t => (s.code t).bind Effect.park
  | .preempt t => some (.task_state_lock :: (s.thread t).held)
  | _ => none

/-- A task that parks holds `task_state_lock` and no other spinlock. -/
def Lawful (s : State) (a : Act) : Prop := ∀ l, s.parksWith a = some l → l = [.task_state_lock]

/-- A write finds its endpoint connected and the ring of the peer full. -/
def NoRoom (s : Socks) (e : EpId) : Prop :=
  (s.ep e).hup = false ∧ ∃ f, (s.ep e).peer = some f ∧ (s.ep f).ring.cap ≤ (s.ep f).ring.len

/-- The request of a call is not done and its deadline has not passed. -/
def Pending (v : Virtio.Blk.Vblk) (t : Task) (now : BitVec 64) : Prop :=
  ∃ w, v.calls t = some w ∧ v.done = false ∧ (now - w.deadline).toInt < 0

/-- The request of a cache miss is not pending when its call looks, and a modem event finds room
in the ring of every connected client. -/
def Clean (s : State) : Act → Prop
  | .run t =>
    match (s.thread t).stack with
    | .op (.usWrite e hasBuf src) (.body _ _) :: .mdEventLine _ _ :: _ =>
      ¬(src ≠ [] ∧ hasBuf = true ∧ NoRoom s.data.socks e)
    | .vblkRw dev .check :: .cacheReadSector _ _ _ _ :: _ =>
      ¬ Pending (s.data.vblk dev) t s.jiffies
    | _ => True
  | _ => True

end State
end Blocking
end MobilePhoneOs
