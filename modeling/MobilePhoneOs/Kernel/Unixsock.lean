import MobilePhoneOs.Kernel.Pipe

/-!
# Unix-domain stream sockets (`include/ipc_ring.h`, `kernel/unixsock.c`)

The byte ring, the pool of endpoints with the listener table and its backlogs, and the data
path. `usRead`, `usWrite` and `epRelease` are the sections under `unix_lock`; a caller that
parks runs its section again after a wake. Connecting is in `UnixsockConnect`.
-/

namespace MobilePhoneOs.Ipc

open Mem

/-! ## The byte ring -/

/-- `struct ipc_ring` -/
structure IpcRing where
  buf : ℕ → UInt8
  cap : ℕ
  head : ℕ
  len : ℕ

/-- The loop of `ipc_ring_pull`, with `left` bytes to go. -/
def pullLoop : ℕ → IpcRing → ℕ → IpcRing × List UInt8
  | 0, r, _ => (r, [])
  | fuel + 1, r, left =>
    if left = 0 then (r, [])
    else
      let seg := min (r.cap - r.head) left
      let rest := pullLoop fuel { r with head := (r.head + seg) % r.cap } (left - seg)
      (rest.1, slice r.buf r.head seg ++ rest.2)

/-- `ipc_ring_pull` -/
def ipcRingPull (r : IpcRing) (n : ℕ) : IpcRing × List UInt8 :=
  let n := if n > r.len then r.len else n
  let done := pullLoop n r n
  ({ done.1 with len := done.1.len - n }, done.2)

/-- The loop of `ipc_ring_push`. -/
def pushLoop : ℕ → IpcRing → List UInt8 → IpcRing
  | 0, r, _ => r
  | fuel + 1, r, src =>
    if src.length = 0 then r
    else
      let tail := (r.head + r.len) % r.cap
      let seg := min (r.cap - tail) src.length
      pushLoop fuel { r with buf := store r.buf tail (src.take seg), len := r.len + seg }
        (src.drop seg)

/-- `ipc_ring_push`, with how many bytes fit. -/
def ipcRingPush (r : IpcRing) (src : List UInt8) : IpcRing × ℕ :=
  let free := r.cap - r.len
  let n := if src.length > free then free else src.length
  (pushLoop n r (src.take n), n)

/-! ## Endpoints -/

namespace Usock

def USOCK_NAME_MAX : ℕ := 24
def USOCK_BUF_CAP : ℕ := 2048
def USOCK_EP_MAX : ℕ := 16
def USOCK_SERVE_MAX : ℕ := 6
def USOCK_BACKLOG : ℕ := 4

def ENOMEM : ℤ := 12
def ECONNREFUSED : ℤ := 111

/-- `enum us_state` -/
inductive UsState
  | free
  | data
  | listener
deriving DecidableEq, Repr

/-- An endpoint, by its index in `ep_pool`. -/
abbrev EpId := ℕ

/-- `struct us_endpoint`; the storage is the ring's buffer. -/
structure Endpoint where
  state : UsState
  ring : IpcRing
  peer : Option EpId
  hup : Bool
  rq : List Task
  wq : List Task
  hsWq : List Task
  hsResult : ℤ
  lslot : Option ℕ
  name : List UInt8
  acceptWq : List Task

/-- An endpoint as `ep_alloc` leaves it. -/
def Endpoint.fresh : Endpoint where
  state := .free
  ring := ⟨fun _ => 0, USOCK_BUF_CAP, 0, 0⟩
  peer := none
  hup := false
  rq := []
  wq := []
  hsWq := []
  hsResult := 0
  lslot := none
  name := []
  acceptWq := []

/-- `ep_pool`, `ep_used`, `listeners` and `backlog`. -/
structure Socks where
  ep : EpId → Endpoint
  epUsed : EpId → Bool
  listeners : ℕ → Option EpId
  backlog : ℕ → ℕ → Option EpId

/-- `us_park`: the caller goes in front of the queue. -/
def usPark (q : List Task) (t : Task) : List Task := t :: q

/-- `us_wake_all` -/
def usWakeAll (_q : List Task) : List Task := []

namespace Socks

def setEp (s : Socks) (e : EpId) (x : Endpoint) : Socks :=
  { s with ep := Function.update s.ep e x }

@[simp] lemma setEp_self (s : Socks) (e : EpId) (x : Endpoint) : (s.setEp e x).ep e = x :=
  Function.update_self ..

lemma setEp_of_ne (s : Socks) {e f : EpId} (x : Endpoint) (h : f ≠ e) :
    (s.setEp e x).ep f = s.ep f :=
  Function.update_of_ne h ..

/-- `usock_subsys_init` -/
def init : Socks := ⟨fun _ => Endpoint.fresh, fun _ => false, fun _ => none, fun _ _ => none⟩

end Socks

/-- `ep_alloc`. A flag once set is never cleared. -/
def epAlloc (s : Socks) : Option (Socks × EpId) :=
  ((List.range USOCK_EP_MAX).find? fun i => !s.epUsed i).map fun e =>
    ({ s with epUsed := Function.update s.epUsed e true }.setEp e Endpoint.fresh, e)

/-- `ep_release` -/
def epRelease (s : Socks) (e : EpId) : Socks :=
  let s := match (s.ep e).peer.filter fun f => (s.ep f).state ≠ .free with
    | some f =>
      let x := s.ep f
      s.setEp f { x with hup := true, rq := usWakeAll x.rq, wq := usWakeAll x.wq }
    | none => s
  s.setEp e { s.ep e with peer := none, state := .free }

/-- One locked section of `us_read` by task `t`. -/
def usRead (s : Socks) (e : EpId) (t : Task) (hasBuf : Bool) (len : ℕ) : Socks × ReadOutcome :=
  let x := s.ep e
  if len = 0 ∨ hasBuf = false then (s, .nothing)
  else if x.ring.len ≠ 0 then
    let got := ipcRingPull x.ring len
    (s.setEp e { x with ring := got.1, wq := usWakeAll x.wq }, .data got.2)
  else if x.peer = none ∨ x.hup = true then (s, .eof)
  else (s.setEp e { x with rq := usPark x.rq t }, .parked)

/-- One locked section of `us_write` by task `t`. -/
def usWrite (s : Socks) (e : EpId) (t : Task) (hasBuf : Bool) (src : List UInt8) :
    Socks × WriteOutcome :=
  let x := s.ep e
  if src.length = 0 then (s, .nothing)
  else if hasBuf = false then (s, .inval)
  else if x.hup = true then (s, .brokenPipe)
  else
    match x.peer with
    | none => (s, .brokenPipe)
    | some f =>
      let y := s.ep f
      let put := ipcRingPush y.ring src
      if put.2 ≠ 0 then
        (s.setEp f { y with ring := put.1, rq := usWakeAll y.rq }, .accepted put.2)
      else (s.setEp e { x with wq := usPark x.wq t }, .parked)

/-- How the two allocations of `endpoint_file` go. -/
inductive FileMemory
  | noVnode
  | noFile
  | ok
deriving DecidableEq, Repr

/-- `endpoint_file` for a data endpoint, and whether there is a file. Without one the vnode is
dropped again, which destroys it. -/
def endpointFile (s : Socks) (e : EpId) : FileMemory → Socks × Bool
  | .noVnode => (s, false)
  | .noFile => (epRelease s e, false)
  | .ok => (s, true)

/-- `usocket_pair` with the two endpoints, or `none` for `-ENOMEM`. Closing a file that was made
releases its endpoint as well. -/
def usocketPair (s : Socks) (ma mb : FileMemory) : Socks × Option (EpId × EpId) :=
  match epAlloc s with
  | none => (s, none)
  | some (s, a) =>
    match epAlloc s with
    | none => (epRelease s a, none)
    | some (s, b) =>
      let s := s.setEp a { s.ep a with state := .data }
      let s := s.setEp b { s.ep b with state := .data }
      let s := s.setEp a { s.ep a with peer := some b }
      let s := s.setEp b { s.ep b with peer := some a }
      let fa := endpointFile s a ma
      let fb := endpointFile fa.1 b mb
      if fa.2 = true ∧ fb.2 = true then (fb.1, some (a, b))
      else (epRelease (epRelease fb.1 a) b, none)

/-! ## Interleavings on a connected pair -/

namespace Stream

/-- One step on the endpoint `e` of the pair, with what it returned. -/
inductive Event
  | read (e : EpId) (t : Task) (hasBuf : Bool) (len : ℕ) (out : ReadOutcome)
  | write (e : EpId) (t : Task) (hasBuf : Bool) (src : List UInt8) (out : WriteOutcome)
  /-- the last reference to the endpoint's file goes away -/
  | close (e : EpId)

/-- The other endpoint of the pair. -/
def other (a b e : EpId) : EpId := if e = a then b else a

/-- Any task may run a section on an open endpoint of the pair at any time. A call holds a
reference to its file, so an endpoint on which a task is parked is not closed. -/
def Step (a b : EpId) (s : Socks) : Event → Socks → Prop
  | .read e t hasBuf len out, s' =>
    (e = a ∨ e = b) ∧ (s.ep e).state = .data ∧ (s', out) = usRead s e t hasBuf len
  | .write e t hasBuf src out, s' =>
    (e = a ∨ e = b) ∧ (s.ep e).state = .data ∧ (s', out) = usWrite s e t hasBuf src
  | .close e, s' =>
    (e = a ∨ e = b) ∧ (s.ep e).state = .data ∧ (s.ep e).rq = [] ∧ (s.ep e).wq = [] ∧
      s' = epRelease s e

/-- The bytes that the reads at the endpoint `e` returned, in order. -/
def bytesRead (e : EpId) (evs : List Event) : List UInt8 :=
  evs.flatMap fun
    | .read f _ _ _ (.data bytes) => if f = e then bytes else []
    | _ => []

/-- The bytes that the writes at the endpoint `e` accepted, in order. -/
def bytesWritten (e : EpId) (evs : List Event) : List UInt8 :=
  evs.flatMap fun
    | .write f _ _ src (.accepted n) => if f = e then src.take n else []
    | _ => []

end Stream
end Usock
end MobilePhoneOs.Ipc
