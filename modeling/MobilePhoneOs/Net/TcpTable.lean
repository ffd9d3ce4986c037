import MobilePhoneOs.Lib.Run
import MobilePhoneOs.Net.Ipv4
import MobilePhoneOs.Net.Tcp

/-!
# The table of TCP sockets (`net/tcp.c`)

Which socket a segment is for: the first whose addresses and ports are the segment's, whatever its
state, and else the first listener of the port. The calls that block are split where they wait.
-/

namespace MobilePhoneOs.Net.Tcp

open Function (update)

/-- The addresses and ports of a connection, as its host sees them. -/
structure Tuple where
  localIp : UInt32
  localPort : UInt16
  remoteIp : UInt32
  remotePort : UInt16
deriving DecidableEq

/-- `struct tcp_pcb` as the table knows it: the connection and what it is bound to. -/
structure Sock where
  pcb : Pcb
  tuple : Tuple
  finQueued : Bool
  accepted : List ℕ

/-- What `kzalloc` gives. -/
def zeroPcb : Pcb where
  state := .closed
  sndUna := 0
  sndNxt := 0
  sndSeg := fun _ => 0
  sndLen := 0
  sndInflight := false
  sndTimeoutMs := 0
  retries := 0
  finSent := false
  finAcked := false
  peerFin := false
  rstReceived := false
  rcvRing := fun _ => 0
  rcvHead := 0
  rcvCount := 0
  rcvEof := false
  rcvNxt := 0
  lastAckSent := 0

def zeroSock : Sock := ⟨zeroPcb, ⟨0, 0, 0, 0⟩, false, []⟩

/-- `pcbs`, newest first, and `eph`. As a ghost, `born` keeps for a socket that a listener has
spawned the connection whose SYN it accepted. -/
structure Table where
  order : List ℕ
  sock : ℕ → Sock
  eph : UInt16
  born : ℕ → Option Tuple

/-- A segment as `tcp_input` gets it, with the addresses of its packet. -/
structure Packet where
  src : UInt32
  dst : UInt32
  srcPort : UInt16
  dstPort : UInt16
  seg : Seg

/-- The connection a packet belongs to, seen from its receiver. -/
def Packet.tuple (m : Packet) : Tuple := ⟨m.dst, m.dstPort, m.src, m.srcPort⟩

namespace Table

def state (t : Table) (k : ℕ) : State := (t.sock k).pcb.state

def tuple (t : Table) (k : ℕ) : Tuple := (t.sock k).tuple

def set (t : Table) (k : ℕ) (s : Sock) : Table := { t with sock := update t.sock k s }

def setState (t : Table) (k : ℕ) (s : State) : Table :=
  t.set k { t.sock k with pcb := { (t.sock k).pcb with state := s } }

/-- A socket at the head of the table. -/
def push (t : Table) (k : ℕ) (s : Sock) (born : Option Tuple) : Table :=
  { t with
    order := k :: t.order
    sock := update t.sock k s
    born := update t.born k born }

/-- `port_taken` -/
def portTaken (t : Table) (port : UInt16) : Bool :=
  t.order.any fun k => (t.tuple k).localPort == port && t.state k != .closed

/-! ## The calls -/

/-- `tcp_alloc`, which gets the memory at `k`. -/
def tcpAlloc (t : Table) (k : ℕ) : Table := t.push k zeroSock none

/-- `tcp_free` -/
def tcpFree (t : Table) (k : ℕ) : Table := { t with order := t.order.filter (· ≠ k) }

/-- `tcp_bind` -/
def tcpBind (t : Table) (k : ℕ) (ip : UInt32) (port : UInt16) : Table :=
  if port ≠ 0 ∧ t.portTaken port then t
  else
    let s := t.sock k
    let t' := if port = 0 then { t with eph := t.eph + 1 } else t
    t'.set k { s with tuple := { s.tuple with
      localIp := ip, localPort := if port = 0 then t.eph else port } }

/-- `tcp_listen` -/
def tcpListen (t : Table) (k : ℕ) : Table :=
  if t.state k ≠ .closed ∨ (t.tuple k).localPort = 0 then t
  else { t.setState k .listen with born := update t.born k none }

/-- The loop that looks for a free port, `none` if it has not found one after `n` rounds. -/
def pickPort (taken : UInt16 → Bool) : ℕ → UInt16 → UInt16 → Option (UInt16 × UInt16)
  | 0, _, _ => none
  | n + 1, port, eph => if taken port then pickPort taken n eph (eph + 1) else some (port, eph)

/-- `tcp_connect` up to the wait: `nif` is the address of the interface that the route gives, `out`
what becomes of the SYN. There is no next state if every port is taken: the loop does not end. -/
def tcpConnect (t : Table) (k : ℕ) (ip : UInt32) (port : UInt16) (nif : Option UInt32) (isn : UInt32)
    (nowMs : UInt64) (out : Bool) : Option Table :=
  if t.state k ≠ .closed then some t
  else
    (pickPort t.portTaken 65537 (t.tuple k).localPort t.eph).map fun (localPort, eph) =>
      let s := t.sock k
      let sent := out && nif.isSome && ip != 0
      { t with
        eph := eph
        sock := update t.sock k { s with
          tuple := ⟨nif.getD IP4_ANY, localPort, ip, port⟩
          pcb := { s.pcb with
            rcvNxt := 0
            sndUna := isn
            sndNxt := isn + 1
            state := if sent then .synSent else .closed
            sndInflight := sent
            sndLen := 0
            sndTimeoutMs := nowMs + TCP_BACKOFF_BASE_MS } }
        born := update t.born k none }

/-- `tcp_accept`, when there is a socket to return. -/
def tcpAccept (t : Table) (k : ℕ) : Table :=
  t.set k { t.sock k with accepted := (t.sock k).accepted.tail }

/-- `tcp_close` up to the wait for the FIN. -/
def tcpClose (t : Table) (k : ℕ) (nowMs : UInt64) : Table :=
  if t.state k = .closed then t
  else if t.state k = .listen ∨ t.state k = .synSent then (t.setState k .closed).tcpFree k
  else
    let s := t.sock k
    let state : State := match t.state k with
      | .established => .finWait1
      | .closeWait => .lastAck
      | s => s
    let p := { s.pcb with state := state }
    let p := if p.sndInflight then p else
      { p with
        finSent := true
        sndInflight := true
        sndLen := 0
        retries := 0
        sndTimeoutMs := nowMs + TCP_BACKOFF_BASE_MS
        sndNxt := p.sndNxt + 1 }
    t.set k { s with finQueued := true, pcb := p }

/-- The end of `tcp_close`. -/
def tcpCloseEnd (t : Table) (k : ℕ) : Table := (t.setState k .closed).tcpFree k

/-! ## `tcp_input` -/

/-- The loop for a connected match. -/
def connected (t : Table) (c : Tuple) : Option ℕ := t.order.find? fun k => t.tuple k == c

/-- The loop for a listener. -/
def listener (t : Table) (c : Tuple) : Option ℕ :=
  t.order.find? fun k => t.state k == .listen && (t.tuple k).localPort == c.localPort &&
    ((t.tuple k).localIp == c.localIp || (t.tuple k).localIp == IP4_ANY)

/-- The socket that `tcp_input` finds. -/
def demux (t : Table) (c : Tuple) : Option ℕ := (t.connected c).or (t.listener c)

/-- The child of a listener: SYN_RCVD, wired to the same ports. -/
def child (l : Sock) (m : Packet) (isn : UInt32) (routed : Bool) : Sock :=
  { zeroSock with
    tuple := ⟨l.tuple.localIp, l.tuple.localPort, m.src, m.srcPort⟩
    pcb := { zeroPcb with
      state := .synRcvd
      rcvNxt := m.seg.seq + 1
      sndUna := isn
      sndNxt := if routed then isn + 1 else isn } }

/-- `tcp_spawn_child` with the memory at `c`; `routed` is whether there is a route for its SYN. -/
def tcpSpawnChild (t : Table) (l c : ℕ) (m : Packet) (isn : UInt32) (routed : Bool) : Table :=
  if (t.sock l).accepted.length < 4 then
    (t.set l { t.sock l with accepted := (t.sock l).accepted ++ [c] }).push c
      (child (t.sock l) m isn routed) (some m.tuple)
  -- the child is allocated and freed again
  else t

/-- `tcp_input`; `new` is the memory that an allocation would get. -/
def input (t : Table) (m : Packet) (new : Option ℕ) (isn : UInt32) (routed : Bool) : Table :=
  match t.demux m.tuple with
  | none => t
  | some k =>
    if t.state k = .listen then
      match new with
      | none => t
      | some c =>
        if m.seg.flags.syn ∧ m.seg.flags.ack = false then t.tcpSpawnChild k c m isn routed else t
    else t.set k { t.sock k with pcb := (tcpInput (t.sock k).pcb m.seg).1 }

end Table

inductive TableAct
  | alloc (k : ℕ)
  | free (k : ℕ)
  | bind (k : ℕ) (ip : UInt32) (port : UInt16)
  | listen (k : ℕ)
  | connect (k : ℕ) (ip : UInt32) (port : UInt16) (nif : Option UInt32) (isn : UInt32)
      (nowMs : UInt64) (out : Bool)
  /-- a waiting `tcp_connect` gives up -/
  | giveUp (k : ℕ)
  | accept (k : ℕ)
  | close (k : ℕ) (nowMs : UInt64)
  | closeEnd (k : ℕ)
  | input (m : Packet) (new : Option ℕ) (isn : UInt32) (routed : Bool)
  /-- `tcp_read`, `tcp_write` and the timers, which leave the state and the addresses as they are -/
  | transfer (k : ℕ) (p : Pcb)

/-- One call, or one end of a call that has waited; memory that is allocated is not in use. -/
def TableStep (t : Table) : TableAct → Table → Prop
  | .alloc k, t' => k ∉ t.order ∧ t' = t.tcpAlloc k
  | .free k, t' => k ∈ t.order ∧ t' = t.tcpFree k
  | .bind k ip port, t' => k ∈ t.order ∧ t' = t.tcpBind k ip port
  | .listen k, t' => k ∈ t.order ∧ t' = t.tcpListen k
  | .connect k ip port nif isn nowMs out, t' =>
    k ∈ t.order ∧ t.tcpConnect k ip port nif isn nowMs out = some t'
  | .giveUp k, t' => k ∈ t.order ∧ t.state k = .synSent ∧ t' = t.setState k .closed
  | .accept k, t' => k ∈ t.order ∧ (t.sock k).accepted ≠ [] ∧ t' = t.tcpAccept k
  | .close k nowMs, t' => k ∈ t.order ∧ t' = t.tcpClose k nowMs
  | .closeEnd k, t' => k ∈ t.order ∧ (t.sock k).finQueued ∧ t' = t.tcpCloseEnd k
  | .input m new isn routed, t' =>
    (∀ c, new = some c → c ∉ t.order) ∧ t' = t.input m new isn routed
  | .transfer k p, t' => k ∈ t.order ∧ p.state = t.state k ∧ t' = t.set k { t.sock k with pcb := p }

/-- No socket yet. -/
def emptyTable : Table := ⟨[], fun _ => zeroSock, 49152, fun _ => none⟩

end MobilePhoneOs.Net.Tcp
