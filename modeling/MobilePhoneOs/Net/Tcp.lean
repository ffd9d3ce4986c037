import MobilePhoneOs.Lib.Ring

/-!
# TCP connections (`net/tcp.c`)

One outstanding segment on the send side, one ring of received bytes that are in order.
`tcp_input` answers with the segments it hands to `tcp_xmit`. Sequence numbers are machine
words.
-/

namespace MobilePhoneOs.Net.Tcp

open Mem

def TCP_RING_SZ : ℕ := 4096
def TCP_BACKOFF_BASE_MS : UInt64 := 200

/-- `SEQ_LEQ` -/
def seqLeq (a b : UInt32) : Bool := decide ((a - b).toInt32 ≤ 0)

/-- `enum tcp_state` -/
inductive State
  | closed
  | listen
  | synSent
  | synRcvd
  | established
  | finWait1
  | finWait2
  | closeWait
  | closing
  | lastAck
  | timeWait
deriving DecidableEq, Repr

structure Flags where
  fin : Bool
  syn : Bool
  rst : Bool
  psh : Bool
  ack : Bool
deriving DecidableEq, Repr

/-- A segment of a connection; the ports and addresses have found the connection. -/
structure Seg where
  seq : UInt32
  ack : UInt32
  flags : Flags
  payload : List UInt8

/-- `struct tcp_pcb` of a connection. -/
structure Pcb where
  state : State
  sndUna : UInt32
  sndNxt : UInt32
  sndSeg : ℕ → UInt8
  sndLen : ℕ
  sndInflight : Bool
  sndTimeoutMs : UInt64
  retries : ℕ
  finSent : Bool
  finAcked : Bool
  peerFin : Bool
  rstReceived : Bool
  rcvRing : ℕ → UInt8
  rcvHead : ℕ
  rcvCount : ℕ
  rcvEof : Bool
  rcvNxt : UInt32
  lastAckSent : UInt32

/-- The segment that `tcp_xmit` builds. -/
def tcpXmit (p : Pcb) (flags : Flags) (payload : List UInt8) (seq : UInt32) : Seg :=
  ⟨seq, p.rcvNxt, flags, payload⟩

def ackOnly : Flags := ⟨false, false, false, false, true⟩

/-- `tcp_send_ack` -/
def tcpSendAck (p : Pcb) : Seg := tcpXmit p ackOnly [] p.sndNxt

/-- `tcp_established` -/
def tcpEstablished (p : Pcb) : Bool :=
  match p.state with
  | .established | .finWait1 | .finWait2 | .closeWait => true
  | _ => false

/-! ## `tcp_input` -/

/-- What an acknowledgement settles: the outstanding segment, or the FIN. -/
def ackSegment (p : Pcb) (ack : UInt32) : Pcb :=
  let acked := (ack - p.sndUna).toNat
  if acked ≥ p.sndLen ∧ p.finSent = false then { p with sndInflight := false, retries := 0 }
  else if p.finSent ∧ ack = p.sndNxt then { p with finAcked := true, sndInflight := false }
  else p

/-- Generic ACK processing. -/
def tcpAck (p : Pcb) (m : Seg) : Pcb :=
  if m.flags.ack ∧ p.sndInflight ∧ seqLeq p.sndUna m.ack then
    { ackSegment p m.ack with sndUna := m.ack }
  else p

/-- The states in which payload is taken. -/
def receives (s : State) : Bool :=
  match s with
  | .established | .finWait1 | .finWait2 | .closeWait => true
  | _ => false

/-- Two copies to the tail of the ring, the second one to its start. -/
def ringPut (p : Pcb) (payload : List UInt8) (take : ℕ) : Pcb :=
  let tail := (p.rcvHead + p.rcvCount) % TCP_RING_SZ
  let first := if TCP_RING_SZ - tail > take then take else TCP_RING_SZ - tail
  { p with
    rcvRing := store (store p.rcvRing tail (payload.take first)) 0
      ((payload.drop first).take (take - first))
    rcvCount := p.rcvCount + take
    rcvNxt := p.rcvNxt + UInt32.ofNat take }

/-- Payload that is in order: what fits is taken. -/
def tcpTake (p : Pcb) (payload : List UInt8) : Pcb :=
  let space := TCP_RING_SZ - p.rcvCount
  let take := if payload.length < space then payload.length else space
  let p := if take = 0 then p else ringPut p payload take
  { p with lastAckSent := p.rcvNxt }

/-- The peer's FIN. -/
def tcpFin (p : Pcb) (m : Seg) : Pcb :=
  if m.flags.fin ∧ p.peerFin = false then
    let state := match p.state with
      | .established => .closeWait
      | .finWait1 => .closing
      | .finWait2 => .timeWait
      | s => s
    { p with
      peerFin := true
      rcvEof := true
      rcvNxt := m.seq + UInt32.ofNat m.payload.length + 1
      state := state }
  else p

/-- The endings of a connection. -/
def tcpEndings (p : Pcb) : Pcb × List Seg :=
  if p.state = .finWait1 ∧ p.finAcked ∧ p.peerFin then ({ p with state := .timeWait }, [])
  else if p.state = .closing ∧ p.finAcked then ({ p with state := .timeWait }, [])
  else if p.state = .lastAck ∧ p.finAcked then ({ p with state := .closed }, [])
  else if p.state = .timeWait then ({ p with state := .closed }, [tcpSendAck p])
  else (p, [])

/-- `tcp_input` once it has found a connection. A listener itself is left as it is. -/
def tcpInput (p : Pcb) (m : Seg) : Pcb × List Seg :=
  if p.state = .listen ∨ p.state = .closed then (p, [])
  else if m.flags.rst then ({ p with rstReceived := true, sndInflight := false }, [])
  else if p.state = .synSent ∧ m.flags.syn ∧ m.flags.ack then
    let p := { p with
      rcvNxt := m.seq + 1, sndUna := m.ack, sndInflight := false, state := .established }
    (p, [tcpSendAck p])
  else if p.state = .synRcvd ∧ m.flags.ack ∧ m.flags.syn = false then
    let p := if seqLeq p.sndUna m.ack then { p with sndUna := m.ack, sndInflight := false } else p
    ({ p with state := .established }, [])
  else
    let p := tcpAck p m
    if m.payload ≠ [] ∧ ¬ (m.seq = p.rcvNxt ∧ receives p.state) then (p, [tcpSendAck p])
    else
      let p := if m.payload = [] then p else tcpTake p m.payload
      let p := tcpFin p m
      let (p, out) := tcpEndings p
      if m.payload ≠ [] ∨ m.flags.fin ∨ m.flags.syn then (p, out ++ [tcpSendAck p])
      else if p.sndInflight ∧ m.ack = p.sndNxt then ({ p with sndInflight := false }, out)
      else (p, out)

end MobilePhoneOs.Net.Tcp
