import MobilePhoneOs.Lib.Interleave
import MobilePhoneOs.Net.Ipv4

/-!
# UDP sockets (`net/udp.c`)

A table of sockets with a small queue each. The header of a datagram is copied from and to the
packet as the host lays it out, lowest byte first.
-/

namespace MobilePhoneOs.Net.Udp

open Mem

def UDP_RING_SZ : ℕ := 2048

/-- The slots of a socket's queue. -/
def RING_SLOTS : ℕ := 8

/-- `struct udp_pcb` -/
structure Pcb where
  localIp : UInt32
  remoteIp : UInt32
  localPort : UInt16
  remotePort : UInt16
  ring : ℕ → UInt8
  ringLens : ℕ → ℕ
  ringHead : ℕ
  ringCount : ℕ
  dropped : UInt16

/-- The ports of `hooks`, and `pcbs`, newest first. -/
structure Table where
  hooks : List UInt16
  order : List ℕ
  pcb : ℕ → Pcb

/-- `struct udp_hdr` as it is read from a packet. -/
structure Hdr where
  srcPort : UInt16
  dstPort : UInt16
  len : ℕ
  checksum : UInt16
deriving DecidableEq

/-- `memcpy(&h, pkt, sizeof(h))` -/
def readHdr (pkt : List UInt8) : Hdr where
  srcPort := UInt16.ofNat (leNat (field pkt 0 2))
  dstPort := UInt16.ofNat (leNat (field pkt 2 2))
  len := leNat (field pkt 4 2)
  checksum := UInt16.ofNat (leNat (field pkt 6 2))

/-- The length field turned around: `(h.len >> 8) | (h.len << 8)` in 32 bits. -/
def turnedLen (len : ℕ) : ℕ := len / 256 + len * 256

/-! ## Sending -/

/-- The datagram of `udp_send` before its checksum is known. -/
def udpSegment (p : Pcb) (csum : ℕ) (buf : List UInt8) : List UInt8 :=
  leBytes 2 p.localPort.toNat ++ leBytes 2 p.remotePort.toNat ++ leBytes 2 (8 + buf.length) ++
    leBytes 2 csum ++ buf

/-- `udp_send`: the packet that goes out. -/
def udpSend (nif : Option Netif) (p : Pcb) (buf : List UInt8) : Option (List UInt8) :=
  if nif.isNone ∨ p.remotePort = 0 ∨ buf.length > 512 then none
  else
    let csum := ip4PseudoChecksum p.localIp p.remoteIp IPV4_PROTO_UDP (udpSegment p 0 buf)
    let csum := if csum = 0 then 0xffff else csum
    ip4Output p.localIp p.remoteIp IPV4_PROTO_UDP (udpSegment p csum.toNat buf)

/-! ## Receiving -/

/-- `ring_put` -/
def ringPut (p : Pcb) (data : List UInt8) : Pcb :=
  let slot := (p.ringHead + p.ringCount) % RING_SLOTS
  if p.ringCount = RING_SLOTS then { p with dropped := p.dropped + 1 }
  else
    let n := if data.length > UDP_RING_SZ then UDP_RING_SZ else data.length
    { p with
      -- the copy goes to the start of the ring, whatever the slot
      ring := store p.ring 0 (data.take n)
      ringLens := Function.update p.ringLens slot n
      ringCount := p.ringCount + 1 }

/-- A socket takes datagrams of this source to this port. -/
def Pcb.takes (p : Pcb) (src : UInt32) (h : Hdr) : Bool :=
  p.localPort == h.dstPort && (p.remotePort == 0 || p.remotePort == h.srcPort) &&
    (p.remoteIp == 0 || p.remoteIp == src)

/-- The header and the payload of a packet that `udp_input` goes on with. -/
def parse (pkt : List UInt8) : Option (Hdr × List UInt8) :=
  if pkt.length < 8 then none
  else
    let h := readHdr pkt
    let plen := turnedLen h.len
    if plen < 8 ∨ plen > pkt.length then none else some (h, field pkt 8 (plen - 8))

/-- The socket that the loop over `pcbs` finds. -/
def Table.socket (t : Table) (src : UInt32) (h : Hdr) : Option ℕ :=
  if h.dstPort ∈ t.hooks then none else t.order.find? fun k => (t.pcb k).takes src h

/-- `udp_input` -/
def Table.udpInput (t : Table) (src : UInt32) (pkt : List UInt8) : Table :=
  match parse pkt with
  | none => t
  | some (h, payload) =>
    match t.socket src h with
    | none => t
    | some k => { t with pcb := Function.update t.pcb k (ringPut (t.pcb k) payload) }

/-- How a round of `udp_recv` ends. -/
inductive Recv
  | data (bytes : List UInt8)
  | fail
  | park
deriving DecidableEq

/-- One round of `udp_recv`. -/
def udpRecv (p : Pcb) (buflen : ℕ) (wait : Bool) : Pcb × Recv :=
  if p.ringCount = 0 then (p, if wait then .park else .fail)
  else
    let n := p.ringLens p.ringHead
    let n := if n > buflen then buflen else n
    ({ p with ringHead := (p.ringHead + 1) % RING_SLOTS, ringCount := p.ringCount - 1 },
      .data (slice p.ring 0 n))

def Table.udpRecv (t : Table) (k buflen : ℕ) (wait : Bool) : Table :=
  { t with pcb := Function.update t.pcb k (Udp.udpRecv (t.pcb k) buflen wait).1 }

/-- A packet arrives, or a caller receives on a socket. -/
inductive Act
  | input (src : UInt32) (pkt : List UInt8)
  | recv (k buflen : ℕ) (wait : Bool)

def Table.apply (t : Table) : Act → Table
  | .input src pkt => t.udpInput src pkt
  | .recv k buflen wait => t.udpRecv k buflen wait

/-! ## Access by access

`udp_recv` runs under `net_lock`. `udp_input` takes no lock. -/

def ringPutCode (data : List UInt8) : Code Pcb Unit :=
  .read fun p =>
    let slot := (p.ringHead + p.ringCount) % RING_SLOTS
    .read fun p =>
      if p.ringCount = RING_SLOTS then
        .read fun p => .write ({ · with dropped := p.dropped + 1 }) (.done ())
      else
        let n := if data.length > UDP_RING_SZ then UDP_RING_SZ else data.length
        .write (fun p => { p with ring := store p.ring 0 (data.take n) }) <|
        .write (fun p => { p with ringLens := Function.update p.ringLens slot n }) <|
        .read fun p => .write ({ · with ringCount := p.ringCount + 1 }) (.done ())

def udpRecvCode (buflen : ℕ) (wait : Bool) : Code Pcb Recv :=
  .read fun p =>
    if p.ringCount = 0 then .done (if wait then .park else .fail)
    else
      .read fun p =>
        let slot := p.ringHead
        .read fun p =>
          let n := p.ringLens slot
          let n := if n > buflen then buflen else n
          .read fun p =>
            let bytes := slice p.ring 0 n
            .read fun p => .write ({ · with ringHead := (p.ringHead + 1) % RING_SLOTS }) <|
            .read fun p => .write ({ · with ringCount := p.ringCount - 1 }) (.done (.data bytes))

/-- What an action ends with: the socket that the packet is for, or the answer of `udp_recv`. -/
inductive Answer
  | searched (k : Option ℕ)
  | received (r : Recv)
deriving DecidableEq

def Table.setPcb (k : ℕ) (p : Pcb) (t : Table) : Table :=
  { t with pcb := Function.update t.pcb k p }

def actCode : Act → Code Table Answer
  | .input src pkt =>
    .read fun t =>
      let found := t.socket src (readHdr pkt)
      match parse pkt, found with
      | some (_, payload), some k =>
        ((ringPutCode payload).zoom (·.pcb k) (Table.setPcb k)).bind fun _ => .done (.searched found)
      | _, _ => .done (.searched found)
  | .recv k buflen wait =>
    ((udpRecvCode buflen wait).zoom (·.pcb k) (Table.setPcb k)).bind fun r => .done (.received r)

def Act.isRecv : Act → Bool
  | .recv .. => true
  | _ => false

/-- One `udp_recv` at a time. -/
def Begins (_ : Table) (as : List Act) (a : Act) : Prop :=
  a.isRecv = true → ∀ b ∈ as, b.isRecv = false

end MobilePhoneOs.Net.Udp
