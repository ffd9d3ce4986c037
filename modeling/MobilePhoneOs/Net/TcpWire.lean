import MobilePhoneOs.Net.Ipv4
import MobilePhoneOs.Net.Tcp

/-!
# TCP segments on the wire (`net/tcp.c`)

`build_seg` lays the header out as the host does, except for the sequence numbers; `tcp_input`
reads it the same way.
-/

namespace MobilePhoneOs.Net.Tcp

open Mem

def TCP_WINDOW : ℕ := 4096

/-- The fields of `struct tcp_hdr` that a caller of `build_seg` gives. -/
structure Hdr where
  srcPort : UInt16
  dstPort : UInt16
  seq : UInt32
  ack : UInt32
  flags : UInt8
deriving DecidableEq

/-- The segment of `build_seg` with `csum` in its checksum field. -/
def segment (h : Hdr) (csum : ℕ) (payload : List UInt8) : List UInt8 :=
  leBytes 2 h.srcPort.toNat ++ leBytes 2 h.dstPort.toNat ++ beBytes 4 h.seq.toNat ++
    beBytes 4 h.ack.toNat ++ [0x50, h.flags] ++ leBytes 2 TCP_WINDOW ++ leBytes 2 csum ++ [0, 0] ++
    payload

/-- `build_seg` -/
def buildSeg (src dst : UInt32) (h : Hdr) (payload : List UInt8) : List UInt8 :=
  segment h (ip4PseudoChecksum src dst IPV4_PROTO_TCP (segment h 0 payload)).toNat payload

/-- `tcp_xmit`: the packet that goes out. -/
def xmitPacket (nif : Option Netif) (localIp remoteIp : UInt32) (h : Hdr) (payload : List UInt8) :
    Option (List UInt8) :=
  if nif.isNone ∨ remoteIp = 0 then none
  else ip4Output localIp remoteIp IPV4_PROTO_TCP (buildSeg localIp remoteIp h payload)

/-- The fields and the payload that `tcp_input` takes from a segment. -/
def parse (pkt : List UInt8) : Option (Hdr × List UInt8) :=
  if pkt.length < 20 then none
  else
    let doff := beNat (field pkt 12 1) / 16 * 4
    if doff < 20 ∨ doff > pkt.length then none
    else
      some (⟨UInt16.ofNat (leNat (field pkt 0 2)), UInt16.ofNat (leNat (field pkt 2 2)),
        UInt32.ofNat (beNat (field pkt 4 4)), UInt32.ofNat (beNat (field pkt 8 4)),
        UInt8.ofNat (beNat (field pkt 13 1))⟩, pkt.drop doff)

end MobilePhoneOs.Net.Tcp
