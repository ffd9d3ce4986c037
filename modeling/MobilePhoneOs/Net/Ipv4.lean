import MobilePhoneOs.Lib.Word

/-!
# The network layer (`net/ipv4.c`, with the helpers of `net/etharp.c`)

Packets are lists of bytes. Addresses are words of the host, which the header carries highest
byte first; so does `ip4_pack` of the ARP code, but not the macro that the sockets build their
addresses with.
-/

namespace MobilePhoneOs.Net

open Mem

def ETH_MTU : ℕ := 1500

def IPV4_PROTO_UDP : UInt8 := 17

def IPV4_PROTO_TCP : UInt8 := 6

/-- The `IP4` macro. -/
def ip4 (a b c d : UInt8) : UInt32 := UInt32.ofNat (leNat [a, b, c, d])

def IP4_LOOPBACK : UInt32 := ip4 127 0 0 1

def IP4_BROADCAST : UInt32 := 0xffffffff

def IP4_ANY : UInt32 := 0

/-- The `n` bytes of `v` in network order. -/
def beBytes (n v : ℕ) : List UInt8 := (leBytes n v).reverse

/-- The number that bytes in network order stand for. -/
def beNat (bytes : List UInt8) : ℕ := leNat bytes.reverse

/-- `ip4_pack` -/
def ip4Pack (ip : UInt32) : List UInt8 := beBytes 4 ip.toNat

/-- `ip4_unpack` -/
def ip4Unpack (bytes : List UInt8) : UInt32 := UInt32.ofNat (beNat bytes)

/-- `n` bytes of a packet from offset `p`. -/
def field (pkt : List UInt8) (p n : ℕ) : List UInt8 := (pkt.drop p).take n

/-- `struct netif`, as far as packets are concerned. -/
structure Netif where
  ipAddr : UInt32

/-! ## Checksums -/

/-- The sum of the 16-bit words, an odd byte at the end being the high half of one. -/
def wordSum : List UInt8 → ℕ
  | [] => 0
  | [a] => a.toNat * 256
  | a :: b :: rest => a.toNat * 256 + b.toNat + wordSum rest

/-- One round of the loop that adds the carries. -/
def carry (sum : ℕ) : ℕ := sum % 65536 + sum / 65536

/-- The loop, which is over after two rounds for a sum of 32 bits, and the complement. -/
def complement (sum : ℕ) : UInt16 := UInt16.ofNat (65535 - carry (carry sum))

/-- `ip4_checksum` -/
def ip4Checksum (buf : List UInt8) : UInt16 := complement (wordSum buf)

/-- `ip4_pseudo_checksum` -/
def ip4PseudoChecksum (src dst : UInt32) (proto : UInt8) (seg : List UInt8) : UInt16 :=
  complement (src.toNat / 65536 + src.toNat % 65536 + dst.toNat / 65536 + dst.toNat % 65536 +
    proto.toNat + seg.length + wordSum seg)

/-! ## `ip4_output` and `ipv4_input` -/

/-- The header with the bytes of its checksum field. -/
def ip4Header (total : ℕ) (proto : UInt8) (csum : List UInt8) (src dst : UInt32) : List UInt8 :=
  [0x45, 0] ++ beBytes 2 total ++
    -- "DF", in the bytes of the identification
    [0x40, 0] ++ [0, 0] ++ [64, proto] ++ csum ++ beBytes 4 src.toNat ++ beBytes 4 dst.toNat

/-- `ip4_output`: the packet that it hands to `arp_send_ip`. -/
def ip4Output (src dst : UInt32) (proto : UInt8) (buf : List UInt8) : Option (List UInt8) :=
  if buf.length > ETH_MTU - 20 then none
  else
    let csum := ip4Checksum (ip4Header (20 + buf.length) proto [0, 0] src dst)
    some (ip4Header (20 + buf.length) proto (beBytes 2 csum.toNat) src dst ++ buf)

/-- What `ipv4_input` hands to the transport. -/
structure Ip4Packet where
  proto : UInt8
  src : UInt32
  dst : UInt32
  payload : List UInt8
deriving DecidableEq, Repr

/-- `ipv4_input` up to the switch over the protocols. -/
def ipv4Input (nif : Netif) (pkt : List UInt8) : Option Ip4Packet :=
  if pkt.length < 20 then none
  else
    let vihl := beNat (field pkt 0 1)
    if vihl / 16 ≠ 4 then none
    else
      let ihl := vihl % 16 * 4
      let total := beNat (field pkt 2 2)
      if ihl < 20 ∨ ihl > pkt.length ∨ total > pkt.length ∨ total < ihl then none
      else
        let csumRx := beNat (field pkt 10 2)
        let csumCalc := (ip4Checksum (pkt.take ihl)).toNat
        -- a good header sums up to zero with its checksum in place
        if csumCalc ≠ 0 ∧ csumRx ≠ csumCalc then none
        else
          let src := ip4Unpack (field pkt 12 4)
          let dst := ip4Unpack (field pkt 16 4)
          if dst ≠ nif.ipAddr ∧ dst ≠ IP4_BROADCAST ∧ dst ≠ IP4_LOOPBACK then none
          else some ⟨UInt8.ofNat (beNat (field pkt 9 1)), src, dst, field pkt ihl (total - ihl)⟩

end MobilePhoneOs.Net
