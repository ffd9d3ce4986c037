import MobilePhoneOs.Net.TcpWire
import MobilePhoneOs.Net.UdpTheorems

/-!
# What the transports put on the wire

The network layer keeps network order and its checksum verifies. The transports do not: the
length of a datagram of `udp_send` is one that `udp_input` refuses, and the window of a TCP segment
is never in network order, although a segment comes back from `tcp_input` as it was built.
-/

namespace MobilePhoneOs.Net

open Mem
open Udp (parse udpSegment udpSend)

variable {src dst : UInt32} {proto : UInt8} {buf pkt : List UInt8}

/-! ## What a right packet is -/

/-- The sum of the words and what a checksum covers besides them is right when it is all ones. -/
def Verifies (sum : ℕ) : Prop := carry (carry sum) = 65535

/-- The part of the pseudo header in the sum of a segment of `len` bytes. -/
def pseudoSum (src dst : UInt32) (proto : UInt8) (len : ℕ) : ℕ :=
  src.toNat / 65536 + src.toNat % 65536 + dst.toNat / 65536 + dst.toNat % 65536 + proto.toNat + len

/-- The network header of a packet is right and its receiver gets the segment in it. -/
structure IpWire (src dst : UInt32) (proto : UInt8) (seg pkt : List UInt8) : Prop where
  total : field pkt 2 2 = beBytes 2 pkt.length
  source : field pkt 12 4 = beBytes 4 src.toNat
  target : field pkt 16 4 = beBytes 4 dst.toNat
  checksum : Verifies (wordSum (field pkt 0 20))
  received : ipv4Input ⟨dst⟩ pkt = some ⟨proto, src, dst, seg⟩

/-- A packet of `udp_send` is in network order with the right lengths and checksums, and arrives
as what was sent. -/
structure UdpWire (p : Udp.Pcb) (buf pkt : List UInt8) : Prop where
  ip : IpWire p.localIp p.remoteIp IPV4_PROTO_UDP (pkt.drop 20) pkt
  srcPort : field pkt 20 2 = beBytes 2 p.localPort.toNat
  dstPort : field pkt 22 2 = beBytes 2 p.remotePort.toNat
  len : field pkt 24 2 = beBytes 2 (8 + buf.length)
  checksum : Verifies (pseudoSum p.localIp p.remoteIp IPV4_PROTO_UDP (8 + buf.length) +
    wordSum (pkt.drop 20))
  received : ∃ h, parse (pkt.drop 20) = some (h, buf) ∧ h.srcPort = p.localPort ∧
    h.dstPort = p.remotePort

/-- The same for a segment of TCP. -/
structure TcpWire (src dst : UInt32) (h : Tcp.Hdr) (payload pkt : List UInt8) : Prop where
  ip : IpWire src dst IPV4_PROTO_TCP (pkt.drop 20) pkt
  srcPort : field pkt 20 2 = beBytes 2 h.srcPort.toNat
  dstPort : field pkt 22 2 = beBytes 2 h.dstPort.toNat
  seq : field pkt 24 4 = beBytes 4 h.seq.toNat
  ack : field pkt 28 4 = beBytes 4 h.ack.toNat
  window : field pkt 34 2 = beBytes 2 Tcp.TCP_WINDOW
  checksum : Verifies (pseudoSum src dst IPV4_PROTO_TCP (20 + payload.length) +
    wordSum (pkt.drop 20))
  received : Tcp.parse (pkt.drop 20) = some (h, payload)

/-- The macro of the sockets names the address that ARP and the network layer put on the wire. -/
def SameAddress (a b c d : UInt8) : Prop := ip4Pack (ip4 a b c d) = [a, b, c, d]

/-! ## The network layer -/

/-- Bytes in network order give back the number. -/
lemma beNat_beBytes (n v : ℕ) : beNat (beBytes n v) = v % 256 ^ n := by
  rw [beNat, beBytes, List.reverse_reverse, leNat_leBytes]

/-- Adding the carries does not change a sum modulo 65535, and leaves no positive sum empty. -/
lemma carry_mod (sum : ℕ) : carry sum % 65535 = sum % 65535 := by
  rw [carry]
  omega

variable {sum : ℕ}

lemma carry_pos (h : 0 < sum) : 0 < carry sum := by
  rw [carry]
  omega

/-- Two rounds bring a sum of a little more than 32 bits below 65537. -/
lemma carry_carry_le (h : sum < 2 ^ 32 + 65536) : carry (carry sum) ≤ 65536 := by
  have h1 : carry sum ≤ 65535 + 65536 := by
    rw [carry]
    omega
  rw [carry]
  omega

lemma beNat_of_lt {n v : ℕ} (h : v < 256 ^ n) : beNat (beBytes n v) = v := by
  rw [beNat_beBytes, Nat.mod_eq_of_lt h]

@[simp] lemma beBytes_length (n v : ℕ) : (beBytes n v).length = n := by
  rw [beBytes, List.length_reverse, leBytes_length]

/-- The checksum of a sum completes it. -/
lemma verifies_complement (hpos : 0 < sum) (hsum : sum < 2 ^ 32) :
    Verifies (sum + (complement sum).toNat) := by
  have hle : carry (carry sum) ≤ 65535 := by
    have h1 : carry sum ≤ 65535 + 65535 := by
      rw [carry]
      omega
    rw [carry]
    omega
  have hcsum : (complement sum).toNat = 65535 - carry (carry sum) := by
    rw [complement, UInt16.toNat_ofNat']
    omega
  have hmod : carry (carry sum) % 65535 = sum % 65535 := by rw [carry_mod, carry_mod]
  have hall := carry_carry_le (show sum + (complement sum).toNat < 2 ^ 32 + 65536 by omega)
  have hallpos := carry_pos (carry_pos (show 0 < sum + (complement sum).toNat by omega))
  have hallmod : carry (carry (sum + (complement sum).toNat)) % 65535 = 0 := by
    rw [carry_mod, carry_mod, hcsum]
    omega
  rw [Verifies]
  omega

/-- What verifies has a complement of zero. -/
lemma complement_of_verifies (h : Verifies sum) : complement sum = 0 := by
  rw [complement, show carry (carry sum) = 65535 from h]
  rfl

/-- Whole words first, the rest after them. -/
lemma wordSum_append {xs : List UInt8} (ys : List UInt8) (h : xs.length % 2 = 0) :
    wordSum (xs ++ ys) = wordSum xs + wordSum ys := by
  fun_induction wordSum xs with
  | case1 => exact (Nat.zero_add _).symm
  | case2 a => cases h
  | case3 a b rest ih =>
    have hrest : rest.length % 2 = 0 := by
      rw [List.length_cons, List.length_cons] at h
      omega
    rw [List.cons_append, List.cons_append, wordSum, ih hrest]
    omega

lemma wordSum_be {v : ℕ} (h : v < 65536) : wordSum (beBytes 2 v) = v := by
  show (UInt8.ofNat (v / 256)).toNat * 256 + (UInt8.ofNat v).toNat + 0 = v
  rw [UInt8.toNat_ofNat', UInt8.toNat_ofNat']
  omega

/-- The sum of the header is that of its other fields and its checksum. -/
lemma wordSum_header (total : ℕ) {csum : ℕ} (hcsum : csum < 65536) :
    wordSum (ip4Header total proto (beBytes 2 csum) src dst) =
      wordSum (ip4Header total proto [0, 0] src dst) + csum := by
  have hsum : ∀ field : List UInt8, field.length = 2 →
      wordSum (ip4Header total proto field src dst) =
        wordSum ([0x45, 0] ++ beBytes 2 total ++ [0x40, 0] ++ [0, 0] ++ [64, proto]) +
          wordSum field + wordSum (beBytes 4 src.toNat ++ beBytes 4 dst.toNat) := by
    intro field hlen
    rw [ip4Header, List.append_assoc _ (beBytes 4 src.toNat), wordSum_append, wordSum_append]
    · simp [beBytes_length]
    · simp [beBytes_length, hlen]
  have hzero : wordSum [0, 0] = 0 := rfl
  rw [hsum _ rfl, hsum _ rfl, wordSum_be hcsum, hzero]
  omega

lemma wordSum_lt (bytes : List UInt8) : wordSum bytes ≤ 65535 * bytes.length := by
  fun_induction wordSum bytes with
  | case1 => exact Nat.zero_le _
  | case2 a =>
    have := a.toNat_lt
    rw [List.length_singleton]
    omega
  | case3 a b rest ih =>
    have ha := a.toNat_lt
    have hb := b.toNat_lt
    rw [List.length_cons, List.length_cons]
    omega

lemma header_verifies (total : ℕ) (proto : UInt8) (src dst : UInt32) :
    Verifies (wordSum (ip4Header total proto
      (beBytes 2 (ip4Checksum (ip4Header total proto [0, 0] src dst)).toNat) src dst)) := by
  rw [wordSum_header total (UInt16.toNat_lt _)]
  have hbound := wordSum_lt (ip4Header total proto [0, 0] src dst)
  have hlen : (ip4Header total proto [0, 0] src dst).length = 20 := rfl
  have hpos : 0 < wordSum (ip4Header total proto [0, 0] src dst) := by
    show 0 < 0x45 * 256 + 0 + wordSum _
    omega
  exact verifies_complement hpos (by omega)

/-- What `ip4_output` sends is right, and `ipv4_input` of its receiver passes it on. -/
lemma ip4Output_wire (h : ip4Output src dst proto buf = some pkt) :
    pkt.drop 20 = buf ∧ IpWire src dst proto buf pkt := by
  rw [ip4Output] at h
  split at h
  · cases h
  case isFalse hfits =>
    have hbuf : buf.length ≤ 1480 := by
      simp only [ETH_MTU] at hfits
      omega
    obtain rfl := Option.some.inj h
    have hver := header_verifies (20 + buf.length) proto src dst
    generalize hcsum : (ip4Checksum (ip4Header (20 + buf.length) proto [0, 0] src dst)).toNat = csum
      at hver ⊢
    have hlen : (ip4Header (20 + buf.length) proto (beBytes 2 csum) src dst ++ buf).length
        = 20 + buf.length := by
      rw [List.length_append]
      rfl
    have haddr : ∀ ip : UInt32, ip4Unpack (beBytes 4 ip.toNat) = ip := fun ip => by
      have hip : ip.toNat < 256 ^ 4 := ip.toNat_lt
      rw [ip4Unpack, beNat_of_lt hip, UInt32.ofNat_toNat]
    have htotal : beNat (beBytes 2 (20 + buf.length)) = 20 + buf.length :=
      beNat_of_lt (by omega)
    have hproto : UInt8.ofNat (beNat [proto]) = proto := by
      show UInt8.ofNat (proto.toNat + 256 * 0) = proto
      rw [Nat.mul_zero, Nat.add_zero, UInt8.ofNat_toNat]
    refine ⟨rfl, ⟨congrArg (beBytes 2) hlen.symm, rfl, rfl, hver, ?_⟩⟩
    generalize hpkt : ip4Header (20 + buf.length) proto (beBytes 2 csum) src dst ++ buf = pkt at hlen ⊢
    have h0 : beNat (field pkt 0 1) = 69 := by
      rw [← hpkt]
      rfl
    have h2 : beNat (field pkt 2 2) = 20 + buf.length := by
      rw [← hpkt]
      exact htotal
    have h9 : field pkt 9 1 = [proto] := by
      rw [← hpkt]
      rfl
    have h12 : field pkt 12 4 = beBytes 4 src.toNat := by
      rw [← hpkt]
      rfl
    have h16 : field pkt 16 4 = beBytes 4 dst.toNat := by
      rw [← hpkt]
      rfl
    have hsum : ip4Checksum (pkt.take 20) = 0 := by
      rw [← hpkt]
      exact complement_of_verifies hver
    have hpay : field pkt 20 (20 + buf.length - 20) = buf := by
      rw [← hpkt, Nat.add_sub_cancel_left]
      exact List.take_length
    rw [ipv4Input, if_neg (by omega)]
    rw [h0, if_neg (by decide), h2, if_neg (by omega), hsum, if_neg (by simp), h12, h16, haddr, haddr,
      if_neg (by simp), h9, hproto, hpay]

/-! ## The transports -/

/-- The length of a datagram of `udp_send`, turned by `udp_input`, is more than the datagram has. -/
lemma udp_refused (p : Udp.Pcb) (csum : ℕ) (hbuf : buf.length ≤ 512) :
    parse (udpSegment p csum buf) = none := by
  have hlen : (udpSegment p csum buf).length = 8 + buf.length := by
    simp [udpSegment]
    omega
  have hfield : field (udpSegment p csum buf) 4 2 = leBytes 2 (8 + buf.length) := rfl
  have hread : (Udp.readHdr (udpSegment p csum buf)).len = 8 + buf.length := by
    show leNat (field (udpSegment p csum buf) 4 2) = _
    rw [hfield, leNat_leBytes, Nat.mod_eq_of_lt (by omega)]
  have hturned : Udp.turnedLen (8 + buf.length) > 8 + buf.length := by
    rw [Udp.turnedLen]
    omega
  rw [parse, if_neg (by omega)]
  dsimp only
  rw [hread, hlen, if_pos (.inr hturned)]

/-- The window of a segment stands with its low byte first. -/
lemma tcp_window (h : Tcp.Hdr) (csum : ℕ) (payload : List UInt8) :
    field (Tcp.segment h csum payload) 14 2 ≠ beBytes 2 Tcp.TCP_WINDOW := by
  have hfield : field (Tcp.segment h csum payload) 14 2 = leBytes 2 Tcp.TCP_WINDOW := rfl
  rw [hfield]
  decide

/-- The macro and the packers agree on the addresses that read the same from both ends. -/
lemma sameAddress_iff {a b c d : UInt8} : SameAddress a b c d ↔ a = d ∧ b = c := by
  have hpow : leNat [a, b, c, d] < 256 ^ 4 := leNat_lt [a, b, c, d]
  have hbytes : leBytes 4 (leNat [a, b, c, d]) = [a, b, c, d] := leBytes_leNat [a, b, c, d]
  have hpack : ip4Pack (ip4 a b c d) = [d, c, b, a] := by
    rw [ip4Pack, ip4, UInt32.toNat_ofNat', Nat.mod_eq_of_lt (by omega), beBytes, hbytes]
    rfl
  rw [SameAddress, hpack]
  constructor
  · intro h
    simp only [List.cons.injEq, and_true] at h
    exact ⟨h.1.symm, h.2.1.symm⟩
  · rintro ⟨rfl, rfl⟩
    rfl

/-- No packet of `udp_send` is read as a datagram. -/
lemma udpSend_refused {nif : Netif} {p : Udp.Pcb} (h : udpSend (some nif) p buf = some pkt) :
    parse (pkt.drop 20) = none := by
  rw [udpSend] at h
  split at h
  · cases h
  case isFalse hfits =>
    rw [not_or] at hfits
    rw [(ip4Output_wire h).1]
    exact udp_refused _ _ (by omega)

/-- No packet of either transport is right: `udp_input` refuses every datagram that `udp_send`
builds, and no TCP segment has its window in network order. The addresses that the sockets write
with the macro are those that ARP and the network layer send only if they are palindromes. -/
theorem wire_never (nif nif' : Netif) (p : Udp.Pcb) (h : Tcp.Hdr) (src dst : UInt32)
    (buf payload pkt seg : List UInt8) (a b c d : UInt8)
    (hudp : udpSend (some nif) p buf = some pkt)
    (htcp : Tcp.xmitPacket (some nif') src dst h payload = some seg) :
    ¬ UdpWire p buf pkt ∧ ¬ TcpWire src dst h payload seg ∧
      (SameAddress a b c d ↔ a = d ∧ b = c) := by
  refine ⟨fun hwire => ?_, fun hwire => ?_, sameAddress_iff⟩
  · obtain ⟨hdr, hparse, -⟩ := hwire.received
    rw [udpSend_refused hudp] at hparse
    cases hparse
  · rw [Tcp.xmitPacket] at htcp
    split at htcp
    · cases htcp
    · have hwindow := hwire.window
      have hdrop := (ip4Output_wire htcp).1
      rw [show field seg 34 2 = field (seg.drop 20) 14 2 by rw [field, field, List.drop_drop], hdrop] at hwindow
      exact tcp_window _ _ _ hwindow

/-- A socket at port 0x1234 of 10.0.0.1 that sends to port 80 of 10.0.0.2. -/
def sender : Udp.Pcb :=
  ⟨0x0a000001, 0x0a000002, 0x1234, 80, fun _ => 0, fun _ => 0, 0, 0, 0⟩

def senderHdr : Tcp.Hdr := ⟨0x1234, 80, 1, 0, 2⟩

/-- A datagram of one byte, and a segment that is longer than any datagram. -/
theorem wire_never_byte : ∃ pkt seg, ¬ UdpWire sender [7] pkt ∧
    ¬ TcpWire 0x0a000001 0x0a000002 senderHdr (List.replicate 600 7) seg ∧
      (SameAddress 127 0 0 1 ↔ (127 : UInt8) = 1 ∧ (0 : UInt8) = 0) := by
  obtain ⟨pkt, hudp⟩ : ∃ pkt, udpSend (some ⟨0⟩) sender [7] = some pkt :=
    Option.isSome_iff_exists.mp (by decide)
  obtain ⟨seg, htcp⟩ : ∃ seg, Tcp.xmitPacket (some ⟨0⟩) 0x0a000001 0x0a000002 senderHdr
      (List.replicate 600 7) = some seg := Option.isSome_iff_exists.mp (by decide +kernel)
  exact ⟨pkt, seg, wire_never ⟨0⟩ ⟨0⟩ sender senderHdr 0x0a000001 0x0a000002 [7] _ pkt seg 127 0 0 1
    hudp htcp⟩

/-- The datagram of one byte is not one that arrives. -/
theorem sent_byte_refused : ¬ ∀ nif p buf pkt, udpSend nif p buf = some pkt → UdpWire p buf pkt := by
  intro hall
  obtain ⟨pkt, hudp⟩ : ∃ pkt, udpSend (some ⟨0⟩) sender [7] = some pkt :=
    Option.isSome_iff_exists.mp (by decide)
  obtain ⟨hdr, hparse, -⟩ := (hall _ _ _ _ hudp).received
  rw [udpSend_refused hudp] at hparse
  cases hparse

end MobilePhoneOs.Net
