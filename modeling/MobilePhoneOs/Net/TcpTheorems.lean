import MobilePhoneOs.Net.Tcp

/-!
# What a segment changes in a connection

An acknowledgement changes the account of the outstanding segment only. Of a payload that is in
order the ring takes what fits, across its end, and `rcv_nxt` moves on by as much.
-/

namespace MobilePhoneOs

namespace Net
namespace Tcp

open Mem
open MobilePhoneOs.Ring
open UInt32 (ofNat)
open List (length_take)

/-! ## Acknowledgements -/

/-- What ACK processing may change: the send side's account of the outstanding segment. -/
structure Acked (p p' : Pcb) : Prop where
  state : p'.state = p.state
  sndNxt : p'.sndNxt = p.sndNxt
  sndSeg : p'.sndSeg = p.sndSeg
  sndLen : p'.sndLen = p.sndLen
  inflight : p'.sndInflight = true → p.sndInflight = true
  finSent : p'.finSent = p.finSent
  peerFin : p'.peerFin = p.peerFin
  rcvRing : p'.rcvRing = p.rcvRing
  rcvHead : p'.rcvHead = p.rcvHead
  rcvCount : p'.rcvCount = p.rcvCount
  rcvNxt : p'.rcvNxt = p.rcvNxt

lemma ackSegment_spec (p : Pcb) (ack : UInt32) : Acked p (ackSegment p ack) := by
  unfold ackSegment
  simp only
  split_ifs
  · exact ⟨rfl, rfl, rfl, rfl, fun h => absurd h Bool.false_ne_true, rfl, rfl, rfl, rfl, rfl, rfl⟩
  · exact ⟨rfl, rfl, rfl, rfl, fun h => absurd h Bool.false_ne_true, rfl, rfl, rfl, rfl, rfl, rfl⟩
  · exact ⟨rfl, rfl, rfl, rfl, fun h => h, rfl, rfl, rfl, rfl, rfl, rfl⟩

lemma tcpAck_spec (p : Pcb) (m : Seg) : Acked p (tcpAck p m) := by
  unfold tcpAck
  split_ifs
  · have h := ackSegment_spec p m.ack
    exact ⟨h.state, h.sndNxt, h.sndSeg, h.sndLen, h.inflight, h.finSent, h.peerFin, h.rcvRing,
      h.rcvHead, h.rcvCount, h.rcvNxt⟩
  · exact ⟨rfl, rfl, rfl, rfl, fun h => h, rfl, rfl, rfl, rfl, rfl, rfl⟩

/-! ## Payload -/

/-- The bytes queued in the ring. -/
def Pcb.queued (p : Pcb) : List UInt8 := contents TCP_RING_SZ p.rcvRing p.rcvHead p.rcvCount

variable {p : Pcb}

/-- The two copies append to the ring. -/
lemma ringPut_spec {payload : List UInt8} {n : ℕ} (hn : n ≤ payload.length)
    (hroom : p.rcvCount + n ≤ TCP_RING_SZ) :
    (ringPut p payload n).queued = p.queued ++ payload.take n := by
  have hqueued : (ringPut p payload n).queued
      = contents TCP_RING_SZ (ringPut p payload n).rcvRing p.rcvHead (p.rcvCount + n) := rfl
  rw [hqueued, ringPut]
  generalize htail : (p.rcvHead + p.rcvCount) % TCP_RING_SZ = tail
  have hlt : tail < TCP_RING_SZ := htail ▸ Nat.mod_lt _ (by decide)
  generalize hfirst : (if TCP_RING_SZ - tail > n then n else TCP_RING_SZ - tail) = first
  have hf : first ≤ n ∧ first ≤ TCP_RING_SZ - tail ∧ (first < n → first = TCP_RING_SZ - tail) := by
    split_ifs at hfirst <;> omega
  have hlen1 : (payload.take first).length = first := by
    rw [length_take]
    omega
  have hlen2 : ((payload.drop first).take (n - first)).length = n - first := by
    rw [length_take, List.length_drop]
    omega
  -- the first copy runs to the end of the ring, the second starts over
  have hone : contents TCP_RING_SZ (store p.rcvRing tail (payload.take first)) p.rcvHead
      (p.rcvCount + (payload.take first).length) = p.queued ++ payload.take first :=
    contents_store htail.symm (by omega) (by omega)
  rw [hlen1] at hone
  have hsplit : payload.take n = payload.take first ++ (payload.drop first).take (n - first) := by
    rw [← List.take_add, Nat.add_sub_cancel' hf.1]
  rcases Nat.eq_or_lt_of_le hf.1 with heq | hlt'
  · rw [hsplit, ← heq, Nat.sub_self, List.take_zero, List.append_nil, store_nil]
    exact hone
  · have hwrap : 0 = (p.rcvHead + (p.rcvCount + first)) % TCP_RING_SZ := by
      rw [← Nat.add_assoc, ← Nat.mod_add_mod, htail, hf.2.2 hlt', Nat.add_sub_cancel' hlt.le,
        Nat.mod_self]
    have htwo : contents TCP_RING_SZ (store (store p.rcvRing tail (payload.take first)) 0
        ((payload.drop first).take (n - first))) p.rcvHead
        (p.rcvCount + first + ((payload.drop first).take (n - first)).length)
        = contents TCP_RING_SZ (store p.rcvRing tail (payload.take first)) p.rcvHead
          (p.rcvCount + first) ++ (payload.drop first).take (n - first) :=
      contents_store hwrap (by omega) (by omega)
    rw [hlen2, Nat.add_assoc, Nat.add_sub_cancel' hf.1, hone] at htwo
    rw [htwo, hsplit, List.append_assoc]

/-- The bytes that fit are appended to the ring, and `rcv_nxt` moves on by as many. -/
lemma tcpTake_spec (payload : List UInt8) (hcount : p.rcvCount ≤ TCP_RING_SZ) :
    ∃ ring n, n ≤ payload.length ∧ p.rcvCount + n ≤ TCP_RING_SZ ∧
      contents TCP_RING_SZ ring p.rcvHead (p.rcvCount + n) = p.queued ++ payload.take n ∧
      tcpTake p payload = { p with
        rcvRing := ring, rcvCount := p.rcvCount + n, rcvNxt := p.rcvNxt + ofNat n
        lastAckSent := p.rcvNxt + ofNat n } := by
  unfold tcpTake
  simp only
  generalize htake : (if payload.length < TCP_RING_SZ - p.rcvCount then payload.length
    else TCP_RING_SZ - p.rcvCount) = n
  have hn : n ≤ payload.length ∧ p.rcvCount + n ≤ TCP_RING_SZ := by
    split_ifs at htake <;> omega
  by_cases h0 : n = 0
  · refine ⟨p.rcvRing, 0, Nat.zero_le _, by omega, ?_, ?_⟩
    · rw [List.take_zero, List.append_nil, Nat.add_zero, Pcb.queued]
    · have hzero : p.rcvNxt + ofNat 0 = p.rcvNxt := UInt32.add_zero _
      rw [if_pos h0, hzero, Nat.add_zero]
  · refine ⟨(ringPut p payload n).rcvRing, n, hn.1, hn.2, ringPut_spec hn.1 hn.2, ?_⟩
    rw [if_neg h0]
    rfl

/-- A connection that has just been opened, both sequence numbers at 1. -/
def freshPcb : Pcb where
  state := .established
  sndUna := 1
  sndNxt := 1
  sndSeg := fun _ => 0
  sndLen := 0
  sndInflight := false
  sndTimeoutMs := 0
  retries := 0
  finSent := false
  finAcked := false
  peerFin := false
  rstReceived := false
  rcvRing := fun _ => 0
  rcvHead := 0
  rcvCount := 0
  rcvEof := false
  rcvNxt := 1
  lastAckSent := 0

end Tcp
end Net
end MobilePhoneOs
