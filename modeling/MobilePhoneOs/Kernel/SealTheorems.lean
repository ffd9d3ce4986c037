import MobilePhoneOs.Kernel.Abmgr
import MobilePhoneOs.Lib.Crc

/-!
# The seal checksum detects damage

The checksum of a slot combines the CRCs of its sectors by `crc ^ (crc << 1)`, which no two values
share. An error burst of at most 32 bits in one sector therefore changes the checksum, whatever
sectors follow, if the loop reaches that sector: its bound is a product in 64 bits.
-/

namespace MobilePhoneOs.Abmgr

open UInt32 (toNat_inj toNat_xor xor_left_inj)

/-! ## The CRC of a sector -/

def POLY : ℕ := 0xedb88320

lemma poly_degree : Crc.Degree POLY 31 := by
  refine ⟨?_, ?_⟩ <;> decide

/-- The mask of the low bit is all ones or zero. -/
lemma crcBit_toNat (crc : UInt32) : (crcBit crc).toNat = Crc.step POLY crc.toNat := by
  have hlow : (crc &&& 1).toNat = crc.toNat % 2 := by
    rw [UInt32.toNat_and]
    exact Nat.and_one_is_mod _
  unfold crcBit Crc.step
  rw [toNat_xor, UInt32.toNat_and, UInt32.toNat_shiftRight]
  by_cases hodd : crc.toNat % 2 = 1
  · have hbit : crc &&& 1 = 1 := toNat_inj.mp (hlow.trans hodd)
    have htest : crc.toNat.testBit 0 = true := by simp [Nat.testBit_zero, hodd]
    rw [hbit, htest]
    rfl
  · have heven : crc.toNat % 2 = 0 := by omega
    have hbit : crc &&& 1 = 0 := toNat_inj.mp (hlow.trans heven)
    have htest : crc.toNat.testBit 0 = false := by simp [Nat.testBit_zero, heven]
    rw [hbit, htest]
    rfl

lemma crcBit_iterate (n : ℕ) (crc : UInt32) :
    (crcBit^[n] crc).toNat = (Crc.step POLY)^[n] crc.toNat := by
  induction n generalizing crc with
  | zero => rfl
  | succ n ih => rw [Function.iterate_succ_apply, Function.iterate_succ_apply, ih, crcBit_toNat]

lemma crc32_loop (bytes : List UInt8) (crc : UInt32) :
    (bytes.foldl (fun crc b => crcBit^[8] (crc ^^^ b.toUInt32)) crc).toNat
      = Crc.bytes POLY crc.toNat bytes := by
  induction bytes generalizing crc with
  | nil => rfl
  | cons b bs ih =>
    have hbyte : (crcBit^[8] (crc ^^^ b.toUInt32)).toNat = Crc.byte POLY crc.toNat b := by
      rw [crcBit_iterate, toNat_xor, UInt8.toNat_toUInt32, Crc.byte]
    rw [List.foldl_cons, ih, hbyte, Crc.bytes, Crc.bytes, List.foldl_cons]

/-- A burst in a sector changes the CRC of the sector. -/
lemma crc32_calc_ne {a b : List UInt8} (hlen : a.length = b.length) (hne : a ≠ b)
    (hburst : Crc.Burst 32 a b) : crc32_calc a ≠ crc32_calc b := by
  intro heq
  have hloop := (xor_left_inj _).mp heq
  apply Crc.bytes_ne_of_burst poly_degree hlen hne hburst 0xffffffff
  have hnat := congrArg UInt32.toNat hloop
  rwa [crc32_loop, crc32_loop] at hnat

/-! ## The fold over the sectors -/

/-- The running value before the next CRC is added to it. -/
def mix (crc : UInt32) : UInt32 := (crc <<< 1) ^^^ crc

lemma mix_testBit_zero (u : UInt32) : (mix u).toNat.testBit 0 = u.toNat.testBit 0 := by
  unfold mix
  rw [toNat_xor, Nat.testBit_xor, UInt32.toNat_shiftLeft, Nat.testBit_mod_two_pow]
  simp

lemma mix_testBit (u : UInt32) (i : ℕ) (hi : i + 1 < 32) :
    (mix u).toNat.testBit (i + 1) = Bool.xor (u.toNat.testBit i) (u.toNat.testBit (i + 1)) := by
  unfold mix
  rw [toNat_xor, Nat.testBit_xor, UInt32.toNat_shiftLeft, Nat.testBit_mod_two_pow]
  simp [hi, Nat.testBit_shiftLeft]

/-- Each bit of the mixture is a bit and the one below it, so the bits can be told one after the
other. -/
lemma mix_injective : Function.Injective mix := by
  intro u v h
  rw [← toNat_inj]
  apply Nat.eq_of_testBit_eq
  intro i
  induction i with
  | zero => rw [← mix_testBit_zero u, h, mix_testBit_zero]
  | succ i ih =>
    by_cases hi : i + 1 < 32
    · have hbit := mix_testBit u i hi
      rw [h, mix_testBit v i hi, ih] at hbit
      exact ((Bool.xor_right_inj).mp hbit).symm
    · have hpow : 2 ^ 32 ≤ 2 ^ (i + 1) := Nat.pow_le_pow_right (by decide) (by omega)
      rw [Nat.testBit_lt_two_pow (lt_of_lt_of_le u.toNat_lt hpow),
        Nat.testBit_lt_two_pow (lt_of_lt_of_le v.toNat_lt hpow)]

/-- The running value after the CRCs of the first `n` sectors. -/
def running (c : ℕ → UInt32) (n : ℕ) : UInt32 :=
  (List.range n).foldl (fun crc i => c i ^^^ (crc <<< 1) ^^^ crc) 0xffffffff

lemma running_succ (c : ℕ → UInt32) (n : ℕ) : running c (n + 1) = c n ^^^ mix (running c n) := by
  unfold running mix
  rw [List.range_succ, List.foldl_append, List.foldl_cons, List.foldl_nil, UInt32.xor_assoc]

/-- One CRC that differs is never lost, whatever follows, and one that is not read has no part. -/
lemma running_ne_iff {c d : ℕ → UInt32} {n k : ℕ} (hsame : ∀ i < n, i ≠ k → c i = d i)
    (hne : c k ≠ d k) : running c n ≠ running d n ↔ k < n := by
  induction n with
  | zero => simp [running]
  | succ n ih =>
    have ih := ih fun i hi => hsame i (Nat.lt_succ_of_lt hi)
    rw [running_succ, running_succ]
    by_cases hk : n = k
    · have hbefore : running c n = running d n := by
        by_contra hdiff
        exact absurd (ih.mp hdiff) (by omega)
      rw [hbefore, hk, Ne, xor_left_inj]
      exact ⟨fun _ => Nat.lt_succ_self k, fun _ => hne⟩
    · rw [hsame n (Nat.lt_succ_self n) hk, Ne, UInt32.xor_right_inj, mix_injective.eq_iff, ← Ne, ih]
      omega

/-! ## The seal -/

/-- The payloads of the two managers differ by a burst of at most 32 bits in sector `k` alone. -/
structure Damaged (p q : ℕ → List UInt8) (lba nsect k : ℕ) : Prop where
  inside : k < nsect
  size : (p ((lba + k) % 2 ^ 64)).length = (q ((lba + k) % 2 ^ 64)).length
  same : ∀ i < nsect, i ≠ k → p ((lba + i) % 2 ^ 64) = q ((lba + i) % 2 ^ 64)
  differ : p ((lba + k) % 2 ^ 64) ≠ q ((lba + k) % 2 ^ 64)
  burst : Crc.Burst 32 (p ((lba + k) % 2 ^ 64)) (q ((lba + k) % 2 ^ 64))

lemma payload_crc_ne_iff {p q : ℕ → List UInt8} {lba nsect k : ℕ} (h : Damaged p q lba nsect k) :
    payload_crc p lba nsect ≠ payload_crc q lba nsect ↔ k < nsect * 512 % 2 ^ 64 / 512 := by
  have hrounds : nsect * 512 % 2 ^ 64 / 512 ≤ nsect := by
    have hle := Nat.mod_le (nsect * 512) (2 ^ 64)
    omega
  have hcrc := running_ne_iff (c := fun i => crc32_calc (p ((lba + i) % 2 ^ 64)))
    (d := fun i => crc32_calc (q ((lba + i) % 2 ^ 64))) (n := nsect * 512 % 2 ^ 64 / 512) (k := k)
    (fun i hi hik => congrArg crc32_calc (h.same i (lt_of_lt_of_le hi hrounds) hik))
    (crc32_calc_ne h.size h.differ h.burst)
  rw [← hcrc, Ne, Ne, not_iff_not]
  exact xor_left_inj _

/-- What a seal that reads its payload leaves in its slot. -/
lemma seal_crc {s : Ab} (hloaded : s.loaded = true) (idx : Fin 2) {lba nsect : ℕ} (seq : ℕ)
    (w : Write) (hn : nsect ≠ 0) :
    ((abmgr_slot_seal idx lba nsect seq true w s).2.tbl.slots idx).crc
      = payload_crc s.payload lba nsect := by
  have hargs : s.loaded = true ∧ (idx : ℕ) < 2 ∧ nsect ≠ 0 := ⟨hloaded, idx.isLt, hn⟩
  have hwrite : ∀ t : Ab, (table_write_checked w t).2.tbl.slots = t.tbl.slots := fun t => by
    unfold table_write_checked
    split
    · cases w with
      | ok => rfl
      | fail landed | cut landed => cases landed <;> rfl
    · rfl
  rw [abmgr_slot_seal, dif_pos hargs, if_pos rfl, hwrite]
  unfold Ab.setSlot
  dsimp only
  rw [Function.update_self]

/-- **Seal checksum detects damage.** The seals of two payloads that differ by one burst have
different checksums if and only if the sector of the burst is one of those that the loop reads. -/
theorem seal_detects_damage {s t : Ab} (hs : s.loaded = true) (ht : t.loaded = true) (idx : Fin 2)
    (seq : ℕ) (w : Write) {lba nsect k : ℕ} (h : Damaged s.payload t.payload lba nsect k) :
    ((abmgr_slot_seal idx lba nsect seq true w s).2.tbl.slots idx).crc
        ≠ ((abmgr_slot_seal idx lba nsect seq true w t).2.tbl.slots idx).crc
      ↔ k < nsect * 512 % 2 ^ 64 / 512 := by
  have hn : nsect ≠ 0 := Nat.ne_of_gt (Nat.zero_lt_of_lt h.inside)
  rw [seal_crc hs idx seq w hn, seal_crc ht idx seq w hn]
  exact payload_crc_ne_iff h

/-- A device whose sectors are zero, but for one bit in sector `k`. -/
def flipped (k : ℕ) : ℕ → List UInt8 := fun a =>
  if a = k then 1 :: List.replicate 511 0 else List.replicate 512 0

/-- A device whose sectors are all zero. -/
def zeros : ℕ → List UInt8 := fun _ => List.replicate 512 0

lemma damaged_flipped {k nsect : ℕ} (hk : k < nsect) (hn : nsect ≤ 2 ^ 64) :
    Damaged zeros (flipped k) 0 nsect k := by
  have haddr : ∀ i < nsect, (0 + i) % 2 ^ 64 = i := fun i hi => by omega
  have hself : flipped k k = 1 :: List.replicate 511 0 := if_pos rfl
  have hzero : zeros k = 0 :: List.replicate 511 0 := List.replicate_succ
  constructor
  · exact hk
  · rw [haddr k hk, hself, hzero, List.length_cons, List.length_cons]
  · intro i hi hik
    rw [haddr i hi, flipped, if_neg hik, zeros]
  · rw [haddr k hk, hself, hzero]
    exact fun h => absurd (List.cons.inj h).1 (by decide)
  · rw [haddr k hk, hself, hzero]
    refine ⟨0, fun j hj => ?_⟩
    by_contra hout
    have hdiv : j / 8 = (j / 8 - 1) + 1 := by omega
    unfold Crc.bit at hj
    rw [hdiv, List.getD_cons_succ, List.getD_cons_succ] at hj
    exact hj rfl

/-- A slot manager on a device with the payload. -/
def attached (p : ℕ → List UInt8) : Ab := { blank p with loaded := true }

/-- The theorem on a payload of five sectors with one bit flipped in the fourth. -/
theorem seal_detects_flipped_bit :
    ((abmgr_slot_seal 0 0 5 7 true .ok (attached zeros)).2.tbl.slots 0).crc
      ≠ ((abmgr_slot_seal 0 0 5 7 true .ok (attached (flipped 3))).2.tbl.slots 0).crc :=
  (@seal_detects_damage (attached zeros) (attached (flipped 3)) rfl rfl 0 7 .ok 0 5 3
    (damaged_flipped (by decide) (by decide))).mpr (by decide)

/-- A payload of 2 ^ 55 sectors is sealed without reading one of them. -/
theorem seal_reads_nothing : Damaged zeros (flipped 0) 0 (2 ^ 55) 0 ∧
    ((abmgr_slot_seal 0 0 (2 ^ 55) 7 true .ok (attached zeros)).2.tbl.slots 0).crc
      = ((abmgr_slot_seal 0 0 (2 ^ 55) 7 true .ok (attached (flipped 0))).2.tbl.slots 0).crc := by
  have hdamage : Damaged zeros (flipped 0) 0 (2 ^ 55) 0 := damaged_flipped (by decide) (by decide)
  have hcrc : ∀ p, ((abmgr_slot_seal 0 0 (2 ^ 55) 7 true .ok (attached p)).2.tbl.slots 0).crc
      = payload_crc p 0 (2 ^ 55) := fun p =>
    @seal_crc (attached p) rfl 0 0 (2 ^ 55) 7 .ok (by decide)
  refine ⟨hdamage, ?_⟩
  rw [hcrc, hcrc]
  by_contra hne
  exact absurd ((payload_crc_ne_iff hdamage).mp hne) (by decide)

end MobilePhoneOs.Abmgr
