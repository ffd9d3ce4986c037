import MobilePhoneOs.Kernel.SealTheorems

/-!
# The streaming CRC of the partition scanner (`drivers/block.c`)

`crc32_update` serves a byte from a table of 256 words that it builds on first use. Folded over
the chunks of a string it gives what `crc32_calc` of the slot manager gives for the whole string.
-/

namespace MobilePhoneOs.Block

open Abmgr (POLY crcBit crc32_calc)

/-- One bit of an entry of `crc_init`. -/
def crcInitBit (c : UInt32) : UInt32 :=
  if c &&& 1 ≠ 0 then (0xEDB88320 : UInt32) ^^^ (c >>> 1) else c >>> 1

/-- `crc_init`; the table is indexed by a byte. -/
def crc_init (i : UInt8) : UInt32 := crcInitBit^[8] i.toUInt32

/-- `crc_table` and `crc_ready`. -/
structure CrcTable where
  crc_table : UInt8 → UInt32
  crc_ready : Bool
  built : crc_ready = true → crc_table = crc_init

/-- `crc32_update` -/
def crc32_update (t : CrcTable) (crc : UInt32) (buf : List UInt8) : CrcTable × UInt32 :=
  let t := if t.crc_ready then t else ⟨crc_init, true, fun _ => rfl⟩
  (t, buf.foldl (fun crc b => t.crc_table (crc ^^^ b.toUInt32).toUInt8 ^^^ (crc >>> 8)) crc)

/-! ## One byte -/

/-- Both ways of writing a step of the register. -/
lemma crcInitBit_eq (c : UInt32) : crcInitBit c = crcBit c := by
  have hlow : (c &&& 1).toNat = c.toNat % 2 := by
    rw [UInt32.toNat_and]
    exact Nat.and_one_is_mod _
  unfold crcInitBit crcBit
  by_cases hodd : c.toNat % 2 = 1
  · have hbit : c &&& 1 = 1 := UInt32.toNat_inj.mp (hlow.trans hodd)
    rw [hbit, if_pos (by decide), UInt32.xor_comm]
    rfl
  · have heven : c.toNat % 2 = 0 := by omega
    have hbit : c &&& 1 = 0 := UInt32.toNat_inj.mp (hlow.trans heven)
    rw [hbit, if_neg (by decide)]
    simp

lemma crc_init_toNat (i : UInt8) : (crc_init i).toNat = (Crc.step POLY)^[8] i.toNat := by
  have hbits : crcInitBit = crcBit := funext crcInitBit_eq
  rw [crc_init, hbits, Abmgr.crcBit_iterate, UInt8.toNat_toUInt32]

lemma table_byte (crc : UInt32) (b : UInt8) :
    (crc_init (crc ^^^ b.toUInt32).toUInt8 ^^^ (crc >>> 8)).toNat = Crc.byte POLY crc.toNat b := by
  have hsum : (crc ^^^ b.toUInt32).toNat = crc.toNat ^^^ b.toNat := by
    rw [UInt32.toNat_xor, UInt8.toNat_toUInt32]
  have hhigh : (crc.toNat ^^^ b.toNat) >>> 8 = crc.toNat >>> 8 := by
    have hb : b.toNat >>> 8 = 0 := Nat.shiftRight_eq_zero _ _ b.toNat_lt
    rw [Nat.shiftRight_xor_distrib, hb, Nat.xor_zero]
  rw [UInt32.toNat_xor, crc_init_toNat, UInt32.toNat_toUInt8, hsum, UInt32.toNat_shiftRight]
  rw [Crc.byte, Crc.iterate_split POLY 8 (crc.toNat ^^^ b.toNat), hhigh]
  rfl

/-! ## Chunks -/

lemma crc32_update_toNat (t : CrcTable) (crc : UInt32) (buf : List UInt8) :
    (crc32_update t crc buf).2.toNat = Crc.bytes POLY crc.toNat buf := by
  have htable : (if t.crc_ready then t else ⟨crc_init, true, fun _ => rfl⟩ : CrcTable).crc_table
      = crc_init := by
    split_ifs with hready
    · exact t.built hready
    · rfl
  unfold crc32_update
  dsimp only
  rw [htable]
  induction buf generalizing crc with
  | nil => rfl
  | cons b bs ih =>
    rw [List.foldl_cons, ih, table_byte, Crc.bytes, Crc.bytes, List.foldl_cons]

/-- The chunks of a string one after the other. -/
lemma chunks_toNat (chunks : List (List UInt8)) (t : CrcTable) (crc : UInt32) :
    (chunks.foldl (fun s c => crc32_update s.1 s.2 c) (t, crc)).2.toNat
      = Crc.bytes POLY crc.toNat chunks.flatten := by
  induction chunks generalizing t crc with
  | nil => rfl
  | cons c cs ih =>
    have hnext := ih (crc32_update t crc c).1 (crc32_update t crc c).2
    rw [List.foldl_cons, hnext, crc32_update_toNat, List.flatten_cons, Crc.bytes, Crc.bytes,
      Crc.bytes, List.foldl_append]

lemma complement (crc : UInt32) : ~~~ crc = crc ^^^ 0xffffffff := by
  apply UInt32.toBitVec_inj.mp
  rw [UInt32.toBitVec_not, UInt32.toBitVec_xor, BitVec.not_def, BitVec.xor_comm]
  rfl

/-- **Streaming table CRC equals bitwise CRC.** -/
theorem crc_streaming (t : CrcTable) (chunks : List (List UInt8)) :
    ~~~ (chunks.foldl (fun s c => crc32_update s.1 s.2 c) (t, 0xffffffff)).2
      = crc32_calc chunks.flatten := by
  have hsame : (chunks.foldl (fun s c => crc32_update s.1 s.2 c) (t, 0xffffffff)).2
      = chunks.flatten.foldl (fun crc b => crcBit^[8] (crc ^^^ b.toUInt32)) 0xffffffff := by
    rw [← UInt32.toNat_inj, chunks_toNat, Abmgr.crc32_loop]
  rw [hsame, crc32_calc, complement]

end MobilePhoneOs.Block
