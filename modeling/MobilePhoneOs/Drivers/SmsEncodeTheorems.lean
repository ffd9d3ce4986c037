import MobilePhoneOs.Drivers.SmsTheorems

/-!
# The 7-bit encoder (`sms_encode_7bit`)

The septets of a text are put one by one into bytes that two of them may share. The buffer holds
the number that has them as its digits, as far as it has room, and the decoder gets them back.
-/

namespace MobilePhoneOs.Sms

open UInt8 (ofNat toNat_ofNat')
open Function (update_of_ne)
open Mem

variable {text : List UInt8} {out : ℕ → UInt8} {cap k v : ℕ}

/-- The bytes of a number, as far as the buffer has room for them. -/
def Packed (cap v : ℕ) (out : ℕ → UInt8) : Prop := ∀ j < cap, out j = ofNat (v >>> (8 * j))

/-- One septet goes into one byte or into two. -/
lemma septet_byte {g : ℕ} (hv : v < 2 ^ (7 * k)) (hg : g < 128) (j : ℕ) :
    ofNat ((v + 2 ^ (7 * k) * g) >>> (8 * j)) = ofNat (v >>> (8 * j)) |||
      if j = 7 * k / 8 then ofNat (g <<< (7 * k % 8))
      else if j = 7 * k / 8 + 1 then ofNat (g >>> (8 - 7 * k % 8)) else 0 := by
  rw [Nat.add_comm, Nat.two_pow_add_eq_or_of_lt hv, Nat.shiftRight_or_distrib, UInt8.ofNat_or,
    UInt8.or_comm]
  congr 1
  have hs : 7 * k % 8 < 8 := Nat.mod_lt _ (by decide)
  have hpow : 2 ^ (7 * k) = 2 ^ (8 * (7 * k / 8)) * 2 ^ (7 * k % 8) := by
    rw [← Nat.pow_add, Nat.div_add_mod]
  rw [Nat.shiftRight_eq_div_pow, hpow, Nat.mul_assoc]
  generalize 7 * k / 8 = q, 7 * k % 8 = s at *
  have hx : 2 ^ s * g < 2 ^ 16 := by
    interval_cases s <;> omega
  rcases Nat.lt_or_ge j q with hlt | hge
  · rw [if_neg (by omega), if_neg (by omega), show 8 * q = 8 * j + (8 + 8 * (q - j - 1)) by omega,
      Nat.pow_add, Nat.mul_assoc, Nat.mul_div_cancel_left _ (by positivity), Nat.pow_add,
      Nat.mul_assoc, ← UInt8.toNat_inj, toNat_ofNat', Nat.mul_mod_right]
    rfl
  · obtain ⟨d, rfl⟩ := Nat.exists_eq_add_of_le hge
    rw [Nat.mul_add, Nat.pow_add, Nat.mul_div_mul_left _ _ (by positivity)]
    rcases d with _ | _ | d
    · rw [Nat.add_zero, if_pos rfl, Nat.mul_zero, Nat.pow_zero, Nat.div_one, Nat.shiftLeft_eq,
        Nat.mul_comm]
    · rw [if_neg (by omega), if_pos rfl, Nat.shiftRight_eq_div_pow]
      congr 1
      interval_cases s <;> omega
    · rw [if_neg (by omega), if_neg (by omega), Nat.div_eq_of_lt]
      · rfl
      · exact hx.trans_le (Nat.pow_le_pow_right (by decide) (by omega))

lemma Packed.orSeptet {g : ℕ} (h : Packed cap v out) (hv : v < 2 ^ (7 * k)) (hg : g < 128) :
    Packed cap (v + 2 ^ (7 * k) * g) (orSeptet cap g (7 * k / 8) (7 * k % 8) out) := by
  intro j hj
  -- a septet that ends with its byte has nothing for the next one
  have hlast : 7 * k % 8 = 0 → ofNat (g >>> (8 - 7 * k % 8)) = 0 := by
    intro hs
    rw [hs, Nat.shiftRight_eq_div_pow, Nat.div_eq_of_lt (hg.trans (by decide))]
    rfl
  rw [septet_byte hv hg, ← h j hj, Sms.orSeptet]
  simp only [Function.update_apply]
  split_ifs <;> simp_all

/-- The packer adds a digit in base 128 for each character, until the buffer is full. -/
lemma encodeFrom_spec (h : Packed cap v out) (hv : v < 2 ^ (7 * k))
    (hlen : 7 * (k + text.length) + 7 < 2 ^ 32) :
    ((∀ i < text.length, 7 * (k + i) / 8 < cap) →
      (encodeFrom cap text (7 * k) out).2 = some (7 * (k + text.length)) ∧
      Packed cap (v + 2 ^ (7 * k) * packNat (text.map fun c => (char_to_gsm c).toNat))
        (encodeFrom cap text (7 * k) out).1) ∧
    ((∃ i < text.length, cap ≤ 7 * (k + i) / 8) → (encodeFrom cap text (7 * k) out).2 = none) := by
  induction text generalizing k v out with
  | nil =>
    refine ⟨fun _ => ⟨rfl, h⟩, ?_⟩
    rintro ⟨i, hi, -⟩
    exact absurd hi (Nat.not_lt_zero i)
  | cons c text ih =>
    have hbyte : (7 * k) >>> 3 = 7 * k / 8 := Nat.shiftRight_eq_div_pow _ 3
    have hshift : 7 * k &&& 7 = 7 * k % 8 := Nat.and_two_pow_sub_one_eq_mod _ 3
    have hg := char_to_gsm_lt c
    rw [encodeFrom, hbyte, hshift]
    simp only [List.length_cons] at *
    by_cases hfull : 7 * k / 8 ≥ cap
    · rw [if_pos hfull]
      exact ⟨fun hall => absurd (hall 0 (by omega)) (Nat.not_lt.mpr hfull), fun _ => rfl⟩
    · have hnext : (7 * k + 7) % 2 ^ 32 = 7 * (k + 1) := Nat.mod_eq_of_lt (by omega)
      have hpow : 2 ^ (7 * (k + 1)) = 2 ^ (7 * k) * 128 := by rw [Nat.mul_succ, Nat.pow_add]
      have hv' : v + 2 ^ (7 * k) * (char_to_gsm c).toNat < 2 ^ (7 * (k + 1)) := by
        have := Nat.mul_le_mul_left (2 ^ (7 * k)) hg
        rw [Nat.mul_succ] at this
        omega
      obtain ⟨hall, hsome⟩ := ih (h.orSeptet hv hg) hv' (by omega)
      rw [if_neg hfull, hnext]
      have hi : ∀ i, k + 1 + i = k + (i + 1) := fun i => by omega
      simp only [hi] at hall hsome
      constructor
      · intro hroom
        have hsum : v + 2 ^ (7 * k) * packNat ((c :: text).map fun c => (char_to_gsm c).toNat) =
            v + 2 ^ (7 * k) * (char_to_gsm c).toNat +
              2 ^ (7 * (k + 1)) * packNat (text.map fun c => (char_to_gsm c).toNat) := by
          rw [List.map_cons, packNat, hpow, Nat.mul_add, Nat.mul_assoc, Nat.add_assoc]
        rw [hsum]
        exact hall fun i hlt => hroom (i + 1) (by omega)
      · rintro ⟨i, hlt, hle⟩
        cases i with
        | zero => exact absurd hle hfull
        | succ i => exact hsome ⟨i, by omega, hle⟩

lemma encodeFrom_beyond {j : ℕ} (hj : cap ≤ j) (bitpos : ℕ) :
    (encodeFrom cap text bitpos out).1 j = out j := by
  induction text generalizing bitpos out with
  | nil => rfl
  | cons c text ih =>
    rw [encodeFrom]
    split_ifs with hfull
    · rfl
    · rw [ih, Sms.orSeptet]
      split_ifs with hnext
      · rw [update_of_ne (by omega), update_of_ne (by omega)]
      · rw [update_of_ne (by omega)]

lemma packNat_lt : ∀ ss : List ℕ, (∀ s ∈ ss, s < 128) → packNat ss < 2 ^ (7 * ss.length) := by
  intro ss
  induction ss with
  | nil => exact fun _ => Nat.one_pos
  | cons s ss ih =>
    intro hlt
    have hs := hlt s List.mem_cons_self
    have hss := ih fun t ht => hlt t (List.mem_cons_of_mem _ ht)
    rw [packNat, List.length_cons, Nat.mul_succ, Nat.pow_add]
    omega

lemma pack_getD (text : List UInt8) (j : ℕ) :
    (pack text).getD j 0 =
      ofNat (packNat (text.map fun c => (char_to_gsm c).toNat) >>> (8 * j)) := by
  have hlt := packNat_lt (text.map fun c => (char_to_gsm c).toNat) fun s hs => by
    obtain ⟨c, -, rfl⟩ := List.mem_map.mp hs
    exact char_to_gsm_lt c
  rw [List.length_map] at hlt
  rw [List.getD_eq_getElem?_getD, Nat.shiftRight_eq_div_pow]
  rcases Nat.lt_or_ge j ((7 * text.length + 7) / 8) with hj | hj
  · rw [pack, leBytes_getElem? _ hj, Option.getD_some, show 256 = 2 ^ 8 from rfl, ← Nat.pow_mul]
  · -- the number ends with the last byte
    have hzero := Nat.div_eq_of_lt (hlt.trans_le (Nat.pow_le_pow_right (n := 2) (by decide)
      (show 7 * text.length ≤ 8 * j by omega)))
    rw [List.getElem?_eq_none (by rwa [pack, leBytes_length]), hzero]
    rfl

/-- What `sms_encode_7bit` does: it fails when it has no byte for the start of a septet, and
otherwise fills the buffer with the packed text, as far as that fits; when all of it does, the
text comes back. Nothing is written behind the buffer. -/
theorem sms_encode_exact (text : List UInt8) (out : ℕ → UInt8) (cap : ℕ)
    (hlen : 7 * text.length + 7 < 2 ^ 32) :
    ((sms_encode_7bit text out cap).2 = none ↔
      cap = 0 ∨ ∃ i < text.length, cap ≤ 7 * i / 8) ∧
    (∀ j, cap ≤ j → (sms_encode_7bit text out cap).1 j = out j) ∧
    ∀ n, (sms_encode_7bit text out cap).2 = some n → n = (pack text).length ∧
      (∀ j < cap, (sms_encode_7bit text out cap).1 j = (pack text).getD j 0) ∧
      (n ≤ cap → (∀ c ∈ text, Supported c) → ∀ size,
        sms_decode_7bit (sms_encode_7bit text out cap).1 text.length size =
          text.take (size - 1)) := by
  have hstart : Packed cap 0 fun j => if j < cap then 0 else out j := fun j hj => by
    rw [Nat.zero_shiftRight]
    exact if_pos hj
  have hlen₀ : 7 * (0 + text.length) + 7 < 2 ^ 32 := by rwa [Nat.zero_add]
  obtain ⟨hfits, hfails⟩ := encodeFrom_spec hstart (by decide) hlen₀
  simp only [Nat.zero_add, Nat.mul_zero, Nat.pow_zero, Nat.one_mul] at hfits hfails
  rw [sms_encode_7bit]
  by_cases hcap : cap = 0
  · rw [if_pos hcap]
    exact ⟨iff_of_true rfl (.inl hcap), fun _ _ => rfl, fun n hn => by cases hn⟩
  rw [if_neg hcap]
  refine ⟨?_, fun j hj => ?_, fun n hn => ?_⟩
  · -- the first septet that starts behind the buffer is where it fails
    rw [Option.map_eq_none_iff]
    constructor
    · intro hnone
      by_contra! hroom
      rw [(hfits hroom.2).1] at hnone
      cases hnone
    · rintro (hzero | hfull)
      · exact absurd hzero hcap
      · exact hfails hfull
  · rw [encodeFrom_beyond hj, if_neg (Nat.not_lt.mpr hj)]
  · change (encodeFrom cap text 0 _).2.map _ = some n at hn
    have hroom : ∀ i < text.length, 7 * i / 8 < cap := by
      by_contra! hfull
      rw [hfails hfull] at hn
      cases hn
    obtain ⟨hend, hbytes⟩ := hfits hroom
    rw [hend, Option.map_some, Nat.mod_eq_of_lt hlen, Option.some.injEq] at hn
    have hpack : ∀ j < cap, (encodeFrom cap text 0 fun j => if j < cap then 0 else out j).1 j =
        (pack text).getD j 0 := by
      intro j hj
      rw [hbytes j hj, pack_getD]
    have hsize : (pack text).length = n := by rw [pack, leBytes_length, hn]
    refine ⟨hsize.symm, hpack, fun hle hsup size => ?_⟩
    rw [sms_decode_7bit, decodeFrom_pack hsup (fun j b hb => ?_) size (Nat.zero_add _),
      List.drop_zero, Nat.sub_zero]
    have hj := (List.getElem?_eq_some_iff.mp hb).1
    rw [hpack j (by omega), List.getD_eq_getElem?_getD, hb, Option.getD_some]

/-- "hi" and a buffer that the second character overruns. -/
theorem sms_encode_exact_short :
    (sms_encode_7bit [0x68, 0x69] (fun _ => 0) 1).2 = some 2 ∧
      (sms_encode_7bit [0x68, 0x69] (fun _ => 0) 1).1 1 = 0 :=
  ⟨by decide, (sms_encode_exact [0x68, 0x69] (fun _ => 0) 1 (by decide)).2.1 1 (by decide)⟩

end MobilePhoneOs.Sms
