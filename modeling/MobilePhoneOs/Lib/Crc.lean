import Mathlib.Data.Nat.Bitwise
import Mathlib.Tactic.Ring

/-!
# Reflected cyclic redundancy checks

The register of a reflected CRC is a number. A step shifts it down by one bit and adds the
polynomial if the bit that fell out was set; addition is exclusive or. Steps are linear and undo a
shift up, so all bytes of a message can be added to the register in advance (`bytes_eq`), a byte
can be served from a table (`iterate_split`), and an error burst no longer than the register never
leaves it unchanged (`bytes_ne_of_burst`).
-/

namespace MobilePhoneOs.Crc

variable (poly : ℕ)

/-- One step of the register. -/
def step (v : ℕ) : ℕ := (v >>> 1) ^^^ (if v.testBit 0 then poly else 0)

/-! ## Steps are linear -/

lemma step_xor (u v : ℕ) : step poly (u ^^^ v) = step poly u ^^^ step poly v := by
  have hpoly : (if (u ^^^ v).testBit 0 then poly else 0)
      = (if u.testBit 0 then poly else 0) ^^^ (if v.testBit 0 then poly else 0) := by
    rw [Nat.testBit_xor]
    cases u.testBit 0 <;> cases v.testBit 0 <;> simp
  unfold step
  rw [hpoly, Nat.shiftRight_xor_distrib]
  ac_rfl

/-- A step undoes a shift up. -/
lemma step_shiftLeft (v : ℕ) : step poly (v <<< 1) = v := by
  have hlow : (v <<< 1).testBit 0 = false := by simp
  rw [step, hlow, Nat.shiftLeft_shiftRight]
  simp

lemma iterate_xor (n u v : ℕ) :
    (step poly)^[n] (u ^^^ v) = (step poly)^[n] u ^^^ (step poly)^[n] v := by
  induction n generalizing u v with
  | zero => rfl
  | succ n ih => rw [Function.iterate_succ_apply, step_xor, ih]; rfl

lemma iterate_shiftLeft (n v : ℕ) : (step poly)^[n] (v <<< n) = v := by
  induction n with
  | zero => rfl
  | succ n ih =>
    have hshift : v <<< (n + 1) = (v <<< n) <<< 1 := Nat.shiftLeft_add v n 1
    rw [Function.iterate_succ_apply, hshift, step_shiftLeft, ih]

/-- The steps of the low bits can be looked up, and the high bits only move down. -/
lemma iterate_split (n v : ℕ) :
    (step poly)^[n] v = (step poly)^[n] (v % 2 ^ n) ^^^ (v >>> n) := by
  have hsplit : v = (v % 2 ^ n) ^^^ ((v >>> n) <<< n) := by
    apply Nat.eq_of_testBit_eq
    intro i
    rw [Nat.testBit_xor, Nat.testBit_mod_two_pow, Nat.testBit_shiftLeft, Nat.testBit_shiftRight]
    by_cases hi : i < n
    · simp [hi, Nat.not_le_of_lt hi]
    · have hback : n + (i - n) = i := by omega
      simp [hi, hback, Nat.le_of_not_lt hi]
  conv_lhs => rw [hsplit]
  rw [iterate_xor, iterate_shiftLeft]

/-! ## The width of the register -/

section Width

variable {poly} {k v : ℕ}

/-- A polynomial of degree `k + 1`: its highest bit in the register is set. -/
def Degree (poly k : ℕ) : Prop := poly < 2 ^ (k + 1) ∧ poly.testBit k = true

lemma step_lt (hp : Degree poly k) (hv : v < 2 ^ (k + 1)) : step poly v < 2 ^ (k + 1) := by
  apply Nat.xor_lt_two_pow
  · exact lt_of_le_of_lt (Nat.shiftRight_le v 1) hv
  · split_ifs
    · exact hp.1
    · exact Nat.two_pow_pos _

/-- A step loses no information: what falls out shows in the highest bit. -/
lemma step_ne_zero (hp : Degree poly k) (hv : v < 2 ^ (k + 1)) (h0 : v ≠ 0) : step poly v ≠ 0 := by
  intro hz
  unfold step at hz
  by_cases hodd : v.testBit 0
  · have htop : (v >>> 1).testBit k = false := by
      rw [Nat.testBit_shiftRight, Nat.add_comm]
      exact Nat.testBit_lt_two_pow hv
    have hbit := congrArg (fun x => Nat.testBit x k) hz
    simp [hodd, htop, hp.2] at hbit
  · have hhalf : v >>> 1 = 0 := by simpa [hodd] using hz
    have heven : v % 2 = 0 := by
      rw [Nat.testBit_zero] at hodd
      simpa using hodd
    rw [Nat.shiftRight_one] at hhalf
    omega

lemma iterate_ne_zero (hp : Degree poly k) (n : ℕ) (hv : v < 2 ^ (k + 1)) (h0 : v ≠ 0) :
    (step poly)^[n] v ≠ 0 := by
  induction n generalizing v with
  | zero => exact h0
  | succ n ih =>
    rw [Function.iterate_succ_apply]
    exact ih (step_lt hp hv) (step_ne_zero hp hv h0)

end Width

/-! ## Messages -/

/-- The register after one more byte. -/
def byte (s : ℕ) (b : UInt8) : ℕ := (step poly)^[8] (s ^^^ b.toNat)

/-- The register after a message. -/
def bytes (s : ℕ) (bs : List UInt8) : ℕ := bs.foldl (byte poly) s

/-- A message as one number, with the first byte lowest. -/
def value : List UInt8 → ℕ
  | [] => 0
  | b :: bs => b.toNat ^^^ (value bs <<< 8)

/-- Bit `j` of a message, in the order in which the register takes the bits. -/
def bit (bs : List UInt8) (j : ℕ) : Bool := (bs.getD (j / 8) 0).toNat.testBit (j % 8)

/-- The whole message can be added to the register before the first step. -/
lemma bytes_eq (s : ℕ) (bs : List UInt8) :
    bytes poly s bs = (step poly)^[8 * bs.length] (s ^^^ value bs) := by
  induction bs generalizing s with
  | nil => simp [bytes, value]
  | cons b bs ih =>
    have hbyte : byte poly s b ^^^ value bs
        = (step poly)^[8] (s ^^^ (b.toNat ^^^ (value bs <<< 8))) := by
      rw [← Nat.xor_assoc, iterate_xor, iterate_shiftLeft, byte]
    have hlen : 8 * (b :: bs).length = 8 * bs.length + 8 := by
      rw [List.length_cons]
      ring
    calc bytes poly s (b :: bs) = bytes poly (byte poly s b) bs := rfl
      _ = (step poly)^[8 * bs.length] (byte poly s b ^^^ value bs) := ih _
      _ = (step poly)^[8 * (b :: bs).length] (s ^^^ value (b :: bs)) := by
        rw [hbyte, hlen, Function.iterate_add_apply, value]

lemma value_testBit (bs : List UInt8) (j : ℕ) : (value bs).testBit j = bit bs j := by
  induction bs generalizing j with
  | nil => simp [value, bit]
  | cons b bs ih =>
    rw [value, Nat.testBit_xor, Nat.testBit_shiftLeft, ih]
    unfold bit
    by_cases hj : j < 8
    · have hdiv : j / 8 = 0 := by omega
      have hmod : j % 8 = j := by omega
      simp [hdiv, hmod, Nat.not_le_of_lt hj]
    · have hhigh : b.toNat.testBit j = false := by
        apply Nat.testBit_lt_two_pow
        calc b.toNat < 2 ^ 8 := b.toNat_lt
          _ ≤ 2 ^ j := Nat.pow_le_pow_right (by decide) (Nat.le_of_not_lt hj)
      have hdiv : j / 8 = (j - 8) / 8 + 1 := by omega
      have hmod : j % 8 = (j - 8) % 8 := by omega
      rw [hhigh, hdiv, hmod, List.getD_cons_succ]
      simp [Nat.le_of_not_lt hj]

/-! ## Error bursts -/

/-- The messages differ within `w` consecutive bits. -/
def Burst (w : ℕ) (a b : List UInt8) : Prop := ∃ p, ∀ j, bit a j ≠ bit b j → p ≤ j ∧ j < p + w

lemma bit_of_ge {bs : List UInt8} {j : ℕ} (h : 8 * bs.length ≤ j) : bit bs j = false := by
  have hout : bs.length ≤ j / 8 := by omega
  rw [bit, List.getD_eq_default _ _ hout]
  exact Nat.zero_testBit _

/-- Messages of one length with the same number are the same. -/
lemma value_inj {a b : List UInt8} (hlen : a.length = b.length) (h : value a = value b) :
    a = b := by
  refine List.ext_getElem hlen fun i ha hb => ?_
  rw [← UInt8.toNat_inj]
  apply Nat.eq_of_testBit_eq
  intro j
  by_cases hj : j < 8
  · have hbit : bit a (8 * i + j) = bit b (8 * i + j) := by
      rw [← value_testBit, h, value_testBit]
    have hdiv : (8 * i + j) / 8 = i := by omega
    have hmod : (8 * i + j) % 8 = j := by omega
    unfold bit at hbit
    rwa [hdiv, hmod, List.getD_eq_getElem _ _ ha, List.getD_eq_getElem _ _ hb] at hbit
  · have hpow : 2 ^ 8 ≤ 2 ^ j := Nat.pow_le_pow_right (by decide) (Nat.le_of_not_lt hj)
    rw [Nat.testBit_lt_two_pow (lt_of_lt_of_le a[i].toNat_lt hpow),
      Nat.testBit_lt_two_pow (lt_of_lt_of_le b[i].toNat_lt hpow)]

/-- A burst no longer than the register changes the remainder. -/
theorem bytes_ne_of_burst {poly k : ℕ} (hp : Degree poly k) {a b : List UInt8}
    (hlen : a.length = b.length) (hne : a ≠ b) (hburst : Burst (k + 1) a b) (s : ℕ) :
    bytes poly s a ≠ bytes poly s b := by
  obtain ⟨p, hp'⟩ := hburst
  intro heq
  -- the difference of the registers is what the steps make of the difference of the messages
  have hzero : (step poly)^[8 * b.length] (value a ^^^ value b) = 0 := by
    rw [bytes_eq, bytes_eq, hlen] at heq
    rw [iterate_xor, iterate_xor] at heq
    rw [iterate_xor, Nat.xor_right_injective heq, Nat.xor_self]
  have hdiff : ∀ j, (value a ^^^ value b).testBit j = true → p ≤ j ∧ j < p + (k + 1) := by
    intro j hj
    rw [Nat.testBit_xor, value_testBit, value_testBit] at hj
    exact hp' j (by simpa using hj)
  have herr : value a ^^^ value b ≠ 0 := fun h => hne (value_inj hlen (Nat.xor_eq_zero_iff.mp h))
  -- the burst begins inside the messages
  have hstart : p < 8 * b.length := by
    by_contra hout
    apply herr
    apply Nat.eq_of_testBit_eq
    intro j
    rw [Nat.zero_testBit, Nat.testBit_xor, value_testBit, value_testBit]
    by_cases hj : 8 * b.length ≤ j
    · rw [bit_of_ge (hlen ▸ hj), bit_of_ge hj, Bool.xor_false]
    · by_contra hset
      have hin := hdiff j (by
        rw [Nat.testBit_xor, value_testBit, value_testBit]
        simpa using hset)
      omega
  obtain ⟨err, herr', hsmall⟩ : ∃ err, value a ^^^ value b = err <<< p ∧ err < 2 ^ (k + 1) := by
    refine ⟨(value a ^^^ value b) >>> p, Nat.eq_of_testBit_eq fun j => ?_,
      Nat.lt_pow_two_of_testBit _ fun j hj => ?_⟩
    · rw [Nat.testBit_shiftLeft, Nat.testBit_shiftRight]
      by_cases hj : p ≤ j
      · have hback : p + (j - p) = j := by omega
        simp [hj, hback]
      · by_contra hset
        have hin := hdiff j (by simpa [hj] using hset)
        exact hj hin.1
    · rw [Nat.testBit_shiftRight]
      by_contra hset
      have hin := hdiff (p + j) (by simpa using hset)
      omega
  have hnz : err ≠ 0 := by
    intro h
    rw [h, Nat.zero_shiftLeft] at herr'
    exact herr herr'
  have hsteps : 8 * b.length = (8 * b.length - p) + p := by omega
  rw [herr', hsteps, Function.iterate_add_apply, iterate_shiftLeft] at hzero
  exact iterate_ne_zero hp _ hsmall hnz hzero

end MobilePhoneOs.Crc
