import MobilePhoneOs.Lib.Mem
import Mathlib.Tactic.Ring

/-!
# Little-endian words in a byte buffer

`load` reads an `n`-byte word, `put` writes one. A word read back is the word written
modulo its width, and a word outside the bytes of a copy does not change.
-/

namespace MobilePhoneOs.Mem

/-- The `n` low bytes of `v`, least significant first. -/
def leBytes : ℕ → ℕ → List UInt8
  | 0, _ => []
  | n + 1, v => UInt8.ofNat v :: leBytes n (v / 256)

/-- The number that bytes stand for, least significant first. -/
def leNat : List UInt8 → ℕ
  | [] => 0
  | b :: bs => b.toNat + 256 * leNat bs

/-- The `n`-byte word at offset `p`. -/
def load (b : ℕ → UInt8) (p n : ℕ) : ℕ := leNat (slice b p n)

/-- The buffer after the `n`-byte word `v` has been written at offset `p`. -/
def put (b : ℕ → UInt8) (p n v : ℕ) : ℕ → UInt8 := store b p (leBytes n v)

@[simp] lemma leBytes_length (n v : ℕ) : (leBytes n v).length = n := by
  induction n generalizing v with
  | zero => rfl
  | succ n ih => rw [leBytes, List.length_cons, ih]

/-- Decoding what was encoded. -/
lemma leNat_leBytes (n v : ℕ) : leNat (leBytes n v) = v % 256 ^ n := by
  induction n generalizing v with
  | zero => rw [leBytes, leNat, pow_zero, Nat.mod_one]
  | succ n ih =>
    rw [leBytes, leNat, ih, Nat.pow_succ', Nat.mod_mul]
    rfl

lemma leNat_lt (bs : List UInt8) : leNat bs < 256 ^ bs.length := by
  induction bs with
  | nil => exact Nat.one_pos
  | cons b bs ih =>
    have hb := b.toNat_lt
    rw [leNat, List.length_cons, Nat.pow_succ']
    omega

/-- Encoding what was decoded. -/
lemma leBytes_leNat (bs : List UInt8) : leBytes bs.length (leNat bs) = bs := by
  induction bs with
  | nil => rfl
  | cons b bs ih =>
    have hb := b.toNat_lt
    have hdiv : (b.toNat + 256 * leNat bs) / 256 = leNat bs := by omega
    have hmod : UInt8.ofNat (b.toNat + 256 * leNat bs) = b := by
      rw [← UInt8.toNat_inj, UInt8.toNat_ofNat']
      omega
    rw [leNat, List.length_cons, leBytes, hdiv, ih, hmod]

/-- A word depends on its own bytes only. -/
lemma load_congr {b b' : ℕ → UInt8} {p n : ℕ} (h : ∀ i < n, b (p + i) = b' (p + i)) :
    load b p n = load b' p n := by
  rw [load, load, slice_congr h]

/-- Words whose bytes agree are equal. -/
lemma load_eq_of {b b' : ℕ → UInt8} {p p' n : ℕ} (h : ∀ i < n, b (p + i) = b' (p' + i)) :
    load b p n = load b' p' n :=
  congrArg leNat (List.map_congr_left fun i hi => h i (List.mem_range.mp hi))

/-- A word is its first byte and the word behind it. -/
lemma load_succ (b : ℕ → UInt8) (p n : ℕ) :
    load b p (n + 1) = (b p).toNat + 256 * load b (p + 1) n := by
  have hslice : slice b p (n + 1) = b p :: slice b (p + 1) n := by
    rw [Nat.add_comm n 1, slice_add]
    rfl
  rw [load, hslice, leNat, load]

lemma load_one (b : ℕ → UInt8) (p : ℕ) : load b p 1 = (b p).toNat := by
  rw [load_succ]
  rfl

lemma load_store_of_disjoint {b : ℕ → UInt8} {p q n : ℕ} {xs : List UInt8}
    (h : q + n ≤ p ∨ p + xs.length ≤ q) : load (store b p xs) q n = load b q n := by
  rw [load, slice_store_of_disjoint h, load]

@[simp] lemma load_put (b : ℕ → UInt8) (p n v : ℕ) : load (put b p n v) p n = v % 256 ^ n := by
  have h := slice_store b p (leBytes n v)
  rw [leBytes_length] at h
  rw [load, put, h, leNat_leBytes]

lemma load_put_of_disjoint {b : ℕ → UInt8} {p q n m v : ℕ} (h : q + n ≤ p ∨ p + m ≤ q) :
    load (put b p m v) q n = load b q n :=
  load_store_of_disjoint (by rwa [leBytes_length])

/-- The words of a list that was stored one behind the other. -/
lemma load_store_words (b : ℕ → UInt8) (p n : ℕ) {vs : List ℕ} {i : ℕ} (hi : i < vs.length) :
    load (store b p (vs.flatMap (leBytes n))) (p + n * i) n = vs[i] % 256 ^ n := by
  induction vs generalizing b p i with
  | nil => exact absurd hi (Nat.not_lt_zero i)
  | cons v vs ih =>
    have hnext : store b p ((v :: vs).flatMap (leBytes n))
        = store (put b p n v) (p + n) (vs.flatMap (leBytes n)) := by
      rw [List.flatMap_cons, ← store_append, leBytes_length]
      rfl
    rw [hnext]
    cases i with
    | zero =>
      rw [Nat.mul_zero, Nat.add_zero, load_store_of_disjoint (by omega), load_put]
      rfl
    | succ i =>
      have hi' : i < vs.length := Nat.lt_of_succ_lt_succ hi
      have hp : p + n * (i + 1) = p + n + n * i := by ring
      rw [hp, ih (put b p n v) (p + n) hi']
      rfl

end MobilePhoneOs.Mem
