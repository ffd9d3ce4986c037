import MobilePhoneOs.Lib.Mem
import Mathlib.Data.Nat.ModEq

/-!
# Circular buffers

A ring of `cap` cells keeps `len` queued elements from index `head` on, wrapping at the
end of the array. `contents` is the queue it stands for. A contiguous copy at the head
is a prefix of the queue, and a contiguous copy to the tail appends to it.
-/

namespace MobilePhoneOs.Ring

open Mem

variable {α : Type*}

/-- The queue that a ring stands for, oldest element first. -/
def contents (cap : ℕ) (b : ℕ → α) (head len : ℕ) : List α :=
  (List.range len).map fun i => b ((head + i) % cap)

section

variable (cap : ℕ) (b : ℕ → α)
include cap b

@[simp] lemma contents_length (head len : ℕ) :
    (contents cap b head len).length = len := by
  simp [contents]

@[simp] lemma contents_zero (head : ℕ) : contents cap b head 0 = [] := rfl

lemma contents_mod_head (head len : ℕ) :
    contents cap b (head % cap) len = contents cap b head len :=
  List.map_congr_left fun i _ => by rw [Nat.mod_add_mod]

lemma contents_add (head m n : ℕ) :
    contents cap b head (m + n) = contents cap b head m ++ contents cap b (head + m) n := by
  rw [contents, List.range_add, List.map_append, List.map_map]
  simp only [contents, Function.comp_def, Nat.add_assoc]

end

/-- Taking `m` elements from the head leaves the ring that starts `m` cells further on. -/
lemma contents_split {cap : ℕ} (b : ℕ → α) (head : ℕ) {m len : ℕ} (h : m ≤ len) :
    contents cap b head len
      = contents cap b head m ++ contents cap b ((head + m) % cap) (len - m) := by
  obtain ⟨k, rfl⟩ := Nat.exists_eq_add_of_le h
  rw [contents_add, contents_mod_head, Nat.add_sub_cancel_left]

/-- A run of cells that does not wrap is a plain copy. -/
lemma contents_eq_slice {cap : ℕ} {b : ℕ → α} {head len : ℕ} (h : head + len ≤ cap) :
    contents cap b head len = slice b head len :=
  List.map_congr_left fun i hi => by
    rw [Nat.mod_eq_of_lt (by have := List.mem_range.mp hi; omega)]

/-- Distinct positions of a ring that holds at most `cap` elements are distinct cells. -/
lemma cell_ne {cap head i j : ℕ} (hij : i < j) (hj : j < i + cap) :
    (head + i) % cap ≠ (head + j) % cap := by
  intro h
  have hmod : Nat.ModEq cap (head + i) (head + j) := h
  have hdvd : cap ∣ (head + j) - (head + i) := (Nat.modEq_iff_dvd' (by omega)).mp hmod
  have := Nat.le_of_dvd (by omega) hdvd
  omega

/-- An element stored at the tail joins the queue. -/
lemma contents_push {cap len : ℕ} (b : ℕ → α) (head : ℕ) (h : len < cap) (x : α) :
    contents cap (Function.update b ((head + len) % cap) x) head (len + 1)
      = contents cap b head len ++ [x] := by
  rw [contents_add]
  congr 1
  · refine List.map_congr_left fun i hi => Function.update_of_ne ?_ _ _
    have hi := List.mem_range.mp hi
    exact cell_ne hi (by omega)
  · simp [contents]

/-- A contiguous copy to the tail appends to the queue. -/
lemma contents_store {cap : ℕ} {b : ℕ → α} {head len tail : ℕ} {xs : List α}
    (htail : tail = (head + len) % cap) (hroom : len + xs.length ≤ cap)
    (hseg : tail + xs.length ≤ cap) :
    contents cap (store b tail xs) head (len + xs.length) = contents cap b head len ++ xs := by
  rw [contents_add]
  congr 1
  · refine List.map_congr_left fun i hi => ?_
    have hi := List.mem_range.mp hi
    rcases Nat.eq_zero_or_pos xs.length with h0 | hpos
    · rw [List.length_eq_zero_iff.mp h0, store_nil]
    have hcell : (head + i) % cap < tail ∨ tail + xs.length ≤ (head + i) % cap := by
      by_contra hc
      -- the cell would be one of those just filled
      have hk : (head + (len + ((head + i) % cap - tail))) % cap = (head + i) % cap := by
        rw [← Nat.add_assoc, ← Nat.mod_add_mod, ← htail,
          show tail + ((head + i) % cap - tail) = (head + i) % cap by omega, Nat.mod_mod]
      exact cell_ne (by omega) (by omega) hk.symm
    rcases hcell with hlt | hge
    · exact store_of_lt hlt
    · exact store_of_ge hge
  · rw [← contents_mod_head, ← htail, contents_eq_slice hseg, slice_store]

end MobilePhoneOs.Ring
