import MobilePhoneOs.Lib.Ring

/-!
# Rings with free-running indices

Two parties share a ring of `cap` cells through a pair of counters that wrap at `m`, a multiple of
`cap`: what lies between the counters is queued. Such a ring can be full without being taken for
empty, as the counters are wider than the ring.
-/

namespace MobilePhoneOs.Ring

variable {α : Type*}

/-- The number of elements between the counters. -/
def dist (m lo hi : ℕ) : ℕ := (hi + m - lo) % m

/-- The elements between the counters, oldest first. -/
def queued (cap m : ℕ) (b : ℕ → α) (lo hi : ℕ) : List α := contents cap b lo (dist m lo hi)

variable {cap m lo hi : ℕ} {b : ℕ → α}

@[simp] lemma queued_length : (queued cap m b lo hi).length = dist m lo hi :=
  contents_length _ _ _ _

lemma dist_self : dist m lo lo = 0 := by
  unfold dist
  rw [Nat.add_sub_cancel_left, Nat.mod_self]

lemma queued_self : queued cap m b lo lo = [] := by
  unfold queued
  rw [dist_self, contents_zero]

/-- The distance as the plain difference, on one side of the wrap or on the other. -/
lemma dist_eq (hlo : lo < m) (hhi : hi < m) :
    dist m lo hi = if lo ≤ hi then hi - lo else hi + m - lo := by
  unfold dist
  split
  · rw [show hi + m - lo = hi - lo + m by omega, Nat.add_mod_right, Nat.mod_eq_of_lt (by omega)]
  · exact Nat.mod_eq_of_lt (by omega)

lemma succ_mod_eq (h : hi < m) : (hi + 1) % m = if hi + 1 = m then 0 else hi + 1 := by
  split
  · rename_i heq
    rw [heq, Nat.mod_self]
  · exact Nat.mod_eq_of_lt (by omega)

/-- One more element, as long as the counters do not meet. -/
lemma dist_succ (hlo : lo < m) (hhi : hi < m) (hroom : dist m lo hi + 1 < m) :
    dist m lo ((hi + 1) % m) = dist m lo hi + 1 := by
  rw [dist_eq hlo hhi] at hroom
  rw [dist_eq hlo (Nat.mod_lt _ (by omega)), dist_eq hlo hhi, succ_mod_eq hhi]
  split_ifs at * <;> omega

lemma dist_succ_left (hlo : lo < m) (hhi : hi < m) (hne : lo ≠ hi) :
    dist m lo hi = dist m ((lo + 1) % m) hi + 1 := by
  rw [dist_eq (Nat.mod_lt _ (by omega)) hhi, dist_eq hlo hhi, succ_mod_eq hlo]
  split_ifs <;> omega

lemma contents_mod_index (hdvd : cap ∣ m) (len : ℕ) :
    contents cap b (hi % m) len = contents cap b hi len := by
  rw [← contents_mod_head cap b (hi % m), Nat.mod_mod_of_dvd _ hdvd, contents_mod_head]

section

variable (hdvd : cap ∣ m) (hlo : lo < m) (hhi : hi < m)
include hdvd hlo hhi

/-- The cell at the upper counter is the one behind the queued elements. -/
lemma cell_eq :
    (lo + dist m lo hi) % cap = hi % cap := by
  rw [dist_eq hlo hhi]
  split
  · rw [Nat.add_sub_cancel' (by assumption)]
  · obtain ⟨k, rfl⟩ := hdvd
    rw [Nat.add_sub_cancel' (by omega), Nat.add_mul_mod_self_left]

/-- An element stored at the upper counter joins the queue, if the ring has room. -/
lemma queued_push (hroom : dist m lo hi < cap)
    (hwide : cap < m) (x : α) :
    queued cap m (Function.update b (hi % cap) x) lo ((hi + 1) % m) = queued cap m b lo hi ++ [x] := by
  unfold queued
  rw [dist_succ hlo hhi (by omega), contents_add]
  congr 1
  · apply List.map_congr_left
    intro i hi'
    apply Function.update_of_ne
    rw [← cell_eq hdvd hlo hhi]
    have := List.mem_range.mp hi'
    exact cell_ne this (by omega)
  · show [Function.update b (hi % cap) x ((lo + dist m lo hi + 0) % cap)] = [x]
    rw [Nat.add_zero, cell_eq hdvd hlo hhi, Function.update_self]

/-- The element at the lower counter is the oldest. -/
lemma queued_pop (hne : lo ≠ hi) :
    queued cap m b lo hi = b (lo % cap) :: queued cap m b ((lo + 1) % m) hi := by
  unfold queued
  rw [dist_succ_left hlo hhi hne, Nat.add_comm (dist m _ hi) 1, contents_add,
    contents_mod_index hdvd]
  rfl

end

end MobilePhoneOs.Ring
