import Mathlib.Algebra.GroupWithZero.Nat
import Mathlib.Data.List.Basic

/-!
# Flat buffers and `memcpy`

A buffer is a total function from offsets; the callers keep their accesses below the
size of the array they model. `slice` is what a copy out of a buffer yields, `store` is
the buffer after a copy into it. The lemmas say how the two compose.
-/

namespace MobilePhoneOs.Mem

open Function (update update_of_ne update_self)

variable {α : Type*}

/-- The `n` elements from offset `p`: a copy out of the buffer. -/
def slice (b : ℕ → α) (p n : ℕ) : List α :=
  (List.range n).map fun i => b (p + i)

/-- The buffer after `xs` has been copied to offset `p`. -/
def store (b : ℕ → α) (p : ℕ) (xs : List α) : ℕ → α := fun i =>
  if h : p ≤ i ∧ i - p < xs.length then xs.get ⟨i - p, h.2⟩ else b i

/-- The buffer after the first `n` elements of `src` have been copied to offset `p`. -/
def copy (b : ℕ → α) (p n : ℕ) (src : ℕ → α) : ℕ → α := fun i =>
  if p ≤ i ∧ i < p + n then src (i - p) else b i

@[simp] lemma slice_length (b : ℕ → α) (p n : ℕ) : (slice b p n).length = n := by
  simp [slice]

@[simp] lemma slice_zero (b : ℕ → α) (p : ℕ) : slice b p 0 = [] := rfl

@[simp] lemma slice_getElem (b : ℕ → α) (p n i : ℕ) (h : i < (slice b p n).length) :
    (slice b p n)[i] = b (p + i) := by
  simp [slice]

variable {b : ℕ → α} {n p : ℕ}

lemma slice_congr {b' : ℕ → α} (h : ∀ i < n, b (p + i) = b' (p + i)) :
    slice b p n = slice b' p n :=
  List.map_congr_left fun i hi => h i (List.mem_range.mp hi)

/-- A copy out of adjacent ranges is the concatenation of the two copies. -/
lemma slice_add (b : ℕ → α) (p m n : ℕ) :
    slice b p (m + n) = slice b p m ++ slice b (p + m) n := by
  rw [slice, List.range_add, List.map_append, List.map_map]
  simp only [slice, Function.comp_def, Nat.add_assoc]

lemma slice_take (b : ℕ → α) (p : ℕ) {m : ℕ} (h : m ≤ n) :
    (slice b p n).take m = slice b p m := by
  obtain ⟨k, rfl⟩ := Nat.exists_eq_add_of_le h
  rw [slice_add, List.take_left' (slice_length b p m)]

variable {i : ℕ} {xs : List α}

lemma store_of_lt (h : i < p) : store b p xs i = b i :=
  dif_neg fun hc => absurd hc.1 (by omega)

lemma store_of_ge (h : p + xs.length ≤ i) :
    store b p xs i = b i :=
  dif_neg fun hc => absurd hc.2 (by omega)

lemma store_add (h : i < xs.length) :
    store b p xs (p + i) = xs[i] := by
  have hc : p ≤ p + i ∧ p + i - p < xs.length := ⟨by omega, by omega⟩
  rw [store, dif_pos hc]
  simp only [Nat.add_sub_cancel_left, List.get_eq_getElem]

variable {src : ℕ → α}

lemma copy_add (h : i < n) : copy b p n src (p + i) = src i := by
  rw [copy, if_pos ⟨Nat.le_add_right _ _, by omega⟩, Nat.add_sub_cancel_left]

lemma copy_zero (h : i < n) : copy b 0 n src i = src i := by
  rw [copy, if_pos ⟨Nat.zero_le _, by omega⟩, Nat.sub_zero]

lemma copy_of_lt (h : i < p) : copy b p n src i = b i :=
  if_neg fun hc => absurd hc.1 (by omega)

lemma copy_of_ge (h : p + n ≤ i) : copy b p n src i = b i :=
  if_neg fun hc => absurd hc.2 (by omega)

lemma copy_congr {x y : ℕ → α} (h : ∀ i < n, x i = y i) :
    copy b p n x = copy b p n y := by
  funext i
  rw [copy, copy]
  split
  · exact h _ (by omega)
  · rfl

section

variable {x y z : ℕ → α} {m : ℕ} (hx : ∀ i < m, x i = z i) (hy : ∀ i < n, y i = z (m + i))
include hx hy

/-- Copies of adjacent ranges are one copy. -/
lemma copy_append : copy (copy b p m x) (p + m) n y = copy b p (m + n) z := by
  funext i
  rcases Nat.lt_or_ge i p with hp | hp
  · rw [copy_of_lt (by omega), copy_of_lt hp, copy_of_lt hp]
  obtain ⟨j, rfl⟩ := Nat.exists_eq_add_of_le hp
  rcases Nat.lt_or_ge j m with hm | hm
  · rw [copy_of_lt (by omega), copy_add hm, copy_add (by omega), hx j hm]
  obtain ⟨k, rfl⟩ := Nat.exists_eq_add_of_le hm
  rcases Nat.lt_or_ge k n with hn | hn
  · have hy' : copy (copy b p m x) (p + m) n y (p + m + k) = y k := copy_add hn
    rw [← Nat.add_assoc, hy', Nat.add_assoc, copy_add (by omega), hy k hn]
  · have hout : copy (copy b p m x) (p + m) n y (p + (m + k)) = copy b p m x (p + (m + k)) :=
      copy_of_ge (by omega)
    have hin : copy b p m x (p + (m + k)) = b (p + (m + k)) := copy_of_ge (by omega)
    have hall : copy b p (m + n) z (p + (m + k)) = b (p + (m + k)) := copy_of_ge (by omega)
    rw [hout, hin, hall]

/-- A copy right below another one makes one copy with it. -/
lemma copy_below : copy (copy b (p + m) n y) p m x = copy b p (m + n) z := by
  rw [← copy_append hx hy]
  funext i
  by_cases hi : p ≤ i ∧ i < p + m
  · obtain ⟨j, rfl⟩ := Nat.exists_eq_add_of_le hi.1
    rw [copy_add (by omega), copy_of_lt (by omega), copy_add (by omega)]
  · rw [copy, if_neg hi, copy, copy]
    split
    · rfl
    · rw [copy, if_neg hi]

end

lemma store_nil (b : ℕ → α) (p : ℕ) : store b p [] = b :=
  funext fun _ => dif_neg fun hc => absurd hc.2 (Nat.not_lt_zero _)

/-- Two copies that follow each other are one copy. -/
lemma store_append (b : ℕ → α) (p : ℕ) (xs ys : List α) :
    store (store b p xs) (p + xs.length) ys = store b p (xs ++ ys) := by
  funext i
  rcases Nat.lt_or_ge i (p + xs.length) with hi | hi
  · rw [store_of_lt hi]
    rcases Nat.lt_or_ge i p with hp | hp
    · rw [store_of_lt hp, store_of_lt hp]
    · obtain ⟨j, rfl⟩ := Nat.exists_eq_add_of_le hp
      have hj : j < xs.length := by omega
      rw [store_add hj, store_add (by rw [List.length_append]; omega), List.getElem_append_left hj]
  · obtain ⟨j, rfl⟩ := Nat.exists_eq_add_of_le hi
    rcases Nat.lt_or_ge j ys.length with hj | hj
    · have hlt : xs.length + j < (xs ++ ys).length := by rw [List.length_append]; omega
      rw [store_add hj, Nat.add_assoc, store_add hlt, List.getElem_append_right (by omega)]
      simp only [Nat.add_sub_cancel_left]
    · rw [store_of_ge (by omega), store_of_ge (by omega),
        store_of_ge (by rw [List.length_append]; omega)]

/-- Reading back what was copied in. -/
lemma slice_store (b : ℕ → α) (p : ℕ) (xs : List α) : slice (store b p xs) p xs.length = xs := by
  refine List.ext_getElem (slice_length _ _ _) fun i _ hi => ?_
  rw [slice_getElem, store_add hi]

/-- A copy into one range leaves every disjoint range alone. -/
lemma slice_store_of_disjoint {q : ℕ}
    (h : q + n ≤ p ∨ p + xs.length ≤ q) : slice (store b p xs) q n = slice b q n :=
  slice_congr fun i hi => by
    rcases h with h | h
    · exact store_of_lt (by omega)
    · exact store_of_ge (by omega)

/-! ## Copies to scattered places -/

/-- The buffer after `src 0`, `src 1`, ... have gone to the places `tr 0`, `tr 1`, ... in
order. -/
def scatter (b : ℕ → α) (tr : ℕ → ℕ) (src : ℕ → α) (n : ℕ) : ℕ → α :=
  (List.range n).foldl (fun b i => update b (tr i) (src i)) b

@[simp] lemma scatter_zero (b : ℕ → α) (tr : ℕ → ℕ) (src : ℕ → α) : scatter b tr src 0 = b := rfl

lemma scatter_succ (b : ℕ → α) (tr : ℕ → ℕ) (src : ℕ → α) (n : ℕ) :
    scatter b tr src (n + 1) = update (scatter b tr src n) (tr n) (src n) := by
  rw [scatter, List.range_succ, List.foldl_append]
  rfl

lemma scatter_add (b : ℕ → α) (tr : ℕ → ℕ) (src : ℕ → α) (m n : ℕ) :
    scatter b tr src (m + n)
      = scatter (scatter b tr src m) (fun i => tr (m + i)) (fun i => src (m + i)) n := by
  induction n with
  | zero => rfl
  | succ n ih => rw [← Nat.add_assoc, scatter_succ, scatter_succ, ih]

lemma scatter_congr {tr tr' : ℕ → ℕ} {src' : ℕ → α}
    (htr : ∀ i < n, tr i = tr' i) (hsrc : ∀ i < n, src i = src' i) :
    scatter b tr src n = scatter b tr' src' n := by
  induction n with
  | zero => rfl
  | succ n ih =>
    rw [scatter_succ, scatter_succ, htr n (by omega), hsrc n (by omega)]
    rw [ih (fun i hi => htr i (by omega)) fun i hi => hsrc i (by omega)]

/-- Places in a row are one copy. -/
lemma copy_eq_scatter (b src : ℕ → α) (p n : ℕ) :
    copy b p n src = scatter b (fun i => p + i) src n := by
  induction n with
  | zero =>
    funext i
    simp only [copy, scatter_zero, show ¬ (p ≤ i ∧ i < p + 0) by omega, if_false]
  | succ n ih =>
    rw [scatter_succ, ← ih]
    funext i
    rcases Nat.lt_trichotomy i (p + n) with hi | rfl | hi
    · rw [update_of_ne (by omega)]
      simp only [copy, hi, show i < p + (n + 1) by omega]
    · rw [update_self, copy_add (by omega)]
    · rw [update_of_ne (by omega), copy_of_ge (by omega), copy_of_ge (by omega)]

lemma scatter_of_ne {tr : ℕ → ℕ} {a : ℕ}
    (h : ∀ i < n, tr i ≠ a) : scatter b tr src n a = b a := by
  induction n with
  | zero => rfl
  | succ n ih =>
    rw [scatter_succ, update_of_ne (h n (by omega)).symm]
    exact ih fun i hi => h i (by omega)

/-- Distinct places hold what was sent there. -/
lemma scatter_self {tr : ℕ → ℕ} (hi : i < n)
    (hinj : ∀ j < n, tr j = tr i → j = i) : scatter b tr src n (tr i) = src i := by
  induction n with
  | zero => exact absurd hi (Nat.not_lt_zero i)
  | succ n ih =>
    rw [scatter_succ]
    by_cases hn : n = i
    · subst hn
      rw [update_self]
    · rw [update_of_ne fun hc => hn (hinj n (by omega) hc.symm)]
      exact ih (by omega) fun j hj => hinj j (by omega)

end MobilePhoneOs.Mem
