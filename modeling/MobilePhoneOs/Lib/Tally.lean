import Mathlib.Algebra.BigOperators.Fin

/-!
# Tallies over a table of holders

How a sum over the entries of a table changes when one entry is replaced or a new one is
added. Both are stated without subtraction, so that they go to `omega` as they are.
-/

namespace MobilePhoneOs

open Function (update)

variable {ι β : Type*} [DecidableEq ι]

/-- Replacing one entry swaps its share for the new one's. -/
lemma sum_update_add (I : Finset ι) (g : β → ℕ) (own : ι → β) {i : ι} (hi : i ∈ I) (b : β) :
    ∑ x ∈ I, g (update own i b x) + g (own i) = ∑ x ∈ I, g (own x) + g b := by
  have hcomp : (fun x => g (update own i b x)) = update (g ∘ own) i (g b) :=
    Function.comp_update g own i b
  have hnew : ∑ x ∈ I, g (update own i b x) = g b + ∑ x ∈ I \ {i}, g (own x) := by
    rw [hcomp, Finset.sum_update_of_mem hi]
    rfl
  have hold : ∑ x ∈ I, g (own x) = g (own i) + ∑ x ∈ I \ {i}, g (own x) :=
    Finset.sum_eq_add_sum_sdiff_singleton_of_mem hi fun x => g (own x)
  omega

/-- An entry outside the range does not count. -/
lemma sum_update_range (g : β → ℕ) (own : ℕ → β) (n : ℕ) (b : β) :
    ∑ x ∈ Finset.range n, g (update own n b x) = ∑ x ∈ Finset.range n, g (own x) := by
  refine Finset.sum_congr rfl fun x hx => ?_
  rw [Function.update_of_ne (Finset.mem_range.mp hx).ne]

/-- A table that grows by one entry. -/
lemma sum_update_succ (g : β → ℕ) (own : ℕ → β) (n : ℕ) (b : β) :
    ∑ x ∈ Finset.range (n + 1), g (update own n b x)
      = ∑ x ∈ Finset.range n, g (own x) + g b := by
  rw [Finset.sum_range_succ, sum_update_range, Function.update_self]

end MobilePhoneOs
