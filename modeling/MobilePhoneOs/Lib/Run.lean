import Mathlib.Algebra.GroupWithZero.Nat
import Mathlib.Tactic.Common

/-!
# Runs of a labelled transition system

`Run step s as s'` is a finite run from `s` to `s'` with the labels `as` in order. The
rule for invariants is proved once here; a run whose every step meets a condition on the
state before it is a run of the `Guarded` relation.
-/

namespace MobilePhoneOs

variable {σ α : Type*}

/-- Finite runs of a labelled step relation. -/
inductive Run (step : σ → α → σ → Prop) (s : σ) : List α → σ → Prop
  | nil : Run step s [] s
  | snoc {as : List α} {a : α} {t u : σ} (hrun : Run step s as t) (hstep : step t a u) :
      Run step s (as ++ [a]) u

/-- The steps of `step` that satisfy `ok` in the state they start from. -/
def Guarded (ok : σ → α → Prop) (step : σ → α → σ → Prop) (s : σ) (a : α) (t : σ) : Prop :=
  ok s a ∧ step s a t

namespace Run

variable {step : σ → α → σ → Prop} {s t : σ} {as : List α}

/-- What holds initially and is kept by every step holds in every state reached. -/
lemma invariant {I : σ → Prop} (h0 : I s) (hstep : ∀ t a u, I t → step t a u → I u)
    (hrun : Run step s as t) : I t := by
  induction hrun with
  | nil => exact h0
  | snoc _ hs ih => exact hstep _ _ _ ih hs

/-- The same for an invariant that also speaks of the labels seen so far. -/
lemma invariant_history {I : List α → σ → Prop} (h0 : I [] s)
    (hstep : ∀ hist t a u, I hist t → step t a u → I (hist ++ [a]) u)
    (hrun : Run step s as t) : I as t := by
  induction hrun with
  | nil => exact h0
  | snoc _ hs ih => exact hstep _ _ _ _ ih hs

lemma mono {step' : σ → α → σ → Prop} (h : ∀ t a u, step t a u → step' t a u)
    (hrun : Run step s as t) : Run step' s as t := by
  induction hrun with
  | nil => exact .nil
  | snoc _ hs ih => exact .snoc ih (h _ _ _ hs)

/-- A run, seen through a map of its states and labels. -/
lemma map {τ β : Type*} {step' : τ → β → τ → Prop} {f : σ → τ} {g : α → β}
    (h : ∀ t a u, step t a u → step' (f t) (g a) (f u)) (hrun : Run step s as t) :
    Run step' (f s) (as.map g) (f t) := by
  induction hrun with
  | nil => exact .nil
  | snoc _ hs ih =>
    rw [List.map_append]
    exact ih.snoc (h _ _ _ hs)

/-- A run is continued by a step that meets the condition. -/
lemma guarded {ok : σ → α → Prop} {a : α} {u : σ} (hrun : Run (Guarded ok step) s as t)
    (hstep : step t a u) (hok : ok t a) : Run (Guarded ok step) s (as ++ [a]) u :=
  .snoc hrun ⟨hok, hstep⟩

/-- Where a step obeys a law exactly when it meets a condition, the runs whose steps all meet
the condition are the runs whose steps all obey the law. -/
lemma guarded_iff {I : σ → Prop} {K : σ → α → σ → Prop} {ok : σ → α → Prop}
    (hI : ∀ t a u, I t → step t a u → K t a u → I u)
    (hK : ∀ t a u, I t → step t a u → (K t a u ↔ ok t a)) (h0 : I s) :
    Run (Guarded ok step) s as t ↔ Run (fun t a u => step t a u ∧ K t a u) s as t := by
  constructor
  · intro hrun
    have hall : Run (fun t a u => step t a u ∧ K t a u) s as t ∧ I t := by
      induction hrun with
      | nil => exact ⟨.nil, h0⟩
      | snoc _ hs ih =>
        have hlaw := (hK _ _ _ ih.2 hs.2).mpr hs.1
        exact ⟨.snoc ih.1 ⟨hs.2, hlaw⟩, hI _ _ _ ih.2 hs.2 hlaw⟩
    exact hall.1
  · intro hrun
    have hall : Run (Guarded ok step) s as t ∧ I t := by
      induction hrun with
      | nil => exact ⟨.nil, h0⟩
      | snoc _ hs ih =>
        have hok := (hK _ _ _ ih.2 hs.1).mp hs.2
        exact ⟨.snoc ih.1 ⟨hok, hs.1⟩, hI _ _ _ ih.2 hs.1 hs.2⟩
    exact hall.1

/-- A single step is a run. -/
lemma single {a : α} (h : step s a t) : Run step s [a] t := .snoc .nil h

end Run

/-! ## Runs of a deterministic system -/

section Deterministic

variable (enabled : σ → α → Prop) (act : σ → α → σ)

/-- The labels are enabled one after another. -/
def Enables (s : σ) : List α → Prop
  | [] => True
  | a :: as => enabled s a ∧ Enables (act s a) as

instance decidableEnables [∀ s a, Decidable (enabled s a)] :
    ∀ (as : List α) (s : σ), Decidable (Enables enabled act s as)
  | [], _ => inferInstanceAs (Decidable True)
  | a :: as, s =>
    have := decidableEnables as (act s a)
    inferInstanceAs (Decidable (enabled s a ∧ Enables enabled act (act s a) as))

variable {enabled act} {step : σ → α → σ → Prop}

lemma Run.append_of_enables (hstep : ∀ s a, enabled s a → step s a (act s a)) {s t : σ}
    {pre as : List α} (hrun : Run step s pre t) (h : Enables enabled act t as) :
    Run step s (pre ++ as) (as.foldl act t) := by
  induction as generalizing pre t with
  | nil => simpa using hrun
  | cons a as ih =>
    have hrest := ih (hrun.snoc (hstep t a h.1)) h.2
    simpa using hrest

/-- Labels that are enabled one after another make a run. -/
lemma Run.of_enables (hstep : ∀ s a, enabled s a → step s a (act s a)) {s : σ} {as : List α}
    (h : Enables enabled act s as) : Run step s as (as.foldl act s) :=
  Run.append_of_enables hstep .nil h

end Deterministic
end MobilePhoneOs
