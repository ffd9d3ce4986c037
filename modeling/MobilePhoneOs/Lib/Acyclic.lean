import Mathlib.Algebra.GroupWithZero.Nat
import Mathlib.Logic.Relation
import Mathlib.Tactic.Common

/-!
# Acyclic relations

A relation without cycles stays so under the removal of edges, under new edges into a node
without outgoing edges, and under a new edge whose target does not reach its source.
-/

namespace MobilePhoneOs

variable {α : Type*} {r r' : α → α → Prop} {a b c s t : α}

/-- No node reaches itself. -/
def Acyclic (r : α → α → Prop) : Prop := ∀ a, ¬ Relation.TransGen r a a

/-- The relation with one more edge. -/
def AddEdge (r : α → α → Prop) (s t : α) (a b : α) : Prop := r a b ∨ a = s ∧ b = t

lemma Acyclic.mono (h : Acyclic r) (hle : ∀ a b, r' a b → r a b) : Acyclic r' :=
  fun a hc => h a (Relation.TransGen.mono hle a a hc)

/-- A path in the larger relation avoids the new edge, or leads through it. -/
lemma transGen_addEdge (h : Relation.TransGen (AddEdge r s t) a b) :
    Relation.TransGen r a b ∨ Relation.ReflTransGen r a s ∧ Relation.ReflTransGen r t b := by
  induction h with
  | single hab =>
    rcases hab with hab | ⟨rfl, rfl⟩
    · exact .inl (.single hab)
    · exact .inr ⟨.refl, .refl⟩
  | tail _ hbc ih =>
    rcases hbc with hbc | ⟨rfl, rfl⟩
    · rcases ih with ih | ⟨hs, ht⟩
      · exact .inl (ih.tail hbc)
      · exact .inr ⟨hs, ht.tail hbc⟩
    · rcases ih with ih | ⟨hs, _⟩
      · exact .inr ⟨ih.to_reflTransGen, .refl⟩
      · exact .inr ⟨hs, .refl⟩

/-- A new edge closes a cycle exactly when its target reaches its source. -/
lemma acyclic_addEdge (h : Acyclic r) :
    Acyclic (AddEdge r s t) ↔ ¬ Relation.ReflTransGen r t s := by
  constructor
  · intro hadd hts
    have hpath : Relation.ReflTransGen (AddEdge r s t) t s :=
      Relation.ReflTransGen.mono (fun _ _ => .inl) t s hts
    exact hadd s (Relation.TransGen.head' (.inr ⟨rfl, rfl⟩) hpath)
  · intro hts a hc
    rcases transGen_addEdge hc with hc | ⟨has, hta⟩
    · exact h a hc
    · exact hts (hta.trans has)

/-- New edges into a node that has none out. -/
lemma Acyclic.sink (h : Acyclic r) (hsink : ∀ b, ¬ r' t b)
    (hle : ∀ a b, r' a b → b ≠ t → r a b) : Acyclic r' := by
  -- every edge of a path that goes on is an old one
  have hpath : ∀ a b, Relation.TransGen r' a b → b ≠ t → Relation.TransGen r a b := by
    intro a b hab
    induction hab with
    | single hab => exact fun hb => .single (hle _ _ hab hb)
    | tail _ hbc ih =>
      intro hc
      refine (ih fun hb => ?_).tail (hle _ _ hbc hc)
      rw [hb] at hbc
      exact hsink _ hbc
  intro a ha
  refine h a (hpath a a ha fun hat => ?_)
  obtain ⟨b, hb, _⟩ := Relation.TransGen.head'_iff.mp ha
  rw [hat] at hb
  exact hsink b hb

end MobilePhoneOs
