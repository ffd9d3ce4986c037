import Mathlib.Algebra.GroupWithZero.Nat
import Mathlib.Data.List.Basic

/-!
# Layers

A drawing call paints some points and leaves the others as they were: a layer tells what it
paints at each point. Of calls one after another, the last one that paints a point decides.
-/

namespace MobilePhoneOs

/-- What is painted at each point, if something is. -/
def Layer (α β : Type*) := α → Option β

namespace Layer

variable {α β : Type*} {ls xs ys : List (Layer α β)} {a : α} {b : β}

/-- The picture `s` after the layer has been painted over it, with `color` what is seen of it. -/
def paint {γ : Type*} (l : Layer α β) (color : β → γ) (s : α → γ) : α → γ := fun a =>
  match l a with
  | some b => color b
  | none => s a

/-- Layers one after another. -/
def stack : List (Layer α β) → Layer α β
  | [] => fun _ => none
  | l :: ls => fun a => (stack ls a).or (l a)

variable {l : Layer α β}

lemma paint_some {γ : Type*} {color : β → γ} {s : α → γ} (h : l a = some b) :
    l.paint color s a = color b := by
  rw [paint, h]

lemma paint_none {γ : Type*} {color : β → γ} {s : α → γ} (h : l a = none) :
    l.paint color s a = s a := by
  rw [paint, h]

lemma stack_cons : stack (l :: ls) a = (stack ls a).or (l a) := rfl

/-- The later layers lie over the earlier ones. -/
lemma stack_append : stack (xs ++ ys) a = (stack ys a).or (stack xs a) := by
  induction xs with
  | nil => exact (Option.or_none).symm
  | cons l xs ih => rw [List.cons_append, stack_cons, stack_cons, ih, Option.or_assoc]

/-- A stack is transparent where all its layers are. -/
lemma stack_eq_none : stack ls a = none ↔ ∀ l ∈ ls, l a = none := by
  induction ls with
  | nil => simp [stack]
  | cons l ls ih =>
    rw [stack_cons, Option.or_eq_none_iff, ih, List.forall_mem_cons]
    exact and_comm

/-- What is seen at a point is from the last layer that paints it. -/
lemma stack_eq_some : stack ls a = some b ↔
    ∃ xs l ys, ls = xs ++ l :: ys ∧ l a = some b ∧ ∀ m ∈ ys, m a = none := by
  induction ls with
  | nil => simp [stack]
  | cons l ls ih =>
    rw [stack_cons, Option.or_eq_some_iff, ih]
    constructor
    · rintro (⟨xs, m, ys, rfl, hm, hys⟩ | ⟨hnone, hl⟩)
      · exact ⟨l :: xs, m, ys, rfl, hm, hys⟩
      · exact ⟨[], l, ls, rfl, hl, stack_eq_none.mp hnone⟩
    · rintro ⟨xs, m, ys, heq, hm, hys⟩
      cases xs with
      | nil =>
        obtain ⟨rfl, rfl⟩ := List.cons.inj heq
        exact .inr ⟨stack_eq_none.mpr hys, hm⟩
      | cons x xs =>
        obtain ⟨rfl, rfl⟩ := List.cons.inj heq
        exact .inl ⟨xs, m, ys, rfl, hm, hys⟩

lemma stack_ne_none (hl : l ∈ ls) (h : l a ≠ none) : stack ls a ≠ none :=
  fun hc => h (stack_eq_none.mp hc l hl)

/-- Everything that the layer paints, and where, has the property. -/
def Paints (q : α → β → Prop) (l : Layer α β) : Prop := ∀ a b, l a = some b → q a b

/-- A stack paints only what its layers do. -/
lemma paints_stack {q : α → β → Prop} (h : ∀ l ∈ ls, Paints q l) : Paints q (stack ls) := by
  intro a b hb
  obtain ⟨xs, l, ys, rfl, hl, -⟩ := stack_eq_some.mp hb
  exact h l (by simp) a b hl

lemma paints_none (q : α → β → Prop) : Paints q (stack []) := nofun

lemma Paints.mono {q r : α → β → Prop} (h : Paints q l)
    (hqr : ∀ a b, q a b → r a b) : Paints r l := fun a b hb => hqr a b (h a b hb)

end Layer
end MobilePhoneOs
