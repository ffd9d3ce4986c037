import Mathlib.Algebra.GroupWithZero.Nat
import Mathlib.Data.List.Nodup

/-!
# Singly linked chains threaded through a memory

`next` gives the link stored in each node. `Seg next h l t` says that the walk from the
pointer `h` visits exactly `l` and then holds the pointer `t`; `Linked next stop h l`
that it ends there because `t` is an end mark. A chain is determined by its head, so it
never visits a node twice. The rules for updating one link (push, and unlinking a run)
are stated for an arbitrary link function.
-/

namespace MobilePhoneOs.Chain

open Function (update update_of_ne update_self)

variable {α : Type*}

/-- The walk from `h` visits `l` and is then at `t`. -/
def Seg (next : α → α) : α → List α → α → Prop
  | h, [], t => h = t
  | h, a :: l, t => h = a ∧ Seg next (next a) l t

/-- The walk from `h` visits exactly `l` and stops at an end mark. -/
def Linked (next : α → α) (stop : α → Prop) (h : α) (l : List α) : Prop :=
  (∀ a ∈ l, ¬ stop a) ∧ ∃ t, stop t ∧ Seg next h l t

variable {next : α → α} {h t : α}

@[simp] lemma seg_nil : Seg next h [] t ↔ h = t := Iff.rfl

variable {a : α} {l : List α}

@[simp] lemma seg_cons :
    Seg next h (a :: l) t ↔ h = a ∧ Seg next (next a) l t := Iff.rfl

variable {l' : List α}

/-- A walk over a concatenation passes through a middle pointer. -/
lemma seg_append :
    Seg next h (l ++ l') t ↔ ∃ m, Seg next h l m ∧ Seg next m l' t := by
  induction l generalizing h with
  | nil => simp
  | cons a l ih =>
    simp only [List.cons_append, seg_cons, ih]
    constructor
    · rintro ⟨rfl, m, h1, h2⟩
      exact ⟨m, ⟨rfl, h1⟩, h2⟩
    · rintro ⟨m, ⟨rfl, h1⟩, h2⟩
      exact ⟨rfl, m, h1, h2⟩

/-- The pointer after a nonempty walk is the link of its last node. -/
lemma seg_concat :
    Seg next h (l ++ [a]) t ↔ Seg next h l a ∧ next a = t := by
  rw [seg_append]
  constructor
  · rintro ⟨m, h1, rfl, h2⟩
    exact ⟨h1, h2⟩
  · rintro ⟨h1, h2⟩
    exact ⟨a, h1, rfl, h2⟩

variable {next' : α → α}

/-- A walk reads the links of its nodes only. -/
lemma Seg.congr (hs : Seg next h l t)
    (hag : ∀ a ∈ l, next' a = next a) : Seg next' h l t := by
  induction l generalizing h with
  | nil => exact hs
  | cons a l ih =>
    obtain ⟨rfl, hs⟩ := hs
    refine ⟨rfl, ?_⟩
    rw [hag _ List.mem_cons_self]
    exact ih hs fun b hb => hag b (List.mem_cons_of_mem _ hb)

/-- The node after the `i`-th of a walk is its link. -/
lemma Seg.link {b : α} {i : ℕ} (hs : Seg next h l t)
    (ha : l[i]? = some a) (hb : l[i + 1]? = some b) : next a = b := by
  induction l generalizing h i with
  | nil => simp at ha
  | cons c l ih =>
    cases i with
    | zero =>
      cases l with
      | nil => simp at hb
      | cons e l =>
        simp only [List.getElem?_cons_zero, List.getElem?_cons_succ, Option.some.injEq] at ha hb
        obtain rfl := ha
        obtain rfl := hb
        exact hs.2.1
    | succ i => exact ih hs.2 (by simpa using ha) (by simpa using hb)

/-- The pointer after a walk is determined by the walk. -/
lemma Seg.end_unique {t' : α} (hs : Seg next h l t)
    (hs' : Seg next h l t') : t = t' := by
  induction l generalizing h with
  | nil => exact hs.symm.trans hs'
  | cons a l ih => exact ih hs.2 hs'.2

variable {stop : α → Prop}

lemma Linked.congr
    (hl : Linked next stop h l) (hag : ∀ a ∈ l, next' a = next a) : Linked next' stop h l := by
  obtain ⟨hns, t, ht, hs⟩ := hl
  exact ⟨hns, t, ht, hs.congr hag⟩

/-- No node of a chain carries the end mark. -/
lemma Linked.not_stop
    (hl : Linked next stop h l) (ha : a ∈ l) : ¬ stop a := hl.1 a ha

lemma linked_nil : Linked next stop h [] ↔ stop h := by
  simp [Linked]

lemma linked_cons :
    Linked next stop h (a :: l) ↔ h = a ∧ ¬ stop a ∧ Linked next stop (next a) l := by
  simp only [Linked, List.mem_cons, forall_eq_or_imp, seg_cons]
  constructor
  · rintro ⟨⟨h1, h2⟩, t, h3, h4, h5⟩
    exact ⟨h4, h1, h2, t, h3, h5⟩
  · rintro ⟨h4, h1, h2, t, h3, h5⟩
    exact ⟨⟨h1, h2⟩, t, h3, h4, h5⟩

lemma linked_append :
    Linked next stop h (l ++ l') ↔
      (∀ a ∈ l, ¬ stop a) ∧ ∃ m, Seg next h l m ∧ Linked next stop m l' := by
  simp only [Linked, List.mem_append, seg_append]
  constructor
  · rintro ⟨h1, t, h2, m, h3, h4⟩
    exact ⟨fun a ha => h1 a (.inl ha), m, h3, fun a ha => h1 a (.inr ha), t, h2, h4⟩
  · rintro ⟨h1, m, h3, h5, t, h2, h4⟩
    exact ⟨fun a ha => ha.elim (h1 a) (h5 a), t, h2, m, h3, h4⟩

/-- The head decides the whole chain. -/
lemma Linked.unique
    (hl : Linked next stop h l) (hl' : Linked next stop h l') : l = l' := by
  induction l generalizing h l' with
  | nil =>
    cases l' with
    | nil => rfl
    | cons b l' =>
      obtain ⟨rfl, hb, _⟩ := linked_cons.mp hl'
      exact absurd (linked_nil.mp hl) hb
  | cons a l ih =>
    obtain ⟨rfl, ha, hrest⟩ := linked_cons.mp hl
    cases l' with
    | nil => exact absurd (linked_nil.mp hl') ha
    | cons b l' =>
      obtain ⟨rfl, _, hrest'⟩ := linked_cons.mp hl'
      rw [ih hrest hrest']

/-- A chain that ends never visits a node twice. -/
lemma Linked.nodup
    (hl : Linked next stop h l) : l.Nodup := by
  induction l generalizing h with
  | nil => exact List.nodup_nil
  | cons a l ih =>
    obtain ⟨rfl, ha, hrest⟩ := linked_cons.mp hl
    refine List.nodup_cons.mpr ⟨fun hmem => ?_, ih hrest⟩
    -- a second visit would be the head of a proper suffix that is the same chain
    obtain ⟨s, t, rfl⟩ := List.append_of_mem hmem
    obtain ⟨_, m, _, hm⟩ := linked_append.mp hrest
    obtain ⟨rfl, _, _⟩ := linked_cons.mp hm
    have heq := congrArg List.length (hl.unique hm)
    simp only [List.length_cons, List.length_append] at heq
    omega

/-- A new node behind the last one, which holds an end mark. -/
lemma Linked.concat {p e : α}
    (hl : Linked next stop h (l ++ [p])) (ha : ¬ stop a) (hp : next' p = a) (hae : next' a = e)
    (he : stop e) (hag : ∀ b ∈ l, next' b = next b) : Linked next' stop h (l ++ [p] ++ [a]) := by
  obtain ⟨hns, t, _, hs⟩ := hl
  refine ⟨fun b hb => ?_, e, he, ?_⟩
  · rcases List.mem_append.mp hb with hb | hb
    · exact hns b hb
    · rwa [List.mem_singleton.mp hb]
  · rw [seg_concat, seg_concat]
    exact ⟨⟨(seg_concat.mp hs).1.congr hag, hp⟩, hae⟩

variable [DecidableEq α]

/-- Linking a new node in front of a chain. -/
lemma Linked.push
    (hl : Linked next stop h l) (ha : ¬ stop a) (hmem : a ∉ l) :
    Linked (update next a h) stop a (a :: l) := by
  refine linked_cons.mpr ⟨rfl, ha, ?_⟩
  rw [update_self]
  exact hl.congr fun b hb => update_of_ne (ne_of_mem_of_not_mem hb hmem) _ _

/-- A link stored in no node of the chain does not change it. -/
lemma Linked.update_of_notMem {v : α}
    (hl : Linked next stop h l) (hmem : a ∉ l) : Linked (update next a v) stop h l :=
  hl.congr fun _ hb => update_of_ne (ne_of_mem_of_not_mem hb hmem) _ _

/-- Unlinking the run between `p` and the rest: `p` adopts the successor of the run. -/
lemma Linked.unlink {p : α} {pre run rest : List α}
    (hl : Linked next stop h (pre ++ p :: (run ++ rest))) (hrun : Seg next (next p) run t) :
    Linked (update next p t) stop h (pre ++ p :: rest) := by
  have hnd := hl.nodup
  obtain ⟨hpre, m, hm, hp⟩ := linked_append.mp hl
  obtain ⟨rfl, hps, hrr⟩ := linked_cons.mp hp
  obtain ⟨_, m', hm', hrest⟩ := linked_append.mp hrr
  obtain rfl := hm'.end_unique hrun
  rw [List.nodup_append] at hnd
  have hnp : ∀ b ∈ pre, b ≠ m := fun b hb => hnd.2.2 b hb m List.mem_cons_self
  have hnr : m ∉ rest := fun hc =>
    (List.nodup_cons.mp hnd.2.1).1 (List.mem_append_right _ hc)
  refine linked_append.mpr ⟨hpre, m, hm.congr fun b hb => update_of_ne (hnp b hb) _ _, ?_⟩
  refine linked_cons.mpr ⟨rfl, hps, ?_⟩
  rw [update_self]
  exact hrest.update_of_notMem hnr

end MobilePhoneOs.Chain
