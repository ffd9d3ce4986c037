import Mathlib.Algebra.GroupWithZero.Nat
import Mathlib.Data.List.FinRange
import Mathlib.Data.List.Perm.Basic

/-!
# Radix trees

A tree of fixed height over `B` slots a node: every node names the frame it lives in, the
leaves sit at height 0, and a slot may hold nothing. `lookup` follows a path of slots.
`frames` and `leaves` list what a tree is made of; both change by a permutation when one
slot does, so ownership can be counted with multisets of frames.
-/

namespace MobilePhoneOs

open Function (update update_self update_of_ne update_eq_self)
open List (mem_cons mem_finRange mem_flatMap nodup_append nodup_cons nodup_finRange)

/-- A radix tree of the given height. -/
inductive Radix (B : ℕ) (F L : Type) : ℕ → Type
  | absent {n : ℕ} : Radix B F L n
  | leaf (l : L) : Radix B F L 0
  | node {n : ℕ} (f : F) (kids : Fin B → Radix B F L n) : Radix B F L (n + 1)

namespace Radix

variable {B n : ℕ} {F L : Type}

/-- The leaf at the end of a path, if every node on the way is there. -/
def lookup {n : ℕ} : Radix B F L n → List (Fin B) → Option L
  | .absent, _ => none
  | .leaf l, [] => some l
  | .leaf _, _ :: _ => none
  | .node _ _, [] => none
  | .node _ kids, i :: path => (kids i).lookup path

/-- The frames of the nodes, the top one first. -/
def frames {n : ℕ} : Radix B F L n → List F
  | .absent => []
  | .leaf _ => []
  | .node f kids => f :: (List.finRange B).flatMap fun i => (kids i).frames

/-- The leaves in the order of their paths. -/
def leaves {n : ℕ} : Radix B F L n → List L
  | .absent => []
  | .leaf l => [l]
  | .node _ kids => (List.finRange B).flatMap fun i => (kids i).leaves

/-- A node without children. -/
def empty (n : ℕ) (f : F) : Radix B F L (n + 1) := .node f fun _ => .absent

@[simp] lemma lookup_absent (path : List (Fin B)) :
    (absent : Radix B F L n).lookup path = none := by
  cases n <;> rfl

@[simp] lemma frames_absent : (absent : Radix B F L n).frames = [] := by cases n <;> rfl

@[simp] lemma leaves_absent : (absent : Radix B F L n).leaves = [] := by cases n <;> rfl

@[simp] lemma lookup_node (f : F) (kids : Fin B → Radix B F L n) (i : Fin B)
    (path : List (Fin B)) : (node f kids).lookup (i :: path) = (kids i).lookup path := rfl

lemma frames_node (f : F) (kids : Fin B → Radix B F L n) :
    (node f kids).frames = f :: (List.finRange B).flatMap fun i => (kids i).frames := rfl

lemma leaves_node (f : F) (kids : Fin B → Radix B F L n) :
    (node f kids).leaves = (List.finRange B).flatMap fun i => (kids i).leaves := rfl

@[simp] lemma frames_empty (f : F) : (empty n f : Radix B F L (n + 1)).frames = [f] := by
  simp [empty, frames_node]

@[simp] lemma leaves_empty (f : F) : (empty n f : Radix B F L (n + 1)).leaves = [] := by
  simp [empty, leaves_node]

@[simp] lemma lookup_empty (f : F) (path : List (Fin B)) :
    (empty n f : Radix B F L (n + 1)).lookup path = none := by
  cases path with
  | nil => rfl
  | cons i path => exact lookup_absent path

variable {f : F} {i : Fin B}

variable {kids : Fin B → Radix B F L n}

lemma frames_of_kid {g : F}
    (h : g ∈ (kids i).frames) : g ∈ (node f kids).frames :=
  List.mem_cons_of_mem _ (mem_flatMap.mpr ⟨i, mem_finRange i, h⟩)

/-! ## The nodes on a path -/

/-- There is a node at the end of the path. -/
def isNode {n : ℕ} : Radix B F L n → List (Fin B) → Bool
  | .absent, _ => false
  | .leaf _, _ => false
  | .node _ _, [] => true
  | .node _ kids, i :: path => (kids i).isNode path

/-- How many nodes the path to a leaf still lacks. -/
def missing {n : ℕ} : Radix B F L n → List (Fin B) → ℕ
  | .absent, _ => n
  | .leaf _, _ => 0
  | .node _ _, [] => 0
  | .node _ kids, i :: path => (kids i).missing path

@[simp] lemma isNode_absent (path : List (Fin B)) :
    (absent : Radix B F L n).isNode path = false := by
  cases n <;> rfl

@[simp] lemma missing_absent (path : List (Fin B)) : (absent : Radix B F L n).missing path = n := by
  cases n <;> rfl

@[simp] lemma isNode_node_nil (f : F) (kids : Fin B → Radix B F L n) :
    (node f kids).isNode [] = true := rfl

@[simp] lemma isNode_node (f : F) (kids : Fin B → Radix B F L n) (i : Fin B)
    (path : List (Fin B)) : (node f kids).isNode (i :: path) = (kids i).isNode path := rfl

@[simp] lemma missing_node (f : F) (kids : Fin B → Radix B F L n) (i : Fin B)
    (path : List (Fin B)) : (node f kids).missing (i :: path) = (kids i).missing path := rfl

variable {path : List (Fin B)}

/-- The missing nodes are those at the prefixes of the path where there is none. -/
lemma missing_eq (t : Radix B F L n) (h : path.length = n) :
    t.missing path = ((List.range n).filter fun j => !t.isNode (path.take j)).length := by
  induction t generalizing path with
  | absent => simp
  | leaf l => rfl
  | node f kids ih =>
    cases path with
    | nil => exact absurd h (by simp)
    | cons i path =>
      have hlen : path.length = _ := Nat.succ.inj h
      rw [missing_node, ih i hlen, List.range_succ_eq_map]
      simp only [List.take_zero, isNode_node_nil, Bool.not_true, Bool.false_eq_true,
        not_false_eq_true, List.filter_cons_of_neg, List.filter_map, List.length_map]
      rfl

variable {t : Radix B F L n}

/-- The path to a leaf lacks no node. -/
lemma missing_of_lookup
    (h : t.lookup path ≠ none) : t.missing path = 0 := by
  induction t generalizing path with
  | absent => exact absurd (lookup_absent path) h
  | leaf l => rfl
  | node f kids ih =>
    cases path with
    | nil => rfl
    | cons i path => exact ih i h

/-! ## One slot changes -/

section

variable {ι α : Type} [DecidableEq ι] {l : List ι}

/-- A concatenation over distinct indices, with the piece of one index set apart: the rest
does not depend on that piece. -/
lemma flatMap_split {i : ι} (hnd : l.Nodup) (hi : i ∈ l)
    (g : ι → List α) :
    ∃ rest, (∀ g', (∀ j, j ≠ i → g' j = g j) → (l.flatMap g').Perm (g' i ++ rest)) ∧
      ∀ j ∈ l, j ≠ i → ∀ a ∈ g j, a ∈ rest := by
  refine ⟨(l.erase i).flatMap g, fun g' hg => ?_, fun j hj hne a ha => ?_⟩
  · have hrest : (l.erase i).flatMap g' = (l.erase i).flatMap g := by
      refine List.flatMap_congr fun j hj => hg j ?_
      rintro rfl
      exact hnd.not_mem_erase hj
    rw [← hrest]
    simpa using (List.perm_cons_erase hi).flatMap_right g'
  · exact mem_flatMap.mpr ⟨j, (List.mem_erase_of_ne hne).mpr hj, ha⟩

/-- The pieces of a concatenation without repetitions are disjoint. -/
lemma flatMap_disjoint (hnd : l.Nodup) {g : ι → List α}
    (h : (l.flatMap g).Nodup) {i j : ι} (hi : i ∈ l) (hj : j ∈ l) (hij : i ≠ j) {a : α}
    (ha : a ∈ g i) : a ∉ g j := by
  obtain ⟨rest, hsplit, hrest⟩ := flatMap_split hnd hi g
  have hperm := hsplit g fun _ _ => rfl
  have hdisj := (nodup_append.mp (hperm.nodup_iff.mp h)).2.2
  exact fun hc => hdisj a ha a (hrest j hj (Ne.symm hij) a hc) rfl

/-- One piece gets elements of its own or new ones. -/
lemma nodup_flatMap_update {i : ι} (hnd : l.Nodup)
    (hi : i ∈ l) {g g' : ι → List α} (hg : ∀ j, j ≠ i → g' j = g j) (h : (l.flatMap g).Nodup)
    (hnew : (g' i).Nodup) (hsub : ∀ a ∈ g' i, a ∈ g i ∨ a ∉ l.flatMap g) :
    (l.flatMap g').Nodup := by
  obtain ⟨rest, hsplit, _⟩ := flatMap_split hnd hi g
  have hold := hsplit g fun _ _ => rfl
  obtain ⟨_, hrest, hdisj⟩ := nodup_append.mp (hold.nodup_iff.mp h)
  refine (hsplit g' hg).nodup_iff.mpr (nodup_append.mpr ⟨hnew, hrest, ?_⟩)
  intro a ha b hb hab
  rcases hsub a ha with hmem | hmem
  · exact hdisj a hmem b hb hab
  · exact hmem (hold.mem_iff.mpr (List.mem_append_right _ (hab ▸ hb)))

end

/-- The frames with one slot set apart. -/
lemma frames_split (f : F) (kids : Fin B → Radix B F L n) (i : Fin B) :
    ∃ rest, (∀ kid, (node f (update kids i kid)).frames.Perm
        (f :: (kid.frames ++ rest))) ∧
      ∀ j, j ≠ i → ∀ g ∈ (kids j).frames, g ∈ rest := by
  obtain ⟨rest, hsplit, hrest⟩ := flatMap_split (nodup_finRange B) (mem_finRange i)
    fun j => (kids j).frames
  refine ⟨rest, fun kid => ?_, fun j => hrest j (mem_finRange j)⟩
  have h := hsplit (fun j => (update kids i kid j).frames) fun j hj => by
    rw [update_of_ne hj]
  simp only [update_self] at h
  exact h.cons f

/-- The leaves with one slot set apart. -/
lemma leaves_split (f : F) (kids : Fin B → Radix B F L n) (i : Fin B) :
    ∃ rest, ∀ kid, (node f (update kids i kid)).leaves.Perm (kid.leaves ++ rest) := by
  obtain ⟨rest, hsplit, _⟩ := flatMap_split (nodup_finRange B) (mem_finRange i)
    fun j => (kids j).leaves
  refine ⟨rest, fun kid => ?_⟩
  have h := hsplit (fun j => (update kids i kid j).leaves) fun j hj => by
    rw [update_of_ne hj]
  simp only [update_self] at h
  exact h

/-- More frames in one slot are more frames in the tree. -/
lemma frames_update_append (f : F) (kids : Fin B → Radix B F L n) (i : Fin B)
    (kid : Radix B F L n) {new : List F} (h : kid.frames.Perm ((kids i).frames ++ new)) :
    (node f (update kids i kid)).frames.Perm ((node f kids).frames ++ new) := by
  obtain ⟨rest, hsplit, _⟩ := frames_split f kids i
  have hself := hsplit (kids i)
  rw [update_eq_self] at hself
  have hmove : ((kids i).frames ++ new ++ rest).Perm ((kids i).frames ++ rest ++ new) := by
    rw [List.append_assoc, List.append_assoc]
    exact List.perm_append_comm.append_left _
  exact (hsplit kid).trans ((((h.append_right rest).trans hmove).cons f).trans
    (hself.symm.append_right new))

variable {l : L}

/-- A leaf list that grows or shrinks in one slot does so in the tree. -/
lemma leaves_update_cons (f : F) (kids : Fin B → Radix B F L n) (i : Fin B)
    (kid : Radix B F L n) (h : kid.leaves.Perm (l :: (kids i).leaves)) :
    (node f (update kids i kid)).leaves.Perm (l :: (node f kids).leaves) := by
  obtain ⟨rest, hsplit⟩ := leaves_split f kids i
  have hself := hsplit (kids i)
  rw [update_eq_self] at hself
  exact ((hsplit kid).trans (h.append_right rest)).trans (hself.symm.cons l)

/-! ## Leaves by their paths -/

lemma leaves_of_kid
    (h : l ∈ (kids i).leaves) : l ∈ (node f kids).leaves :=
  mem_flatMap.mpr ⟨i, mem_finRange i, h⟩

lemma mem_leaves_of_lookup
    (h : t.lookup path = some l) : l ∈ t.leaves := by
  induction t generalizing path with
  | absent => simp at h
  | leaf l' =>
    cases path with
    | nil => exact List.mem_singleton.mpr (Option.some.inj h).symm
    | cons i path => simp [lookup] at h
  | node f kids ih =>
    cases path with
    | nil => simp [lookup] at h
    | cons i path => exact leaves_of_kid (ih i h)

/-- Where all leaves differ in `g`, a value of `g` is found at one path only. -/
lemma path_of_leaf {α : Type} (g : L → α)
    (hnd : (t.leaves.map g).Nodup) {path' : List (Fin B)} {l' : L}
    (h : t.lookup path = some l) (h' : t.lookup path' = some l') (hg : g l = g l') :
    path = path' := by
  induction t generalizing path path' with
  | absent => simp at h
  | leaf l =>
    cases path with
    | nil =>
      cases path' with
      | nil => rfl
      | cons i path' => simp [lookup] at h'
    | cons i path => simp [lookup] at h
  | node f kids ih =>
    cases path with
    | nil => simp [lookup] at h
    | cons i path =>
      cases path' with
      | nil => simp [lookup] at h'
      | cons j path' =>
        rw [lookup_node] at h h'
        rw [leaves_node, List.map_flatMap] at hnd
        have hi := List.mem_map_of_mem (f := g) (mem_leaves_of_lookup h)
        have hj := List.mem_map_of_mem (f := g) (mem_leaves_of_lookup h')
        by_cases hij : i = j
        · subst hij
          obtain ⟨rest, hsplit, -⟩ := flatMap_split (nodup_finRange B) (mem_finRange i)
            fun k => (kids k).leaves.map g
          have hkid := (hsplit _ fun _ _ => rfl).nodup_iff.mp hnd
          rw [ih i (nodup_append.mp hkid).1 h h']
        · rw [hg] at hi
          exact absurd hj (flatMap_disjoint (nodup_finRange B) hnd (mem_finRange i)
            (mem_finRange j) hij hi)

/-! ## Trees of one kind of block

When nodes and leaves are blocks of the same kind, a tree without repetition has every
block at one place. -/

/-- The frames and the leaves. -/
def all {n : ℕ} : Radix B F F n → List F
  | .absent => []
  | .leaf l => [l]
  | .node f kids => f :: (List.finRange B).flatMap fun i => (kids i).all

@[simp] lemma all_absent : (absent : Radix B F F n).all = [] := by cases n <;> rfl

lemma all_node (f : F) (kids : Fin B → Radix B F F n) :
    (node f kids).all = f :: (List.finRange B).flatMap fun i => (kids i).all := rfl

variable {kids : Fin B → Radix B F F n}

lemma all_of_kid {g : F}
    (h : g ∈ (kids i).all) : g ∈ (node f kids).all :=
  List.mem_cons_of_mem _ (mem_flatMap.mpr ⟨i, mem_finRange i, h⟩)

/-- All blocks with one slot set apart. -/
lemma all_split (f : F) (kids : Fin B → Radix B F F n) (i : Fin B) :
    ∃ rest, (∀ kid, (node f (update kids i kid)).all.Perm (f :: (kid.all ++ rest))) ∧
      ∀ j, j ≠ i → ∀ g ∈ (kids j).all, g ∈ rest := by
  obtain ⟨rest, hsplit, hrest⟩ := flatMap_split (nodup_finRange B) (mem_finRange i)
    fun j => (kids j).all
  refine ⟨rest, fun kid => ?_, fun j => hrest j (mem_finRange j)⟩
  have h := hsplit (fun j => (update kids i kid j).all) fun j hj => by
    rw [update_of_ne hj]
  simp only [update_self] at h
  exact h.cons f

variable {b : F}

variable {t : Radix B F F n}

lemma frames_subset_all (h : b ∈ t.frames) : b ∈ t.all := by
  induction t with
  | absent => simp at h
  | leaf l => simp [frames] at h
  | node f kids ih =>
    rcases mem_cons.mp h with rfl | h
    · exact List.mem_cons_self
    · obtain ⟨i, _, hi⟩ := mem_flatMap.mp h
      exact all_of_kid (ih i hi)

lemma lookup_mem_all
    (h : t.lookup path = some b) : b ∈ t.all := by
  induction t generalizing path with
  | absent => simp at h
  | leaf l =>
    cases path with
    | nil => simpa [lookup, all, eq_comm] using h
    | cons i path => simp [lookup] at h
  | node f kids ih =>
    cases path with
    | nil => simp [lookup] at h
    | cons i path => exact all_of_kid (ih i h)

/-- The blocks of two slots are distinct. -/
lemma kids_disjoint (hnd : (node f kids).all.Nodup)
    {j : Fin B} (hij : i ≠ j) (hi : b ∈ (kids i).all) : b ∉ (kids j).all :=
  flatMap_disjoint (nodup_finRange B) (nodup_cons.mp hnd).2 (mem_finRange i)
    (mem_finRange j) hij hi

lemma nodup_kid (hnd : (node f kids).all.Nodup)
    (i : Fin B) : (kids i).all.Nodup ∧ f ∉ (kids i).all := by
  obtain ⟨rest, hsplit, _⟩ := all_split f kids i
  have hperm := hsplit (kids i)
  rw [update_eq_self] at hperm
  obtain ⟨hf, h⟩ := nodup_cons.mp (hperm.nodup_iff.mp hnd)
  exact ⟨(nodup_append.mp h).1, fun hc => hf (List.mem_append_left _ hc)⟩

/-- A leaf is at one path only. -/
lemma lookup_inj (hnd : t.all.Nodup) {path' : List (Fin B)} (h : t.lookup path = some b) (h' : t.lookup path' = some b) : path = path' := by
  induction t generalizing path path' with
  | absent => simp at h
  | leaf l =>
    cases path with
    | nil =>
      cases path' with
      | nil => rfl
      | cons i path' => simp [lookup] at h'
    | cons i path => simp [lookup] at h
  | node f kids ih =>
    cases path with
    | nil => simp [lookup] at h
    | cons i path =>
      cases path' with
      | nil => simp [lookup] at h'
      | cons j path' =>
        rw [lookup_node] at h h'
        by_cases hij : i = j
        · subst hij
          rw [ih i (nodup_kid hnd i).1 h h']
        · exact absurd (lookup_mem_all h') (kids_disjoint hnd hij (lookup_mem_all h))

/-- A leaf is not a node. -/
lemma lookup_not_frame (hnd : t.all.Nodup) (h : t.lookup path = some b) : b ∉ t.frames := by
  induction t generalizing path with
  | absent => simp
  | leaf l => simp [frames]
  | node f kids ih =>
    cases path with
    | nil => simp [lookup] at h
    | cons i path =>
      rw [lookup_node] at h
      have hb := lookup_mem_all h
      intro hc
      rcases mem_cons.mp hc with rfl | hc
      · exact (nodup_kid hnd i).2 hb
      · obtain ⟨j, _, hj⟩ := mem_flatMap.mp hc
        by_cases hij : i = j
        · subst hij
          exact ih i (nodup_kid hnd i).1 h hj
        · exact kids_disjoint hnd hij hb (frames_subset_all hj)

/-- The blocks after one slot has changed are old ones or in the slot. -/
lemma mem_all_update {kid : Radix B F F n} (h : b ∈ (node f (update kids i kid)).all) :
    b ∈ (node f kids).all ∨ b ∈ kid.all := by
  obtain ⟨rest, hsplit, _⟩ := all_split f kids i
  have hold := hsplit (kids i)
  rw [update_eq_self] at hold
  rw [(hsplit kid).mem_iff, mem_cons, List.mem_append] at h
  rw [hold.mem_iff, mem_cons, List.mem_append]
  tauto

/-- One slot gets blocks of its own or new ones. -/
lemma nodup_update {kid : Radix B F F n}
    (hnd : (node f kids).all.Nodup) (hkid : kid.all.Nodup)
    (hsub : ∀ b ∈ kid.all, b ∈ (kids i).all ∨ b ∉ (node f kids).all) :
    (node f (update kids i kid)).all.Nodup := by
  obtain ⟨hf, h⟩ := nodup_cons.mp hnd
  rw [all_node]
  refine nodup_cons.mpr ⟨fun hc => ?_, ?_⟩
  · obtain ⟨j, _, hj⟩ := mem_flatMap.mp hc
    by_cases hji : j = i
    · subst hji
      rw [update_self] at hj
      rcases hsub f hj with hold | hnew
      · exact (nodup_kid hnd j).2 hold
      · exact hnew List.mem_cons_self
    · rw [update_of_ne hji] at hj
      exact (nodup_kid hnd j).2 hj
  · refine nodup_flatMap_update (nodup_finRange B) (mem_finRange i)
      (fun j hj => by rw [update_of_ne hj]) h ?_ ?_
    · rw [update_self]
      exact hkid
    · rw [update_self]
      intro b hb
      exact (hsub b hb).imp_right fun hnew hc => hnew (List.mem_cons_of_mem _ hc)

end Radix
end MobilePhoneOs
