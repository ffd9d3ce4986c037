import MobilePhoneOs.Mm.CopySpace
import MobilePhoneOs.Mm.SpaceTheorems

/-!
# What a copy of an address space does

A slot is copied by a function that is correct for trees of one height; from it comes the loop
over a table, and from that the function for the height above. A copy that fails gives back the
tables it is in, but not what they hold already.
-/

namespace MobilePhoneOs

open Function (update update_self update_of_ne)
open List (append_assoc append_nil cons_append flatMap_cons length_append length_cons map_cons
  mem_append_left mem_append_right mem_cons mem_cons_of_mem mem_cons_self mem_finRange mem_flatMap
  mem_singleton nodup_append nodup_cons sum_cons finRange Perm)
namespace Mm
namespace Vmm

/-! ## Trees -/

section

variable {n : ℕ} {mem mem' : Mem}

@[simp] lemma blocks_absent : blocks (.absent : Tree n) = [] := by simp [blocks]

@[simp] lemma need_absent : need (.absent : Tree n) = 0 := by simp [need]

/-- The blocks of a table are its own and those of its slots. -/
lemma blocks_node (f : ℕ) (kids : Fin 512 → Tree n) :
    (blocks (.node f kids)).Perm (f :: (finRange 512).flatMap fun i => blocks (kids i)) := by
  rw [blocks, Radix.frames_node, Radix.leaves_node, cons_append, List.map_flatMap]
  apply Perm.cons
  generalize finRange 512 = l
  induction l with
  | nil => exact Perm.refl _
  | cons i l ih =>
    simp only [flatMap_cons, blocks, append_assoc]
    apply Perm.append_left
    -- the leaves of the first slot move in front of the frames of the others
    have hmove : (l.flatMap (fun i => (kids i).frames) ++ ((kids i).leaves.map Prod.fst ++
        l.flatMap fun i => (kids i).leaves.map Prod.fst)).Perm
        ((kids i).leaves.map Prod.fst ++ (l.flatMap (fun i => (kids i).frames) ++
          l.flatMap fun i => (kids i).leaves.map Prod.fst)) := by
      rw [← append_assoc, ← append_assoc]
      exact List.perm_append_comm.append_right _
    exact hmove.trans (ih.append_left _)

lemma need_node (f : ℕ) (kids : Fin 512 → Tree n) :
    need (.node f kids) = 1 + ((finRange 512).map fun i => need (kids i)).sum := by
  rw [need, (blocks_node f kids).length_eq, length_cons, List.length_flatMap, Nat.add_comm]
  rfl

lemma block_of_kid {f g : ℕ} {kids : Fin 512 → Tree n} {i : Fin 512} (h : g ∈ blocks (kids i)) :
    g ∈ blocks (.node f kids) := by
  rw [(blocks_node f kids).mem_iff]
  exact mem_cons_of_mem _ (mem_flatMap.mpr ⟨i, mem_finRange i, h⟩)

variable {t : Tree n}

lemma block_of_frame {g : ℕ} (h : g ∈ t.frames) : g ∈ blocks t :=
  mem_append_left _ h

lemma block_of_leaf {l : ℕ × ℕ} (h : l ∈ t.leaves) : l.1 ∈ blocks t :=
  mem_append_right _ (List.mem_map_of_mem h)

/-- The pages of a tree are aligned. -/
lemma Slot.leaf {d : ℕ} (h : Slot mem d t) {l : ℕ × ℕ} (hl : l ∈ t.leaves) :
    l.1 % PAGE_SIZE = 0 ∧ l.1 < 2 ^ 48 := by
  induction t generalizing d with
  | absent => simp at hl
  | leaf l' =>
    obtain rfl := mem_singleton.mp hl
    exact h.2
  | node f kids ih =>
    obtain ⟨i, -, hi⟩ := mem_flatMap.mp hl
    exact ih i (h.2.2 i) hi

/-- A copy depends on the cells of the pages. -/
lemma CopyOf.congr {m m' : Mem} {t' : Tree n} (h : CopyOf mem mem' t t')
    (hsrc : ∀ l ∈ t.leaves, ∀ j < PAGE_SIZE, m (l.1 + j) = mem (l.1 + j))
    (hdst : ∀ l ∈ t'.leaves, ∀ j < PAGE_SIZE, m' (l.1 + j) = mem' (l.1 + j)) :
    CopyOf m m' t t' := by
  induction t with
  | absent =>
    cases t' with
    | absent => trivial
    | leaf l' => exact h.elim
    | node f' kids' => exact h.elim
  | leaf l =>
    cases t' with
    | absent => exact h.elim
    | leaf l' =>
      refine ⟨h.1, fun j hj => ?_⟩
      rw [hsrc l mem_cons_self j hj, hdst l' mem_cons_self j hj]
      exact h.2 j hj
  | node f kids ih =>
    cases t' with
    | absent => exact h.elim
    | node f' kids' =>
      intro i
      apply ih i (h i)
      · exact fun l hl => hsrc l (Radix.leaves_of_kid hl)
      · exact fun l hl => hdst l (Radix.leaves_of_kid hl)

/-- A copy maps a path when the source does, with the permissions decoded once more. -/
lemma CopyOf.lookup {t' : Tree n} (h : CopyOf mem mem' t t') (p : List (Fin 512)) :
    (t.lookup p = none ∧ t'.lookup p = none) ∨
      ∃ l l', t.lookup p = some l ∧ t'.lookup p = some l' ∧ l'.2 = shownFlags l.2 ∧
        ∀ j < PAGE_SIZE, mem' (l'.1 + j) = mem (l.1 + j) := by
  induction t generalizing p with
  | absent =>
    cases t' with
    | absent => exact .inl ⟨Radix.lookup_absent p, Radix.lookup_absent p⟩
    | leaf l' => exact h.elim
    | node f' kids' => exact h.elim
  | leaf l =>
    cases t' with
    | absent => exact h.elim
    | leaf l' =>
      cases p with
      | nil => exact .inr ⟨l, l', rfl, rfl, h⟩
      | cons i p => exact .inl ⟨rfl, rfl⟩
  | node f kids ih =>
    cases t' with
    | absent => exact h.elim
    | node f' kids' =>
      cases p with
      | nil => exact .inl ⟨rfl, rfl⟩
      | cons i p => exact ih i (h i) p

/-- Decoded permissions stay what they are. -/
lemma shownFlags_idem (flags : ℕ) : shownFlags (shownFlags flags) = shownFlags flags := by
  have hw := and_bit flags 1
  have he := and_bit flags 2
  have hu := and_bit flags 3
  have hd := and_bit flags 4
  rw [← VM_WRITE] at hw
  rw [← VM_EXEC] at he
  rw [← VM_USER] at hu
  rw [← VM_DEVICE] at hd
  have hshown : shownFlags flags = VM_READ ||| (flags &&& VM_WRITE) ||| (flags &&& VM_USER)
    ||| (if flags &&& VM_USER ≠ 0 then flags &&& VM_EXEC else 0) ||| (flags &&& VM_DEVICE) := rfl
  rw [hshown]
  rcases hw with hw | hw <;> rcases he with he | he <;> rcases hu with hu | hu <;>
    rcases hd with hd | hd <;> rw [hw, he, hu, hd] <;> decide

end

/-! ## One slot -/

/-- The slot at `a` has become a copy of the tree, made of the frames `taken`. -/
structure Copied {n : ℕ} (r r' : Ram) (a : ℕ) (t t' : Tree n) (taken : List ℕ) : Prop where
  free : r.free = taken ++ r'.free
  blocks : (blocks t').Perm taken
  count : taken.length = need t
  slot : Slot r'.mem (r'.mem a) t'
  copy : CopyOf r.mem r'.mem t t'
  outside : ∀ x, x ≠ a → alignDown x ∉ taken → r'.mem x = r.mem x

/-- The copy failed and the frames `lost` did not come back. -/
structure Stopped (r r' : Ram) (clean : Bool) (lost : List ℕ) : Prop where
  free : (r'.free ++ lost).Perm r.free
  clean : lost = [] ↔ clean = true
  outside : ∀ x, alignDown x ∉ r.free → r'.mem x = r.mem x

/-- Nothing that the copy reads or fills is free. -/
structure Ready {n : ℕ} (r : Ram) (dst : ℕ) (t : Tree n) : Prop where
  nodup : r.free.Nodup
  frame : ∀ f ∈ r.free, IsTable f
  target : dst % PAGE_SIZE = 0 ∧ dst ∉ r.free
  inUse : ∀ f ∈ blocks t, f ∉ r.free ∧ f ≠ dst

/-- The function copies a slot that leads to a tree of height `n`, if the frames suffice. -/
def Copier (n : ℕ) (f : ℕ → ℕ → Ram → Fin 512 → Ram × ℤ) : Prop :=
  ∀ src dst r (i : Fin 512) (t : Tree n), Slot r.mem (r.mem (src + 8 * i)) t → Ready r dst t →
    (need t ≤ r.free.length → (f src dst r i).2 = 0 ∧
      ∃ t' taken, Copied r (f src dst r i).1 (dst + 8 * i) t t' taken) ∧
    (r.free.length < need t → (f src dst r i).2 ≠ 0 ∧
      ∃ lost, Stopped r (f src dst r i).1 (failsClean t r.free.length) lost)

variable {n : ℕ}

/-- A slot without a tree is cleared. -/
lemma copied_absent (r : Ram) (a : ℕ) :
    Copied r (r.set a 0) a (.absent : Tree n) .absent [] := by
  refine ⟨rfl, by simp, by simp, ?_, ?_, fun x hx _ => set_mem_of_ne r 0 hx⟩
  · rw [slot_absent, set_mem_self]
    rfl
  · cases n <;> trivial

variable {r : Ram}

/-- A copy that found no frame at all. -/
lemma stopped_refl {clean : Bool} (hclean : clean = true) : Stopped r r clean [] :=
  ⟨by rw [append_nil], iff_of_true rfl hclean, fun _ _ => rfl⟩

lemma leafDesc_table {pa : ℕ} (flags : ℕ) (hal : pa % PAGE_SIZE = 0) (hlt : pa < 2 ^ 48) :
    leafDesc pa flags &&& PTE_TABLE ≠ 0 := by
  obtain ⟨h3, -, -⟩ := leafAttrs_spec flags
  have hlow : pa &&& 3 = 0 := addr_bits (s := 0) (m := 2) hal hlt (.inl (by decide))
  have ht : PTE_TABLE = 3 &&& 2 := by decide
  rw [leafDesc_eq pa flags hal, ht, ← Nat.and_assoc, Nat.and_or_distrib_right, hlow, h3]
  decide

/-- The pages of level 3. -/
lemma copier_page : Copier 0 copyPage := by
  intro src dst r i t hslot hready
  cases t with
  | absent =>
    rw [slot_absent] at hslot
    rw [copyPage, if_pos hslot]
    refine ⟨fun _ => ⟨rfl, .absent, [], copied_absent r _⟩, fun h => ?_⟩
    rw [need_absent] at h
    exact absurd h (Nat.not_lt_zero _)
  | leaf l =>
    obtain ⟨hd, hal, hlt⟩ := hslot
    obtain ⟨hv, haddr, hflags⟩ := leafDesc_spec l.2 hal hlt
    have ht := leafDesc_table l.2 hal hlt
    have hneed : need (.leaf l : Tree 0) = 1 := rfl
    rw [copyPage, hd]
    simp only [if_neg hv, if_neg ht, haddr, hflags]
    rw [hneed]
    cases hfree : r.free with
    | nil =>
      have halloc : r.pmmAlloc = (r, 0) := by rw [Ram.pmmAlloc, hfree]
      rw [halloc]
      refine ⟨fun h => absurd h (by simp), fun _ => ⟨by simp [VMM_ERR_NOMEM], [], ?_⟩⟩
      exact stopped_refl rfl
    | cons np fs =>
      have halloc : r.pmmAlloc = ({ r with free := fs }, np) := by rw [Ram.pmmAlloc, hfree]
      have hnp : IsTable np := hready.frame np (by rw [hfree]; exact mem_cons_self)
      have hpos := hnp.pos
      rw [halloc]
      simp only [if_neg (show ¬ np = 0 by omega)]
      have hdst : dst ≠ np := by
        rintro rfl
        apply hready.target.2
        rw [hfree]
        exact mem_cons_self
      refine ⟨fun _ => ⟨trivial, .leaf (np, shownFlags l.2), [np], ?_⟩,
        fun h => absurd h (by simp)⟩
      refine ⟨hfree, Perm.refl _, rfl, ?_, ⟨rfl, fun j hj => ?_⟩, fun x hx hnew => ?_⟩
      · rw [set_mem_self]
        exact ⟨rfl, hnp.aligned, hnp.lt⟩
      · -- a byte of the page is not the word of the slot
        have hdown : alignDown (np + j) = np := alignDown_page hnp.aligned (by omega) (by omega)
        rw [set_mem_of_ne]
        · show Mem.copy r.mem np PAGE_SIZE (fun j => r.mem (l.1 + j)) (np + j) = r.mem (l.1 + j)
          exact Mem.copy_add hj
        · intro hc
          rw [hc, alignDown_slot hready.target.1] at hdown
          exact hdst hdown
      · rw [set_mem_of_ne _ _ hx]
        apply if_neg
        intro hin
        rw [mem_singleton] at hnew
        exact hnew (alignDown_page hnp.aligned hin.1 hin.2)

/-! ## The loop over a table -/

/-- The slots `is` of the table `dst` have become copies. -/
structure CopiedRow {n : ℕ} (r r' : Ram) (dst : ℕ) (is : List (Fin 512))
    (kids kids' : Fin 512 → Tree n) (taken : List ℕ) : Prop where
  free : r.free = taken ++ r'.free
  blocks : (is.flatMap fun i => blocks (kids' i)).Perm taken
  count : taken.length = (is.map fun i => need (kids i)).sum
  slots : ∀ i ∈ is, Slot r'.mem (r'.mem (dst + 8 * i)) (kids' i)
  copies : ∀ i ∈ is, CopyOf r.mem r'.mem (kids i) (kids' i)
  outside : ∀ x, (∀ i ∈ is, x ≠ dst + 8 * i) → alignDown x ∉ taken → r'.mem x = r.mem x

/-- The table that a row is copied from, and what surrounds it. -/
structure Row {n : ℕ} (r : Ram) (src dst : ℕ) (is : List (Fin 512)) (kids : Fin 512 → Tree n) :
    Prop where
  nodup : is.Nodup
  source : src % PAGE_SIZE = 0 ∧ src ∉ r.free ∧ src ≠ dst
  target : dst % PAGE_SIZE = 0 ∧ dst ∉ r.free
  free : r.free.Nodup
  frame : ∀ f ∈ r.free, IsTable f
  slots : ∀ i ∈ is, Slot r.mem (r.mem (src + 8 * i)) (kids i)
  inUse : ∀ i ∈ is, ∀ f ∈ blocks (kids i), f ∉ r.free ∧ f ≠ dst

section

variable {n : ℕ} {r r1 r' : Ram} {src dst : ℕ} {is : List (Fin 512)} {i : Fin 512}
  {kids kids' : Fin 512 → Tree n} {t' : Tree n} {taken taken' : List ℕ}

lemma Row.ready (h : Row r src dst (i :: is) kids) : Ready r dst (kids i) :=
  ⟨h.free, h.frame, h.target, h.inUse i mem_cons_self⟩

section

variable (h : Row r src dst (i :: is) kids) (hc : Copied r r1 (dst + 8 * i) (kids i) t' taken)
include h hc

/-- The row that is left after its first slot has been copied. -/
lemma Row.tail : Row r1 src dst is kids := by
  have hnd := h.free
  rw [hc.free] at hnd
  have hsub : ∀ f ∈ r1.free, f ∈ r.free := fun f hf => by
    rw [hc.free]
    exact mem_append_right _ hf
  have htaken : ∀ f ∈ taken, f ∈ r.free := fun f hf => by
    rw [hc.free]
    exact mem_append_left _ hf
  obtain ⟨hsrc, hsrcfree, hne⟩ := h.source
  -- memory of a frame in use that is not the target
  have hsame : ∀ x, alignDown x ∉ r.free → alignDown x ≠ dst → r1.mem x = r.mem x := by
    intro x hx hd
    apply hc.outside x
    · rintro rfl
      exact hd (alignDown_slot h.target.1 i)
    · exact fun hin => hx (htaken _ hin)
  refine ⟨(nodup_cons.mp h.nodup).2, ⟨hsrc, fun hin => hsrcfree (hsub _ hin), hne⟩,
    ⟨h.target.1, fun hin => h.target.2 (hsub _ hin)⟩, (nodup_append.mp hnd).2.1,
    fun f hf => h.frame f (hsub f hf), fun j hj => ?_, fun j hj f hf => ?_⟩
  · have hslot := h.slots j (mem_cons_of_mem _ hj)
    have hdown : alignDown (src + 8 * (j : ℕ)) = src := alignDown_slot hsrc j
    rw [hsame _ (by rwa [hdown]) (by rwa [hdown])]
    apply hslot.congr
    intro x hx
    obtain ⟨hfree, hd⟩ := h.inUse j (mem_cons_of_mem _ hj) _ (block_of_frame hx)
    exact hsame x hfree hd
  · obtain ⟨hfree, hd⟩ := h.inUse j (mem_cons_of_mem _ hj) f hf
    exact ⟨fun hin => hfree (hsub f hin), hd⟩

/-- A copied slot in front of a copied row. -/
lemma CopiedRow.cons (hr : CopiedRow r1 r' dst is kids kids' taken') :
    CopiedRow r r' dst (i :: is) kids (update kids' i t') (taken ++ taken') := by
  obtain ⟨hi, his⟩ := nodup_cons.mp h.nodup
  have hnd := h.free
  rw [hc.free, hr.free] at hnd
  obtain ⟨-, -, hdisj⟩ := nodup_append.mp hnd
  have htaken : ∀ f ∈ taken, f ∈ r.free := fun f hf => by
    rw [hc.free]
    exact mem_append_left _ hf
  have hapart : ∀ f ∈ taken, f ∉ taken' := fun f hf hf' =>
    hdisj f hf f (mem_append_left _ hf') rfl
  have hupd : ∀ j ∈ is, update kids' i t' j = kids' j := by
    intro j hj
    rw [update_of_ne]
    rintro rfl
    exact hi hj
  -- the rest of the row leaves the frames of the first slot alone
  have hkeep : ∀ x, alignDown x ∈ taken → r'.mem x = r1.mem x := by
    intro x hx
    apply hr.outside x
    · rintro j - rfl
      rw [alignDown_slot h.target.1] at hx
      exact h.target.2 (htaken _ hx)
    · exact hapart _ hx
  have hword : r'.mem (dst + 8 * i) = r1.mem (dst + 8 * i) := by
    apply hr.outside
    · intro j hj hc
      apply hi
      have hij : (i : ℕ) = j := by omega
      rw [Fin.ext hij]
      exact hj
    · rw [alignDown_slot h.target.1]
      intro hin
      apply h.target.2
      rw [hc.free, hr.free]
      exact mem_append_right _ (mem_append_left _ hin)
  have hpage : ∀ l ∈ t'.leaves, ∀ j < PAGE_SIZE, alignDown (l.1 + j) ∈ taken := by
    intro l hl j hj
    have hmem := hc.blocks.subset (block_of_leaf hl)
    rwa [alignDown_page (h.frame _ (htaken _ hmem)).aligned (by omega) (by omega)]
  refine ⟨?_, ?_, ?_, fun j hj => ?_, fun j hj => ?_, fun x hx hnew => ?_⟩
  · rw [hc.free, hr.free, append_assoc]
  · rw [flatMap_cons, update_self]
    have hrest : (is.flatMap fun j => Vmm.blocks (update kids' i t' j))
        = is.flatMap fun j => Vmm.blocks (kids' j) :=
      List.flatMap_congr fun j hj => by rw [hupd j hj]
    rw [hrest]
    exact hc.blocks.append hr.blocks
  · rw [length_append, hc.count, hr.count, map_cons, sum_cons]
  · rcases mem_cons.mp hj with rfl | hj
    · rw [update_self, hword]
      apply hc.slot.congr
      intro x hx
      exact hkeep x (hc.blocks.subset (block_of_frame hx))
    · rw [hupd j hj]
      exact hr.slots j hj
  · rcases mem_cons.mp hj with rfl | hj
    · rw [update_self]
      exact hc.copy.congr (fun _ _ _ _ => rfl) fun l hl k hk => hkeep _ (hpage l hl k hk)
    · rw [hupd j hj]
      apply (hr.copies j hj).congr
      · intro l hl k hk
        have hslot := h.slots j (mem_cons_of_mem _ hj)
        obtain ⟨hfree, hd⟩ := h.inUse j (mem_cons_of_mem _ hj) _ (block_of_leaf hl)
        have hdown : alignDown (l.1 + k) = l.1 :=
          alignDown_page (hslot.leaf hl).1 (by omega) (by omega)
        symm
        apply hc.outside
        · intro hc
          rw [hc, alignDown_slot h.target.1] at hdown
          exact hd hdown.symm
        · rw [hdown]
          exact fun hin => hfree (htaken _ hin)
      · exact fun _ _ _ _ => rfl
  · rw [List.mem_append, not_or] at hnew
    rw [hr.outside x (fun j hj => hx j (mem_cons_of_mem _ hj)) hnew.2]
    exact hc.outside x (hx i mem_cons_self) hnew.1

end

end

variable {kids : Fin 512 → Tree n}

variable {f : ℕ → ℕ → Ram → Fin 512 → Ram × ℤ}

/-- The loop over a row: it copies every slot, or it stops at the first for which the frames do
not suffice. -/
lemma overSlots_spec (hf : Copier n f)
    (is : List (Fin 512)) {src dst : ℕ}
    (h : Row r src dst is kids) :
    ((overSlots (f src dst) is r).2 = 0 ∧
        ∃ kids' taken, CopiedRow r (overSlots (f src dst) is r).1 dst is kids kids' taken) ∨
      ((overSlots (f src dst) is r).2 ≠ 0 ∧
        ∃ pre j post rm kids' taken lost, is = pre ++ j :: post ∧
          CopiedRow r rm dst pre kids kids' taken ∧ rm.free.length < need (kids j) ∧
          Stopped rm (overSlots (f src dst) is r).1 (failsClean (kids j) rm.free.length) lost) := by
  induction is generalizing r with
  | nil =>
    refine .inl ⟨rfl, fun _ => .absent, [], rfl, Perm.refl _, rfl, ?_, ?_, fun _ _ _ => rfl⟩
    · exact fun i hi => absurd hi (by simp)
    · exact fun i hi => absurd hi (by simp)
  | cons i is ih =>
    obtain ⟨hok, hfail⟩ := hf src dst r i (kids i) (h.slots i mem_cons_self) h.ready
    rw [overSlots]
    by_cases hroom : need (kids i) ≤ r.free.length
    · obtain ⟨he, t', taken, hc⟩ := hok hroom
      simp only [if_neg (not_not.mpr he)]
      rcases ih (h.tail hc) with ⟨he', kids', taken', hr⟩ |
        ⟨he', pre, j, post, rm, kids', taken', lost, rfl, hr, hshort, hstop⟩
      · exact .inl ⟨he', _, _, .cons h hc hr⟩
      · have hpre : Row r src dst (i :: pre) kids := by
          have hmem : ∀ k ∈ i :: pre, k ∈ i :: (pre ++ j :: post) := by
            intro k hk
            rw [mem_cons, List.mem_append]
            rcases mem_cons.mp hk with rfl | hk
            · exact .inl rfl
            · exact .inr (.inl hk)
          refine ⟨?_, h.source, h.target, h.free, h.frame, fun k hk => h.slots k (hmem k hk),
            fun k hk => h.inUse k (hmem k hk)⟩
          have hnd : ((i :: pre) ++ j :: post).Nodup := h.nodup
          exact (nodup_append.mp hnd).1
        exact .inr ⟨he', i :: pre, j, post, rm, _, _, lost, rfl, .cons hpre hc hr, hshort, hstop⟩
    · obtain ⟨he, lost, hstop⟩ := hfail (by omega)
      simp only [if_pos he]
      refine .inr ⟨he, [], i, is, r, fun _ => .absent, [], lost, rfl, ?_, by omega, hstop⟩
      refine ⟨rfl, Perm.refl _, rfl, ?_, ?_, fun _ _ _ => rfl⟩
      · exact fun i hi => absurd hi (by simp)
      · exact fun i hi => absurd hi (by simp)

/-! ## A table -/

variable {avail : ℕ}

/-- Where a row stops decides whether it fails cleanly. -/
lemma firstClean_split (nd : Fin 512 → ℕ) (clean : Fin 512 → ℕ → Bool) {pre : List (Fin 512)}
    (post : List (Fin 512)) {j : Fin 512} (hpre : (pre.map nd).sum ≤ avail)
    (hj : avail - (pre.map nd).sum < nd j) :
    firstClean nd clean (pre ++ j :: post) avail = true ↔
      (pre.map nd).sum = 0 ∧ clean j avail = true := by
  induction pre with
  | nil =>
    simp only [List.map_nil, List.sum_nil, Nat.sub_zero] at hj
    have hne : nd j ≠ 0 := by omega
    simp [firstClean, hne, hj]
  | cons i pre ih =>
    simp only [map_cons, sum_cons] at hpre hj
    rw [cons_append, firstClean, map_cons, sum_cons]
    by_cases hi : nd i = 0
    · rw [if_pos hi, ih (by omega) (by omega), hi, Nat.zero_add]
    · have hle : ¬ avail < nd i := by omega
      rw [if_neg hi]
      simp only [hle, decide_false, Bool.false_and, Bool.false_eq_true, false_iff]
      omega

/-- From the slots of one level to those of the level above. -/
lemma copier_table (hf : Copier n f) :
    Copier (n + 1) (copyTable fun src dst => overSlots (f src dst) (finRange 512)) := by
  intro src dst r i t hslot hready
  cases t with
  | absent =>
    rw [slot_absent] at hslot
    rw [copyTable, if_pos hslot]
    refine ⟨fun _ => ⟨rfl, .absent, [], copied_absent r _⟩, fun h => ?_⟩
    rw [need_absent] at h
    exact absurd h (Nat.not_lt_zero _)
  | node g kids =>
    obtain ⟨hd, hg, hslots⟩ := hslot
    obtain ⟨hv, ht, hptr⟩ := tableDesc_spec hg
    have hneed := need_node g kids
    rw [copyTable, hd]
    simp only [if_neg hv, if_neg ht, hptr]
    cases hfree : r.free with
    | nil =>
      have halloc : r.pmmAlloc = (r, 0) := by rw [Ram.pmmAlloc, hfree]
      rw [halloc, hneed]
      refine ⟨fun h => ?_, fun _ => ⟨by simp [VMM_ERR_NOMEM], [], stopped_refl rfl⟩⟩
      rw [List.length_nil] at h
      omega
    | cons nt fs =>
      have hnd := hready.nodup
      rw [hfree, nodup_cons] at hnd
      have hin : ∀ h ∈ fs, h ∈ r.free := fun h hh => by
        rw [hfree]
        exact mem_cons_of_mem _ hh
      have hntin : nt ∈ r.free := by
        rw [hfree]
        exact mem_cons_self
      have halloc : r.pmmAlloc = ({ r with free := fs }, nt) := by rw [Ram.pmmAlloc, hfree]
      have hnt : IsTable nt := hready.frame nt hntin
      have hpos := hnt.pos
      rw [halloc]
      simp only [if_neg (show ¬ nt = 0 by omega)]
      have hdst : dst ≠ nt := fun hc => hready.target.2 (hc ▸ hntin)
      have hclear : ∀ x, alignDown x ≠ nt →
          (Ram.zeroPage { r with free := fs } nt).mem x = r.mem x :=
        fun x hx => zeroPage_mem_of_ne hnt.aligned hx
      have hinuse : ∀ h ∈ blocks (.node g kids : Tree (n + 1)), h ∉ fs ∧ h ≠ nt := by
        intro h hh
        have hno := (hready.inUse h hh).1
        exact ⟨fun hc => hno (hin h hc), fun hc => hno (hc ▸ hntin)⟩
      have hgin : g ∈ blocks (.node g kids : Tree (n + 1)) := block_of_frame mem_cons_self
      have hrow : Row (Ram.zeroPage { r with free := fs } nt) g nt (finRange 512) kids := by
        refine ⟨List.nodup_finRange 512, ⟨hg.aligned, hinuse g hgin⟩, ⟨hnt.aligned, hnd.1⟩, hnd.2,
          fun h hh => hready.frame h (hin h hh), fun j _ => ?_,
          fun j _ h hh => hinuse h (block_of_kid hh)⟩
        have hdown : alignDown (g + 8 * (j : ℕ)) = g := alignDown_slot hg.aligned j
        rw [hclear _ (by rw [hdown]; exact (hinuse g hgin).2)]
        apply (hslots j).congr
        intro x hx
        exact hclear x (hinuse _ (block_of_kid (block_of_frame hx))).2
      have hfree1 : (Ram.zeroPage { r with free := fs } nt).free = fs := rfl
      generalize hr1 : Ram.zeroPage { r with free := fs } nt = r1 at hclear hrow hfree1 ⊢
      rcases overSlots_spec hf (finRange 512) hrow with ⟨he, kids', taken, hr⟩ |
        ⟨he, pre, j, post, rm, kids', taken, lost, hsplit, hr, hshort, hstop⟩
      · generalize overSlots (f g nt) (finRange 512) r1 = out at he hr ⊢
        obtain ⟨r2, e⟩ := out
        subst he
        have hfs : fs = taken ++ r2.free := hfree1.symm.trans hr.free
        have htaken : ∀ h ∈ taken, h ∈ r.free := fun h hh => by
          rw [hfree, hfs]
          exact mem_cons_of_mem _ (mem_append_left _ hh)
        have hroom : need (.node g kids : Tree (n + 1)) ≤ (nt :: fs).length := by
          rw [hneed, length_cons, hfs, length_append, hr.count]
          omega
        refine ⟨fun _ => ?_, fun h => absurd h (by omega)⟩
        simp only [ne_eq, not_true_eq_false, if_false, true_and]
        refine ⟨.node nt kids', nt :: taken, ?_, ?_, ?_, ?_, fun j => ?_, fun x hx hnew => ?_⟩
        · rw [hfree, hfs]
          rfl
        · exact (blocks_node nt kids').trans (hr.blocks.cons nt)
        · rw [length_cons, hr.count, hneed, Nat.add_comm]
        · rw [set_mem_self]
          refine ⟨rfl, hnt, fun j => ?_⟩
          -- the word of the slot is neither in the new table nor below it
          have hkeep : ∀ x, alignDown x ≠ dst → (r2.set (dst + 8 * i) (tableDesc nt)).mem x
              = r2.mem x := by
            intro x hx
            apply set_mem_of_ne
            rintro rfl
            exact hx (alignDown_slot hready.target.1 i)
          have hdown : alignDown (nt + 8 * (j : ℕ)) = nt := alignDown_slot hnt.aligned j
          rw [hkeep _ (by rw [hdown]; exact hdst.symm)]
          apply (hr.slots j (mem_finRange j)).congr
          intro x hx
          apply hkeep
          intro hc
          have hmem : alignDown x ∈ taken := hr.blocks.subset
            (mem_flatMap.mpr ⟨j, mem_finRange j, block_of_frame hx⟩)
          exact hready.target.2 (hc ▸ htaken _ hmem)
        · apply (hr.copies j (mem_finRange j)).congr
          · intro l hl k hk
            have hal := ((hslots j).leaf hl).1
            have hdown : alignDown (l.1 + k) = l.1 := alignDown_page hal (by omega) (by omega)
            symm
            apply hclear
            rw [hdown]
            exact (hinuse _ (block_of_kid (block_of_leaf hl))).2
          · intro l hl k hk
            have hmem : l.1 ∈ taken := hr.blocks.subset
              (mem_flatMap.mpr ⟨j, mem_finRange j, block_of_leaf hl⟩)
            have hdown : alignDown (l.1 + k) = l.1 :=
              alignDown_page (hready.frame _ (htaken _ hmem)).aligned (by omega) (by omega)
            apply set_mem_of_ne
            intro hc
            rw [hc, alignDown_slot hready.target.1] at hdown
            exact hready.target.2 (hdown ▸ htaken _ hmem)
        · rw [mem_cons, not_or] at hnew
          rw [set_mem_of_ne _ _ hx, hr.outside x ?_ hnew.2]
          · exact hclear x hnew.1
          · rintro j - rfl
            exact hnew.1 (alignDown_slot hnt.aligned j)
      · -- the tables that are open come back, what they hold does not
        generalize overSlots (f g nt) (finRange 512) r1 = out at he hstop ⊢
        obtain ⟨r2, e⟩ := out
        have hfs : fs = taken ++ rm.free := hfree1.symm.trans hr.free
        have hcount := hr.count
        have hsum : ((finRange 512).map fun i => need (kids i)).sum
            = (pre.map fun i => need (kids i)).sum + need (kids j)
              + (post.map fun i => need (kids i)).sum := by
          rw [hsplit, List.map_append, List.sum_append, map_cons, sum_cons]
          omega
        have hshort' : (nt :: fs).length < need (.node g kids : Tree (n + 1)) := by
          rw [hneed, hsum, length_cons, hfs, length_append]
          omega
        refine ⟨fun h => absurd h (by omega), fun _ => ⟨by rwa [if_pos he], lost ++ taken, ?_⟩⟩
        rw [if_pos he]
        refine ⟨?_, ?_, fun x hx => ?_⟩
        · rw [hfree, hfs, Ram.pmmFree, cons_append, ← append_assoc]
          apply Perm.cons
          exact (hstop.free.append_right taken).trans List.perm_append_comm
        · have hlen : fs.length = taken.length + rm.free.length := by
            rw [hfs, length_append]
          have hclean : firstClean (fun i => need (kids i)) (fun i => failsClean (kids i))
              (finRange 512) fs.length = true ↔ (pre.map fun i => need (kids i)).sum = 0 ∧
                failsClean (kids j) fs.length = true := by
            rw [hsplit]
            exact firstClean_split _ _ post (by omega) (by omega)
          rw [List.append_eq_nil_iff, hstop.clean, failsClean]
          simp only [length_cons, Nat.add_sub_cancel, Bool.or_eq_true, beq_iff_eq,
            Nat.add_eq_zero_iff, Nat.one_ne_zero, and_false, false_or]
          rw [hclean, ← hcount, ← List.length_eq_zero_iff, and_comm]
          constructor
          · rintro ⟨hnil, hc⟩
            exact ⟨hnil, by rw [hlen, hnil, Nat.zero_add]; exact hc⟩
          · rintro ⟨hnil, hc⟩
            refine ⟨hnil, ?_⟩
            rwa [hlen, hnil, Nat.zero_add] at hc
        · have hx' : alignDown x ∉ nt :: (taken ++ rm.free) := by rwa [hfree, hfs] at hx
          rw [mem_cons, List.mem_append, not_or, not_or] at hx'
          show r2.mem x = r.mem x
          rw [hstop.outside x hx'.2.2, hr.outside x ?_ hx'.2.1]
          · exact hclear x hx'.1
          · rintro k - rfl
            exact hx'.1 (alignDown_slot hnt.aligned k)

/-- The slots of level `3 - k`. -/
lemma copier_level (k : ℕ) : Copier (k + 1) (copyTable (copyLevel k)) := by
  induction k with
  | zero =>
    have hlevel : copyLevel 0
        = fun src dst => overSlots (copyPage src dst) (finRange 512) := by
      funext src dst
      rw [copyLevel]
    rw [hlevel]
    exact copier_table copier_page
  | succ k ih =>
    have hlevel : copyLevel (k + 1)
        = fun src dst => overSlots (copyTable (copyLevel k) src dst) (finRange 512) := by
      funext src dst
      rw [copyLevel]
    rw [hlevel]
    exact copier_table ih

/-! ## Releasing -/

/-- The function gives back what a slot leads to and touches no memory. -/
def Releaser (n : ℕ) (f : ℕ → Ram → Fin 512 → Ram) : Prop :=
  ∀ t r (i : Fin 512) (tr : Tree n), Slot r.mem (r.mem (t + 8 * i)) tr →
    (f t r i).mem = r.mem ∧ (f t r i).free.Perm (blocks tr ++ r.free)

/-- The pages of level 3. -/
lemma releaser_page : Releaser 0 (freeSlot none) := by
  intro t r i tr hslot
  cases tr with
  | absent =>
    rw [slot_absent] at hslot
    rw [freeSlot, if_pos hslot, blocks_absent]
    exact ⟨rfl, Perm.refl _⟩
  | leaf l =>
    obtain ⟨hd, hal, hlt⟩ := hslot
    obtain ⟨hv, haddr, -⟩ := leafDesc_spec l.2 hal hlt
    rw [freeSlot, hd]
    simp only [if_neg hv, haddr]
    exact ⟨rfl, Perm.refl _⟩

section

variable {f : ℕ → Ram → Fin 512 → Ram} (hf : Releaser n f)
include hf

/-- The loop over the slots of a table. -/
lemma foldl_releaser (t : ℕ)
    (is : List (Fin 512))
    (h : ∀ i ∈ is, Slot r.mem (r.mem (t + 8 * i)) (kids i)) :
    (is.foldl (f t) r).mem = r.mem ∧
      (is.foldl (f t) r).free.Perm ((is.flatMap fun i => blocks (kids i)) ++ r.free) := by
  induction is generalizing r with
  | nil => exact ⟨rfl, Perm.refl _⟩
  | cons i is ih =>
    obtain ⟨hmem, hfree⟩ := hf t r i (kids i) (h i mem_cons_self)
    obtain ⟨hmem', hfree'⟩ := ih (r := f t r i) fun j hj => by
      rw [hmem]
      exact h j (mem_cons_of_mem _ hj)
    rw [List.foldl_cons, flatMap_cons, append_assoc]
    refine ⟨hmem'.trans hmem, (hfree'.trans (hfree.append_left _)).trans ?_⟩
    rw [← append_assoc, ← append_assoc]
    exact List.perm_append_comm.append_right _

/-- A table is given back after what it holds. -/
lemma freeTable {g : ℕ} (h : ∀ i : Fin 512, Slot r.mem (r.mem (g + 8 * i)) (kids i)) :
    (((finRange 512).foldl (f g) r).pmmFree g).mem = r.mem ∧
      (((finRange 512).foldl (f g) r).pmmFree g).free.Perm
        (blocks (.node g kids) ++ r.free) := by
  obtain ⟨hmem, hfree⟩ := foldl_releaser hf g (finRange 512) fun i _ => h i
  generalize (finRange 512).foldl (f g) r = r1 at hmem hfree ⊢
  exact ⟨hmem, (hfree.cons g).trans ((blocks_node g kids).symm.append_right _)⟩

/-- From the slots of one level to those of the level above. -/
lemma releaser_table :
    Releaser (n + 1) (freeSlot (some fun g r =>
      ((finRange 512).foldl (f g) r).pmmFree g)) := by
  intro t r i tr hslot
  cases tr with
  | absent =>
    rw [slot_absent] at hslot
    rw [freeSlot, if_pos hslot, blocks_absent]
    exact ⟨rfl, Perm.refl _⟩
  | node g kids =>
    obtain ⟨hd, hg, hslots⟩ := hslot
    obtain ⟨hv, ht, hptr⟩ := tableDesc_spec hg
    rw [freeSlot, hd]
    simp only [if_neg hv, if_pos ht, hptr]
    exact freeTable hf hslots

end

/-- The slots of level `3 - (k + 1)`. -/
lemma releaser_level (k : ℕ) : Releaser (k + 1) (freeSlot (some (freeSubtree k))) := by
  induction k with
  | zero =>
    have hlevel : freeSubtree 0
        = fun g r => ((finRange 512).foldl (freeSlot none g) r).pmmFree g := by
      funext g r
      rw [freeSubtree]
    rw [hlevel]
    exact releaser_table releaser_page
  | succ k ih =>
    have hlevel : freeSubtree (k + 1) = fun g r =>
        ((finRange 512).foldl (freeSlot (some (freeSubtree k)) g) r).pmmFree g := by
      funext g r
      rw [freeSubtree]
    rw [hlevel]
    exact releaser_table ih

lemma nodup_rootSlots (lo hi : ℕ) : (rootSlots lo hi).Nodup :=
  (List.nodup_finRange 512).filter _

/-- A release gives back the trees of the slots and nothing else. -/
lemma vmmRootRelease_spec {root lo hi : ℕ} {kids : Fin 512 → Tree 3} (hlo : 1 ≤ lo)
    (hal : root % PAGE_SIZE = 0)
    (h : ∀ i ∈ rootSlots lo hi, Slot r.mem (r.mem (root + 8 * i)) (kids i))
    (hroot : ∀ i ∈ rootSlots lo hi, root ∉ (kids i).frames) :
    (vmmRootRelease r root lo hi).free.Perm
      (((rootSlots lo hi).flatMap fun i => blocks (kids i)) ++ r.free) := by
  have hnd := nodup_rootSlots lo hi
  rw [vmmRootRelease, if_neg (by omega)]
  generalize rootSlots lo hi = is at h hroot hnd ⊢
  induction is generalizing r with
  | nil => exact Perm.refl _
  | cons i is ih =>
    obtain ⟨hi, hnd⟩ := nodup_cons.mp hnd
    have hslot := h i mem_cons_self
    rw [List.foldl_cons, flatMap_cons, append_assoc]
    by_cases hv : r.mem (root + 8 * i) &&& PTE_VALID = 0
    · -- an empty slot leads to no tree
      have hkid : kids i = .absent := by
        cases hk : kids i with
        | absent => rfl
        | node g kk =>
          rw [hk] at hslot
          rw [hslot.1] at hv
          exact absurd hv (tableDesc_spec hslot.2.1).1
      rw [if_pos hv, hkid, blocks_absent]
      exact ih (fun j hj => h j (mem_cons_of_mem _ hj))
        (fun j hj => hroot j (mem_cons_of_mem _ hj)) hnd
    · rw [if_neg hv]
      obtain ⟨hmem, hfree⟩ := releaser_level 2 root r i (kids i) hslot
      generalize freeSlot (some (freeSubtree 2)) root r i = r1 at hmem hfree ⊢
      refine (ih (r := r1.set (root + 8 * i) 0) (fun j hj => ?_)
        (fun j hj => hroot j (mem_cons_of_mem _ hj)) hnd).trans ?_
      · -- the word that is cleared belongs to no other slot and to no table below
        have hne : root + 8 * (j : ℕ) ≠ root + 8 * i := by
          intro hc
          apply hi
          have hij : (i : ℕ) = j := by omega
          rw [Fin.ext hij]
          exact hj
        rw [set_mem_of_ne _ _ hne, hmem]
        apply (h j (mem_cons_of_mem _ hj)).congr
        intro x hx
        rw [set_mem_of_ne, hmem]
        rintro rfl
        rw [alignDown_slot hal] at hx
        exact hroot j (mem_cons_of_mem _ hj) hx
      · refine (hfree.append_left _).trans ?_
        rw [← append_assoc, ← append_assoc]
        exact List.perm_append_comm.append_right _

/-! ## The whole copy -/

/-- Slots that all fit leave the question to those after them. -/
lemma stopsClean_append (kids : Fin 512 → Tree 3) {pre : List (Fin 512)} (post : List (Fin 512)) (h : (pre.map fun i => need (kids i)).sum ≤ avail) :
    stopsClean kids (pre ++ post) avail
      = stopsClean kids post (avail - (pre.map fun i => need (kids i)).sum) := by
  induction pre generalizing avail with
  | nil => rfl
  | cons i pre ih =>
    rw [map_cons, sum_cons] at h ⊢
    rw [cons_append, stopsClean, if_pos (by omega), ih (by omega), Nat.sub_sub]

section

variable {r r' rm : Ram} {dst src lo hi : ℕ} {kids kids' : Fin 512 → Tree 3} {taken lost : List ℕ}

lemma mem_rootSlots {i : Fin 512} : i ∈ rootSlots lo hi ↔ lo ≤ i.val ∧ i.val < hi := by
  simp [rootSlots]

lemma InSlots.mem {va : ℕ} (h : InSlots lo hi va) : ix 0 va ∈ rootSlots lo hi :=
  mem_rootSlots.mpr h.2

lemma Source.row (h : Source r dst src lo hi kids) : Row r src dst (rootSlots lo hi) kids :=
  ⟨nodup_rootSlots lo hi, ⟨h.srcTable.aligned, h.used.1, h.apart⟩,
    ⟨h.dstTable.aligned, h.used.2⟩, h.nodup, h.frame, h.slots, h.inUse⟩

/-- What a probe of an address in the slots says of a tree below the root. -/
lemma probe_slots {mem : Mem} {root va : ℕ}
    (hslots : ∀ i ∈ rootSlots lo hi, Slot mem (mem (root + 8 * i)) (kids i))
    (hva : InSlots lo hi va) :
    vmmProbe mem root va = ((kids (ix 0 va)).lookup (path va 2)).map fun m =>
      (m.1 + va % PAGE_SIZE, shownFlags m.2) :=
  probeFrom_spec 3 root kids (hslots _ hva.mem)

/-- The memory of what was in use is the same after slots have been copied. -/
lemma CopiedRow.source {is : List (Fin 512)} (h : CopiedRow r r' dst is kids kids' taken)
    (hdst : dst % PAGE_SIZE = 0) {a : ℕ} (ha : alignDown a ∉ r.free) (hne : alignDown a ≠ dst) :
    r'.mem a = r.mem a := by
  apply h.outside
  · rintro i - rfl
    exact hne (alignDown_slot hdst i)
  · intro hin
    apply ha
    rw [h.free]
    exact mem_append_left _ hin

section

variable (h : Source r dst src lo hi kids)
include h

/-- A copy that went through mirrors the source. -/
lemma mirrors_of_copied
    (hc : CopiedRow r r' dst (rootSlots lo hi) kids kids' taken) : Mirrors r r' dst src lo hi := by
  have hnd := h.nodup
  rw [hc.free] at hnd
  have hblocks := hc.blocks.nodup_iff.mpr (nodup_append.mp hnd).1
  -- the page of a copied leaf was free
  have hpage : ∀ i ∈ rootSlots lo hi, ∀ l ∈ (kids' i).leaves, l.1 ∈ r.free := by
    intro i hi l hl
    rw [hc.free]
    exact mem_append_left _ (hc.blocks.subset (mem_flatMap.mpr ⟨i, hi, block_of_leaf hl⟩))
  have hdown : ∀ {l va : ℕ}, l % PAGE_SIZE = 0 → alignDown (l + va % PAGE_SIZE) = l := by
    intro l va hal
    have hmod : va % PAGE_SIZE < PAGE_SIZE := Nat.mod_lt _ (by decide)
    exact alignDown_page hal (by omega) (by omega)
  refine ⟨fun va hva => ?_, fun va hva pa fl hpa => ?_, fun va va' hva hva' m m' hm hm' heq => ?_⟩
  · rw [probe_slots hc.slots hva, probe_slots h.slots hva, Option.map_eq_none_iff,
      Option.map_eq_none_iff]
    rcases (hc.copies _ hva.mem).lookup (path va 2) with ⟨hs, hd⟩ |
      ⟨l, l', hs, hd, -⟩
    · rw [hs, hd]
    · rw [hs, hd]
      simp
  · have hin := hva.mem
    rw [probe_slots h.slots hva] at hpa
    rcases (hc.copies _ hin).lookup (path va 2) with ⟨hs, -⟩ | ⟨l, l', hs, hd, hfl, hbytes⟩
    · rw [hs] at hpa
      exact absurd hpa (by simp)
    · rw [hs] at hpa
      obtain ⟨rfl, rfl⟩ := Prod.mk.inj (Option.some.inj hpa)
      have hl := Radix.mem_leaves_of_lookup hs
      have hl' := Radix.mem_leaves_of_lookup hd
      refine ⟨l'.1 + va % PAGE_SIZE, ?_, hbytes _ (Nat.mod_lt _ (by decide)), ?_, ?_⟩
      · rw [probe_slots hc.slots hva, hd, Option.map_some, hfl, shownFlags_idem]
      · rw [hdown ((hc.slots _ hin).leaf hl').1]
        exact hpage _ hin l' hl'
      · rw [hdown ((h.slots _ hin).leaf hl).1]
        exact (h.inUse _ hin _ (block_of_leaf hl)).1
  · have hin := hva.mem
    have hin' := hva'.mem
    rw [probe_slots hc.slots hva, Option.map_eq_some_iff] at hm
    rw [probe_slots hc.slots hva', Option.map_eq_some_iff] at hm'
    obtain ⟨l, hl, rfl⟩ := hm
    obtain ⟨l', hl', rfl⟩ := hm'
    have hleaf := Radix.mem_leaves_of_lookup hl
    have hleaf' := Radix.mem_leaves_of_lookup hl'
    rw [hdown ((hc.slots _ hin).leaf hleaf).1, hdown ((hc.slots _ hin').leaf hleaf').1] at heq
    rw [← path_eq_iff hva.1.2 hva'.1.2]
    -- the two leaves are in one slot of the root, and there on one path
    by_cases hix : ix 0 va = ix 0 va'
    · rw [← hix] at hl'
      obtain ⟨rest, hsplit, -⟩ := Radix.flatMap_split (nodup_rootSlots lo hi) hin
        fun i => blocks (kids' i)
      have hkid := (nodup_append.mp ((hsplit _ fun _ _ => rfl).nodup_iff.mp hblocks)).1
      have hpath := Radix.path_of_leaf Prod.fst (nodup_append.mp hkid).2.1 hl hl' heq
      show ix 0 va :: path va 2 = ix 0 va' :: path va' 2
      rw [hix, hpath]
    · have hmem := block_of_leaf hleaf
      rw [heq] at hmem
      exact absurd (block_of_leaf hleaf') (Radix.flatMap_disjoint (nodup_rootSlots lo hi) hblocks
        hin hin' hix hmem)

/-- What a release finds after a copy that stopped: the slots that went through. -/
lemma release_stopped {pre post : List (Fin 512)} {j : Fin 512}
    {clean : Bool} (hsplit : rootSlots lo hi = pre ++ j :: post)
    (hc : CopiedRow r rm dst pre kids kids' taken) (hstop : Stopped rm r' clean lost) :
    (vmmRootRelease r' dst lo hi).free.Perm r.free ↔ clean = true := by
  have hdst := h.dstTable.aligned
  have hnd := nodup_rootSlots lo hi
  rw [hsplit] at hnd
  obtain ⟨-, -, hdisj⟩ := nodup_append.mp hnd
  have htaken : ∀ f ∈ taken, f ∈ r.free := fun f hf => by
    rw [hc.free]
    exact mem_append_left _ hf
  have hfreeNd := h.nodup
  rw [hc.free] at hfreeNd
  -- what was made and what was in use is as it was when the copy stopped
  have hkeep : ∀ x, alignDown x ∉ r.free ∨ alignDown x ∈ taken → r'.mem x = rm.mem x := by
    intro x hx
    apply hstop.outside
    intro hin
    rcases hx with hx | hx
    · apply hx
      rw [hc.free]
      exact mem_append_right _ hin
    · exact (nodup_append.mp hfreeNd).2.2 _ hx _ hin rfl
  have hword : ∀ i : Fin 512, r'.mem (dst + 8 * i) = rm.mem (dst + 8 * i) := by
    intro i
    apply hkeep
    rw [alignDown_slot hdst]
    exact .inl h.used.2
  let made : Fin 512 → Tree 3 := fun i => if i ∈ pre then kids' i else .absent
  have hframes : ∀ i ∈ pre, ∀ f ∈ (kids' i).frames, f ∈ taken := fun i hi f hf =>
    hc.blocks.subset (mem_flatMap.mpr ⟨i, hi, block_of_frame hf⟩)
  have hslots : ∀ i ∈ rootSlots lo hi, Slot r'.mem (r'.mem (dst + 8 * i)) (made i) := by
    intro i hi
    rw [hword]
    by_cases hin : i ∈ pre
    · simp only [made, if_pos hin]
      apply (hc.slots i hin).congr
      exact fun x hx => hkeep x (.inr (hframes i hin _ hx))
    · simp only [made, if_neg hin, slot_absent]
      rw [hc.outside]
      · exact h.empty i hi
      · intro k hk hc
        have hik : (i : ℕ) = k := by omega
        rw [Fin.ext hik] at hin
        exact hin hk
      · rw [alignDown_slot hdst]
        exact fun hc => h.used.2 (htaken _ hc)
  have hroot : ∀ i ∈ rootSlots lo hi, dst ∉ (made i).frames := by
    intro i _
    by_cases hin : i ∈ pre
    · simp only [made, if_pos hin]
      exact fun hc => h.used.2 (htaken _ (hframes i hin _ hc))
    · simp only [made, if_neg hin, Radix.frames_absent, List.not_mem_nil, not_false_eq_true]
  have hmade : ((rootSlots lo hi).flatMap fun i => blocks (made i))
      = pre.flatMap fun i => blocks (kids' i) := by
    rw [hsplit, List.flatMap_append]
    have hpre : (pre.flatMap fun i => blocks (made i)) = pre.flatMap fun i => blocks (kids' i) :=
      List.flatMap_congr fun i hi => by simp only [made, if_pos hi]
    have hpost : ((j :: post).flatMap fun i => blocks (made i)) = [] := by
      rw [List.flatMap_eq_nil_iff]
      intro i hi
      have hin : i ∉ pre := fun hc => hdisj i hc i hi rfl
      simp only [made, if_neg hin, blocks_absent]
    rw [hpre, hpost, append_nil]
  have hrel := vmmRootRelease_spec h.user hdst hslots hroot
  rw [hmade] at hrel
  have hfree := hrel.trans (hc.blocks.append_right _)
  have hall : r.free.Perm (taken ++ r'.free ++ lost) := by
    rw [hc.free, append_assoc]
    exact hstop.free.symm.append_left taken
  rw [← hstop.clean]
  constructor
  · intro hperm
    have hlen := (hfree.symm.trans hperm).trans hall |>.length_eq
    simp only [length_append] at hlen
    exact List.length_eq_zero_iff.mp (by omega)
  · rintro rfl
    rw [append_nil] at hall
    exact hfree.trans hall.symm

lemma vmmCopySpace_fits
    (hroom : ((rootSlots lo hi).map fun i => need (kids i)).sum ≤ r.free.length) :
    (vmmCopySpace r dst src lo hi).2 = 0 ∧ ∃ kids' taken,
      CopiedRow r (vmmCopySpace r dst src lo hi).1 dst (rootSlots lo hi) kids kids' taken := by
  rcases overSlots_spec (copier_level 2) (rootSlots lo hi) h.row with hok |
    ⟨-, pre, j, post, rm, kids', taken, lost, hsplit, hc, hshort, -⟩
  · exact hok
  · have hcount := hc.count
    have hfree := congrArg List.length hc.free
    rw [hsplit, List.map_append, List.sum_append, map_cons, sum_cons] at hroom
    rw [length_append] at hfree
    omega

/-- A copy that runs out of frames. -/
lemma vmmCopySpace_short
    (hshort : r.free.length < ((rootSlots lo hi).map fun i => need (kids i)).sum) :
    (vmmCopySpace r dst src lo hi).2 ≠ 0 ∧
      (∀ a, alignDown a ∉ r.free → alignDown a ≠ dst →
        (vmmCopySpace r dst src lo hi).1.mem a = r.mem a) ∧
      ((vmmRootRelease (vmmCopySpace r dst src lo hi).1 dst lo hi).free.Perm r.free ↔
        stopsClean kids (rootSlots lo hi) r.free.length = true) := by
  rcases overSlots_spec (copier_level 2) (rootSlots lo hi) h.row with ⟨-, kids', taken, hc⟩ |
    ⟨he, pre, j, post, rm, kids', taken, lost, hsplit, hc, hj, hstop⟩
  · have hcount := hc.count
    have hfree := congrArg List.length hc.free
    rw [length_append] at hfree
    omega
  · have hlen : r.free.length = (pre.map fun i => need (kids i)).sum + rm.free.length := by
      rw [hc.free, length_append, hc.count]
    have hat : stopsClean kids (rootSlots lo hi) r.free.length
        = failsClean (kids j) rm.free.length := by
      rw [hsplit, stopsClean_append kids _ (by omega), stopsClean, hlen, Nat.add_sub_cancel_left,
        if_neg (by omega)]
    refine ⟨he, fun a ha hne => ?_, ?_⟩
    · rw [vmmCopySpace, hstop.outside, hc.source h.dstTable.aligned ha hne]
      intro hin
      apply ha
      rw [hc.free]
      exact mem_append_right _ hin
    · rw [hat]
      exact release_stopped h hsplit hc hstop

end

end

/-- A copy keeps its law when the frames suffice, or when it runs out of them before a table or
page has gone into a table that is still open. -/
theorem vmmCopySpace_lawful_iff (r : Ram) (dst src lo hi : ℕ) (kids : Fin 512 → Tree 3)
    (h : Source r dst src lo hi kids) :
    CopyLaw r (vmmCopySpace r dst src lo hi).1 (vmmCopySpace r dst src lo hi).2 dst src lo hi ↔
      stopsClean kids (rootSlots lo hi) r.free.length = true := by
  by_cases hroom : ((rootSlots lo hi).map fun i => need (kids i)).sum ≤ r.free.length
  · obtain ⟨he, kids', taken, hc⟩ := vmmCopySpace_fits h hroom
    have hall := stopsClean_append kids [] hroom
    rw [append_nil] at hall
    rw [hall]
    exact iff_of_true ⟨fun a ha hne => hc.source h.dstTable.aligned ha hne,
      fun _ => mirrors_of_copied h hc, fun hne => absurd he hne⟩ rfl
  · obtain ⟨he, hsource, hrel⟩ := vmmCopySpace_short h (by omega)
    rw [← hrel]
    exact ⟨fun hlaw => hlaw.failure he,
      fun hfree => ⟨hsource, fun hz => absurd hz he, fun _ => hfree⟩⟩

/-! A source with two pages in one table, and `n` free frames. -/

/-- A row of slots of which one leads somewhere. -/
def only {n : ℕ} (i : Fin 512) (t : Tree n) : Fin 512 → Tree n :=
  update (fun _ => .absent) i t

def twoPages : Tree 1 :=
  .node 0x4000 (update (only 0 (.leaf (0x5000, VM_USER))) 1 (.leaf (0x6000, VM_USER)))

def twoPagesKids : Fin 512 → Tree 3 :=
  only 2 (.node 0x2000 (only 0 (.node 0x3000 (only 0 twoPages))))

def twoPagesRam (n : ℕ) : Ram :=
  ⟨fun a => if a = 0x1010 then tableDesc 0x2000 else if a = 0x2000 then tableDesc 0x3000
    else if a = 0x3000 then tableDesc 0x4000 else if a = 0x4000 then leafDesc 0x5000 VM_USER
    else if a = 0x4008 then leafDesc 0x6000 VM_USER else 0,
    (List.range n).map fun i => 0x50000000 + i * PAGE_SIZE⟩

variable {f : ℕ}

variable {i : Fin 512} {t : Tree n}

lemma slot_only {mem : Mem} (hf : IsTable f)
    (ht : Slot mem (mem (f + 8 * i)) t) (h0 : ∀ j : Fin 512, j ≠ i → mem (f + 8 * j) = 0) :
    Slot mem (tableDesc f) (.node f (only i t)) := by
  refine ⟨rfl, hf, fun j => ?_⟩
  by_cases hj : j = i
  · subst hj
    rwa [only, update_self]
  · rw [only, update_of_ne hj, h0 j hj, slot_absent]
    rfl

/-- What one slot adds to the blocks of its table. -/
lemma need_update (f : ℕ) (kids : Fin 512 → Tree n) (i : Fin 512) (t : Tree n) :
    need (.node f (update kids i t)) + need (kids i) = need (.node f kids) + need t := by
  obtain ⟨rest, hsplit, -⟩ := Radix.flatMap_split (List.nodup_finRange 512) (mem_finRange i)
    fun j => blocks (kids j)
  have hold := (hsplit _ fun _ _ => rfl).length_eq
  have hnew := (hsplit (fun j => blocks (update kids i t j)) fun j hj => by
    rw [update_of_ne hj]).length_eq
  simp only [update_self, length_append, List.length_flatMap] at hold hnew
  rw [need_node, need_node]
  simp only [need]
  omega

lemma need_only (f : ℕ) (i : Fin 512) (t : Tree n) :
    need (.node f (only i t)) = 1 + need t := by
  have h := need_update f (fun _ => .absent) i t
  have hempty : need (.node f fun _ => .absent : Tree (n + 1)) = 1 := by
    have hsum : ∀ is : List (Fin 512),
        (is.map fun _ => need (.absent : Tree n)).sum = 0 := by
      intro is
      induction is with
      | nil => rfl
      | cons j is ih => rw [map_cons, sum_cons, ih, need_absent]
    rw [need_node, hsum]
  rw [hempty, need_absent] at h
  exact h

lemma only_self (i : Fin 512) (t : Tree n) : only i t i = t := update_self _ _ _

lemma need_twoPages : need twoPages = 3 := by
  have hleaf : ∀ l : ℕ × ℕ, need (.leaf l : Tree 0) = 1 := fun _ => rfl
  have h := need_update 0x4000 (only 0 (.leaf (0x5000, VM_USER) : Tree 0)) 1
    (.leaf (0x6000, VM_USER))
  have hempty : only 0 (.leaf (0x5000, VM_USER) : Tree 0) 1 = .absent :=
    update_of_ne (by decide) _ _
  rw [need_only, hempty, need_absent, hleaf, hleaf] at h
  rw [twoPages, ← Nat.add_zero (need _), h]

lemma need_twoPagesKids : need (twoPagesKids 2) = 5 := by
  rw [twoPagesKids, only_self, need_only, need_only, need_twoPages]

lemma mem_blocks_update {g : ℕ}
    (h : f ∈ blocks (.node g (update kids i t))) :
    f ∈ blocks t ∨ f ∈ blocks (.node g kids) := by
  rw [(blocks_node g _).mem_iff, mem_cons, mem_flatMap] at h
  rcases h with rfl | ⟨j, -, hj⟩
  · exact .inr (block_of_frame mem_cons_self)
  · by_cases hji : j = i
    · rw [hji, update_self] at hj
      exact .inl hj
    · rw [update_of_ne hji] at hj
      exact .inr (block_of_kid hj)

lemma mem_blocks_only {g : ℕ}
    (h : f ∈ blocks (.node g (only i t))) : f ∈ blocks t ∨ f = g := by
  refine (mem_blocks_update h).imp_right fun hnode => ?_
  rw [(blocks_node g _).mem_iff, mem_cons, mem_flatMap] at hnode
  rcases hnode with rfl | ⟨j, -, hj⟩
  · rfl
  · rw [blocks_absent] at hj
    exact absurd hj List.not_mem_nil

lemma source_twoPages (hn : n ≤ 65536) :
    Source (twoPagesRam n) 0x8000 0x1000 2 6 twoPagesKids := by
  have hfree := freeOk_row hn
  have hlow : ∀ f < 0x50000000, f ∉ (twoPagesRam n).free := by
    intro f hf hc
    obtain ⟨i, -, hi⟩ := List.mem_map.mp hc
    omega
  -- the tables hold zero outside the slots in use
  have hmem : ∀ a, a ≠ 0x1010 → a ≠ 0x2000 → a ≠ 0x3000 → a ≠ 0x4000 → a ≠ 0x4008 →
      (twoPagesRam n).mem a = 0 := by
    intro a h1 h2 h3 h4 h5
    simp only [twoPagesRam, if_neg h1, if_neg h2, if_neg h3, if_neg h4, if_neg h5]
  have h3 : IsTable 0x4000 := ⟨by decide, by decide, by decide⟩
  have hpages : Slot (twoPagesRam n).mem (tableDesc 0x4000) twoPages := by
    refine ⟨rfl, h3, fun j => ?_⟩
    by_cases h1 : j = 1
    · subst h1
      rw [update_self]
      exact ⟨rfl, by decide, by decide⟩
    · rw [update_of_ne h1, only]
      by_cases h0 : j = 0
      · subst h0
        rw [update_self]
        exact ⟨rfl, by decide, by decide⟩
      · have hv1 : (j : ℕ) ≠ 1 := fun hc => h1 (Fin.ext hc)
        rw [update_of_ne h0, hmem _ (by omega) (by omega) (by omega) (by omega) (by omega),
          slot_absent]
        rfl
  have hkid : Slot (twoPagesRam n).mem (tableDesc 0x2000) (twoPagesKids 2) := by
    rw [twoPagesKids, only, update_self]
    apply slot_only ⟨by decide, by decide, by decide⟩
    · apply slot_only (f := 0x3000) ⟨by decide, by decide, by decide⟩ hpages
      intro j hj
      exact hmem _ (by omega) (by omega) (by omega) (by omega) (by omega)
    · intro j hj
      exact hmem _ (by omega) (by omega) (by omega) (by omega) (by omega)
  refine ⟨by decide, ⟨by decide, by decide, by decide⟩, ⟨by decide, by decide, by decide⟩,
    by decide, fun i _ => ?_, fun i _ => ?_, hfree.nodup, hfree.frame,
    ⟨hlow _ (by decide), hlow _ (by decide)⟩, fun i _ f hf => ?_⟩
  · by_cases hi : i = 2
    · subst hi
      exact hkid
    · have hv : (i : ℕ) ≠ 2 := fun hc => hi (Fin.ext hc)
      rw [twoPagesKids, only, update_of_ne hi,
        hmem _ (by omega) (by omega) (by omega) (by omega) (by omega), slot_absent]
      rfl
  · rw [hmem _ (by omega) (by omega) (by omega) (by omega) (by omega)]
    rfl
  · have hblock : f = 0x6000 ∨ f = 0x5000 ∨ f = 0x4000 ∨ f = 0x3000 ∨ f = 0x2000 := by
      by_cases hi : i = 2
      · subst hi
        rw [twoPagesKids, only, update_self] at hf
        rcases mem_blocks_only hf with hf | rfl
        · rcases mem_blocks_only hf with hf | rfl
          · rcases mem_blocks_update hf with hf | hf
            · exact .inl (mem_singleton.mp hf)
            · rcases mem_blocks_only hf with hf | rfl
              · exact .inr (.inl (mem_singleton.mp hf))
              · exact .inr (.inr (.inl rfl))
          · exact .inr (.inr (.inr (.inl rfl)))
        · exact .inr (.inr (.inr (.inr rfl)))
      · rw [twoPagesKids, only, update_of_ne hi, blocks_absent] at hf
        exact absurd hf List.not_mem_nil
    exact ⟨hlow f (by omega), by omega⟩

lemma rootSlots_user : rootSlots 2 6 = [2, 3, 4, 5] := by decide +kernel

/-- The slots of a table after the first that takes a frame do not matter. -/
lemma failsClean_first (h : need (kids 0) ≠ 0) :
    failsClean (.node f kids) (avail + 1)
      = (decide (avail < need (kids 0)) && failsClean (kids 0) avail) := by
  have hfin : finRange 512 = 0 :: (finRange 511).map Fin.succ := List.finRange_succ
  rw [failsClean, hfin, firstClean, Nat.add_sub_cancel, if_neg h]
  simp

lemma need_twoPages_sum : ((rootSlots 2 6).map fun i => need (twoPagesKids i)).sum = 5 := by
  have habs : ∀ i : Fin 512, i ≠ 2 → need (twoPagesKids i) = 0 := by
    intro i hi
    rw [twoPagesKids, only, update_of_ne hi, need_absent]
  rw [rootSlots_user]
  simp only [map_cons, List.map_nil, sum_cons, List.sum_nil, need_twoPagesKids]
  rw [habs 3 (by decide), habs 4 (by decide), habs 5 (by decide), Nat.add_zero]

/-- Four frames go into three tables and one page. -/
lemma not_stopsClean_twoPages : stopsClean twoPagesKids (rootSlots 2 6) 4 = false := by
  have hpage : need (update (only 0 (.leaf (0x5000, VM_USER) : Tree 0)) 1
      (.leaf (0x6000, VM_USER)) 0) = 1 := by
    rw [update_of_ne (by decide), only_self]
    rfl
  have hlast : failsClean twoPages 2 = false := by
    rw [twoPages, failsClean_first (by rw [hpage]; decide), hpage]
    rfl
  have hmid : failsClean (.node 0x3000 (only 0 twoPages)) 3 = false := by
    rw [failsClean_first (by rw [only_self, need_twoPages]; decide), only_self, hlast,
      Bool.and_false]
  rw [rootSlots_user, stopsClean, need_twoPagesKids, if_neg (by decide), twoPagesKids, only_self,
    failsClean_first (by rw [only_self, need_only]; omega), only_self, hmid, Bool.and_false]

theorem vmmCopySpace_lawful_two_pages : 
    CopyLaw (twoPagesRam 5) (vmmCopySpace (twoPagesRam 5) 0x8000 0x1000 2 6).1
      (vmmCopySpace (twoPagesRam 5) 0x8000 0x1000 2 6).2 0x8000 0x1000 2 6 :=
  (vmmCopySpace_lawful_iff (twoPagesRam 5) 0x8000 0x1000 2 6 twoPagesKids
    (source_twoPages (by decide))).mpr (by
      have hall := stopsClean_append twoPagesKids [] need_twoPages_sum.le
      rwa [append_nil] at hall)

/-- With four free frames the first page is in the new table when the second finds none, and it
stays taken. -/
theorem vmmCopySpace_loses_page :
    ¬ ∀ (r : Ram) (dst src lo hi : ℕ) (kids : Fin 512 → Tree 3), Source r dst src lo hi kids →
      CopyLaw r (vmmCopySpace r dst src lo hi).1 (vmmCopySpace r dst src lo hi).2 dst src lo
        hi := by
  intro hall
  have h := source_twoPages (n := 4) (by decide)
  obtain ⟨he, -, hrel⟩ := vmmCopySpace_short h (by rw [need_twoPages_sum]; decide)
  have hlaw := hrel.mp ((hall _ _ _ _ _ _ h).failure he)
  exact absurd (not_stopsClean_twoPages.symm.trans hlaw) (by decide)

end Vmm
end Mm
end MobilePhoneOs
