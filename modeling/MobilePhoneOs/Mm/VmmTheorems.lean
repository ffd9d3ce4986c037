import MobilePhoneOs.Lib.Radix
import MobilePhoneOs.Mm.Vmm
import Mathlib.Data.Nat.Bitwise
import Mathlib.Tactic.Linarith

/-!
# The page tables are a finite map

The tables of a process are a radix tree laid out in memory: `Slot mem d t` says that the
descriptor `d` leads to the tree `t`. The walks of map, unmap and probe follow the tree,
and a tree only depends on the frames of its own tables, so a walk changes one path.
-/

namespace MobilePhoneOs

open Function (update update_self update_of_ne update_eq_self)
open List (mem_append mem_append_left mem_cons mem_cons_self nodup_append nodup_cons)
open Radix (frames_empty frames_of_kid lookup_absent lookup_node missing_absent lookup lookup_empty)
namespace Mm
namespace Vmm

/-! ## Descriptors -/

variable {p : ℕ}

/-- Bits 12 to 47 of a page-aligned address below 2^48 are the address. -/
lemma and_addrMask (hal : p % PAGE_SIZE = 0) (hlt : p < 2 ^ 48) :
    p &&& PT_ADDR_MASK = p := by
  obtain ⟨q, rfl⟩ : ∃ q, p = q <<< 12 := by
    refine ⟨p / 2 ^ 12, ?_⟩
    rw [Nat.shiftLeft_eq]
    simp only [PAGE_SIZE] at hal
    omega
  have hmask : PT_ADDR_MASK = (2 ^ 36 - 1) <<< 12 := by decide
  rw [hmask, ← Nat.shiftLeft_and_distrib, Nat.and_two_pow_sub_one_of_lt_two_pow]
  rw [Nat.shiftLeft_eq] at hlt
  omega

/-- A few bits outside 12 to 47 of a page-aligned address are zero. -/
lemma addr_bits {s m : ℕ} (hal : p % PAGE_SIZE = 0) (hlt : p < 2 ^ 48)
    (hs : s + m ≤ 12 ∨ 48 ≤ s) : p >>> s &&& (2 ^ m - 1) = 0 := by
  rw [Nat.and_two_pow_sub_one_eq_mod, Nat.shiftRight_eq_div_pow]
  rcases hs with hs | hs
  · have hdvd : 2 ^ (s + m) ∣ p :=
      (Nat.pow_dvd_pow 2 hs).trans (Nat.dvd_of_mod_eq_zero hal)
    obtain ⟨q, rfl⟩ := hdvd
    rw [Nat.pow_add, Nat.mul_assoc, Nat.mul_div_cancel_left _ (Nat.two_pow_pos s)]
    exact Nat.mul_mod_right _ _
  · have hz : p / 2 ^ s = 0 := Nat.div_eq_of_lt (hlt.trans_le (Nat.pow_le_pow_right (by decide) hs))
    rw [hz, Nat.zero_mod]

/-- One bit of a word is clear or set. -/
lemma and_bit (x k : ℕ) : x &&& 1 <<< k = 0 ∨ x &&& 1 <<< k = 1 <<< k := by
  rw [Nat.one_shiftLeft, Nat.and_two_pow]
  cases x.testBit k <;> simp

variable {f : ℕ}

lemma tableDesc_spec (hf : IsTable f) :
    tableDesc f &&& PTE_VALID ≠ 0 ∧ tableDesc f &&& PTE_TABLE ≠ 0 ∧ tablePtr (tableDesc f) = f := by
  have hlow : f &&& 3 = 0 := addr_bits (s := 0) (m := 2) hf.aligned hf.lt (.inl (by decide))
  have h3 : tableDesc f &&& 3 = 3 := by
    rw [tableDesc, Nat.and_or_distrib_right, hlow]
    decide
  have hv : tableDesc f &&& PTE_VALID = 1 := by
    have : PTE_VALID = 3 &&& 1 := by decide
    rw [this, ← Nat.and_assoc, h3]
    rfl
  have ht : tableDesc f &&& PTE_TABLE = 2 := by
    have : PTE_TABLE = 3 &&& 2 := by decide
    rw [this, ← Nat.and_assoc, h3]
    rfl
  refine ⟨by rw [hv]; decide, by rw [ht]; decide, ?_⟩
  rw [tablePtr, tableDesc, Nat.and_or_distrib_right, and_addrMask hf.aligned hf.lt]
  have : (PTE_VALID ||| PTE_TABLE) &&& PT_ADDR_MASK = 0 := by decide
  rw [this, Nat.zero_or]

/-- The attribute bits of a leaf are those of the leaf at address 0. -/
lemma leafDesc_eq (pa flags : ℕ) (hal : pa % PAGE_SIZE = 0) :
    leafDesc pa flags = leafDesc 0 flags ||| pa := by
  have hdown : alignDown pa = pa := Nat.div_mul_cancel (Nat.dvd_of_mod_eq_zero hal)
  have hzero : alignDown 0 = 0 := rfl
  simp only [leafDesc, hdown, hzero, Nat.or_zero]

/-- The attribute bits: valid, no address bits, and the flags decode. -/
lemma leafAttrs_spec (flags : ℕ) :
    leafDesc 0 flags &&& 3 = 3 ∧ leafDesc 0 flags &&& PT_ADDR_MASK = 0 ∧
      vmmDecodeFlags (leafDesc 0 flags) = shownFlags flags := by
  have hw := and_bit flags 1
  have he := and_bit flags 2
  have hu := and_bit flags 3
  have hd := and_bit flags 4
  rw [← VM_WRITE] at hw
  rw [← VM_EXEC] at he
  rw [← VM_USER] at hu
  rw [← VM_DEVICE] at hd
  simp only [leafDesc, shownFlags]
  rcases hw with hw | hw <;> rcases he with he | he <;> rcases hu with hu | hu <;>
    rcases hd with hd | hd <;> rw [hw, he, hu, hd] <;> decide

variable {pa : ℕ}

lemma leafDesc_spec (flags : ℕ) (hal : pa % PAGE_SIZE = 0) (hlt : pa < 2 ^ 48) :
    leafDesc pa flags &&& PTE_VALID ≠ 0 ∧ leafDesc pa flags &&& PT_ADDR_MASK = pa ∧
      vmmDecodeFlags (leafDesc pa flags) = shownFlags flags := by
  obtain ⟨h3, hmask, hflags⟩ := leafAttrs_spec flags
  have hlow : pa &&& 3 = 0 := addr_bits (s := 0) (m := 2) hal hlt (.inl (by decide))
  rw [leafDesc_eq pa flags hal]
  refine ⟨?_, ?_, ?_⟩
  · have hv : PTE_VALID = 3 &&& 1 := by decide
    rw [hv, ← Nat.and_assoc, Nat.and_or_distrib_right, hlow, h3]
    decide
  · rw [Nat.and_or_distrib_right, hmask, Nat.zero_or, and_addrMask hal hlt]
  · -- the decoder reads bits 2, 3, 6, 7 and 54 only
    have h2 : pa >>> 2 &&& 3 = 0 := addr_bits (s := 2) (m := 2) hal hlt (.inl (by decide))
    have h6 : pa >>> 6 &&& 3 = 0 := addr_bits (s := 6) (m := 2) hal hlt (.inl (by decide))
    have h54 : pa >>> 54 &&& 1 = 0 := addr_bits (s := 54) (m := 1) hal hlt (.inr (by decide))
    rw [← hflags]
    simp only [vmmDecodeFlags, Nat.shiftRight_or_distrib, Nat.and_or_distrib_right, h2, h6, h54,
      Nat.or_zero]

/-! ## Paths -/

lemma index_lt (lvl va : ℕ) : index lvl va < 512 :=
  Nat.lt_of_le_of_lt Nat.and_le_right (by decide)

/-- The slot as a position in a table. -/
def ix (lvl va : ℕ) : Fin 512 := ⟨index lvl va, index_lt lvl va⟩

/-- The slots of the walk from a table of level `3 - k` to the page. -/
def path (va : ℕ) : ℕ → List (Fin 512)
  | 0 => [ix 3 va]
  | k + 1 => ix (3 - (k + 1)) va :: path va k

lemma path_ne_nil (va k : ℕ) : path va k ≠ [] := by cases k <;> exact List.cons_ne_nil _ _

lemma path_length (va k : ℕ) : (path va k).length = k + 1 := by
  induction k with
  | zero => rfl
  | succ k ih => rw [path, List.length_cons, ih]

lemma index_eq (lvl va : ℕ) : index lvl va = va / 2 ^ levelShift lvl % 512 := by
  have h512 : PT_ENTRIES - 1 = 2 ^ 9 - 1 := rfl
  rw [index, h512, Nat.and_two_pow_sub_one_eq_mod, Nat.shiftRight_eq_div_pow]

variable {va : ℕ}

/-- Two addresses below 2^48 take the same path when they lie in the same page. -/
lemma path_eq_iff {va' : ℕ} (h : va < 2 ^ 48) (h' : va' < 2 ^ 48) :
    path va 3 = path va' 3 ↔ va / PAGE_SIZE = va' / PAGE_SIZE := by
  have hsh : levelShift 0 = 39 ∧ levelShift 1 = 30 ∧ levelShift 2 = 21 ∧ levelShift 3 = 12 := by
    decide
  obtain ⟨h0, h1, h2, h3⟩ := hsh
  simp only [path, Nat.reduceAdd, Nat.reduceSub, List.cons.injEq, and_true, ix, Fin.mk.injEq,
    index_eq, h0, h1, h2, h3, PAGE_SIZE]
  omega

/-- A user address does not start at slot 0 of the root. -/
lemma ix_ne_zero (h : UserVa va) : ix 0 va ≠ 0 := by
  obtain ⟨hlo, hhi⟩ := h
  intro hc
  have hval : index 0 va = 0 := congrArg Fin.val hc
  rw [index_eq, show levelShift 0 = 39 from rfl] at hval
  omega

/-! ## Tables in memory -/

/-- Tables as a tree: nodes are frames, leaves are pages with their flags. -/
abbrev Tree := Radix 512 ℕ (ℕ × ℕ)

/-- The descriptor leads to the tree. -/
def Slot (mem : Mem) {n : ℕ} : ℕ → Tree n → Prop
  | d, .absent => d &&& PTE_VALID = 0
  | d, .leaf l => d = leafDesc l.1 l.2 ∧ l.1 % PAGE_SIZE = 0 ∧ l.1 < 2 ^ 48
  | d, .node f kids => d = tableDesc f ∧ IsTable f ∧ ∀ i : Fin 512, Slot mem (mem (f + 8 * i)) (kids i)

variable {n : ℕ}

variable {mem : Mem} {d : ℕ}

@[simp] lemma slot_absent :
    Slot mem d (.absent : Tree n) ↔ d &&& PTE_VALID = 0 := by
  cases n <;> exact Iff.rfl

/-- A word of a table lies in the frame of the table. -/
lemma alignDown_slot (hf : f % PAGE_SIZE = 0) (i : Fin 512) : alignDown (f + 8 * i) = f := by
  simp only [alignDown, PAGE_SIZE] at *
  omega

variable {a : ℕ}

lemma alignDown_page (hf : f % PAGE_SIZE = 0) (hlo : f ≤ a) (hhi : a < f + PAGE_SIZE) :
    alignDown a = f := by
  simp only [alignDown, PAGE_SIZE] at *
  omega

/-- A tree depends on the frames of its tables only. -/
lemma Slot.congr {mem' : Mem} {t : Tree n} (h : Slot mem d t)
    (hag : ∀ a, alignDown a ∈ t.frames → mem' a = mem a) : Slot mem' d t := by
  induction t generalizing d with
  | absent => exact slot_absent.mpr (slot_absent.mp h)
  | leaf l => exact h
  | node f kids ih =>
    obtain ⟨hd, hf, hkids⟩ := h
    refine ⟨hd, hf, fun i => ?_⟩
    have hself : mem' (f + 8 * i) = mem (f + 8 * i) := by
      apply hag
      rw [alignDown_slot hf.aligned]
      exact mem_cons_self
    rw [hself]
    exact ih i (hkids i) fun a ha => hag a (frames_of_kid ha)

/-! ## Changing one path -/

/-- What a walk from the table `f` through its slot `i` changed: it took `new` from the free
list and replaced the subtree of that slot. -/
structure Walked {n : ℕ} (r r' : Ram) (f : ℕ) (i : Fin 512) (kids kids' : Fin 512 → Tree n)
    (new : List ℕ) : Prop where
  free : r.free = new ++ r'.free
  frames : (kids' i).frames.Perm ((kids i).frames ++ new)
  others : ∀ j, j ≠ i → kids' j = kids j
  slot : Slot r'.mem (r'.mem (f + 8 * i)) (kids' i)
  outside : ∀ a, a ≠ f + 8 * i → alignDown a ∉ (kids i).frames ++ new → r'.mem a = r.mem a

section

variable {n : ℕ} {r r' : Ram} {f : ℕ} {i : Fin 512} {kids kids' : Fin 512 → Tree n}
  {new : List ℕ}

lemma Walked.frames_node (h : Walked r r' f i kids kids' new) :
    (Radix.node f kids').frames.Perm ((Radix.node f kids).frames ++ new) := by
  have hkids : kids' = update kids i (kids' i) := by
    funext j
    by_cases hj : j = i
    · subst hj
      rw [update_self]
    · rw [update_of_ne hj, h.others j hj]
  rw [hkids]
  exact Radix.frames_update_append f kids i _ h.frames

/-- The other slots keep their subtrees. -/
lemma Walked.slots (h : Walked r r' f i kids kids' new)
    (hnd : ((Radix.node f kids).frames ++ r.free).Nodup) (hf : f % PAGE_SIZE = 0)
    {j : Fin 512} (hj : j ≠ i → Slot r.mem (r.mem (f + 8 * j)) (kids j)) :
    Slot r'.mem (r'.mem (f + 8 * j)) (kids' j) := by
  by_cases hij : j = i
  · subst hij
    exact h.slot
  rw [h.others j hij]
  obtain ⟨rest, hsplit, hrest⟩ := Radix.frames_split f kids i
  have hperm := hsplit (kids i)
  rw [update_eq_self] at hperm
  have hnd' : (f :: ((kids i).frames ++ rest) ++ (new ++ r'.free)).Nodup := by
    rw [← h.free]
    exact (hperm.append_right _).nodup_iff.mp hnd
  -- neither `f` nor a frame of another slot is one that the walk writes
  have hapart : ∀ g ∈ f :: rest, g ∉ (kids i).frames ++ new := by
    intro g hg hin
    grind
  have hword : r'.mem (f + 8 * j) = r.mem (f + 8 * j) := by
    refine h.outside _ ?_ ?_
    · intro hc
      exact hij (Fin.ext (by omega))
    · rw [alignDown_slot hf]
      exact hapart f mem_cons_self
  rw [hword]
  refine (hj hij).congr fun a ha => h.outside a ?_ (hapart _ (List.mem_cons_of_mem _ ?_))
  · rintro rfl
    rw [alignDown_slot hf] at ha
    have := hrest j hij _ ha
    simp only [List.cons_append, nodup_cons, mem_append, not_or] at hnd'
    exact hnd'.1.1.2 this
  · exact hrest j hij _ ha

end

/-- What a walk with result `e` did to the leaf of `key`: it put `m` there, where there was
none, or it failed. -/
def MapResult {n : ℕ} (e : ℤ) (key : List (Fin 512)) (m : ℕ × ℕ) (t t' : Tree n) : Prop :=
  (e = 0 ∧ t.lookup key = none ∧ (∀ p, t'.lookup p = if p = key then some m else t.lookup p) ∧
      t'.leaves.Perm (m :: t.leaves)) ∨
    (e ≠ 0 ∧ (∀ p, t'.lookup p = t.lookup p) ∧ t'.leaves.Perm t.leaves)

variable {e : ℤ}

lemma MapResult.refl (he : e ≠ 0) (key : List (Fin 512)) (m : ℕ × ℕ)
    (t : Tree n) : MapResult e key m t t :=
  .inr ⟨he, fun _ => rfl, List.Perm.refl _⟩

variable {key : List (Fin 512)} {i : Fin 512}

variable {kids : Fin 512 → Tree n} {kid : Tree n}

/-- The result seen from the table above. -/
lemma MapResult.node {m : ℕ × ℕ} (h : MapResult e key m (kids i) kid) :
    MapResult e (i :: key) m (Radix.node f kids) (Radix.node f (update kids i kid)) := by
  rcases h with ⟨he, hnone, hlook, hl⟩ | ⟨he, hlook, hl⟩
  · refine .inl ⟨he, hnone, fun p => ?_, ?_⟩
    · cases p with
      | nil => rfl
      | cons j p =>
        by_cases hj : j = i
        · subst hj
          rw [lookup_node, update_self, hlook]
          simp
        · rw [lookup_node, update_of_ne hj]
          simp [hj]
    · exact Radix.leaves_update_cons f kids i kid hl
  · refine .inr ⟨he, fun p => ?_, ?_⟩
    · cases p with
      | nil => rfl
      | cons j p =>
        by_cases hj : j = i
        · subst hj
          rw [lookup_node, update_self, hlook]
          rfl
        · rw [lookup_node, update_of_ne hj]
          rfl
    · obtain ⟨rest, hsplit⟩ := Radix.leaves_split f kids i
      have hself := hsplit (kids i)
      rw [update_eq_self] at hself
      exact (hsplit kid).trans ((hl.append_right rest).trans hself.symm)

/-- A fresh table maps as much as no table. -/
lemma MapResult.of_empty {m : ℕ × ℕ}
    {t : Tree (n + 1)} (h : MapResult e key m (Radix.node f fun _ => .absent) t) :
    MapResult e key m .absent t := by
  have hlook : ∀ p, (Radix.node f fun _ => .absent : Tree (n + 1)).lookup p = none :=
    lookup_empty f
  have hleaves : (Radix.node f fun _ => .absent : Tree (n + 1)).leaves = [] :=
    Radix.leaves_empty f
  simpa only [MapResult, hlook, hleaves, lookup_absent, Radix.leaves_absent] using h

/-- How a walk with result `e` made tables on its way to `key`: all that were missing, none
because the page is taken, or as many as there were frames left. -/
def Grown {n : ℕ} (e : ℤ) (key : List (Fin 512)) (t t' : Tree n) (new free : List ℕ) : Prop :=
  (e = 0 ∧ new.length = t.missing key ∧
      ∀ p, t'.isNode p = true ↔ t.isNode p = true ∨ (p <+: key ∧ p ≠ key)) ∨
    (e ≠ 0 ∧ t.lookup key ≠ none ∧ new = [] ∧ t' = t) ∨
    (e ≠ 0 ∧ new.length < t.missing key ∧ free = [])

variable {new : List ℕ}

variable {free : List ℕ}

/-- The tables seen from the table above. -/
lemma Grown.node
    (h : Grown e key (kids i) kid new free) :
    Grown e (i :: key) (Radix.node f kids) (Radix.node f (update kids i kid)) new
      free := by
  rcases h with ⟨he, hlen, hnode⟩ | ⟨he, htaken, hnew, hsame⟩ | ⟨he, hlen, hfree⟩
  · refine .inl ⟨he, hlen, fun p => ?_⟩
    cases p with
    | nil => simp
    | cons j p =>
      rw [Radix.isNode_node, Radix.isNode_node]
      by_cases hj : j = i
      · subst hj
        rw [update_self, hnode]
        simp [List.cons_prefix_cons]
      · rw [update_of_ne hj]
        simp [List.cons_prefix_cons, hj]
  · refine .inr (.inl ⟨he, htaken, hnew, ?_⟩)
    rw [hsame, update_eq_self]
  · exact .inr (.inr ⟨he, hlen, hfree⟩)

/-- A table that was made for the walk is one more. -/
lemma Grown.of_empty {t : Tree (n + 1)} (h : Grown e key (Radix.node f fun _ => .absent) t new free)
    (hkey : key ≠ []) : Grown e key .absent t (f :: new) free := by
  obtain ⟨i, key, rfl⟩ := List.exists_cons_of_ne_nil hkey
  have hmiss : (Radix.node f fun _ => .absent : Tree (n + 1)).missing (i :: key) = n :=
    missing_absent key
  have hnode : ∀ p, (Radix.node f fun _ => .absent : Tree (n + 1)).isNode p = true ↔ p = [] := by
    intro p
    cases p with
    | nil => simp
    | cons j p => simp
  rcases h with ⟨he, hlen, hthere⟩ | ⟨_, htaken, -, -⟩ | ⟨he, hlen, hfree⟩
  · refine .inl ⟨he, ?_, fun p => ?_⟩
    · rw [List.length_cons, hlen, hmiss, missing_absent]
    · rw [hthere, hnode, Radix.isNode_absent]
      constructor
      · rintro (rfl | hp)
        · exact .inr ⟨List.nil_prefix, by simp⟩
        · exact .inr hp
      · rintro (hc | hp)
        · exact absurd hc (by simp)
        · exact .inr hp
  · exact absurd (lookup_empty f _) htaken
  · refine .inr (.inr ⟨he, ?_, hfree⟩)
    rw [hmiss] at hlen
    rw [List.length_cons, missing_absent]
    omega

variable {r : Ram}

/-- The walk that changes the selected slot itself. -/
lemma walked_set (hkids : (kids i).frames = []) (hkid : kid.frames = [])
    (hslot : ∀ mem, Slot mem d kid) :
    Walked r (r.set (f + 8 * i) d) f i kids (update kids i kid) [] := by
  have hself : (r.set (f + 8 * i) d).mem (f + 8 * i) = d := update_self _ _ _
  refine ⟨rfl, ?_, fun j hj => update_of_ne hj _ _, ?_, fun a ha _ => ?_⟩
  · rw [update_self, hkids, hkid]
    exact List.Perm.refl _
  · rw [update_self, hself]
    exact hslot _
  · exact update_of_ne ha _ _

lemma walked_refl
    (hslot : Slot r.mem (r.mem (f + 8 * i)) (kids i)) : Walked r r f i kids kids [] :=
  ⟨rfl, by simp, fun _ _ => rfl, hslot, fun _ _ _ => rfl⟩

lemma set_mem_self (r : Ram) (a v : ℕ) : (r.set a v).mem a = v := update_self _ _ _

lemma set_mem_of_ne (r : Ram) {b : ℕ} (v : ℕ) (h : a ≠ b) : (r.set b v).mem a = r.mem a :=
  update_of_ne h _ _

lemma zeroPage_mem (hlo : pa ≤ a) (hhi : a < pa + PAGE_SIZE) :
    (r.zeroPage pa).mem a = 0 := if_pos ⟨hlo, hhi⟩

lemma zeroPage_mem_of_ne (hal : pa % PAGE_SIZE = 0)
    (h : alignDown a ≠ pa) : (r.zeroPage pa).mem a = r.mem a :=
  if_neg fun hin => h (alignDown_page hal hin.1 hin.2)

variable {j : Fin 512}

/-- The words of a table that was just cleared and linked are zero. -/
lemma fresh_word {nt v : ℕ} (hnt : nt % PAGE_SIZE = 0)
    (hf : f % PAGE_SIZE = 0) (hne : nt ≠ f) :
    ((r.zeroPage nt).set (f + 8 * i) v).mem (nt + 8 * j) = 0 := by
  have hslot : nt + 8 * (j : ℕ) ≠ f + 8 * i := by
    intro hc
    have hdown := alignDown_slot hnt j
    rw [hc, alignDown_slot hf] at hdown
    exact hne hdown.symm
  rw [set_mem_of_ne _ _ hslot]
  exact zeroPage_mem (by omega) (by simp only [PAGE_SIZE]; omega)

/-- The frames below one slot are distinct from the table and from the free frames. -/
lemma nodup_kid
    (hnd : ((Radix.node f kids).frames ++ free).Nodup) (i : Fin 512) :
    f ∉ (kids i).frames ∧ f ∉ free ∧ ((kids i).frames ++ free).Nodup := by
  obtain ⟨rest, hsplit, _⟩ := Radix.frames_split f kids i
  have hperm := hsplit (kids i)
  rw [update_eq_self] at hperm
  have hnd' := (hperm.append_right free).nodup_iff.mp hnd
  rw [List.cons_append, List.append_assoc, nodup_cons] at hnd'
  obtain ⟨hf, hrest⟩ := hnd'
  simp only [mem_append, not_or] at hf
  exact ⟨hf.1, hf.2.2, hrest.sublist ((List.sublist_append_right _ _).append_left _)⟩

/-- A walk below the selected slot, seen from the table above. -/
lemma Walked.up {r' : Ram} {g : ℕ} {kids : Fin 512 → Tree (n + 1)}
    {kk kk' : Fin 512 → Tree n} (h : Walked r r' g j kk kk' new)
    (hkid : kids i = Radix.node g kk) (hf : f % PAGE_SIZE = 0)
    (hnd : ((Radix.node f kids).frames ++ r.free).Nodup)
    (hslot : Slot r.mem (r.mem (f + 8 * i)) (kids i)) :
    Walked r r' f i kids (update kids i (Radix.node g kk')) new := by
  obtain ⟨hkids, hfr, hsub⟩ := nodup_kid hnd i
  rw [hkid] at hkids hsub hslot
  obtain ⟨hd, hg, hslots⟩ := hslot
  -- `f` is neither below its own slot nor new
  have hfree : f ∉ (Radix.node g kk).frames ++ new := by
    rw [h.free] at hfr
    intro hc
    rcases mem_append.mp hc with hc | hc
    · exact hkids hc
    · exact hfr (mem_append_left _ hc)
  have hkk : ∀ a, alignDown a ∉ (Radix.node g kk).frames ++ new → r'.mem a = r.mem a := by
    intro a ha
    refine h.outside a ?_ fun hc => ha ?_
    · rintro rfl
      rw [alignDown_slot hg.aligned] at ha
      exact ha (mem_append_left _ mem_cons_self)
    · rcases mem_append.mp hc with hc | hc
      · exact mem_append_left _ (frames_of_kid hc)
      · exact List.mem_append_right _ hc
  refine ⟨h.free, ?_, fun j hj => update_of_ne hj _ _, ?_, fun a _ ha => hkk a ?_⟩
  · rw [update_self, hkid]
    exact h.frames_node
  · rw [update_self, hkk _ (by rw [alignDown_slot hf]; exact hfree)]
    exact ⟨hd, hg, fun j => h.slots hsub hg.aligned fun _ => hslots j⟩
  · rwa [hkid] at ha

/-- A walk below a table that was just made for the selected slot. -/
lemma Walked.made {r' : Ram} {nt : ℕ} {fs : List ℕ}
    {kids : Fin 512 → Tree (n + 1)} {kk' : Fin 512 → Tree n}
    (h : Walked ((Ram.zeroPage { r with free := fs } nt).set (f + 8 * i) (tableDesc nt)) r' nt j
      (fun _ => .absent) kk' new)
    (hkid : kids i = .absent) (hf : f % PAGE_SIZE = 0) (hnt : IsTable nt)
    (hr : r.free = nt :: fs) (hnd : (f :: r.free).Nodup) :
    Walked r r' f i kids (update kids i (Radix.node nt kk')) (nt :: new) := by
  have hfs : fs = new ++ r'.free := h.free
  have hfree : f ∉ nt :: new := by
    rw [hr, hfs] at hnd
    have hcons := (nodup_cons.mp hnd).1
    simp only [mem_cons, mem_append, not_or] at hcons ⊢
    exact ⟨hcons.1, hcons.2.1⟩
  set r₂ := (Ram.zeroPage { r with free := fs } nt).set (f + 8 * i) (tableDesc nt) with hr₂
  have hout : ∀ a, alignDown a ∉ nt :: new → r'.mem a = r₂.mem a := by
    intro a ha
    simp only [mem_cons, not_or] at ha
    refine h.outside a ?_ (by simpa using ha.2)
    rintro rfl
    exact ha.1 (alignDown_slot hnt.aligned j)
  have hself : r₂.mem (f + 8 * i) = tableDesc nt := update_self _ _ _
  have hword : r'.mem (f + 8 * i) = tableDesc nt := by
    rw [hout _ (by rw [alignDown_slot hf]; exact hfree), hself]
  have hne : nt ≠ f := fun hc => hfree (hc ▸ mem_cons_self)
  refine ⟨by rw [hr, hfs]; rfl, ?_, fun j hj => update_of_ne hj _ _, ?_,
    fun a ha hna => ?_⟩
  · rw [update_self, hkid, Radix.frames_absent]
    have hp := h.frames_node
    have he : (Radix.node nt fun _ => .absent : Tree (n + 1)).frames = [nt] :=
      frames_empty nt
    rwa [he] at hp
  · rw [update_self, hword]
    refine ⟨rfl, hnt, fun j => h.slots ?_ hnt.aligned fun _ => ?_⟩
    · have he : (Radix.node nt fun _ => .absent : Tree (n + 1)).frames = [nt] :=
        frames_empty nt
      rw [he]
      rw [hr] at hnd
      exact (nodup_cons.mp hnd).2
    · rw [slot_absent, hr₂, fresh_word hnt.aligned hf hne]
      rfl
  · rw [hkid, Radix.frames_absent, List.nil_append] at hna
    rw [hout a hna, hr₂, set_mem_of_ne _ _ ha]
    exact zeroPage_mem_of_ne hnt.aligned fun hc => hna (hc ▸ mem_cons_self)

/-- The walk of map: it takes the missing tables from the PMM and enters the page, or fails. -/
lemma mapFrom_spec (flags : ℕ) (hal : pa % PAGE_SIZE = 0) (hlt : pa < 2 ^ 48) (k : ℕ)
    (r : Ram) (f : ℕ) (kids : Fin 512 → Tree k) (hf : f % PAGE_SIZE = 0)
    (hnd : ((Radix.node f kids).frames ++ r.free).Nodup) (hfree : ∀ g ∈ r.free, IsTable g)
    (hslot : Slot r.mem (r.mem (f + 8 * ix (3 - k) va)) (kids (ix (3 - k) va))) :
    ∃ kids' new, Walked r (mapFrom va pa flags k r f).1 f (ix (3 - k) va) kids kids' new ∧
      MapResult (mapFrom va pa flags k r f).2 (path va k) (pa, flags) (Radix.node f kids)
        (Radix.node f kids') ∧
      Grown (mapFrom va pa flags k r f).2 (path va k) (Radix.node f kids) (Radix.node f kids') new
        (mapFrom va pa flags k r f).1.free := by
  induction k generalizing r f with
  | zero =>
    generalize hi : ix (3 - 0) va = i at *
    have hslotAddr : f + 8 * index 3 va = f + 8 * i := by rw [← hi]; rfl
    have hpath : path va 0 = [i] := by rw [← hi]; rfl
    rw [mapFrom, hslotAddr, hpath]
    cases hkid : kids i with
    | absent =>
      rw [hkid] at hslot
      have hv : ¬ r.mem (f + 8 * i) &&& PTE_VALID ≠ 0 := not_not.mpr (slot_absent.mp hslot)
      simp only [if_neg hv]
      refine ⟨update kids i (.leaf (pa, flags)), [], ?_, MapResult.node ?_, Grown.node ?_⟩
      · exact walked_set (by rw [hkid]; rfl) rfl fun _ => ⟨rfl, hal, hlt⟩
      · rw [hkid]
        refine .inl ⟨rfl, lookup_absent _, fun p => ?_, List.Perm.refl _⟩
        cases p <;> simp [lookup]
      · rw [hkid]
        refine .inl ⟨rfl, rfl, fun p => ?_⟩
        cases p <;> simp [Radix.isNode]
    | leaf l =>
      rw [hkid] at hslot
      obtain ⟨hd, hlal, hllt⟩ := hslot
      have hv := (leafDesc_spec l.2 hlal hllt).1
      rw [← hd] at hv
      simp only [if_pos hv]
      refine ⟨kids, [], walked_refl (by rw [hkid]; exact ⟨hd, hlal, hllt⟩), .refl (by decide) _ _ _,
        .inr (.inl ⟨by decide, ?_, rfl, rfl⟩)⟩
      rw [lookup_node, hkid]
      simp [lookup]
  | succ k ih =>
    generalize hi : ix (3 - (k + 1)) va = i at *
    have hslotAddr : f + 8 * index (3 - (k + 1)) va = f + 8 * i := by rw [← hi]; rfl
    have hpath : path va (k + 1) = i :: path va k := by rw [← hi]; rfl
    rw [mapFrom, hslotAddr, hpath]
    cases hkid : kids i with
    | absent =>
      rw [hkid, slot_absent] at hslot
      simp only [if_pos hslot]
      cases hr : r.free with
      | nil =>
        have halloc : r.pmmAlloc = (r, 0) := by rw [Ram.pmmAlloc, hr]
        rw [halloc, if_pos rfl]
        refine ⟨kids, [], walked_refl (by rw [hkid]; exact slot_absent.mpr hslot),
          .refl (show (-2 : ℤ) ≠ 0 by decide) _ _ _,
          .inr (.inr ⟨show (-2 : ℤ) ≠ 0 by decide, ?_, hr⟩)⟩
        rw [Radix.missing_node, hkid, missing_absent]
        exact Nat.succ_pos k
      | cons nt fs =>
        have halloc : r.pmmAlloc = ({ r with free := fs }, nt) := by rw [Ram.pmmAlloc, hr]
        have hnt : IsTable nt := hfree nt (by rw [hr]; exact mem_cons_self)
        have hpos := hnt.pos
        rw [halloc]
        simp only [if_neg (show ¬ nt = 0 by omega), set_mem_self, (tableDesc_spec hnt).2.2]
        have hfn : (f :: r.free).Nodup :=
          nodup_cons.mpr ⟨(nodup_kid hnd i).2.1, (nodup_append.mp hnd).2.1⟩
        have he : (Radix.node nt fun _ => .absent : Tree (k + 1)).frames = [nt] :=
          frames_empty nt
        rw [hr] at hfn
        have hne : nt ≠ f := fun hc => (nodup_cons.mp hfn).1 (hc ▸ mem_cons_self)
        obtain ⟨kk', new, hw, hres, hgrown⟩ := ih
          ((Ram.zeroPage { r with free := fs } nt).set (f + 8 * i) (tableDesc nt)) nt
          (fun _ => .absent) hnt.aligned (by rw [he]; exact (nodup_cons.mp hfn).2)
          (fun g hg => hfree g (by rw [hr]; exact List.mem_cons_of_mem _ hg)) (by
            rw [slot_absent, fresh_word hnt.aligned hf hne]
            rfl)
        refine ⟨_, nt :: new, hw.made hkid hf hnt hr (by rw [hr]; exact hfn), MapResult.node ?_,
          Grown.node ?_⟩
        · rw [hkid]
          exact hres.of_empty
        · rw [hkid]
          exact hgrown.of_empty (path_ne_nil va k)
    | node g kk =>
      have hslot' := hslot
      rw [hkid] at hslot'
      obtain ⟨hd, hg, hslots⟩ := hslot'
      obtain ⟨hv, ht, hptr⟩ := tableDesc_spec hg
      rw [hd, if_neg hv, if_pos ht, hptr]
      have hsub := (nodup_kid hnd i).2.2
      rw [hkid] at hsub
      obtain ⟨kk', new, hw, hres, hgrown⟩ := ih r g kk hg.aligned hsub hfree (hslots _)
      refine ⟨_, new, hw.up hkid hf hnd hslot, MapResult.node ?_, Grown.node ?_⟩
      · rw [hkid]
        exact hres
      · rw [hkid]
        exact hgrown

/-- What an unmap with result `e` did to the leaf of `key`: it removed it, or there was
none. -/
def UnmapResult {n : ℕ} (e : ℤ) (key : List (Fin 512)) (t t' : Tree n) : Prop :=
  (e = 0 ∧ (∃ m, t.lookup key = some m ∧ t.leaves.Perm (m :: t'.leaves)) ∧
      ∀ p, t'.lookup p = if p = key then none else t.lookup p) ∨
    (e ≠ 0 ∧ t' = t ∧ t.lookup key = none)

lemma UnmapResult.node (h : UnmapResult e key (kids i) kid) :
    UnmapResult e (i :: key) (Radix.node f kids) (Radix.node f (update kids i kid)) := by
  rcases h with ⟨he, ⟨m, hm, hl⟩, hlook⟩ | ⟨he, rfl, hnone⟩
  · refine .inl ⟨he, ⟨m, hm, ?_⟩, fun p => ?_⟩
    · obtain ⟨rest, hsplit⟩ := Radix.leaves_split f kids i
      have hself := hsplit (kids i)
      rw [update_eq_self] at hself
      exact hself.trans ((hl.append_right rest).trans ((hsplit kid).symm.cons m))
    · cases p with
      | nil => rfl
      | cons j p =>
        by_cases hj : j = i
        · subst hj
          rw [lookup_node, update_self, hlook]
          simp
        · rw [lookup_node, update_of_ne hj]
          simp [hj]
  · refine .inr ⟨he, ?_, hnone⟩
    rw [update_eq_self]

/-- The walk of unmap: it clears the page, or there is none. -/
lemma unmapFrom_spec (k : ℕ) (r : Ram) (f : ℕ) (kids : Fin 512 → Tree k)
    (hf : f % PAGE_SIZE = 0) (hnd : ((Radix.node f kids).frames ++ r.free).Nodup)
    (hslot : Slot r.mem (r.mem (f + 8 * ix (3 - k) va)) (kids (ix (3 - k) va))) :
    ∃ kids', Walked r (unmapFrom va k r f).1 f (ix (3 - k) va) kids kids' [] ∧
      UnmapResult (unmapFrom va k r f).2 (path va k) (Radix.node f kids)
        (Radix.node f kids') := by
  induction k generalizing r f with
  | zero =>
    generalize hi : ix (3 - 0) va = i at *
    have hslotAddr : f + 8 * index 3 va = f + 8 * i := by rw [← hi]; rfl
    have hpath : path va 0 = [i] := by rw [← hi]; rfl
    rw [unmapFrom, hslotAddr, hpath]
    cases hkid : kids i with
    | absent =>
      have hv : r.mem (f + 8 * i) &&& PTE_VALID = 0 := by rw [hkid] at hslot; exact hslot
      simp only [if_pos hv]
      refine ⟨kids, walked_refl hslot, .inr ⟨by decide, rfl, ?_⟩⟩
      rw [lookup_node, hkid]
      rfl
    | leaf l =>
      have hslot' := hslot
      rw [hkid] at hslot'
      obtain ⟨hd, hal, hlt⟩ := hslot'
      have hv := (leafDesc_spec l.2 hal hlt).1
      rw [← hd] at hv
      simp only [if_neg hv]
      refine ⟨update kids i .absent, ?_, UnmapResult.node ?_⟩
      · exact walked_set (by rw [hkid]; rfl) rfl fun _ => rfl
      · rw [hkid]
        refine .inl ⟨rfl, ⟨l, rfl, List.Perm.refl _⟩, fun p => ?_⟩
        cases p <;> simp [lookup]
  | succ k ih =>
    generalize hi : ix (3 - (k + 1)) va = i at *
    have hslotAddr : f + 8 * index (3 - (k + 1)) va = f + 8 * i := by rw [← hi]; rfl
    have hpath : path va (k + 1) = i :: path va k := by rw [← hi]; rfl
    rw [unmapFrom, hslotAddr, hpath]
    cases hkid : kids i with
    | absent =>
      have hv : r.mem (f + 8 * i) &&& PTE_VALID = 0 := by rw [hkid] at hslot; exact hslot
      simp only [if_pos hv]
      refine ⟨kids, walked_refl hslot, .inr ⟨by decide, rfl, ?_⟩⟩
      rw [lookup_node, hkid]
      exact lookup_absent _
    | node g kk =>
      have hslot' := hslot
      rw [hkid] at hslot'
      obtain ⟨hd, hg, hslots⟩ := hslot'
      obtain ⟨hv, ht, hptr⟩ := tableDesc_spec hg
      rw [hd]
      simp only [if_neg hv, if_neg ht, hptr]
      have hsub := (nodup_kid hnd i).2.2
      rw [hkid] at hsub
      obtain ⟨kk', hw, hres⟩ := ih r g kk hg.aligned hsub (hslots _)
      refine ⟨_, hw.up hkid hf hnd hslot, UnmapResult.node ?_⟩
      rw [hkid]
      exact hres

/-- A page address and an offset do not overlap. -/
lemma page_or_offset (va : ℕ) (hal : p % PAGE_SIZE = 0) :
    p ||| (va &&& (PAGE_SIZE - 1)) = p + va % PAGE_SIZE := by
  obtain ⟨q, rfl⟩ : ∃ q, p = 2 ^ 12 * q := ⟨p / 2 ^ 12, by simp only [PAGE_SIZE] at hal; omega⟩
  have hoff : va &&& (PAGE_SIZE - 1) = va % PAGE_SIZE := Nat.and_two_pow_sub_one_eq_mod va 12
  have hlt : va % PAGE_SIZE < 2 ^ 12 := Nat.mod_lt _ (by decide)
  rw [hoff]
  exact (Nat.two_pow_add_eq_or_of_lt hlt q).symm

/-- The walk of probe reads the leaf of its path. -/
lemma probeFrom_spec (k : ℕ) (f : ℕ) (kids : Fin 512 → Tree k)
    (hslot : Slot mem (mem (f + 8 * ix (3 - k) va)) (kids (ix (3 - k) va))) :
    probeFrom mem va k f = ((Radix.node f kids).lookup (path va k)).map fun m =>
      (m.1 + va % PAGE_SIZE, shownFlags m.2) := by
  induction k generalizing f with
  | zero =>
    generalize hi : ix (3 - 0) va = i at *
    have hslotAddr : f + 8 * index 3 va = f + 8 * i := by rw [← hi]; rfl
    have hpath : path va 0 = [i] := by rw [← hi]; rfl
    rw [probeFrom, hslotAddr, hpath, lookup_node]
    cases hkid : kids i with
    | absent =>
      rw [hkid, slot_absent] at hslot
      simp only [if_pos hslot, lookup_absent, Option.map_none]
    | leaf l =>
      rw [hkid] at hslot
      obtain ⟨hd, hal, hlt⟩ := hslot
      obtain ⟨hv, haddr, hflags⟩ := leafDesc_spec l.2 hal hlt
      rw [hd]
      simp only [if_neg hv, haddr, hflags, page_or_offset va hal]
      rfl
  | succ k ih =>
    generalize hi : ix (3 - (k + 1)) va = i at *
    have hslotAddr : f + 8 * index (3 - (k + 1)) va = f + 8 * i := by rw [← hi]; rfl
    have hpath : path va (k + 1) = i :: path va k := by rw [← hi]; rfl
    rw [probeFrom, hslotAddr, hpath, lookup_node]
    cases hkid : kids i with
    | absent =>
      rw [hkid, slot_absent] at hslot
      simp only [if_pos hslot, lookup_absent, Option.map_none]
    | node g kk =>
      rw [hkid] at hslot
      obtain ⟨hd, hg, hslots⟩ := hslot
      obtain ⟨hv, ht, hptr⟩ := tableDesc_spec hg
      rw [hd]
      simp only [if_neg hv, if_neg ht, hptr]
      exact ih g kk (hslots _)

/-! ## Runs -/

/-- The tables of the address space are a tree that maps what the ghost map says. -/
structure Inv (s : Sys) (kids : Fin 512 → Tree 3) : Prop where
  root : IsTable s.root
  slots : ∀ i : Fin 512, i ≠ 0 → Slot s.ram.mem (s.ram.mem (s.root + 8 * i)) (kids i)
  kid0 : kids 0 = .absent
  held : (Radix.node s.root kids).frames.Perm s.held
  nodup : s.held.Nodup
  free : FreeOk s.held s.ram.free
  maps : ∀ va, UserVa va → (Radix.node s.root kids).lookup (path va 3) = s.maps (va / PAGE_SIZE)

section

variable {s s' : Sys} {kids : Fin 512 → Tree 3}

lemma Inv.frames_nodup (hs : Inv s kids) :
    ((Radix.node s.root kids).frames ++ s.ram.free).Nodup := by
  refine (hs.held.append_right _).nodup_iff.mpr (nodup_append.mpr
    ⟨hs.nodup, hs.free.nodup, fun f hf g hg hc => ?_⟩)
  exact hs.free.unused g hg (hc ▸ hf)

variable {va : ℕ}

lemma Inv.probe (hs : Inv s kids) (hva : UserVa va) :
    vmmProbe s.ram.mem s.root va = expected s va := by
  rw [vmmProbe, probeFrom_spec 3 s.root kids (hs.slots _ (ix_ne_zero hva)), hs.maps va hva]
  rfl

/-- The invariant after a walk through the root. -/
lemma Inv.walked {r' : Ram} {kids' : Fin 512 → Tree 3}
    {maps : ℕ → Option (ℕ × ℕ)} (hs : Inv s kids) (hva : UserVa va)
    (hw : Walked s.ram r' s.root (ix 0 va) kids kids' new)
    (hmaps : ∀ va', UserVa va' →
      (Radix.node s.root kids').lookup (path va' 3) = maps (va' / PAGE_SIZE)) :
    Inv ⟨r', s.root, s.held ++ new, maps⟩ kids' := by
  have hnd := hs.frames_nodup
  have hfree := hs.free
  have hfr := hw.free
  refine ⟨hs.root, fun i hi => ?_, ?_, ?_, ?_, ⟨?_, fun f hf hc => ?_, fun f hf => ?_⟩, hmaps⟩
  · exact hw.slots hnd hs.root.aligned fun _ => hs.slots i hi
  · rw [hw.others 0 (ix_ne_zero hva).symm]
    exact hs.kid0
  · exact hw.frames_node.trans (hs.held.append_right _)
  · refine nodup_append.mpr ⟨hs.nodup, ?_, fun f hf g hg hc => ?_⟩
    · have := hfree.nodup
      rw [hfr] at this
      exact (nodup_append.mp this).1
    · exact hfree.unused g (by rw [hfr]; exact mem_append_left _ hg) (hc ▸ hf)
  · have := hfree.nodup
    rw [hfr] at this
    exact (nodup_append.mp this).2.1
  · rcases mem_append.mp hc with hc | hc
    · exact hfree.unused f (by rw [hfr]; exact List.mem_append_right _ hf) hc
    · have := hfree.nodup
      rw [hfr] at this
      exact (nodup_append.mp this).2.2 f hc f hf rfl
  · exact hfree.frame f (by rw [hfr]; exact List.mem_append_right _ hf)

/-- What a map does to the address space: it enters the page where there was none, or fails
because the page is taken or the frames for its tables run out. -/
lemma Inv.map (hs : Inv s kids) (flags : ℕ) (hva : UserVa va)
    (hval : va % PAGE_SIZE = 0) (hpal : pa % PAGE_SIZE = 0) (hpa : pa < 2 ^ 48) :
    ∃ kids' new, s.ram.free = new ++ (vmmMapAt s.ram s.root va pa flags).1.free ∧
      Inv ⟨(vmmMapAt s.ram s.root va pa flags).1, s.root, s.held ++ new,
        if (vmmMapAt s.ram s.root va pa flags).2 = 0
        then update s.maps (va / PAGE_SIZE) (some (pa, flags)) else s.maps⟩ kids' ∧
      Grown (vmmMapAt s.ram s.root va pa flags).2 (path va 3) (Radix.node s.root kids)
        (Radix.node s.root kids') new (vmmMapAt s.ram s.root va pa flags).1.free ∧
      ((vmmMapAt s.ram s.root va pa flags).2 = 0 → s.maps (va / PAGE_SIZE) = none) ∧
      ∀ a, alignDown a ∉ s.held ++ new →
        (vmmMapAt s.ram s.root va pa flags).1.mem a = s.ram.mem a := by
  have hok : ¬ (isAligned va = false ∨ isAligned pa = false) := by
    simp [isAligned, hval, hpal]
  rw [vmmMapAt, if_neg hok]
  obtain ⟨kids', new, hw, hres, hgrown⟩ := mapFrom_spec flags hpal hpa 3 s.ram s.root kids
    hs.root.aligned hs.frames_nodup hs.free.frame (hs.slots _ (ix_ne_zero hva))
  refine ⟨kids', new, hw.free, hs.walked hva hw fun va' hva' => ?_, hgrown, fun he => ?_,
    fun a ha => ?_⟩
  · rcases hres with ⟨he, _, hlook, _⟩ | ⟨hne, hlook, _⟩
    · rw [if_pos he, hlook]
      by_cases hpage : va' / PAGE_SIZE = va / PAGE_SIZE
      · rw [if_pos ((path_eq_iff hva'.2 hva.2).mpr hpage), hpage, update_self]
      · rw [if_neg fun hc => hpage ((path_eq_iff hva'.2 hva.2).mp hc),
          update_of_ne hpage]
        exact hs.maps va' hva'
    · rw [if_neg hne, hlook]
      exact hs.maps va' hva'
  · rcases hres with ⟨_, hnone, _⟩ | ⟨hne, _⟩
    · rw [← hs.maps va hva]
      exact hnone
    · exact absurd he hne
  · have hroot : s.root ∈ s.held := hs.held.subset mem_cons_self
    refine hw.outside a ?_ fun hc => ha ?_
    · rintro rfl
      rw [alignDown_slot hs.root.aligned] at ha
      exact ha (mem_append_left _ hroot)
    · rcases mem_append.mp hc with hc | hc
      · exact mem_append_left _ (hs.held.subset (frames_of_kid hc))
      · exact List.mem_append_right _ hc

lemma inv_map (hs : Inv s kids) {flags : ℕ} {res : ℤ}
    (h : Step s (.map va pa flags res) s') : ∃ kids', Inv s' kids' := by
  obtain ⟨ram', root', held', maps'⟩ := s'
  obtain ⟨hva, hpa, hcall, rfl, ⟨new, hnew, rfl⟩, rfl⟩ := h
  by_cases hal : isAligned va = false ∨ isAligned pa = false
  · -- a misaligned address changes nothing
    rw [vmmMapAt, if_pos hal] at hcall
    obtain ⟨rfl, rfl⟩ := Prod.mk.inj hcall
    obtain rfl : new = [] := by simpa using hnew
    refine ⟨kids, ?_⟩
    rw [if_neg (by decide), List.append_nil]
    exact hs
  have hval : va % PAGE_SIZE = 0 := by
    have := (not_or.mp hal).1
    simpa [isAligned] using this
  have hpal : pa % PAGE_SIZE = 0 := by
    have := (not_or.mp hal).2
    simpa [isAligned] using this
  obtain ⟨kids', new', hfree, hinv, _⟩ := hs.map flags hva hval hpal hpa
  rw [← hcall] at hfree hinv
  obtain rfl : new = new' := List.append_cancel_right (hnew.symm.trans hfree)
  exact ⟨kids', hinv⟩

/-- What an unmap does to the address space: it removes the page, if there is one. -/
lemma Inv.unmap (hs : Inv s kids) (hva : UserVa va) :
    ∃ kids', (vmmUnmapAt s.ram s.root va).1.free = s.ram.free ∧
      Inv ⟨(vmmUnmapAt s.ram s.root va).1, s.root, s.held,
        if (vmmUnmapAt s.ram s.root va).2 = 0
        then update s.maps (va / PAGE_SIZE) none else s.maps⟩ kids' ∧
      ((vmmUnmapAt s.ram s.root va).2 = 0 ↔ s.maps (va / PAGE_SIZE) ≠ none) ∧
      ∀ a, alignDown a ∉ s.held → (vmmUnmapAt s.ram s.root va).1.mem a = s.ram.mem a := by
  rw [vmmUnmapAt]
  obtain ⟨kids', hw, hres⟩ := unmapFrom_spec 3 s.ram s.root kids hs.root.aligned hs.frames_nodup
    (hs.slots _ (ix_ne_zero hva))
  have hlook := hs.maps va hva
  refine ⟨kids', hw.free.symm, ?_, ?_, fun a ha => ?_⟩
  · rw [← List.append_nil s.held]
    refine hs.walked hva hw fun va' hva' => ?_
    rcases hres with ⟨he, _, hafter⟩ | ⟨hne, hsame, _⟩
    · rw [if_pos he, hafter]
      by_cases hpage : va' / PAGE_SIZE = va / PAGE_SIZE
      · rw [if_pos ((path_eq_iff hva'.2 hva.2).mpr hpage), hpage, update_self]
      · rw [if_neg fun hc => hpage ((path_eq_iff hva'.2 hva.2).mp hc),
          update_of_ne hpage]
        exact hs.maps va' hva'
    · rw [if_neg hne, hsame]
      exact hs.maps va' hva'
  · rw [← hlook]
    rcases hres with ⟨he, ⟨m, hm, _⟩, _⟩ | ⟨hne, _, hnone⟩
    · simp [he, hm]
    · simp [hne, hnone]
  · have hroot : s.root ∈ s.held := hs.held.subset mem_cons_self
    refine hw.outside a ?_ fun hc => ha ?_
    · rintro rfl
      rw [alignDown_slot hs.root.aligned] at ha
      exact ha hroot
    · rw [List.append_nil] at hc
      exact hs.held.subset (frames_of_kid hc)

lemma inv_unmap (hs : Inv s kids) {res : ℤ} (h : Step s (.unmap va res) s') :
    ∃ kids', Inv s' kids' := by
  obtain ⟨ram', root', held', maps'⟩ := s'
  obtain ⟨hva, hcall, rfl, rfl, rfl⟩ := h
  obtain ⟨kids', _, hinv, _⟩ := hs.unmap hva
  rw [← hcall] at hinv
  exact ⟨kids', hinv⟩

lemma inv_other (hs : Inv s kids) (h : Step s .other s') : Inv s' kids := by
  obtain ⟨ram', root', held', maps'⟩ := s'
  obtain ⟨hmem, hfree, rfl, rfl, rfl⟩ := h
  have hroot : s.root ∈ s.held := hs.held.subset mem_cons_self
  refine ⟨hs.root, fun i hi => ?_, hs.kid0, hs.held, hs.nodup, hfree, hs.maps⟩
  have hword : ram'.mem (s.root + 8 * i) = s.ram.mem (s.root + 8 * i) :=
    hmem _ (by rw [alignDown_slot hs.root.aligned]; exact hroot)
  rw [hword]
  exact (hs.slots i hi).congr fun a ha => hmem a (hs.held.subset (frames_of_kid ha))

lemma inv_step (hs : ∃ kids, Inv s kids) {op : Op} (h : Step s op s') : ∃ kids, Inv s' kids := by
  obtain ⟨kids, hs⟩ := hs
  cases op with
  | map va pa flags res => exact inv_map hs h
  | unmap va res => exact inv_unmap hs h
  | other => exact ⟨kids, inv_other hs h⟩

/-- A fresh root maps nothing. -/
lemma inv_rootAlloc {r' : Ram} {sharedL1 root : ℕ} (hfree : FreeOk [] r.free)
    (hroot : vmmRootAlloc r sharedL1 = (r', root)) (hne : root ≠ 0) :
    Inv ⟨r', root, [root], fun _ => none⟩ fun _ => .absent := by
  rw [vmmRootAlloc, Ram.pmmAlloc] at hroot
  cases hr : r.free with
  | nil =>
    rw [hr] at hroot
    exact absurd (Prod.mk.inj hroot).2.symm hne
  | cons nt fs =>
    have hnt : IsTable nt := hfree.frame nt (by rw [hr]; exact mem_cons_self)
    have hpos := hnt.pos
    have hnd := hfree.nodup
    rw [hr] at hroot hnd
    simp only [if_neg (show ¬ nt = 0 by omega)] at hroot
    obtain ⟨rfl, rfl⟩ := Prod.mk.inj hroot
    obtain ⟨hnot, hfs⟩ := nodup_cons.mp hnd
    refine ⟨hnt, fun i hi => ?_, rfl, ?_, List.nodup_singleton _, ⟨hfs, fun f hf hc => ?_,
      fun f hf => hfree.frame f (by rw [hr]; exact List.mem_cons_of_mem _ hf)⟩, fun va _ => ?_⟩
    · have hi0 : (i : ℕ) ≠ 0 := fun hc => hi (Fin.ext hc)
      have hidx : index 0 0 = 0 := by decide
      rw [slot_absent, hidx]
      show (Ram.set _ (nt + 8 * 0) _).mem (nt + 8 * (i : ℕ)) &&& PTE_VALID = 0
      rw [set_mem_of_ne _ _ (by omega),
        zeroPage_mem (by omega) (by simp only [PAGE_SIZE]; omega)]
      rfl
    · have he : (Radix.node nt fun _ => .absent : Tree 4).frames = [nt] := frames_empty nt
      rw [he]
    · exact hnot (List.mem_singleton.mp hc ▸ hf)
    · exact lookup_empty nt _

end

/-- Along every run of maps and unmaps on a fresh root, a probe of a user address answers
what the last successful map of its page says, and a call that fails or concerns another
page changes no answer. -/
theorem vmm_refines_map (r r' : Ram) (sharedL1 root : ℕ) (hfree : FreeOk [] r.free)
    (hroot : vmmRootAlloc r sharedL1 = (r', root)) (hne : root ≠ 0) (ops : List Op) (s : Sys)
    (hrun : Run Step ⟨r', root, [root], fun _ => none⟩ ops s) :
    (∀ va, UserVa va → vmmProbe s.ram.mem s.root va = expected s va) ∧
      ∀ op s', Step s op s' → ∀ va, UserVa va → ¬ op.Hits (va / PAGE_SIZE) →
        vmmProbe s'.ram.mem s'.root va = vmmProbe s.ram.mem s.root va := by
  obtain ⟨kids, hs⟩ := hrun.invariant (I := fun s => ∃ kids, Inv s kids)
    ⟨_, inv_rootAlloc hfree hroot hne⟩ fun _ _ _ hs h => inv_step hs h
  refine ⟨fun va hva => hs.probe hva, fun op s' hstep va hva hhits => ?_⟩
  obtain ⟨kids', hs'⟩ := inv_step ⟨kids, hs⟩ hstep
  rw [hs.probe hva, hs'.probe hva, expected, expected]
  -- the ghost map of the page is the same before and after
  have hsame : s'.maps (va / PAGE_SIZE) = s.maps (va / PAGE_SIZE) := by
    cases op with
    | map va' pa flags res =>
      obtain ⟨_, _, _, _, _, hmaps⟩ := hstep
      rw [hmaps]
      split_ifs with hres
      · exact update_of_ne (fun hc => hhits ⟨hres, hc.symm⟩) _ _
      · rfl
    | unmap va' res =>
      obtain ⟨_, _, _, _, hmaps⟩ := hstep
      rw [hmaps]
      split_ifs with hres
      · exact update_of_ne (fun hc => hhits ⟨hres, hc.symm⟩) _ _
      · rfl
    | other =>
      obtain ⟨_, _, _, _, hmaps⟩ := hstep
      rw [hmaps]
  rw [hsame]

/-- Four free frames, the first of which becomes a root. -/
def fourFrames : Ram := ⟨fun _ => 0, [0x50000000, 0x50001000, 0x50002000, 0x50003000]⟩

lemma freeOk_fourFrames : FreeOk [] fourFrames.free := by
  refine ⟨by decide, by simp, fun f hf => ?_⟩
  simp only [fourFrames, mem_cons, List.not_mem_nil, or_false] at hf
  rcases hf with rfl | rfl | rfl | rfl <;> exact ⟨by decide, by decide, by decide⟩

/-- The address space after the user page at 2^40 has been mapped with `flags`. -/
def mapped (flags : ℕ) : Sys :=
  let r := vmmRootAlloc fourFrames 0x40200000
  ⟨(vmmMapAt r.1 r.2 (2 ^ 40) 0x60000000 flags).1, r.2,
    [0x50000000] ++ [0x50001000, 0x50002000, 0x50003000],
    update (fun _ => none) (2 ^ 40 / PAGE_SIZE) (some (0x60000000, flags))⟩

lemma run_mapped (flags : ℕ) :
    Run Step ⟨(vmmRootAlloc fourFrames 0x40200000).1, 0x50000000, [0x50000000], fun _ => none⟩
      [.map (2 ^ 40) 0x60000000 flags 0] (mapped flags) := by
  refine Run.single ⟨⟨by decide, by decide⟩, by decide, ?_, rfl, ⟨_, ?_, rfl⟩, rfl⟩
  · rfl
  · rfl

theorem vmm_refines_map_one_page :
    vmmProbe (mapped (VM_USER ||| VM_WRITE)).ram.mem 0x50000000 (2 ^ 40 + 5)
      = some (0x60000005, VM_READ ||| VM_WRITE ||| VM_USER) := by
  have h := vmm_refines_map fourFrames _ 0x40200000 0x50000000 freeOk_fourFrames rfl
    (by decide) _ _
    (run_mapped (VM_USER ||| VM_WRITE))
  exact (h.1 (2 ^ 40 + 5) ⟨by decide, by decide⟩).trans (by decide)

/-- A page mapped without `VM_READ` is reported with it. -/
theorem vmm_probe_reports_read :
    ¬ ∀ (r : Ram) (ops : List Op) (s : Sys), FreeOk [] r.free →
      (vmmRootAlloc r 0x40200000).2 ≠ 0 → Run Step ⟨(vmmRootAlloc r 0x40200000).1, (vmmRootAlloc r 0x40200000).2,
        [(vmmRootAlloc r 0x40200000).2], fun _ => none⟩ ops s →
      ∀ va, UserVa va → vmmProbe s.ram.mem s.root va
        = (s.maps (va / PAGE_SIZE)).map fun m => (m.1 + va % PAGE_SIZE, m.2) := by
  intro h
  have hprobe := h fourFrames _ _ freeOk_fourFrames (by decide) (run_mapped VM_USER) (2 ^ 40) ⟨by decide, by decide⟩
  revert hprobe
  decide

end Vmm
end Mm
end MobilePhoneOs
