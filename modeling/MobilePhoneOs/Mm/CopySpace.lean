import MobilePhoneOs.Lib.Mem
import MobilePhoneOs.Mm.VmmTheorems

/-!
# Copying and releasing an address space (`mm/vmm.c`)

`vmm_copy_space` copies the user slots of a root depth first: a table is made, filled and only
then entered above. `vmm_root_release` gives back what the slots of a root lead to. Cells of
memory are words of tables or bytes of pages.
-/

namespace MobilePhoneOs.Mm.Vmm

def VMM_ERR_NOMEM : ℤ := -5
def VMM_ERR_BLOCK : ℤ := -6

/-! ## The calls -/

/-- A loop over slots of a table that ends at the first error. -/
def overSlots (f : Ram → Fin 512 → Ram × ℤ) : List (Fin 512) → Ram → Ram × ℤ
  | [], r => (r, 0)
  | i :: is, r =>
    let (r, e) := f r i
    if e ≠ 0 then (r, e) else overSlots f is r

/-- The body of the loop of `copy_level` for a slot of level 3. -/
def copyPage (src dst : ℕ) (r : Ram) (i : Fin 512) : Ram × ℤ :=
  let d := r.mem (src + 8 * i)
  if d &&& PTE_VALID = 0 then (r.set (dst + 8 * i) 0, 0)
  else
    let fl := vmmDecodeFlags d
    let sp := d &&& PT_ADDR_MASK
    if d &&& PTE_TABLE = 0 then (r, -VMM_ERR_BLOCK)
    else
      let (r, np) := r.pmmAlloc
      if np = 0 then (r, -VMM_ERR_NOMEM)
      else
        let r := { r with mem := Mem.copy r.mem np PAGE_SIZE fun j => r.mem (sp + j) }
        (r.set (dst + 8 * i) (leafDesc np fl), 0)

/-- The body of the loop of `copy_level` for a slot of a level above, and of the loop of
`vmm_copy_space`; `below` copies the next level. -/
def copyTable (below : ℕ → ℕ → Ram → Ram × ℤ) (src dst : ℕ) (r : Ram) (i : Fin 512) : Ram × ℤ :=
  let d := r.mem (src + 8 * i)
  if d &&& PTE_VALID = 0 then (r.set (dst + 8 * i) 0, 0)
  else if d &&& PTE_TABLE = 0 then (r, -VMM_ERR_BLOCK)
  else
    let (r, nt) := r.pmmAlloc
    if nt = 0 then (r, -VMM_ERR_NOMEM)
    else
      let (r, e) := below (tablePtr d) nt (r.zeroPage nt)
      if e ≠ 0 then (r.pmmFree nt, e) else (r.set (dst + 8 * i) (tableDesc nt), 0)

/-- `copy_level` at level `3 - k`. -/
def copyLevel : ℕ → ℕ → ℕ → Ram → Ram × ℤ
  | 0, src, dst => overSlots (copyPage src dst) (List.finRange 512)
  | k + 1, src, dst => overSlots (copyTable (copyLevel k) src dst) (List.finRange 512)

/-- The slots of a root from `lo` on and below `hi`. -/
def rootSlots (lo hi : ℕ) : List (Fin 512) :=
  (List.finRange 512).filter fun i => decide (lo ≤ i.val ∧ i.val < hi)

/-- `vmm_copy_space` -/
def vmmCopySpace (r : Ram) (dstRoot srcRoot lo hi : ℕ) : Ram × ℤ :=
  overSlots (copyTable (copyLevel 2) srcRoot dstRoot) (rootSlots lo hi) r

/-- The body of the loop of `free_subtree`; `below` is given for the levels above 3. -/
def freeSlot (below : Option (ℕ → Ram → Ram)) (t : ℕ) (r : Ram) (i : Fin 512) : Ram :=
  let d := r.mem (t + 8 * i)
  if d &&& PTE_VALID = 0 then r
  else
    match below with
    | some f => if d &&& PTE_TABLE ≠ 0 then f (tablePtr d) r else r.pmmFree (d &&& PT_ADDR_MASK)
    | none => r.pmmFree (d &&& PT_ADDR_MASK)

/-- `free_subtree` of a table of level `3 - k`. -/
def freeSubtree : ℕ → ℕ → Ram → Ram
  | 0, t, r => ((List.finRange 512).foldl (freeSlot none t) r).pmmFree t
  | k + 1, t, r => ((List.finRange 512).foldl (freeSlot (some (freeSubtree k)) t) r).pmmFree t

/-- `vmm_root_release` -/
def vmmRootRelease (r : Ram) (root lo hi : ℕ) : Ram :=
  let lo := if lo = 0 then 1 else lo -- never free the shared map
  (rootSlots lo hi).foldl (fun (r : Ram) (i : Fin 512) =>
    if r.mem (root + 8 * i) &&& PTE_VALID = 0 then r
    else (freeSlot (some (freeSubtree 2)) root r i).set (root + 8 * i) 0) r

/-! ## What a copy is -/

/-- The frames of the tables and pages of a tree. -/
def blocks {n : ℕ} (t : Tree n) : List ℕ := t.frames ++ t.leaves.map Prod.fst

/-- How many frames a copy of the tree takes. -/
def need {n : ℕ} (t : Tree n) : ℕ := (blocks t).length

/-- The trees map the same paths with the same permissions to pages of the same content; `mem`
holds the pages of the first, `mem'` those of the second. -/
def CopyOf (mem mem' : Mem) {n : ℕ} : Tree n → Tree n → Prop
  | .absent, .absent => True
  | .leaf l, .leaf l' =>
    l'.2 = shownFlags l.2 ∧ ∀ j < PAGE_SIZE, mem' (l'.1 + j) = mem (l.1 + j)
  | .node _ kids, .node _ kids' => ∀ i, CopyOf mem mem' (kids i) (kids' i)
  | _, _ => False

/-- Of the slots in a row only one that takes no frame comes before the one that fails, and
that one fails cleanly. -/
def firstClean (need : Fin 512 → ℕ) (clean : Fin 512 → ℕ → Bool) : List (Fin 512) → ℕ → Bool
  | [], _ => true
  | i :: is, avail =>
    if need i = 0 then firstClean need clean is avail
    else decide (avail < need i) && clean i avail

/-- A copy of the tree that runs out of `avail` frames does so while every table it has made
is still empty. -/
def failsClean {n : ℕ} : Tree n → ℕ → Bool
  | .absent, _ => true
  | .leaf _, _ => true
  | .node _ kids, avail =>
    avail == 0 || firstClean (fun i => need (kids i)) (fun i => failsClean (kids i))
      (List.finRange 512) (avail - 1)

/-- The slots of a root in a row go through, or the first that does not fails cleanly. -/
def stopsClean (kids : Fin 512 → Tree 3) : List (Fin 512) → ℕ → Bool
  | [], _ => true
  | i :: is, avail =>
    if need (kids i) ≤ avail then stopsClean kids is (avail - need (kids i))
    else failsClean (kids i) avail

/-! ## The law of a call -/

/-- The source of a copy and its surroundings: the slots of the range lead to the trees `kids`,
the destination is a root without user slots, and the free frames are nobody's. -/
structure Source (r : Ram) (dst src lo hi : ℕ) (kids : Fin 512 → Tree 3) : Prop where
  user : 1 ≤ lo
  srcTable : IsTable src
  dstTable : IsTable dst
  apart : src ≠ dst
  slots : ∀ i ∈ rootSlots lo hi, Slot r.mem (r.mem (src + 8 * i)) (kids i)
  empty : ∀ i ∈ rootSlots lo hi, r.mem (dst + 8 * i) &&& PTE_VALID = 0
  nodup : r.free.Nodup
  frame : ∀ f ∈ r.free, IsTable f
  used : src ∉ r.free ∧ dst ∉ r.free
  inUse : ∀ i ∈ rootSlots lo hi, ∀ f ∈ blocks (kids i), f ∉ r.free ∧ f ≠ dst

/-- The user addresses of the slots from `lo` on and below `hi`. -/
def InSlots (lo hi va : ℕ) : Prop := UserVa va ∧ lo ≤ index 0 va ∧ index 0 va < hi

/-- The destination maps the pages that the source maps, with the same permissions and content,
in frames that were free, each page in one of its own. -/
structure Mirrors (r r' : Ram) (dst src lo hi : ℕ) : Prop where
  pages : ∀ va, InSlots lo hi va → (vmmProbe r'.mem dst va = none ↔ vmmProbe r.mem src va = none)
  same : ∀ va, InSlots lo hi va → ∀ pa fl, vmmProbe r.mem src va = some (pa, fl) →
    ∃ pa', vmmProbe r'.mem dst va = some (pa', fl) ∧ r'.mem pa' = r.mem pa ∧
      alignDown pa' ∈ r.free ∧ alignDown pa ∉ r.free
  own : ∀ va va', InSlots lo hi va → InSlots lo hi va' → ∀ m m', vmmProbe r'.mem dst va = some m →
    vmmProbe r'.mem dst va' = some m' → alignDown m.1 = alignDown m'.1 →
      va / PAGE_SIZE = va' / PAGE_SIZE

/-- What a copy should leave behind: the source and all else in use as they were; after a
success a destination that mirrors the source; after a failure nothing, once the destination has
been released. -/
structure CopyLaw (r r' : Ram) (e : ℤ) (dst src lo hi : ℕ) : Prop where
  source : ∀ a, alignDown a ∉ r.free → alignDown a ≠ dst → r'.mem a = r.mem a
  success : e = 0 → Mirrors r r' dst src lo hi
  failure : e ≠ 0 → (vmmRootRelease r' dst lo hi).free.Perm r.free

end MobilePhoneOs.Mm.Vmm
