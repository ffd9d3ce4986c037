import MobilePhoneOs.Mm.VmmTheorems

/-!
# Address spaces with their pages

The calls of `mm/vmm.c` and of the PMM on an address space, with the frames that became
tables and the pages that are mapped noted. `Space` adds the pages to the invariant of the
tables. Mapping pages one after another makes the tables that are missing on their paths;
`tablesFor` counts them from the tables that are there.
-/

namespace MobilePhoneOs.Mm.Vmm

/-! ## The calls -/

namespace Sys

/-- `pmm_alloc` -/
def alloc (s : Sys) : Sys × ℕ := ({ s with ram := s.ram.pmmAlloc.1 }, s.ram.pmmAlloc.2)

/-- `pmm_free` -/
def release (s : Sys) (pa : ℕ) : Sys := { s with ram := s.ram.pmmFree pa }

/-- `memset` of a page to zero. -/
def zero (s : Sys) (pa : ℕ) : Sys := { s with ram := s.ram.zeroPage pa }

/-- `vmm_map_at`. The frames it took from the free list are tables now. -/
def mapAt (s : Sys) (va pa flags : ℕ) : Sys × ℤ :=
  let (r, e) := vmmMapAt s.ram s.root va pa flags
  let taken := s.ram.free.take (s.ram.free.length - r.free.length)
  ({ s with
      ram := r
      held := s.held ++ taken
      maps := if e = 0 then Function.update s.maps (va / PAGE_SIZE) (some (pa, flags))
        else s.maps }, e)

/-- `vmm_unmap_at` -/
def unmapAt (s : Sys) (va : ℕ) : Sys × ℤ :=
  let (r, e) := vmmUnmapAt s.ram s.root va
  ({ s with
      ram := r
      maps := if e = 0 then Function.update s.maps (va / PAGE_SIZE) none else s.maps }, e)

/-- `vmm_probe` -/
def probe (s : Sys) (va : ℕ) : Option (ℕ × ℕ) := vmmProbe s.ram.mem s.root va

/-- The byte that a user address leads to. -/
def byte (s : Sys) (va : ℕ) : Option ℕ := (s.probe va).map fun m => s.ram.mem m.1

end Sys

/-- The addresses of a loop `for (va = lo; va < hi; va += PAGE_SIZE)`. -/
def pagesFrom (lo hi : ℕ) : List ℕ :=
  (List.range ((hi - lo + (PAGE_SIZE - 1)) / PAGE_SIZE)).map fun i => lo + i * PAGE_SIZE

/-! ## Counting tables -/

/-- There is a table at the end of a path of slots from the table `t`. -/
def present (mem : Mem) : ℕ → List (Fin 512) → Bool
  | _, [] => true
  | t, i :: p =>
    let d := mem (t + 8 * i)
    decide (d &&& PTE_VALID ≠ 0) && decide (d &&& PTE_TABLE ≠ 0) && present mem (tablePtr d) p

/-- The paths to the tables that the walk to a page goes through, the root apart. -/
def steps (va : ℕ) : List (List (Fin 512)) := (List.range 3).map fun j => (path va 3).take (j + 1)

/-- How many tables are made when the pages are mapped one after another and the tables
`there` exist. -/
def tablesFor (there : List (Fin 512) → Bool) : List ℕ → ℕ
  | [] => 0
  | va :: vas =>
    ((steps va).filter fun p => !there p).length
      + tablesFor (fun p => there p || decide (p ∈ steps va)) vas

/-- The frame that the page `k` of `vas` gets when they are mapped one after another, each with
the next frame of the free list and the tables missing on its path from behind it. -/
def frameFor (s : Sys) (vas : List ℕ) (k : ℕ) : ℕ :=
  s.ram.free.getD (k + tablesFor (present s.ram.mem s.root) (vas.take k)) 0

/-! ## Spaces -/

/-- The tables are a tree, and the pages that it maps are in use and no tables. -/
structure Space (s : Sys) : Prop where
  tables : ∃ kids, Inv s kids
  pages : ∀ page m, s.maps page = some m → IsTable m.1 ∧ m.1 ∉ s.held ∧ m.1 ∉ s.ram.free

/-- What a map of the page at `va` may come to: the page is entered, it was taken, or there
are too few frames for its tables. -/
inductive Mapped (s s' : Sys) (va pa flags : ℕ) (res : ℤ) : Prop
  | entered (hres : res = 0) (hnone : s.maps (va / PAGE_SIZE) = none)
      (hroom : tablesFor (present s.ram.mem s.root) [va] ≤ s.ram.free.length)
      (hfree : s'.ram.free = s.ram.free.drop (tablesFor (present s.ram.mem s.root) [va]))
      (hheld : s'.held = s.held ++ s.ram.free.take (tablesFor (present s.ram.mem s.root) [va]))
      (hmaps : s'.maps = Function.update s.maps (va / PAGE_SIZE) (some (pa, flags)))
      (hthere : ∀ va', UserVa va' → ∀ p ∈ steps va', present s'.ram.mem s.root p
        = (present s.ram.mem s.root p || decide (p ∈ steps va)))
  | taken (hres : res ≠ 0) (hsome : s.maps (va / PAGE_SIZE) ≠ none)
      (hfree : s'.ram.free = s.ram.free) (hheld : s'.held = s.held) (hmaps : s'.maps = s.maps)
  | starved (hres : res ≠ 0) (hnone : s.maps (va / PAGE_SIZE) = none)
      (hroom : s.ram.free.length < tablesFor (present s.ram.mem s.root) [va])
      (hfree : s'.ram.free = []) (hheld : s'.held = s.held ++ s.ram.free)
      (hmaps : s'.maps = s.maps)

end MobilePhoneOs.Mm.Vmm
