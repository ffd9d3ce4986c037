import MobilePhoneOs.Mm.Pmm

/-!
# Page tables (`mm/vmm.c`)

The stage-1 tables of a process: four levels of 512 descriptors. Memory is the word at each
address, as the tables are touched through the identity map. The PMM is its free list: a
frame is taken from the front and given back to the front.
-/

namespace MobilePhoneOs.Mm

def VM_READ : ℕ := 1 <<< 0
def VM_WRITE : ℕ := 1 <<< 1
def VM_EXEC : ℕ := 1 <<< 2
def VM_USER : ℕ := 1 <<< 3
def VM_DEVICE : ℕ := 1 <<< 4

def PTE_VALID : ℕ := 1 <<< 0
def PTE_TABLE : ℕ := 1 <<< 1
def ATTR_NORMAL : ℕ := 0
def ATTR_DEVICE : ℕ := 1
def PTE_ATTR (n : ℕ) : ℕ := n <<< 2
def PTE_AP_SHIFT : ℕ := 6
def PTE_SH_INNER : ℕ := 3 <<< 8
def PTE_AF : ℕ := 1 <<< 10
def PTE_NG : ℕ := 1 <<< 11
def PTE_PXN : ℕ := 1 <<< 53
def PTE_UXN : ℕ := 1 <<< 54

def PT_ENTRIES : ℕ := 512

/-- `PT_ADDR_MASK`: bits 12 to 47. -/
def PT_ADDR_MASK : ℕ := 2 ^ 48 - 2 ^ 12

/-- `level_shift` -/
def LEVEL_SHIFT : List ℕ := [39, 30, 21, 12]

def levelShift (lvl : ℕ) : ℕ := LEVEL_SHIFT.getD lvl 0

/-- The slot of a table of level `lvl` that `va` selects. -/
def index (lvl va : ℕ) : ℕ := va >>> levelShift lvl &&& (PT_ENTRIES - 1)

/-! ## Descriptors -/

/-- `table_ptr` -/
def tablePtr (desc : ℕ) : ℕ := desc &&& PT_ADDR_MASK

/-- `leaf_desc` -/
def leafDesc (pa flags : ℕ) : ℕ :=
  let ap :=
    if flags &&& VM_USER ≠ 0 then
      if flags &&& VM_WRITE ≠ 0 then 1 <<< PTE_AP_SHIFT else 3 <<< PTE_AP_SHIFT
    else
      if flags &&& VM_WRITE ≠ 0 then 0 <<< PTE_AP_SHIFT else 2 <<< PTE_AP_SHIFT
  let xn :=
    if flags &&& VM_EXEC = 0 then PTE_PXN ||| PTE_UXN
    else if flags &&& VM_USER ≠ 0 then PTE_PXN
    else PTE_UXN
  let attr := if flags &&& VM_DEVICE ≠ 0 then PTE_ATTR ATTR_DEVICE else PTE_ATTR ATTR_NORMAL
  let ng := if flags &&& VM_USER ≠ 0 then PTE_NG else 0
  PTE_VALID ||| PTE_TABLE ||| attr ||| ap ||| PTE_SH_INNER ||| PTE_AF ||| ng ||| xn |||
    alignDown pa

/-- `table_desc` -/
def tableDesc (tablePa : ℕ) : ℕ := PTE_VALID ||| PTE_TABLE ||| tablePa

/-- `vmm_decode_flags` -/
def vmmDecodeFlags (desc : ℕ) : ℕ :=
  let ap := desc >>> 6 &&& 3
  VM_READ
    ||| (if ap &&& 2 = 0 then VM_WRITE else 0)
    ||| (if ap &&& 1 ≠ 0 then VM_USER else 0)
    ||| (if desc >>> 54 &&& 1 = 0 then VM_EXEC else 0)
    ||| (if desc >>> 2 &&& 3 = ATTR_DEVICE then VM_DEVICE else 0)

/-! ## Memory and frames -/

/-- Memory, and the free frames in the order the PMM hands them out. -/
structure Ram where
  mem : Mem
  free : List ℕ

namespace Ram

def set (r : Ram) (a v : ℕ) : Ram := { r with mem := Function.update r.mem a v }

/-- The loop that clears the 512 words of a table. -/
def zeroPage (r : Ram) (pa : ℕ) : Ram :=
  { r with mem := fun a => if pa ≤ a ∧ a < pa + PAGE_SIZE then 0 else r.mem a }

/-- `pmm_alloc` on the free list. -/
def pmmAlloc (r : Ram) : Ram × ℕ :=
  match r.free with
  | [] => (r, 0)
  | f :: fs => ({ r with free := fs }, f)

/-- `pmm_free` on the free list. -/
def pmmFree (r : Ram) (pa : ℕ) : Ram := { r with free := pa :: r.free }

end Ram

/-! ## The walks -/

/-- `vmm_root_alloc`, with `sharedL1` the kernel's level-1 table. -/
def vmmRootAlloc (r : Ram) (sharedL1 : ℕ) : Ram × ℕ :=
  let (r, pa) := r.pmmAlloc
  if pa = 0 then (r, 0)
  else ((r.zeroPage pa).set (pa + 8 * index 0 0) (tableDesc sharedL1), pa)

/-- The walk of `vmm_map_at` from the table `t` of level `3 - k` down to the page. -/
def mapFrom (va pa flags : ℕ) : ℕ → Ram → ℕ → Ram × ℤ
  | 0, r, t =>
    let slot := t + 8 * index 3 va
    if r.mem slot &&& PTE_VALID ≠ 0 then (r, -4)
    else (r.set slot (leafDesc pa flags), 0)
  | k + 1, r, t =>
    let slot := t + 8 * index (3 - (k + 1)) va
    let d := r.mem slot
    if d &&& PTE_VALID = 0 then
      let (r, nt) := r.pmmAlloc
      if nt = 0 then (r, -2)
      else
        let r := (r.zeroPage nt).set slot (tableDesc nt)
        mapFrom va pa flags k r (tablePtr (r.mem slot))
    else if d &&& PTE_TABLE ≠ 0 then mapFrom va pa flags k r (tablePtr d)
    else (r, -3)

/-- `vmm_map_at` -/
def vmmMapAt (r : Ram) (rootPa va pa flags : ℕ) : Ram × ℤ :=
  if isAligned va = false ∨ isAligned pa = false then (r, -1)
  else mapFrom va pa flags 3 r rootPa

/-- The walk of `vmm_unmap_at` from the table `t` of level `3 - k`. -/
def unmapFrom (va : ℕ) : ℕ → Ram → ℕ → Ram × ℤ
  | 0, r, t =>
    let slot := t + 8 * index 3 va
    if r.mem slot &&& PTE_VALID = 0 then (r, -1) else (r.set slot 0, 0)
  | k + 1, r, t =>
    let slot := t + 8 * index (3 - (k + 1)) va
    let d := r.mem slot
    if d &&& PTE_VALID = 0 then (r, -1)
    else if d &&& PTE_TABLE = 0 then (r.set slot 0, 0)
    else unmapFrom va k r (tablePtr d)

/-- `vmm_unmap_at` -/
def vmmUnmapAt (r : Ram) (rootPa va : ℕ) : Ram × ℤ := unmapFrom va 3 r rootPa

/-- The walk of `vmm_probe` from the table `t` of level `3 - k`. -/
def probeFrom (mem : Mem) (va : ℕ) : ℕ → ℕ → Option (ℕ × ℕ)
  | 0, t =>
    let d := mem (t + 8 * index 3 va)
    if d &&& PTE_VALID = 0 then none
    else some (d &&& PT_ADDR_MASK ||| (va &&& (PAGE_SIZE - 1)), vmmDecodeFlags d)
  | k + 1, t =>
    let d := mem (t + 8 * index (3 - (k + 1)) va)
    if d &&& PTE_VALID = 0 then none
    else if d &&& PTE_TABLE = 0 then
      -- a block descriptor
      let off := 1 <<< levelShift (3 - (k + 1)) - 1
      some (d &&& PT_ADDR_MASK ||| (va &&& off), vmmDecodeFlags d)
    else probeFrom mem va k (tablePtr d)

/-- `vmm_probe`: the physical address and the flags. -/
def vmmProbe (mem : Mem) (rootPa va : ℕ) : Option (ℕ × ℕ) := probeFrom mem va 3 rootPa

/-! ## Runs -/

namespace Vmm

/-- A frame that a table descriptor can name. -/
structure IsTable (f : ℕ) : Prop where
  pos : 0 < f
  lt : f < 2 ^ 48
  aligned : f % PAGE_SIZE = 0

/-- The addresses below 2^48 outside slot 0 of the root, which is the kernel's own map. -/
def UserVa (va : ℕ) : Prop := 2 ^ 39 ≤ va ∧ va < 2 ^ 48

/-- The flags that a mapping reports: `VM_READ` is implied, `VM_EXEC` is execution by EL0. -/
def shownFlags (flags : ℕ) : ℕ :=
  VM_READ ||| (flags &&& VM_WRITE) ||| (flags &&& VM_USER)
    ||| (if flags &&& VM_USER ≠ 0 then flags &&& VM_EXEC else 0) ||| (flags &&& VM_DEVICE)

/-- An address space. `held` lists the frames of its tables and `maps` the page and flags of
the last successful map of each page not unmapped since. -/
structure Sys where
  ram : Ram
  root : ℕ
  held : List ℕ
  maps : ℕ → Option (ℕ × ℕ)

inductive Op
  | map (va pa flags : ℕ) (res : ℤ)
  | unmap (va : ℕ) (res : ℤ)
  /-- memory outside the tables and the PMM move on -/
  | other

/-- What the PMM may have on its list: distinct frames that are not in use. -/
structure FreeOk (held free : List ℕ) : Prop where
  nodup : free.Nodup
  unused : ∀ f ∈ free, f ∉ held
  frame : ∀ f ∈ free, IsTable f

/-- One call on the address space, or a step of the rest of the system. -/
def Step (s : Sys) : Op → Sys → Prop
  | .map va pa flags res, s' =>
    UserVa va ∧ pa < 2 ^ 48 ∧ (s'.ram, res) = vmmMapAt s.ram s.root va pa flags ∧
      s'.root = s.root ∧ (∃ new, s.ram.free = new ++ s'.ram.free ∧ s'.held = s.held ++ new) ∧
      s'.maps = if res = 0 then Function.update s.maps (va / PAGE_SIZE) (some (pa, flags))
        else s.maps
  | .unmap va res, s' =>
    UserVa va ∧ (s'.ram, res) = vmmUnmapAt s.ram s.root va ∧
      s'.root = s.root ∧ s'.held = s.held ∧
      s'.maps = if res = 0 then Function.update s.maps (va / PAGE_SIZE) none else s.maps
  | .other, s' =>
    (∀ a, alignDown a ∈ s.held → s'.ram.mem a = s.ram.mem a) ∧
      FreeOk s.held s'.ram.free ∧ s'.root = s.root ∧ s'.held = s.held ∧ s'.maps = s.maps

/-- Whether the call changed the mapping of the page. -/
def Op.Hits (page : ℕ) : Op → Prop
  | .map va _ _ res => res = 0 ∧ va / PAGE_SIZE = page
  | .unmap va res => res = 0 ∧ va / PAGE_SIZE = page
  | .other => False

/-- What a probe of `va` should answer. -/
def expected (s : Sys) (va : ℕ) : Option (ℕ × ℕ) :=
  (s.maps (va / PAGE_SIZE)).map fun m => (m.1 + va % PAGE_SIZE, shownFlags m.2)

end Vmm
end MobilePhoneOs.Mm
