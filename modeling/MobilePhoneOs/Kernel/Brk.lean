import MobilePhoneOs.Kernel.Uaccess
import MobilePhoneOs.Mm.Space

/-!
# The program break (`sys_brk` in `kernel/syscall.c`)

Growth takes a frame and maps it, page by page, and stops at the first page that fails; shrink
unmaps page by page. The break is stored once at the end. Between the calls the rest of the
system may write to pages and take or return frames.
-/

namespace MobilePhoneOs.Brk

open Mm Mm.Vmm

def PH14_BRK_LIMIT : ℕ := 0x000001F000000000

/-- The flags of a heap page. -/
def heapFlags : ℕ := VM_READ ||| VM_WRITE ||| VM_USER

/-- The address space of a process, `brk_floor` and `brk`. -/
structure Heap where
  sys : Sys
  floor : ℕ
  brk : ℕ

/-- The loop that grows the heap, over the values of `va` that are left. -/
def grow (s : Sys) : List ℕ → Sys
  | [] => s
  | va :: vas =>
    let (s, pa) := s.alloc
    if pa = 0 then s -- partial growth is legal
    else
      let (s, e) := s.mapAt va pa heapFlags
      if e ≠ 0 then s.release pa else grow (s.zero pa) vas

/-- The loop that shrinks the heap. -/
def shrink (s : Sys) : List ℕ → Sys
  | [] => s
  | va :: vas =>
    match s.probe va with
    | none => shrink s vas
    | some (pa, _) => shrink ((s.unmapAt va).1.release pa) vas

/-- `sys_brk` -/
def sysBrk (h : Heap) (unew : ℕ) : Heap × ℕ :=
  if unew = 0 then (h, h.brk)
  else if unew < h.floor ∨ unew > PH14_BRK_LIMIT then (h, h.brk) -- refused: top unchanged
  else
    let want := alignUp unew
    let sys :=
      if want > h.brk then grow h.sys (pagesFrom h.brk want)
      else if want < h.brk then shrink h.sys (pagesFrom want h.brk)
      else h.sys
    ({ h with sys := sys, brk := want }, want)

/-! ## Runs -/

inductive Act
  | brk (unew ret : ℕ)
  /-- pages are written, the PMM moves on -/
  | other

def Step (h : Heap) : Act → Heap → Prop
  | .brk unew ret, h' => (h', ret) = sysBrk h unew
  | .other, h' =>
    (∀ a, alignDown a ∈ h.sys.held → h'.sys.ram.mem a = h.sys.ram.mem a) ∧
      FreeOk h.sys.held h'.sys.ram.free ∧
      (∀ page m, h.sys.maps page = some m → m.1 ∉ h'.sys.ram.free) ∧
      h'.sys.root = h.sys.root ∧ h'.sys.held = h.sys.held ∧ h'.sys.maps = h.sys.maps ∧
      h'.floor = h.floor ∧ h'.brk = h.brk

/-- What a call of `sys_brk` should leave behind. -/
structure Obeys (h h' : Heap) (ret : ℕ) : Prop where
  ret : ret = h'.brk
  aligned : h'.brk % PAGE_SIZE = 0
  mapped : ∀ va, h.floor ≤ va → va < h'.brk → ∃ pa, h'.sys.probe va = some (pa, heapFlags)
  zeroed : ∀ va, h.brk ≤ va → va < h'.brk → h'.sys.byte va = some 0
  unmapped : ∀ va, h'.brk ≤ va → va < PH14_BRK_LIMIT → h'.sys.probe va = none
  kept : ∀ va, h.floor ≤ va → va < h.brk → va < h'.brk → h'.sys.byte va = h.sys.byte va
  frames : h'.sys.ram.free.length + h'.sys.held.length + (h'.brk - h.floor) / PAGE_SIZE
    = h.sys.ram.free.length + h.sys.held.length + (h.brk - h.floor) / PAGE_SIZE

/-- The law of a step: that of `sys_brk` for its calls. -/
def Lawful (h : Heap) : Act → Heap → Prop
  | .brk _ ret, h' => Obeys h h' ret
  | .other, _ => True

/-- The frames that are free are enough for the pages of a growth and for the tables that are
missing on their paths. -/
def Fits (h : Heap) : Act → Prop
  | .brk unew _ =>
    unew ≠ 0 → h.floor ≤ unew → unew ≤ PH14_BRK_LIMIT → h.brk < alignUp unew →
      (pagesFrom h.brk (alignUp unew)).length
          + tablesFor (present h.sys.ram.mem h.sys.root) (pagesFrom h.brk (alignUp unew))
        ≤ h.sys.ram.free.length
  | .other => True

/-- A heap as exec leaves it, and as it should stay: the pages below the break are mapped and
its own, none is mapped from the break to the limit. -/
structure HeapInv (h : Heap) : Prop where
  space : Space h.sys
  low : 2 ^ 39 ≤ h.floor
  floor_aligned : h.floor % PAGE_SIZE = 0
  floor_le : h.floor ≤ h.brk
  high : h.brk ≤ Uaccess.USER_VA_LIMIT
  aligned : h.brk % PAGE_SIZE = 0
  below : ∀ va, h.floor ≤ va → va < h.brk → ∃ pa, h.sys.maps (va / PAGE_SIZE) = some (pa, heapFlags)
  above : ∀ va, h.brk ≤ va → va < PH14_BRK_LIMIT → h.sys.maps (va / PAGE_SIZE) = none
  own : ∀ va, h.floor ≤ va → va < h.brk → ∀ m page m', h.sys.maps (va / PAGE_SIZE) = some m →
    h.sys.maps page = some m' → m'.1 = m.1 → page = va / PAGE_SIZE

end MobilePhoneOs.Brk
