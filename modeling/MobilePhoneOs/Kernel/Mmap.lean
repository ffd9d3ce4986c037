import MobilePhoneOs.Mm.Space

/-!
# Anonymous memory (`sys_mmap` in `kernel/syscall.c`)

The frames of all pages are taken and cleared first, then mapped one after another. When a
map fails, the frames that are not mapped yet are given back.
-/

namespace MobilePhoneOs.Mmap

open Mm Mm.Vmm

def MMAP_PAGES_MAX : ℕ := 64
def USER_MMAP_BASE : ℕ := 0x0000028000000000
def USER_SHM_BASE : ℕ := 0x0000030000000000

def EINVAL : ℤ := 22
def ENOMEM : ℤ := 12

/-- The flags of an anonymous page. -/
def anonFlags : ℕ := VM_READ ||| VM_WRITE ||| VM_USER

/-- The address space of a process and `mmap_next`. -/
structure Proc where
  sys : Sys
  mmapNext : ℕ

/-- The loop that takes and clears `n` more frames; `frames` are those it has. When there is
no frame left they are given back, the last one first. -/
def takeFrames : ℕ → Sys → List ℕ → Sys × Option (List ℕ)
  | 0, s, frames => (s, some frames)
  | n + 1, s, frames =>
    let (s, f) := s.alloc
    if f = 0 then (frames.reverse.foldl Sys.release s, none)
    else takeFrames n (s.zero f) (frames ++ [f])

/-- The loop that maps the frames that are left from `va` on. When a map fails they are given
back. -/
def mapFrames (s : Sys) (va : ℕ) : List ℕ → Sys × Bool
  | [] => (s, true)
  | f :: fs =>
    let (s, rc) := s.mapAt va f anonFlags
    if rc ≠ 0 then ((f :: fs).foldl Sys.release s, false) else mapFrames s (va + PAGE_SIZE) fs

/-- `npages` -/
def npages (len : ℕ) : ℕ := (len + PAGE_SIZE - 1) / PAGE_SIZE

/-- `mmap_next` brought back into its window. -/
def mmapBase (p : Proc) : ℕ :=
  if p.mmapNext < USER_MMAP_BASE ∨ p.mmapNext ≥ USER_SHM_BASE then USER_MMAP_BASE else p.mmapNext

/-- `sys_mmap`; the hint is not looked at. -/
def sysMmap (p : Proc) (_hint len : ℕ) : Proc × ℤ :=
  if p.sys.root = 0 then (p, -EINVAL)
  else if len = 0 ∨ len > MMAP_PAGES_MAX * PAGE_SIZE then (p, -EINVAL)
  else
    let n := npages len
    let p := { p with mmapNext := mmapBase p }
    if n * PAGE_SIZE > USER_SHM_BASE - p.mmapNext then (p, -ENOMEM)
    else
      match takeFrames n p.sys [] with
      | (s, none) => ({ p with sys := s }, -ENOMEM)
      | (s, some frames) =>
        let va := p.mmapNext
        match mapFrames s va frames with
        | (s, false) => ({ p with sys := s }, -ENOMEM)
        | (s, true) => (⟨s, va + n * PAGE_SIZE⟩, va)

/-! ## The law of a call -/

/-- What a call that failed should leave behind: the translations and the free frames as they
were. -/
structure Undone (s s' : Sys) : Prop where
  probes : ∀ va, UserVa va → s'.probe va = s.probe va
  free : ∀ f, f ∈ s'.ram.free ↔ f ∈ s.ram.free

/-- What a call that succeeded should leave behind: `n` new pages of zeros from `va` on, in
distinct frames that were free, and every other page as it was. -/
structure Done (s s' : Sys) (va n : ℕ) : Prop where
  before : ∀ a, va ≤ a → a < va + n * PAGE_SIZE → s.probe a = none
  after : ∀ a, va ≤ a → a < va + n * PAGE_SIZE → ∃ pa, s'.probe a = some (pa, anonFlags) ∧
    alignDown pa ∈ s.ram.free ∧ s'.byte a = some 0
  distinct : ∀ a a', va ≤ a → a < va + n * PAGE_SIZE → va ≤ a' → a' < va + n * PAGE_SIZE →
    ∀ m m', s'.probe a = some m → s'.probe a' = some m' → m.1 = m'.1 → a = a'
  others : ∀ a, UserVa a → a < va ∨ va + n * PAGE_SIZE ≤ a →
    s'.probe a = s.probe a ∧ s'.byte a = s.byte a

/-- A call either did all it was asked for or nothing. -/
def Atomic (p p' : Proc) (len : ℕ) (res : ℤ) : Prop :=
  (res < 0 ∧ Undone p.sys p'.sys) ∨ (res = mmapBase p ∧ Done p.sys p'.sys (mmapBase p) (npages len))

/-- The call is refused, or it stops before its first page has been mapped or a table made for
it, or it goes through: there are frames for all pages and for the tables missing on their
paths, and no page of the range is taken. -/
def Clean (p : Proc) (len : ℕ) : Prop :=
  let n := npages len
  let va := mmapBase p
  let range := pagesFrom va (va + n * PAGE_SIZE)
  let tables := fun vas => tablesFor (present p.sys.ram.mem p.sys.root) vas
  len = 0 ∨ len > MMAP_PAGES_MAX * PAGE_SIZE ∨ n * PAGE_SIZE > USER_SHM_BASE - va ∨
    p.sys.ram.free.length < n ∨
    p.sys.probe va ≠ none ∨
    (p.sys.ram.free.length = n ∧ tables [va] ≠ 0) ∨
    ((∀ a ∈ range, p.sys.probe a = none) ∧ n + tables range ≤ p.sys.ram.free.length)

end MobilePhoneOs.Mmap
