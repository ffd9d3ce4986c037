import MobilePhoneOs.Lib.Chain
import MobilePhoneOs.Lib.Run

/-!
# The physical frame allocator (`mm/pmm.c`)

The free list is threaded through the first word of the free frames themselves.
`Mem` is the identity-mapped memory as the allocator sees it: the word stored at an
address. Addresses are 64-bit words, so the address arithmetic of the source wraps.
-/

namespace MobilePhoneOs.Mm

/-- `PAGE_SIZE` -/
def PAGE_SIZE : ℕ := 4096

/-- `TOP_GUARD`, the 2 MiB at the top of RAM that are never handed out. -/
def TOP_GUARD : ℕ := 2097152

/-- `uint64_t` addition. -/
def add64 (a b : ℕ) : ℕ := (a + b) % 2 ^ 64

/-- `uint64_t` subtraction. -/
def sub64 (a b : ℕ) : ℕ := (a + 2 ^ 64 - b % 2 ^ 64) % 2 ^ 64

/-- `ALIGN_UP(x, PAGE_SIZE)` -/
def alignUp (x : ℕ) : ℕ := add64 x (PAGE_SIZE - 1) / PAGE_SIZE * PAGE_SIZE

/-- `ALIGN_DOWN(x, PAGE_SIZE)` -/
def alignDown (x : ℕ) : ℕ := x / PAGE_SIZE * PAGE_SIZE

/-- `IS_ALIGNED(x, PAGE_SIZE)` -/
def isAligned (x : ℕ) : Bool := x % PAGE_SIZE == 0

/-- The 64-bit word at each address. -/
abbrev Mem := ℕ → ℕ

/-- `free_head` and `struct pmm_stats`. -/
structure Pmm where
  freeHead : ℕ
  totalFrames : ℕ
  reservedFrames : ℕ
  freeFrames : ℕ

/-- The RAM window and the linker symbols that `pmm_init` works from. -/
structure Boot where
  ramBase : ℕ
  ramSize : ℕ
  start : ℕ
  stop : ℕ

def Boot.imgStart (b : Boot) : ℕ := alignDown b.start

def Boot.imgEnd (b : Boot) : ℕ := alignUp b.stop

/-- `ram_end` after the top guard has been taken off. -/
def Boot.ramEnd (b : Boot) : ℕ :=
  let ramEnd := add64 b.ramBase b.ramSize
  if ramEnd > TOP_GUARD then sub64 ramEnd TOP_GUARD else ramEnd

/-- Whether `pmm_init` skips the frame because the kernel image lies there. -/
def Boot.inImage (b : Boot) (pa : ℕ) : Prop := b.imgStart ≤ pa ∧ pa < b.imgEnd

instance (b : Boot) (pa : ℕ) : Decidable (b.inImage pa) := inferInstanceAs (Decidable (_ ∧ _))

/-- The loop of `pmm_init`; `fuel` bounds the frames below `ram_end`. -/
def pmmInitLoop (b : Boot) : ℕ → ℕ → Mem × Pmm → Mem × Pmm
  | 0, _, st => st
  | fuel + 1, pa, (mem, p) =>
    if pa < b.ramEnd then
      pmmInitLoop b fuel (add64 pa PAGE_SIZE)
        (if b.inImage pa then (mem, { p with reservedFrames := p.reservedFrames + 1 })
          else (Function.update mem pa p.freeHead,
            { p with
              freeHead := pa
              totalFrames := p.totalFrames + 1
              freeFrames := p.freeFrames + 1 }))
    else (mem, p)

/-- `pmm_init` -/
def pmmInit (b : Boot) (mem : Mem) : Mem × Pmm :=
  let p : Pmm := ⟨0, 0, 0, 0⟩
  if b.ramSize = 0 then (mem, p)
  else pmmInitLoop b (b.ramEnd / PAGE_SIZE + 1) (alignUp b.ramBase) (mem, p)

/-- `pmm_alloc`: the new state and the frame, 0 when there is none. -/
def pmmAlloc (mem : Mem) (p : Pmm) : Pmm × ℕ :=
  let pa := p.freeHead
  if pa = 0 then (p, 0)
  else if isAligned pa = false then
    -- list corrupted: refuse rather than hand out garbage
    ({ p with freeHead := 0, freeFrames := 0 }, 0)
  else ({ p with freeHead := mem pa, freeFrames := p.freeFrames - 1 }, pa)

/-- Which way the current run of `pmm_alloc_contig` goes. -/
inductive Dir
  | unknown
  | up
  | down
deriving DecidableEq, Repr

/-- The scan variables of `pmm_alloc_contig`. -/
structure Scan where
  prev : ℕ
  run : ℕ
  runStart : ℕ
  runPrev : ℕ
  dir : Dir

/-- The run that starts at `pa`. -/
def Scan.restart (s : Scan) (pa : ℕ) : Scan :=
  { s with run := 1, runStart := pa, runPrev := s.prev, dir := .unknown }

/-- One node of the scan: extend the current run or start a new one. -/
def Scan.visit (s : Scan) (pa : ℕ) : Scan :=
  if s.run = 0 then s.restart pa
  else match s.dir with
  | .unknown =>
    if pa = add64 s.runStart PAGE_SIZE then { s with dir := .up, run := 2 }
    else if pa = sub64 s.runStart PAGE_SIZE then { s with dir := .down, run := 2 }
    else s.restart pa
  | .up =>
    if pa = add64 s.runStart (s.run * PAGE_SIZE) then { s with run := s.run + 1 }
    else s.restart pa
  | .down =>
    if pa = sub64 s.runStart (s.run * PAGE_SIZE) then { s with run := s.run + 1 }
    else s.restart pa

/-- The low address of a finished run. -/
def Scan.low (s : Scan) (npages : ℕ) : ℕ :=
  if s.dir = .up then s.runStart else sub64 s.runStart ((npages - 1) * PAGE_SIZE)

/-- The loop of `pmm_alloc_contig`. `none` means that the walk has not ended within
`fuel` nodes, which happens on a cyclic list only. -/
def contigLoop (npages : ℕ) : ℕ → Mem → Pmm → Scan → ℕ → Option (Mem × Pmm × ℕ)
  | 0, mem, p, _, pa => if pa = 0 then some (mem, p, 0) else none
  | fuel + 1, mem, p, s, pa =>
    if pa = 0 then some (mem, p, 0)
    else
      let next := mem pa
      let s := s.visit pa
      if s.run = npages then
        let p' := { p with freeFrames := p.freeFrames - npages }
        if s.runPrev ≠ 0 then some (Function.update mem s.runPrev next, p', s.low npages)
        else some (mem, { p' with freeHead := next }, s.low npages)
      else contigLoop npages fuel mem p { s with prev := pa } next

/-- `pmm_alloc_contig`: the low address of the span, 0 when there is none. -/
def pmmAllocContig (mem : Mem) (p : Pmm) (npages : ℕ) : Option (Mem × Pmm × ℕ) :=
  if npages = 0 then some (mem, p, 0)
  else contigLoop npages p.freeFrames mem p ⟨0, 0, 0, 0, .unknown⟩ p.freeHead

/-- `pmm_free` -/
def pmmFree (mem : Mem) (p : Pmm) (pa : ℕ) : Mem × Pmm :=
  if pa = 0 ∨ isAligned pa = false then (mem, p)
  else (Function.update mem pa p.freeHead,
    { p with freeHead := pa, freeFrames := p.freeFrames + 1 })

/-! ## Runs

The allocator runs with callers that free only what they were handed and have not freed,
and that write only into frames they hold or outside the RAM that was put on the list. -/

namespace Pmm

/-- The frames `pmm_init` threads, in the order of its loop. -/
def framesFrom (b : Boot) : ℕ → ℕ → List ℕ
  | 0, _ => []
  | fuel + 1, pa =>
    if pa < b.ramEnd then
      (if b.inImage pa then [] else [pa]) ++ framesFrom b fuel (add64 pa PAGE_SIZE)
    else []

/-- The frames that `pmm_init` hands to the allocator. -/
def frames (b : Boot) : List ℕ :=
  if b.ramSize = 0 then [] else framesFrom b (b.ramEnd / PAGE_SIZE + 1) (alignUp b.ramBase)

/-- The frames of a span of `n` pages from `pa`. -/
def span (pa n : ℕ) : List ℕ := (List.range n).map fun i => pa + i * PAGE_SIZE

/-- The allocator with its memory and, as a ghost, the frames currently handed out. -/
structure Sys where
  mem : Mem
  pmm : Pmm
  handed : List ℕ

inductive Op
  | alloc (pa : ℕ)
  | allocContig (npages pa : ℕ)
  | free (pa : ℕ)
  /-- a caller stores a word -/
  | poke (addr v : ℕ)

def Sys.init (b : Boot) (mem : Mem) : Sys :=
  ⟨(pmmInit b mem).1, (pmmInit b mem).2, []⟩

/-- One call, or one store by a caller. -/
def Step (b : Boot) (s : Sys) : Op → Sys → Prop
  | .alloc pa, s' =>
    (s'.pmm, pa) = pmmAlloc s.mem s.pmm ∧ s'.mem = s.mem ∧
      s'.handed = if pa = 0 then s.handed else pa :: s.handed
  | .allocContig n pa, s' =>
    some (s'.mem, s'.pmm, pa) = pmmAllocContig s.mem s.pmm n ∧
      s'.handed = if pa = 0 then s.handed else span pa n ++ s.handed
  | .free pa, s' =>
    pa ∈ s.handed ∧ (s'.mem, s'.pmm) = pmmFree s.mem s.pmm pa ∧ s'.handed = s.handed.erase pa
  | .poke addr v, s' =>
    (alignDown addr ∈ s.handed ∨ alignDown addr ∉ frames b) ∧
      s' = { s with mem := Function.update s.mem addr v }

/-- The allocator law: the free list is finite and visits no frame twice, no free frame is
handed out, free and handed-out frames together are what `pmm_init` threaded, and the
reported count is the length of the list. -/
def Law (b : Boot) (s : Sys) : Prop :=
  ∃ l, Chain.Linked s.mem (· = 0) s.pmm.freeHead l ∧ l.Nodup ∧ (∀ f ∈ l, f ∉ s.handed) ∧
    (l ++ s.handed).Perm (frames b) ∧ s.pmm.freeFrames = l.length

end Pmm
end MobilePhoneOs.Mm
