import MobilePhoneOs.Lib.Word
import MobilePhoneOs.Mm.Pmm

/-!
# The kernel heap (`mm/kheap.c`)

Slab classes carve a frame into equal chunks and keep them on a list threaded through the
chunk bodies; larger requests get a contiguous span of frames. Memory is a byte array, and
every store goes through `Phys.write`, which also notes the stores that touch a page the
heap does not own at that moment. The answer of the PMM to the one call that `kmalloc`
makes is an argument.
-/

namespace MobilePhoneOs.Mm

open Mem

def HDR_MAGIC_ALLOC : ℕ := 0xA110C8ED
def HDR_MAGIC_FREED : ℕ := 0xF7EEB1DE
def CANARY_WORD : ℕ := 0xCAFEF00D
def POISON_BYTE : UInt8 := 0x5A
def FILL_BYTE : UInt8 := 0xAA
def HDR_SIZE : ℕ := 16
def KM_CLASSES : ℕ := 8
def KM_LARGE_MAX : ℕ := 64 * 1024

/-- `class_size` -/
def CLASS_SIZE : List ℕ := [16, 32, 64, 128, 256, 512, 1024, 2048]

def classSize (ci : ℕ) : ℕ := CLASS_SIZE.getD ci 0

/-! ## Physical memory as the heap uses it -/

/-- Memory, with the frames that the heap owns and the stores that left them as ghosts. -/
structure Phys where
  mem : ℕ → UInt8
  owned : List ℕ
  stray : List (ℕ × ℕ)

namespace Phys

/-- The `n` bytes from `a` lie in owned frames. -/
def Covers (owned : List ℕ) (a n : ℕ) : Prop := ∀ i < n, alignDown (a + i) ∈ owned

instance (owned : List ℕ) (a n : ℕ) : Decidable (Covers owned a n) :=
  inferInstanceAs (Decidable (∀ i < n, _))

/-- A store of consecutive bytes. -/
def write (p : Phys) (a : ℕ) (bytes : List UInt8) : Phys :=
  { p with
    mem := store p.mem a bytes
    stray := if Covers p.owned a bytes.length then p.stray else (a, bytes.length) :: p.stray }

/-- A store of one `n`-byte word. -/
def st (p : Phys) (a n v : ℕ) : Phys := p.write a (leBytes n v)

/-- `memset` -/
def memset (p : Phys) (a : ℕ) (b : UInt8) (n : ℕ) : Phys := p.write a (List.replicate n b)

end Phys

/-- `struct kheap_stats` -/
structure KheapStats where
  allocs : ℕ
  frees : ℕ
  bytesCurrent : ℕ
  bytesPeak : ℕ

/-- The allocator: memory, the heads of the class lists and the statistics. -/
structure Kheap where
  phys : Phys
  freelist : ℕ → ℕ
  kstats : KheapStats

/-- How a call ends. -/
inductive Outcome
  | ret (ptr : ℕ)
  | panic
  /-- the call never returns -/
  | hang
deriving DecidableEq, Repr

/-! ## Allocation -/

/-- The loop of `grow_slab`, from the last chunk of the frame down to the first. -/
def carve (ci pa : ℕ) : ℕ → Kheap → Kheap
  | 0, h => h
  | i + 1, h =>
    let hdr := pa + i * (HDR_SIZE + classSize ci)
    let body := hdr + HDR_SIZE
    let phys := (((h.phys.st hdr 4 HDR_MAGIC_FREED).st (hdr + 4) 4 0).st (hdr + 8) 2 (ci + 1)).st
      (hdr + 10) 2 0
    carve ci pa i
      { h with
        phys := phys.st body 8 (h.freelist ci)
        freelist := Function.update h.freelist ci body }

/-- `grow_slab`, given the answer `pa` of `pmm_alloc`. -/
def growSlab (h : Kheap) (ci pa : ℕ) : Kheap × Bool :=
  if pa = 0 then (h, false)
  else
    let count := PAGE_SIZE / (HDR_SIZE + classSize ci)
    (carve ci pa count { h with phys := { h.phys with owned := pa :: h.phys.owned } }, true)

/-- `if (!size) size = 1;` -/
def normSize (size : ℕ) : ℕ := if size = 0 then 1 else size

/-- The class that serves a size, `KM_CLASSES` when it is too large for all of them. -/
def classOf (size : ℕ) : ℕ := CLASS_SIZE.findIdx fun c => add64 size 4 ≤ c

/-- The pages of a large request, as the 32-bit `pages` holds them. -/
def largePages (size : ℕ) : ℕ :=
  add64 (add64 HDR_SIZE size) (PAGE_SIZE - 1) / PAGE_SIZE % 2 ^ 32

/-- Whether a large block gets a canary. -/
def largeCanary (size : ℕ) : Bool := add64 size HDR_SIZE % PAGE_SIZE ≤ PAGE_SIZE - 4

/-- The statistics after an allocation. -/
def KheapStats.onAlloc (k : KheapStats) (size : ℕ) : KheapStats :=
  let cur := add64 k.bytesCurrent size
  { k with
    allocs := add64 k.allocs 1
    bytesCurrent := cur
    bytesPeak := if cur > k.bytesPeak then cur else k.bytesPeak }

/-- The large path of `kmalloc`, given the answer `span` of `pmm_alloc_contig`. -/
def kmallocLarge (h : Kheap) (span size : ℕ) : Kheap × Outcome :=
  let pages := largePages size
  if pages > KM_LARGE_MAX / PAGE_SIZE then (h, .ret 0)
  else if span = 0 then (h, .ret 0)
  else
    let body := span + HDR_SIZE
    let phys := { h.phys with owned := Pmm.span span pages ++ h.phys.owned }
    let phys := (((phys.st span 4 HDR_MAGIC_ALLOC).st (span + 4) 4 size).st (span + 8) 2 0).st
      (span + 10) 2 pages
    let phys := if largeCanary size then phys.st (body + size) 4 CANARY_WORD else phys
    ({ h with phys := phys.memset body FILL_BYTE size, kstats := h.kstats.onAlloc size },
      .ret body)

/-- The chunk that heads the list of class `ci` is handed out. -/
def kmallocPop (h : Kheap) (ci size : ℕ) : Kheap × Outcome :=
  let body := h.freelist ci
  let hdr := body - HDR_SIZE
  let freelist := Function.update h.freelist ci (load h.phys.mem body 8)
  let phys := (h.phys.st hdr 4 HDR_MAGIC_ALLOC).st (hdr + 4) 4 size
  let phys := if size < classSize ci then phys.st (body + size) 4 CANARY_WORD else phys
  -- the fill loop counts in 32 bits: it never reaches a size of 2^32 or more
  if size < 2 ^ 32 then
    ({ phys := phys.memset body FILL_BYTE size, freelist := freelist,
       kstats := h.kstats.onAlloc size }, .ret body)
  else ({ h with phys := phys.memset body FILL_BYTE (2 ^ 32), freelist := freelist }, .hang)

/-- `kmalloc`, given the answer `pa` of the PMM. -/
def kmalloc (h : Kheap) (pa size : ℕ) : Kheap × Outcome :=
  let size := normSize size
  let ci := classOf size
  if ci = KM_CLASSES then kmallocLarge h pa size
  else if h.freelist ci = 0 then
    let g := growSlab h ci pa
    if g.2 then kmallocPop g.1 ci size else (g.1, .ret 0)
  else kmallocPop h ci size

/-! ## Release -/

/-- `have_canary` of `kfree`, in the 32-bit arithmetic of the header fields. -/
def haveCanary (cls req : ℕ) : Bool :=
  if cls ≠ 0 then (req + 4) % 2 ^ 32 ≤ classSize (cls - 1)
  else (req + HDR_SIZE) % 2 ^ 32 % PAGE_SIZE ≤ PAGE_SIZE - 4

/-- `kfree` -/
def kfree (h : Kheap) (ptr : ℕ) : Kheap × Outcome :=
  if ptr = 0 then (h, .panic)
  else
    let hdr := ptr - HDR_SIZE
    let magic := load h.phys.mem hdr 4
    let req := load h.phys.mem (hdr + 4) 4
    let cls := load h.phys.mem (hdr + 8) 2
    let npages := load h.phys.mem (hdr + 10) 2
    if magic = HDR_MAGIC_FREED then (h, .panic)
    else if magic ≠ HDR_MAGIC_ALLOC then (h, .panic)
    else if haveCanary cls req ∧ load h.phys.mem (ptr + req) 4 ≠ CANARY_WORD then (h, .panic)
    else
      let phys := h.phys.memset ptr POISON_BYTE req
      let kstats := { h.kstats with
        frees := add64 h.kstats.frees 1, bytesCurrent := sub64 h.kstats.bytesCurrent req }
      if cls ≠ 0 then
        let ci := cls - 1
        let phys := (phys.st hdr 4 HDR_MAGIC_FREED).st ptr 8 (h.freelist ci)
        ({ phys := phys, freelist := Function.update h.freelist ci ptr, kstats := kstats },
          .ret 0)
      else
        -- the pages of the span go back to the PMM
        let owned := phys.owned.filter fun f => f ∉ Pmm.span hdr npages
        ({ h with phys := { phys with owned := owned }, kstats := kstats }, .ret 0)

/-! ## Runs -/

namespace Kheap

/-- A block a caller holds: the pointer and the size asked for. -/
structure Block where
  body : ℕ
  size : ℕ
deriving DecidableEq, Repr

namespace Block

/-- The first byte of the chunk: its header. -/
def start (b : Block) : ℕ := b.body - HDR_SIZE

/-- The first byte after the chunk: a slab chunk ends with its class size, a span with the
canary. -/
def stop (b : Block) : ℕ :=
  if classOf (normSize b.size) < KM_CLASSES then b.body + classSize (classOf (normSize b.size))
  else b.body + normSize b.size + if largeCanary (normSize b.size) then 4 else 0

end Block

/-- The byte range `[a, b)` and the range `[c, d)` share no byte. -/
def Apart (a b c d : ℕ) : Prop := b ≤ c ∨ d ≤ a

/-- The heap with the blocks that callers hold, and whether a call has not returned. -/
structure Sys where
  heap : Kheap
  live : List Block
  halted : Bool

inductive Op
  /-- the size, the answer of the PMM and how the call ends -/
  | kmalloc (size pa : ℕ) (out : Outcome)
  | kfree (body : ℕ) (out : Outcome)
  /-- memory changes outside the heap, or in the body of a live block -/
  | other

/-- Nothing allocated yet. -/
def Sys.init (mem : ℕ → UInt8) : Sys :=
  ⟨⟨⟨mem, [], []⟩, fun _ => 0, ⟨0, 0, 0, 0⟩⟩, [], false⟩

/-- The frames that `kmalloc` asks the PMM for. -/
def asked (size : ℕ) : ℕ :=
  if classOf (normSize size) = KM_CLASSES then largePages (normSize size) else 1

/-- What the PMM may hand out: `n` adjacent frames that the heap does not own. -/
structure Fresh (owned : List ℕ) (pa n : ℕ) : Prop where
  aligned : pa % PAGE_SIZE = 0
  pos : 0 < n
  le : pa + n * PAGE_SIZE ≤ 2 ^ 64
  notMem : ∀ f ∈ Pmm.span pa n, f ∉ owned

/-- One call, or a store by someone else. -/
def Step (s : Sys) (op : Op) (s' : Sys) : Prop :=
  s.halted = false ∧
  match op with
  | .kmalloc size pa out =>
    size < 2 ^ 64 ∧ (pa ≠ 0 → Fresh s.heap.phys.owned pa (asked size)) ∧
      (s'.heap, out) = kmalloc s.heap pa size ∧
      s'.live = (match out with
        | .ret body => if body = 0 then s.live else ⟨body, size⟩ :: s.live
        | _ => s.live) ∧
      s'.halted = (match out with | .ret _ => false | _ => true)
  | .kfree body out =>
    ∃ b ∈ s.live, b.body = body ∧ (s'.heap, out) = kfree s.heap body ∧
      s'.live = s.live.erase b ∧ s'.halted = (match out with | .ret _ => false | _ => true)
  | .other =>
    ∃ mem, (∀ a, alignDown a ∈ s.heap.phys.owned →
        (∀ b ∈ s.live, a < b.body ∨ b.body + b.size ≤ a) → mem a = s.heap.phys.mem a) ∧
      s' = { s with heap := { s.heap with phys := { s.heap.phys with mem := mem } } }

/-- The heap law: no call has panicked or hung, no store has left the frames owned at that
moment, every body has room for its size in a chunk that lies in owned frames, and the
chunks of live blocks are disjoint from each other and from the chunks on the class lists. -/
structure Law (s : Sys) : Prop where
  running : s.halted = false
  inside : s.heap.phys.stray = []
  room : ∀ b ∈ s.live, b.body + b.size ≤ b.stop ∧
    Phys.Covers s.heap.phys.owned b.start (b.stop - b.start)
  apart : s.live.Pairwise fun b c => Apart b.start b.stop c.start c.stop
  free : ∀ ci < KM_CLASSES, ∃ l,
    Chain.Linked (fun a => load s.heap.phys.mem a 8) (· = 0) (s.heap.freelist ci) l ∧ l.Nodup ∧
      ∀ b ∈ s.live, ∀ f ∈ l, Apart b.start b.stop (f - HDR_SIZE) (f + classSize ci)

/-- The sizes the arithmetic of `kmalloc` is right for. -/
def SizeOk (size : ℕ) : Prop :=
  size + 4 < 2 ^ 64 ∧
    (classOf size = KM_CLASSES → 0 < largePages size → largePages size ≤ KM_LARGE_MAX / PAGE_SIZE →
      size < KM_LARGE_MAX ∧ (size + HDR_SIZE) % PAGE_SIZE ≠ 0)

instance (size : ℕ) : Decidable (SizeOk size) := inferInstanceAs (Decidable (_ ∧ _))

/-- Every allocation asks for such a size. -/
def SizesOk (_s : Sys) : Op → Prop
  | .kmalloc size _ _ => SizeOk size
  | _ => True

end Kheap
end MobilePhoneOs.Mm
