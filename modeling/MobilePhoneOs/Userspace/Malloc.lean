import MobilePhoneOs.Mm.KheapTheorems

/-!
# The libc heap (`userspace/libc/malloc.c`) over `SYS_brk` (`kernel/syscall.c`)

A block is a 16-byte header, `size` with the in-use bit and the free-list link, and its
payload. A request takes the first free block that is large enough, whole; otherwise the
arena grows by a chunk, whose tail goes on the list. How many pages the kernel can still map
is an argument of each call. The memory of the process is the byte array of the kernel heap,
with the pages of the brk window in place of the frames: a store that leaves them faults.
-/

namespace MobilePhoneOs.Malloc

open Mem Mm

def PH14_BRK_LIMIT : ℕ := 0x1F000000000
def USER_CODE_BASE : ℕ := 0x10000000000
def USER_VA_LIMIT : ℕ := 0x40000000000
def HDR : ℕ := 16

/-- `ALIGN8` -/
def ALIGN8 (x : ℕ) : ℕ := add64 x 7 / 8 * 8

/-! ## `SYS_brk` -/

/-- The fields of `struct proc` that `sys_brk` uses, with the memory of the window. -/
structure Proc where
  phys : Phys
  brk : ℕ
  brkFloor : ℕ

/-- The growth loop over `n` pages from `va`. After `room` of them `pmm_alloc` or
`vmm_map_at` fails, which ends it. -/
def mapPages (phys : Phys) (va : ℕ) : ℕ → ℕ → Phys
  | n + 1, room + 1 =>
    mapPages ({ phys with owned := va :: phys.owned }.memset va 0 PAGE_SIZE) (va + PAGE_SIZE)
      n room
  | _, _ => phys

/-- The pages of a growth by `n` bytes. -/
def pagesOf (n : ℕ) : ℕ := (n + (PAGE_SIZE - 1)) / PAGE_SIZE

/-- `sys_brk` -/
def sysBrk (p : Proc) (room unew : ℕ) : Proc × ℕ :=
  if unew = 0 then (p, p.brk)
  else if unew < p.brkFloor ∨ unew > PH14_BRK_LIMIT then (p, p.brk)
  else
    let want := alignUp unew
    let phys :=
      if want > p.brk then mapPages p.phys p.brk (pagesOf (want - p.brk)) room
      else { p.phys with owned := p.phys.owned.filter fun va => ¬ (want ≤ va ∧ va < p.brk) }
    -- the new top is recorded and returned even when the loop has stopped before it
    ({ p with phys := phys, brk := want }, want)

/-! ## The allocator -/

/-- The process and the static variables of `malloc.c`. -/
structure Heap extends Proc where
  freelist : ℕ
  heapTop : ℕ
  heapEnd : ℕ

/-- `b->next` -/
def next (phys : Phys) (b : ℕ) : ℕ := load phys.mem (b + 8) 8

/-- `b->size & ~1` -/
def capOf (mem : ℕ → UInt8) (b : ℕ) : ℕ := load mem b 8 / 2 * 2

/-- `b->size |= 1` -/
def setUsed (phys : Phys) (b : ℕ) : Phys := phys.st b 8 (capOf phys.mem b + 1)

/-- `morecore` -/
def morecore (h : Heap) (room incr : ℕ) : Heap × ℕ :=
  let top := (sysBrk h.toProc room 0).2
  let g := if h.heapTop = 0 then { h with heapTop := top, heapEnd := top } else h
  if h.heapTop = 0 ∧ incr = 0 then (g, g.heapTop)
  else
    let r := sysBrk g.toProc room (add64 g.heapEnd incr)
    if r.2 = g.heapEnd then ({ g with toProc := r.1 }, 0)
    else ({ g with toProc := r.1, heapEnd := r.2 }, g.heapEnd)

/-- How the search of the free list ends. -/
inductive Walk
  /-- at a block, reached through the link of `prev` or, without one, the list head -/
  | fit (prev : Option ℕ) (b : ℕ)
  | exhausted
  /-- never -/
  | endless
deriving DecidableEq, Repr

/-- The first-fit loop. -/
def firstFit (mem : ℕ → UInt8) (need : ℕ) : ℕ → Option ℕ → ℕ → Walk
  | 0, _, _ => .endless
  | fuel + 1, prev, b =>
    if b = 0 then .exhausted
    else if load mem b 8 ≥ need then .fit prev b
    else firstFit mem need fuel (some b) (load mem (b + 8) 8)

/-- A walk over more blocks than there are mapped bytes goes round. -/
def Heap.walkLimit (h : Heap) : ℕ := h.phys.owned.length * PAGE_SIZE + 1

/-- `*prev = b` -/
def Heap.setLink (h : Heap) (prev : Option ℕ) (b : ℕ) : Heap :=
  match prev with
  | none => { h with freelist := b }
  | some a => { h with phys := h.phys.st (a + 8) 8 b }

/-- The growth that `malloc` asks for: `(i64)(need + HDR) < 4096` also holds for a sum that
wraps or has the sign bit. -/
def chunkOf (need : ℕ) : ℕ :=
  let total := add64 need HDR
  if total < 4096 ∨ total ≥ 2 ^ 63 then 4096 else ALIGN8 total

/-- The chunk at `base` becomes a block, with its tail on the free list when it is worth it. -/
def carve (h : Heap) (base chunk need : ℕ) : Heap × Option ℕ :=
  let size := chunk - HDR
  let phys := (h.phys.st base 8 size).st (base + 8) 8 0
  -- a sum that wraps is small, and then the chunk is split
  if size > add64 (add64 need HDR) 16 then
    let tail := add64 (add64 base HDR) need
    let phys := (phys.st tail 8 (sub64 (sub64 size need) HDR)).st (tail + 8) 8 h.freelist
    ({ h with phys := setUsed (phys.st base 8 need) base, freelist := tail }, some (base + HDR))
  else ({ h with phys := setUsed phys base }, some (base + HDR))

/-- The part of `malloc` behind the search. -/
def mallocGrow (h : Heap) (room need : ℕ) : Heap × Option ℕ :=
  let q := if h.heapEnd = 0 then morecore h room 0 else (h, h.heapEnd)
  if q.2 = 0 then (q.1, some 0)
  else
    let r := morecore q.1 room (chunkOf need)
    if r.2 = 0 then (r.1, some 0) else carve r.1 r.2 (chunkOf need) need

/-- `malloc`: the pointer it returns, if it returns. -/
def malloc (h : Heap) (room n : ℕ) : Heap × Option ℕ :=
  if n = 0 then (h, some 0)
  else
    match firstFit h.phys.mem (ALIGN8 n) h.walkLimit none h.freelist with
    | .endless => (h, none)
    | .fit prev b =>
      let g := h.setLink prev (next h.phys b)
      ({ g with phys := setUsed g.phys b }, some (b + HDR))
    | .exhausted => mallocGrow h room (ALIGN8 n)

/-- `free` -/
def free (h : Heap) (p : ℕ) : Heap :=
  if p = 0 then h
  else
    let b := p - HDR
    { h with
      phys := (h.phys.st b 8 (capOf h.phys.mem b)).st (b + 8) 8 h.freelist
      freelist := b }

/-- `calloc` -/
def calloc (h : Heap) (room nm sz : ℕ) : Heap × Option ℕ :=
  let n := nm * sz % 2 ^ 64
  match malloc h room n with
  | (g, none) => (g, none)
  | (g, some p) =>
    if p = 0 then (g, some 0) else ({ g with phys := g.phys.memset p 0 n }, some p)

/-- `realloc` -/
def realloc (h : Heap) (room p n : ℕ) : Heap × Option ℕ :=
  if p = 0 then malloc h room n
  else if n = 0 then (free h p, some 0)
  else
    let old := capOf h.phys.mem (p - HDR)
    if old ≥ n then (h, some p)
    else
      match malloc h room n with
      | (g, none) => (g, none)
      | (g, some np) =>
        if np = 0 then (g, some 0)
        else (free { g with phys := g.phys.write np (slice g.phys.mem p old) } p, some np)

/-! ## Runs -/

/-- A block the program holds: the pointer and the bytes it asked for. -/
structure Block where
  ptr : ℕ
  size : ℕ
deriving DecidableEq, Repr

/-- The header of the block. -/
def Block.start (b : Block) : ℕ := b.ptr - HDR

/-- The end of the block with its header at `a`. -/
def stop (mem : ℕ → UInt8) (a : ℕ) : ℕ := a + HDR + capOf mem a

/-- The heap with the blocks that the program holds, the headers of those it has given back
and not got again, and whether a call has not returned. -/
structure Sys where
  heap : Heap
  live : List Block
  freed : List ℕ
  halted : Bool

namespace Sys

/-- A call ends that hands out a block for `n` bytes, or `NULL`. -/
def handOut (s : Sys) (n : ℕ) (out : Heap × Option ℕ) : Sys :=
  match out.2 with
  | none => { s with heap := out.1, halted := true }
  | some p =>
    if p = 0 then { s with heap := out.1 }
    else
      { s with
        heap := out.1
        live := ⟨p, n⟩ :: s.live
        freed := s.freed.filter (· ≠ p - HDR) }

/-- A block is given back. -/
def giveBack (s : Sys) (b : Block) (h : Heap) : Sys :=
  { s with heap := h, live := s.live.erase b, freed := b.start :: s.freed }

/-- A `realloc` of the block `b` ends. -/
def resize (s : Sys) (b : Block) (n : ℕ) (out : Heap × Option ℕ) : Sys :=
  match out.2 with
  | none => { s with heap := out.1, halted := true }
  | some p =>
    if n = 0 then s.giveBack b out.1
    else if p = 0 then { s with heap := out.1 }
    else if p = b.ptr then { s with heap := out.1, live := ⟨p, n⟩ :: s.live.erase b }
    else (s.giveBack b out.1).handOut n out

end Sys

/-- The calls, each with the number of pages that the kernel can still map. -/
inductive Op
  | malloc (n room : ℕ)
  | calloc (nm sz room : ℕ)
  | realloc (p n room : ℕ)
  | free (p : ℕ)
  /-- memory changes outside the window, or in the payload of a block the program holds -/
  | other

/-- One call, or stores of the program, in a process that no fault has killed. -/
def Step (s : Sys) (op : Op) (s' : Sys) : Prop :=
  s.halted = false ∧ s.heap.phys.stray = [] ∧
  match op with
  | .malloc n room => n < 2 ^ 64 ∧ s' = s.handOut n (malloc s.heap room n)
  | .calloc nm sz room =>
    nm < 2 ^ 64 ∧ sz < 2 ^ 64 ∧ s' = s.handOut (nm * sz) (calloc s.heap room nm sz)
  | .realloc p n room =>
    n < 2 ^ 64 ∧
      ((p = 0 ∧ s' = s.handOut n (realloc s.heap room p n)) ∨
        ∃ b ∈ s.live, b.ptr = p ∧ s' = s.resize b n (realloc s.heap room p n))
  | .free p =>
    (p = 0 ∧ s' = { s with heap := free s.heap p }) ∨
      ∃ b ∈ s.live, b.ptr = p ∧ s' = s.giveBack b (free s.heap p)
  | .other =>
    ∃ mem, (∀ a, alignDown a ∈ s.heap.phys.owned →
        (∀ b ∈ s.live, a < b.ptr ∨ b.ptr + b.size ≤ a) → mem a = s.heap.phys.mem a) ∧
      s' = { s with heap := { s.heap with phys := { s.heap.phys with mem := mem } } }

/-- A process that has just been loaded: nothing mapped behind the image. -/
structure Start (s : Sys) : Prop where
  vars : s.heap.freelist = 0 ∧ s.heap.heapTop = 0 ∧ s.heap.heapEnd = 0
  window : s.heap.phys.owned = [] ∧ s.heap.phys.stray = []
  floor : s.heap.brkFloor = s.heap.brk
  aligned : s.heap.brk % PAGE_SIZE = 0
  low : USER_CODE_BASE ≤ s.heap.brk
  high : s.heap.brk ≤ USER_VA_LIMIT
  ghosts : s.live = [] ∧ s.freed = [] ∧ s.halted = false

/-- The heap law: every call has returned and none has faulted; every block lies in mapped
pages and has room for its size; the list visits free blocks in mapped pages, each once, and
every block given back among them; no two blocks share a byte. -/
structure Law (s : Sys) : Prop where
  running : s.halted = false
  inside : s.heap.phys.stray = []
  room : ∀ b ∈ s.live, b.size ≤ capOf s.heap.phys.mem b.start ∧
    Phys.Covers s.heap.phys.owned b.start (HDR + capOf s.heap.phys.mem b.start)
  free : ∃ l, Chain.Linked (next s.heap.phys) (· = 0) s.heap.freelist l ∧ l.Nodup ∧
    (∀ f ∈ l, Phys.Covers s.heap.phys.owned f (HDR + capOf s.heap.phys.mem f)) ∧
    (∀ f ∈ s.freed, f ∈ l) ∧
    (s.live.map Block.start ++ l).Pairwise fun a c =>
      Kheap.Apart a (stop s.heap.phys.mem a) c (stop s.heap.phys.mem c)

/-- What a call must achieve: the heap law, and a `realloc` that moves or resizes a block
keeps the bytes that both sizes have. -/
def Lawful (s : Sys) (op : Op) (s' : Sys) : Prop :=
  Law s' ∧
  match op with
  | .realloc p n room => ∀ b ∈ s.live, b.ptr = p →
    ∀ np, (realloc s.heap room p n).2 = some np → np ≠ 0 →
      ∀ i < min b.size n, s'.heap.phys.mem (np + i) = s.heap.phys.mem (p + i)
  | _ => True

/-! ## The condition -/

/-- A block on the free list is large enough. -/
def Fits (h : Heap) (need : ℕ) : Prop :=
  ∃ l, Chain.Linked (next h.phys) (· = 0) h.freelist l ∧ ∃ b ∈ l, load h.phys.mem b 8 ≥ need

/-- The growth that the request asks for would leave the brk window. -/
def Refused (h : Heap) (need : ℕ) : Prop := h.brk + chunkOf need > PH14_BRK_LIMIT

/-- The request for `n` bytes, which `malloc` sees modulo 2^64, gets `NULL`, or its sizes do
not wrap and it is served from the free list or by a growth that the kernel maps in full. -/
def Served (h : Heap) (n room : ℕ) : Prop :=
  n % 2 ^ 64 = 0 ∨
    (¬ Fits h (ALIGN8 (n % 2 ^ 64)) ∧ Refused h (ALIGN8 (n % 2 ^ 64))) ∨
    (n ≤ 2 ^ 63 - 24 ∧
      (Fits h (ALIGN8 (n % 2 ^ 64)) ∨ pagesOf (chunkOf (ALIGN8 (n % 2 ^ 64))) ≤ room))

/-- Every request that needs a block is served. -/
def Clean (s : Sys) : Op → Prop
  | .malloc n room => Served s.heap n room
  | .calloc nm sz room => Served s.heap (nm * sz) room
  | .realloc p n room =>
    (p ≠ 0 ∧ capOf s.heap.phys.mem (p - HDR) ≥ n) ∨ Served s.heap n room
  | _ => True

end MobilePhoneOs.Malloc
