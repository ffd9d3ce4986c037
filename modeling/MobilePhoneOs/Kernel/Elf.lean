import MobilePhoneOs.Kernel.Uaccess
import MobilePhoneOs.Lib.Word
import MobilePhoneOs.Mm.Space

/-!
# The ELF loader (`kernel/elf.c`)

Every field of the image is taken as it comes, and sums wrap at 64 bits. The pages of a segment
are filled through the identity map. The loader notes the ranges of the image that it reads,
and the ranges of physical memory that it writes, as start and length.
-/

namespace MobilePhoneOs.Elf

open Mm Mm.Vmm

def ELF_IDENT : List UInt8 := [0x7f, 69, 76, 70, 2, 1]
def ET_EXEC : ℕ := 2
def EM_AARCH64 : ℕ := 183
def PHDR_ENT_SIZE : ℕ := 56
def PT_LOAD : ℕ := 1
def PT_INTERP : ℕ := 3
def PF_X : ℕ := 1
def PF_W : ℕ := 2

def ELF_ERR_HEADER : ℤ := -1
def ELF_ERR_TYPE : ℤ := -2
def ELF_ERR_SEG : ℤ := -3
def ELF_ERR_OVERLAP : ℤ := -4
def ELF_ERR_NOMEM : ℤ := -5
def ELF_ERR_DYNAMIC : ℤ := -6

def USER_CODE_BASE : ℕ := 0x0000010000000000

/-! ## Headers -/

/-- An image of `len` bytes: the memory from `img` on, by 64-bit offsets. What lies from offset
`len` on is not the image. -/
structure Image where
  byte : ℕ → UInt8
  len : ℕ
  len_lt : len < 2 ^ 64

/-- The byte at `img + off`. -/
def Image.at (img : Image) (off : ℕ) : UInt8 := img.byte (off % 2 ^ 64)

/-- The fields of `elf64_ehdr` that the loader looks at. -/
structure Ehdr where
  ident : List UInt8
  type : ℕ
  machine : ℕ
  entry : ℕ
  phoff : ℕ
  phentsize : ℕ
  phnum : ℕ

/-- The fields of `elf64_phdr` that the loader looks at. -/
structure Phdr where
  type : ℕ
  flags : ℕ
  offset : ℕ
  vaddr : ℕ
  filesz : ℕ
  memsz : ℕ

def ehdr (img : Image) : Ehdr where
  ident := Mem.slice img.at 0 16
  type := Mem.load img.at 16 2
  machine := Mem.load img.at 18 2
  entry := Mem.load img.at 24 8
  phoff := Mem.load img.at 32 8
  phentsize := Mem.load img.at 54 2
  phnum := Mem.load img.at 56 2

/-- The program header at `img + off`. -/
def phdrAt (img : Image) (off : ℕ) : Phdr where
  type := Mem.load img.at off 4
  flags := Mem.load img.at (off + 4) 4
  offset := Mem.load img.at (off + 8) 8
  vaddr := Mem.load img.at (off + 16) 8
  filesz := Mem.load img.at (off + 32) 8
  memsz := Mem.load img.at (off + 40) 8

/-- Where the program header `i` lies. -/
def phdrOff (eh : Ehdr) (i : ℕ) : ℕ := add64 eh.phoff (i * eh.phentsize)

/-! ## Memory -/

/-- The address space, and the ranges read and written so far. -/
structure Load where
  sys : Sys
  reads : List (ℕ × ℕ)
  writes : List (ℕ × ℕ)

namespace Load

def read (st : Load) (off n : ℕ) : Load := { st with reads := st.reads ++ [(off, n)] }

def setMem (st : Load) (mem : Mem) : Load :=
  { st with sys := { st.sys with ram := { st.sys.ram with mem := mem } } }

/-- `memcpy` from the image to physical memory. -/
def memcpy (st : Load) (img : Image) (dst off n : ℕ) : Load :=
  let st := st.setMem (Mem.copy st.sys.ram.mem dst n fun i => (img.at (off + i)).toNat)
  { st with reads := st.reads ++ [(off, n)], writes := st.writes ++ [(dst, n)] }

/-- `memset` of physical memory to zero. The range may go around the end of the addresses. -/
def memset (st : Load) (dst n : ℕ) : Load :=
  let st := st.setMem fun a => if a < 2 ^ 64 ∧ sub64 a dst < n then 0 else st.sys.ram.mem a
  { st with writes := st.writes ++ [(dst, n)] }

end Load

/-! ## Loading -/

/-- `get_phdr` -/
def getPhdr (img : Image) (eh : Ehdr) (i : ℕ) (st : Load) : Load × Option Phdr :=
  let off := phdrOff eh i
  if add64 off PHDR_ENT_SIZE > img.len then (st, none)
  else (st.read off PHDR_ENT_SIZE, some (phdrAt img off))

/-- The flags of the pages of a segment. -/
def segFlags (ph : Phdr) : ℕ :=
  let fl := VM_READ ||| VM_USER
  let fl := if ph.flags &&& PF_W ≠ 0 then fl ||| VM_WRITE else fl
  if ph.flags &&& PF_X ≠ 0 then fl ||| VM_EXEC else fl

/-- Where the file data of a segment ends. -/
def fileEnd (ph : Phdr) : ℕ := add64 ph.vaddr ph.filesz

/-- Where a segment ends. -/
def memEnd (ph : Phdr) : ℕ := add64 ph.vaddr ph.memsz

/-- The part of `load_segment` that fills the frame `fr` of the page `va`. -/
def fillPage (img : Image) (ph : Phdr) (va fr : ℕ) (st : Load) : Load :=
  let lo := if va > ph.vaddr then va else ph.vaddr
  let hiF := if va + PAGE_SIZE < fileEnd ph then va + PAGE_SIZE else fileEnd ph
  let hiM := if va + PAGE_SIZE < memEnd ph then va + PAGE_SIZE else memEnd ph
  let st :=
    if hiF > lo then
      st.memcpy img (fr + (lo - va)) (add64 ph.offset (lo - ph.vaddr)) (hiF - lo)
    else st
  if hiM > hiF then st.memset (add64 fr (sub64 hiF va)) (hiM - hiF) else st

/-- A round of the loop of `load_segment`. -/
def loadPage (img : Image) (ph : Phdr) (va : ℕ) (st : Load) : Load × ℤ :=
  let (s, fr) := st.sys.alloc
  if fr = 0 then ({ st with sys := s }, ELF_ERR_NOMEM)
  else
    let (s, e) := s.mapAt va fr (segFlags ph)
    if e ≠ 0 then ({ st with sys := s.release fr }, ELF_ERR_OVERLAP)
    else (fillPage img ph va fr { st with sys := s }, 0)

/-- The loop of `load_segment`. -/
def loadPages (img : Image) (ph : Phdr) : List ℕ → Load → Load × ℤ
  | [], st => (st, 0)
  | va :: vas, st =>
    let (st, e) := loadPage img ph va st
    if e ≠ 0 then (st, e) else loadPages img ph vas st

/-- The pages of a segment. -/
def segPages (ph : Phdr) : List ℕ := pagesFrom (alignDown ph.vaddr) (alignUp (memEnd ph))

/-- `load_segment` -/
def loadSegment (img : Image) (ph : Phdr) (st : Load) : Load × ℤ :=
  if add64 ph.offset ph.filesz > img.len then (st, ELF_ERR_SEG)
  else if ph.vaddr < USER_CODE_BASE ∨ memEnd ph > Uaccess.USER_VA_LIMIT then (st, ELF_ERR_SEG)
  else loadPages img ph (segPages ph) st

/-- The loop that rejects dynamic images. -/
def rejectDynamic (img : Image) (eh : Ehdr) : List ℕ → Load → Load × ℤ
  | [], st => (st, 0)
  | i :: is, st =>
    match getPhdr img eh i st with
    | (st, none) => (st, ELF_ERR_HEADER)
    | (st, some ph) =>
      if ph.type = PT_INTERP then (st, ELF_ERR_DYNAMIC) else rejectDynamic img eh is st

/-- The loop over the segments; it yields the break. -/
def loadSegments (img : Image) (eh : Ehdr) : List ℕ → ℕ → Load → Load × Except ℤ ℕ
  | [], brk, st => (st, .ok brk)
  | i :: is, brk, st =>
    match getPhdr img eh i st with
    | (st, none) => (st, .error ELF_ERR_HEADER)
    | (st, some ph) =>
      if ph.type ≠ PT_LOAD ∨ ph.memsz = 0 then loadSegments img eh is brk st
      else
        let (st, r) := loadSegment img ph st
        if r ≠ 0 then (st, .error r)
        else
          let top := alignUp (memEnd ph)
          loadSegments img eh is (if top > brk then top else brk) st

/-- `elf_load`: the entry point and the break. -/
def elfLoad (img : Image) (s : Sys) : Load × Except ℤ (ℕ × ℕ) :=
  let st : Load := ⟨s, [], []⟩
  if img.len < 64 then (st, .error ELF_ERR_HEADER)
  else
    let st := st.read 0 64
    let eh := ehdr img
    if eh.ident.take 6 ≠ ELF_IDENT then (st, .error ELF_ERR_HEADER)
    else if eh.type ≠ ET_EXEC ∨ eh.machine ≠ EM_AARCH64 ∨ eh.phentsize ≠ PHDR_ENT_SIZE ∨
        eh.phnum = 0 ∨ eh.phnum > 32 then (st, .error ELF_ERR_TYPE)
    else if add64 eh.phoff (eh.phnum * eh.phentsize) > img.len then (st, .error ELF_ERR_HEADER)
    else
      let (st, r) := rejectDynamic img eh (List.range eh.phnum) st
      if r ≠ 0 then (st, .error r)
      else
        match loadSegments img eh (List.range eh.phnum) 0 st with
        | (st, .error e) => (st, .error e)
        | (st, .ok brk) =>
          if eh.entry < USER_CODE_BASE ∨ eh.entry ≥ Uaccess.USER_VA_LIMIT then
            (st, .error ELF_ERR_SEG)
          else (st, .ok (eh.entry, brk))

/-! ## What a load should do -/

/-- The program headers of an image. -/
def phdrs (img : Image) : List Phdr :=
  (List.range (ehdr img).phnum).map fun i => phdrAt img (phdrOff (ehdr img) i)

/-- The segments that are loaded. -/
def segments (img : Image) : List Phdr :=
  (phdrs img).filter fun ph => decide (ph.type = PT_LOAD ∧ ph.memsz ≠ 0)

/-- The checks of `load_segment` pass. -/
def SegmentOk (img : Image) (ph : Phdr) : Prop :=
  add64 ph.offset ph.filesz ≤ img.len ∧ USER_CODE_BASE ≤ ph.vaddr ∧
    memEnd ph ≤ Uaccess.USER_VA_LIMIT

instance (img : Image) (ph : Phdr) : Decidable (SegmentOk img ph) :=
  inferInstanceAs (Decidable (_ ∧ _ ∧ _))

/-- The pages of the segments up to the first one that is rejected, in the order in which they
are loaded. -/
def plan (img : Image) : List (Phdr × ℕ) :=
  ((segments img).takeWhile fun ph => decide (SegmentOk img ph)).flatMap fun ph =>
    (segPages ph).map fun va => (ph, va)

/-- The address lies in a page of the segment. -/
def InPages (ph : Phdr) (a : ℕ) : Prop := alignDown ph.vaddr ≤ a ∧ a < alignUp (memEnd ph)

instance (ph : Phdr) (a : ℕ) : Decidable (InPages ph a) := inferInstanceAs (Decidable (_ ∧ _))

/-- What the byte at an address of a page should be: the byte of the file there, or zero. -/
def wantedByte (img : Image) (ph : Phdr) (a : ℕ) : ℕ :=
  if ph.vaddr ≤ a ∧ a < ph.vaddr + ph.filesz then
    (img.at (ph.offset + (a - ph.vaddr))).toNat
  else 0

/-- What a load that succeeds should leave behind. -/
structure ImageLaw (img : Image) (s : Sys) (out : Load) : Prop where
  bytes : ∀ ph ∈ segments img, ∀ a, InPages ph a → out.sys.byte a = some (wantedByte img ph a)
  flags : ∀ ph ∈ segments img, ∀ a, InPages ph a → ∃ pa fl, out.sys.probe a = some (pa, fl) ∧
    fl &&& VM_USER ≠ 0 ∧ fl &&& VM_READ ≠ 0 ∧ (fl &&& VM_WRITE ≠ 0 ↔ ph.flags &&& PF_W ≠ 0) ∧
      (fl &&& VM_EXEC ≠ 0 ↔ ph.flags &&& PF_X ≠ 0)
  only : ∀ a, UserVa a → (∀ ph ∈ segments img, ¬ InPages ph a) → out.sys.probe a = s.probe a
  writes : ∀ w ∈ out.writes, ∀ i < w.2, alignDown (add64 w.1 i) ∈ s.ram.free ∧
    alignDown (add64 w.1 i) ∉ out.sys.ram.free

/-- What a load of any image should do. -/
structure HostileLaw (img : Image) (s : Sys) (out : Load × Except ℤ (ℕ × ℕ)) : Prop where
  reads : ∀ r ∈ out.1.reads, r.1 + r.2 ≤ img.len
  /-- of the addresses that a user access takes -/
  window : ∀ a, UserVa a → out.1.sys.probe a ≠ s.probe a →
    USER_CODE_BASE ≤ a ∧ a < Uaccess.USER_VA_LIMIT
  frames : ∀ e, out.2 = .error e → Space out.1.sys ∧ out.1.sys.root = s.root ∧
    ∀ f ∈ s.ram.free, f ∈ out.1.sys.ram.free ∨ f ∈ out.1.sys.held ∨
      ∃ page fl, out.1.sys.maps page = some (f, fl)

/-- The ranges of the segment in the file and in memory do not wrap around, and its page `va`
does not lie wholly behind the file data. -/
structure TamePage (ph : Phdr) (va : ℕ) : Prop where
  offset : ph.offset + ph.filesz < 2 ^ 64
  data : ph.vaddr + ph.filesz < 2 ^ 64
  near : va ≤ ph.vaddr + ph.filesz

/-- The pages can be mapped one after another: none is mapped yet, no two are the same, and
there are enough frames. -/
def Fits (s : Sys) (vas : List ℕ) : Prop :=
  (∀ va ∈ vas, s.maps (va / PAGE_SIZE) = none) ∧ (vas.map (· / PAGE_SIZE)).Nodup ∧
    vas.length + tablesFor (present s.ram.mem s.root) vas ≤ s.ram.free.length

/-- Every page that the load comes to is tame. -/
def Tame (img : Image) (s : Sys) : Prop :=
  ∀ k ph va, (plan img)[k]? = some (ph, va) →
    Fits s (((plan img).take (k + 1)).map Prod.snd) → TamePage ph va

/-- A byte of a page that is neither file data nor cleared. -/
def Padding (ph : Phdr) (a : ℕ) : Prop :=
  a < ph.vaddr ∨ (ph.vaddr + ph.filesz ≤ a ∧ memEnd ph ≤ a)

/-- The frames that the pages get hold zeros in the padding. -/
def PaddingZero (img : Image) (s : Sys) : Prop :=
  ∀ k ph va, (plan img)[k]? = some (ph, va) → ∀ j < PAGE_SIZE, Padding ph (va + j) →
    s.ram.mem (frameFor s ((plan img).map Prod.snd) k + j) = 0

/-- The checks of the file header pass. -/
def HeaderOk (img : Image) : Prop :=
  64 ≤ img.len ∧ (ehdr img).ident.take 6 = ELF_IDENT ∧ (ehdr img).type = ET_EXEC ∧
    (ehdr img).machine = EM_AARCH64 ∧ (ehdr img).phentsize = PHDR_ENT_SIZE ∧
    (ehdr img).phnum ≠ 0 ∧ (ehdr img).phnum ≤ 32 ∧
    add64 (ehdr img).phoff ((ehdr img).phnum * (ehdr img).phentsize) ≤ img.len

instance (img : Image) : Decidable (HeaderOk img) :=
  inferInstanceAs (Decidable (_ ∧ _ ∧ _ ∧ _ ∧ _ ∧ _ ∧ _ ∧ _))

/-- The program headers do not wrap around: the first one, and if it lies in the image the
others. -/
def HeadersTame (img : Image) : Prop :=
  (ehdr img).phoff + PHDR_ENT_SIZE < 2 ^ 64 ∧
    ((ehdr img).phoff + PHDR_ENT_SIZE ≤ img.len →
      (ehdr img).phoff + (ehdr img).phnum * PHDR_ENT_SIZE < 2 ^ 64)

/-- What an image that passes the checks of the file header must keep to. -/
def Harmless (img : Image) (s : Sys) : Prop :=
  HeaderOk img → HeadersTame img ∧ ((∀ ph ∈ phdrs img, ph.type ≠ PT_INTERP) → Tame img s)

end MobilePhoneOs.Elf
