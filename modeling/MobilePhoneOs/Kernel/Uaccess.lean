import MobilePhoneOs.Lib.Mem
import MobilePhoneOs.Mm.Vmm

/-!
# Access to user memory (`kernel/uaccess.c`)

A range is walked page by page before the copy starts; the copy then touches the frames
through the identity map. A cell of memory is a word of a table or a byte of a page: a frame
is never both. The kernel buffer is an object of the kernel, apart from the frames. A copy
also yields the `memcpy`s it made, as the physical address on the user side and the length.
-/

namespace MobilePhoneOs.Uaccess

open Mm

def USER_VA_LIMIT : ℕ := 0x0000040000000000

def EFAULT : ℤ := 14

/-- `range_ok` -/
def rangeOk (va len : ℕ) : Bool :=
  if va ≥ USER_VA_LIMIT then false
  else if len = 0 then true
  else
    let last := sub64 (add64 va len) 1
    if last < va then false -- wrapped
    else decide (last < USER_VA_LIMIT)

/-- `chunk`: what is left of the page of `va`, `len` at most. -/
def chunk (va len : ℕ) : ℕ :=
  let chunk := PAGE_SIZE - (va &&& (PAGE_SIZE - 1))
  if chunk > len then len else chunk

/-- The loop of `check_range`, for `n` rounds at most. -/
def checkLoop (mem : Mem) (root : ℕ) (write : Bool) : ℕ → ℕ → ℕ → ℤ
  | 0, _, _ => 0
  | n + 1, va, len =>
    if len = 0 then 0
    else
      match vmmProbe mem root (alignDown va) with
      | none => -EFAULT
      | some (_, fl) =>
        if fl &&& VM_USER = 0 then -EFAULT
        else if write = true ∧ fl &&& VM_WRITE = 0 then -EFAULT
        else checkLoop mem root write n (add64 va (chunk va len)) (len - chunk va len)

/-- `check_range`. Every round takes a byte at least, so `len` rounds are enough. -/
def checkRange (mem : Mem) (root va len : ℕ) (write : Bool) : ℤ :=
  checkLoop mem root write len va len

/-- The address that a round copies from or to. `vmm_probe` leaves `pa` unset (`junk`) when it
finds nothing. -/
def userSide (mem : Mem) (root junk va : ℕ) : ℕ :=
  let pa := ((vmmProbe mem root va).map Prod.fst).getD junk
  alignDown pa + (va &&& (PAGE_SIZE - 1))

/-- The loop of `copy_in`; `pos` is how far `kdst` has moved. -/
def copyInLoop (mem : Mem) (root junk : ℕ) : ℕ → Mem → ℕ → ℕ → ℕ → Mem × List (ℕ × ℕ)
  | 0, kdst, _, _, _ => (kdst, [])
  | n + 1, kdst, pos, usrc, len =>
    if len = 0 then (kdst, [])
    else
      let c := chunk usrc len
      let src := userSide mem root junk usrc
      let kdst := Mem.copy kdst pos c fun i => mem (src + i)
      let (kdst, log) := copyInLoop mem root junk n kdst (pos + c) (add64 usrc c) (len - c)
      (kdst, (src, c) :: log)

/-- `copy_in` -/
def copyIn (mem : Mem) (root junk : ℕ) (kdst : Mem) (usrc len : ℕ) : ℤ × Mem × List (ℕ × ℕ) :=
  if rangeOk usrc len = false ∨ checkRange mem root usrc len false ≠ 0 then (-EFAULT, kdst, [])
  else (0, copyInLoop mem root junk len kdst 0 usrc len)

/-- The loop of `copy_out`; `pos` is how far `ksrc` has moved. -/
def copyOutLoop (root junk : ℕ) (ksrc : ℕ → ℕ) : ℕ → Mem → ℕ → ℕ → ℕ → Mem × List (ℕ × ℕ)
  | 0, mem, _, _, _ => (mem, [])
  | n + 1, mem, pos, udst, len =>
    if len = 0 then (mem, [])
    else
      let c := chunk udst len
      let dst := userSide mem root junk udst
      let mem := Mem.copy mem dst c fun i => ksrc (pos + i)
      let (mem, log) := copyOutLoop root junk ksrc n mem (pos + c) (add64 udst c) (len - c)
      (mem, (dst, c) :: log)

/-- `copy_out` -/
def copyOut (mem : Mem) (root junk udst : ℕ) (ksrc : ℕ → ℕ) (len : ℕ) :
    ℤ × Mem × List (ℕ × ℕ) :=
  if rangeOk udst len = false ∨ checkRange mem root udst len true ≠ 0 then (-EFAULT, mem, [])
  else (0, copyOutLoop root junk ksrc len mem 0 udst len)

/-- The loop of `uacc_strnlen_user`, with `k` rounds to go and `n` bytes behind it. -/
def strnlenLoop (mem : Mem) (root usrc : ℕ) : ℕ → ℕ → ℤ
  | 0, _ => -EFAULT -- ran off the cap
  | k + 1, n =>
    let va := add64 usrc n
    if rangeOk va 1 = false ∨ checkRange mem root va 1 false ≠ 0 then -EFAULT
    else
      let pa := ((vmmProbe mem root va).map Prod.fst).getD 0
      if UInt8.ofNat (mem pa) = 0 then n else strnlenLoop mem root usrc k (n + 1)

/-- `uacc_strnlen_user` -/
def strnlenUser (mem : Mem) (root usrc max : ℕ) : ℤ := strnlenLoop mem root usrc max 0

/-! ## What the copies are for -/

/-- The byte at `va` is the user's to read, or to write. -/
def UserByte (mem : Mem) (root : ℕ) (write : Bool) (va : ℕ) : Prop :=
  ∃ pa fl, vmmProbe mem root va = some (pa, fl) ∧ fl &&& VM_USER ≠ 0 ∧
    (write = true → fl &&& VM_WRITE ≠ 0)

/-- The range lies in the user window and every byte of it is the user's. -/
def UserRange (mem : Mem) (root : ℕ) (write : Bool) (va len : ℕ) : Prop :=
  va < USER_VA_LIMIT ∧ va + len ≤ USER_VA_LIMIT ∧ ∀ i < len, UserByte mem root write (va + i)

/-- The physical address of a user byte. -/
def translate (mem : Mem) (root va : ℕ) : ℕ := ((vmmProbe mem root va).map Prod.fst).getD 0

/-- The words that the walk from the table `t` of level `3 - k` reads. -/
def walkedFrom (mem : Mem) (va : ℕ) : ℕ → ℕ → List ℕ
  | 0, t => [t + 8 * index 3 va]
  | k + 1, t =>
    let slot := t + 8 * index (3 - (k + 1)) va
    if mem slot &&& PTE_VALID = 0 ∨ mem slot &&& PTE_TABLE = 0 then [slot]
    else slot :: walkedFrom mem va k (tablePtr (mem slot))

/-- No page that the user may write is a table that leads to one. -/
def Apart (mem : Mem) (root : ℕ) : Prop :=
  ∀ va va', va < USER_VA_LIMIT → va' < USER_VA_LIMIT → UserByte mem root true va →
    UserByte mem root true va' →
      ∀ a ∈ walkedFrom mem va' 3 root, alignDown a ≠ alignDown (translate mem root va)

/-- Memory after the `len` bytes of `ksrc` have gone to the user addresses from `va` on, one
after another. -/
def writeBytes (mem : Mem) (root va : ℕ) (ksrc : ℕ → ℕ) (len : ℕ) : Mem :=
  Mem.scatter mem (fun i => translate mem root (va + i)) ksrc len

/-- The addresses of the user side that a list of `memcpy`s touches, in order. -/
def touched (log : List (ℕ × ℕ)) : List ℕ :=
  log.flatMap fun c => (List.range c.2).map fun i => c.1 + i

end MobilePhoneOs.Uaccess
