import MobilePhoneOs.Kernel.Uaccess
import MobilePhoneOs.Mm.Space

/-!
# The initial user stack (`stack_setup` in `kernel/proc.c`)

The whole reservation is mapped first. The strings then go down from the top, one below the
other, and the vectors below all of them; every write is a copy-out to the new root. A string
is the list of its bytes, its NUL left out; a null vector is one without strings.
-/

namespace MobilePhoneOs.StackSetup

open Mm Mm.Vmm

def USER_STACK_TOP : ℕ := 0x0000020000000000

def USER_STACK_SIZE : ℕ := 256 * 1024

def ENOMEM : ℤ := 12

/-- The flags of a stack page: the signal trampoline runs there. -/
def stackFlags : ℕ := VM_READ ||| VM_WRITE ||| VM_EXEC ||| VM_USER

/-- The addresses of the pages of the reservation. -/
def stackPages : List ℕ := pagesFrom (USER_STACK_TOP - USER_STACK_SIZE) USER_STACK_TOP

/-- `uacc_copy_out` to the root of the space, with `junk` as in `Uaccess.copyOut`. -/
def copyOut (junk : ℕ) (s : Sys) (va : ℕ) (src : ℕ → ℕ) (len : ℕ) : Sys × ℤ :=
  let (e, mem, _) := Uaccess.copyOut s.ram.mem s.root junk va src len
  ({ s with ram := { s.ram with mem := mem } }, e)

/-- The loop that maps the reservation. -/
def mapStack (s : Sys) : List ℕ → Sys × ℤ
  | [] => (s, 0)
  | va :: vas =>
    let (s, fr) := s.alloc
    if fr = 0 then (s, -ENOMEM) -- root teardown unwinds us
    else
      let (s, e) := s.mapAt va fr stackFlags
      if e ≠ 0 then (s.release fr, -ENOMEM) else mapStack s vas

/-- A string as it lies in memory. -/
def cstr (str : List ℕ) (j : ℕ) : ℕ := str.getD j 0

/-- `str_bytes` -/
def strBytes (strs : List (List ℕ)) : ℕ := (strs.map fun str => str.length + 1).sum

/-- The loop that copies strings out; it yields `sp` and the vector of their addresses. -/
def pushStrings (junk : ℕ) : List (List ℕ) → Sys → ℕ → Sys × Option (ℕ × List ℕ)
  | [], s, sp => (s, some (sp, []))
  | str :: strs, s, sp =>
    let l := str.length + 1
    let sp := sp - l
    let (s, e) := copyOut junk s sp (cstr str) l
    if e ≠ 0 then (s, none)
    else
      match pushStrings junk strs s sp with
      | (s, none) => (s, none)
      | (s, some (sp', vec)) => (s, some (sp', sp :: vec))

/-- The bytes of 64-bit words in a row. -/
def wordBytes (ws : List ℕ) (j : ℕ) : ℕ := ws.getD (j / 8) 0 / 256 ^ (j % 8) % 256

/-- Copies of words to user addresses, up to the first that fails. -/
def copyWords (junk : ℕ) : List (ℕ × List ℕ) → Sys → Sys × ℤ
  | [], s => (s, 0)
  | (va, ws) :: rest, s =>
    let (s, e) := copyOut junk s va (wordBytes ws) (ws.length * 8)
    if e ≠ 0 then (s, e) else copyWords junk rest s

/-- The results of `stack_setup`. -/
structure Start where
  usp : ℕ
  argc : ℕ
  argv : ℕ
  envp : ℕ

/-- `total` -/
def total (argv envp : List (List ℕ)) : ℕ :=
  (strBytes argv + strBytes envp + 15) / 16 * 16
    + 8 * (argv.length + 1 + envp.length + 1) + 4 * 8

/-- `stack_setup` -/
def stackSetup (junk : ℕ) (s : Sys) (argv envp : List (List ℕ)) : Sys × Except ℤ Start :=
  let (s, e) := mapStack s stackPages
  if e ≠ 0 then (s, .error e)
  else
    let argv := argv.take 8
    let envp := envp.take 4
    let argc := argv.length
    let envc := envp.length
    if total argv envp + 256 > USER_STACK_SIZE then (s, .error (-ENOMEM))
    else
      match pushStrings junk argv s USER_STACK_TOP with
      | (s, none) => (s, .error (-Uaccess.EFAULT))
      | (s, some (sp, argvVec)) =>
        match pushStrings junk envp s sp with
        | (s, none) => (s, .error (-Uaccess.EFAULT))
        | (s, some (sp, envpVec)) =>
          let sp := sp / 16 * 16
          let base := (sp - (8 * (argc + 1 + envc + 1) + 4 * 8)) / 16 * 16
          let ev := base + 8 + (argc + 1) * 8
          let avVa := base + 8 + (argc + 1 + envc + 1) * 8
          let auxv := [6, PAGE_SIZE, 0, 0] -- AT_PAGESZ, AT_NULL
          let (s, e) := copyWords junk
            [(base, [argc]), (base + 8, argvVec), (base + 8 + argc * 8, [0]), (ev, envpVec),
              (ev + envc * 8, [0]), (avVa, auxv)] s
          if e ≠ 0 then (s, .error (-Uaccess.EFAULT))
          else (s, .ok ⟨base, argc, base + 8, base + 8 + (argc + 1) * 8⟩)

/-! ## The layout of a stack -/

/-- The 64-bit word at `va` is `v`. -/
def HoldsWord (s : Sys) (va v : ℕ) : Prop := ∀ j < 8, s.byte (va + j) = some (v / 256 ^ j % 256)

/-- The string lies at `va`, its NUL behind it. -/
def HoldsString (s : Sys) (va : ℕ) (str : List ℕ) : Prop :=
  ∀ j ≤ str.length, s.byte (va + j) = some (cstr str j)

/-- From `vec` on lie pointers to copies of the strings, which lie between `lo` and the top of
the stack, and a null pointer. -/
structure Pointers (s : Sys) (vec lo : ℕ) (strs : List (List ℕ)) (ptrs : List ℕ) : Prop where
  length : ptrs.length = strs.length
  word : ∀ i < strs.length, HoldsWord s (vec + 8 * i) (ptrs.getD i 0)
  null : HoldsWord s (vec + 8 * strs.length) 0
  string : ∀ i < strs.length, HoldsString s (ptrs.getD i 0) (strs.getD i [])
  inside : ∀ i < strs.length, lo ≤ ptrs.getD i 0 ∧
    ptrs.getD i 0 + (strs.getD i []).length < USER_STACK_TOP

/-- A stack as a program expects it: `argc` at an aligned `sp`, the two vectors behind it, and
the strings between the vectors and the top. -/
structure Layout (s : Sys) (argv envp : List (List ℕ)) (start : Start) : Prop where
  aligned : start.usp % 16 = 0
  low : USER_STACK_TOP - USER_STACK_SIZE ≤ start.usp
  count : start.argc = argv.length
  argc : HoldsWord s start.usp argv.length
  argvAt : start.argv = start.usp + 8
  envpAt : start.envp = start.argv + 8 * (argv.length + 1)
  argv : ∃ ptrs, Pointers s start.argv (start.envp + 8 * (envp.length + 1)) argv ptrs
  envp : ∃ ptrs, Pointers s start.envp (start.envp + 8 * (envp.length + 1)) envp ptrs

/-- A call lays the stack out, or it is refused for want of memory. -/
def Lawful (argv envp : List (List ℕ)) (out : Sys × Except ℤ Start) : Prop :=
  match out.2 with
  | .error e => e = -ENOMEM
  | .ok start => Layout out.1 argv envp start

/-- No page of the reservation is mapped, and there are frames for all of them and for the
tables that are missing on their paths. -/
def Room (s : Sys) : Prop :=
  (∀ va ∈ stackPages, s.probe va = none) ∧
    stackPages.length + tablesFor (present s.ram.mem s.root) stackPages ≤ s.ram.free.length

/-- The bytes of the strings from the lowest address on: the last string lies lowest. -/
def image (strs : List (List ℕ)) : List ℕ := strs.reverse.flatMap fun str => str ++ [0]

/-- How many bytes of the strings lie in the 8 bytes from the aligned `sp` on. -/
def exposed (strs : List (List ℕ)) : ℕ := 8 - (16 - strBytes strs % 16) % 16

/-- The vectors end at the aligned `sp`, or what they cover of the strings is zero anyway.
Without any string they reach over the top, which the user must be able to write. -/
def Spared (s : Sys) (strs : List (List ℕ)) : Prop :=
  strs.length % 2 = 1 ∨ (strs ≠ [] ∧ ∀ b ∈ (image strs).take (exposed strs), b = 0) ∨
    (strs = [] ∧ Uaccess.UserByte s.ram.mem s.root true USER_STACK_TOP)

end MobilePhoneOs.StackSetup
