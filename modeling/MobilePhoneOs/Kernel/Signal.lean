import Mathlib.Data.BitVec
import MobilePhoneOs.Lib.Run
import MobilePhoneOs.Lib.Word

/-!
# Signals (`kernel/signal.c`)

The signal state of one process between the boundaries of kernel and user mode: the delivery of a
pending signal, with the frame that it writes to the user stack through `kernel/uaccess.c`, and
the way back through `SYS_sigreturn` and `syscall_dispatch`.
-/

namespace MobilePhoneOs.Signals

open Mem
open BitVec (ofNat)

def NSIG : ℕ := 32
def SIGKILL : ℕ := 9
def SIGSEGV : ℕ := 11
def SIGCHLD : ℕ := 17

def SIG_DFL : BitVec 64 := 0
def SIG_IGN : BitVec 64 := 1

def SIGFRAME_MAGIC : ℕ := 0x47465653

/-- `sizeof(struct sigframe)` -/
def SIGFRAME_SIZE : ℕ := 280

def SYS_sigreturn : BitVec 64 := 9

def USER_VA_LIMIT : ℕ := 0x0000040000000000
def PAGE_SIZE : ℕ := 4096

/-- What `struct trap_frame` has of the user. -/
structure Context where
  regs : Fin 31 → BitVec 64
  sp : BitVec 64
  elr : BitVec 64
  spsr : BitVec 64

/-! ## User memory -/

/-- The bytes of user memory, and which of its pages `vmm_probe` finds with `VM_USER` and with
`VM_WRITE`. -/
structure UserMem where
  bytes : ℕ → UInt8
  user : ℕ → Bool
  write : ℕ → Bool

namespace UserMem

/-- `range_ok` -/
def rangeOk (va len : ℕ) : Bool :=
  va < USER_VA_LIMIT ∧
    (len = 0 ∨ (va ≤ (va + len - 1) % 2 ^ 64 ∧ (va + len - 1) % 2 ^ 64 < USER_VA_LIMIT))

/-- `check_range`: every page of the range -/
def checkRange (m : UserMem) (va len : ℕ) (write : Bool) : Bool :=
  (List.range ((va % PAGE_SIZE + len + PAGE_SIZE - 1) / PAGE_SIZE)).all fun k =>
    m.user (va / PAGE_SIZE + k) && (!write || m.write (va / PAGE_SIZE + k))

/-- The range can be read by `copy_in`. -/
def readable (m : UserMem) (va len : ℕ) : Bool := rangeOk va len && m.checkRange va len false

/-- `copy_out` -/
def copyOut (m : UserMem) (va : ℕ) (src : List UInt8) : Option UserMem :=
  if rangeOk va src.length && m.checkRange va src.length true then
    some { m with bytes := store m.bytes va src }
  else none

end UserMem

/-! ## The frame -/

/-- The words of `struct sigframe`: magic, registers, `sp`, `elr` and `spsr`. -/
def frameWords (c : Context) : List ℕ :=
  SIGFRAME_MAGIC :: ((List.ofFn fun i => (c.regs i).toNat) ++
    [c.sp.toNat, c.elr.toNat, c.spsr.toNat])

def frameBytes (c : Context) : List UInt8 := (frameWords c).flatMap (leBytes 8)

/-- `sig_tramp` -/
def trampoline : List UInt8 :=
  leBytes 4 (0xd2800008 ||| SYS_sigreturn.toNat <<< 5) ++ leBytes 4 0xd4000001

/-- The word of a frame in user memory. -/
def frameWord (m : UserMem) (va i : ℕ) : ℕ := load m.bytes (va + 8 * i) 8

/-- The context in a frame in user memory. -/
def frameContext (m : UserMem) (va : ℕ) : Context where
  regs := fun i => ofNat 64 (frameWord m va (1 + i))
  sp := ofNat 64 (frameWord m va 32)
  elr := ofNat 64 (frameWord m va 33)
  spsr := ofNat 64 (frameWord m va 34)

/-! ## Delivery -/

/-- `signal_default_fatal` -/
def signalDefaultFatal (sig : ℕ) : Bool := if sig = 0 ∨ NSIG ≤ sig then true else sig ≠ SIGCHLD

/-- The signal state of a process, its memory and its context at the boundary. `pending sig` is
bit `sig - 1` of `sig_pending`. The ghost `saved` has the context that was interrupted by the
handler that runs. -/
structure Proc where
  sig_handler : ℕ → BitVec 64
  pending : ℕ → Bool
  in_signal : Bool
  sigframe_va : ℕ
  mem : UserMem
  ctx : Context
  dead : Option ℕ
  saved : Option Context

/-- The signals of the bits of `sig_pending`, lowest first. -/
def signals : List ℕ := (List.range 32).map (· + 1)

namespace Proc

def setPending (s : Proc) (sig : ℕ) (b : Bool) : Proc :=
  { s with pending := Function.update s.pending sig b }

/-- `proc_die` -/
def die (s : Proc) (code : ℕ) : Proc := { s with dead := some code }

/-- Where the frame goes. -/
def frameVa (s : Proc) : BitVec 64 := (s.ctx.sp - ofNat 64 SIGFRAME_SIZE) &&& ~~~15#64

/-- The frame and the trampoline are written. -/
def writeFrame (s : Proc) : Option UserMem :=
  (s.mem.copyOut s.frameVa.toNat (frameBytes s.ctx)).bind fun m =>
    m.copyOut ((s.frameVa.toNat + SIGFRAME_SIZE) % 2 ^ 64) trampoline

/-- Execution is redirected into the handler. -/
def handlerContext (s : Proc) (sig : ℕ) : Context where
  regs := fun i =>
    if i = 0 then ofNat 64 sig
    else if i.val ≤ 17 then 0
    else if i = 30 then s.frameVa + ofNat 64 SIGFRAME_SIZE
    else s.ctx.regs i
  sp := s.frameVa
  elr := s.sig_handler sig
  spsr := s.ctx.spsr

/-- What `signal_deliver_pending` does with a signal that is not set to `SIG_IGN`. -/
def deliverOne (s : Proc) (sig : ℕ) : Proc :=
  -- the default action is asked for also where a handler is installed
  if s.sig_handler sig = SIG_DFL ∨ signalDefaultFatal sig then s.die (128 + sig)
  else if s.in_signal then s.setPending sig true
  else
    match s.writeFrame with
    | none => s.die (128 + SIGSEGV)
    | some m =>
      { s with
        mem := m
        in_signal := true
        sigframe_va := s.frameVa.toNat
        ctx := s.handlerContext sig
        saved := some s.ctx }

/-- The loop of `signal_deliver_pending` over the bits, lowest first. -/
def deliverFrom (s : Proc) : List ℕ → Proc
  | [] => s
  | sig :: rest =>
    if s.pending sig then
      if s.sig_handler sig = SIG_IGN then (s.setPending sig false).deliverFrom rest
      else (s.setPending sig false).deliverOne sig
    else s.deliverFrom rest

/-- `signal_deliver_pending` -/
def deliver (s : Proc) : Proc := s.deliverFrom signals

/-- The checks of `proc_sigreturn`. -/
def Accepts (s : Proc) : Prop :=
  s.in_signal = true ∧ s.mem.readable s.sigframe_va SIGFRAME_SIZE = true ∧
    frameWord s.mem s.sigframe_va 0 = SIGFRAME_MAGIC ∧
    (frameContext s.mem s.sigframe_va).spsr >>> 32 = 0 ∧
    (frameContext s.mem s.sigframe_va).spsr &&& 0xc = 0

instance (s : Proc) : Decidable s.Accepts := inferInstanceAs (Decidable (_ ∧ _ ∧ _ ∧ _ ∧ _))

/-- `proc_sigreturn` -/
def procSigreturn (s : Proc) : Proc :=
  if s.Accepts then
    { s with
      ctx := frameContext s.mem s.sigframe_va
      in_signal := false
      sigframe_va := 0
      saved := none }
  else s.die (128 + SIGSEGV)

/-- The case of `SYS_sigreturn` in `syscall_dispatch` -/
def sysSigreturn (s : Proc) : Proc :=
  -- the result of the call is written over the `x0` that has come back
  { s.procSigreturn with
    ctx := { s.procSigreturn.ctx with regs := Function.update s.procSigreturn.ctx.regs 0 0 } }

/-- `proc_do_kill` -/
def kill (s : Proc) (sig : ℕ) : Proc := if sig = 0 ∨ NSIG ≤ sig then s else s.setPending sig true

/-- `sys_sigaction` -/
def sigaction (s : Proc) (sig : ℕ) (handler : BitVec 64) : Proc :=
  if sig = 0 ∨ NSIG ≤ sig ∨ sig = SIGKILL ∨ sig = SIGCHLD then s
  else { s with sig_handler := Function.update s.sig_handler sig handler }

end Proc

/-! ## The saved status -/

/-- Any mode but user mode, of AArch64 or of AArch32. -/
def Privileged (spsr : BitVec 64) : Prop := spsr &&& 0x1f ≠ 0 ∧ spsr &&& 0x1f ≠ 0x10

/-- One of the mask bits D, A, I and F is set. -/
def Masked (spsr : BitVec 64) : Prop := spsr &&& 0x3c0 ≠ 0

instance (spsr : BitVec 64) : Decidable (Privileged spsr) := inferInstanceAs (Decidable (_ ∧ _))

instance (spsr : BitVec 64) : Decidable (Masked spsr) := inferInstanceAs (Decidable (_ ≠ _))

/-- What user code that was not masked is interrupted with. -/
def UserPsr (spsr : BitVec 64) : Prop := spsr >>> 32 = 0 ∧ ¬ Privileged spsr ∧ ¬ Masked spsr

/-! ## Runs -/

inductive Event
  | kill (sig : ℕ)
  | sigaction (sig : ℕ) (handler : BitVec 64)
  /-- user code runs up to an exception; it may write to its memory and change its mappings -/
  | user (ctx : Context) (mem : UserMem)
  | deliver
  | sigreturn

namespace Proc

def act (s : Proc) : Event → Proc
  | .kill sig => s.kill sig
  | .sigaction sig handler => s.sigaction sig handler
  | .user ctx mem => { s with ctx := ctx, mem := mem }
  | .deliver => s.deliver
  | .sigreturn => s.sysSigreturn

def Enabled (s : Proc) : Event → Prop
  | .user ctx _ => s.dead = none ∧ UserPsr ctx.spsr
  | .sigreturn => s.dead = none ∧ s.ctx.regs 8 = SYS_sigreturn
  | _ => s.dead = none

end Proc

def Step (s : Proc) (e : Event) (t : Proc) : Prop := s.Enabled e ∧ t = s.act e

/-- A process before its first instruction, with any handlers. -/
def enter (sig_handler : ℕ → BitVec 64) (mem : UserMem) (sp entry : BitVec 64) : Proc where
  sig_handler := sig_handler
  pending := fun _ => false
  in_signal := false
  sigframe_va := 0
  mem := mem
  ctx := ⟨fun _ => 0, sp, entry, 0⟩
  dead := none
  saved := none

/-! ## The law -/

namespace Proc

/-- The pending signal has a handler, or an action that ends the process. -/
def Acts (s : Proc) (sig : ℕ) : Bool :=
  s.pending sig && (if s.sig_handler sig = SIG_DFL then signalDefaultFatal sig
    else s.sig_handler sig ≠ SIG_IGN)

/-- The frame of the context is in user memory, as it was written. -/
def Intact (s : Proc) (c : Context) : Prop :=
  s.mem.readable s.sigframe_va SIGFRAME_SIZE = true ∧ frameWord s.mem s.sigframe_va 0 = SIGFRAME_MAGIC ∧
    frameContext s.mem s.sigframe_va = c

end Proc

/-- The handler of the signal has been entered, with the interrupted context in the frame. -/
structure Entered (s t : Proc) (sig : ℕ) : Prop where
  alive : t.dead = none
  pc : t.ctx.elr = s.sig_handler sig
  arg : t.ctx.regs 0 = ofNat 64 sig
  link : slice t.mem.bytes (t.ctx.regs 30).toNat trampoline.length = trampoline
  taken : t.pending sig = false
  running : t.in_signal = true
  saved : t.saved = some s.ctx
  intact : t.Intact s.ctx

/-- What has to happen at a boundary: the lowest pending signal that is not to be ignored runs its
handler, waits for the one that runs, or ends the process, and no other one is lost. -/
def DeliverLaw (s t : Proc) : Prop :=
  match signals.find? s.Acts with
  | none => t.dead = none ∧ t.ctx = s.ctx ∧ ∀ sig ∈ signals, t.pending sig = false
  | some sig =>
    if s.sig_handler sig = SIG_DFL then t.dead = some (128 + sig)
    else
      (∀ g ∈ signals, g ≠ sig → s.Acts g = true → t.pending g = true) ∧
        if s.in_signal then t.dead = none ∧ t.ctx = s.ctx ∧ t.pending sig = true
        else Entered s t sig

/-- What has to happen at `SYS_sigreturn`: the frame as it was written gives back the interrupted
context, and none gives a privileged or masked one. -/
def ReturnLaw (s t : Proc) : Prop :=
  (∀ c, s.saved = some c → s.Intact c → t.dead = none ∧ t.in_signal = false ∧ t.ctx = c) ∧
    (t.dead = none → ¬ Privileged t.ctx.spsr ∧ ¬ Masked t.ctx.spsr)

def Lawful (s : Proc) (e : Event) (t : Proc) : Prop :=
  match e with
  | .deliver => DeliverLaw s t
  | .sigreturn => ReturnLaw s t
  | _ => True

/-- The condition on a step. Of the pending signals that are not set to `SIG_IGN` the lowest has no
handler and is not `SIGCHLD`, or it is `SIGCHLD` with a handler, and the stack takes the frame; the
interrupted context that goes back has zero in `x0`, and a frame that is accepted is not privileged
or masked. -/
def Clean (s : Proc) : Event → Prop
  | .deliver =>
    match signals.find? fun sig => s.pending sig && s.sig_handler sig ≠ SIG_IGN with
    | none => True
    | some sig =>
      if s.sig_handler sig = SIG_DFL then signalDefaultFatal sig = true
      else signalDefaultFatal sig = false ∧ (s.in_signal = true ∨ s.writeFrame ≠ none)
  | .sigreturn =>
    (∀ c, s.saved = some c → s.Intact c → c.regs 0 = 0) ∧
      (s.Accepts → ¬ Privileged (frameContext s.mem s.sigframe_va).spsr ∧
        ¬ Masked (frameContext s.mem s.sigframe_va).spsr)
  | _ => True

end MobilePhoneOs.Signals
