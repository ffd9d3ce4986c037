import MobilePhoneOs.Kernel.Pipe

/-!
# The pool of pipes (`pipe_make` in `kernel/ipc.c`)

A pipe takes one of the `PIPES_MAX` flags of `pipe_used` and one heap object, and is handed
out as two files. `pipeMakeCall` is the whole call, with every allocation that may fail;
an end is closed when the last reference to its file is dropped, which runs `pipe_destroy`.
-/

namespace MobilePhoneOs.Ipc.PipePool

/-- `PIPES_MAX` -/
def PIPES_MAX : ℕ := 8

/-- A heap object of `pipe_make`. The ghost fields tell which flag of `pipe_used` is still
taken for it, which of its ends have a file, and how often it was given to `kfree`. -/
structure Obj where
  pipe : Pipe
  slot : Option ℕ
  rdOpen : Bool
  wrOpen : Bool
  frees : ℕ

namespace Obj

/-- Some end has a file. -/
def isOpen (o : Obj) : Bool := o.rdOpen || o.wrOpen

/-- `pipe_destroy` on one end of the object -/
def destroyEnd (o : Obj) (reader : Bool) : Obj :=
  let r := pipeDestroy o.pipe reader
  { o with
    pipe := r.1
    rdOpen := o.rdOpen && !reader
    wrOpen := o.wrOpen && reader
    frees := o.frees + if r.2 then 1 else 0 }

end Obj

/-- `pipe_used`, and every pipe object there has been. -/
structure Sys where
  pipeUsed : ℕ → Bool
  objs : List Obj

/-- Which of the allocations of one `pipe_make` succeed. -/
structure Memory where
  pipe : Bool
  rvn : Bool
  wvn : Bool
  rf : Bool
  wf : Bool
deriving DecidableEq

inductive MakeOutcome
  /-- `-EINVAL` -/
  | inval
  /-- `-ENFILE` -/
  | nfile
  /-- `-ENOMEM` -/
  | nomem
  | made
deriving DecidableEq, Repr

/-- The first flag of `pipe_used` that is clear. -/
def freeSlot (used : ℕ → Bool) : Option ℕ := (List.range PIPES_MAX).find? fun i => !used i

/-- The error exit of `pipe_make`: each end that got a vnode is destroyed, through its file or
without one. -/
def unwind (m : Memory) (o : Obj) : Obj :=
  let o := if m.rvn then o.destroyEnd true else o
  let o := if m.wvn then o.destroyEnd false else o
  { o with slot := none, rdOpen := false, wrOpen := false }

/-- `pipe_make` -/
def pipeMakeCall (s : Sys) (hasOut : Bool) (m : Memory) : Sys × MakeOutcome :=
  if hasOut = false then (s, .inval)
  else
    match freeSlot s.pipeUsed with
    | none => (s, .nfile)
    | some slot =>
      let taken := Function.update s.pipeUsed slot true
      let given := Function.update taken slot false
      if m.pipe = false then ({ s with pipeUsed := given }, .nomem)
      else
        let o : Obj := ⟨pipeMake, some slot, true, true, 0⟩
        if m.rvn = false ∨ m.wvn = false ∨ m.rf = false ∨ m.wf = false then
          (⟨given, s.objs ++ [unwind m o]⟩, .nomem)
        else (⟨taken, s.objs ++ [o]⟩, .made)

/-! ## Sequences of calls -/

inductive Event
  | make (hasOut : Bool) (m : Memory)
  | read (i : ℕ) (t : Task) (hasBuf : Bool) (len : ℕ)
  | write (i : ℕ) (t : Task) (hasBuf : Bool) (src : List UInt8)
  /-- the last reference to one end of the pipe `i` goes away -/
  | close (i : ℕ) (reader : Bool)

namespace Sys

/-- `ipc_subsys_init` -/
def init : Sys := ⟨fun _ => false, []⟩

def onPipe (s : Sys) (i : ℕ) (f : Obj → Obj) : Sys := { s with objs := s.objs.modify i f }

/-- The end of the pipe `i` has a file. -/
def EndOpen (s : Sys) (i : ℕ) (reader : Bool) : Prop :=
  ∃ o ∈ s.objs[i]?, (if reader then o.rdOpen else o.wrOpen) = true

instance (s : Sys) (i : ℕ) (reader : Bool) : Decidable (s.EndOpen i reader) :=
  inferInstanceAs (Decidable (∃ o ∈ s.objs[i]?, _))

/-- The calls go through files: a read through the read end, a write through the write end. -/
def Enabled (s : Sys) : Event → Prop
  | .make _ _ => True
  | .read i _ _ _ => s.EndOpen i true
  | .write i _ _ _ => s.EndOpen i false
  | .close i reader => s.EndOpen i reader

def act (s : Sys) : Event → Sys
  | .make hasOut m => (pipeMakeCall s hasOut m).1
  | .read i t hasBuf len => s.onPipe i fun o => { o with pipe := (pipeRead o.pipe t hasBuf len).1 }
  | .write i t hasBuf src =>
    s.onPipe i fun o => { o with pipe := (pipeWrite o.pipe t hasBuf src).1 }
  | .close i reader => s.onPipe i fun o => o.destroyEnd reader

instance (s : Sys) : ∀ e, Decidable (s.Enabled e)
  | .make _ _ => isTrue trivial
  | .read _ _ _ _ | .write _ _ _ _ | .close _ _ => inferInstanceAs (Decidable (EndOpen _ _ _))

/-- The pipes with an open end. -/
def openPipes (s : Sys) : ℕ := s.objs.countP Obj.isOpen

end Sys

def Step (s : Sys) (e : Event) (s' : Sys) : Prop := s.Enabled e ∧ s' = s.act e

end MobilePhoneOs.Ipc.PipePool
