import MobilePhoneOs.Lib.Run
import Mathlib.Data.Set.Function

/-!
# Open files (`f_read`, `f_write` and `f_lseek` in `fs/vfs.c`)

A `struct file` has the offset at which the data paths of its filesystem work. The calls are over
an arbitrary filesystem in an arbitrary state; what it answers may depend on memory and devices,
which are a parameter of every call. Descriptors that `dup` and `fork` have made share a file.
-/

namespace MobilePhoneOs.OpenFile

open Function (update)
open BitVec (ofInt ofNat)

def EIO : ℤ := 5
def EBADF : ℤ := 9
def EISDIR : ℤ := 21
def EINVAL : ℤ := 22
def ESPIPE : ℤ := 29

def O_RDONLY : BitVec 32 := 0
def O_WRONLY : BitVec 32 := 1
def O_ACCMODE : BitVec 32 := 3
def O_TRUNC : BitVec 32 := 0x200
def O_APPEND : BitVec 32 := 0x400

/-- `enum vtype` -/
inductive Vtype
  | file
  | dir
  | chardev
  | blockdev
  | pipe
  | sock
deriving DecidableEq, Repr

inductive Whence
  | set
  | cur
  | fin
  /-- any other value -/
  | other
deriving DecidableEq, Repr

/-- The part of `struct vnode_ops` that the calls use, for the vnodes `ν` of a filesystem in the
state `σ`. `ε` is what the outcome depends on besides. An error is the errno. -/
structure Ops (σ ν ε : Type) where
  type : σ → ν → Vtype
  read : σ → ε → ν → ℕ → ℕ → σ × Except ℤ (List UInt8)
  write : σ → ε → ν → ℕ → List UInt8 → σ × ℤ
  /-- the size -/
  getattr : σ → ε → ν → Except ℤ ℕ
  /-- a read fills no more than the buffer -/
  read_le : ∀ s e v off len bytes, (read s e v off len).2 = .ok bytes → bytes.length ≤ len

/-- `struct file`, without its reference count -/
structure File (ν : Type) where
  vn : ν
  off : BitVec 64
  flags : BitVec 32

section calls

variable {σ ν ε : Type} (ops : Ops σ ν ε) (s : σ) (e : ε) (f : File ν)

/-- `f_read` -/
def fRead (len : ℕ) : σ × File ν × Except ℤ (List UInt8) :=
  if f.flags &&& O_ACCMODE = O_WRONLY then (s, f, .error EBADF)
  else
    let (s, r) := ops.read s e f.vn f.off.toNat len
    (s, f, r)

/-- `f_write` behind its check of the buffer -/
def fWrite (src : List UInt8) : σ × File ν × ℤ :=
  if f.flags &&& O_ACCMODE = O_RDONLY then (s, f, -EBADF)
  else
    let size := if f.flags &&& O_APPEND ≠ 0 then ops.getattr s e f.vn else .ok f.off.toNat
    match size with
    | .error _ => (s, f, - EIO)
    | .ok off =>
      let f := if f.flags &&& O_APPEND ≠ 0 then { f with off := ofNat 64 off } else f
      let (s, r) := ops.write s e f.vn f.off.toNat src
      (s, if r > 0 then { f with off := f.off + ofInt 64 r } else f, r)

/-- Where `f_lseek` puts the offset. -/
def lseekPos (cur off : BitVec 64) : Whence → Except ℤ (BitVec 64)
  | .set => .ok off
  | .cur => .ok (cur + off)
  | .fin => (ops.getattr s e f.vn).map fun size => ofNat 64 size + off
  | .other => .error EINVAL

/-- `f_lseek` -/
def fLseek (off : BitVec 64) (whence : Whence) : File ν × Except ℤ (BitVec 64) :=
  match ops.type s f.vn with
  | .dir => (f, .error EISDIR)
  | .pipe => (f, .error ESPIPE)
  | .sock => (f, .error ESPIPE)
  | _ =>
    match lseekPos ops s e f f.off off whence with
    | .error err => (f, .error err)
    | .ok pos => if pos.toInt < 0 then (f, .error EINVAL) else ({ f with off := pos }, .ok pos)

end calls

/-! ## Sequences of calls -/

/-- An open file, by number. -/
abbrev FileId := ℕ

/-- A descriptor of a process. -/
abbrev Desc := ℕ × ℕ

/-- The filesystem, the open files, and the descriptors of all processes. -/
structure Sys (σ ν : Type) where
  fs : σ
  file : FileId → File ν
  fd : Desc → Option FileId

/-- What happens, with what the outcome depends on. -/
inductive Event (σ ν ε : Type)
  | read (d : Desc) (len : ℕ) (e : ε)
  | write (d : Desc) (src : List UInt8) (e : ε)
  | lseek (d : Desc) (off : BitVec 64) (whence : Whence) (e : ε)
  /-- a new file that no descriptor refers to yet, at offset 0 -/
  | openFile (d : Desc) (f : FileId) (v : ν) (flags : BitVec 32)
  /-- `dup`, or one slot of a `fork` -/
  | dup (d d' : Desc)
  | close (d : Desc)
  /-- something else changes the filesystem -/
  | other (fs : σ)

namespace Sys

variable {σ ν ε : Type} (ops : Ops σ ν ε) (s : Sys σ ν)

def setFile (f : FileId) (x : File ν) : Sys σ ν := { s with file := update s.file f x }

/-- A call on a descriptor, if it is open. -/
def on (d : Desc) (call : FileId → Sys σ ν) : Sys σ ν :=
  match s.fd d with
  | none => s
  | some f => call f

def act : Event σ ν ε → Sys σ ν
  | .read d len e => s.on d fun f =>
    let (fs, x, _) := fRead ops s.fs e (s.file f) len
    { s with fs := fs }.setFile f x
  | .write d src e => s.on d fun f =>
    let (fs, x, _) := fWrite ops s.fs e (s.file f) src
    { s with fs := fs }.setFile f x
  | .lseek d off whence e => s.on d fun f => s.setFile f (fLseek ops s.fs e (s.file f) off whence).1
  | .openFile d f v flags =>
    { s.setFile f ⟨v, 0, flags⟩ with fd := update s.fd d (some f) }
  | .dup d d' => { s with fd := update s.fd d' (s.fd d) }
  | .close d => { s with fd := update s.fd d none }
  | .other fs => { s with fs := fs }

/-- A length is a `size_t`. -/
def Enabled : Event σ ν ε → Prop
  | .read _ len _ => len < 2 ^ 64
  | .openFile _ f _ _ => ∀ d, s.fd d ≠ some f
  | _ => True

end Sys

/-! ## What the offset is for -/

/-- The system with, as a ghost, the offset that every file is to have. -/
structure Traced (σ ν : Type) where
  sys : Sys σ ν
  ref : FileId → BitVec 64

namespace Traced

variable {σ ν ε : Type} (ops : Ops σ ν ε) (t : Traced σ ν)

/-- What a call does on a file whose offset is to be `cur`: it works there, or at the end of the
file when it appends, and leaves the offset just past the bytes that it has transferred. -/
def spec (x : File ν) (cur : BitVec 64) : Event σ ν ε → σ × BitVec 64
  | .read _ len e =>
    if x.flags &&& O_ACCMODE = O_WRONLY then (t.sys.fs, cur)
    else
      let r := ops.read t.sys.fs e x.vn cur.toNat len
      match r.2 with
      | .ok bytes => (r.1, cur + ofNat 64 bytes.length)
      | .error _ => (r.1, cur)
  | .write _ src e =>
    if x.flags &&& O_ACCMODE = O_RDONLY then (t.sys.fs, cur)
    else
      let base := if x.flags &&& O_APPEND ≠ 0 then
          (ops.getattr t.sys.fs e x.vn).map fun size => ofNat 64 size
        else .ok cur
      match base with
      | .error _ => (t.sys.fs, cur)
      | .ok base =>
        let r := ops.write t.sys.fs e x.vn base.toNat src
        (r.1, if r.2 > 0 then base + ofInt 64 r.2 else base)
  | .lseek _ off whence e =>
    (t.sys.fs, (fLseek ops t.sys.fs e { x with off := cur } off whence).1.off)
  | _ => (t.sys.fs, cur)

/-- The descriptor that a call is on. -/
def desc : Event σ ν ε → Option Desc
  | .read d _ _ => some d
  | .write d _ _ => some d
  | .lseek d _ _ _ => some d
  | _ => none

/-- The file that a call is on. -/
def target (a : Event σ ν ε) : Option FileId := (desc a).bind t.sys.fd

/-- The filesystem that an event is to leave. -/
def nextFs (a : Event σ ν ε) : σ :=
  match a with
  | .other fs => fs
  | a =>
    match t.target a with
    | none => t.sys.fs
    | some f => (t.spec ops (t.sys.file f) (t.ref f) a).1

/-- The offsets that an event is to leave. -/
def nextRef (a : Event σ ν ε) : FileId → BitVec 64 :=
  match a with
  | .openFile _ f _ _ => update t.ref f 0
  | a =>
    match t.target a with
    | none => t.ref
    | some f => update t.ref f (t.spec ops (t.sys.file f) (t.ref f) a).2

def Step (t : Traced σ ν) (a : Event σ ν ε) (u : Traced σ ν) : Prop :=
  t.sys.Enabled a ∧ u = ⟨t.sys.act ops a, t.nextRef ops a⟩

/-- Every file is at the offset that it is to have. -/
def Agree (t : Traced σ ν) : Prop := ∀ f, (t.sys.file f).off = t.ref f

/-- A call has worked at the offset that its file was to have, and has left every file at the
offset that it is to have. -/
structure Sequential (t : Traced σ ν) (a : Event σ ν ε) (u : Traced σ ν) : Prop where
  fs : u.sys.fs = t.nextFs ops a
  bytes : ∀ d len e f, a = .read d len e → t.sys.fd d = some f →
    (t.sys.file f).flags &&& O_ACCMODE ≠ O_WRONLY →
    (fRead ops t.sys.fs e (t.sys.file f) len).2.2
      = (ops.read t.sys.fs e (t.sys.file f).vn (t.ref f).toNat len).2
  agree : u.Agree

/-- A read finds no byte: the file is not open for reading, or its filesystem has none to give at
the offset. -/
def Still (t : Traced σ ν) : Event σ ν ε → Prop
  | .read d len e => ∀ f ∈ t.sys.fd d, (t.sys.file f).flags &&& O_ACCMODE ≠ O_WRONLY →
    ∀ bytes, (ops.read t.sys.fs e (t.sys.file f).vn (t.sys.file f).off.toNat len).2 = .ok bytes →
      bytes = []
  | _ => True

end Traced
end MobilePhoneOs.OpenFile
