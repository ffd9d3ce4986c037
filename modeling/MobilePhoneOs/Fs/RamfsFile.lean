import MobilePhoneOs.Fs.OpenFile
import MobilePhoneOs.Fs.Ramfs

/-!
# Files of ramfs behind the calls of the VFS

The data paths of `fs/ramfs.c` as the operations of open files, with the part of `vfs_open` that
empties a file for `O_TRUNC`. `Bytes` is what a file is for: a size and a byte below it for every
offset, made by the writes since the last `O_TRUNC`.
-/

namespace MobilePhoneOs.RamfsFile

open Ramfs OpenFile

def ENOMEM : ℤ := 12
def ENOSPC : ℤ := 28

/-- The value of a call -/
def IoOutcome.ret : IoOutcome → ℤ
  | .isdir => -OpenFile.EISDIR
  | .nospc => -ENOSPC
  | .nomem => -ENOMEM
  | .done n => n

/-- `ramfs_ops`; a write is told whether memory can be had. -/
def ramfsOps : Ops Fs ShellId Bool where
  type s v := match (s.shell v).type with
    | .file => .file
    | .dir => .dir
  read s _ v off len := (s, match ramfsRead s v off len with
    | .ok bytes => .ok bytes
    | .error out => .error (-(IoOutcome.ret out)))
  write s mem v off src :=
    let r := ramfsWrite s v off src mem
    (r.1, IoOutcome.ret r.2)
  getattr s _ v := .ok (ramfsGetattr s v)
  read_le s _ v off len bytes h := by
    have hle : add64 off len ≤ off + len := Nat.mod_le _ _
    simp only [ramfsRead] at h
    split_ifs at h with hfile hend hbig
    · obtain rfl := Except.ok.inj h
      exact Nat.zero_le _
    · obtain rfl := Except.ok.inj h
      rw [Mem.slice_length]
      omega
    · obtain rfl := Except.ok.inj h
      rw [Mem.slice_length]

/-- What a file is to hold: unwritten bytes read as zero, and there are none behind the size. -/
structure Bytes where
  size : ℕ
  byte : ℕ → UInt8
  zero : ∀ i, size ≤ i → byte i = 0

namespace Bytes

def empty : Bytes := ⟨0, fun _ => 0, fun _ _ => rfl⟩

/-- The file after `src` has been written at `off`. -/
def put (b : Bytes) (off : ℕ) (src : List UInt8) : Bytes where
  size := if src = [] then b.size else max b.size (off + src.length)
  byte := Mem.store b.byte off src
  zero i hi := by
    split_ifs at hi with hnil
    · rw [hnil, Mem.store_nil]
      exact b.zero i hi
    · rw [Mem.store_of_ge (by omega)]
      exact b.zero i (by omega)

/-- The overlap of the file with `len` bytes from `off` on. -/
def overlap (b : Bytes) (off len : ℕ) : List UInt8 := Mem.slice b.byte off (min len (b.size - off))

end Bytes

/-- The filesystem and its open files with, as a ghost, what every node is to hold. -/
structure State where
  sys : Sys Fs ShellId
  ref : NodeId → Bytes

namespace State

variable (t : State)

/-- `vfs_open` from `O_TRUNC` on, once it has found the vnode. -/
def truncated (s : Sys Fs ShellId) (v : ShellId) (flags : BitVec 32) : Sys Fs ShellId :=
  if flags &&& O_TRUNC ≠ 0 ∧ (s.fs.shell v).type ≠ .dir then
    { s with fs := (ramfsWrite s.fs v 0 [] true).1 }
  else s

def act (s : Sys Fs ShellId) (a : Event Fs ShellId Bool) : Sys Fs ShellId :=
  match a with
  | .openFile d f v flags => (truncated s v flags).act ramfsOps (.openFile d f v flags)
  | a => s.act ramfsOps a

/-- The node under an open file. -/
def nodeOf (f : FileId) : NodeId := (t.sys.fs.shell (t.sys.file f).vn).priv

/-- Where a write on an open file goes. -/
def writeOff (f : FileId) : ℕ :=
  if (t.sys.file f).flags &&& O_APPEND ≠ 0 then ramfsGetattr t.sys.fs (t.sys.file f).vn
  else (t.sys.file f).off.toNat

def nextRef (a : Event Fs ShellId Bool) : NodeId → Bytes :=
  match a with
  | .write d src mem =>
    match t.sys.fd d with
    | none => t.ref
    | some f =>
      -- a call that fails writes nothing
      if (fWrite ramfsOps t.sys.fs mem (t.sys.file f) src).2.2 < 0 then t.ref
      else Function.update t.ref (t.nodeOf f) ((t.ref (t.nodeOf f)).put (t.writeOff f) src)
  | .openFile _ _ v flags =>
    if flags &&& O_TRUNC ≠ 0 ∧ (t.sys.fs.shell v).type ≠ .dir then
      Function.update t.ref (t.sys.fs.shell v).priv .empty
    else t.ref
  | _ => t.ref

/-- The calls on files: a buffer is an object of less than half the address space. -/
def Enabled : Event Fs ShellId Bool → Prop
  | .read _ len _ => len < 2 ^ 63
  | .write _ src _ => src.length < 2 ^ 63
  | .openFile _ f _ _ => ∀ d, t.sys.fd d ≠ some f
  | .other _ => False
  | _ => True

def Step (t : State) (a : Event Fs ShellId Bool) (u : State) : Prop :=
  t.Enabled a ∧ u = ⟨act t.sys a, t.nextRef a⟩

/-- Every file holds what it is to hold, and a read of any open file returns exactly the overlap
with it. -/
structure Holds : Prop where
  size : ∀ n, (t.sys.fs.node n).len = (t.ref n).size
  byte : ∀ n i, i < (t.ref n).size → (t.sys.fs.node n).data i = (t.ref n).byte i
  read : ∀ f len mem, len < 2 ^ 63 → (t.sys.file f).flags &&& O_ACCMODE ≠ O_WRONLY →
    (t.sys.fs.shell (t.sys.file f).vn).type = .file →
    (fRead ramfsOps t.sys.fs mem (t.sys.file f) len).2.2
      = .ok ((t.ref (t.nodeOf f)).overlap (t.sys.file f).off.toNat len)

/-- No byte has been written, and every file is at its start. -/
structure Start : Prop where
  empty : ∀ n, (t.sys.fs.node n).len = 0
  ref : ∀ n, t.ref n = .empty
  off : ∀ f, (t.sys.file f).off = 0

/-- A write of no bytes, on a file that can be written, is at the start of an empty file, or inside
the file or at its end, or behind the largest size, or where it finds no memory. -/
def Calm : Event Fs ShellId Bool → Prop
  | .write d src mem => src = [] → ∀ f ∈ t.sys.fd d,
    (t.sys.file f).flags &&& O_ACCMODE ≠ O_RDONLY →
    (t.sys.fs.shell (t.sys.file f).vn).type = .file →
      (t.writeOff f = 0 ∧ (t.sys.fs.node (t.nodeOf f)).len = 0) ∨
        (t.writeOff f ≠ 0 ∧ t.writeOff f ≤ (t.sys.fs.node (t.nodeOf f)).len) ∨
        RAMFS_MAX_FILE < t.writeOff f ∨
        ((t.sys.fs.node (t.nodeOf f)).cap < t.writeOff f ∧ mem = false)
  | _ => True

end State
/-- A mounted ramfs with the empty file `a`. -/
def oneFile : Fs := (ramfsCreate ramfsMount 0 [97] .file true true).1

end MobilePhoneOs.RamfsFile
