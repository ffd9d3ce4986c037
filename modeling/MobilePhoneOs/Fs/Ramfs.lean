import MobilePhoneOs.Lib.Mem
import MobilePhoneOs.Lib.Run
import Mathlib.Logic.Relation

/-!
# The in-memory filesystem (`fs/ramfs.c`)

Nodes and vnode shells by number, in the order they are allocated. A directory's `sibling`
chain is the list of its children, first child first. Every call of the filesystem runs
under `fs->lock` and is one step; whether the memory it asks for is there is a parameter.
-/

namespace MobilePhoneOs.Ramfs

open Mem
open Function (update update_of_ne update_self)

def VFS_NAME_MAX : ℕ := 64
def RAMFS_MAX_FILE : ℕ := 256 * 1024
def GROW_MIN : ℕ := 128
def GROW_MAX : ℕ := 64 * 1024

inductive Vtype
  | file
  | dir
deriving DecidableEq, Repr

abbrev NodeId := ℕ
abbrev ShellId := ℕ

/-- `struct ram_node`. The ghost `frees` counts the calls of `kfree` on it. -/
structure RamNode where
  name : List UInt8
  type : Vtype
  children : List NodeId
  parent : Option NodeId
  data : ℕ → UInt8
  len : ℕ
  cap : ℕ
  ino : ℕ
  orphan : Bool
  vnLive : ℕ
  frees : ℕ

/-- A node after `kzalloc`. -/
def RamNode.zero : RamNode where
  name := []
  type := .file
  children := []
  parent := none
  data := fun _ => 0
  len := 0
  cap := 0
  ino := 0
  orphan := false
  vnLive := 0
  frees := 0

/-- A `struct vnode` over the node `priv`, freed once `refs` is 0. -/
structure Shell where
  type : Vtype
  priv : NodeId
  ino : ℕ
  refs : ℕ

/-- The nodes and the shells, how many of each have been allocated, and `next_ino`. -/
structure Fs where
  node : NodeId → RamNode
  nnode : ℕ
  shell : ShellId → Shell
  nshell : ℕ
  nextIno : ℕ

/-- The node inside `struct ram_fs` -/
def root : NodeId := 0

namespace Fs

def setNode (s : Fs) (n : NodeId) (x : RamNode) : Fs :=
  { s with node := update s.node n x }

def setShell (s : Fs) (v : ShellId) (x : Shell) : Fs :=
  { s with shell := update s.shell v x }

@[simp] lemma setNode_self (s : Fs) (n : NodeId) (x : RamNode) : (s.setNode n x).node n = x :=
  update_self ..

lemma setNode_of_ne (s : Fs) {n m : NodeId} (x : RamNode) (h : m ≠ n) :
    (s.setNode n x).node m = s.node m :=
  update_of_ne h ..

@[simp] lemma setShell_self (s : Fs) (v : ShellId) (x : Shell) : (s.setShell v x).shell v = x :=
  update_self ..

lemma setShell_of_ne (s : Fs) {v w : ShellId} (x : Shell) (h : w ≠ v) :
    (s.setShell v x).shell w = s.shell w :=
  update_of_ne h ..

@[simp] lemma setNode_shell (s : Fs) (n : NodeId) (x : RamNode) :
    (s.setNode n x).shell = s.shell := rfl

end Fs

/-! ## Shells -/

/-- `shell_make` -/
def shellMake (s : Fs) (n : NodeId) (mem : Bool) : Fs × Option ShellId :=
  if mem = false then (s, none)
  else
    let v := s.nshell
    let x := s.node n
    let s := { s with
      shell := update s.shell v ⟨x.type, n, x.ino, 1⟩
      nshell := v + 1 }
    (s.setNode n { x with vnLive := x.vnLive + 1 }, some v)

/-- `kfree` of a node and its data -/
def freeNode (s : Fs) (n : NodeId) : Fs := s.setNode n { s.node n with frees := (s.node n).frees + 1 }

/-- `ramfs_destroy` of a shell over the node `n` -/
def ramfsDestroy (s : Fs) (n : NodeId) : Fs :=
  let x := s.node n
  let s := s.setNode n { x with vnLive := x.vnLive - 1 }
  if x.vnLive - 1 = 0 ∧ x.orphan = true then freeNode s n else s

/-- `vn_unref` -/
def vnUnref (s : Fs) (v : ShellId) : Fs :=
  let x := s.shell v
  let s := s.setShell v { x with refs := x.refs - 1 }
  if x.refs - 1 = 0 then ramfsDestroy s x.priv else s

/-! ## Directories -/

/-- `find_child` -/
def findChild (s : Fs) (d : NodeId) (name : List UInt8) : Option NodeId :=
  (s.node d).children.find? fun c => (s.node c).name = name

inductive LookupOutcome
  /-- `-ENOTDIR` -/
  | notdir
  /-- `-ENOENT`; also when the shell could not be made, as `vfs_lookup_at` says then -/
  | noent
  | found (v : ShellId)
deriving DecidableEq, Repr

/-- `ramfs_lookup` behind `vfs_lookup_at` -/
def ramfsLookup (s : Fs) (dir : ShellId) (name : List UInt8) (mem : Bool) : Fs × LookupOutcome :=
  if (s.shell dir).type ≠ .dir then (s, .notdir)
  else if name = [] then (s, .noent)
  else
    match findChild s (s.shell dir).priv name with
    | none => (s, .noent)
    | some c =>
      match shellMake s c mem with
      | (s, none) => (s, .noent)
      | (s, some v) => (s, .found v)

inductive CreateOutcome
  | notdir
  /-- `-ENAMETOOLONG` -/
  | nametoolong
  /-- `-ENOMEM` -/
  | nomem
  /-- `-EEXIST` -/
  | exist
  | created (v : ShellId)
deriving DecidableEq, Repr

/-- `kzalloc` of a node; it is `s.nnode`. -/
def allocNode (s : Fs) : Fs := { s with nnode := s.nnode + 1 }.setNode s.nnode .zero

/-- The part of `ramfs_create` that fills the new node `n` and pushes it in front of the children
of `d` -/
def linkNode (s : Fs) (d n : NodeId) (name : List UInt8) (t : Vtype) : Fs :=
  let ino := s.nextIno + 1
  let s := { s with nextIno := ino }.setNode n
    { s.node n with name := name, type := t, parent := some d, ino := ino }
  s.setNode d { s.node d with children := n :: (s.node d).children }

/-- `ramfs_create` behind `vfs_create_at`. The node is linked before its shell is made, and
stays linked if that fails. -/
def ramfsCreate (s : Fs) (dir : ShellId) (name : List UInt8) (t : Vtype)
    (nodeMem shellMem : Bool) : Fs × CreateOutcome :=
  if (s.shell dir).type ≠ .dir then (s, .notdir)
  else if name.length ≥ VFS_NAME_MAX then (s, .nametoolong)
  else if nodeMem = false then (s, .nomem)
  else
    let d := (s.shell dir).priv
    let n := s.nnode
    let s := allocNode s
    match findChild s d name with
    | some _ => (freeNode s n, .exist)
    | none =>
      match shellMake (linkNode s d n name t) n shellMem with
      | (s, none) => (s, .nomem)
      | (s, some v) => (s, .created v)

/-- `drop_node` -/
def dropNode (s : Fs) (n : NodeId) : Fs :=
  if (s.node n).orphan = true ∧ (s.node n).vnLive = 0 then freeNode s n else s

inductive UnlinkOutcome
  | notdir
  | noent
  /-- `-ENOTEMPTY` -/
  | notempty
  | ok
deriving DecidableEq, Repr

/-- The part of `ramfs_unlink` that takes the child `c`, the first of that name, off the list of
`d` -/
def detach (s : Fs) (d c : NodeId) (name : List UInt8) : Fs :=
  let s := s.setNode d
    { s.node d with children := (s.node d).children.eraseP fun c => (s.node c).name = name }
  s.setNode c { s.node c with parent := none, orphan := true }

/-- `ramfs_unlink` behind `vfs_unlink_at` -/
def ramfsUnlink (s : Fs) (dir : ShellId) (name : List UInt8) : Fs × UnlinkOutcome :=
  if (s.shell dir).type ≠ .dir then (s, .notdir)
  else
    let d := (s.shell dir).priv
    match findChild s d name with
    | none => (s, .noent)
    | some c =>
      if (s.node c).type = .dir ∧ (s.node c).children ≠ [] then (s, .notempty)
      else (dropNode (detach s d c name) c, .ok)

/-- `ramfs_readdir` -/
def ramfsReaddir (s : Fs) (dir : ShellId) (idx : ℕ) : Option (List UInt8 × Vtype) :=
  (s.node (s.shell dir).priv).children[idx]?.map fun c => ((s.node c).name, (s.node c).type)

/-! ## File data -/

inductive IoOutcome
  /-- `-EISDIR` -/
  | isdir
  /-- `-ENOSPC` -/
  | nospc
  /-- `-ENOMEM` -/
  | nomem
  | done (n : ℕ)
deriving DecidableEq, Repr

/-- `off + len` in 64 bits -/
def add64 (off len : ℕ) : ℕ := (off + len) % 2 ^ 64

/-- `ramfs_read` -/
def ramfsRead (s : Fs) (v : ShellId) (off len : ℕ) : Except IoOutcome (List UInt8) :=
  if (s.shell v).type ≠ .file then .error .isdir
  else
    let x := s.node (s.shell v).priv
    if off ≥ x.len then .ok []
    else
      let len := if add64 off len > x.len then x.len - off else len
      .ok (slice x.data off len)

/-- The doubling loop of `ramfs_write`; `fuel` bounds its rounds. -/
def growCap : ℕ → ℕ → ℕ → ℕ
  | 0, cap, _ => cap
  | fuel + 1, cap, want => if cap < want ∧ cap < GROW_MAX then growCap fuel (cap * 2) want else cap

/-- The buffer that `ramfs_write` moves the data to, with `cap` bytes. -/
def grow (x : RamNode) (want : ℕ) : RamNode :=
  let cap := growCap 17 (if x.cap ≠ 0 then x.cap else GROW_MIN) want
  let cap := if cap < want then want else cap
  { x with data := fun i => if i < x.len then x.data i else 0, cap := cap }

/-- `ramfs_write`; `mem` tells whether a bigger buffer can be had. -/
def ramfsWrite (s : Fs) (v : ShellId) (off : ℕ) (src : List UInt8) (mem : Bool) :
    Fs × IoOutcome :=
  let n := (s.shell v).priv
  let x := s.node n
  let stop := add64 off src.length
  if (s.shell v).type ≠ .file then (s, .isdir)
  else if src.length = 0 ∧ off = 0 then (s.setNode n { x with len := 0 }, .done 0)
  else if stop > RAMFS_MAX_FILE then (s, .nospc)
  else if stop > x.cap ∧ mem = false then (s, .nomem)
  else
    let x := if stop > x.cap then grow x stop else x
    let zeroed := if off > x.len then fun i => if x.len ≤ i ∧ i < off then 0 else x.data i else x.data
    let x := { x with data := store zeroed off src, len := if stop > x.len then stop else x.len }
    (s.setNode n x, .done src.length)

/-- `ramfs_getattr`: the size -/
def ramfsGetattr (s : Fs) (v : ShellId) : ℕ :=
  let x := s.node (s.shell v).priv
  if x.type = .file then x.len else 0

/-- `ramfs_mount` with enough memory. The mount keeps the first shell for ever. -/
def ramfsMount : Fs where
  node := update (fun _ => .zero) root { RamNode.zero with type := .dir, vnLive := 1 }
  nnode := 1
  shell := update (fun _ => ⟨.file, root, 0, 0⟩) 0 ⟨.dir, root, 0, 1⟩
  nshell := 1
  nextIno := 1

/-! ## Sequences of calls -/

inductive Event
  | lookup (dir : ShellId) (name : List UInt8) (mem : Bool)
  /-- also `mkdir` -/
  | create (dir : ShellId) (name : List UInt8) (t : Vtype) (nodeMem shellMem : Bool)
  | unlink (dir : ShellId) (name : List UInt8)
  | read (v : ShellId) (off len : ℕ)
  | write (v : ShellId) (off : ℕ) (src : List UInt8) (mem : Bool)
  /-- one more reference to a shell -/
  | ref (v : ShellId)
  | unref (v : ShellId)

namespace Fs

def act (s : Fs) : Event → Fs
  | .lookup dir name mem => (ramfsLookup s dir name mem).1
  | .create dir name t nodeMem shellMem => (ramfsCreate s dir name t nodeMem shellMem).1
  | .unlink dir name => (ramfsUnlink s dir name).1
  | .read _ _ _ => s
  | .write v off src mem => (ramfsWrite s v off src mem).1
  | .ref v => s.setShell v { s.shell v with refs := (s.shell v).refs + 1 }
  | .unref v => vnUnref s v

/-- The shell exists and has not been freed. -/
def Live (s : Fs) (v : ShellId) : Prop := v < s.nshell ∧ (s.shell v).refs ≠ 0

instance (s : Fs) (v : ShellId) : Decidable (s.Live v) := inferInstanceAs (Decidable (_ ∧ _))

/-- Calls go through live shells; the mount never gives its reference to the root back. -/
def Enabled (s : Fs) : Event → Prop
  | .lookup v _ _ | .create v _ _ _ _ | .unlink v _ | .read v _ _ | .write v _ _ _ | .ref v => s.Live v
  | .unref v => s.Live v ∧ (v = 0 → (s.shell v).refs ≠ 1)

instance (s : Fs) : ∀ e, Decidable (s.Enabled e)
  | .lookup _ _ _ | .create _ _ _ _ _ | .unlink _ _ | .read _ _ _ | .write _ _ _ _ | .ref _ =>
    inferInstanceAs (Decidable (Live _ _))
  | .unref _ => inferInstanceAs (Decidable (_ ∧ _))

/-- Reachable from the root over the children of directories. -/
def Attached (s : Fs) (n : NodeId) : Prop :=
  Relation.ReflTransGen (fun d c => c ∈ (s.node d).children) root n

/-- Some live shell is over the node. -/
def Referenced (s : Fs) (n : NodeId) : Prop := ∃ v, s.Live v ∧ (s.shell v).priv = n

end Fs

def Step (s : Fs) (e : Event) (s' : Fs) : Prop := s.Enabled e ∧ s' = s.act e

end MobilePhoneOs.Ramfs
