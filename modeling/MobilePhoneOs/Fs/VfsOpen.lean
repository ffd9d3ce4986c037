import MobilePhoneOs.Fs.Paths

/-!
# `vfs_open` (`fs/vfs.c`)

Resolution, creation and the checks behind them, over filesystems that are given by their
operations. What memory and devices answer is part of the state of a filesystem.
-/

namespace MobilePhoneOs.Vfs.Open

open Mounts

def ENOENT : ℤ := 2
def EIO : ℤ := 5
def ENOMEM : ℤ := 12
def EEXIST : ℤ := 17
def ENOTDIR : ℤ := 20
def EISDIR : ℤ := 21
def EINVAL : ℤ := 22

def O_RDONLY : BitVec 32 := 0
def O_ACCMODE : BitVec 32 := 3
def O_CREAT : BitVec 32 := 0x40
def O_EXCL : BitVec 32 := 0x80
def O_TRUNC : BitVec 32 := 0x200

/-- The operations of the mounted filesystems, in the state `σ`, on vnodes `ν`. -/
structure Ops (σ ν N D : Type) where
  /-- the type is `V_DIR` -/
  dir : σ → ν → Bool
  /-- a vnode with one more reference; `none` where `*out` stays NULL -/
  lookup : σ → ν → Str → σ × Except ℤ (Option ν)
  /-- of a file; the vnode with a reference -/
  create : σ → ν → Str → σ × Except ℤ ν
  /-- whether the attributes are those of a directory -/
  getattr : σ → ν → Except ℤ Bool
  /-- `write(vn, 0, NULL, 0)`, where there is a `write` -/
  truncate : σ → ν → σ
  destroy : σ → ν → σ
  /-- the namespace: the directories and their entries -/
  names : σ → N
  /-- what the files hold -/
  data : σ → D
  lookup_names : ∀ s d c, names (lookup s d c).1 = names s
  lookup_data : ∀ s d c, data (lookup s d c).1 = data s
  destroy_names : ∀ s v, names (destroy s v) = names s
  destroy_data : ∀ s v, data (destroy s v) = data s
  truncate_names : ∀ s v, names (truncate s v) = names s

/-- The filesystems, and `refs` of every vnode. -/
structure Sys (σ ν : Type) where
  fs : σ
  refs : ν → ℕ

/-- Where a walk starts, and the roots it crosses into. -/
structure Namespace (ν : Type) where
  root : Option ν
  mounted : Str → Option ν

/-- The number of an error -/
def num : Errno → ℤ
  | .EINVAL => 22
  | .ENODEV => 19
  | .EBUSY => 16
  | .ENOENT => 2
  | .ENOMEM => 12
  | .ENOTDIR => 20
  | .ENAMETOOLONG => 36
  | .fs r => r

/-- `split_parent` leaves none of its buffers, so the error is its own. -/
def splitNum : Stop Errno → ℤ
  | .err e => num e
  | _ => 0

section calls

variable {σ ν N D : Type} [DecidableEq ν] (ops : Ops σ ν N D) (ns : Namespace ν)

namespace Sys

/-- `vn_ref` -/
def ref (s : Sys σ ν) (v : ν) : Sys σ ν :=
  { s with refs := Function.update s.refs v (s.refs v + 1) }

/-- `vn_unref` -/
def unref (s : Sys σ ν) (v : ν) : Sys σ ν :=
  let left := s.refs v - 1
  let s := { s with refs := Function.update s.refs v left }
  if left = 0 then { s with fs := ops.destroy s.fs v } else s

end Sys

/-- `vfs_lookup_at` -/
def vfsLookupAt (s : Sys σ ν) (dir : ν) (name : Str) : Sys σ ν × Except ℤ ν :=
  if ops.dir s.fs dir = false then (s, .error ENOTDIR)
  else
    match ops.lookup s.fs dir name with
    | (fs, .error e) => ({ s with fs := fs }, .error e)
    | (fs, .ok none) => ({ s with fs := fs }, .error ENOENT)
    | (fs, .ok (some v)) => (({ s with fs := fs } : Sys σ ν).ref v, .ok v)

/-- `vfs_create_at` of a file -/
def vfsCreateAt (s : Sys σ ν) (dir : ν) (name : Str) : Sys σ ν × Except ℤ ν :=
  if ops.dir s.fs dir = false then (s, .error ENOTDIR)
  else
    match ops.create s.fs dir name with
    | (fs, .error e) => ({ s with fs := fs }, .error e)
    | (fs, .ok v) => (({ s with fs := fs } : Sys σ ν).ref v, .ok v)

/-- The loop of `vfs_resolve` -/
def walk (s : Sys σ ν) (cur : ν) (cur_path : Str) : List Str → Sys σ ν × Except ℤ ν
  | [] => (s, .ok cur)
  | comp :: comps =>
    if ops.dir s.fs cur = false then (s.unref ops cur, .error ENOTDIR)
    else
      let trial := pathJoin VFS_PATH_MAX cur_path comp
      match ns.mounted trial with
      | some next => walk ((s.ref next).unref ops cur) next trial comps
      | none =>
        match vfsLookupAt ops s cur comp with
        | (s, .error e) => (s.unref ops cur, .error e)
        | (s, .ok next) => walk (s.unref ops cur) next trial comps

/-- `vfs_resolve` with the components of its path -/
def resolveComps (s : Sys σ ν) (comps : List Str) : Sys σ ν × Except ℤ ν :=
  match ns.root with
  | none => (s, .error ENOENT)
  | some cur => walk ops ns (s.ref cur) cur [] comps

/-- `vfs_resolve` -/
def vfsResolve (s : Sys σ ν) (path : Str) : Sys σ ν × Except ℤ ν :=
  if path.head? ≠ some SLASH then (s, .error EINVAL)
  else
    match normalizePath path with
    | .error e => (s, .error (num e))
    | .ok comps => resolveComps ops ns s comps

/-- `bad_leaf_name` -/
def badLeafName (base : Str) : Bool := base = [] || base = [DOT] || base = [DOT, DOT]

/-- `vfs_open` behind the creation, with the reference to `vn`; `mem` tells whether `file_alloc`
gets its memory. The file has the vnode of the answer. -/
def openVnode (s : Sys σ ν) (vn : ν) (flags : BitVec 32) (mem : Bool) : Sys σ ν × Except ℤ ν :=
  let amode := flags &&& O_ACCMODE
  if flags &&& O_CREAT ≠ 0 ∧ flags &&& O_EXCL ≠ 0 then (s.unref ops vn, .error EEXIST)
  else
    match ops.getattr s.fs vn with
    | .error _ => (s.unref ops vn, .error EIO)
    | .ok isDir =>
      if isDir = true ∧ amode ≠ O_RDONLY then (s.unref ops vn, .error EISDIR)
      else
        let s := if flags &&& O_TRUNC ≠ 0 ∧ isDir = false then
            { s with fs := ops.truncate s.fs vn }
          else s
        if mem = false then (s.unref ops vn, .error ENOMEM) else (s, .ok vn)

/-- The branch of `vfs_open` that creates. -/
def openCreate (s : Sys σ ν) (path : Str) (flags : BitVec 32) (mem : Bool) :
    Sys σ ν × Except ℤ ν :=
  match Paths.splitParent path with
  | .error e => (s, .error (splitNum e))
  | .ok (parent, base) =>
    if badLeafName base then (s, .error EEXIST)
    else
      match vfsResolve ops ns s parent with
      | (s, .error e) => (s, .error e)
      | (s, .ok pdir) =>
        match vfsCreateAt ops s pdir base with
        | (s, .error e) => (s.unref ops pdir, .error e)
        | (s, .ok vn) => openVnode ops (s.unref ops pdir) vn flags mem

/-- `vfs_open` -/
def vfsOpen (s : Sys σ ν) (path : Str) (flags : BitVec 32) (mem : Bool) : Sys σ ν × Except ℤ ν :=
  if flags &&& O_ACCMODE = 3 then (s, .error EINVAL)
  else
    match vfsResolve ops ns s path with
    | (s, .ok vn) => openVnode ops s vn flags mem
    | (s, .error e) =>
      if e = ENOENT ∧ flags &&& O_CREAT ≠ 0 then openCreate ops ns s path flags mem
      else (s, .error e)

/-! ## What it is for -/

/-- Resolution finds nothing under the path. -/
def Missing (s : Sys σ ν) (path : Str) : Prop := (vfsResolve ops ns s path).2 = .error ENOENT

/-- The components in front of the last one lead somewhere. -/
def HasParent (s : Sys σ ν) (path : Str) : Prop :=
  ∃ comps v, normalizePath path = .ok comps ∧ comps ≠ [] ∧
    (resolveComps ops ns s comps.dropLast).2 = .ok v

/-- The attributes of the vnode can be had and allow the mode, and there is memory for the file. -/
def Opens (s : Sys σ ν) (vn : ν) (flags : BitVec 32) (mem : Bool) : Prop :=
  ∃ isDir, ops.getattr s.fs vn = .ok isDir ∧ ¬ (isDir = true ∧ flags &&& O_ACCMODE ≠ O_RDONLY) ∧
    mem = true

/-- What `vfs_open` is to do: `s` becomes `r.1`, and the answer is `r.2`. -/
structure Lawful (s : Sys σ ν) (path : Str) (flags : BitVec 32) (mem : Bool)
    (r : Sys σ ν × Except ℤ ν) : Prop where
  exclusive : flags &&& O_CREAT ≠ 0 → flags &&& O_EXCL ≠ 0 →
    ((∃ v, r.2 = .ok v) ↔ Missing ops ns s path ∧ HasParent ops ns s path)
  unchanged : ∀ e, r.2 = .error e → ops.names r.1.fs = ops.names s.fs
  refs : ∀ e, r.2 = .error e → r.1.refs = s.refs
  existing : ∀ v w, (vfsResolve ops ns s path).2 = .ok v → r.2 = .ok w → w = v ∧
    r.1.refs = (s.ref v).refs ∧ ops.names r.1.fs = ops.names s.fs ∧
    (flags &&& O_TRUNC = 0 → ops.data r.1.fs = ops.data s.fs)
  opened : ∀ v, (vfsResolve ops ns s path).2 = .ok v → flags &&& O_ACCMODE ≠ 3 →
    ¬ (flags &&& O_CREAT ≠ 0 ∧ flags &&& O_EXCL ≠ 0) →
    Opens ops (vfsResolve ops ns s path).1 v flags mem → r.2 = .ok v

/-- The call gets to create `base` in `pdir`, in the state `s₂`. -/
structure Creates (s : Sys σ ν) (path : Str) (flags : BitVec 32) (s₂ : Sys σ ν) (pdir : ν)
    (base : Str) : Prop where
  mode : flags &&& O_ACCMODE ≠ 3
  creat : flags &&& O_CREAT ≠ 0
  missing : Missing ops ns s path
  leaf : badLeafName base = false
  parent : ∃ parent, Paths.splitParent path = .ok (parent, base) ∧
    vfsResolve ops ns (vfsResolve ops ns s path).1 parent = (s₂, .ok pdir)

/-- An exclusive call does not find its place free, and a creation that changes the namespace is
not exclusive, succeeds, and can be opened. -/
def Fine (s : Sys σ ν) (path : Str) (flags : BitVec 32) (mem : Bool) : Prop :=
  (flags &&& O_CREAT ≠ 0 → flags &&& O_EXCL ≠ 0 →
    ¬ (Missing ops ns s path ∧ HasParent ops ns s path)) ∧
  ∀ s₂ pdir base, Creates ops ns s path flags s₂ pdir base →
    ops.names (vfsCreateAt ops s₂ pdir base).1.fs ≠ ops.names s₂.fs →
    flags &&& O_EXCL = 0 ∧ ∃ vn, (vfsCreateAt ops s₂ pdir base).2 = .ok vn ∧
      Opens ops ((vfsCreateAt ops s₂ pdir base).1.unref ops pdir) vn flags mem

end calls
end MobilePhoneOs.Vfs.Open
