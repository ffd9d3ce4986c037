import MobilePhoneOs.Fs.Mount
import MobilePhoneOs.Lib.Checked

/-!
# Path resolution (`path_join`, `normalize_path`, `vfs_resolve` and `split_parent` in `fs/vfs.c`)

One call in one namespace: a mount table and what the filesystems answer to a lookup. Every write
into a buffer of the call is checked against its size. The walk that a path stands for goes along
its lexical normal form, component by component, whatever their lengths.
-/

namespace MobilePhoneOs.Vfs.Paths

open Mounts

/-! ## The calls -/

/-- What `path_join` writes to `tmp`, and to a `dst` of the same size. -/
def joinAccesses (base comp : Str) : List Access :=
  let cl := if VFS_PATH_MAX < base.length + 1 + comp.length + 1 then 0 else comp.length
  [⟨VFS_PATH_MAX, 0, base.length⟩, ⟨VFS_PATH_MAX, base.length, 1⟩,
    ⟨VFS_PATH_MAX, base.length + 1, cl⟩, ⟨VFS_PATH_MAX, base.length + 1 + cl, 1⟩,
    ⟨VFS_PATH_MAX, 0, base.length + 1 + cl + 1⟩]

/-- `path_join` with its writes -/
def join (base comp : Str) : Except (Stop Errno) Str := do
  access (joinAccesses base comp)
  return pathJoin VFS_PATH_MAX base comp

/-- The loop of `normalize_path` with its writes -/
def normalizeLoop (comps : List Str) : List Str → Except (Stop Errno) (List Str)
  | [] => .ok comps
  | s :: rest =>
    if s = [DOT] then normalizeLoop comps rest
    else if s = [DOT, DOT] then normalizeLoop comps.dropLast rest
    else if VFS_COMPS_MAX ≤ comps.length then .error (.err .ENAMETOOLONG)
    else do
      let copy := s.take (VFS_NAME_MAX - 1)
      access [⟨VFS_COMPS_MAX, comps.length, 1⟩, ⟨VFS_NAME_MAX, 0, copy.length⟩,
        ⟨VFS_NAME_MAX, copy.length, 1⟩]
      normalizeLoop (comps ++ [copy]) rest

section resolve

variable (t : Table) (lookup : Vnode → Str → Except Errno Vnode)

/-- The loop of `vfs_resolve` -/
def walk : Vnode → Str → List Str → Except (Stop Errno) Vnode
  | cur, _, [] => .ok cur
  | cur, cur_path, comp :: comps =>
    if !cur.dir then .error (.err .ENOTDIR)
    else do
      let trial ← join cur_path comp
      match t.findMountpoint trial with
      | some slot =>
        match (t.mounts slot).root with
        -- a NULL root is followed
        | none => .error .oob
        | some next => walk next trial comps
      | none =>
        match lookup cur comp with
        | .error e => .error (.err e)
        | .ok next => do
          let cur_path ← join cur_path comp
          walk next cur_path comps

/-- `vfs_resolve` -/
def resolve (path : Str) : Except (Stop Errno) Vnode :=
  if path.head? ≠ some SLASH then .error (.err .EINVAL)
  else do
    let comps ← normalizeLoop [] ((path.splitOn SLASH).filter (· ≠ []))
    if t.have_root then
      match (t.mounts 0).root with
      | none => .error .oob
      | some cur => walk t lookup cur [] comps
    else .error (.err .ENOENT)

end resolve

/-- `last_slash`, behind `i` bytes -/
def lastSlash (found : Option ℕ) (i : ℕ) : Str → Option ℕ
  | [] => found
  | c :: s => lastSlash (if c = SLASH then some i else found) (i + 1) s

/-- `split_parent` -/
def splitParent (path : Str) : Except (Stop Errno) (Str × Str) :=
  match lastSlash none 0 path with
  | none => .error (.err .EINVAL)
  | some last =>
    let plen := if last = 0 then 1 else last
    let base := path.drop (last + 1)
    if VFS_PATH_MAX ≤ plen ∨ VFS_NAME_MAX ≤ base.length then .error (.err .ENAMETOOLONG)
    else do
      access [⟨VFS_PATH_MAX, 0, plen⟩, ⟨VFS_PATH_MAX, plen, 1⟩, ⟨VFS_NAME_MAX, 0, base.length + 1⟩]
      if base = [] then .error (.err .EINVAL) else .ok (path.take plen, base)

/-! ## The walk that a path stands for -/

/-- One component of a path after the components `stack`. -/
def lexStep (stack : List Str) (c : Str) : List Str :=
  if c = [] ∨ c = [DOT] then stack
  else if c = [DOT, DOT] then stack.dropLast
  else stack ++ [c]

/-- The components of the lexical normal form -/
def normalForm (path : Str) : List Str := (path.splitOn SLASH).foldl lexStep []

/-- A path in normal form; the namespace root is `""` as in `cur_path`. -/
def spell (comps : List Str) : Str := comps.flatMap (SLASH :: ·)

/-- More components stand on the stack at some time than a walk resolves. -/
def Deep (path : Str) : Prop :=
  ∃ pre, pre <+: path.splitOn SLASH ∧ VFS_COMPS_MAX < (pre.foldl lexStep []).length

/-- An absolute path within the limits on its length, its components and their number -/
structure Fits (path : Str) : Prop where
  absolute : path.head? = some SLASH
  short : path.length < VFS_PATH_MAX
  names : ∀ c ∈ normalForm path, c.length < VFS_NAME_MAX
  shallow : ¬ Deep path

section reference

variable (t : Table) (lookup : Vnode → Str → Except Errno Vnode)

/-- The first active mount at a path with this normal form -/
def mountAt (comps : List Str) : Option ℕ :=
  (List.range t.nmounts).find? fun i => (t.mounts i).active && normalForm (t.mounts i).path = comps

/-- The root of the filesystem that is mounted there -/
def rootAt (comps : List Str) : Option Vnode := (mountAt t comps).bind fun i => (t.mounts i).root

/-- From `cur`, which is at `done`, along the components that follow, with the roots `rootOf` of
what is mounted on the way. -/
def follow (rootOf : List Str → Option Vnode) :
    Vnode → List Str → List Str → Except Errno Vnode
  | cur, _, [] => .ok cur
  | cur, done, c :: rest =>
    if !cur.dir then .error .ENOTDIR
    else
      match rootOf (done ++ [c]) with
      | some next => follow rootOf next (done ++ [c]) rest
      | none =>
        match lookup cur c with
        | .error e => .error e
        | .ok next => follow rootOf next (done ++ [c]) rest

/-- What a path within the limits resolves to. -/
def reference (path : Str) : Except Errno Vnode :=
  if t.have_root then
    match rootAt t [] with
    | none => .error .ENOENT
    | some cur => follow lookup (rootAt t) cur [] (normalForm path)
  else .error .ENOENT

/-- A path within the limits resolves to what it stands for, any other is refused, and no buffer
is left. `split_parent` takes off the last component. -/
structure Resolves (path : Str) : Prop where
  exact : Fits path → resolve t lookup path = (reference t lookup path).mapError .err
  refused : ¬ Fits path → ∃ e, resolve t lookup path = .error (.err e)
  inside : splitParent path ≠ .error .oob
  parent : ∀ parent base, splitParent path = .ok (parent, base) →
    normalForm path = lexStep (normalForm parent) base

end reference

/-- The table with the roots of what is mounted. -/
def withRoots (t : Table) (root : ℕ → Vnode) : Table :=
  { t with mounts := fun i => { t.mounts i with root := some (root i) } }

/-- The slot that `vfs_resolve` enters at `comps`. -/
def entered (t : Table) (comps : List Str) : Option ℕ :=
  if comps = [] then some 0 else t.findMountpoint (spell comps)

/-- The path is not absolute, or too deep, or there is no root; or it and its components are short
enough, and what is mounted on its way is mounted under paths in normal form. -/
def Clear (t : Table) (path : Str) : Prop :=
  path.head? ≠ some SLASH ∨ Deep path ∨ t.have_root = false ∨
    (path.length < VFS_PATH_MAX ∧ (∀ c ∈ normalForm path, c.length < VFS_NAME_MAX) ∧
      ∀ comps, comps <+: normalForm path → entered t comps = mountAt t comps)

end MobilePhoneOs.Vfs.Paths
