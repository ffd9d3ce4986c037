import MobilePhoneOs.Lib.Run

/-!
# The mount table (`fs/vfs.c`)

`vfs_mount` and `vfs_resolve` by any number of tasks, one locked section, one call into a
filesystem or one read of a mount at a time. A mount function of a filesystem writes `m->root` as
its last act or fails; everything else a filesystem does is left open. References to vnodes are
not counted here.
-/

namespace MobilePhoneOs.Vfs.Mounts

open Function (update)

def VFS_NAME_MAX : ℕ := 64

def VFS_PATH_MAX : ℕ := 160

def VFS_MOUNT_MAX : ℕ := 8

def VFS_COMPS_MAX : ℕ := 24

/-- A C string: the bytes before its NUL. -/
abbrev Str := List UInt8

def SLASH : UInt8 := 47

def DOT : UInt8 := 46

/-- A `struct vnode`, by its address, and whether its type is `V_DIR`. -/
structure Vnode where
  id : ℕ
  dir : Bool
deriving DecidableEq

/-- The error returns; `fs` is one of a filesystem's own. -/
inductive Errno
  | EINVAL
  | ENODEV
  | EBUSY
  | ENOENT
  | ENOMEM
  | ENOTDIR
  | ENAMETOOLONG
  | fs (r : ℤ)
deriving DecidableEq

/-- `struct mount` -/
structure Mount where
  fstype : Str
  bd : Option ℕ
  part_lba : ℕ
  part_nsect : ℕ
  root : Option Vnode
  active : Bool
  path : Str
deriving DecidableEq

/-- The arguments of `vfs_mount`. -/
structure Request where
  fstype : Str
  path : Str
  bd : Option ℕ
  lba : ℕ
  nsect : ℕ
deriving DecidableEq

/-- A claimed slot before the mount function runs. -/
def Request.entry (r : Request) : Mount where
  fstype := r.fstype
  bd := r.bd
  part_lba := r.lba
  part_nsect := r.nsect
  root := none
  active := true
  path := r.path

/-- The names in `fstypes`, and `mounts`, `nmounts` and `have_root`. -/
structure Table where
  fstypes : List Str
  mounts : ℕ → Mount
  nmounts : ℕ
  have_root : Bool

/-! ## Paths -/

/-- `path_join` -/
def pathJoin (cap : ℕ) (base comp : Str) : Str :=
  base ++ SLASH :: if cap < base.length + 1 + comp.length + 1 then [] else comp

/-- The loop of `normalize_path`, over what stands between the slashes. -/
def normalizeFrom (comps : List Str) : List Str → Except Errno (List Str)
  | [] => .ok comps
  | s :: rest =>
    if s = [DOT] then normalizeFrom comps rest
    else if s = [DOT, DOT] then normalizeFrom comps.dropLast rest
    else if VFS_COMPS_MAX ≤ comps.length then .error .ENAMETOOLONG
    else normalizeFrom (comps ++ [s.take (VFS_NAME_MAX - 1)]) rest

def normalizePath (path : Str) : Except Errno (List Str) :=
  normalizeFrom [] ((path.splitOn SLASH).filter (· ≠ []))

/-! ## Where a task is -/

inductive Phase
  | idle
  /-- `vfs_mount` in the mount function, with its slot claimed -/
  | mounting (slot : ℕ) (path : Str)
  /-- the mount function has answered 0 -/
  | mounted (slot : ℕ)
  /-- `vfs_resolve` at the head of its loop -/
  | walk (cur : Vnode) (cur_path : Str) (comps : List Str)
  /-- it has found a mountpoint and will read the root again -/
  | crossing (slot : ℕ) (cur_path : Str) (comps : List Str)
  /-- it searches the directory `cur` -/
  | looking (cur : Vnode) (cur_path comp : Str) (comps : List Str)
  | returned (r : Except Errno (Option Vnode))
  /-- a NULL root has been followed, or `panic` called -/
  | fault

/-- The task can make a call. -/
def Phase.Free : Phase → Prop
  | .idle | .returned _ => True
  | _ => False

namespace Table

/-- `find_mountpoint_locked`, with the index for the address -/
def findMountpoint (t : Table) (path : Str) : Option ℕ :=
  (List.range t.nmounts).find? fun i => (t.mounts i).active && (t.mounts i).path = path

/-- The first section of `vfs_mount`. -/
def vfsMount (t : Table) (r : Request) : Except Errno Table :=
  if r.path.head? ≠ some SLASH ∨ VFS_PATH_MAX ≤ r.path.length then .error .EINVAL
  else if r.fstype ∉ t.fstypes then .error .ENODEV
  else if r.path = [SLASH] ∧ t.have_root = true then .error .EBUSY
  else if r.path ≠ [SLASH] ∧ t.have_root = false then .error .ENOENT
  else if (t.findMountpoint r.path).isSome then .error .EBUSY
  else if VFS_MOUNT_MAX ≤ t.nmounts then .error .ENOMEM
  else
    .ok { t with
      mounts := update t.mounts t.nmounts r.entry
      nmounts := t.nmounts + 1
      have_root := t.have_root || r.path = [SLASH] }

/-- `m->root = root` at the end of a mount function. -/
def setRoot (t : Table) (slot : ℕ) (root : Vnode) : Table :=
  { t with mounts := update t.mounts slot { t.mounts slot with root := some root } }

/-- The section of `vfs_mount` after its mount function has failed. -/
def withdraw (t : Table) (slot : ℕ) (path : Str) : Table :=
  -- the count goes down for any slot
  { t with
    mounts := update t.mounts slot { t.mounts slot with active := false }
    nmounts := t.nmounts - 1
    have_root := if path = [SLASH] then false else t.have_root }

/-- The end of `vfs_mount` after its mount function has answered 0. -/
def finish (t : Table) (slot : ℕ) : Phase :=
  if (t.mounts slot).root = none then .fault else .returned (.ok none)

/-- `vfs_resolve` up to its loop -/
def vfsResolve (t : Table) (path : Str) : Phase :=
  if path.head? ≠ some SLASH then .returned (.error .EINVAL)
  else
    match normalizePath path with
    | .error e => .returned (.error e)
    | .ok comps =>
      if t.have_root then
        match (t.mounts 0).root with
        | some cur => .walk cur [] comps
        | none => .fault
      else .returned (.error .ENOENT)

/-- The head of the loop of `vfs_resolve` with the locked search for a mountpoint. -/
def visit (t : Table) (cur : Vnode) (cur_path : Str) : List Str → Phase
  | [] => .returned (.ok (some cur))
  | comp :: comps =>
    if !cur.dir then .returned (.error .ENOTDIR)
    else
      match t.findMountpoint (pathJoin VFS_PATH_MAX cur_path comp) with
      | none => .looking cur cur_path comp comps
      | some slot =>
        if (t.mounts slot).root = none then .fault
        else .crossing slot (pathJoin VFS_PATH_MAX cur_path comp) comps

/-- `next = x->root`, outside the lock -/
def enter (t : Table) (slot : ℕ) (cur_path : Str) (comps : List Str) : Phase :=
  match (t.mounts slot).root with
  | some next => .walk next cur_path comps
  | none => .fault

/-- The active mounts by their mountpoints. -/
def view (t : Table) (path : Str) : Option Mount := (t.findMountpoint path).map t.mounts

/-- The mounts that a resolver can see: the one it starts from and those it can cross into. -/
def Sees (t : Table) (m : Mount) : Prop :=
  (t.have_root = true ∧ m = t.mounts 0) ∨ ∃ path, t.view path = some m

end Table

/-- The rest of a round of the loop after `vfs_lookup_at` has answered `r`. -/
def found (cur_path comp : Str) (comps : List Str) : Except Errno Vnode → Phase
  | .error e => .returned (.error e)
  | .ok next => .walk next (pathJoin VFS_PATH_MAX cur_path comp) comps

/-! ## Tasks side by side -/

structure State (ι : Type) where
  table : Table
  phase : ι → Phase

inductive Act (ι : Type)
  | mount (k : ι) (r : Request)
  | filled (k : ι) (root : Vnode)
  | failed (k : ι) (e : Errno)
  | finish (k : ι)
  | resolve (k : ι) (path : Str)
  | visit (k : ι)
  | enter (k : ι)
  | lookup (k : ι) (r : Except Errno Vnode)

variable {ι : Type} [DecidableEq ι]

def State.move (s : State ι) (k : ι) (p : Phase) (t : Table) : State ι :=
  ⟨t, update s.phase k p⟩

/-- One step of one task. -/
inductive Step : State ι → Act ι → State ι → Prop
  | refuse {s : State ι} {k : ι} {r : Request} {e : Errno} (hk : (s.phase k).Free)
      (hr : s.table.vfsMount r = .error e) :
      Step s (.mount k r) (s.move k (.returned (.error e)) s.table)
  | claim {s : State ι} {k : ι} {r : Request} {t : Table} (hk : (s.phase k).Free)
      (hr : s.table.vfsMount r = .ok t) :
      Step s (.mount k r) (s.move k (.mounting s.table.nmounts r.path) t)
  | filled {s : State ι} {k : ι} {slot : ℕ} {path : Str} (root : Vnode)
      (hk : s.phase k = .mounting slot path) :
      Step s (.filled k root) (s.move k (.mounted slot) (s.table.setRoot slot root))
  | failed {s : State ι} {k : ι} {slot : ℕ} {path : Str} (e : Errno)
      (hk : s.phase k = .mounting slot path) :
      Step s (.failed k e) (s.move k (.returned (.error e)) (s.table.withdraw slot path))
  | finish {s : State ι} {k : ι} {slot : ℕ} (hk : s.phase k = .mounted slot) :
      Step s (.finish k) (s.move k (s.table.finish slot) s.table)
  | resolve {s : State ι} {k : ι} (path : Str) (hk : (s.phase k).Free) :
      Step s (.resolve k path) (s.move k (s.table.vfsResolve path) s.table)
  | visit {s : State ι} {k : ι} {cur : Vnode} {cur_path : Str} {comps : List Str}
      (hk : s.phase k = .walk cur cur_path comps) :
      Step s (.visit k) (s.move k (s.table.visit cur cur_path comps) s.table)
  | enter {s : State ι} {k : ι} {slot : ℕ} {cur_path : Str} {comps : List Str}
      (hk : s.phase k = .crossing slot cur_path comps) :
      Step s (.enter k) (s.move k (s.table.enter slot cur_path comps) s.table)
  | lookup {s : State ι} {k : ι} {cur : Vnode} {cur_path comp : Str} {comps : List Str}
      (r : Except Errno Vnode) (hk : s.phase k = .looking cur cur_path comp comps) :
      Step s (.lookup k r) (s.move k (found cur_path comp comps r) s.table)

/-- Before the first mount. -/
def boot (fstypes : List Str) : State ι where
  table := ⟨fstypes, fun _ => ⟨[], none, 0, 0, none, false, []⟩, 0, false⟩
  phase := fun _ => .idle

/-! ## The law -/

/-- What a step is to make of the active mounts: a call that is let in adds its own, its mount
function gives that one its root or it takes that one back, and nothing else changes any. -/
def State.expected (s : State ι) : Act ι → Str → Option Mount
  | .mount _ r =>
    match s.table.vfsMount r with
    | .ok _ => update s.table.view r.path (some r.entry)
    | .error _ => s.table.view
  | .filled k root =>
    match s.phase k with
    | .mounting _ path => update s.table.view path
        ((s.table.view path).map fun m => { m with root := some root })
    | _ => s.table.view
  | .failed k _ =>
    match s.phase k with
    | .mounting _ path => update s.table.view path none
    | _ => s.table.view
  | .finish _ | .resolve _ _ | .visit _ | .enter _ | .lookup _ _ => s.table.view

/-- The step does to the active mounts what it is to do, and nobody follows a NULL root. -/
def Lawful (s : State ι) (a : Act ι) (u : State ι) : Prop :=
  u.table.view = s.expected a ∧ ∀ k, u.phase k ≠ .fault

/-- A call of `vfs_mount` for `path` is in its mount function. -/
def Mounting (s : State ι) (path : Str) : Prop := ∃ k slot, s.phase k = .mounting slot path

/-- The condition: a mount that fails has the last slot, and no resolver comes to a mountpoint
whose mount function still runs. -/
def Clean (s : State ι) : Act ι → Prop
  | .failed k _ => ∀ slot path, s.phase k = .mounting slot path → slot + 1 = s.table.nmounts
  | .resolve _ path =>
    path.head? = some SLASH → (∃ comps, normalizePath path = .ok comps) → ¬ Mounting s [SLASH]
  | .visit k => ∀ cur cur_path comp comps, s.phase k = .walk cur cur_path (comp :: comps) →
      cur.dir = true → ¬ Mounting s (pathJoin VFS_PATH_MAX cur_path comp)
  | .mount _ _ | .filled _ _ | .finish _ | .enter _ | .lookup _ _ => True

end MobilePhoneOs.Vfs.Mounts
