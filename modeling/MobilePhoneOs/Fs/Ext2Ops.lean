import MobilePhoneOs.Fs.Ext2Dir

/-!
# ext2 inodes and the operations on directories (`fs/ext2.c`)

An in-memory inode that a call changes is returned next to the device. `Kmem` says which of
the `kzalloc` calls of an operation get memory.
-/

namespace MobilePhoneOs.Fs
namespace Ext2

open Mem

def E2_FIRST_INO : ℕ := 11
def E2_ROOT_INO : ℕ := 2
def E2_FT_REG : ℕ := 1
def E2_FT_DIR : ℕ := 2

/-- `.` -/
def dot : List UInt8 := [46]

/-- `..` -/
def dotdot : List UInt8 := [46, 46]

/-! ## Inode persistence -/

/-- `inode_gather` -/
def inodeGather (fs : E2Fs) (ino : ℕ) (d : Dev) : Except Errno (ℕ → UInt8) × Dev :=
  let boff := inodeOff fs ino
  let off := boff % 512
  match sectRead d (boff / 512) with
  | (.error e, d) => (.error e, d)
  | (.ok sec, d) =>
    if off + E2_INODE_SIZE ≤ 512 then (.ok fun i => sec (off + i), d)
    else
      let head := 512 - off
      match sectRead d (boff / 512 + 1) with
      | (.error e, d) => (.error e, d)
      | (.ok next, d) => (.ok fun i => if i < head then sec (off + i) else next (i - head), d)

/-- The inode that a record describes. -/
def inodeParse (ino : ℕ) (raw : ℕ → UInt8) : Inode where
  ino := ino
  isDir := load raw 0 2 &&& 0xF000 = E2_M_DIR
  size := load raw 4 4
  links := load raw 26 2
  blk := fun i => if i < 15 then load raw (40 + i * 4) 4 else 0

/-- `inode_load` -/
def inodeLoad (fs : E2Fs) (ino : ℕ) (d : Dev) : Except Errno Inode × Dev :=
  match inodeGather fs ino d with
  | (.error e, d) => (.error e, d)
  | (.ok raw, d) => (.ok (inodeParse ino raw), d)

/-! ## Bitmaps -/

/-- `bm[rel >> 3] &= (uint8_t)~(1u << (rel & 7))` -/
def bmClear (bm : ℕ → UInt8) (rel : ℕ) : ℕ → UInt8 :=
  Function.update bm (rel >>> 3)
    (UInt8.ofNat ((bm (rel >>> 3)).toNat &&& (255 ^^^ 1 <<< (rel &&& 7))))

/-- `bfree` -/
def bfree (fs : E2Fs) (ab : ℕ) (d : Dev) : Except Errno Unit × Dev :=
  if ab = 0 ∨ ab ≥ fs.blocksCount then (.error .eio, d)
  else
    let g := (ab - 1) / E2_BPG
    let rel := (ab - 1) % E2_BPG
    match blkRead d (fs.grp g).bbmap with
    | (.error e, d) => (.error e, d)
    | (.ok bm, d) =>
      if bmTest bm rel = false then (.error .eio, d)
      else blkWrite d (fs.grp g).bbmap (bmClear bm rel)

/-- The inner loop of `ialloc`: the first clear bit among `fuel` bits from `rel` on. -/
def iallocScan (bm : ℕ → UInt8) : ℕ → ℕ → Option ℕ
  | 0, _ => none
  | fuel + 1, rel => if bmTest bm rel = false then some rel else iallocScan bm fuel (rel + 1)

/-- The outer loop of `ialloc`, over `n` groups from `g` on. -/
def iallocFrom (fs : E2Fs) : ℕ → ℕ → Dev → Except Errno ℕ × Dev
  | 0, _, d => (.error .enospc, d)
  | n + 1, g, d =>
    let startRel := if g = 0 then E2_FIRST_INO - 1 else 0
    match blkRead d (fs.grp g).ibmap with
    | (.error e, d) => (.error e, d)
    | (.ok bm, d) =>
      match iallocScan bm (E2_IPG - startRel) startRel with
      | none => iallocFrom fs n (g + 1) d
      | some rel =>
        match blkWrite d (fs.grp g).ibmap (bmSet bm rel) with
        | (.error e, d) => (.error e, d)
        | (.ok (), d) => (.ok (g * E2_IPG + rel + 1), d)

/-- `ialloc` -/
def ialloc (fs : E2Fs) (d : Dev) : Except Errno ℕ × Dev := iallocFrom fs fs.ngroups 0 d

/-- `ifree` -/
def ifree (fs : E2Fs) (ino : ℕ) (d : Dev) : Except Errno Unit × Dev :=
  let g := (ino - 1) / E2_IPG
  let rel := (ino - 1) % E2_IPG
  if ino ≤ E2_FIRST_INO ∨ g ≥ fs.ngroups then (.error .einval, d)
  else
    match blkRead d (fs.grp g).ibmap with
    | (.error e, d) => (.error e, d)
    | (.ok bm, d) => blkWrite d (fs.grp g).ibmap (bmClear bm rel)

/-! ## Releasing blocks -/

/-- The loop of `free_level` over `n` slots from `s` on; `free` is the call one level down. -/
def freeSlots (free : ℕ → Dev → Except Errno Unit × Dev) (ib : ℕ → UInt8) :
    ℕ → ℕ → Dev → Except Errno Unit × Dev
  | 0, _, d => (.ok (), d)
  | n + 1, s, d =>
    let child := load ib (s * 4) 4
    if child ≠ 0 then
      match free child d with
      | (.error e, d) => (.error e, d)
      | (.ok (), d) => freeSlots free ib n (s + 1) d
    else freeSlots free ib n (s + 1) d

/-- `free_level` for the level `n + 1`. -/
def freeLevel (fs : E2Fs) : ℕ → ℕ → Dev → Except Errno Unit × Dev
  | 0, root, d => if root = 0 then (.ok (), d) else bfree fs root d
  | n + 1, root, d =>
    if root = 0 then (.ok (), d)
    else
      match blkRead d root with
      | (.error e, d) => (.error e, d)
      | (.ok ib, d) =>
        match freeSlots (freeLevel fs n) ib P 0 d with
        | (.error e, d) => (.error e, d)
        | (.ok (), d) => bfree fs root d

/-- `release_all_blocks` over `k` roots from `r` on: 12 direct blocks, and three roots with
`r - 11` levels of pointers. -/
def releaseFrom (fs : E2Fs) : ℕ → ℕ → Dev → Inode → Except Errno Unit × Dev × Inode
  | 0, _, d, n => (.ok (), d, n)
  | k + 1, r, d, n =>
    match freeLevel fs (r - 11) (n.blk r) d with
    | (.error e, d) => (.error e, d, n)
    | (.ok (), d) => releaseFrom fs k (r + 1) d { n with blk := Function.update n.blk r 0 }

/-- `release_all_blocks` -/
def releaseAllBlocks (fs : E2Fs) (n : Inode) (d : Dev) : Except Errno Unit × Dev × Inode :=
  match releaseFrom fs 15 0 d n with
  | (.error e, d, n) => (.error e, d, n)
  | (.ok (), d, n) =>
    let n := { n with size := 0 }
    let r := inodeStore fs n d
    (r.1, r.2, n)

/-! ## Operations -/

/-- The loop of `dir_is_empty` from `doff` on. -/
def dirIsEmptyFrom (fs : E2Fs) (dir : Inode) : ℕ → ℕ → Dev → Bool × Dev
  | 0, _, d => (true, d)
  | fuel + 1, doff, d =>
    if doff < dir.size then
      match dirEntAt fs dir doff d with
      | (.error _, d) => (true, d)
      | (.ok (rl, ent), d) =>
        if ent.ino ≠ 0 ∧ strEq ent.name dot = false ∧ strEq ent.name dotdot = false then (false, d)
        else dirIsEmptyFrom fs dir fuel (doff + rl) d
    else (true, d)

/-- `dir_is_empty` -/
def dirIsEmpty (fs : E2Fs) (dir : Inode) (d : Dev) : Bool × Dev :=
  dirIsEmptyFrom fs dir dir.size 0 d

/-- Which `kzalloc` calls get memory: for the inode and for its vnode. -/
structure Kmem where
  inode : Bool
  shell : Bool

/-- `ext2_lookup` -/
def lookup (fs : E2Fs) (km : Kmem) (dir : Inode) (name : List UInt8) (d : Dev) :
    Except Errno Inode × Dev :=
  if name = [] then (.error .enoent, d)
  else
    match dirFind fs dir name d with
    | (.error e, d) => (.error e, d)
    | (.ok none, d) => (.error .enoent, d)
    | (.ok (some (_, ent)), d) =>
      if km.inode = false then (.error .enomem, d)
      else
        match inodeLoad fs ent.ino d with
        | (.error e, d) => (.error e, d)
        | (.ok n, d) => if km.shell = false then (.error .enomem, d) else (.ok n, d)

/-- The label `fail` of `ext2_create` and `ext2_mkdir_child`. -/
def createFail (fs : E2Fs) (fresh : Inode) (e : Errno) (d : Dev) (dir : Inode) :
    Except Errno Inode × Dev × Inode :=
  let d := if fresh.size ≠ 0 ∨ fresh.blk 0 ≠ 0 then (releaseAllBlocks fs fresh d).2.1 else d
  (.error e, (ifree fs fresh.ino d).2, dir)

/-- The first block of a directory, as `ext2_mkfs` and `ext2_mkdir_child` fill it in. -/
def dotsBlock (self up : ℕ) : ℕ → UInt8 :=
  let bb : ℕ → UInt8 := fun _ => 0
  let bb := put bb 0 4 self
  let bb := put bb 4 2 12
  let bb := put bb 6 1 1
  let bb := put bb 7 1 E2_FT_DIR
  let bb := store bb 8 dot
  let bb := put bb 12 4 up
  let bb := put bb 16 2 (E2_BSIZE - 12)
  let bb := put bb 22 1 2
  let bb := put bb 23 1 E2_FT_DIR
  store bb 24 dotdot

/-- `ext2_mkdir_child` -/
def mkdirChild (fs : E2Fs) (km : Kmem) (parent : Inode) (name : List UInt8) (d : Dev) :
    Except Errno Inode × Dev × Inode :=
  match dirFind fs parent name d with
  | (.error e, d) => (.error e, d, parent)
  | (.ok (some _), d) => (.error .eexist, d, parent)
  | (.ok none, d) =>
    match ialloc fs d with
    | (.error e, d) => (.error e, d, parent)
    | (.ok ino, d) =>
      if km.inode = false then (.error .enomem, (ifree fs ino d).2, parent)
      else
        match bmap fs ⟨ino, true, 0, 2, fun _ => 0⟩ 0 true d with
        | (.error e, d, fresh) => createFail fs fresh e d parent
        | (.ok ab, d, fresh) =>
          match blkRead d ab with
          | (.error e, d) => createFail fs fresh e d parent
          | (.ok _, d) =>
            match blkWrite d ab (dotsBlock ino ino) with
            | (.error e, d) => createFail fs fresh e d parent
            | (.ok (), d) =>
              let fresh := { fresh with size := E2_BSIZE }
              match inodeStore fs fresh d with
              | (.error e, d) => createFail fs fresh e d parent
              | (.ok (), d) =>
                match dirAddEntry fs parent ino name E2_FT_DIR d with
                | (.error e, d, parent) => createFail fs fresh e d parent
                | (.ok (), d, parent) =>
                  let parent := { parent with links := (parent.links + 1) % 2 ^ 16 }
                  match inodeStore fs parent d with
                  | (.error e, d) => createFail fs fresh e d parent
                  | (.ok (), d) => (.ok fresh, d, parent)

/-- The branch of `ext2_create` for a file. -/
def createFile (fs : E2Fs) (km : Kmem) (dir : Inode) (name : List UInt8) (d : Dev) :
    Except Errno Inode × Dev × Inode :=
  match dirFind fs dir name d with
  | (.error e, d) => (.error e, d, dir)
  | (.ok (some _), d) => (.error .eexist, d, dir)
  | (.ok none, d) =>
    match ialloc fs d with
    | (.error e, d) => (.error e, d, dir)
    | (.ok ino, d) =>
      if km.inode = false then (.error .enomem, (ifree fs ino d).2, dir)
      else
        let fresh : Inode := ⟨ino, false, 0, 1, fun _ => 0⟩
        match inodeStore fs fresh d with
        | (.error e, d) => createFail fs fresh e d dir
        | (.ok (), d) =>
          match dirAddEntry fs dir ino name E2_FT_REG d with
          | (.error e, d, dir) => createFail fs fresh e d dir
          | (.ok (), d, dir) => (.ok fresh, d, dir)

/-- `ext2_create` of a directory or of a file: the new inode, and `dir` as it is then. -/
def create (fs : E2Fs) (km : Kmem) (dir : Inode) (name : List UInt8) (isDir : Bool) (d : Dev) :
    Except Errno Inode × Dev × Inode :=
  if name.length ≥ 255 then (.error .enametoolong, d, dir)
  else
    match if isDir then mkdirChild fs km dir name d else createFile fs km dir name d with
    | (.error e, d, dir) => (.error e, d, dir)
    | (.ok fresh, d, dir) =>
      if km.shell = false then createFail fs fresh .enomem d dir else (.ok fresh, d, dir)

/-- `ext2_unlink` -/
def unlink (fs : E2Fs) (dir : Inode) (name : List UInt8) (d : Dev) :
    Except Errno Unit × Dev × Inode :=
  match dirFind fs dir name d with
  | (.error e, d) => (.error e, d, dir)
  | (.ok none, d) => (.error .enoent, d, dir)
  | (.ok (some (doff, ent)), d) =>
    if strEq ent.name dot ∨ strEq ent.name dotdot then (.error .einval, d, dir)
    else
      match inodeLoad fs ent.ino d with
      | (.error e, d) => (.error e, d, dir)
      | (.ok victim, d) =>
        let probe := if victim.isDir then dirIsEmpty fs victim d else (true, d)
        if probe.1 = false then (.error .enotempty, probe.2, dir)
        else
          match releaseAllBlocks fs victim probe.2 with
          | (.error e, d, _) => (.error e, d, dir)
          | (.ok (), d, _) =>
            match ifree fs ent.ino d with
            | (.error e, d) => (.error e, d, dir)
            | (.ok (), d) =>
              match dirRemoveEntry fs dir doff d with
              | (.error e, d) => (.error e, d, dir)
              | (.ok (), d) =>
                if victim.isDir then
                  let dir := { dir with links := (dir.links + 2 ^ 16 - 1) % 2 ^ 16 }
                  let r := inodeStore fs dir d
                  (r.1, r.2, dir)
                else (.ok (), d, dir)

end Ext2
end MobilePhoneOs.Fs
