import MobilePhoneOs.Fs.Ext2Ops
import MobilePhoneOs.Lib.Prog
import MobilePhoneOs.Lib.Run

/-!
# Making and mounting an ext2 volume (`fs/ext2.c`)

`mkfs` formats the whole partition, `mount` reads the geometry back. Below them stand the
runs of a mounted volume and the law of the directory tree, which reads the device the way
the driver does, without faults.
-/

namespace MobilePhoneOs.Fs
namespace Ext2

open Mem Prog

def E2_MAGIC : ℕ := 0xEF53

/-- The blocks of one inode table. -/
def itableBlocks : ℕ := E2_IPG * E2_INODE_SIZE / E2_BSIZE

/-! ## Formatting -/

/-- The groups that cover so many blocks. -/
def groupsOf (blocks : ℕ) : ℕ := (blocks - 1 + E2_BPG - 1) / E2_BPG

/-- `gdt_blocks` -/
def gdtBlocks (ngroups : ℕ) : ℕ := (ngroups * 32 + E2_BSIZE - 1) / E2_BSIZE

/-- Where `ext2_mkfs` puts the bitmaps and the inode table of a group. -/
def layoutGrp (ngroups g : ℕ) : E2Grp :=
  let bb := if g = 0 then 2 + gdtBlocks ngroups else g * E2_BPG + 1
  ⟨bb, bb + 1, bb + 2⟩

/-- The number of blocks of a volume on `nsect` sectors, 32 of which stay free. The
subtraction is one of 64 bits, the result one of 32. -/
def mkfsBlocks (nsect : ℕ) : ℕ :=
  (nsect + 2 ^ 64 - 32) % 2 ^ 64 / E2_SECT_PER_BLK * E2_SECT_PER_BLK % 2 ^ 32 / E2_SECT_PER_BLK

/-- The geometry of `ext2_mkfs`: a volume of more than 16 groups is cut down. -/
def mkfsGeometry (blocks : ℕ) : E2Fs :=
  if groupsOf blocks > E2_NGROUP_MAX then
    ⟨min ((E2_NGROUP_MAX - 1) * E2_BPG + 1) blocks, E2_NGROUP_MAX, layoutGrp E2_NGROUP_MAX⟩
  else ⟨blocks, groupsOf blocks, layoutGrp (groupsOf blocks)⟩

/-- The first block of a group behind its inode table. -/
def dataStart (fs : E2Fs) (g : ℕ) : ℕ := (fs.grp g).itable + itableBlocks

/-- Whether `ext2_mkfs` marks bit `rel` of a group used: metadata, the block of the root
directory, and what lies beyond the volume. -/
def reserved (fs : E2Fs) (g rel : ℕ) : Bool :=
  let ab := g * E2_BPG + 1 + rel
  ab ≥ fs.blocksCount ∨ ab < dataStart fs g ∨ (g = 0 ∧ ab = dataStart fs g)

/-- The bitmap with the bits of `p` among the first `n`. -/
def bitmapOf (p : ℕ → Bool) : ℕ → ℕ → UInt8
  | 0 => fun _ => 0
  | n + 1 => if p n then bmSet (bitmapOf p n) n else bitmapOf p n

/-- The blocks that `ext2_mkfs` leaves free in a group. -/
def groupFree (fs : E2Fs) (g : ℕ) : ℕ := (List.range E2_BPG).countP fun rel => !reserved fs g rel

/-- The superblock that `ext2_mkfs` writes. -/
def mkfsSuper (fs : E2Fs) : ℕ → UInt8 :=
  let freeBlocks := ((List.range fs.ngroups).map (groupFree fs)).sum
  let freeInodes := ((List.range fs.ngroups).map fun g => if g = 0 then E2_IPG - 10 else E2_IPG).sum
  let sb : ℕ → UInt8 := fun _ => 0
  let sb := put sb 0 4 (E2_IPG * fs.ngroups)
  let sb := put sb 4 4 fs.blocksCount
  let sb := put sb 8 4 (fs.blocksCount / 10)
  let sb := put sb 12 4 freeBlocks
  let sb := put sb 16 4 freeInodes
  let sb := put sb 20 4 1
  let sb := put sb 24 1 0
  let sb := put sb 25 1 0
  let sb := put sb 28 4 E2_BPG
  let sb := put sb 32 4 E2_BPG
  let sb := put sb 36 4 E2_BPG
  let sb := put sb 40 4 E2_IPG
  let sb := put sb 54 2 (2 ^ 16 - 1)
  let sb := put sb 56 2 E2_MAGIC
  let sb := put sb 58 2 1
  let sb := put sb 76 4 1
  let sb := put sb 84 4 E2_FIRST_INO
  put sb 88 2 E2_INODE_SIZE

/-- A group descriptor. -/
def groupDesc (grp : E2Grp) : List UInt8 :=
  let gd : ℕ → UInt8 := fun _ => 0
  let gd := put gd 0 4 grp.bbmap
  let gd := put gd 4 4 grp.ibmap
  let gd := put gd 8 4 grp.itable
  slice gd 0 32

/-- The record of the root directory, whose block is `data0`. -/
def rootRaw (data0 : ℕ) : List UInt8 :=
  let raw : ℕ → UInt8 := fun _ => 0
  let raw := put raw 0 2 (E2_M_DIR ||| E2_M_PERM)
  let raw := put raw 4 4 E2_BSIZE
  let raw := put raw 26 2 2
  let raw := put raw 28 4 E2_SECT_PER_BLK
  let raw := put raw 40 4 data0
  slice raw 0 E2_INODE_SIZE

/-- A read of the block layer that is not checked against the partition. -/
def devRead (sect : ℕ) : Prog Errno Dev (ℕ → UInt8) := fun d => d.read sect

def devWrite (sect n : ℕ) (buf : ℕ → UInt8) : Prog Errno Dev Unit := fun d => d.write sect n buf

def putBlock (ab : ℕ) (buf : ℕ → UInt8) : Prog Errno Dev Unit := fun d => blkWrite d ab buf

/-- The metadata of a group is zeroed. -/
def mkfsZero (grp : E2Grp) : Prog Errno Dev Unit := do
  putBlock grp.bbmap fun _ => 0
  putBlock grp.ibmap fun _ => 0
  forN itableBlocks fun t => putBlock (grp.itable + t) fun _ => 0

/-- The descriptor of group `g` goes into the descriptor table. -/
def mkfsDesc (fs : E2Fs) (g : ℕ) : Prog Errno Dev Unit := do
  let boff := 2048 + g * 32
  let sec ← devRead (boff / 512)
  devWrite (boff / 512) 1 (store sec (boff % 512) (groupDesc (fs.grp g)))

/-- `ext2_mkfs` with the geometry `fs`. -/
def mkfsWith (fs : E2Fs) : Prog Errno Dev Unit := do
  let data0 := dataStart fs 0
  forN fs.ngroups fun g => mkfsZero (fs.grp g)
  forN fs.ngroups (mkfsDesc fs)
  forN fs.ngroups fun g => putBlock (fs.grp g).bbmap (bitmapOf (reserved fs g) E2_BPG)
  forN fs.ngroups fun g => putBlock (fs.grp g).ibmap (bitmapOf (fun b => g = 0 ∧ b < 10) E2_IPG)
  putBlock data0 (dotsBlock E2_ROOT_INO E2_ROOT_INO)
  inodeScatter fs E2_ROOT_INO (rootRaw data0)
  devWrite (E2_BSIZE / BLK_SECTOR_SIZE) 2 (mkfsSuper fs)

/-- `ext2_mkfs` -/
def mkfs : Prog Errno Dev Unit := do
  let blocks := mkfsBlocks (← gets Dev.nsect)
  if blocks < 4096 then fail .einval else mkfsWith (mkfsGeometry blocks)

/-! ## Mounting -/

/-- `sb_parse`: the number of blocks and of groups. -/
def sbParse (sb : ℕ → UInt8) : Except Errno (ℕ × ℕ) :=
  if load sb 56 2 ≠ E2_MAGIC then .error .einval
  else if sb 24 ≠ 0 then .error .einval
  else if load sb 20 4 ≠ 1 then .error .einval
  else if load sb 88 2 ≠ E2_INODE_SIZE then .error .einval
  else if load sb 32 4 ≠ E2_BPG then .error .einval
  else if load sb 76 4 < 1 then .error .einval
  else
    let blocks := load sb 4 4
    if blocks < 64 then .error .einval
    else if groupsOf blocks = 0 ∨ groupsOf blocks > E2_NGROUP_MAX then .error .einval
    else .ok (blocks, groupsOf blocks)

/-- The loop of `ext2_mount` over the group descriptors; the groups before `g` are in `grp`. -/
def readDescs : ℕ → ℕ → (ℕ → E2Grp) → Prog Errno Dev (ℕ → E2Grp)
  | 0, _, grp => pure grp
  | n + 1, g, grp => do
    let boff := 2048 + g * 32
    let sec ← devRead (boff / 512)
    let off := boff % 512
    let x : E2Grp := ⟨load sec off 4, load sec (off + 4) 4, load sec (off + 8) 4⟩
    if x.itable = 0 ∨ x.bbmap = 0 ∨ x.ibmap = 0 then fail .eio
    else readDescs n (g + 1) (Function.update grp g x)

/-- Which `kzalloc` calls of `ext2_mount` get memory. -/
structure MountMem where
  fs : Bool
  inode : Bool
  shell : Bool

def allMem : MountMem := ⟨true, true, true⟩

/-- `ext2_mount`: the geometry and the inode of the root directory. -/
def mount (km : MountMem) : Prog Errno Dev (E2Fs × Inode) := do
  let sb ← devRead (E2_BSIZE / BLK_SECTOR_SIZE)
  match sbParse sb with
  | .error e => fail e
  | .ok (blocks, ngroups) =>
    if 2 + gdtBlocks ngroups + ngroups * (3 + E2_IPG / 8) > blocks then fail .einval
    else if km.fs = false then fail .enomem
    else do
      let grp ← readDescs ngroups 0 fun _ => ⟨0, 0, 0⟩
      let fs : E2Fs := ⟨blocks, ngroups, grp⟩
      if km.inode = false then fail .enomem
      else do
        let root ← inodeLoad fs E2_ROOT_INO
        if root.isDir = false then fail .einval
        else if km.shell = false then fail .enomem
        else pure (fs, root)

/-! ## Runs of a mounted volume -/

/-- A mounted volume: the device and the inodes of the vnodes that are held. -/
structure Vol where
  dev : Dev
  held : List Inode

inductive VolOp
  /-- `ext2_lookup` in the `i`-th vnode -/
  | lookup (i : ℕ) (name : List UInt8)
  /-- `ext2_create` of a file, or of a directory (`mkdir`) -/
  | create (i : ℕ) (name : List UInt8) (isDir : Bool)
  /-- `ext2_unlink` -/
  | unlink (i : ℕ) (name : List UInt8)
  /-- `ext2_destroy` -/
  | destroy (i : ℕ)

/-- The `i`-th vnode is the directory `dir`, and `name` can be asked of it: the VFS hands only
directories on, and no empty name. -/
def Asked (s : Vol) (i : ℕ) (name : List UInt8) (dir : Inode) : Prop :=
  s.held[i]? = some dir ∧ dir.isDir = true ∧ 0 ∉ name ∧ name ≠ []

/-- The successful operations. -/
def VolStep (fs : E2Fs) (s : Vol) : VolOp → Vol → Prop
  | .lookup i name, s' =>
    ∃ dir km n, Asked s i name dir ∧ lookup fs km dir name s.dev = (.ok n, s'.dev) ∧
      s'.held = s.held ++ [n]
  | .create i name isDir, s' =>
    ∃ dir km n dir', Asked s i name dir ∧
      create fs km dir name isDir s.dev = (.ok n, s'.dev, dir') ∧
      s'.held = s.held.set i dir' ++ [n]
  | .unlink i name, s' =>
    ∃ dir dir', Asked s i name dir ∧ unlink fs dir name s.dev = (.ok (), s'.dev, dir') ∧
      s'.held = s.held.set i dir'
  | .destroy i, s' => s'.dev = s.dev ∧ s'.held = s.held.eraseIdx i

/-- The device without faults to come. -/
def quiet (d : Dev) : Dev := { d with faults := [] }

/-! ## The layout -/

/-- The regions of metadata, each as its first block and the number of its blocks: the
superblock, the descriptor table, and the bitmaps and the inode table of every group. -/
def regions (fs : E2Fs) : List (ℕ × ℕ) :=
  (1, 1) :: (2, gdtBlocks fs.ngroups) :: (List.range fs.ngroups).flatMap fun g =>
    [((fs.grp g).bbmap, 1), ((fs.grp g).ibmap, 1), ((fs.grp g).itable, itableBlocks)]

def Covers (r : ℕ × ℕ) (b : ℕ) : Prop := r.1 ≤ b ∧ b < r.1 + r.2

def InMeta (fs : E2Fs) (b : ℕ) : Prop := ∃ r ∈ regions fs, Covers r b

/-- What is known of the volume `m` that `ext2_mount` finds on `d`, and of its root directory,
when the geometry `fs` was written: the same geometry, bitmaps that mark the metadata, the
block of the root directory and what lies past the end, and no allocation of any of these. -/
structure MountLaw (fs : E2Fs) (d : Dev) (m : E2Fs) (root : Inode) : Prop where
  blocksCount : m.blocksCount = fs.blocksCount
  ngroups : m.ngroups = fs.ngroups
  grp : ∀ g < fs.ngroups, m.grp g = fs.grp g
  bitmaps : ∀ b, 0 < b → b ≤ fs.ngroups * E2_BPG →
    (Used m d b ↔ InMeta fs b ∨ b = root.blk 0 ∨ fs.blocksCount ≤ b)
  alloc : ∀ ops s, Run (VolStep m) ⟨d, [root]⟩ ops s → ∀ b d', balloc m s.dev = (.ok b, d') →
    ¬ InMeta fs b ∧ b < fs.blocksCount

/-- The layout that `ext2_mkfs` has written to `d`, which has become `d'`. -/
structure LayoutLaw (fs : E2Fs) (d d' : Dev) : Prop where
  inside : ∀ r ∈ regions fs, 0 < r.1 ∧ r.1 + r.2 ≤ fs.blocksCount
  disjoint : (regions fs).Pairwise fun r s => ∀ b, Covers r b → ¬ Covers s b
  volume : fs.blocksCount * E2_SECT_PER_BLK ≤ d.nsect
  beyond : ∀ i, d.nsect * BLK_SECTOR_SIZE ≤ i → d'.data i = d.data i
  mounts : ∃ m root, mount allMem (quiet d') = (.ok (m, root), quiet d') ∧
    MountLaw fs (quiet d') m root

/-! ## Inode numbers -/

/-- What `ialloc` hands out is no reserved inode, and `ifree` takes it back and leaves the inode
bitmaps as they were. -/
def AllocLaw (fs : E2Fs) (d : Dev) : Prop :=
  ∀ ino d', ialloc fs d = (.ok ino, d') → E2_FIRST_INO ≤ ino ∧
    ∃ d'', ifree fs ino (quiet d') = (.ok (), d'') ∧ ∀ g < fs.ngroups, ∀ i < E2_BSIZE,
      blkView d'' (fs.grp g).ibmap i = blkView d (fs.grp g).ibmap i

/-- `ext2_unlink` of the file `n` that is `name` in `dir`: it succeeds, the name is gone, and the
inode and its blocks are free. -/
def UnlinkLaw (fs : E2Fs) (dir : Inode) (name : List UInt8) (n : Inode) (d : Dev) : Prop :=
  ∃ d' dir', unlink fs dir name (quiet d) = (.ok (), d', dir') ∧
    (dirFind fs dir' name d').1.toOption = some none ∧
    bmTest (blkView d' (fs.grp ((n.ino - 1) / E2_IPG)).ibmap) ((n.ino - 1) % E2_IPG) = false ∧
    ∀ b ∈ inodeBlocks d n, ¬ Used fs d' b

/-- The volume has at most 16 groups, and the last one has room for its metadata. -/
def Fits (blocks : ℕ) : Prop :=
  groupsOf blocks ≤ E2_NGROUP_MAX ∧
    ((blocks - 1) % E2_BPG = 0 ∨ 2 + itableBlocks ≤ (blocks - 1) % E2_BPG)

instance (blocks : ℕ) : Decidable (Fits blocks) := inferInstanceAs (Decidable (_ ∧ _))

/-! ## The directory tree -/

/-- Whether an inode is live: the root, or one that `ialloc` has handed out. -/
def Live (fs : E2Fs) (d : Dev) (ino : ℕ) : Bool :=
  ino = E2_ROOT_INO ∨ (E2_FIRST_INO ≤ ino ∧
    bmTest (blkView d (fs.grp ((ino - 1) / E2_IPG)).ibmap) ((ino - 1) % E2_IPG))

/-- The live inodes, as `inode_load` reads them. -/
def liveInodes (fs : E2Fs) (d : Dev) : List Inode :=
  (List.range (fs.ngroups * E2_IPG + 1)).filterMap fun ino =>
    if Live fs d ino then (inodeLoad fs ino (quiet d)).1.toOption else none

def liveDirs (fs : E2Fs) (d : Dev) : List Inode := (liveInodes fs d).filter Inode.isDir

/-- The entries of a directory from offset `doff` on, in the order of `dir_find`, each with its
offset. -/
def entriesFrom (fs : E2Fs) (d : Dev) (dir : Inode) : ℕ → ℕ → List (ℕ × Dirent)
  | 0, _ => []
  | fuel + 1, doff =>
    if doff < dir.size then
      match (dirEntAt fs dir doff (quiet d)).1 with
      | .error _ => []
      | .ok (rl, ent) =>
        if ent.ino ≠ 0 then (doff, ent) :: entriesFrom fs d dir fuel (doff + rl)
        else entriesFrom fs d dir fuel (doff + rl)
    else []

def entries (fs : E2Fs) (d : Dev) (dir : Inode) : List (ℕ × Dirent) :=
  entriesFrom fs d dir dir.size 0

/-- An entry for a child, not `.` or `..`. -/
def isChild (e : Dirent) : Bool := strEq e.name dot = false ∧ strEq e.name dotdot = false

/-- Inode `p` is the directory that contains inode `c`; the root contains itself. -/
def Contains (fs : E2Fs) (d : Dev) (p c : ℕ) : Prop :=
  if c = E2_ROOT_INO then p = E2_ROOT_INO
  else ∃ m ∈ liveDirs fs d, m.ino = p ∧ ∃ x ∈ entries fs d m, isChild x.2 ∧ x.2.ino = c

/-- The directory tree: the first block of every directory names the directory and the one
that contains it, and the link counts say how many subdirectories a directory has and how
many entries name an inode. -/
structure TreeLaw (fs : E2Fs) (d : Dev) : Prop where
  self : ∀ n ∈ liveDirs fs d, ∃ x ∈ entries fs d n,
    x.1 < E2_BSIZE ∧ strEq x.2.name dot = true ∧ x.2.ino = n.ino
  up : ∀ n ∈ liveDirs fs d, ∃ x ∈ entries fs d n,
    x.1 < E2_BSIZE ∧ strEq x.2.name dotdot = true ∧ Contains fs d x.2.ino n.ino
  subdirs : ∀ n ∈ liveDirs fs d, n.links = 2 + (entries fs d n).countP fun x =>
    isChild x.2 && (liveDirs fs d).any fun m => m.ino = x.2.ino
  links : ∀ n ∈ liveInodes fs d,
    n.links = ((liveDirs fs d).flatMap (entries fs d)).countP fun x => x.2.ino = n.ino

end Ext2
end MobilePhoneOs.Fs
