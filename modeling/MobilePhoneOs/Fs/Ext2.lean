import MobilePhoneOs.Fs.Dev

/-!
# ext2 blocks, bitmaps and the block map (`fs/ext2.c`)

Blocks are 1024 bytes. A buffer is a function from offsets, as the block layer fills it.
A call returns its result together with the device, since what it wrote before an error
stays written; `bmapLevel` also returns the pointer cell it was given, which may have been
filled in by then.
-/

namespace MobilePhoneOs.Fs
namespace Ext2

open Mem

def E2_BSIZE : ℕ := 1024
def E2_SECT_PER_BLK : ℕ := 2
def E2_BPG : ℕ := 8192
def E2_IPG : ℕ := 2048
def E2_INODE_SIZE : ℕ := 128
def E2_NGROUP_MAX : ℕ := 16
def E2_M_DIR : ℕ := 0x4000
def E2_M_PERM : ℕ := 0o755
def E2_MAX_FILE : ℕ := 16 * 1024 * 1024

/-- The pointers of an indirect block. -/
def P : ℕ := E2_BSIZE / 4

/-- `struct e2_grp` -/
structure E2Grp where
  bbmap : ℕ
  ibmap : ℕ
  itable : ℕ

/-- `struct e2_fs` -/
structure E2Fs where
  blocksCount : ℕ
  ngroups : ℕ
  grp : ℕ → E2Grp

/-- `struct e2_inode` -/
structure Inode where
  ino : ℕ
  isDir : Bool
  size : ℕ
  links : ℕ
  blk : ℕ → ℕ

/-! ## Block IO -/

def blkRead (d : Dev) (ab : ℕ) : Except Errno (ℕ → UInt8) × Dev :=
  if ab * E2_SECT_PER_BLK ≥ d.nsect then (.error .eio, d) else d.read (ab * E2_SECT_PER_BLK)

def blkWrite (d : Dev) (ab : ℕ) (buf : ℕ → UInt8) : Except Errno Unit × Dev :=
  if ab * E2_SECT_PER_BLK ≥ d.nsect then (.error .eio, d)
  else d.write (ab * E2_SECT_PER_BLK) E2_SECT_PER_BLK buf

/-- `sect_rw` for reading one sector. -/
def sectRead (d : Dev) (sect : ℕ) : Except Errno (ℕ → UInt8) × Dev :=
  if sect + 1 > d.nsect then (.error .eio, d) else d.read sect

/-- `sect_rw` for writing one sector. -/
def sectWrite (d : Dev) (sect : ℕ) (buf : ℕ → UInt8) : Except Errno Unit × Dev :=
  if sect + 1 > d.nsect then (.error .eio, d) else d.write sect 1 buf

/-! ## Inode persistence -/

/-- The byte offset of an inode record. -/
def inodeOff (fs : E2Fs) (ino : ℕ) : ℕ :=
  (fs.grp ((ino - 1) / E2_IPG)).itable * E2_BSIZE + (ino - 1) % E2_IPG * E2_INODE_SIZE

/-- `inode_scatter` -/
def inodeScatter (fs : E2Fs) (ino : ℕ) (raw : List UInt8) (d : Dev) : Except Errno Unit × Dev :=
  let boff := inodeOff fs ino
  let off := boff % 512
  match sectRead d (boff / 512) with
  | (.error e, d) => (.error e, d)
  | (.ok sec, d) =>
    if off + E2_INODE_SIZE ≤ 512 then sectWrite d (boff / 512) (store sec off raw)
    else
      let head := 512 - off
      match sectWrite d (boff / 512) (store sec off (raw.take head)) with
      | (.error e, d) => (.error e, d)
      | (.ok (), d) =>
        match sectRead d (boff / 512 + 1) with
        | (.error e, d) => (.error e, d)
        | (.ok sec, d) => sectWrite d (boff / 512 + 1) (store sec 0 (raw.drop head))

/-- The 128 bytes of an inode record. -/
def inodeRaw (n : Inode) : List UInt8 :=
  let mode := if n.isDir then E2_M_DIR ||| E2_M_PERM else 0x8000 ||| E2_M_PERM
  let raw : ℕ → UInt8 := fun _ => 0
  let raw := put raw 0 2 mode
  let raw := put raw 4 4 n.size
  let raw := put raw 26 2 n.links
  let raw := put raw 28 4 ((n.size + E2_BSIZE - 1) / E2_BSIZE * E2_SECT_PER_BLK)
  let raw := store raw 40 ((List.range 15).flatMap fun i => leBytes 4 (n.blk i))
  slice raw 0 E2_INODE_SIZE

/-- `inode_store` -/
def inodeStore (fs : E2Fs) (n : Inode) (d : Dev) : Except Errno Unit × Dev :=
  inodeScatter fs n.ino (inodeRaw n) d

/-! ## Bitmaps -/

/-- `bm[rel >> 3] & (1u << (rel & 7))` -/
def bmTest (bm : ℕ → UInt8) (rel : ℕ) : Bool := (bm (rel >>> 3)).toNat &&& 1 <<< (rel &&& 7) ≠ 0

/-- `bm[rel >> 3] |= (uint8_t)(1u << (rel & 7))` -/
def bmSet (bm : ℕ → UInt8) (rel : ℕ) : ℕ → UInt8 :=
  Function.update bm (rel >>> 3)
    (UInt8.ofNat ((bm (rel >>> 3)).toNat ||| 1 <<< (rel &&& 7)))

/-- The inner loop of `balloc`: the first clear bit from `rel` on that names a block of the
volume; `fuel` bounds the bits of a group. -/
def ballocScan (fs : E2Fs) (g : ℕ) (bm : ℕ → UInt8) : ℕ → ℕ → Option ℕ
  | 0, _ => none
  | fuel + 1, rel =>
    if g * E2_BPG + 1 + rel ≥ fs.blocksCount then none
    else if bmTest bm rel = false then some rel
    else ballocScan fs g bm fuel (rel + 1)

/-- The outer loop of `balloc`, over `n` groups from `g` on. -/
def ballocFrom (fs : E2Fs) : ℕ → ℕ → Dev → Except Errno ℕ × Dev
  | 0, _, d => (.error .enospc, d)
  | n + 1, g, d =>
    match blkRead d (fs.grp g).bbmap with
    | (.error e, d) => (.error e, d)
    | (.ok bm, d) =>
      match ballocScan fs g bm E2_BPG 0 with
      | none => ballocFrom fs n (g + 1) d
      | some rel =>
        match blkWrite d (fs.grp g).bbmap (bmSet bm rel) with
        | (.error e, d) => (.error e, d)
        | (.ok (), d) => (.ok (g * E2_BPG + 1 + rel), d)

/-- `balloc` -/
def balloc (fs : E2Fs) (d : Dev) : Except Errno ℕ × Dev := ballocFrom fs fs.ngroups 0 d

/-- `balloc_zero` into the cell `out`. -/
def ballocZero (fs : E2Fs) (d : Dev) (out : ℕ) : Except Errno Unit × Dev × ℕ :=
  match balloc fs d with
  | (.error e, d) => (.error e, d, out)
  | (.ok ab, d) =>
    match blkWrite d ab fun _ => 0 with
    | (.error e, d) => (.error e, d, ab)
    | (.ok (), d) => (.ok (), d, ab)

/-! ## The block map -/

/-- A pointer cell and whether it was filled in. -/
structure Cell where
  ptr : ℕ
  changed : Bool

/-- `stride` of `bmap_level`: `P` multiplied in for `k = 1 .. level - 1`. -/
def stride (level : ℕ) : ℕ := P ^ (level - 1)

/-- The head of `bmap_level`: a missing root is allocated, or is a hole (`false`). -/
def bmapRoot (fs : E2Fs) (alloc : Bool) (d : Dev) (c : Cell) : Except Errno Bool × Dev × Cell :=
  if c.ptr = 0 then
    if alloc = false then (.ok false, d, c)
    else
      match ballocZero fs d c.ptr with
      | (.error e, d, ptr) => (.error e, d, { c with ptr := ptr })
      | (.ok (), d, ptr) => (.ok true, d, ⟨ptr, true⟩)
  else (.ok true, d, c)

/-- `bmap_level` for the level `n + 1`. -/
def bmapLevel (fs : E2Fs) (alloc : Bool) : ℕ → ℕ → Dev → Cell → Except Errno ℕ × Dev × Cell
  | 0, _, d, c =>
    match bmapRoot fs alloc d c with
    | (.error e, d, c) => (.error e, d, c)
    | (.ok false, d, c) => (.ok 0, d, c)
    | (.ok true, d, c) => (.ok c.ptr, d, c)
  | n + 1, idx, d, c =>
    let slot := idx / stride (n + 2)
    match bmapRoot fs alloc d c with
    | (.error e, d, c) => (.error e, d, c)
    | (.ok false, d, c) => (.ok 0, d, c)
    | (.ok true, d, c) =>
      match blkRead d c.ptr with
      | (.error e, d) => (.error e, d, c)
      | (.ok ib, d) =>
        match bmapLevel fs alloc n (idx % stride (n + 2)) d ⟨load ib (slot * 4) 4, false⟩ with
        | (.error e, d, _) => (.error e, d, c)
        | (.ok out, d, child) =>
          if child.changed then
            match blkWrite d c.ptr (put ib (slot * 4) 4 child.ptr) with
            | (.error e, d) => (.error e, d, c)
            | (.ok (), d) => (.ok out, d, c)
          else (.ok out, d, c)

/-- Which root of the inode maps a logical block, at which level, and the index below it. -/
structure Place where
  root : ℕ
  level : ℕ
  idx : ℕ

def place (fb : ℕ) : Place :=
  if fb < 12 then ⟨fb, 1, 0⟩
  else if fb < 12 + P then ⟨12, 2, fb - 12⟩
  else if fb < 12 + P + P * P then ⟨13, 3, fb - 12 - P⟩
  else ⟨14, 4, fb - 12 - P - P * P⟩

/-- `bmap`: the absolute block, 0 for a hole. -/
def bmap (fs : E2Fs) (n : Inode) (fb : ℕ) (alloc : Bool) (d : Dev) :
    Except Errno ℕ × Dev × Inode :=
  if (fb + 1) % 2 ^ 32 * E2_BSIZE > E2_MAX_FILE then (.error .efbig, d, n)
  else
    let p := place fb
    match bmapLevel fs alloc (p.level - 1) p.idx d ⟨n.blk p.root, false⟩ with
    | (.error e, d, c) => (.error e, d, { n with blk := Function.update n.blk p.root c.ptr })
    | (.ok out, d, c) =>
      let n := { n with blk := Function.update n.blk p.root c.ptr }
      if c.changed then
        match inodeStore fs n d with
        | (.error e, d) => (.error e, d, n)
        | (.ok (), d) => (.ok out, d, n)
      else (.ok out, d, n)

/-! ## Volumes and runs -/

/-- The contents of block `b`. -/
def blkView (d : Dev) (b : ℕ) : ℕ → UInt8 := d.view (b * E2_SECT_PER_BLK)

/-- Whether the bitmaps mark block `b` used. -/
def Used (fs : E2Fs) (d : Dev) (b : ℕ) : Prop :=
  bmTest (blkView d (fs.grp ((b - 1) / E2_BPG)).bbmap) ((b - 1) % E2_BPG) = true

/-- A block of the volume. -/
def InVol (fs : E2Fs) (b : ℕ) : Prop := 0 < b ∧ b < fs.blocksCount

/-- A volume in order on a device that does not fail: the geometry that `ext2_mount` checks,
and metadata blocks that are inside the volume, marked used and not shared. -/
structure VolOk (fs : E2Fs) (d : Dev) : Prop where
  noFault : d.faults = []
  size : fs.blocksCount * E2_SECT_PER_BLK ≤ d.nsect
  ngroups : fs.ngroups = (fs.blocksCount - 1 + E2_BPG - 1) / E2_BPG
  ngroups_le : fs.ngroups ≤ E2_NGROUP_MAX
  bbmap : ∀ g < fs.ngroups, InVol fs (fs.grp g).bbmap ∧ Used fs d (fs.grp g).bbmap
  bbmap_inj : ∀ g < fs.ngroups, ∀ g' < fs.ngroups, (fs.grp g).bbmap = (fs.grp g').bbmap → g = g'
  itable : ∀ g < fs.ngroups, ∀ j < E2_IPG / 8,
    InVol fs ((fs.grp g).itable + j) ∧ Used fs d ((fs.grp g).itable + j)
  apart : ∀ g < fs.ngroups, ∀ j < E2_IPG / 8, ∀ g' < fs.ngroups,
    (fs.grp g).itable + j ≠ (fs.grp g').bbmap

/-- The pointer blocks below a cell of level `n + 1`, read from the device. -/
def pointerBlocks (d : Dev) : ℕ → ℕ → List ℕ
  | 0, _ => []
  | n + 1, p =>
    if p = 0 then []
    else p :: (List.finRange 256).flatMap fun i : Fin 256 =>
      pointerBlocks d n (load (blkView d p) (4 * i) 4)

/-- The pointer blocks of an inode. -/
def inodePointers (d : Dev) (n : Inode) : List ℕ :=
  pointerBlocks d 1 (n.blk 12) ++ pointerBlocks d 2 (n.blk 13) ++ pointerBlocks d 3 (n.blk 14)

/-- One file that is being written: the device, the inode, the blocks that were handed out
for logical blocks and, as a ghost, what was last stored in each. -/
structure Sys where
  dev : Dev
  inode : Inode
  given : List (ℕ × ℕ)
  content : ℕ → Option (ℕ → UInt8)

inductive Op
  /-- `bmap` with `alloc` set -/
  | bmap (fb : ℕ) (res : Except Errno ℕ)
  /-- a block of data goes to the block that was handed out -/
  | store (fb ab : ℕ) (buf : ℕ → UInt8)

/-- One call. -/
def Step (fs : E2Fs) (s : Sys) : Op → Sys → Prop
  | .bmap fb res, s' =>
    fb < 12 + P + P * P ∧ (res, s'.dev, s'.inode) = Ext2.bmap fs s.inode fb true s.dev ∧
      s'.given = (match res with | .ok ab => (fb, ab) :: s.given | .error _ => s.given) ∧
      s'.content = s.content
  | .store fb ab buf, s' =>
    (fb, ab) ∈ s.given ∧ (.ok (), s'.dev) = blkWrite s.dev ab buf ∧ s'.inode = s.inode ∧
      s'.given = s.given ∧ s'.content = Function.update s.content fb (some buf)

/-- The block map law: logical blocks have blocks of their own, none of them a pointer block
of the inode; a lookup finds the block that was handed out, and it holds what was last
stored for its logical block. -/
structure Law (fs : E2Fs) (s : Sys) : Prop where
  distinct : ∀ x ∈ s.given, ∀ y ∈ s.given, x.1 ≠ y.1 → x.2 ≠ y.2
  data : ∀ x ∈ s.given, x.2 ∉ inodePointers s.dev s.inode
  again : ∀ x ∈ s.given, Ext2.bmap fs s.inode x.1 false s.dev = (.ok x.2, s.dev, s.inode)
  content : ∀ x ∈ s.given, ∀ buf, s.content x.1 = some buf →
    ∀ i < E2_BSIZE, blkView s.dev x.2 i = buf i

/-- The logical blocks that `bmap` sends to one cell: all of the single indirect range, and
each run of 256 of the double indirect range. -/
def aliasClass (fb : ℕ) : ℕ × ℕ :=
  if fb < 12 then (0, fb) else if fb < 12 + P then (1, 0) else (2, (fb - 12 - P) / P)

/-- No two of the logical blocks handed out fall together. -/
def NoAlias (given : List (ℕ × ℕ)) : Prop :=
  ∀ x ∈ given, ∀ y ∈ given, x.1 ≠ y.1 → aliasClass x.1 ≠ aliasClass y.1

end Ext2
end MobilePhoneOs.Fs
