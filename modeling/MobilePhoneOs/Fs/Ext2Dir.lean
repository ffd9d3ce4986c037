import MobilePhoneOs.Fs.Ext2

/-!
# ext2 directories (`fs/ext2.c`)

A directory block is a chain of records; a record carries its own length, and inode number
0 marks a tombstone. Names are C strings without their terminator.
-/

namespace MobilePhoneOs.Fs
namespace Ext2

open Mem

/-- `struct e2_dirent` -/
structure Dirent where
  ino : ℕ
  ftype : ℕ
  name : List UInt8
deriving DecidableEq, Repr

/-- `strcmp(raw, name) == 0` for a buffer that starts with the bytes `raw` and a 0. -/
def strEq (raw name : List UInt8) : Bool := raw.takeWhile (· ≠ 0) = name

/-- The record at an offset of a block, as `dir_ent_at` reads it. -/
def direntOf (bb : ℕ → UInt8) (doff : ℕ) : Dirent :=
  ⟨load bb doff 4, load bb (doff + 7) 1, slice bb (doff + 8) (load bb (doff + 6) 1)⟩

/-- `dir_ent_at`: the length of the record at `doff` and its body. -/
def dirEntAt (fs : E2Fs) (dir : Inode) (doff : ℕ) (d : Dev) : Except Errno (ℕ × Dirent) × Dev :=
  let inBlock := doff % E2_BSIZE
  match bmap fs dir (doff / E2_BSIZE % 2 ^ 32) false d with
  | (.error e, d, _) => (.error e, d)
  | (.ok ab, d, _) =>
    if ab = 0 then (.error .eio, d)
    else
      match blkRead d ab with
      | (.error e, d) => (.error e, d)
      | (.ok bb, d) =>
        let recLen := load bb (inBlock + 4) 2
        if recLen < 8 ∨ inBlock % 4 ≠ 0 ∨ inBlock + recLen > E2_BSIZE then (.error .eio, d)
        else
          let nl := load bb (inBlock + 6) 1
          (.ok (recLen, ⟨load bb inBlock 4, load bb (inBlock + 7) 1, slice bb (inBlock + 8) nl⟩), d)

/-- The loop of `dir_find` from `doff` on; `fuel` bounds the records. -/
def dirFindFrom (fs : E2Fs) (dir : Inode) (name : List UInt8) :
    ℕ → ℕ → Dev → Except Errno (Option (ℕ × Dirent)) × Dev
  | 0, _, d => (.ok none, d)
  | fuel + 1, doff, d =>
    if doff < dir.size then
      match dirEntAt fs dir doff d with
      | (.error e, d) => (.error e, d)
      | (.ok (rl, ent), d) =>
        if ent.ino ≠ 0 ∧ strEq ent.name name then (.ok (some (doff, ent)), d)
        else dirFindFrom fs dir name fuel (doff + rl) d
    else (.ok none, d)

/-- `dir_find`. A record has 8 bytes at least, so `size` records are enough. -/
def dirFind (fs : E2Fs) (dir : Inode) (name : List UInt8) (d : Dev) :
    Except Errno (Option (ℕ × Dirent)) × Dev := dirFindFrom fs dir name dir.size 0 d

/-- The bytes that a record with a name of `nlen` bytes needs. -/
def recNeed (nlen : ℕ) : ℕ := (8 + nlen + 3) / 4 * 4

/-- The loop of `dir_add_entry` over one block: the first record with room, a live one with
slack or a tombstone. -/
def roomScan (bb : ℕ → UInt8) (need : ℕ) : ℕ → ℕ → Except Errno (Option ℕ)
  | 0, _ => .ok none
  | fuel + 1, off =>
    if off < E2_BSIZE then
      let rl := load bb (off + 4) 2
      let minLen := recNeed (load bb (off + 6) 1)
      if rl < 8 ∨ off + rl > E2_BSIZE then .error .eio
      else if load bb off 4 ≠ 0 then
        if rl ≥ minLen + need then .ok (some off) else roomScan bb need fuel (off + rl)
      else if rl ≥ need then .ok (some off) else roomScan bb need fuel (off + rl)
    else .ok none

/-- The loop of `dir_add_entry` over `n` blocks from `bi` on: the block, its contents and the
offset of the record with room. -/
def dirRoom (fs : E2Fs) (dir : Inode) (need : ℕ) :
    ℕ → ℕ → Dev → Except Errno (Option (ℕ × (ℕ → UInt8) × ℕ)) × Dev
  | 0, _, d => (.ok none, d)
  | n + 1, bi, d =>
    match bmap fs dir bi false d with
    | (.error e, d, _) => (.error e, d)
    | (.ok ab, d, _) =>
      if ab = 0 then dirRoom fs dir need n (bi + 1) d
      else
        match blkRead d ab with
        | (.error e, d) => (.error e, d)
        | (.ok bb, d) =>
          match roomScan bb need E2_BSIZE 0 with
          | .error e => (.error e, d)
          | .ok (some off) => (.ok (some (ab, bb, off)), d)
          | .ok none => dirRoom fs dir need n (bi + 1) d

/-- Inode number, name and type of a record; its length stays. -/
def entPut (bb : ℕ → UInt8) (off ino : ℕ) (name : List UInt8) (ftype : ℕ) : ℕ → UInt8 :=
  store (put (put (put bb off 4 ino) (off + 6) 1 name.length) (off + 7) 1 ftype) (off + 8) name

/-- A live record gives its slack to a new one. -/
def splitPut (bb : ℕ → UInt8) (off ino : ℕ) (name : List UInt8) (ftype : ℕ) : ℕ → UInt8 :=
  let rl := load bb (off + 4) 2
  let minLen := recNeed (load bb (off + 6) 1)
  let noff := off + minLen
  let bb := put bb off 2 minLen
  let bb := put bb noff 4 ino
  let bb := put bb (noff + 4) 2 (rl - minLen)
  let bb := put bb (noff + 6) 1 name.length
  let bb := put bb (noff + 7) 1 ftype
  store bb (noff + 8) name

/-- A block with one record that fills it. -/
def freshBlock (ino : ℕ) (name : List UInt8) (ftype : ℕ) : ℕ → UInt8 :=
  entPut (put (fun _ => 0) 4 2 E2_BSIZE) 0 ino name ftype

/-- `dir_add_entry` -/
def dirAddEntry (fs : E2Fs) (dir : Inode) (ino : ℕ) (name : List UInt8) (ftype : ℕ) (d : Dev) :
    Except Errno Unit × Dev × Inode :=
  let nblocks := dir.size / E2_BSIZE
  match dirRoom fs dir (recNeed name.length) nblocks 0 d with
  | (.error e, d) => (.error e, d, dir)
  | (.ok (some (ab, bb, off)), d) =>
    let bb := if load bb off 4 ≠ 0 then splitPut bb off ino name ftype
      else entPut bb off ino name ftype
    let r := blkWrite d ab bb
    (r.1, r.2, dir)
  | (.ok none, d) =>
    match bmap fs dir nblocks true d with
    | (.error e, d, dir) => (.error e, d, dir)
    | (.ok ab, d, dir) =>
      match blkWrite d ab (freshBlock ino name ftype) with
      | (.error e, d) => (.error e, d, dir)
      | (.ok (), d) =>
        let dir := { dir with size := dir.size + E2_BSIZE }
        let r := inodeStore fs dir d
        (r.1, r.2, dir)

/-- The walk of `dir_remove_entry` to the record in front of `inBlock`. -/
def prevScan (bb : ℕ → UInt8) (inBlock : ℕ) : ℕ → ℕ → Option ℕ
  | 0, _ => none
  | fuel + 1, off =>
    if off < inBlock then
      let rl := load bb (off + 4) 2
      if rl < 8 ∨ off + rl > E2_BSIZE then none
      else if off + rl = inBlock then some off
      else prevScan bb inBlock fuel (off + rl)
    else none

/-- `dir_remove_entry` -/
def dirRemoveEntry (fs : E2Fs) (dir : Inode) (doff : ℕ) (d : Dev) : Except Errno Unit × Dev :=
  let inBlock := doff % E2_BSIZE
  match bmap fs dir (doff / E2_BSIZE % 2 ^ 32) false d with
  | (.error e, d, _) => (.error e, d)
  | (.ok ab, d, _) =>
    if ab = 0 then (.error .eio, d)
    else
      match blkRead d ab with
      | (.error e, d) => (.error e, d)
      | (.ok bb, d) =>
        let victimRl := load bb (inBlock + 4) 2
        if inBlock = 0 then blkWrite d ab (put bb 0 4 0)
        else
          match prevScan bb inBlock E2_BSIZE 0 with
          | some off => blkWrite d ab (put bb off 2 (load bb (off + 4) 2 + victimRl))
          | none => (.error .eio, d)

/-! ## Directories as maps -/

/-- A record of a directory block. -/
structure Rec where
  ino : ℕ
  len : ℕ
  ftype : ℕ
  name : List UInt8

/-- The record stands at offset `off`. Of a tombstone only the length means something. -/
structure IsRec (buf : ℕ → UInt8) (off : ℕ) (r : Rec) : Prop where
  ino : load buf off 4 = r.ino
  len : load buf (off + 4) 2 = r.len
  eight_le : 8 ≤ r.len
  four_dvd : 4 ∣ r.len
  body : r.ino ≠ 0 → load buf (off + 6) 1 = r.name.length ∧ load buf (off + 7) 1 = r.ftype ∧
    slice buf (off + 8) r.name.length = r.name ∧ 8 + r.name.length ≤ r.len ∧ 0 ∉ r.name

/-- The records stand one behind the other from `off` to `stop`. -/
def Tiles (buf : ℕ → UInt8) : ℕ → List Rec → ℕ → Prop
  | off, [], stop => off = stop
  | off, r :: rs, stop => IsRec buf off r ∧ Tiles buf (off + r.len) rs stop

/-- The data and pointer blocks below a cell of level `n + 1`. -/
def treeBlocks (d : Dev) : ℕ → ℕ → List ℕ
  | 0, p => if p = 0 then [] else [p]
  | n + 1, p =>
    if p = 0 then []
    else p :: (List.finRange 256).flatMap fun i : Fin 256 =>
      treeBlocks d n (load (blkView d p) (4 * i) 4)

/-- All blocks of an inode. -/
def inodeBlocks (d : Dev) (n : Inode) : List ℕ :=
  (List.finRange 15).flatMap fun r : Fin 15 => treeBlocks d (r - 11) (n.blk r)

/-- A directory that is in use and, as a ghost, the map that it stands for. -/
structure DirSys where
  dev : Dev
  dir : Inode
  map : List UInt8 → Option (ℕ × ℕ)

inductive DirOp
  /-- `create` and `mkdir` -/
  | add (name : List UInt8) (ino ftype : ℕ)
  /-- `unlink` -/
  | remove (name : List UInt8)
  /-- whatever else is written to the volume -/
  | other

/-- The successful operations on one directory. Between them, other parts of the volume may
change: bitmaps, inode tables and the blocks of other files, but no block of the directory. -/
def DirStep (fs : E2Fs) (s : DirSys) : DirOp → DirSys → Prop
  | .add name ino ftype, s' =>
    ∃ d, 0 ∉ name ∧ name.length < 255 ∧ 0 < ino ∧ ino < 2 ^ 32 ∧ ftype < 256 ∧
      dirFind fs s.dir name s.dev = (.ok none, d) ∧
      dirAddEntry fs s.dir ino name ftype d = (.ok (), s'.dev, s'.dir) ∧
      s'.map = Function.update s.map name (some (ino, ftype))
  | .remove name, s' =>
    ∃ doff ent d, 0 ∉ name ∧ name ≠ [46] ∧ name ≠ [46, 46] ∧
      dirFind fs s.dir name s.dev = (.ok (some (doff, ent)), d) ∧
      dirRemoveEntry fs s.dir doff d = (.ok (), s'.dev) ∧ s'.dir = s.dir ∧
      s'.map = Function.update s.map name none
  | .other, s' =>
    VolOk fs s'.dev ∧
      (∀ b ∈ inodeBlocks s.dev s.dir,
        Used fs s'.dev b ∧ ∀ i < E2_BSIZE, blkView s'.dev b i = blkView s.dev b i) ∧
      s'.dir = { s.dir with links := s'.dir.links } ∧ s'.map = s.map

/-- The directory law: in every block the records tile the block, and `dir_find` finds the
names of the map, with their inode numbers and types, and no other name. -/
structure DirLaw (fs : E2Fs) (s : DirSys) : Prop where
  tiles : ∀ bi < s.dir.size / E2_BSIZE, ∃ ab rs,
    bmap fs s.dir bi false s.dev = (.ok ab, s.dev, s.dir) ∧ ab ≠ 0 ∧
      Tiles (blkView s.dev ab) 0 rs E2_BSIZE
  hit : ∀ name, 0 ∉ name → ∀ ino ftype, s.map name = some (ino, ftype) →
    ∃ doff, dirFind fs s.dir name s.dev = (.ok (some (doff, ⟨ino, ftype, name⟩)), s.dev)
  miss : ∀ name, 0 ∉ name → s.map name = none → dirFind fs s.dir name s.dev = (.ok none, s.dev)

/-- The steps that keep the law: an entry goes into a tombstone, or into a new block that is
not mapped where another one is, and a record is removed from the start of its block. -/
def DirSound (fs : E2Fs) (s : DirSys) : DirOp → Prop
  | .add name _ _ =>
    match (dirRoom fs s.dir (recNeed name.length) (s.dir.size / E2_BSIZE) 0 s.dev).1 with
    | .ok (some (_, bb, off)) => load bb off 4 = 0
    | _ => s.dir.size / E2_BSIZE ≤ 12
  | .remove name =>
    ∀ doff ent, (dirFind fs s.dir name s.dev).1 = .ok (some (doff, ent)) → doff % E2_BSIZE = 0
  | .other => True

end Ext2
end MobilePhoneOs.Fs
