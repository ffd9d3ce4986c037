import MobilePhoneOs.Fs.Ext2Mkfs
import MobilePhoneOs.Lib.Checked

/-!
# The arrays of the ext2 driver (`fs/ext2.c`)

The functions that read directories and inodes again, with the places where they index the
block buffer, the sector buffer, the inode and its buffer, and the group descriptors. A loop
over the records of a directory that has run out of fuel does not end.
-/

namespace MobilePhoneOs.Fs
namespace Ext2
namespace Checked

open Mem Prog

/-- `VFS_NAME_MAX` -/
def VFS_NAME_MAX : ℕ := 64

/-- `bb[E2_BSIZE]`, also `ib` and `bm` -/
def block (index len : ℕ) : Access := ⟨E2_BSIZE, index, len⟩

/-- `sec[512]` -/
def sector (index len : ℕ) : Access := ⟨BLK_SECTOR_SIZE, index, len⟩

/-- `raw[E2_INODE_SIZE]` -/
def raw (index len : ℕ) : Access := ⟨E2_INODE_SIZE, index, len⟩

/-- `fs->grp[E2_NGROUP_MAX]` -/
def grp (g : ℕ) : Access := ⟨E2_NGROUP_MAX, g, 1⟩

/-! ## Inodes -/

/-- `(ino - 1) / E2_IPG`, in 32 bits. -/
def inoGroup (ino : ℕ) : ℕ := (ino + 2 ^ 32 - 1) % 2 ^ 32 / E2_IPG

/-- What `inode_gather` and `inode_scatter` copy. -/
def recordAccesses (fs : E2Fs) (ino : ℕ) : List Access :=
  let off := inodeOff fs ino % 512
  if off + E2_INODE_SIZE ≤ 512 then [sector off E2_INODE_SIZE, raw 0 E2_INODE_SIZE]
  else
    let head := 512 - off
    [sector off head, raw 0 head, sector 0 (E2_INODE_SIZE - head), raw head (E2_INODE_SIZE - head)]

/-- `inode_gather` -/
def inodeGather (fs : E2Fs) (ino : ℕ) : Prog (Stop Errno) Dev (ℕ → UInt8) := do
  ofExcept (access [grp (inoGroup ino)])
  ofExcept (access (recordAccesses fs ino))
  lift (Ext2.inodeGather fs ino)

/-- The fields of a record. -/
def fieldAccesses : List Access :=
  [raw 0 2, raw 4 4, raw 26 2, raw 28 4] ++ (List.range 15).map fun i => raw (40 + i * 4) 4

/-- `inode_load` -/
def inodeLoad (fs : E2Fs) (ino : ℕ) : Prog (Stop Errno) Dev Inode := do
  let bytes ← inodeGather fs ino
  ofExcept (access fieldAccesses)
  pure (inodeParse ino bytes)

/-- What `inode_store` indexes. -/
def storeAccesses (fs : E2Fs) (ino : ℕ) : List Access :=
  fieldAccesses ++ grp (inoGroup ino) :: recordAccesses fs ino

/-! ## The block map -/

/-- The slots of the pointer blocks on the way to a block, below a root of level `n + 1`. -/
def slots : ℕ → ℕ → List ℕ
  | 0, _ => []
  | n + 1, idx => idx / stride (n + 2) :: slots n (idx % stride (n + 2))

/-- What `bmap` indexes without an allocation, also where it stops before: a root of the inode
and a pointer for each level. -/
def walkAccesses (fb : ℕ) : List Access :=
  ⟨15, (place fb).root, 1⟩ ::
    (slots ((place fb).level - 1) (place fb).idx).map fun s => block (s * 4) 4

/-- What `balloc` may index. -/
def ballocAccesses (fs : E2Fs) : List Access :=
  (List.range fs.ngroups).map grp ++ (List.range E2_BPG).map fun rel => block (rel >>> 3) 1

/-- A call of `bmap`: the block, and the inode as it is then. -/
def bmapRun (fs : E2Fs) (n : Inode) (fb : ℕ) (alloc : Bool) : Prog Errno Dev (ℕ × Inode) := fun d =>
  match bmap fs n fb alloc d with
  | (.ok ab, d, n) => (.ok (ab, n), d)
  | (.error e, d, _) => (.error e, d)

/-- `bmap` for a lookup. -/
def bmapFind (fs : E2Fs) (n : Inode) (fb : ℕ) : Prog (Stop Errno) Dev ℕ := do
  ofExcept (access (walkAccesses fb))
  let x ← lift (bmapRun fs n fb false)
  pure x.1

/-- `bmap` with `alloc` set. -/
def bmapAlloc (fs : E2Fs) (n : Inode) (fb : ℕ) : Prog (Stop Errno) Dev (ℕ × Inode) := do
  ofExcept (access (walkAccesses fb ++ ballocAccesses fs ++ storeAccesses fs n.ino))
  lift (bmapRun fs n fb true)

/-- `blk_read` -/
def getBlock (ab : ℕ) : Prog Errno Dev (ℕ → UInt8) := fun d => blkRead d ab

/-! ## Scans -/

/-- The record of a block at `off`, as `dir_ent_at` reads it: the length first, then the rest. -/
def recordAt (bb : ℕ → UInt8) (off : ℕ) : Except (Stop Errno) (ℕ × Dirent) := do
  access [block (off + 4) 2]
  let recLen := load bb (off + 4) 2
  if recLen < 8 ∨ off % 4 ≠ 0 ∨ off + recLen > E2_BSIZE then .error (.err .eio)
  else do
    access [block off 4, block (off + 7) 1, block (off + 6) 1,
      block (off + 8) (load bb (off + 6) 1)]
    .ok (recLen, direntOf bb off)

/-- `dir_ent_at` -/
def dirEntAt (fs : E2Fs) (dir : Inode) (doff : ℕ) : Prog (Stop Errno) Dev (ℕ × Dirent) := do
  let ab ← bmapFind fs dir (doff / E2_BSIZE % 2 ^ 32)
  if ab = 0 then fail (.err .eio)
  else do
    let bb ← lift (getBlock ab)
    ofExcept (recordAt bb (doff % E2_BSIZE))

/-- A scan of a directory: what it starts with, what it does with an entry (it goes on or
answers), and what it answers at the end. -/
structure Scan (β α : Type) where
  start : β
  visit : β → ℕ → Dirent → β ⊕ α
  finish : β → α

variable {α β : Type}

/-- The loop of a scan from `doff` on. -/
def scanFrom (fs : E2Fs) (dir : Inode) (v : Scan β α) : ℕ → ℕ → β → Prog (Stop Errno) Dev α
  | 0, doff, b => if doff < dir.size then fail .spin else pure (v.finish b)
  | fuel + 1, doff, b =>
    if doff < dir.size then do
      let x ← dirEntAt fs dir doff
      match v.visit b doff x.2 with
      | .inl b => scanFrom fs dir v fuel (doff + x.1) b
      | .inr a => pure a
    else pure (v.finish b)

/-- A scan of the whole directory. A record has 8 bytes at least, so that `size` rounds are
enough. -/
def scan (fs : E2Fs) (dir : Inode) (v : Scan β α) : Prog (Stop Errno) Dev α :=
  scanFrom fs dir v dir.size 0 v.start

/-- The scan of `dir_find`. -/
def findScan (name : List UInt8) : Scan Unit (Option (ℕ × Dirent)) where
  start := ()
  visit _ doff ent :=
    if ent.ino ≠ 0 ∧ strEq ent.name name then .inr (some (doff, ent)) else .inl ()
  finish _ := none

/-- The scan of `ext2_readdir`, which counts the entries it has seen. -/
def readdirScan (idx : ℕ) : Scan ℕ (Option Dirent) where
  start := 0
  visit seen _ ent :=
    if ent.ino = 0 then .inl seen
    else if strEq ent.name dot ∨ strEq ent.name dotdot then .inl seen
    else if seen = idx then .inr (some ent)
    else .inl (seen + 1)
  finish _ := none

/-- The scan of `dir_is_empty`. -/
def emptyScan : Scan Unit Bool where
  start := ()
  visit _ _ ent :=
    if ent.ino ≠ 0 ∧ strEq ent.name dot = false ∧ strEq ent.name dotdot = false then .inr false
    else .inl ()
  finish _ := true

/-- `dir_find` -/
def dirFind (fs : E2Fs) (dir : Inode) (name : List UInt8) :
    Prog (Stop Errno) Dev (Option (ℕ × Dirent)) := scan fs dir (findScan name)

/-- `dir_is_empty`; what cannot be read counts as empty. -/
def dirIsEmpty (fs : E2Fs) (dir : Inode) : Prog (Stop Errno) Dev Bool :=
  rescue (scan fs dir emptyScan) true

/-- `ext2_lookup` -/
def lookup (fs : E2Fs) (km : Kmem) (dir : Inode) (name : List UInt8) :
    Prog (Stop Errno) Dev Inode :=
  if name = [] then fail (.err .enoent)
  else do
    match ← dirFind fs dir name with
    | none => fail (.err .enoent)
    | some x =>
      if km.inode = false then fail (.err .enomem)
      else do
        let n ← inodeLoad fs x.2.ino
        if km.shell = false then fail (.err .enomem) else pure n

/-- `ext2_readdir`: the name, cut to the caller's buffer, and whether it is a directory's. -/
def readdir (fs : E2Fs) (dir : Inode) (idx : ℕ) : Prog (Stop Errno) Dev (List UInt8 × Bool) := do
  match ← scan fs dir (readdirScan idx) with
  | none => fail (.err .enoent)
  | some ent =>
    pure ((ent.name.takeWhile (· ≠ 0)).take (VFS_NAME_MAX - 1), ent.ftype = E2_FT_DIR)

/-! ## Entries that are added and removed -/

/-- The loop of `dir_add_entry` over one block. -/
def roomScan (bb : ℕ → UInt8) (need : ℕ) : ℕ → ℕ → Except (Stop Errno) (Option ℕ)
  | 0, off => if off < E2_BSIZE then .error .spin else .ok none
  | fuel + 1, off =>
    if off < E2_BSIZE then do
      access [block (off + 4) 2, block (off + 6) 1]
      let rl := load bb (off + 4) 2
      let minLen := recNeed (load bb (off + 6) 1)
      if rl < 8 ∨ off + rl > E2_BSIZE then .error (.err .eio)
      else do
        access [block off 4]
        if load bb off 4 ≠ 0 then
          if rl ≥ minLen + need then .ok (some off) else roomScan bb need fuel (off + rl)
        else if rl ≥ need then .ok (some off) else roomScan bb need fuel (off + rl)
    else .ok none

/-- The loop of `dir_add_entry` over `n` blocks from `bi` on. -/
def dirRoom (fs : E2Fs) (dir : Inode) (need : ℕ) :
    ℕ → ℕ → Prog (Stop Errno) Dev (Option (ℕ × (ℕ → UInt8) × ℕ))
  | 0, _ => pure none
  | n + 1, bi => do
    let ab ← bmapFind fs dir bi
    if ab = 0 then dirRoom fs dir need n (bi + 1)
    else do
      let bb ← lift (getBlock ab)
      match ← ofExcept (roomScan bb need E2_BSIZE 0) with
      | some off => pure (some (ab, bb, off))
      | none => dirRoom fs dir need n (bi + 1)

/-- The record at `off` is filled in, its length too when it is new. -/
def entAccesses (off nlen : ℕ) : List Access :=
  [block off 4, block (off + 4) 2, block (off + 6) 1, block (off + 7) 1, block (off + 8) nlen]

/-- `dir_add_entry` -/
def dirAddEntry (fs : E2Fs) (dir : Inode) (ino : ℕ) (name : List UInt8) (ftype : ℕ) :
    Prog (Stop Errno) Dev Unit := do
  let nblocks := dir.size / E2_BSIZE
  match ← dirRoom fs dir (recNeed name.length) nblocks 0 with
  | some (ab, bb, off) =>
    if load bb off 4 ≠ 0 then do
      ofExcept (access (block off 2 ::
        entAccesses (off + recNeed (load bb (off + 6) 1)) name.length))
      lift (putBlock ab (splitPut bb off ino name ftype))
    else do
      ofExcept (access (entAccesses off name.length))
      lift (putBlock ab (entPut bb off ino name ftype))
  | none => do
    let (ab, dir) ← bmapAlloc fs dir nblocks
    ofExcept (access (entAccesses 0 name.length))
    lift (putBlock ab (freshBlock ino name ftype))
    ofExcept (access (storeAccesses fs dir.ino))
    lift (inodeStore fs { dir with size := dir.size + E2_BSIZE })

/-- The walk of `dir_remove_entry` to the record in front of `inBlock`. -/
def prevScan (bb : ℕ → UInt8) (inBlock : ℕ) : ℕ → ℕ → Except (Stop Errno) ℕ
  | 0, off => .error (if off < inBlock then .spin else .err .eio)
  | fuel + 1, off =>
    if off < inBlock then do
      access [block (off + 4) 2]
      let rl := load bb (off + 4) 2
      if rl < 8 ∨ off + rl > E2_BSIZE then .error (.err .eio)
      else if off + rl = inBlock then do
        access [block off 2]
        .ok off
      else prevScan bb inBlock fuel (off + rl)
    else .error (.err .eio)

/-- `dir_remove_entry` -/
def dirRemoveEntry (fs : E2Fs) (dir : Inode) (doff : ℕ) : Prog (Stop Errno) Dev Unit := do
  let inBlock := doff % E2_BSIZE
  let ab ← bmapFind fs dir (doff / E2_BSIZE % 2 ^ 32)
  if ab = 0 then fail (.err .eio)
  else do
    let bb ← lift (getBlock ab)
    ofExcept (access [block (inBlock + 4) 2])
    let victimRl := load bb (inBlock + 4) 2
    if inBlock = 0 then do
      ofExcept (access [block 0 4])
      lift (putBlock ab (put bb 0 4 0))
    else do
      let off ← ofExcept (prevScan bb inBlock E2_BSIZE 0)
      lift (putBlock ab (put bb off 2 (load bb (off + 4) 2 + victimRl)))

/-! ## Calls -/

/-- An inode that `inode_load` has loaded from inside the descriptors. -/
structure Opened where
  inode : Inode
  group : inoGroup inode.ino < E2_NGROUP_MAX

/-- The calls, each with what its callers see to: names of at most 254 bytes are added, and what
is removed was found by `dir_find`, at a record that ends inside its block. -/
inductive Call
  | load (ino : ℕ)
  | lookup (km : Kmem) (dir : Inode) (name : List UInt8)
  | readdir (dir : Inode) (idx : ℕ)
  | isEmpty (dir : Inode)
  | add (dir : Opened) (ino : ℕ) (name : List UInt8) (ftype : ℕ) (hname : name.length < 255)
  | remove (dir : Inode) (doff : ℕ) (hdoff : doff % E2_BSIZE + 8 ≤ E2_BSIZE)

def Call.run (fs : E2Fs) : Call → Prog (Stop Errno) Dev Unit
  | .load ino => do let _ ← inodeLoad fs ino
  | .lookup km dir name => do let _ ← Checked.lookup fs km dir name
  | .readdir dir idx => do let _ ← Checked.readdir fs dir idx
  | .isEmpty dir => do let _ ← dirIsEmpty fs dir
  | .add dir ino name ftype _ => dirAddEntry fs dir.inode ino name ftype
  | .remove dir doff _ => dirRemoveEntry fs dir doff

/-! ## Contents that keep the driver inside -/

/-- Logical block `k` of a directory on the disk, where it has one that can be read. -/
def blockAt (fs : E2Fs) (d : Dev) (dir : Inode) (k : ℕ) : Option (ℕ → UInt8) :=
  match (bmap fs dir k false (quiet d)).1 with
  | .ok ab => if ab ≠ 0 ∧ ab * E2_SECT_PER_BLK < d.nsect then some (blkView d ab) else none
  | .error _ => none

/-- Logical block `k` of a directory is a hole. -/
def HoleAt (fs : E2Fs) (d : Dev) (dir : Inode) (k : ℕ) : Prop :=
  (bmap fs dir k false (quiet d)).1.toOption = some 0

/-- The length of the record at `off` is one that `dir_ent_at` takes. -/
def HeaderOk (bb : ℕ → UInt8) (off : ℕ) : Prop :=
  8 ≤ load bb (off + 4) 2 ∧ off % 4 = 0 ∧ off + load bb (off + 4) 2 ≤ E2_BSIZE

instance (bb : ℕ → UInt8) (off : ℕ) : Decidable (HeaderOk bb off) :=
  inferInstanceAs (Decidable (_ ∧ _))

/-- The length of the record at `off` is in the block and, where it is taken, so is the name. -/
def RecordFits (bb : ℕ → UInt8) (off : ℕ) : Prop :=
  off + 6 ≤ E2_BSIZE ∧ (HeaderOk bb off → off + 8 + load bb (off + 6) 1 ≤ E2_BSIZE)

instance (bb : ℕ → UInt8) (off : ℕ) : Decidable (RecordFits bb off) :=
  inferInstanceAs (Decidable (_ ∧ (_ → _)))

/-- The records that a scan comes to when it follows the lengths on the disk. -/
inductive Visits (fs : E2Fs) (d : Dev) (dir : Inode) (v : Scan β α) : ℕ → β → Prop
  | start : Visits fs d dir v 0 v.start
  | next {doff : ℕ} {b b' : β} {bb : ℕ → UInt8} (h : Visits fs d dir v doff b)
      (hdoff : doff < dir.size) (hblock : blockAt fs d dir (doff / E2_BSIZE % 2 ^ 32) = some bb)
      (hhead : HeaderOk bb (doff % E2_BSIZE))
      (hvisit : v.visit b doff (direntOf bb (doff % E2_BSIZE)) = .inl b') :
      Visits fs d dir v (doff + load bb (doff % E2_BSIZE + 4) 2) b'

/-- Every record that the scan comes to fits in its block. -/
def ScanFits (fs : E2Fs) (d : Dev) (dir : Inode) (v : Scan β α) : Prop :=
  ∀ doff b bb, Visits fs d dir v doff b → doff < dir.size →
    blockAt fs d dir (doff / E2_BSIZE % 2 ^ 32) = some bb → RecordFits bb (doff % E2_BSIZE)

/-- The scan ends at a record that gives the answer `a`. -/
def Hits (fs : E2Fs) (d : Dev) (dir : Inode) (v : Scan β α) (a : α) : Prop :=
  ∃ doff b bb, Visits fs d dir v doff b ∧ doff < dir.size ∧
    blockAt fs d dir (doff / E2_BSIZE % 2 ^ 32) = some bb ∧ HeaderOk bb (doff % E2_BSIZE) ∧
    v.visit b doff (direntOf bb (doff % E2_BSIZE)) = .inr a

/-- The record at `off` has room for `need` bytes more. -/
def HasRoom (bb : ℕ → UInt8) (need off : ℕ) : Prop :=
  (if load bb off 4 ≠ 0 then recNeed (load bb (off + 6) 1) + need else need) ≤ load bb (off + 4) 2

instance (bb : ℕ → UInt8) (need off : ℕ) : Decidable (HasRoom bb need off) :=
  inferInstanceAs (Decidable (_ ≤ _))

/-- The offsets that the search for room comes to in one block. -/
inductive Walks (bb : ℕ → UInt8) (need : ℕ) : ℕ → Prop
  | start : Walks bb need 0
  | next {off : ℕ} (h : Walks bb need off) (hoff : off < E2_BSIZE)
      (hlen : 8 ≤ load bb (off + 4) 2 ∧ off + load bb (off + 4) 2 ≤ E2_BSIZE)
      (hroom : ¬ HasRoom bb need off) : Walks bb need (off + load bb (off + 4) 2)

/-- The blocks that the search for room comes to: those in front are holes or full. -/
inductive Tries (fs : E2Fs) (d : Dev) (dir : Inode) (need : ℕ) : ℕ → Prop
  | start : Tries fs d dir need 0
  | hole {bi : ℕ} (h : Tries fs d dir need bi) (hhole : HoleAt fs d dir bi) :
      Tries fs d dir need (bi + 1)
  | full {bi : ℕ} {bb : ℕ → UInt8} (h : Tries fs d dir need bi)
      (hblock : blockAt fs d dir bi = some bb) (hfull : Walks bb need E2_BSIZE) :
      Tries fs d dir need (bi + 1)

/-- Every record that the search comes to has its length and the length of its name in the
block. -/
def RoomFits (fs : E2Fs) (d : Dev) (dir : Inode) (need : ℕ) : Prop :=
  ∀ bi bb off, Tries fs d dir need bi → bi < dir.size / E2_BSIZE → blockAt fs d dir bi = some bb →
    Walks bb need off → off < E2_BSIZE → off + 7 ≤ E2_BSIZE

/-- The contents of the disk on which a call stays inside its arrays. -/
def Call.Fits (fs : E2Fs) (d : Dev) : Call → Prop
  | .load ino => inoGroup ino < E2_NGROUP_MAX
  | .lookup km dir name => name ≠ [] → ScanFits fs d dir (findScan name) ∧
      (km.inode = true → ∀ x, Hits fs d dir (findScan name) (some x) →
        inoGroup x.2.ino < E2_NGROUP_MAX)
  | .readdir dir idx => ScanFits fs d dir (readdirScan idx)
  | .isEmpty dir => ScanFits fs d dir emptyScan
  | .add dir _ name _ _ => RoomFits fs d dir.inode (recNeed name.length)
  | .remove _ _ _ => True

end Checked
end Ext2
end MobilePhoneOs.Fs
