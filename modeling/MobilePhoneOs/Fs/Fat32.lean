import MobilePhoneOs.Fs.Dev
import MobilePhoneOs.Lib.Prog

/-!
# FAT32 cluster chains and file data (`fs/fat32.c`)

Sectors are 512 bytes. Cluster `c` begins at sector `data_start + (c - 2) * sec_per_clus` of
the partition, and FAT entry `n` is word `n` of every FAT copy. Every call runs under the lock
of the file system, so it is one program over the device and the inode it was given.
-/

namespace MobilePhoneOs.Fs
namespace Fat32

open Mem Prog

def FAT_EOC : ℕ := 0x0FFFFFF8
def FAT_MAX_FILE : ℕ := 8 * 1024 * 1024

/-- How a call ends that does not answer: with an error, or by running forever. -/
inductive Stop
  | errno (e : Errno)
  | hang
deriving DecidableEq, Repr

/-- `struct fat_fs` -/
structure FatFs where
  secPerClus : ℕ
  reserved : ℕ
  nfats : ℕ
  fatsz : ℕ
  rootClus : ℕ
  dataStart : ℕ
  totalClusters : ℕ
deriving DecidableEq, Repr

/-- `struct fat_inode`; `firstClus = 0` is an empty file. -/
structure FatInode where
  firstClus : ℕ
  isDir : Bool
  size : ℕ
  hasDirent : Bool
  deLba : ℕ
  deOff : ℕ
deriving DecidableEq, Repr

/-- `struct fat_cursor` -/
structure Cursor where
  clus : ℕ
  idx : ℕ

/-- An open file: the device, its inode, and the offset and length of every copy and fill that
the calls on it have made in the one-sector staging buffer. -/
structure Handle where
  dev : Dev
  inode : FatInode
  copies : List (ℕ × ℕ)

variable (fs : FatFs)

def clusBytes : ℕ := fs.secPerClus * 512

def clusRelLba (c : ℕ) : ℕ := fs.dataStart + (c - 2) * fs.secPerClus

/-- `sec_read`; what lies behind the 512 bytes of the buffer is left open, as 0. -/
def secRead (lba : ℕ) : Prog Stop Dev (ℕ → UInt8) := fun d =>
  if lba + 1 > d.nsect then (.error (.errno .dev), d)
  else
    match d.read lba with
    | (.ok sec, d) => (.ok fun i => if i < BLK_SECTOR_SIZE then sec i else 0, d)
    | (.error e, d) => (.error (.errno e), d)

def secWrite (lba : ℕ) (sec : ℕ → UInt8) : Prog Stop Dev Unit := fun d =>
  if lba + 1 > d.nsect then (.error (.errno .dev), d)
  else
    match d.write lba 1 sec with
    | (.ok (), d) => (.ok (), d)
    | (.error e, d) => (.error (.errno e), d)

/-! ## FAT chains -/

def fatEntry (n : ℕ) : Prog Stop Dev ℕ :=
  if n < 2 ∨ n ≥ fs.totalClusters + 2 then fail (.errno .eio)
  else do
    let sec ← secRead (fs.reserved + n / 128)
    pure (load sec (n % 128 * 4) 4)

/-- `fat_set_entry`: the sector of the first copy goes to every copy. -/
def fatSetEntry (n val : ℕ) : Prog Stop Dev Unit := do
  let rel := fs.reserved + n / 128
  let sec ← secRead rel
  (List.range fs.nfats).forM fun i => secWrite (rel + i * fs.fatsz) (put sec (n % 128 * 4) 4 val)

def IsEoc (v : ℕ) : Prop := FAT_EOC ≤ v ∧ v ≤ 0x0FFFFFFF

instance (v : ℕ) : Decidable (IsEoc v) := inferInstanceAs (Decidable (_ ∧ _))

/-- The loop of `chain_len` at cluster `c` after `n` clusters. -/
def chainLenFrom : ℕ → ℕ → ℕ → Prog Stop Dev ℕ
  | 0, _, _ => fail .hang
  | fuel + 1, c, n =>
    if c < 2 ∨ IsEoc c then pure n
    else do
      let next ← fatEntry fs c
      if n + 1 > fs.totalClusters then fail (.errno .eio) else chainLenFrom fuel next (n + 1)

/-- `chain_len`; its loop guard stops it after `total_clusters + 1` entries. -/
def chainLen (first : ℕ) : Prog Stop Dev ℕ := chainLenFrom fs (fs.totalClusters + 2) first 0

/-- The loop of `chain_seek`, `k` links further. -/
def seekSteps : ℕ → ℕ → Prog Stop Dev ℕ
  | 0, c => pure c
  | k + 1, c => do
    let next ← fatEntry fs c
    if next = 0 ∨ IsEoc next then fail (.errno .eio) else seekSteps k next

def chainSeek (cur : Cursor) (want : ℕ) : Prog Stop Dev Cursor :=
  if cur.clus < 2 then fail (.errno .eio)
  else do
    let c ← seekSteps fs (want - cur.idx) cur.clus
    pure ⟨c, max cur.idx want⟩

def chainNth (first idx : ℕ) : Prog Stop Dev Cursor := chainSeek fs ⟨first, 0⟩ idx

/-- The walk of `chain_grow` to the tail. It has no loop guard. -/
def chainTail : ℕ → ℕ → Prog Stop Dev ℕ
  | 0, _ => fail .hang
  | fuel + 1, prev => do
    let next ← fatEntry fs prev
    if next = 0 ∨ IsEoc next then pure prev else chainTail fuel next

/-- The search of `chain_grow` among the clusters left to look at; 0 when none is free. -/
def findFree : List ℕ → Prog Stop Dev ℕ
  | [] => pure 0
  | scn :: rest => do
    let v ← fatEntry fs scn
    if v = 0 then pure scn else findFree rest

/-- A program on the device, for `chain_grow`, whose state is the device and `*first`. -/
def inChain {α : Type} (x : Prog Stop Dev α) : Prog Stop (Dev × ℕ) α :=
  zoom Prod.fst (fun d s => (d, s.2)) x

/-- The loop of `chain_grow` with `count` clusters to add behind `prev`. -/
def growLoop : ℕ → ℕ → Prog Stop (Dev × ℕ) Unit
  | 0, _ => pure ()
  | count + 1, prev => do
    let fresh ← inChain (findFree fs (List.range' 2 fs.totalClusters))
    if fresh = 0 then fail (.errno .enospc)
    else do
      inChain ((List.range fs.secPerClus).forM fun i =>
        secWrite (clusRelLba fs fresh + i) fun _ => 0)
      inChain (fatSetEntry fs fresh FAT_EOC)
      (if 2 ≤ prev then inChain (fatSetEntry fs prev fresh) else modify fun s => (s.1, fresh))
      growLoop count fresh

/-- `chain_grow`. A walk that reads more entries than there are clusters, and is stopped by no
transfer of the schedule, is on a cycle. -/
def chainGrow (count : ℕ) : Prog Stop (Dev × ℕ) Unit := do
  let s ← gets id
  let prev ←
    (if 2 ≤ s.2 then inChain (chainTail fs (fs.totalClusters + s.1.faults.length + 1) s.2)
      else pure s.2)
  growLoop fs count prev

/-- The loop of `chain_free`. Every entry it has seen is 0, so it ends after each cluster has
been visited once. -/
def chainFreeFrom : ℕ → ℕ → Prog Stop Dev Unit
  | 0, _ => pure ()
  | fuel + 1, c =>
    if c < 2 ∨ IsEoc c then pure ()
    else do
      let next ← fatEntry fs c
      fatSetEntry fs c 0
      chainFreeFrom fuel next

def chainFree (first : ℕ) : Prog Stop Dev Unit := chainFreeFrom fs (fs.totalClusters + 1) first

/-! ## File data -/

/-- A program on the device of an open file. -/
def onDev {α : Type} (x : Prog Stop Dev α) : Prog Stop Handle α :=
  zoom Handle.dev (fun d h => { h with dev := d }) x

/-- A program on the device and the first cluster of an open file. -/
def onChain {α : Type} (x : Prog Stop (Dev × ℕ) α) : Prog Stop Handle α :=
  zoom (fun h => (h.dev, h.inode.firstClus))
    (fun s h => { h with dev := s.1, inode := { h.inode with firstClus := s.2 } }) x

/-- Records a copy of `n` bytes at offset `p` of the staging buffer. -/
def noteCopy (p n : ℕ) : Prog Stop Handle Unit :=
  modify fun h => { h with copies := (p, n) :: h.copies }

/-- `return done ? done : r` -/
def orDone {α : Type} (done : ℕ) (a : α) (r : Stop) : Prog Stop Handle α :=
  if done = 0 then fail r else pure a

/-- The cluster of a position, reached from the cursor, and its sector. -/
def seekRead (cur : Cursor) (pos : ℕ) : Prog Stop Handle (Cursor × (ℕ → UInt8)) := do
  let cur ← onDev (chainSeek fs cur (pos / clusBytes fs % 2 ^ 32))
  let sec ← onDev (secRead (clusRelLba fs cur.clus + pos % clusBytes fs / 512))
  pure (cur, sec)

/-- The loop of `fat_read`; `acc` is what it has put into the caller's buffer. -/
def readLoop (off len : ℕ) : ℕ → Cursor → List UInt8 → Prog Stop Handle (List UInt8)
  | 0, _, acc => pure acc
  | fuel + 1, cur, acc =>
    if acc.length < len then
      let coff := (off + acc.length) % clusBytes fs
      let chunk := min (clusBytes fs - coff) (len - acc.length)
      if cur.clus = 0 then pure acc
      else
        tryBind (seekRead fs cur (off + acc.length))
          (fun x => do
            noteCopy (coff % 512) chunk
            readLoop off len fuel x.1 (acc ++ slice x.2 (coff % 512) chunk))
          (orDone acc.length acc)
    else pure acc

def fatRead (off len : ℕ) : Prog Stop Handle (List UInt8) := do
  let h ← gets id
  if h.inode.isDir then fail (.errno .eisdir)
  else if off ≥ h.inode.size ∨ len = 0 then pure []
  else
    let len := min len (h.inode.size - off)
    readLoop fs off len len ⟨h.inode.firstClus, 0⟩ []

/-- `dirent_sync` -/
def direntSync : Prog Stop Handle Unit := do
  let h ← gets id
  if h.inode.hasDirent then do
    let sec ← onDev (secRead h.inode.deLba)
    let sec := put sec (h.inode.deOff + 26) 2 (h.inode.firstClus &&& 0xFFFF)
    let sec := put sec (h.inode.deOff + 20) 2 (h.inode.firstClus >>> 16)
    let sec := put sec (h.inode.deOff + 28) 4 h.inode.size
    onDev (secWrite h.inode.deLba sec)
  else pure ()

/-- The sector of a hole piece of `chunk` bytes at `coff` of its cluster after `memcpy` and
`memset`. -/
def holeSector (coff chunk : ℕ) (sec : ℕ → UInt8) : ℕ → UInt8 :=
  let sec := copy sec (coff % 512) (min chunk 512) fun _ => 0
  if chunk < 512 ∧ coff + chunk < 512 then
    copy sec (coff % 512 + chunk) (512 - coff % 512 - chunk) fun _ => 0
  else sec

/-- The loop of `fat_write_range` that fills the hole between the old end and `off`. -/
def holeLoop (off : ℕ) : ℕ → ℕ → Prog Stop Handle Unit
  | 0, _ => pure ()
  | fuel + 1, pos =>
    if pos < off then do
      let coff := pos % clusBytes fs
      let chunk := min (clusBytes fs - coff) (off - pos)
      let h ← gets id
      let x ← seekRead fs ⟨h.inode.firstClus, 0⟩ pos
      noteCopy (coff % 512) (min chunk 512)
      (if chunk < 512 ∧ coff + chunk < 512 then
        noteCopy (coff % 512 + chunk) (512 - coff % 512 - chunk) else pure ())
      onDev (secWrite (clusRelLba fs x.1.clus + coff / 512) (holeSector coff chunk x.2))
      holeLoop off fuel (pos + chunk)
    else pure ()

/-- The loop of `fat_write_range` that copies the data; `some n` is an early return of `n`. -/
def writeLoop (off : ℕ) (buf : List UInt8) : ℕ → Cursor → ℕ → Prog Stop Handle (Option ℕ)
  | 0, _, _ => pure none
  | fuel + 1, cur, done =>
    if done < buf.length then
      let coff := (off + done) % clusBytes fs
      let chunk := min (clusBytes fs - coff) (buf.length - done)
      if cur.clus = 0 then fail (.errno .eio)
      else
        tryBind (seekRead fs cur (off + done))
          (fun x => do
            noteCopy (coff % 512) chunk
            tryBind
              (onDev (secWrite (clusRelLba fs x.1.clus + coff / 512)
                (store x.2 (coff % 512) ((buf.drop done).take chunk))))
              (fun _ => writeLoop off buf fuel x.1 (done + chunk))
              (orDone done (some done)))
          (orDone done (some done))
    else pure none

/-- `fat_write_range` -/
def fatWriteRange (off : ℕ) (buf : List UInt8) : Prog Stop Handle ℕ :=
  if (off + buf.length) % 2 ^ 64 > FAT_MAX_FILE then fail (.errno .enospc)
  else do
    let h ← gets id
    let need := (off + buf.length + clusBytes fs - 1) % 2 ^ 64 / clusBytes fs % 2 ^ 32
    let have' ←
      (if h.inode.firstClus = 0 then pure 0 else onDev (chainLen fs h.inode.firstClus))
    (if have' < need then onChain (chainGrow fs (need - have')) else pure ())
    (if h.inode.size < off then holeLoop fs off (off - h.inode.size) h.inode.size else pure ())
    let h ← gets id
    let early ← writeLoop fs off buf buf.length ⟨h.inode.firstClus, 0⟩ 0
    match early with
    | some n => pure n
    | none => do
      modify fun h =>
        { h with inode := { h.inode with size := max h.inode.size ((off + buf.length) % 2 ^ 64) } }
      direntSync
      pure buf.length

/-! ## Mounting and formatting -/

def pow2 (v : ℕ) : Bool := v ≠ 0 && v &&& (v - 1) = 0

/-- The geometry that `fat_mount` takes from the boot sector, in 32-bit arithmetic. -/
def geometry (bs : ℕ → UInt8) : FatFs :=
  let spc := load bs 13 1
  let res := load bs 14 2
  let nfat := load bs 16 1
  let fatsz := if load bs 36 4 = 0 then load bs 22 2 else load bs 36 4
  let totsec := if load bs 32 4 = 0 then load bs 19 2 else load bs 32 4
  let dataStart := (res + nfat * fatsz) % 2 ^ 32
  { secPerClus := spc
    reserved := res
    nfats := nfat
    fatsz := fatsz
    rootClus := load bs 44 2
    dataStart := dataStart
    totalClusters := if totsec > dataStart then (totsec - dataStart) / spc else 0 }

/-- `fat_mount`, up to the allocation of the instance and of the root. -/
def fatMount : Prog Stop Dev FatFs := do
  let bs ← secRead 0
  let fs := geometry bs
  if bs 510 ≠ 0x55 ∨ bs 511 ≠ 0xAA then fail (.errno .einval)
  else if load bs 11 2 ≠ 512 then fail (.errno .einval)
  else if pow2 fs.secPerClus = false ∨ fs.secPerClus > 128 ∨ fs.reserved = 0 ∨
      (fs.nfats ≠ 1 ∧ fs.nfats ≠ 2) then fail (.errno .einval)
  else if fs.fatsz = 0 ∨ fs.totalClusters < 4085 ∨ fs.rootClus < 2 ∨
      fs.rootClus ≥ fs.totalClusters + 2 then fail (.errno .einval)
  else pure fs

/-- `"MPOSOS "` with its terminator, the name of the formatter. -/
def oemName : List UInt8 := [0x4D, 0x50, 0x4F, 0x53, 0x4F, 0x53, 0x20, 0x00]

/-- `"MPOSOSDISK "` -/
def volumeLabel : List UInt8 :=
  [0x4D, 0x50, 0x4F, 0x53, 0x4F, 0x53, 0x44, 0x49, 0x53, 0x4B, 0x20]

/-- `"FAT32   "` -/
def fsType : List UInt8 := [0x46, 0x41, 0x54, 0x33, 0x32, 0x20, 0x20, 0x20]

/-- The boot sector that `fat32_mkfs` writes. -/
def bootSector (nsect fatsz : ℕ) : ℕ → UInt8 :=
  let bs := store (fun _ => 0) 0 ([0xEB, 0x3C, 0x90] ++ oemName)
  let bs := put (put (put (put bs 11 2 512) 13 1 1) 14 2 32) 16 1 2
  let bs := put (put (put (put (put bs 21 1 0xF8) 24 2 63) 26 2 255) 32 4 nsect) 36 4 fatsz
  let bs := put (put (put (put (put bs 44 2 2) 46 2 1) 48 2 6) 64 1 0x80) 65 1 0x29
  let bs := store (put bs 67 4 0x4D504F53) 71 volumeLabel
  store (store bs 82 fsType) 510 [0x55, 0xAA]

/-- The FSInfo sector that it writes. -/
def fsInfo : ℕ → UInt8 :=
  put (put (put (put (put (fun _ => 0) 0 4 0x41615252) 484 4 0x61417272) 488 4 0xFFFFFFFF) 492 4
    0xFFFFFFFF) 508 4 0xAA550000

/-- Sector `s` of a FAT that it writes. -/
def fatSector (s : ℕ) : ℕ → UInt8 :=
  if s = 0 then put (put (put (fun _ => 0) 0 4 0x0FFFFFF8) 4 4 0x0FFFFFFF) 8 4 0x0FFFFFFF
  else fun _ => 0

/-- A write of the block layer that is not checked against the partition. -/
def blockWrite (lba : ℕ) (sec : ℕ → UInt8) : Prog Stop Dev Unit := fun d =>
  match d.write lba 1 sec with
  | (.ok (), d) => (.ok (), d)
  | (.error e, d) => (.error (.errno e), d)

/-- The sectors of one FAT copy, cut to 32 bits. -/
def mkfsFatsz (nsect : ℕ) : ℕ := ((nsect + 2 ^ 64 - 30) % 2 ^ 64 / 130 + 2) % 2 ^ 32

/-- `fat32_mkfs` of a partition of `nsect` sectors, in 64-bit and 32-bit arithmetic. -/
def fat32Mkfs (nsect : ℕ) : Prog Stop Dev Unit :=
  let fatsz := mkfsFatsz nsect
  let fats := 2 * fatsz % 2 ^ 32
  let clusters := (nsect + 2 ^ 64 + 2 ^ 64 - 32 - fats) % 2 ^ 32
  let dataRel := (32 + fats) % 2 ^ 32
  if clusters < 65525 then fail (.errno .einval)
  else if dataRel + clusters > nsect then fail (.errno .eio)
  else do
    blockWrite 0 (bootSector nsect fatsz)
    blockWrite 6 (bootSector nsect fatsz)
    blockWrite 1 fsInfo
    blockWrite 7 fsInfo
    (List.range 2).forM fun copy =>
      (List.range fatsz).forM fun s => blockWrite (32 + copy * fatsz + s) (fatSector s)
    blockWrite dataRel fun _ => 0

end Fat32
end MobilePhoneOs.Fs
