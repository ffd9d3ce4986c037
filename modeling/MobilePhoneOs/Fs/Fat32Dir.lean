import MobilePhoneOs.Fs.Fat32
import Mathlib.Data.List.DropRight

/-!
# FAT32 directories (`fs/fat32.c`)

A directory is a chain of 32-byte slots. A name that is not plain 8.3 rides in long-name slots
in front of its short entry. Names are strings without their terminator. Slot numbers are
natural numbers; those of the code wrap in a directory of `2 ^ 32` slots, which is 128 GiB.
-/

namespace MobilePhoneOs.Fs
namespace Fat32

open Mem Prog

def ATTR_LFN : ℕ := 0x0F
def ATTR_DIR : ℕ := 0x10
def ATTR_VOLUME : ℕ := 0x08
def SLOT_FREE : UInt8 := 0x00
def SLOT_DELETED : UInt8 := 0xE5
def VFS_NAME_MAX : ℕ := 64
def DOS_DATE : ℕ := (2026 - 1980) <<< 9 ||| 1 <<< 5 ||| 1
def DOS_TIME : ℕ := 0

variable (fs : FatFs)

/-- The slots of a cluster. -/
def dirSlots : ℕ := clusBytes fs / 32

/-! ## Slots -/

/-- `dir_slot_locate`: the sector of a slot and its offset there. -/
def dirSlotLocate (first pidx : ℕ) : Prog Stop Dev (ℕ × ℕ) := do
  let coff := pidx % dirSlots fs * 32
  let cur ← chainNth fs first (pidx / dirSlots fs)
  pure (clusRelLba fs cur.clus + coff / 512, coff % 512)

def dirReadSlot (first pidx : ℕ) : Prog Stop Dev (ℕ → UInt8) := do
  let at' ← dirSlotLocate fs first pidx
  let sec ← secRead at'.1
  pure fun i => sec (at'.2 + i)

def dirWriteSlot (first pidx : ℕ) (e : ℕ → UInt8) : Prog Stop Dev Unit := do
  let at' ← dirSlotLocate fs first pidx
  let sec ← secRead at'.1
  secWrite at'.1 (copy sec at'.2 32 e)

/-! ## Names -/

/-- `(char)` of an upper-case letter, other characters as they are. -/
def upchar (c : UInt8) : UInt8 := if 97 ≤ c ∧ c ≤ 122 then c - 32 else c

/-- What a reader of a C string sees of a buffer. -/
def cstr (l : List UInt8) : List UInt8 := l.takeWhile (· ≠ 0)

def lfnChecksum (sfn : List UInt8) : UInt8 :=
  sfn.foldl (fun sum c => (sum >>> 1 ||| sum <<< 7) + c) 0

def decodeSfn (sfn : List UInt8) : List UInt8 :=
  let nb := (sfn.take 8).rdropWhile (· = 32)
  let ne := (sfn.drop 8).rdropWhile (· = 32)
  cstr (if ne = [] then nb else nb ++ 46 :: ne)

/-- The marks that a short name may hold next to letters and digits. -/
def sfnMarks : List UInt8 :=
  [33, 35, 36, 37, 38, 39, 40, 41, 45, 64, 94, 95, 96, 123, 125, 126]

def sfnCharOk (c : UInt8) : Bool :=
  (65 ≤ c && c ≤ 90) || (48 ≤ c && c ≤ 57) || sfnMarks.contains c

/-- A name split at its last dot. -/
def splitDot (name : List UInt8) : List UInt8 × Option (List UInt8) :=
  if name.contains 46 then
    (((name.reverse.dropWhile (· ≠ 46)).drop 1).reverse,
      some (name.reverse.takeWhile (· ≠ 46)).reverse)
  else (name, none)

/-- `plain_sfn` -/
def plainSfn (name : List UInt8) : Bool :=
  let x := splitDot name
  x.1.all sfnCharOk && (x.2.getD []).all sfnCharOk && 1 ≤ x.1.length && x.1.length ≤ 8 &&
    (x.2.getD []).length ≤ 3 && (x.2 ≠ some [])

/-- The 11 bytes of a base name and an extension. -/
def padSfn (nb ne : List UInt8) : List UInt8 :=
  nb ++ List.replicate (8 - nb.length) 32 ++ (ne ++ List.replicate (3 - ne.length) 32)

/-- `make_sfn_template`: the template, and where its numeric tail goes if it needs one. -/
def makeSfnTemplate (name : List UInt8) : List UInt8 × Option ℕ :=
  let x := splitDot name
  let ne := x.2.getD []
  if plainSfn name then (padSfn (x.1.map upchar) (ne.map upchar), none)
  else
    let nb := ((x.1.map upchar).filter sfnCharOk).take 6
    let nb := (if nb = [] then [95] else nb) ++ [126]
    (padSfn nb (((ne.map upchar).filter sfnCharOk).take 3), some nb.length)

/-! ## Entries -/

/-- `struct fat_dirent_info` -/
structure DirentInfo where
  name : List UInt8
  sfn : List UInt8
  attr : ℕ
  firstClus : ℕ
  size : ℕ
  pidx : ℕ

/-- The long name that `dir_next` has collected. -/
structure LfnState where
  lfn : ℕ → ℕ
  parts : ℕ
  sum : UInt8

def LfnState.empty : LfnState := ⟨fun _ => 0xFFFF, 0, 0⟩

/-- The place of character `k` in a long-name slot. -/
def lfnPlace (k : ℕ) : ℕ :=
  if k < 5 then 1 + k * 2 else if k < 11 then 14 + (k - 5) * 2 else 28 + (k - 11) * 2

/-- A long-name slot. -/
def LfnState.collect (st : LfnState) (e : ℕ → UInt8) : LfnState :=
  let ord := (e 0).toNat &&& 0x1F
  let st := if (e 0).toNat &&& 0x40 ≠ 0 then ⟨fun _ => 0xFFFF, ord, e 13⟩ else st
  let base := (ord - 1) * 13
  if ord = 0 ∨ ord > st.parts then st
  else
    { st with
      lfn := fun i =>
        if base ≤ i ∧ i < base + 13 ∧ i < VFS_NAME_MAX then load e (lfnPlace (i - base)) 2
        else st.lfn i }

def LfnState.name (st : LfnState) : List UInt8 :=
  ((((List.range (st.parts * 13)).map st.lfn).takeWhile fun ch => ch ≠ 0xFFFF && ch ≠ 0).take
    (VFS_NAME_MAX - 1)).map fun ch => if ch < 128 then UInt8.ofNat ch else 63

/-- A short entry, behind the long name that was collected. -/
def LfnState.info (st : LfnState) (e : ℕ → UInt8) (pidx : ℕ) : DirentInfo :=
  let sfn := slice e 0 11
  { name := if st.parts ≠ 0 ∧ lfnChecksum sfn = st.sum then st.name else decodeSfn sfn
    sfn := sfn
    attr := (e 11).toNat
    firstClus := load e 26 2 + load e 20 2 * 65536
    size := if (e 11).toNat &&& ATTR_DIR ≠ 0 then 0 else load e 28 4
    pidx := pidx }

/-- The loop of `dir_next`; `none` is the end of the directory, else the entry comes with the
slot behind it. -/
def dirNextFrom (first : ℕ) : ℕ → ℕ → LfnState → Prog Stop Dev (Option (DirentInfo × ℕ))
  | 0, _, _ => fail .hang
  | fuel + 1, pidx, st =>
    tryBind (dirReadSlot fs first pidx)
      (fun e =>
        if e 0 = SLOT_FREE then pure none
        else if e 0 = SLOT_DELETED then dirNextFrom first fuel (pidx + 1) st
        else if (e 11).toNat = ATTR_LFN then dirNextFrom first fuel (pidx + 1) (st.collect e)
        else pure (some (st.info e pidx, pidx + 1)))
      (fun r => if r = .errno .eio then pure none else fail r)

/-- After so many slots, and as many transfers as the schedule has, a scan is on a cycle. -/
def scanFuel (d : Dev) : ℕ := (fs.totalClusters + 1) * dirSlots fs + d.faults.length + 1

def dirNext (first pidx : ℕ) : Prog Stop Dev (Option (DirentInfo × ℕ)) := do
  let d ← gets id
  dirNextFrom fs first (scanFuel fs d) pidx .empty

/-- The loops over `dir_next` that stop at the first entry with `p`. -/
def dirFindFrom (first : ℕ) (p : DirentInfo → Bool) : ℕ → ℕ → Prog Stop Dev (Option DirentInfo)
  | 0, _ => fail .hang
  | fuel + 1, pidx => do
    let r ← dirNext fs first pidx
    match r with
    | none => pure none
    | some (info, next) => if p info then pure (some info) else dirFindFrom first p fuel next

def dirFind (first : ℕ) (p : DirentInfo → Bool) : Prog Stop Dev (Option DirentInfo) := do
  let d ← gets id
  dirFindFrom fs first p (scanFuel fs d) 0

def nameEq (info : DirentInfo) (name : List UInt8) : Bool :=
  info.name = name || name.map upchar = decodeSfn info.sfn

def isDot (info : DirentInfo) : Bool := info.name = [46] || info.name = [46, 46]

def isVolume (info : DirentInfo) : Bool := info.attr &&& ATTR_VOLUME ≠ 0

/-- `fat_lookup`; `mem` tells whether both allocations succeed. -/
def fatLookup (first : ℕ) (name : List UInt8) (mem : Bool) : Prog Stop Dev FatInode :=
  if name = [] then fail (.errno .enoent)
  else do
    let r ← dirFind fs first fun info => !isVolume info && nameEq info name
    match r with
    | none => fail (.errno .enoent)
    | some info => do
      let at' ← dirSlotLocate fs first info.pidx
      if mem = false then fail (.errno .enomem)
      else pure ⟨info.firstClus, info.attr &&& ATTR_DIR ≠ 0, info.size, true, at'.1, at'.2⟩

/-! ## Creation -/

/-- `free_run` over `n` slots from `p`, and whether it ran past the chain. -/
def freeRun (first : ℕ) : ℕ → ℕ → ℕ → Prog Stop Dev (ℕ × Bool)
  | 0, _, run => pure (run, false)
  | n + 1, p, run =>
    tryBind (dirReadSlot fs first p)
      (fun e =>
        if e 0 ≠ SLOT_FREE ∧ e 0 ≠ SLOT_DELETED then pure (run, false)
        else freeRun first n (p + 1) (run + 1))
      (fun r => if r = .errno .eio then pure (run, true) else fail r)

/-- The search of `fat_create` for `need` free slots in a row, in the directory whose first
cluster is in the state. -/
def slotSearch (need : ℕ) : ℕ → ℕ → ℕ → Prog Stop (Dev × ℕ) ℕ
  | 0, _, _ => fail .hang
  | fuel + 1, pidx, cap => do
    let s ← gets id
    let r ← inChain (freeRun fs s.2 (cap - pidx) pidx 0)
    if need ≤ r.1 then pure pidx
    else if r.2 = true ∨ cap ≤ pidx then do
      chainGrow fs 1
      slotSearch need fuel cap (cap + dirSlots fs)
    else slotSearch need fuel (pidx + max r.1 1) cap

/-- The room of `fat_create`. Each round passes a slot or takes a cluster. -/
def dirRoom (need : ℕ) : Prog Stop (Dev × ℕ) ℕ := do
  let s ← gets id
  let nchain ←
    (if s.2 = 0 then pure 0
      else inChain (tryBind (chainLen fs s.2) pure fun _ => pure 0))
  let cap := nchain * dirSlots fs
  slotSearch fs need (cap + (fs.totalClusters + 1) * (dirSlots fs + 1) + 1) 0 cap

/-- The loop of `fat_create` that picks a short name: attempt by attempt with a numeric tail,
and over and over with the same name without one. -/
def pickSfn (first : ℕ) (tmpl : List UInt8) (tail : Option ℕ) : ℕ → ℕ → Prog Stop Dev (List UInt8)
  | 0, _ => fail .hang
  | fuel + 1, attempt =>
    let sfn := match tail with
      | none => tmpl
      | some i => tmpl.set i (UInt8.ofNat (48 + attempt))
    if tail.isSome ∧ attempt > 9 then fail (.errno .eexist)
    else do
      let r ← dirFind fs first fun info => info.sfn = sfn
      if r.isSome then pickSfn first tmpl tail fuel (attempt + 1) else pure sfn

/-- The sector with `.` and `..` of a new directory `self` in the directory `first`. -/
def dotSector (sec : ℕ → UInt8) (self first : ℕ) : ℕ → UInt8 :=
  let sec := copy sec 0 64 fun _ => 0
  let sec := store sec 0 (46 :: List.replicate 10 32 ++ [0x10])
  let sec := store sec 32 (46 :: 46 :: List.replicate 9 32 ++ [0x10])
  let sec := put (put (put (put sec 22 2 DOS_TIME) 24 2 DOS_DATE) 54 2 DOS_TIME) 56 2 DOS_DATE
  let sec := put (put sec 26 2 (self &&& 0xFFFF)) 20 2 (self >>> 16)
  put (put sec 58 2 (first &&& 0xFFFF)) 52 2 (first >>> 16)

/-- The long-name slot with ordinal `ord` of `lfnCount`. -/
def lfnSlot (name : List UInt8) (sum : UInt8) (lfnCount ord : ℕ) : ℕ → UInt8 :=
  let e := put (fun _ => 0) 0 1 (if ord = lfnCount then 0x40 ||| lfnCount else ord)
  let e := put (put e 11 1 ATTR_LFN) 13 1 sum.toNat
  (List.range 13).foldl (fun e k =>
    put e (lfnPlace k) 2 (((name[(ord - 1) * 13 + k]?).map UInt8.toNat).getD 0xFFFF)) e

/-- The short entry of a new file or directory. -/
def sfnSlot (sfn : List UInt8) (isDir : Bool) (first : ℕ) : ℕ → UInt8 :=
  let e := store (fun _ => 0) 0 sfn
  let e := put e 11 1 (if isDir then ATTR_DIR else 0x20)
  let e := put (put (put e 14 2 DOS_TIME) 16 2 DOS_DATE) 18 2 DOS_DATE
  let e := put (put e 22 2 DOS_TIME) 24 2 DOS_DATE
  put (put e 26 2 (first &&& 0xFFFF)) 20 2 (first >>> 16)

/-- The slots of a new entry from `pidx` on: the long name, then the short entry. -/
def writeEntry (first pidx : ℕ) (name sfn : List UInt8) (lfnCount : ℕ) (isDir : Bool) (clus : ℕ) :
    Prog Stop Dev Unit := do
  (List.range lfnCount).forM fun j =>
    dirWriteSlot fs first (pidx + j) (lfnSlot name (lfnChecksum sfn) lfnCount (lfnCount - j))
  dirWriteSlot fs first (pidx + lfnCount) (sfnSlot sfn isDir clus)

/-- The `.` and `..` of the new directory `self`. -/
def writeDots (self first : ℕ) : Prog Stop Dev Unit := do
  let sec ← secRead (clusRelLba fs self)
  secWrite (clusRelLba fs self) (dotSector sec self first)

/-- `goto fail` with the new directory's first cluster, 0 when it has none. -/
def createFail {α : Type} (self : ℕ) (r : Stop) : Prog Stop (Dev × ℕ) α := do
  (if self = 0 then pure () else inChain (tryBind (chainFree fs self) pure fun _ => pure ()))
  fail r

/-- `fat_create` after the inode has been allocated and has the first cluster `self`. -/
def createEntry (name sfn : List UInt8) (lfnCount : ℕ) (isDir : Bool) (self : ℕ) (memVn : Bool) :
    Prog Stop (Dev × ℕ) FatInode := do
  let s ← gets id
  (if isDir then inChain (writeDots fs self s.2) else pure ())
  let pidx ← dirRoom fs (lfnCount + 1)
  let s ← gets id
  inChain (writeEntry fs s.2 pidx name sfn lfnCount isDir self)
  let at' ← inChain (dirSlotLocate fs s.2 (pidx + lfnCount))
  if memVn = false then fail (.errno .enomem)
  else pure ⟨self, isDir, 0, true, at'.1, at'.2⟩

/-- The first cluster of a new directory. -/
def newCluster : Prog Stop (Dev × ℕ) ℕ := fun s =>
  match chainGrow fs 1 (s.1, 0) with
  | (.ok (), t) => (.ok t.2, (t.1, s.2))
  | (.error e, t) => (.error e, (t.1, s.2))

/-- `fat_create`; the state is the device and the first cluster of the directory, and `memIn`
and `memVn` tell whether its two allocations succeed. -/
def fatCreate (name : List UInt8) (isDir memIn memVn : Bool) : Prog Stop (Dev × ℕ) FatInode :=
  if name.length ≥ VFS_NAME_MAX then fail (.errno .enametoolong)
  else do
    let tmpl := makeSfnTemplate name
    let lfnCount := if plainSfn name then 0 else (name.length + 12) / 13
    let s ← gets id
    let sfn ← inChain (pickSfn fs s.2 tmpl.1 tmpl.2 (s.1.faults.length + 11)
      (if tmpl.2.isSome then 1 else 0))
    if memIn = false then fail (.errno .enomem)
    else do
      let self ← (if isDir then newCluster fs else pure 0)
      tryBind (createEntry fs name sfn lfnCount isDir self memVn) pure (createFail fs self)

/-! ## Removal -/

/-- `dir_is_empty`; an error counts as the end of the directory. -/
def dirIsEmpty (first : ℕ) : Prog Stop Dev Bool :=
  tryBind (dirFind fs first fun info => !isVolume info && !isDot info)
    (fun r => pure r.isNone)
    (fun r => if r = .hang then fail .hang else pure true)

/-- The loop of `fat_unlink` over the long-name slots below `p`. -/
def dropLfn (first : ℕ) : ℕ → Prog Stop Dev Unit
  | 0 => pure ()
  | p + 1 =>
    tryBind (dirReadSlot fs first p)
      (fun e =>
        if (e 11).toNat ≠ ATTR_LFN then pure ()
        else
          tryBind (dirWriteSlot fs first p (Function.update e 0 SLOT_DELETED))
            (fun _ => dropLfn first p) fun _ => pure ())
      fun _ => pure ()

/-- `fat_unlink` -/
def fatUnlink (first : ℕ) (name : List UInt8) : Prog Stop Dev Unit := do
  let r ← dirFind fs first fun info => !isVolume info && !isDot info && nameEq info name
  match r with
  | none => fail (.errno .enoent)
  | some info => do
    let empty ←
      (if info.attr &&& ATTR_DIR ≠ 0 then dirIsEmpty fs info.firstClus
        else do
          (if 2 ≤ info.firstClus then
            tryBind (chainFree fs info.firstClus) pure fun _ => pure () else pure ())
          pure true)
    if empty = false then fail (.errno .enotempty)
    else do
      let e ← dirReadSlot fs first info.pidx
      dirWriteSlot fs first info.pidx (Function.update e 0 SLOT_DELETED)
      dropLfn fs first info.pidx

end Fat32
end MobilePhoneOs.Fs
