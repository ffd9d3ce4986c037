import MobilePhoneOs.Fs.Fat32ChainTheorems
import MobilePhoneOs.Fs.Fat32Dir
import MobilePhoneOs.Lib.Checked

/-!
# Walks along FAT32 chains (`fs/fat32.c`)

The programs that follow links of the FAT, over any contents of it. A program stops (`oob`) in
front of an access to the FAT entry or to a sector of a cluster outside the volume, and (`spin`)
when a loop without a guard has run out of fuel.
-/

namespace MobilePhoneOs.Fs
namespace Fat32
namespace Walk

open Mem Prog
open Prog (fail)

/-- A program that stays inside the volume. -/
abbrev Confined (α : Type) : Type := Prog (MobilePhoneOs.Stop Stop) Dev α

/-- What `fat_mount` checks of a geometry. -/
structure Mounted (fs : FatFs) : Prop where
  spc : 0 < fs.secPerClus
  nfats : 0 < fs.nfats
  fatsz : 0 < fs.fatsz
  clusters : 0 < fs.totalClusters

variable (fs : FatFs)

instance (c : ℕ) : Decidable (InRange fs c) := inferInstanceAs (Decidable (_ ∧ _))

/-- In front of an access to the cluster `c`. -/
def inside (c : ℕ) : Confined Unit := if InRange fs c then pure () else fail .oob

/-- `fat_entry` -/
def getEntry (n : ℕ) : Confined ℕ :=
  if n < 2 ∨ n ≥ fs.totalClusters + 2 then fail (.err (.errno .eio))
  else do
    inside fs n
    lift (fatEntry fs n)

/-- `fat_set_entry` -/
def setEntry (n val : ℕ) : Confined Unit := do
  inside fs n
  lift (fatSetEntry fs n val)

/-- `sec_read` of sector `k` of a cluster -/
def readSector (c k : ℕ) : Confined (ℕ → UInt8) := do
  inside fs c
  lift (secRead (clusRelLba fs c + k))

/-- `sec_write` of sector `k` of a cluster -/
def writeSector (c k : ℕ) (sec : ℕ → UInt8) : Confined Unit := do
  inside fs c
  lift (secWrite (clusRelLba fs c + k) sec)

/-! ## Chains -/

/-- The loop of `chain_seek`, `k` links further. -/
def seekSteps : ℕ → ℕ → Confined ℕ
  | 0, c => pure c
  | k + 1, c => do
    let next ← getEntry fs c
    if next = 0 ∨ IsEoc next then fail (.err (.errno .eio)) else seekSteps k next

/-- `chain_seek`; the cursor is where it stands then. -/
def chainSeek (cur : Cursor) (want : ℕ) : Confined Cursor :=
  if cur.clus < 2 then fail (.err (.errno .eio))
  else do
    let c ← seekSteps fs (want - cur.idx) cur.clus
    pure ⟨c, max cur.idx want⟩

/-- The walk of `chain_grow` to the tail -/
def chainTail : ℕ → ℕ → Confined ℕ
  | 0, _ => fail .spin
  | fuel + 1, prev => do
    let next ← getEntry fs prev
    if next = 0 ∨ IsEoc next then pure prev else chainTail fuel next

/-- The search of `chain_grow` for a free cluster -/
def findFree : List ℕ → Confined ℕ
  | [] => pure 0
  | scn :: rest => do
    let v ← getEntry fs scn
    if v = 0 then pure scn else findFree rest

/-- The loop of `chain_grow` with `count` clusters to add behind `prev`. The answer is `*first`. -/
def growLoop : ℕ → ℕ → ℕ → Confined ℕ
  | 0, first, _ => pure first
  | count + 1, first, prev => do
    let fresh ← findFree fs (List.range' 2 fs.totalClusters)
    if fresh = 0 then fail (.err (.errno .enospc))
    else do
      (List.range fs.secPerClus).forM fun i => writeSector fs fresh i fun _ => 0
      setEntry fs fresh FAT_EOC
      if 2 ≤ prev then do
        setEntry fs prev fresh
        growLoop count first fresh
      else growLoop count fresh fresh

/-- `chain_grow` -/
def chainGrow (fuel first count : ℕ) : Confined ℕ := do
  let prev ← (if 2 ≤ first then chainTail fs fuel first else pure first)
  growLoop fs count first prev

/-- A round of `chain_free`; the answer is the next cluster. -/
def freeRound (c : ℕ) : Confined ℕ := do
  let next ← getEntry fs c
  setEntry fs c 0
  pure next

/-- `chain_free` -/
def chainFree : ℕ → ℕ → Confined Unit
  | 0, _ => fail .spin
  | fuel + 1, c =>
    if c < 2 ∨ IsEoc c then pure ()
    else do
      let next ← freeRound fs c
      chainFree fuel next

/-! ## Directories -/

/-- `dir_read_slot` -/
def dirReadSlot (first pidx : ℕ) : Confined (ℕ → UInt8) := do
  let coff := pidx % dirSlots fs * 32
  let cur ← chainSeek fs ⟨first, 0⟩ (pidx / dirSlots fs)
  let sec ← readSector fs cur.clus (coff / 512)
  pure fun i => sec (coff % 512 + i)

/-- What a scan has collected: the long name, and the entries that it has passed. -/
structure ScanState where
  lfn : LfnState
  seen : List DirentInfo

inductive SlotStep
  | stop (r : Option DirentInfo)
  | go (s : ScanState)

/-- One slot in the loop of `dir_next` and, where it is an entry that is not wanted, in the loop
over `dir_next`. -/
def scanSlot (wanted : List DirentInfo → DirentInfo → Bool) (s : ScanState) (e : ℕ → UInt8)
    (pidx : ℕ) : SlotStep :=
  if e 0 = SLOT_FREE then .stop none
  else if e 0 = SLOT_DELETED then .go s
  else if (e 11).toNat = ATTR_LFN then .go { s with lfn := s.lfn.collect e }
  else
    let info := s.lfn.info e pidx
    if wanted s.seen info then .stop (some info) else .go ⟨.empty, info :: s.seen⟩

/-- `dir_next` and the loops over it (`fat_lookup`, `fat_readdir` and the others), from the slot
`pidx` to an entry that is wanted or to the end. -/
def scan (wanted : List DirentInfo → DirentInfo → Bool) (first : ℕ) :
    ℕ → ℕ → ScanState → Confined (Option DirentInfo)
  | 0, _, _ => fail .spin
  | fuel + 1, pidx, s =>
    tryBind (dirReadSlot fs first pidx)
      (fun e =>
        match scanSlot wanted s e pidx with
        | .stop r => pure r
        | .go s => scan wanted first fuel ((pidx + 1) % 2 ^ 32) s)
      (fun r =>
        match r with
        | .err (.errno .eio) => pure none
        | r => fail r)

/-! ## Files -/

/-- The sector of a position, reached from the cursor -/
def seekRead (cur : Cursor) (pos : ℕ) : Confined (Cursor × (ℕ → UInt8)) := do
  let cur ← chainSeek fs cur (pos / clusBytes fs % 2 ^ 32)
  let sec ← readSector fs cur.clus (pos % clusBytes fs / 512)
  pure (cur, sec)

/-- The loop of `fat_read` -/
def readLoop (off len : ℕ) : ℕ → Cursor → List UInt8 → Confined (List UInt8)
  | 0, _, _ => fail .spin
  | fuel + 1, cur, acc =>
    if acc.length < len then
      let coff := (off + acc.length) % clusBytes fs
      let chunk := min (clusBytes fs - coff) (len - acc.length)
      if cur.clus = 0 then pure acc
      else
        tryBind (seekRead fs cur (off + acc.length))
          (fun x => readLoop off len fuel x.1 (acc ++ slice x.2 (coff % 512) chunk))
          (fun r =>
            match r with
            | .err e => if acc = [] then fail (.err e) else pure acc
            | r => fail r)
    else pure acc

/-- `fat_read` -/
def fatRead (fuel : ℕ) (inode : FatInode) (off len : ℕ) : Confined (List UInt8) :=
  if inode.isDir then fail (.err (.errno .eisdir))
  else if off ≥ inode.size ∨ len = 0 then pure []
  else readLoop fs off (min len (inode.size - off)) fuel ⟨inode.firstClus, 0⟩ []

/-! ## What the walks depend on -/

variable (d : Dev)

/-- The link of a cluster that a walk can take. -/
def link (c : ℕ) : Option ℕ :=
  if InRange fs c ∧ fs.reserved + c / 128 < d.nsect ∧ entry fs d c ≠ 0 ∧ ¬ IsEoc (entry fs d c) then
    some (entry fs d c)
  else none

/-- Cluster `k` of a chain, of which only the clusters in front of it must be in the volume. -/
def nth (first : ℕ) : ℕ → Option ℕ
  | 0 => if 2 ≤ first then some first else none
  | k + 1 => (nth first k).bind (link fs d)

/-- What `sec_read` puts into a buffer. -/
def sectorAt (lba : ℕ) : ℕ → UInt8 := fun i => if i < BLK_SECTOR_SIZE then d.view lba i else 0

/-- Where a scan gets on the disk: `some true` when it ends inside, `some false` when it comes to
a cluster outside, `none` when it goes on behind `n` slots. -/
def scanFate (wanted : List DirentInfo → DirentInfo → Bool) (first : ℕ) :
    ℕ → ℕ → ScanState → Option Bool
  | 0, _, _ => none
  | n + 1, pidx, s =>
    match nth fs d first (pidx / dirSlots fs) with
    | none => some true
    | some c =>
      let coff := pidx % dirSlots fs * 32
      if ¬ InRange fs c then some false
      else if d.nsect ≤ clusRelLba fs c + coff / 512 then some true
      else
        match scanSlot wanted s
          (fun i => sectorAt d (clusRelLba fs c + coff / 512) (coff % 512 + i)) pidx with
        | .stop _ => some true
        | .go s => scanFate wanted first n ((pidx + 1) % 2 ^ 32) s

/-- A read from `off` gets past the piece in cluster `k` of the chain. -/
def Passes (first off k : ℕ) : Prop :=
  ∃ c, nth fs d first k = some c ∧
    clusRelLba fs c + max off (k * clusBytes fs) % clusBytes fs / 512 < d.nsect

/-! ## The walks -/

/-- The calls; sizes come from the 32 bits of a directory entry. -/
inductive Call
  | seek (cur : Cursor) (want : ℕ)
  | grow (first count : ℕ)
  | free (first : ℕ)
  | scan (wanted : List DirentInfo → DirentInfo → Bool) (first pidx : ℕ)
  | read (inode : FatInode) (hsize : inode.size < 2 ^ 32) (off len : ℕ)

def Call.run (fuel : ℕ) : Call → Confined Unit
  | .seek cur want => do
    let _ ← chainSeek fs cur want
  | .grow first count => do
    let _ ← chainGrow fs fuel first count
  | .free first => chainFree fs fuel first
  | .scan wanted first pidx => do
    let _ ← Walk.scan fs wanted first fuel pidx ⟨.empty, []⟩
  | .read inode _ off len => do
    let _ ← fatRead fs fuel inode off len

/-- The walk finishes, and accesses only clusters inside the volume. -/
def Finishes (call : Call) : Prop :=
  ∃ fuel, ¬ Spins (call.run fs fuel) d ∧ ¬ Oob (call.run fs fuel) d

/-- The chain that is to grow ends or breaks off; the scan comes to its end before a cluster
outside; and of the clusters that the read comes to none is outside. -/
def Call.Clear : Call → Prop
  | .seek _ _ => True
  | .grow first _ => ∃ k, nth fs d first k = none
  | .free _ => True
  | .scan wanted first pidx => ∃ n, scanFate fs d wanted first n pidx ⟨.empty, []⟩ = some true
  | .read inode _ off len => inode.isDir = false → ∀ k c, off / clusBytes fs ≤ k →
    k * clusBytes fs < off + min len (inode.size - off) → off < inode.size → len ≠ 0 →
    (∀ j, off / clusBytes fs ≤ j → j < k → Passes fs d inode.firstClus off j) →
    nth fs d inode.firstClus k = some c → InRange fs c

end Walk
end Fat32
end MobilePhoneOs.Fs
