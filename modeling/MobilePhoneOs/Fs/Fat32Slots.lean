import MobilePhoneOs.Fs.Fat32ChainTheorems
import MobilePhoneOs.Fs.Fat32Dir

/-!
# What a FAT32 directory holds

The slots of a directory are numbered along its chain. `entriesFrom` is what a scan of
`dir_next` makes of them, `fit` is the place that `fat_create` takes, and the laws say what a
new entry is to be, among the entries that were there before.
-/

namespace MobilePhoneOs.Fs
namespace Fat32

open Mem Prog

variable (fs : FatFs)

/-- Slot `p` of the directory with the clusters `C`; there are zeros behind the last one. -/
def slotsOf (d : Dev) (C : List ℕ) (p : ℕ) : ℕ → UInt8 := fun j =>
  if p < C.length * dirSlots fs then d.data (sectOf fs C (p / 16) * 512 + (p % 16 * 32 + j)) else 0

/-- The sector of slot `p` and its offset there. -/
def slotPlace (C : List ℕ) (p : ℕ) : ℕ × ℕ := (sectOf fs C (p / 16), p % 16 * 32)

/-! ## Slots -/

/-- A slot that an entry may take. -/
def Vacant (e : ℕ → UInt8) : Prop := e 0 = SLOT_FREE ∨ e 0 = SLOT_DELETED

/-- A short entry: a file, a directory or a volume label. -/
def Live (e : ℕ → UInt8) : Prop := ¬ Vacant e ∧ (e 11).toNat ≠ ATTR_LFN

instance (e : ℕ → UInt8) : Decidable (Vacant e) := inferInstanceAs (Decidable (_ ∨ _))

instance (e : ℕ → UInt8) : Decidable (Live e) := inferInstanceAs (Decidable (_ ∧ _))

/-- The name field of a short entry. -/
def sfnOf (e : ℕ → UInt8) : List UInt8 := slice e 0 11

variable (sl : ℕ → ℕ → UInt8)

/-- What a scan finds in the `n` slots from `p` on. -/
def entriesFrom : ℕ → ℕ → LfnState → List DirentInfo
  | 0, _, _ => []
  | n + 1, p, st =>
    if sl p 0 = SLOT_FREE then []
    else if sl p 0 = SLOT_DELETED then entriesFrom n (p + 1) st
    else if (sl p 11).toNat = ATTR_LFN then entriesFrom n (p + 1) (st.collect (sl p))
    else st.info (sl p) p :: entriesFrom n (p + 1) .empty

/-- The long name that a scan has collected after `n` slots, unless it has met the end. -/
def passFrom : ℕ → ℕ → LfnState → Option LfnState
  | 0, _, st => some st
  | n + 1, p, st =>
    if sl p 0 = SLOT_FREE then none
    else if sl p 0 = SLOT_DELETED then passFrom n (p + 1) st
    else if (sl p 11).toNat = ATTR_LFN then passFrom n (p + 1) (st.collect (sl p))
    else passFrom n (p + 1) .empty

/-- The entries of a directory of `n` slots. -/
def entries (n : ℕ) : List DirentInfo := entriesFrom sl n 0 .empty

/-- Nothing is in use behind the end of the directory. -/
def Tidy : Prop := ∀ p q, p ≤ q → sl p 0 = SLOT_FREE → sl q 0 = SLOT_FREE

/-! ## Names -/

/-- The short names that `fat_create` tries, in its order. -/
def candidates (name : List UInt8) : List (List UInt8) :=
  match (makeSfnTemplate name).2 with
  | none => [(makeSfnTemplate name).1]
  | some i => (List.range' 1 9).map fun k => (makeSfnTemplate name).1.set i (UInt8.ofNat (48 + k))

/-- The long-name slots of a name. -/
def lfnCountOf (name : List UInt8) : ℕ := if plainSfn name then 0 else (name.length + 12) / 13

/-! ## Room -/

/-- The vacant slots in a row from `p` on, among `n`. -/
def vacantRun : ℕ → ℕ → ℕ
  | 0, _ => 0
  | n + 1, p => if Vacant (sl p) then vacantRun n (p + 1) + 1 else 0

/-- Where `fat_create` finds `need` vacant slots, in clusters of `D` slots. -/
def fitFrom (D need : ℕ) : ℕ → ℕ → ℕ → ℕ
  | 0, pidx, _ => pidx
  | fuel + 1, pidx, cap =>
    if need ≤ vacantRun sl (cap - pidx) pidx then pidx
    else if cap ≤ pidx then fitFrom D need fuel cap (cap + D)
    else fitFrom D need fuel (pidx + max (vacantRun sl (cap - pidx) pidx) 1) cap

/-- The place that `fat_create` takes for an entry of `need` slots. -/
def fit (C : List ℕ) (need : ℕ) : ℕ :=
  fitFrom sl (dirSlots fs) need
    (C.length * dirSlots fs + (fs.totalClusters + 1) * (dirSlots fs + 1) + 1) 0
    (C.length * dirSlots fs)

/-- The slots with the first `j` of the `n` long-name slots of an entry at `p`. -/
def lfnSlots (p : ℕ) (name : List UInt8) (sum : UInt8) (n j : ℕ) : ℕ → ℕ → UInt8 := fun q =>
  if p ≤ q ∧ q < p + j then lfnSlot name sum n (n - (q - p)) else sl q

/-- The slots with a new entry at `p`. -/
def entrySlots (p : ℕ) (name sfn : List UInt8) (n : ℕ) (isDir : Bool) (clus : ℕ) :
    ℕ → ℕ → UInt8 :=
  Function.update (lfnSlots sl p name (lfnChecksum sfn) n n) (p + n) (sfnSlot sfn isDir clus)

/-! ## The laws of a new entry -/

variable (C : List ℕ) (s : Dev × ℕ) (name : List UInt8) (isDir memIn memVn : Bool)

/-- The entry of `inode` is in slot `p` of a directory, under a short name that no entry had
before, and that no other entry has now if nothing was in use behind the end. -/
structure FreshSfn (t : Dev × ℕ) (inode : FatInode) (C' : List ℕ) (p : ℕ) : Prop where
  owns : Owns fs t.1 t.2 C'
  inside : p < C'.length * dirSlots fs
  place : slotPlace fs C' p = (inode.deLba, inode.deOff)
  live : Live (slotsOf fs t.1 C' p)
  before : ∀ info ∈ entries (slotsOf fs s.1 C) (C.length * dirSlots fs),
    info.sfn ≠ sfnOf (slotsOf fs t.1 C' p)
  others : Tidy (slotsOf fs s.1 C) → ∀ q, q ≠ p → Live (slotsOf fs t.1 C' q) →
    sfnOf (slotsOf fs t.1 C' q) ≠ sfnOf (slotsOf fs t.1 C' p)

/-- `fat_create` ends, and gives a new entry a short name of its own. -/
structure SfnLaw : Prop where
  answers : (fatCreate fs name isDir memIn memVn s).1 ≠ .error .hang
  fresh : ∀ inode t, fatCreate fs name isDir memIn memVn s = (.ok inode, t) →
    ∃ C' p, FreshSfn fs C s t inode C' p

/-- No entry has the short name of a plain name, or a transfer fails while it is looked for. -/
def SfnFree : Prop :=
  plainSfn name = true →
    (∃ info ∈ entries (slotsOf fs s.1 C) (C.length * dirSlots fs),
      info.sfn = (makeSfnTemplate name).1) → ¬ Calm s.1

/-- The entry in the slots from `p` on reads as `name`: its long-name slots count down to 1 and
carry the checksum of the short name, a scan delivers it, a lookup finds it, and the entries
that were there before are still delivered. -/
structure ReadsAs (t : Dev × ℕ) (inode : FatInode) (C' : List ℕ) (p : ℕ) : Prop where
  owns : Owns fs t.1 t.2 C'
  inside : p + lfnCountOf name < C'.length * dirSlots fs
  place : slotPlace fs C' (p + lfnCountOf name) = (inode.deLba, inode.deOff)
  ordinals : ∀ j < lfnCountOf name, ((slotsOf fs t.1 C' (p + j)) 0).toNat
    = (lfnCountOf name - j) ||| (if j = 0 then 0x40 else 0)
  marks : ∀ j < lfnCountOf name, ((slotsOf fs t.1 C' (p + j)) 11).toNat = ATTR_LFN ∧
    slotsOf fs t.1 C' (p + j) 13 = lfnChecksum (sfnOf (slotsOf fs t.1 C' (p + lfnCountOf name)))
  decoded : ∃ info ∈ entries (slotsOf fs t.1 C') (C'.length * dirSlots fs),
    info.pidx = p + lfnCountOf name ∧ info.name = name
  lookup : ∃ d', fatLookup fs t.2 name true t.1 = (.ok inode, d')
  kept : ∀ info ∈ entries (slotsOf fs s.1 C) (C.length * dirSlots fs),
    info ∈ entries (slotsOf fs t.1 C') (C'.length * dirSlots fs)

/-- When a name survives in the slots `sl`, of which it takes those from `p` on. It is not empty and
all of it is ASCII. The scan gets to its slots, and with a plain name it does not come with a long
name that fits the short one by accident. The slots do not separate a long name from its entry, and
no entry in front of them answers to the name. -/
structure NameFits (sl : ℕ → ℕ → UInt8) (n p : ℕ) (st : LfnState) : Prop where
  nonempty : name ≠ []
  ascii : ∀ c ∈ name, c.toNat < 128
  reached : passFrom sl p 0 .empty = some st
  plain : plainSfn name = true →
    st.parts ≠ 0 → lfnChecksum (makeSfnTemplate name).1 = st.sum → st.name = name
  behind : (∀ j < lfnCountOf name + 1, sl (p + j) 0 = SLOT_DELETED) →
    entriesFrom sl (n - (p + (lfnCountOf name + 1))) (p + (lfnCountOf name + 1)) st
      = entriesFrom sl (n - (p + (lfnCountOf name + 1))) (p + (lfnCountOf name + 1)) .empty
  first : ∀ info ∈ entriesFrom sl p 0 .empty, isVolume info = false → nameEq info name = false

end Fat32
end MobilePhoneOs.Fs
