import MobilePhoneOs.Fs.Ext2DirTheorems
import MobilePhoneOs.Fs.Ext2Mkfs

/-!
# The ext2 directory tree

What a successful call has done to the device is told whatever the device does: a transfer
that succeeds has gone through. The first block of every directory that the driver makes has
one shape (`Dots`), in which the name behind `.` is empty, and every operation keeps it, so
no directory ever has an entry `..`.
-/

namespace MobilePhoneOs.Fs
namespace Ext2

open Mem Prog

/-! ## Transfers that succeed -/

/-- The two devices hold the same bytes. -/
structure SameDev (d d' : Dev) : Prop where
  data : d'.data = d.data
  nsect : d'.nsect = d.nsect

section

variable {fs : E2Fs} {d d' d'' : Dev} {b : ℕ} {buf : ℕ → UInt8}

lemma SameDev.refl (d : Dev) : SameDev d d := ⟨rfl, rfl⟩

lemma SameDev.trans (h : SameDev d d') (h' : SameDev d' d'') : SameDev d d'' :=
  ⟨h'.data.trans h.data, h'.nsect.trans h.nsect⟩

lemma SameDev.view (h : SameDev d d') (sect : ℕ) : d'.view sect = d.view sect := by
  funext i
  rw [Dev.view, Dev.view, h.data]

lemma SameDev.blkView (h : SameDev d d') (b : ℕ) : blkView d' b = blkView d b := h.view _

lemma SameDev.putBlk (h : SameDev d d') (b : ℕ) (buf : ℕ → UInt8) :
    SameDev (putBlk d b buf) (putBlk d' b buf) := by
  refine ⟨?_, h.nsect⟩
  show copy d'.data _ _ _ = copy d.data _ _ _
  rw [h.data]

variable {sect : ℕ}

lemma read_inv (h : d.read sect = (.ok buf, d')) :
    SameDev d d' ∧ buf = d.view sect := by
  unfold Dev.read at h
  split at h <;> cases h
  · exact ⟨⟨rfl, rfl⟩, rfl⟩
  · exact ⟨⟨rfl, rfl⟩, rfl⟩

lemma write_inv {n : ℕ} (h : d.write sect n buf = (.ok (), d')) :
    SameDev (d.put sect n buf) d' := by
  unfold Dev.write at h
  split at h <;> cases h
  · exact ⟨rfl, rfl⟩
  · exact ⟨rfl, rfl⟩

lemma blkRead_inv (h : blkRead d b = (.ok buf, d')) : SameDev d d' ∧ buf = blkView d b := by
  unfold blkRead at h
  split_ifs at h
  · cases h
  · exact read_inv h

lemma blkWrite_inv (h : blkWrite d b buf = (.ok (), d')) : SameDev (putBlk d b buf) d' := by
  unfold blkWrite at h
  split_ifs at h
  · cases h
  · exact write_inv h

lemma blkRead_lt (h : blkRead d b = (.ok buf, d')) : b * E2_SECT_PER_BLK < d.nsect := by
  unfold blkRead at h
  split_ifs at h with hb
  · cases h
  · omega

lemma SameDev.to_quiet (d : Dev) : SameDev d (quiet d) := ⟨rfl, rfl⟩

/-- Two devices with the same bytes are the same without their failures. -/
lemma SameDev.quiet_eq (h : SameDev d d') : quiet d' = quiet d := by
  obtain ⟨data, nsect, faults⟩ := d'
  obtain ⟨rfl, rfl⟩ := h
  rfl

lemma blkRead_quiet (hb : b * E2_SECT_PER_BLK < d.nsect) :
    blkRead (quiet d) b = (.ok (blkView d b), quiet d) := blkRead_ok rfl hb

lemma sectRead_inv (h : sectRead d sect = (.ok buf, d')) :
    SameDev d d' ∧ buf = d.view sect := by
  unfold sectRead at h
  split_ifs at h
  · cases h
  · exact read_inv h

lemma sectWrite_inv (h : sectWrite d sect buf = (.ok (), d')) :
    SameDev (d.put sect 1 buf) d' := by
  unfold sectWrite at h
  split_ifs at h
  · cases h
  · exact write_inv h

/-! ## Inode records -/

/-- The inode tables start at a block, so no record crosses a sector. -/
lemma inodeOff_sector (fs : E2Fs) (ino : ℕ) : inodeOff fs ino % 512 + E2_INODE_SIZE ≤ 512 := by
  show ((fs.grp ((ino - 1) / E2_IPG)).itable * 1024 + (ino - 1) % E2_IPG * 128) % 512 + 128 ≤ 512
  omega

/-- The device after the record of an inode has been overwritten. -/
def putRec (fs : E2Fs) (d : Dev) (ino : ℕ) (raw : List UInt8) : Dev :=
  { d with data := store d.data (inodeOff fs ino) raw }

variable {ino : ℕ} {raw : List UInt8}

/-- The record goes into its sector, as it was read. -/
lemma putRec_sector (hraw : raw.length = E2_INODE_SIZE)
    (h : SameDev d d') : SameDev (putRec fs d ino raw) (d'.put (inodeOff fs ino / 512) 1
      (store (d.view (inodeOff fs ino / 512)) (inodeOff fs ino % 512) raw)) := by
  refine ⟨funext fun i => ?_, h.nsect⟩
  show copy d'.data (inodeOff fs ino / 512 * 512) (1 * 512) (store (d.view (inodeOff fs ino / 512))
    (inodeOff fs ino % 512) raw) i = store d.data (inodeOff fs ino) raw i
  rw [h.data]
  have hlen : raw.length = 128 := hraw
  have hsect' : inodeOff fs ino % 512 + 128 ≤ 512 := inodeOff_sector fs ino
  -- inside the record, elsewhere in its sector, outside the sector
  rcases Nat.lt_or_ge i (inodeOff fs ino / 512 * 512) with hlo | hlo
  · rw [copy_of_lt hlo, store_of_lt (by omega)]
  rcases Nat.lt_or_ge i (inodeOff fs ino / 512 * 512 + 1 * 512) with hhi | hhi
  · obtain ⟨j, rfl⟩ := Nat.exists_eq_add_of_le hlo
    rw [copy_add (by omega)]
    rcases Nat.lt_or_ge j (inodeOff fs ino % 512) with hj | hj
    · rw [store_of_lt hj, store_of_lt (by omega)]
      rfl
    rcases Nat.lt_or_ge j (inodeOff fs ino % 512 + raw.length) with hj' | hj'
    · obtain ⟨k, rfl⟩ := Nat.exists_eq_add_of_le hj
      have hk : k < raw.length := by omega
      have hpos : inodeOff fs ino / 512 * 512 + (inodeOff fs ino % 512 + k)
          = inodeOff fs ino + k := by omega
      rw [store_add hk, hpos, store_add hk]
    · rw [store_of_ge hj', store_of_ge (by omega)]
      rfl
  · rw [copy_of_ge hhi, store_of_ge (by omega)]

lemma inodeScatter_inv (hraw : raw.length = E2_INODE_SIZE)
    (h : inodeScatter fs ino raw d = (.ok (), d')) : SameDev (putRec fs d ino raw) d' := by
  unfold inodeScatter at h
  simp only [if_pos (inodeOff_sector fs ino)] at h
  split at h
  · cases h
  · rename_i sec d₁ hread
    obtain ⟨hd₁, rfl⟩ := sectRead_inv hread
    exact (putRec_sector hraw hd₁).trans (sectWrite_inv h)

lemma inodeRaw_length (n : Inode) : (inodeRaw n).length = E2_INODE_SIZE := slice_length _ _ _

variable {n : Inode}

lemma inodeStore_inv (h : inodeStore fs n d = (.ok (), d')) :
    SameDev (putRec fs d n.ino (inodeRaw n)) d' :=
  inodeScatter_inv (inodeRaw_length n) h

/-- The record of an inode on the device. -/
def recView (fs : E2Fs) (d : Dev) (ino : ℕ) : ℕ → UInt8 := fun i => d.data (inodeOff fs ino + i)

lemma SameDev.recView (h : SameDev d d') (ino : ℕ) : recView fs d' ino = recView fs d ino := by
  funext i
  exact congrFun h.data _

lemma inodeLoad_inv (h : inodeLoad fs ino d = (.ok n, d')) :
    SameDev d d' ∧ n = inodeParse ino (recView fs d ino) := by
  unfold inodeLoad inodeGather at h
  simp only [if_pos (inodeOff_sector fs ino)] at h
  cases hread : sectRead d (inodeOff fs ino / 512) with
  | mk r d₁ =>
    rw [hread] at h
    cases r with
    | error e => cases h
    | ok sec =>
      cases h
      obtain ⟨hd, rfl⟩ := sectRead_inv hread
      refine ⟨hd, congrArg (inodeParse ino) (funext fun i => ?_)⟩
      have hpos : inodeOff fs ino / 512 * 512 + (inodeOff fs ino % 512 + i)
          = inodeOff fs ino + i := by omega
      exact congrArg d.data hpos

/-- The record as `inode_load` needs it for a directory of one block. -/
structure DirRec (n : Inode) (b : ℕ) : Prop where
  isDir : n.isDir = true
  size : n.size = E2_BSIZE
  blk : n.blk 0 = b

/-- What `inode_load` reads of a record after `inode_store`. -/
structure Reads (n x : Inode) : Prop where
  isDir : x.isDir = n.isDir
  size : x.size = n.size % 2 ^ 32
  links : x.links = n.links % 2 ^ 16
  blk : ∀ r < 15, x.blk r = n.blk r % 2 ^ 32

/-- A record is read as it was written. -/
lemma reads_putRec (fs : E2Fs) (d : Dev) (n : Inode) :
    Reads n (inodeParse n.ino (recView fs (putRec fs d n.ino (inodeRaw n)) n.ino)) := by
  obtain ⟨raw, hraw, hmode, hsize, hlinks, hblk⟩ : ∃ raw, inodeRaw n = slice raw 0 E2_INODE_SIZE ∧
      load raw 0 2 = (if n.isDir then 0x41ED else 0x81ED) ∧ load raw 4 4 = n.size % 2 ^ 32 ∧
        load raw 26 2 = n.links % 2 ^ 16 ∧ ∀ r < 15, load raw (40 + r * 4) 4 = n.blk r % 2 ^ 32 := by
    refine ⟨_, rfl, ?_, ?_, ?_, fun r hr => ?_⟩
    · rw [load_store_of_disjoint (by omega), load_put_of_disjoint (by omega),
        load_put_of_disjoint (by omega), load_put_of_disjoint (by omega), load_put]
      split_ifs <;> rfl
    · rw [load_store_of_disjoint (by omega), load_put_of_disjoint (by omega),
        load_put_of_disjoint (by omega), load_put]
      rfl
    · rw [load_store_of_disjoint (by omega), load_put_of_disjoint (by omega), load_put]
      rfl
    · have hwords : (List.range 15).flatMap (fun i => leBytes 4 (n.blk i))
          = ((List.range 15).map n.blk).flatMap (leBytes 4) := (List.flatMap_map _ _ _).symm
      have hlen : r < ((List.range 15).map n.blk).length := by
        rw [List.length_map, List.length_range]
        exact hr
      rw [hwords, Nat.mul_comm r 4, load_store_words _ _ _ hlen, List.getElem_map, List.getElem_range]
      rfl
  have hload (p m : ℕ) (hp : p + m ≤ 128) :
      load (recView fs (putRec fs d n.ino (inodeRaw n)) n.ino) p m = load raw p m := by
    refine load_congr fun i hi => ?_
    have hlen : p + i < (inodeRaw n).length := by
      rw [inodeRaw_length]
      exact Nat.lt_of_lt_of_le (by omega) hp
    show store d.data (inodeOff fs n.ino) (inodeRaw n) (inodeOff fs n.ino + (p + i)) = raw (p + i)
    rw [store_add hlen]
    simp only [hraw, slice_getElem, Nat.zero_add]
  refine ⟨?_, ?_, ?_, fun r hr => ?_⟩
  · show decide (load _ 0 2 &&& 0xF000 = E2_M_DIR) = n.isDir
    rw [hload 0 2 (by omega), hmode]
    cases n.isDir <;> rfl
  · show load _ 4 4 = n.size % 2 ^ 32
    rw [hload 4 4 (by omega), hsize]
  · show load _ 26 2 = n.links % 2 ^ 16
    rw [hload 26 2 (by omega), hlinks]
  · show (if r < 15 then load _ (40 + r * 4) 4 else 0) = n.blk r % 2 ^ 32
    rw [if_pos hr, hload _ _ (by omega), hblk r hr]

lemma inodeParse_raw (h : DirRec n b) (hb : b < 2 ^ 32) :
    DirRec (inodeParse n.ino (recView fs (putRec fs d n.ino (inodeRaw n)) n.ino)) b := by
  have hreads := reads_putRec fs d n
  refine ⟨hreads.isDir.trans h.isDir, ?_, ?_⟩
  · rw [hreads.size, h.size]
    rfl
  · rw [hreads.blk 0 (by decide), h.blk]
    exact Nat.mod_eq_of_lt hb

/-! ## The first block of a directory -/

/-- What a first block always is: `.` with the directory's number, and behind it a record up
to the end of the block whose name is empty. -/
structure Dots (buf : ℕ → UInt8) (ino : ℕ) : Prop where
  self : load buf 0 4 = ino
  len : load buf 4 2 = 12
  nameLen : load buf 6 1 = 1
  name : buf 8 = 46
  next : load buf 12 4 ≠ 0
  nextLen : load buf 16 2 = 1012
  noName : load buf 18 1 = 0

lemma Dots.congr {buf' : ℕ → UInt8} (h : Dots buf ino)
    (hb : ∀ i < E2_BSIZE, buf' i = buf i) : Dots buf' ino := by
  have hload (p n : ℕ) (hp : p + n ≤ 1024) : load buf' p n = load buf p n :=
    load_congr fun i hi => hb (p + i) (Nat.lt_of_lt_of_le (by omega) hp)
  refine ⟨?_, ?_, ?_, ?_, ?_, ?_, ?_⟩
  · rw [hload 0 4 (by omega), h.self]
  · rw [hload 4 2 (by omega), h.len]
  · rw [hload 6 1 (by omega), h.nameLen]
  · rw [hb 8 (by decide), h.name]
  · rw [hload 12 4 (by omega)]
    exact h.next
  · rw [hload 16 2 (by omega), h.nextLen]
  · rw [hload 18 1 (by omega), h.noName]

/-- `ext2_mkfs` and `ext2_mkdir_child` put the name and its length 4 bytes too far. -/
lemma dots_dotsBlock {up : ℕ} (hlt : ino < 2 ^ 32) (hup : 0 < up ∧ up < 2 ^ 32) :
    Dots (dotsBlock ino up) ino := by
  refine ⟨?_, rfl, rfl, rfl, ?_, rfl, rfl⟩
  · unfold dotsBlock
    simp (disch := simp [dot, dotdot]) only [load_store_of_disjoint, load_put_of_disjoint, load_put]
    exact Nat.mod_eq_of_lt hlt
  · unfold dotsBlock
    simp (disch := simp [dot, dotdot]) only [load_store_of_disjoint, load_put_of_disjoint, load_put]
    rw [Nat.mod_eq_of_lt (show up < 256 ^ 4 from hup.2)]
    exact hup.1.ne'

/-- An entry that is added goes behind the record without a name, whose number becomes 8 or
gets 8 as its low half. -/
lemma Dots.split (h : Dots buf ino) (child ftype : ℕ) (name : List UInt8) :
    Dots (splitPut buf 12 child name ftype) ino := by
  have hmin : recNeed (load buf (12 + 6) 1) = 8 := by
    rw [h.noName]
    rfl
  unfold splitPut
  simp only [hmin]
  -- only the number of the second record changes in front of the new entry
  have hload (p n : ℕ) (hp : p + n ≤ 12 ∨ 14 ≤ p ∧ p + n ≤ 20) :
      load (store (put (put (put (put (put buf 12 2 8) (12 + 8) 4 child) (12 + 8 + 4) 2
        (load buf (12 + 4) 2 - 8)) (12 + 8 + 6) 1 name.length) (12 + 8 + 7) 1 ftype) (12 + 8 + 8)
        name) p n = load buf p n := by
    rw [load_store_of_disjoint (by omega), load_put_of_disjoint (by omega),
      load_put_of_disjoint (by omega), load_put_of_disjoint (by omega),
      load_put_of_disjoint (by omega), load_put_of_disjoint (by omega)]
  refine ⟨?_, ?_, ?_, ?_, ?_, ?_, ?_⟩
  · rw [hload 0 4 (by omega), h.self]
  · rw [hload 4 2 (by omega), h.len]
  · rw [hload 6 1 (by omega), h.nameLen]
  · have hbyte := hload 8 1 (by omega)
    rw [load_one, load_one, h.name] at hbyte
    exact UInt8.toNat_inj.mp hbyte
  · rw [load_store_of_disjoint (by omega), load_put_of_disjoint (by omega),
      load_put_of_disjoint (by omega), load_put_of_disjoint (by omega),
      load_put_of_disjoint (by omega), load_succ]
    have hlow : (put buf 12 2 8 12).toNat = 8 := rfl
    omega
  · rw [hload 16 2 (by omega), h.nextLen]
  · rw [hload 18 1 (by omega), h.noName]

/-! ## Walks of the first block -/

variable {n : Inode} {ino doff : ℕ} {name : List UInt8}

/-- The first block of an inode that has one, without a read. -/
lemma bmap_first (hb : n.blk 0 ≠ 0) (alloc : Bool) (d : Dev) :
    bmap fs n 0 alloc d = (.ok (n.blk 0), d, n) := by
  have hplace : place 0 = ⟨0, 1, 0⟩ := rfl
  have hlevel : bmapLevel fs alloc 0 0 d ⟨n.blk 0, false⟩ = (.ok (n.blk 0), d, ⟨n.blk 0, false⟩) := by
    rw [bmapLevel, bmapRoot, if_neg hb]
  rw [bmap, if_neg (by decide), hplace]
  simp only [Nat.sub_self, hlevel, Function.update_eq_self, Bool.false_eq_true, if_false]

lemma dirEntAt_inv {res : ℕ × Dirent} (hn : DirRec n b) (hb : b ≠ 0) (hdoff : doff < E2_BSIZE)
    (h : dirEntAt fs n doff d = (.ok res, d')) :
    SameDev d d' ∧ res = (load (blkView d b) (doff + 4) 2, direntOf (blkView d b) doff) := by
  have hzero : doff / E2_BSIZE % 2 ^ 32 = 0 := by
    rw [Nat.div_eq_of_lt hdoff]
    rfl
  rw [dirEntAt, hzero, bmap_first (hn.blk.symm ▸ hb), Nat.mod_eq_of_lt hdoff, hn.blk] at h
  simp only [if_neg hb] at h
  cases hread : blkRead d b with
  | mk r d₁ =>
    rw [hread] at h
    cases r with
    | error e => cases h
    | ok bb =>
      obtain ⟨hd, rfl⟩ := blkRead_inv hread
      simp only at h
      split_ifs at h
      · cases h
      · cases h
        exact ⟨hd, rfl⟩

variable {res : Option (ℕ × Dirent)}

/-- One round of `dir_find`: it stops at the record, or goes on behind it. -/
lemma dirFindFrom_inv {fuel : ℕ} (hn : DirRec n b) (hb : b ≠ 0)
    (hdoff : doff < E2_BSIZE) (h : dirFindFrom fs n name (fuel + 1) doff d = (.ok res, d')) :
    ∃ d₁, SameDev d d₁ ∧
      ((res = some (doff, direntOf (blkView d b) doff) ∧ d' = d₁ ∧
        strEq (direntOf (blkView d b) doff).name name = true) ∨
      dirFindFrom fs n name fuel (doff + load (blkView d b) (doff + 4) 2) d₁ = (.ok res, d')) := by
  rw [dirFindFrom, hn.size, if_pos hdoff] at h
  cases hent : dirEntAt fs n doff d with
  | mk r d₁ =>
    rw [hent] at h
    cases r with
    | error e => cases h
    | ok x =>
      obtain ⟨hd, rfl⟩ := dirEntAt_inv hn hb hdoff hent
      refine ⟨d₁, hd, ?_⟩
      simp only at h
      split_ifs at h with hc
      · cases h
        exact .inl ⟨rfl, rfl, hc.2⟩
      · exact .inr h

lemma dirFindFrom_end {fuel : ℕ} (hn : DirRec n b)
    (hdoff : E2_BSIZE ≤ doff) (h : dirFindFrom fs n name fuel doff d = (.ok res, d')) :
    d' = d ∧ res = none := by
  cases fuel with
  | zero =>
    cases h
    exact ⟨rfl, rfl⟩
  | succ fuel =>
    rw [dirFindFrom, hn.size, if_neg (by omega)] at h
    cases h
    exact ⟨rfl, rfl⟩

lemma Dots.first_name (h : Dots buf ino) : (direntOf buf 0).name = dot := by
  show slice buf (0 + 8) (load buf (0 + 6) 1) = dot
  rw [h.nameLen]
  show [buf 8] = dot
  rw [h.name]
  rfl

lemma Dots.second_name (h : Dots buf ino) : (direntOf buf 12).name = [] := by
  show slice buf (12 + 8) (load buf (12 + 6) 1) = []
  rw [h.noName, slice_zero]

/-- The walk finds `.`, and no other name that is not empty. -/
lemma dirFind_inv (hn : DirRec n b) (hb : b ≠ 0)
    (hdots : Dots (blkView d b) ino) (hname : name ≠ [])
    (h : dirFind fs n name d = (.ok res, d')) :
    SameDev d d' ∧ ∀ x ∈ res, x.2.name = dot ∧ x.2.ino = ino := by
  rw [dirFind, hn.size] at h
  have hfuel : dirFindFrom fs n name (1022 + 1 + 1) 0 d = (.ok res, d') := h
  obtain ⟨d₁, hd₁, ⟨rfl, rfl, hdot⟩ | hnext⟩ := dirFindFrom_inv hn hb (by decide) hfuel
  · refine ⟨hd₁, fun x hx => ?_⟩
    obtain rfl := Option.mem_some_iff.mp hx
    exact ⟨hdots.first_name, hdots.self⟩
  rw [← hd₁.blkView] at hdots
  rw [← hd₁.blkView b, hdots.len] at hnext
  obtain ⟨d₂, hd₂, ⟨rfl, rfl, hempty⟩ | hlast⟩ := dirFindFrom_inv hn hb (by decide) hnext
  · have heq := hdots.second_name
    rw [heq] at hempty
    exact absurd (of_decide_eq_true hempty).symm hname
  rw [hdots.nextLen] at hlast
  obtain ⟨rfl, rfl⟩ := dirFindFrom_end hn (by decide) hlast
  exact ⟨hd₁.trans hd₂, fun x hx => absurd hx (Option.not_mem_none x)⟩

/-- `dir_add_entry` finds room behind the record without a name, whose slack never ends. -/
lemma Dots.room (h : Dots buf ino) (hino : ino ≠ 0) (hname : name.length < 255) :
    roomScan buf (recNeed name.length) E2_BSIZE 0 = .ok (some 12) := by
  have hneed : recNeed name.length ≤ 264 := by
    unfold recNeed
    omega
  have hneed8 : 8 ≤ recNeed name.length := by
    unfold recNeed
    omega
  have hone : recNeed 1 = 12 := rfl
  have hzero : recNeed 0 = 8 := rfl
  have hnext : roomScan buf (recNeed name.length) (1022 + 1) 12 = .ok (some 12) := by
    rw [roomScan, if_pos (by decide)]
    simp only [h.nextLen, h.noName, hzero]
    rw [if_neg (by decide), if_pos h.next, if_pos (by omega)]
  have hfirst : roomScan buf (recNeed name.length) (1022 + 1 + 1) 0 = .ok (some 12) := by
    rw [roomScan, if_pos (by decide)]
    simp only [Nat.zero_add, h.len, h.nameLen, h.self, hone]
    rw [if_neg (by decide), if_pos hino, if_neg (by omega), hnext]
  exact hfirst

variable {child ftype : ℕ}

/-- `dir_add_entry` reads the first block and splits its second record. -/
lemma dirAddEntry_eq (hn : DirRec n b) (hb : b ≠ 0) (hino : ino ≠ 0)
    (hdots : Dots (blkView d b) ino) (hname : name.length < 255) :
    dirAddEntry fs n child name ftype d =
      match blkRead d b with
      | (.error e, d) => (.error e, d, n)
      | (.ok bb, d) =>
        let r := blkWrite d b (splitPut bb 12 child name ftype)
        (r.1, r.2, n) := by
  have hblocks : n.size / E2_BSIZE = 0 + 1 := by
    rw [hn.size]
    rfl
  rw [dirAddEntry, hblocks, dirRoom, bmap_first (hn.blk.symm ▸ hb), hn.blk]
  simp only [if_neg hb]
  cases hread : blkRead d b with
  | mk r d₁ =>
    cases r with
    | error e => rfl
    | ok bb =>
      obtain ⟨-, rfl⟩ := blkRead_inv hread
      simp only [hdots.room hino hname, if_pos hdots.next]

variable {n' : Inode}

/-- An entry that was added is in the record behind `.`. -/
lemma dirAddEntry_inv (hn : DirRec n b) (hb : b ≠ 0)
    (hino : ino ≠ 0) (hdots : Dots (blkView d b) ino) (hname : name.length < 255)
    (h : dirAddEntry fs n child name ftype d = (.ok (), d', n')) :
    n' = n ∧ SameDev (putBlk d b (splitPut (blkView d b) 12 child name ftype)) d' := by
  rw [dirAddEntry_eq hn hb hino hdots hname] at h
  cases hread : blkRead d b with
  | mk r d₁ =>
    rw [hread] at h
    cases r with
    | error e => cases h
    | ok bb =>
      obtain ⟨hd₁, rfl⟩ := blkRead_inv hread
      simp only [Prod.mk.injEq] at h
      obtain ⟨hres, hdev, rfl⟩ := h
      exact ⟨rfl, (hd₁.putBlk b _).trans (blkWrite_inv (Prod.ext hres hdev))⟩

/-! ## The layout of a volume -/

/-- The first block of the metadata of a group. -/
def metaStart (g : ℕ) : ℕ := if g = 0 then 3 else g * E2_BPG + 1

/-- The groups are laid out as `ext2_mkfs` does it. -/
structure Layout (fs : E2Fs) : Prop where
  pos : 0 < fs.ngroups
  le : fs.ngroups ≤ E2_NGROUP_MAX
  grp : ∀ g < fs.ngroups, fs.grp g = ⟨metaStart g, metaStart g + 1, metaStart g + 2⟩

/-- A block of bitmaps or inode tables. -/
def Meta (fs : E2Fs) (b : ℕ) : Prop :=
  ∃ g < fs.ngroups, ∃ j < 2 + itableBlocks, b = metaStart g + j

/-- Whether the bitmaps mark inode `ino` used. -/
def Marked (fs : E2Fs) (d : Dev) (ino : ℕ) : Prop :=
  bmTest (blkView d (fs.grp ((ino - 1) / E2_IPG)).ibmap) ((ino - 1) % E2_IPG) = true

/-- The blocks of metadata do not overlap. -/
lemma metaStart_inj {g g' j l : ℕ} (hj : j < 2 + itableBlocks) (hl : l < 2 + itableBlocks)
    (h : metaStart g + j = metaStart g' + l) : g = g' ∧ j = l := by
  have h1 : j < 258 := hj
  have h2 : l < 258 := hl
  simp only [metaStart, E2_BPG] at h
  split_ifs at h <;> omega

/-- The record of an inode is in a block of its group's table. -/
def recBlock (fs : E2Fs) (ino : ℕ) : ℕ :=
  (fs.grp ((ino - 1) / E2_IPG)).itable + (ino - 1) % E2_IPG / 8

/-- What the operations leave alone: bits that are set, records of directories other than
inode `i`, and first blocks other than block `ab`. -/
structure Kept (fs : E2Fs) (i ab : ℕ) (d d' : Dev) : Prop where
  nsect : d'.nsect = d.nsect
  used : ∀ b, (b - 1) / E2_BPG < fs.ngroups → Used fs d b → Used fs d' b
  marked : ∀ ino, (ino - 1) / E2_IPG < fs.ngroups → Marked fs d ino → Marked fs d' ino
  recs : ∀ ino b, 0 < ino → ino ≠ i → (ino - 1) / E2_IPG < fs.ngroups →
    DirRec (inodeParse ino (recView fs d ino)) b → DirRec (inodeParse ino (recView fs d' ino)) b
  dots : ∀ b ino, b ≠ ab → ¬ Meta fs b → Dots (blkView d b) ino → Dots (blkView d' b) ino

variable {i ab : ℕ}

lemma SameDev.kept (h : SameDev d d') : Kept fs i ab d d' := by
  refine ⟨h.nsect, fun b _ hu => ?_, fun ino _ hm => ?_, fun ino b _ _ _ hr => ?_,
    fun b ino _ _ hd => ?_⟩
  · rw [Used, h.blkView]
    exact hu
  · rw [Marked, h.blkView]
    exact hm
  · rw [h.recView]
    exact hr
  · rw [h.blkView]
    exact hd

lemma Kept.trans (h : Kept fs i ab d d') (h' : Kept fs i ab d' d'') : Kept fs i ab d d'' :=
  ⟨h'.nsect.trans h.nsect, fun b hb hu => h'.used b hb (h.used b hb hu),
    fun ino hi hm => h'.marked ino hi (h.marked ino hi hm),
    fun ino b h0 hne hg hr => h'.recs ino b h0 hne hg (h.recs ino b h0 hne hg hr),
    fun b ino hne hm hd => h'.dots b ino hne hm (h.dots b ino hne hm hd)⟩

/-- The bytes of a record are in its block. -/
lemma recView_eq (fs : E2Fs) (d : Dev) (ino i : ℕ) :
    recView fs d ino i = blkView d (recBlock fs ino) ((ino - 1) % 8 * 128 + i) := by
  rw [blkView_eq]
  refine congrArg d.data ?_
  show (fs.grp ((ino - 1) / 2048)).itable * 1024 + (ino - 1) % 2048 * 128 + i
    = ((fs.grp ((ino - 1) / 2048)).itable + (ino - 1) % 2048 / 8) * 1024 + ((ino - 1) % 8 * 128 + i)
  omega

lemma inodeParse_congr {raw raw' : ℕ → UInt8} (h : ∀ j < E2_INODE_SIZE, raw' j = raw j) :
    inodeParse ino raw' = inodeParse ino raw := by
  have hload (p m : ℕ) (hp : p + m ≤ 128) : load raw' p m = load raw p m :=
    load_congr fun j hj => h (p + j) (Nat.lt_of_lt_of_le (by omega : p + j < 128) (Nat.le_refl _))
  unfold inodeParse
  rw [hload 0 2 (by omega), hload 4 4 (by omega), hload 26 2 (by omega)]
  refine congrArg _ (funext fun j => ?_)
  split_ifs with hj
  · exact hload _ _ (by omega)
  · rfl

/-- A record changes with its block only. -/
lemma SameBlk.parse (h : SameBlk d d' (recBlock fs ino)) :
    inodeParse ino (recView fs d' ino) = inodeParse ino (recView fs d ino) := by
  refine inodeParse_congr fun j hj => ?_
  have hj' : j < 128 := hj
  rw [recView_eq, recView_eq]
  exact h _ (show (ino - 1) % 8 * 128 + j < 1024 by omega)

variable {c : ℕ}

/-- A block is overwritten: the bits of a bitmap stay set, a table is not touched, and a first
block is `ab` or keeps its shape. -/
lemma kept_putBlk (hl : Layout fs)
    (hbb : ∀ g < fs.ngroups, c = metaStart g → ∀ rel < E2_BPG,
      bmTest (blkView d c) rel = true → bmTest buf rel = true)
    (hib : ∀ g < fs.ngroups, c = metaStart g + 1 → ∀ rel < E2_IPG,
      bmTest (blkView d c) rel = true → bmTest buf rel = true)
    (hit : ∀ g < fs.ngroups, ∀ j < itableBlocks, c ≠ metaStart g + 2 + j)
    (hdots : c = ab ∨ Meta fs c ∨ ∀ ino, Dots (blkView d c) ino → Dots buf ino) :
    Kept fs i ab d (putBlk d c buf) := by
  have hself : ∀ rel < E2_BPG, bmTest (blkView (putBlk d c buf) c) rel = bmTest buf rel := by
    intro rel hrel
    rw [bmTest_eq, bmTest_eq, blkView_putBlk_self (by simp only [E2_BPG, E2_BSIZE] at *; omega)]
  refine ⟨rfl, fun b hb hu => ?_, fun ino hi hm => ?_, fun ino b h0 _ hg hr => ?_,
    fun b ino hne hm hd => ?_⟩
  · by_cases hc : (fs.grp ((b - 1) / E2_BPG)).bbmap = c
    · have hrel := Nat.mod_lt (b - 1) (by decide : 0 < E2_BPG)
      rw [Used, hc] at hu ⊢
      rw [hself _ hrel]
      rw [hl.grp _ hb] at hc
      exact hbb _ hb hc.symm _ hrel hu
    · rw [Used, (sameBlk_putBlk hc).bmTest (Nat.mod_lt _ (by decide))]
      exact hu
  · have hrel := Nat.mod_lt (ino - 1) (by decide : 0 < E2_IPG)
    have hrel' : (ino - 1) % E2_IPG < E2_BPG := Nat.lt_trans hrel (by decide)
    by_cases hc : (fs.grp ((ino - 1) / E2_IPG)).ibmap = c
    · rw [Marked, hc] at hm ⊢
      rw [hself _ hrel']
      rw [hl.grp _ hi] at hc
      exact hib _ hi hc.symm _ hrel hm
    · rw [Marked, (sameBlk_putBlk hc).bmTest hrel']
      exact hm
  · have hj : (ino - 1) % E2_IPG / 8 < itableBlocks := by
      show (ino - 1) % 2048 / 8 < 256
      omega
    have hne : recBlock fs ino ≠ c := by
      intro hc
      rw [recBlock, hl.grp _ hg] at hc
      exact hit _ hg _ hj hc.symm
    rw [(sameBlk_putBlk hne).parse]
    exact hr
  · by_cases hc : b = c
    · subst hc
      rcases hdots with rfl | hmeta | hdots
      · exact absurd rfl hne
      · exact absurd hmeta hm
      · exact (hdots ino hd).congr fun i hi => blkView_putBlk_self hi
    · exact hd.congr (sameBlk_putBlk hc)

/-- The blocks that are not in an inode table do not change with a record. -/
lemma sameBlk_putRec (hraw : raw.length = E2_INODE_SIZE)
    (hc : c ≠ recBlock fs ino) : SameBlk d (putRec fs d ino raw) c := by
  intro j hj
  have hlen : raw.length = 128 := hraw
  have hj' : j < 1024 := hj
  rw [blkView_eq, blkView_eq]
  show store d.data (inodeOff fs ino) raw (c * 1024 + j) = _
  have hoff : inodeOff fs ino = recBlock fs ino * 1024 + (ino - 1) % 8 * 128 := by
    show (fs.grp ((ino - 1) / 2048)).itable * 1024 + (ino - 1) % 2048 * 128
      = ((fs.grp ((ino - 1) / 2048)).itable + (ino - 1) % 2048 / 8) * 1024 + (ino - 1) % 8 * 128
    omega
  rcases Nat.lt_or_gt_of_ne hc with hlt | hgt
  · exact store_of_lt (by omega)
  · exact store_of_ge (by omega)

lemma inodeOff_eq (hl : Layout fs) (hg : (ino - 1) / E2_IPG < fs.ngroups) :
    inodeOff fs ino = (metaStart ((ino - 1) / 2048) + 2) * 1024 + (ino - 1) % 2048 * 128 := by
  rw [inodeOff, hl.grp _ hg]
  rfl

/-- The records of two inodes do not overlap. -/
lemma recView_putRec_of_ne (hl : Layout fs) {ino' : ℕ}
    (hraw : raw.length = E2_INODE_SIZE) (h0 : 0 < ino) (h0' : 0 < ino') (hne : ino' ≠ ino)
    (hg : (ino - 1) / E2_IPG < fs.ngroups) (hg' : (ino' - 1) / E2_IPG < fs.ngroups) :
    inodeParse ino' (recView fs (putRec fs d ino raw) ino') = inodeParse ino' (recView fs d ino') := by
  refine inodeParse_congr fun j hj => ?_
  have hlen : raw.length = 128 := hraw
  show store d.data (inodeOff fs ino) raw (inodeOff fs ino' + j) = d.data (inodeOff fs ino' + j)
  rw [inodeOff_eq hl hg, inodeOff_eq hl hg']
  simp only [metaStart, E2_BPG]
  by_cases hlt : ino' < ino
  · refine store_of_lt ?_
    split_ifs <;> omega
  · refine store_of_ge ?_
    split_ifs <;> omega

/-- A record is overwritten: it is the one of inode `i`, or it stays that of a directory. -/
lemma kept_putRec (hl : Layout fs) (hraw : raw.length = E2_INODE_SIZE)
    (h0 : 0 < ino) (hg : (ino - 1) / E2_IPG < fs.ngroups)
    (hrec : ino = i ∨ ∀ b, DirRec (inodeParse ino (recView fs d ino)) b →
      DirRec (inodeParse ino (recView fs (putRec fs d ino raw) ino)) b) :
    Kept fs i ab d (putRec fs d ino raw) := by
  have hj : (ino - 1) % E2_IPG / 8 < itableBlocks := by
    show (ino - 1) % 2048 / 8 < 256
    omega
  have hblk : recBlock fs ino = metaStart ((ino - 1) / E2_IPG) + (2 + (ino - 1) % E2_IPG / 8) := by
    rw [recBlock, hl.grp _ hg, Nat.add_assoc]
  have hlt : 2 + (ino - 1) % E2_IPG / 8 < 2 + itableBlocks := by omega
  refine ⟨rfl, fun b hb hu => ?_, fun ino' hi hm => ?_, fun ino' b h0' hne hg' hr => ?_,
    fun b ino' hne hm hd => ?_⟩
  · have hne : (fs.grp ((b - 1) / E2_BPG)).bbmap ≠ recBlock fs ino := by
      rw [hl.grp _ hb, hblk]
      intro hc
      have hpos := (metaStart_inj (j := 0) (by decide) hlt hc).2
      omega
    rw [Used, (sameBlk_putRec hraw hne).bmTest (Nat.mod_lt _ (by decide))]
    exact hu
  · have hne : (fs.grp ((ino' - 1) / E2_IPG)).ibmap ≠ recBlock fs ino := by
      rw [hl.grp _ hi, hblk]
      intro hc
      have hpos := (metaStart_inj (j := 1) (by decide) hlt hc).2
      omega
    have hrel : (ino' - 1) % E2_IPG < E2_BPG :=
      Nat.lt_trans (Nat.mod_lt _ (by decide)) (by decide)
    rw [Marked, (sameBlk_putRec hraw hne).bmTest hrel]
    exact hm
  · by_cases heq : ino' = ino
    · subst heq
      rcases hrec with rfl | hrec
      · exact absurd rfl hne
      · exact hrec b hr
    · rw [recView_putRec_of_ne hl hraw h0 h0' heq hg hg']
      exact hr
  · have hne : b ≠ recBlock fs ino := by
      rw [hblk]
      exact fun hc => hm ⟨_, hg, _, hlt, hc⟩
    exact hd.congr (sameBlk_putRec hraw hne)

/-! ## Allocations that succeed -/

/-- The bit of the block that is handed out was clear, and is set. -/
lemma balloc_inv (h : balloc fs d = (.ok ab, d')) :
    ∃ g < fs.ngroups, ∃ rel < E2_BPG, ab = g * E2_BPG + 1 + rel ∧ ab < fs.blocksCount ∧
      bmTest (blkView d (fs.grp g).bbmap) rel = false ∧
      SameDev (putBlk d (fs.grp g).bbmap (bmSet (blkView d (fs.grp g).bbmap) rel)) d' := by
  have hfrom : ∀ k g d, g + k = fs.ngroups → ballocFrom fs k g d = (.ok ab, d') →
      ∃ g < fs.ngroups, ∃ rel < E2_BPG, ab = g * E2_BPG + 1 + rel ∧ ab < fs.blocksCount ∧
        bmTest (blkView d (fs.grp g).bbmap) rel = false ∧
        SameDev (putBlk d (fs.grp g).bbmap (bmSet (blkView d (fs.grp g).bbmap) rel)) d' := by
    intro k
    induction k with
    | zero => exact fun _ _ _ hc => by cases hc
    | succ k ih =>
      intro g d hg hok
      rw [ballocFrom] at hok
      cases hread : blkRead d (fs.grp g).bbmap with
      | mk r d₁ =>
        rw [hread] at hok
        cases r with
        | error e => cases hok
        | ok bm =>
          obtain ⟨hd₁, rfl⟩ := blkRead_inv hread
          cases hscan : ballocScan fs g (blkView d (fs.grp g).bbmap) E2_BPG 0 with
          | none =>
            simp only [hscan] at hok
            obtain ⟨g', hg', rel, hrel, hab, hvol, hbit, hdev⟩ := ih (g + 1) d₁ (by omega) hok
            rw [hd₁.blkView] at hbit hdev
            exact ⟨g', hg', rel, hrel, hab, hvol, hbit, (hd₁.putBlk _ _).trans hdev⟩
          | some rel =>
            obtain ⟨hrel, hvol, hbit⟩ := ballocScan_spec E2_BPG 0 hscan
            simp only [hscan] at hok
            cases hwrite : blkWrite d₁ (fs.grp g).bbmap (bmSet (blkView d (fs.grp g).bbmap) rel) with
            | mk r d₂ =>
              rw [hwrite] at hok
              cases r with
              | error e => cases hok
              | ok u =>
                cases hok
                exact ⟨g, by omega, rel, by omega, rfl, hvol, hbit,
                  (hd₁.putBlk _ _).trans (blkWrite_inv hwrite)⟩
  exact hfrom fs.ngroups 0 d (Nat.zero_add _) h

lemma iallocScan_spec {bm : ℕ → UInt8} (fuel rel : ℕ) {found : ℕ}
    (h : iallocScan bm fuel rel = some found) :
    rel ≤ found ∧ found < rel + fuel ∧ bmTest bm found = false := by
  induction fuel generalizing rel with
  | zero => cases h
  | succ fuel ih =>
    rw [iallocScan] at h
    split_ifs at h with hbit
    · obtain rfl : rel = found := Option.some.inj h
      exact ⟨Nat.le_refl rel, by omega, hbit⟩
    · obtain ⟨h1, h2, h3⟩ := ih (rel + 1) h
      exact ⟨by omega, by omega, h3⟩

/-- So is the bit of an inode; the reserved ones of the first group are passed over. -/
lemma ialloc_inv (h : ialloc fs d = (.ok ino, d')) :
    ∃ g < fs.ngroups, ∃ rel < E2_IPG, ino = g * E2_IPG + rel + 1 ∧
      bmTest (blkView d (fs.grp g).ibmap) rel = false ∧
      SameDev (putBlk d (fs.grp g).ibmap (bmSet (blkView d (fs.grp g).ibmap) rel)) d' ∧
      (g = 0 → E2_FIRST_INO - 1 ≤ rel) ∧ (fs.grp g).ibmap * E2_SECT_PER_BLK < d.nsect := by
  have hfrom : ∀ k g d, g + k = fs.ngroups → iallocFrom fs k g d = (.ok ino, d') →
      ∃ g < fs.ngroups, ∃ rel < E2_IPG, ino = g * E2_IPG + rel + 1 ∧
        bmTest (blkView d (fs.grp g).ibmap) rel = false ∧
        SameDev (putBlk d (fs.grp g).ibmap (bmSet (blkView d (fs.grp g).ibmap) rel)) d' ∧
        (g = 0 → E2_FIRST_INO - 1 ≤ rel) ∧ (fs.grp g).ibmap * E2_SECT_PER_BLK < d.nsect := by
    intro k
    induction k with
    | zero => exact fun _ _ _ hc => by cases hc
    | succ k ih =>
      intro g d hg hok
      rw [iallocFrom] at hok
      cases hread : blkRead d (fs.grp g).ibmap with
      | mk r d₁ =>
        rw [hread] at hok
        cases r with
        | error e => cases hok
        | ok bm =>
          obtain ⟨hd₁, rfl⟩ := blkRead_inv hread
          generalize hstart : (if g = 0 then E2_FIRST_INO - 1 else 0) = start at hok
          cases hscan : iallocScan (blkView d (fs.grp g).ibmap) (E2_IPG - start) start with
          | none =>
            simp only [hscan] at hok
            obtain ⟨g', hg', rel, hrel, hino, hbit, hdev, hfirst, hlt⟩ := ih (g + 1) d₁ (by omega) hok
            rw [hd₁.blkView] at hbit hdev
            rw [hd₁.nsect] at hlt
            exact ⟨g', hg', rel, hrel, hino, hbit, (hd₁.putBlk _ _).trans hdev, hfirst, hlt⟩
          | some rel =>
            obtain ⟨hge, hrel, hbit⟩ := iallocScan_spec _ _ hscan
            simp only [hscan] at hok
            cases hwrite : blkWrite d₁ (fs.grp g).ibmap (bmSet (blkView d (fs.grp g).ibmap) rel) with
            | mk r d₂ =>
              rw [hwrite] at hok
              cases r with
              | error e => cases hok
              | ok u =>
                cases hok
                refine ⟨g, by omega, rel, by omega, rfl, hbit,
                  (hd₁.putBlk _ _).trans (blkWrite_inv hwrite), fun h0 => ?_, blkRead_lt hread⟩
                rw [if_pos h0] at hstart
                omega
  exact hfrom fs.ngroups 0 d (Nat.zero_add _) h

lemma bmTest_putBlk_bmSet {rel rel' : ℕ} (hrel : rel' < E2_BPG) :
    bmTest (blkView (putBlk d c (bmSet (blkView d c) rel)) c) rel'
      = (bmTest (blkView d c) rel' || decide (rel' = rel)) := by
  rw [← bmTest_bmSet, bmTest_eq, bmTest_eq,
    blkView_putBlk_self (by simp only [E2_BPG, E2_BSIZE] at *; omega)]

/-- The block that `balloc` answers with. -/
structure NewBlock (fs : E2Fs) (d d' : Dev) (ab : ℕ) : Prop where
  pos : 0 < ab
  lt : ab < 2 ^ 32
  vol : ab < fs.blocksCount
  group : (ab - 1) / E2_BPG < fs.ngroups
  free : ¬ Used fs d ab
  used : Used fs d' ab

lemma balloc_new (hl : Layout fs) (h : balloc fs d = (.ok ab, d')) :
    NewBlock fs d d' ab ∧ ∀ i x, Kept fs i x d d' := by
  obtain ⟨g, hg, rel, hrel, rfl, hvol, hbit, hdev⟩ := balloc_inv h
  have hle : fs.ngroups ≤ 16 := hl.le
  have hrel' : rel < 8192 := hrel
  have hdiv : (g * E2_BPG + 1 + rel - 1) / E2_BPG = g := by
    show (g * 8192 + 1 + rel - 1) / 8192 = g
    omega
  have hmod : (g * E2_BPG + 1 + rel - 1) % E2_BPG = rel := by
    show (g * 8192 + 1 + rel - 1) % 8192 = rel
    omega
  have hused (d : Dev) : Used fs d (g * E2_BPG + 1 + rel) ↔
      bmTest (blkView d (fs.grp g).bbmap) rel = true := by rw [Used, hdiv, hmod]
  refine ⟨⟨by omega, ?_, hvol, hdiv.symm ▸ hg, ?_, ?_⟩, fun i x =>
    Kept.trans (kept_putBlk hl ?_ ?_ ?_ ?_) hdev.kept⟩
  · show g * 8192 + 1 + rel < 4294967296
    omega
  · rw [hused, hbit]
    exact Bool.false_ne_true
  · rw [hused, hdev.blkView, bmTest_putBlk_bmSet hrel]
    simp
  · intro g' hg' _ r hr hr'
    rw [bmTest_bmSet, hr']
    rfl
  · intro g' hg' hc
    rw [hl.grp g hg] at hc
    exact absurd (metaStart_inj (j := 0) (l := 1) (by decide) (by decide) hc).2 (by decide)
  · intro g' hg' j hj hc
    rw [hl.grp g hg, Nat.add_assoc] at hc
    have hpos := (metaStart_inj (j := 0) (by decide) (by omega) hc).2
    omega
  · rw [hl.grp g hg]
    exact .inr (.inl ⟨g, hg, 0, by decide, rfl⟩)

/-- The number that `ialloc` answers with. -/
structure NewIno (fs : E2Fs) (d d' : Dev) (ino : ℕ) : Prop where
  pos : 0 < ino
  lt : ino < 2 ^ 32
  group : (ino - 1) / E2_IPG < fs.ngroups
  free : ¬ Marked fs d ino
  marked : Marked fs d' ino

lemma ialloc_new (hl : Layout fs) (h : ialloc fs d = (.ok ino, d')) :
    NewIno fs d d' ino ∧ ∀ i x, Kept fs i x d d' := by
  obtain ⟨g, hg, rel, hrel, rfl, hbit, hdev, -, -⟩ := ialloc_inv h
  have hle : fs.ngroups ≤ 16 := hl.le
  have hrel' : rel < 2048 := hrel
  have hdiv : (g * E2_IPG + rel + 1 - 1) / E2_IPG = g := by
    show (g * 2048 + rel + 1 - 1) / 2048 = g
    omega
  have hmod : (g * E2_IPG + rel + 1 - 1) % E2_IPG = rel := by
    show (g * 2048 + rel + 1 - 1) % 2048 = rel
    omega
  have hmarked (d : Dev) : Marked fs d (g * E2_IPG + rel + 1) ↔
      bmTest (blkView d (fs.grp g).ibmap) rel = true := by rw [Marked, hdiv, hmod]
  refine ⟨⟨by omega, ?_, hdiv.symm ▸ hg, ?_, ?_⟩, fun i x => Kept.trans (kept_putBlk hl ?_ ?_ ?_ ?_)
    hdev.kept⟩
  · show g * 2048 + rel + 1 < 4294967296
    omega
  · rw [hmarked, hbit]
    exact Bool.false_ne_true
  · rw [hmarked, hdev.blkView, bmTest_putBlk_bmSet (Nat.lt_trans hrel (by decide))]
    simp
  · intro g' hg' hc
    rw [hl.grp g hg] at hc
    exact absurd (metaStart_inj (j := 1) (l := 0) (by decide) (by decide) hc).2 (by decide)
  · intro g' hg' _ r hr hr'
    rw [bmTest_bmSet, hr']
    rfl
  · intro g' hg' j hj hc
    rw [hl.grp g hg, Nat.add_assoc (metaStart g') 2 j] at hc
    have hpos := (metaStart_inj (j := 1) (by decide) (by omega) hc).2
    omega
  · rw [hl.grp g hg]
    exact .inr (.inl ⟨g, hg, 1, by decide, rfl⟩)

lemma kept_data (hl : Layout fs) (hc : ¬ Meta fs c)
    (hdots : c = ab ∨ ∀ ino, Dots (blkView d c) ino → Dots buf ino) :
    Kept fs i ab d (putBlk d c buf) := by
  refine kept_putBlk hl ?_ ?_ ?_ (hdots.imp_right .inr)
  · exact fun g hg heq => absurd ⟨g, hg, 0, by decide, heq⟩ hc
  · exact fun g hg heq => absurd ⟨g, hg, 1, by decide, heq⟩ hc
  · exact fun g hg j hj heq => hc ⟨g, hg, 2 + j, by omega, by omega⟩

lemma Meta.group (h : Meta fs b) : (b - 1) / E2_BPG < fs.ngroups := by
  obtain ⟨g, hg, j, hj, rfl⟩ := h
  have hj' : j < 258 := hj
  have hdiv : (metaStart g + j - 1) / 8192 = g := by
    simp only [metaStart, E2_BPG]
    split_ifs <;> omega
  exact hdiv.symm ▸ hg

/-! ## Directories -/

/-- Inode `ino` is a directory on the device whose first block is `b`. -/
structure DirAt (fs : E2Fs) (d : Dev) (ino b : ℕ) : Prop where
  pos : 0 < ino
  group : (ino - 1) / E2_IPG < fs.ngroups
  marked : Marked fs d ino
  blkPos : 0 < b
  blkLt : b < 2 ^ 32
  blkGroup : (b - 1) / E2_BPG < fs.ngroups
  used : Used fs d b
  notMeta : ¬ Meta fs b
  entry : DirRec (inodeParse ino (recView fs d ino)) b
  dots : Dots (blkView d b) ino

lemma DirAt.kept (h : DirAt fs d ino b) (hk : Kept fs i ab d d') (hi : ino ≠ i) (hb : b ≠ ab) :
    DirAt fs d' ino b :=
  ⟨h.pos, h.group, hk.marked ino h.group h.marked, h.blkPos, h.blkLt, h.blkGroup,
    hk.used b h.blkGroup h.used, h.notMeta, hk.recs ino b h.pos hi h.group h.entry,
    hk.dots b ino hb h.notMeta h.dots⟩

/-- The directory gets an entry. -/
lemma DirAt.add (hl : Layout fs) (h : DirAt fs d n.ino b)
    (hn : DirRec n b) (hname : name.length < 255)
    (hadd : dirAddEntry fs n child name ftype d = (.ok (), d', n')) :
    n' = n ∧ ∀ i x, Kept fs i x d d' := by
  obtain ⟨rfl, hdev⟩ := dirAddEntry_inv hn h.blkPos.ne' h.pos.ne' h.dots hname hadd
  refine ⟨rfl, fun i x => (kept_data hl h.notMeta (.inr fun ino hd => ?_)).trans hdev.kept⟩
  exact hd.split child ftype name

/-- The record of the directory is written again. -/
lemma DirAt.store (hl : Layout fs) (h : DirAt fs d n.ino b) (hn : DirRec n b)
    (hstore : inodeStore fs n d = (.ok (), d')) : ∀ i x, Kept fs i x d d' := by
  intro i x
  refine Kept.trans ?_ (inodeStore_inv hstore).kept
  refine kept_putRec hl (inodeRaw_length n) h.pos h.group (.inr fun b' hb' => ?_)
  obtain rfl : b = b' := h.entry.blk.symm.trans hb'.blk
  exact inodeParse_raw hn h.blkLt

/-! ## Operations that succeed -/

/-- What an operation changes: at most the record of an inode that was free, and a first
block that was. -/
def Changed (fs : E2Fs) (d d' : Dev) : Prop :=
  ∃ i ab, (i = 0 ∨ ¬ Marked fs d i) ∧ (ab = 0 ∨ ¬ Used fs d ab) ∧ Kept fs i ab d d'

lemma DirAt.changed (h : DirAt fs d ino b) (hc : Changed fs d d') : DirAt fs d' ino b := by
  obtain ⟨i, ab, hi, hab, hk⟩ := hc
  refine h.kept hk ?_ ?_
  · rintro rfl
    exact hi.elim h.pos.ne' fun hi => hi h.marked
  · rintro rfl
    exact hab.elim h.blkPos.ne' fun hab => hab h.used

lemma SameDev.changed (h : SameDev d d') : Changed fs d d' := ⟨0, 0, .inl rfl, .inl rfl, h.kept⟩

variable {fresh : Inode}

lemma createFile_inv (hl : Layout fs) {km : Kmem} (h : DirAt fs d n.ino b)
    (hn : DirRec n b) (hname : name ≠ []) (hlen : name.length < 255)
    (hok : createFile fs km n name d = (.ok fresh, d', n')) :
    fresh.isDir = false ∧ n' = n ∧ Changed fs d d' := by
  unfold createFile at hok
  split at hok
  · cases hok
  · cases hok
  rename_i d₁ hfind
  have hd₁ := (dirFind_inv hn h.blkPos.ne' h.dots hname hfind).1
  split at hok
  · cases hok
  rename_i ino d₂ halloc
  obtain ⟨hnew, hk₂⟩ := ialloc_new hl halloc
  have hfree₁ : ¬ Marked fs d ino := by
    intro hm
    exact hnew.free ((hd₁.kept : Kept fs 0 0 d d₁).marked ino hnew.group hm)
  split at hok
  · cases hok
  simp only at hok
  split at hok
  · cases hok
  rename_i d₃ hstore
  have hk₃ : Kept fs ino 0 d d₃ := by
    refine (hd₁.kept.trans (hk₂ ino 0)).trans (Kept.trans ?_ (inodeStore_inv hstore).kept)
    exact kept_putRec hl (inodeRaw_length _) hnew.pos hnew.group (.inl rfl)
  have hchanged : Changed fs d d₃ := ⟨ino, 0, .inr hfree₁, .inl rfl, hk₃⟩
  split at hok
  · cases hok
  rename_i d₄ dir hadd
  cases hok
  obtain ⟨rfl, hk₄⟩ := (h.changed hchanged).add hl hn hlen hadd
  exact ⟨rfl, rfl, ino, 0, .inr hfree₁, .inl rfl, hk₃.trans (hk₄ ino 0)⟩

/-- A new directory's first block. -/
lemma bmap_new (hl : Layout fs) (hmeta : ∀ b, Meta fs b → Used fs d b)
    (hzero : fresh.blk 0 = 0) (h0 : 0 < fresh.ino) (hg : (fresh.ino - 1) / E2_IPG < fs.ngroups)
    (hok : bmap fs fresh 0 true d = (.ok ab, d', n')) :
    NewBlock fs d d' ab ∧ ¬ Meta fs ab ∧ Kept fs fresh.ino ab d d' ∧
      n' = { fresh with blk := Function.update fresh.blk 0 ab } := by
  have hplace : place 0 = ⟨0, 1, 0⟩ := rfl
  rw [bmap, if_neg (by decide), hplace] at hok
  simp only [Nat.sub_self, bmapLevel, bmapRoot, hzero, if_true, Bool.true_eq_false, if_false,
    ballocZero] at hok
  cases halloc : balloc fs d with
  | mk r d₁ =>
    rw [halloc] at hok
    cases r with
    | error e => cases hok
    | ok ab' =>
      obtain ⟨hnew, hk₁⟩ := balloc_new hl halloc
      have hdata : ¬ Meta fs ab' := fun hm => hnew.free (hmeta ab' hm)
      simp only at hok
      cases hwrite : blkWrite d₁ ab' fun _ => 0 with
      | mk r d₂ =>
        rw [hwrite] at hok
        cases r with
        | error e => cases hok
        | ok u =>
          have hk₂ : Kept fs fresh.ino ab' d₁ d₂ :=
            (kept_data hl hdata (.inl rfl)).trans (blkWrite_inv hwrite).kept
          simp only at hok
          cases hstore : inodeStore fs { fresh with blk := Function.update fresh.blk 0 ab' } d₂ with
          | mk r d₃ =>
            rw [hstore] at hok
            cases r with
            | error e => cases hok
            | ok u =>
              cases hok
              have hk₃ : Kept fs fresh.ino ab d₂ d' := by
                refine Kept.trans ?_ (inodeStore_inv hstore).kept
                exact kept_putRec hl (inodeRaw_length _) h0 hg (.inl rfl)
              have hk := hk₂.trans hk₃
              exact ⟨⟨hnew.pos, hnew.lt, hnew.vol, hnew.group, hnew.free,
                hk.used ab hnew.group hnew.used⟩,
                hdata, (hk₁ _ _).trans hk, rfl⟩

/-- The new directory has a block of its own; of its parent only the links change. -/
lemma mkdirChild_inv (hl : Layout fs) (hmeta : ∀ b, Meta fs b → Used fs d b) {km : Kmem} (h : DirAt fs d n.ino b) (hn : DirRec n b) (hname : name ≠ [])
    (hlen : name.length < 255) (hok : mkdirChild fs km n name d = (.ok fresh, d', n')) :
    n' = { n with links := n'.links } ∧ Changed fs d d' ∧
      DirRec fresh (fresh.blk 0) ∧ DirAt fs d' fresh.ino (fresh.blk 0) := by
  unfold mkdirChild at hok
  split at hok
  · cases hok
  · cases hok
  rename_i d₁ hfind
  have hd₁ := (dirFind_inv hn h.blkPos.ne' h.dots hname hfind).1
  split at hok
  · cases hok
  rename_i ino d₂ halloc
  obtain ⟨hnew, hk₂⟩ := ialloc_new hl halloc
  split at hok
  · cases hok
  split at hok
  · cases hok
  rename_i ab d₃ n₃ hbmap
  have hmeta₂ : ∀ b, Meta fs b → Used fs d₂ b := fun b hb =>
    (hd₁.kept.trans (hk₂ 0 0)).used b hb.group (hmeta b hb)
  obtain ⟨hblk, hdata, hk₃, rfl⟩ := bmap_new hl hmeta₂ rfl hnew.pos hnew.group hbmap
  split at hok
  · cases hok
  rename_i bb d₄ hread
  have hd₄ := (blkRead_inv hread).1
  split at hok
  · cases hok
  rename_i d₅ hwrite
  have hd₅ := blkWrite_inv hwrite
  simp only at hok
  split at hok
  · cases hok
  rename_i d₆ hstore
  have hd₆ := inodeStore_inv hstore
  split at hok
  · cases hok
  rename_i d₇ parent hadd
  split at hok
  · cases hok
  rename_i d₈ hparent
  cases hok
  -- the new inode and its block were free, and every step but these two spares both
  have hk₅ : ∀ i, Kept fs i ab d₃ d₅ := fun i =>
    (hd₄.kept.trans (kept_data hl hdata (.inl rfl))).trans hd₅.kept
  have hk₆ : ∀ x, Kept fs ino x d₅ d₆ := fun x =>
    (kept_putRec hl (inodeRaw_length _) hnew.pos hnew.group (.inl rfl)).trans hd₆.kept
  have hk₂₆ : Kept fs ino ab d₂ d₆ := (hk₃.trans (hk₅ ino)).trans (hk₆ ab)
  have hk : Kept fs ino ab d d₆ := (hd₁.kept.trans (hk₂ ino ab)).trans hk₂₆
  have hfreeIno : ¬ Marked fs d ino := fun hm =>
    hnew.free ((hd₁.kept : Kept fs 0 0 d d₁).marked ino hnew.group hm)
  have hfreeBlk : ¬ Used fs d ab := fun hu =>
    hblk.free ((hd₁.kept.trans (hk₂ 0 0)).used ab hblk.group hu)
  have h₆ := h.changed ⟨ino, ab, .inr hfreeIno, .inr hfreeBlk, hk⟩
  obtain ⟨rfl, hk₇⟩ := h₆.add hl hn hlen hadd
  have hn' : DirRec { parent with links := (parent.links + 1) % 2 ^ 16 } b :=
    ⟨hn.isDir, hn.size, hn.blk⟩
  have hk₈ := DirAt.store (n := { parent with links := (parent.links + 1) % 2 ^ 16 }) hl
    (h₆.kept (hk₇ 0 0) h₆.pos.ne' h₆.blkPos.ne') hn' hparent
  have hrec : DirRec ⟨ino, true, E2_BSIZE, 2, Function.update (fun _ => 0) 0 ab⟩ ab :=
    ⟨rfl, rfl, Function.update_self (0 : ℕ) ab fun _ => 0⟩
  have hentry : DirRec (inodeParse ino (recView fs d₆ ino)) ab := by
    rw [hd₆.recView]
    exact inodeParse_raw hrec hblk.lt
  have hdots : Dots (blkView d₅ ab) ino := by
    rw [hd₅.blkView]
    exact (dots_dotsBlock hnew.lt ⟨hnew.pos, hnew.lt⟩).congr fun i hi => blkView_putBlk_self hi
  have hfresh : DirAt fs d₆ ino ab := by
    refine ⟨hnew.pos, hnew.group, hk₂₆.marked ino hnew.group hnew.marked, hblk.pos, hblk.lt,
      hblk.group, ?_, hdata, hentry, (hk₆ 0).dots ab ino hblk.pos.ne' hdata hdots⟩
    exact ((hk₅ ino).trans (hk₆ ab)).used ab hblk.group hblk.used
  have hk₆₈ : ∀ i x, Kept fs i x d₆ d' := fun i x => (hk₇ i x).trans (hk₈ i x)
  exact ⟨rfl, ⟨ino, ab, .inr hfreeIno, .inr hfreeBlk, hk.trans (hk₆₈ ino ab)⟩, hrec,
    hfresh.kept (hk₆₈ 0 0) hnew.pos.ne' hblk.pos.ne'⟩

end

/-! ## Runs -/

section

variable {fs : E2Fs} {s s' : Vol}

/-- The first block of the root directory. -/
def rootBlock : ℕ := 261

/-- What holds of every volume that `ext2_mkfs` has made: the metadata is marked used, and the
root and the directories that are held have a first block of the one shape. -/
structure DirsOk (fs : E2Fs) (s : Vol) : Prop where
  layout : Layout fs
  nsect : 2 * rootBlock < s.dev.nsect
  metadata : ∀ b, Meta fs b → Used fs s.dev b
  root : DirAt fs s.dev E2_ROOT_INO rootBlock
  held : ∀ n ∈ s.held, n.isDir = true → DirRec n (n.blk 0) ∧ DirAt fs s.dev n.ino (n.blk 0)

section

variable (h : DirsOk fs s)
include h

variable {i : ℕ} {name : List UInt8}

lemma DirsOk.asked {dir : Inode}
    (ha : Asked s i name dir) : DirRec dir (dir.blk 0) ∧ DirAt fs s.dev dir.ino (dir.blk 0) :=
  h.held dir (List.mem_of_getElem? ha.1) ha.2.1

/-- The directories survive a change, and so do those that join them. -/
lemma DirsOk.changed (hc : Changed fs s.dev s'.dev)
    (hheld : ∀ n ∈ s'.held, n.isDir = true → n ∈ s.held ∨
      (∃ m ∈ s.held, n = { m with links := n.links }) ∨
      DirRec n (n.blk 0) ∧ DirAt fs s'.dev n.ino (n.blk 0)) : DirsOk fs s' := by
  refine ⟨h.layout, ?_, fun b hb => ?_, h.root.changed hc, fun n hn hdir => ?_⟩
  · obtain ⟨i, ab, -, -, hk⟩ := hc
    rw [hk.nsect]
    exact h.nsect
  · obtain ⟨i, ab, -, -, hk⟩ := hc
    exact hk.used b hb.group (h.metadata b hb)
  · rcases hheld n hn hdir with hm | ⟨m, hm, hlinks⟩ | hnew
    · obtain ⟨hrec, hat⟩ := h.held n hm hdir
      exact ⟨hrec, hat.changed hc⟩
    · rw [hlinks] at hdir ⊢
      obtain ⟨hrec, hat⟩ := h.held m hm hdir
      exact ⟨⟨hrec.isDir, hrec.size, hrec.blk⟩, hat.changed hc⟩
    · exact hnew

lemma DirsOk.lookup
    (hs : VolStep fs s (.lookup i name) s') : DirsOk fs s' ∧ Changed fs s.dev s'.dev := by
  obtain ⟨dir, km, n, ha, hok, hheld⟩ := hs
  obtain ⟨hrec, hat⟩ := h.asked ha
  unfold Ext2.lookup at hok
  rw [if_neg ha.2.2.2] at hok
  split at hok
  · cases hok
  · cases hok
  rename_i doff ent d₁ hfind
  obtain ⟨hd₁, hfound⟩ := dirFind_inv hrec hat.blkPos.ne' hat.dots ha.2.2.2 hfind
  have hino : ent.ino = dir.ino := (hfound (doff, ent) rfl).2
  split at hok
  · cases hok
  split at hok
  · cases hok
  rename_i n' d₂ hload
  split at hok
  · cases hok
  cases hok
  obtain ⟨hd₂, rfl⟩ := inodeLoad_inv hload
  have hdev := hd₁.trans hd₂
  refine ⟨h.changed hdev.changed fun m hm hdir => ?_, hdev.changed⟩
  rw [hheld, List.mem_append, List.mem_singleton] at hm
  rcases hm with hm | rfl
  · exact .inl hm
  refine .inr (.inr ?_)
  rw [hd₁.recView, hino]
  have hentry := hat.entry
  have hblk := hentry.blk
  exact ⟨⟨hentry.isDir, hentry.size, rfl⟩, hblk.symm ▸ hat.changed hdev.changed⟩

lemma DirsOk.create {isDir : Bool}
    (hs : VolStep fs s (.create i name isDir) s') : DirsOk fs s' ∧ Changed fs s.dev s'.dev := by
  obtain ⟨dir, km, n, dir', ha, hok, hheld⟩ := hs
  obtain ⟨hrec, hat⟩ := h.asked ha
  have hmem := List.mem_of_getElem? ha.1
  unfold Ext2.create at hok
  split at hok
  · cases hok
  rename_i hlen
  have hlen' : name.length < 255 := by omega
  split at hok
  · cases hok
  rename_i fresh d₁ dir₁ hmade
  split at hok
  · cases hok
  cases hok
  cases isDir with
  | false =>
    rw [if_neg Bool.false_ne_true] at hmade
    obtain ⟨hfile, rfl, hc⟩ := createFile_inv h.layout hat hrec ha.2.2.2 hlen' hmade
    refine ⟨h.changed hc fun m hm hdir => ?_, hc⟩
    rw [hheld, List.mem_append, List.mem_singleton] at hm
    rcases hm with hm | rfl
    · exact .inl ((List.mem_or_eq_of_mem_set hm).elim id fun heq => heq ▸ hmem)
    · rw [hfile] at hdir
      exact absurd hdir Bool.false_ne_true
  | true =>
    rw [if_pos rfl] at hmade
    obtain ⟨hlinks, hc, hnew⟩ := mkdirChild_inv h.layout h.metadata hat hrec ha.2.2.2 hlen' hmade
    refine ⟨h.changed hc fun m hm _ => ?_, hc⟩
    rw [hheld, List.mem_append, List.mem_singleton] at hm
    rcases hm with hm | rfl
    · rcases List.mem_or_eq_of_mem_set hm with hm | rfl
      · exact .inl hm
      · exact .inr (.inl ⟨dir, hmem, hlinks⟩)
    · exact .inr (.inr hnew)

/-- The only name that can be found is `.`, which cannot be removed. -/
lemma DirsOk.unlink
    (hs : VolStep fs s (.unlink i name) s') : False := by
  obtain ⟨dir, dir', ha, hok, -⟩ := hs
  obtain ⟨hrec, hat⟩ := h.asked ha
  unfold Ext2.unlink at hok
  split at hok
  · cases hok
  · cases hok
  rename_i doff ent d₁ hfind
  have hfound := (dirFind_inv hrec hat.blkPos.ne' hat.dots ha.2.2.2 hfind).2
  have hname : ent.name = dot := (hfound (doff, ent) rfl).1
  have hdot : strEq ent.name dot = true := by
    rw [hname]
    rfl
  rw [if_pos (.inl hdot)] at hok
  cases hok

/-- An operation keeps the invariant, and changes what was free only. -/
lemma DirsOk.step_changed {op : VolOp} (hs : VolStep fs s op s') :
    DirsOk fs s' ∧ Changed fs s.dev s'.dev := by
  cases op with
  | lookup i name => exact h.lookup hs
  | create i name isDir => exact h.create hs
  | unlink i name => exact (h.unlink hs).elim
  | destroy i =>
    obtain ⟨hdev, hheld⟩ := hs
    have hsame : SameDev s.dev s'.dev := hdev ▸ .refl s.dev
    refine ⟨h.changed hsame.changed fun n hn _ => .inl ?_, hsame.changed⟩
    rw [hheld] at hn
    exact List.mem_of_mem_eraseIdx hn

lemma DirsOk.step {op : VolOp} (hs : VolStep fs s op s') : DirsOk fs s' :=
  (h.step_changed hs).1

end

/-! ## The law -/

variable {d : Dev} {n : Inode} {b : ℕ}

/-- One round of the walk over the entries. -/
lemma mem_entriesFrom {fuel doff : ℕ} {x : ℕ × Dirent} (hn : DirRec n b)
    (hb : b ≠ 0) (hdoff : doff < E2_BSIZE) (hx : x ∈ entriesFrom fs d n (fuel + 1) doff) :
    x = (doff, direntOf (blkView d b) doff) ∨
      x ∈ entriesFrom fs d n fuel (doff + load (blkView d b) (doff + 4) 2) := by
  rw [entriesFrom, hn.size, if_pos hdoff] at hx
  cases hent : dirEntAt fs n doff (quiet d) with
  | mk r d₁ =>
    rw [hent] at hx
    cases r with
    | error e => exact absurd hx List.not_mem_nil
    | ok res =>
      obtain ⟨-, rfl⟩ := dirEntAt_inv hn hb hdoff hent
      simp only at hx
      split_ifs at hx
      · exact List.mem_cons.mp hx
      · exact .inr hx

lemma entriesFrom_end {fuel doff : ℕ} (hn : DirRec n b)
    (hdoff : E2_BSIZE ≤ doff) : entriesFrom fs d n fuel doff = [] := by
  cases fuel with
  | zero => rfl
  | succ fuel => rw [entriesFrom, hn.size, if_neg (by omega)]

/-- The entries of a directory are `.` and one without a name. -/
lemma Dots.entries {ino : ℕ} {x : ℕ × Dirent} (h : Dots (blkView d b) ino)
    (hn : DirRec n b) (hb : b ≠ 0) (hx : x ∈ entries fs d n) : x.2.name = dot ∨ x.2.name = [] := by
  rw [Ext2.entries, hn.size] at hx
  have hfuel : x ∈ entriesFrom fs d n (1022 + 1 + 1) 0 := hx
  rcases mem_entriesFrom hn hb (by decide) hfuel with rfl | hnext
  · exact .inl h.first_name
  rw [h.len] at hnext
  rcases mem_entriesFrom hn hb (by decide) hnext with rfl | hlast
  · exact .inr h.second_name
  rw [h.nextLen, entriesFrom_end hn (by decide)] at hlast
  exact absurd hlast List.not_mem_nil

/-- The root directory is live, and is read as it stands on the device. -/
lemma DirsOk.root_live (h : DirsOk fs s) :
    inodeParse E2_ROOT_INO (recView fs s.dev E2_ROOT_INO) ∈ liveDirs fs s.dev := by
  have hgroup : (E2_ROOT_INO - 1) / E2_IPG < fs.ngroups := h.layout.pos
  have hoff : inodeOff fs E2_ROOT_INO = 5248 := inodeOff_eq h.layout hgroup
  have hnsect : 2 * 261 < s.dev.nsect := h.nsect
  have hread : sectRead (quiet s.dev) (inodeOff fs E2_ROOT_INO / 512)
      = (.ok (s.dev.view (inodeOff fs E2_ROOT_INO / 512)), quiet s.dev) := by
    have hlt : ¬ inodeOff fs E2_ROOT_INO / 512 + 1 > (quiet s.dev).nsect := by
      show ¬ inodeOff fs E2_ROOT_INO / 512 + 1 > s.dev.nsect
      omega
    rw [sectRead, if_neg hlt]
    rfl
  have hload : ∃ n, inodeLoad fs E2_ROOT_INO (quiet s.dev) = (.ok n, quiet s.dev) := by
    unfold inodeLoad inodeGather
    simp only [hread, if_pos (inodeOff_sector fs E2_ROOT_INO)]
    exact ⟨_, rfl⟩
  obtain ⟨n, hload⟩ := hload
  have hn : n = inodeParse E2_ROOT_INO (recView fs s.dev E2_ROOT_INO) := (inodeLoad_inv hload).2
  refine List.mem_filter.mpr ⟨List.mem_filterMap.mpr ⟨E2_ROOT_INO, ?_, ?_⟩, h.root.entry.isDir⟩
  · have hpos := h.layout.pos
    refine List.mem_range.mpr ?_
    show 2 < fs.ngroups * 2048 + 1
    omega
  · have hlive : Live fs s.dev E2_ROOT_INO = true := by simp [Live]
    rw [if_pos hlive, hload, ← hn]
    rfl

/-- The root directory has no entry `..`. -/
lemma DirsOk.not_law (h : DirsOk fs s) : ¬ TreeLaw fs s.dev := by
  intro hlaw
  obtain ⟨x, hx, -, hname, -⟩ := hlaw.up _ h.root_live
  rcases h.root.dots.entries h.root.entry h.root.blkPos.ne' hx with hdot | hempty
  · rw [hdot] at hname
    exact absurd hname (by decide)
  · rw [hempty] at hname
    exact absurd hname (by decide)

end

end Ext2
end MobilePhoneOs.Fs
