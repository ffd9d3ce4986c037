import MobilePhoneOs.Fs.Ext2
import MobilePhoneOs.Lib.Radix
import MobilePhoneOs.Lib.Run
import Mathlib.Data.Nat.Bitwise
import Mathlib.Tactic.Linarith

/-!
# The ext2 block map

The blocks of an inode are 15 trees, read off the device: `Holds d p t` says that the
pointer `p` leads to the tree `t`. An allocating walk puts blocks into the tree that were
free before, so a tree without repetitions keeps none; what the walk gets wrong is the path
it takes, which is the same for many logical blocks.
-/

namespace MobilePhoneOs

open Function (update update_self update_of_ne update_eq_self)
open Radix (all_of_kid frames_subset_all lookup_mem_all lookup_node nodup_kid)
namespace Fs
namespace Ext2

open Mem
open Fin (ofNat val_mk)
open List (mem_cons_self mem_finRange)
open Nat (mod_eq_of_lt mod_lt)

/-! ## Blocks -/

/-- The two devices hold the same bytes in block `b`. -/
def SameBlk (d d' : Dev) (b : ℕ) : Prop := ∀ i < E2_BSIZE, blkView d' b i = blkView d b i

variable {d : Dev} {b : ℕ}

variable {d' : Dev}

lemma SameBlk.trans {d'' : Dev} (h : SameBlk d d' b) (h' : SameBlk d' d'' b) :
    SameBlk d d'' b := fun i hi => (h' i hi).trans (h i hi)

lemma blkView_eq (d : Dev) (b i : ℕ) : blkView d b i = d.data (b * E2_BSIZE + i) := by
  have hoff : b * E2_SECT_PER_BLK * BLK_SECTOR_SIZE + i = b * E2_BSIZE + i := by
    simp only [E2_SECT_PER_BLK, BLK_SECTOR_SIZE, E2_BSIZE]
    omega
  rw [blkView, Dev.view, hoff]

lemma blkRead_ok (hf : d.faults = []) (hb : b * E2_SECT_PER_BLK < d.nsect) :
    blkRead d b = (.ok (blkView d b), d) := by
  rw [blkRead, if_neg (by omega), Dev.read, hf]
  rfl

/-- The device after one block has been overwritten. -/
def putBlk (d : Dev) (b : ℕ) (buf : ℕ → UInt8) : Dev :=
  d.put (b * E2_SECT_PER_BLK) E2_SECT_PER_BLK buf

lemma blkWrite_ok (buf : ℕ → UInt8) (hf : d.faults = [])
    (hb : b * E2_SECT_PER_BLK < d.nsect) : blkWrite d b buf = (.ok (), putBlk d b buf) := by
  rw [blkWrite, if_neg (by omega), Dev.write, hf]
  rfl

lemma blkView_putBlk_self {buf : ℕ → UInt8} {i : ℕ} (hi : i < E2_BSIZE) :
    blkView (putBlk d b buf) b i = buf i :=
  copy_add hi

lemma sameBlk_putBlk {c : ℕ} {buf : ℕ → UInt8} (h : c ≠ b) :
    SameBlk d (putBlk d b buf) c := by
  intro i hi
  rw [blkView_eq, blkView_eq]
  show copy d.data (b * E2_SECT_PER_BLK * BLK_SECTOR_SIZE) (E2_SECT_PER_BLK * BLK_SECTOR_SIZE) buf
    (c * E2_BSIZE + i) = _
  simp only [E2_SECT_PER_BLK, BLK_SECTOR_SIZE, E2_BSIZE] at *
  rcases Nat.lt_or_gt_of_ne h with h | h
  · exact copy_of_lt (by omega)
  · exact copy_of_ge (by omega)

lemma SameBlk.load {p n : ℕ} (h : SameBlk d d' b) (hp : p + n ≤ E2_BSIZE) :
    load (blkView d' b) p n = load (blkView d b) p n :=
  load_congr fun i hi => h (p + i) (by omega)

/-! ## Bitmaps -/

lemma bmTest_eq (bm : ℕ → UInt8) (rel : ℕ) :
    bmTest bm rel = (bm (rel / 8)).toNat.testBit (rel % 8) := by
  have h7 : rel &&& 7 = rel % 8 := Nat.and_two_pow_sub_one_eq_mod rel 3
  have h3 : rel >>> 3 = rel / 8 := Nat.shiftRight_eq_div_pow rel 3
  rw [bmTest, h7, h3, Nat.one_shiftLeft, Nat.and_two_pow]
  cases (bm (rel / 8)).toNat.testBit (rel % 8) <;> simp

/-- Setting one bit. -/
lemma bmTest_bmSet (bm : ℕ → UInt8) (rel rel' : ℕ) :
    bmTest (bmSet bm rel) rel' = (bmTest bm rel' || decide (rel' = rel)) := by
  have h7 : rel &&& 7 = rel % 8 := Nat.and_two_pow_sub_one_eq_mod rel 3
  have h3 : rel >>> 3 = rel / 8 := Nat.shiftRight_eq_div_pow rel 3
  rw [bmTest_eq, bmTest_eq, bmSet, h3, h7]
  by_cases hbyte : rel' / 8 = rel / 8
  · rw [hbyte, update_self, Nat.one_shiftLeft]
    have hlt : (bm (rel / 8)).toNat ||| 2 ^ (rel % 8) < 2 ^ 8 := by
      refine Nat.or_lt_two_pow (bm (rel / 8)).toNat_lt ?_
      exact Nat.pow_lt_pow_right (by decide) (mod_lt _ (by decide))
    rw [UInt8.toNat_ofNat_of_lt' hlt, Nat.testBit_or, Nat.testBit_two_pow]
    congr 1
    rw [decide_eq_decide]
    omega
  · have hne : rel' ≠ rel := fun hc => hbyte (by rw [hc])
    rw [update_of_ne hbyte]
    simp [hne]

lemma SameBlk.bmTest {rel : ℕ} (h : SameBlk d d' b) (hr : rel < E2_BPG) :
    bmTest (blkView d' b) rel = bmTest (blkView d b) rel := by
  rw [bmTest_eq, bmTest_eq, h _ (by simp only [E2_BPG, E2_BSIZE] at *; omega)]

/-- What `ballocScan` finds is a clear bit of a block in the volume. -/
lemma ballocScan_spec {fs : E2Fs} {g : ℕ} {bm : ℕ → UInt8} (fuel rel : ℕ) {found : ℕ}
    (h : ballocScan fs g bm fuel rel = some found) :
    found < rel + fuel ∧ g * E2_BPG + 1 + found < fs.blocksCount ∧ bmTest bm found = false := by
  induction fuel generalizing rel with
  | zero => simp [ballocScan] at h
  | succ fuel ih =>
    rw [ballocScan] at h
    split_ifs at h with hend hbit
    · obtain rfl : rel = found := by simpa using h
      exact ⟨by omega, by omega, hbit⟩
    · obtain ⟨h1, h2⟩ := ih (rel + 1) h
      exact ⟨by omega, h2⟩

/-- The block holds a block bitmap. -/
def IsBitmap (fs : E2Fs) (b : ℕ) : Prop := ∃ g < fs.ngroups, b = (fs.grp g).bbmap

section

variable {fs : E2Fs} {d d' d'' : Dev}

/-- Block numbers are 32-bit words. -/
lemma VolOk.count_lt (hv : VolOk fs d) : fs.blocksCount < 2 ^ 32 := by
  have h1 := hv.ngroups
  have h2 := hv.ngroups_le
  simp only [E2_BPG, E2_NGROUP_MAX] at *
  omega

variable {b : ℕ}

lemma VolOk.group_lt (hv : VolOk fs d) (hb : InVol fs b) :
    (b - 1) / E2_BPG < fs.ngroups := by
  obtain ⟨h1, h2⟩ := hb
  have h3 := hv.ngroups
  simp only [E2_BPG] at *
  omega

lemma VolOk.in_dev (hv : VolOk fs d) (hb : InVol fs b) :
    b * E2_SECT_PER_BLK < d.nsect := by
  have h1 := hv.size
  have h2 := hb.2
  simp only [E2_SECT_PER_BLK] at *
  omega

/-- The bitmaps of a block that is not a bitmap are not its contents. -/
lemma used_congr (h : SameBlk d d' (fs.grp ((b - 1) / E2_BPG)).bbmap) : Used fs d' b ↔ Used fs d b := by
  rw [Used, Used, h.bmTest (mod_lt _ (by decide))]

/-- What an allocation, or a store to blocks that were not used, leaves alone. -/
structure Grown (fs : E2Fs) (d d' : Dev) : Prop where
  noFault : d'.faults = []
  nsect : d'.nsect = d.nsect
  used : ∀ b, InVol fs b → Used fs d b → Used fs d' b

lemma Grown.trans (h : Grown fs d d') (h' : Grown fs d' d'') : Grown fs d d'' :=
  ⟨h'.noFault, h'.nsect.trans h.nsect, fun b hb hu => h'.used b hb (h.used b hb hu)⟩

lemma Grown.vol (h : Grown fs d d') (hv : VolOk fs d) : VolOk fs d' :=
  ⟨h.noFault, h.nsect.symm ▸ hv.size, hv.ngroups, hv.ngroups_le,
    fun g hg => ⟨(hv.bbmap g hg).1, h.used _ (hv.bbmap g hg).1 (hv.bbmap g hg).2⟩, hv.bbmap_inj,
    fun g hg j hj => ⟨(hv.itable g hg j hj).1, h.used _ (hv.itable g hg j hj).1
      (hv.itable g hg j hj).2⟩, hv.apart⟩

/-- A store to a block that is no bitmap. -/
lemma grown_putBlk (hv : VolOk fs d) (hb : ¬ IsBitmap fs b) (buf : ℕ → UInt8) :
    Grown fs d (putBlk d b buf) := by
  refine ⟨hv.noFault, rfl, fun c hc hu => ?_⟩
  refine (used_congr (sameBlk_putBlk fun heq => hb ?_)).mpr hu
  exact ⟨_, hv.group_lt hc, heq.symm⟩

/-- The block that `balloc` answers with was free and is marked used. -/
structure Alloced (fs : E2Fs) (d d' : Dev) (ab : ℕ) : Prop where
  grown : Grown fs d d'
  inVol : InVol fs ab
  free : ¬ Used fs d ab
  used : Used fs d' ab
  same : ∀ b, ¬ IsBitmap fs b → SameBlk d d' b

/-- Setting the bit of a block in its group's bitmap. -/
lemma alloced_putBlk (hv : VolOk fs d) {g rel : ℕ} (hg : g < fs.ngroups) (hrel : rel < E2_BPG)
    (hlt : g * E2_BPG + 1 + rel < fs.blocksCount)
    (hfree : bmTest (blkView d (fs.grp g).bbmap) rel = false) :
    Alloced fs d (putBlk d (fs.grp g).bbmap (bmSet (blkView d (fs.grp g).bbmap) rel))
      (g * E2_BPG + 1 + rel) := by
  have hinvol : InVol fs (g * E2_BPG + 1 + rel) := ⟨by omega, hlt⟩
  have hgroup : (g * E2_BPG + 1 + rel - 1) / E2_BPG = g := by
    simp only [E2_BPG] at *
    omega
  have hmod : (g * E2_BPG + 1 + rel - 1) % E2_BPG = rel := by
    simp only [E2_BPG] at *
    omega
  -- a bit of the new bitmap of the group
  have hbit : ∀ r < E2_BPG, bmTest (blkView (putBlk d (fs.grp g).bbmap
      (bmSet (blkView d (fs.grp g).bbmap) rel)) (fs.grp g).bbmap) r
      = (bmTest (blkView d (fs.grp g).bbmap) r || decide (r = rel)) := by
    intro r hr
    rw [← bmTest_bmSet, bmTest_eq, bmTest_eq,
      blkView_putBlk_self (by simp only [E2_BPG, E2_BSIZE] at *; omega)]
  refine ⟨⟨hv.noFault, rfl, fun b hb hu => ?_⟩, hinvol, ?_, ?_, fun b hb => ?_⟩
  · by_cases hsame : (b - 1) / E2_BPG = g
    · rw [Used, hsame] at hu ⊢
      rw [hbit _ (mod_lt _ (by decide)), hu]
      rfl
    · refine (used_congr (sameBlk_putBlk fun heq => hsame ?_)).mpr hu
      exact hv.bbmap_inj _ (hv.group_lt hb) _ hg heq
  · rw [Used, hgroup, hmod, hfree]
    exact Bool.false_ne_true
  · rw [Used, hgroup, hmod, hbit _ hrel]
    simp
  · exact sameBlk_putBlk fun heq => hb ⟨g, hg, heq⟩

lemma ballocFrom_spec (hv : VolOk fs d) (n g : ℕ) (hn : g + n = fs.ngroups) :
    ballocFrom fs n g d = (.error .enospc, d) ∨
      ∃ ab d', ballocFrom fs n g d = (.ok ab, d') ∧ Alloced fs d d' ab := by
  induction n generalizing g with
  | zero => exact .inl rfl
  | succ n ih =>
    have hg : g < fs.ngroups := by omega
    have hdev := hv.in_dev (hv.bbmap g hg).1
    rw [ballocFrom, blkRead_ok hv.noFault hdev]
    cases hscan : ballocScan fs g (blkView d (fs.grp g).bbmap) E2_BPG 0 with
    | none =>
      simp only [hscan]
      exact ih (g + 1) (by omega)
    | some rel =>
      obtain ⟨hrel, hlt, hfree⟩ := ballocScan_spec E2_BPG 0 hscan
      simp only [hscan, blkWrite_ok _ hv.noFault hdev]
      exact .inr ⟨_, _, rfl, alloced_putBlk hv hg (by omega) hlt hfree⟩

/-- `balloc` fails without a change, or marks a free block. -/
lemma balloc_spec (hv : VolOk fs d) :
    balloc fs d = (.error .enospc, d) ∨
      ∃ ab d', balloc fs d = (.ok ab, d') ∧ Alloced fs d d' ab :=
  ballocFrom_spec hv fs.ngroups 0 (Nat.zero_add _)

/-- `balloc_zero` fails without a change, or hands out a free block and clears it. -/
lemma ballocZero_spec (hv : VolOk fs d) (out : ℕ) :
    ballocZero fs d out = (.error .enospc, d, out) ∨
      ∃ ab d', ballocZero fs d out = (.ok (), d', ab) ∧ Grown fs d d' ∧ InVol fs ab ∧
        ¬ Used fs d ab ∧ Used fs d' ab ∧ (∀ i < E2_BSIZE, blkView d' ab i = 0) ∧
        ∀ b, ¬ IsBitmap fs b → b ≠ ab → SameBlk d d' b := by
  rcases balloc_spec hv with herr | ⟨ab, d₁, hok, hal⟩
  · left
    rw [ballocZero, herr]
  right
  have hv₁ := hal.grown.vol hv
  have hnb : ¬ IsBitmap fs ab := by
    rintro ⟨g, hg, rfl⟩
    exact hal.free (hv.bbmap g hg).2
  have hput := grown_putBlk hv₁ hnb fun _ => 0
  refine ⟨ab, putBlk d₁ ab fun _ => 0, ?_, hal.grown.trans hput, hal.inVol, hal.free,
    hput.used ab hal.inVol hal.used, fun i hi => blkView_putBlk_self hi, fun b hb hne => ?_⟩
  · rw [ballocZero, hok]
    simp only [blkWrite_ok _ hv₁.noFault (hv₁.in_dev hal.inVol)]
  · exact (hal.same b hb).trans (sameBlk_putBlk hne)

/-! ## Trees of blocks -/

/-- The blocks below a pointer: pointer blocks are nodes, data blocks are leaves. -/
abbrev Tree := Radix 256 ℕ ℕ

/-- The pointer leads to the tree. -/
def Holds (d : Dev) {n : ℕ} : ℕ → Tree n → Prop
  | p, .absent => p = 0
  | p, .leaf b => p = b ∧ b ≠ 0
  | p, .node f kids => p = f ∧ f ≠ 0 ∧
      ∀ i : Fin 256, Holds d (load (blkView d f) (4 * i) 4) (kids i)

variable {n p : ℕ}

@[simp] lemma holds_absent : Holds d p (.absent : Tree n) ↔ p = 0 := by
  cases n <;> exact Iff.rfl

variable {t : Tree n}

/-- A null pointer leads nowhere. -/
lemma Holds.eq_absent (h : Holds d 0 t) : t = .absent := by
  cases t with
  | absent => rfl
  | leaf b => exact absurd h.1.symm h.2
  | node f kids => exact absurd h.1.symm h.2.1

/-- A pointer is null or the top block of its tree. -/
lemma Holds.root (h : Holds d p t) : p = 0 ∨ p ∈ t.all := by
  cases t with
  | absent => exact .inl (holds_absent.mp h)
  | leaf b =>
    rw [h.1]
    exact .inr mem_cons_self
  | node f kids =>
    rw [h.1]
    exact .inr mem_cons_self

/-- A tree is read off its pointer blocks. -/
lemma Holds.congr (h : Holds d p t)
    (hs : ∀ f ∈ t.frames, SameBlk d d' f) : Holds d' p t := by
  induction t generalizing p with
  | absent => exact holds_absent.mpr (holds_absent.mp h)
  | leaf b => exact h
  | node f kids ih =>
    obtain ⟨hp, hf, hkids⟩ := h
    refine ⟨hp, hf, fun i => ?_⟩
    rw [(hs f mem_cons_self).load (by simp only [E2_BSIZE]; omega)]
    exact ih i (hkids i) fun g hg => hs g (Radix.frames_of_kid hg)

/-- A block of the file: in the volume, marked used and no metadata. -/
structure Own (fs : E2Fs) (d : Dev) (b : ℕ) : Prop where
  inVol : InVol fs b
  used : Used fs d b
  notBitmap : ¬ IsBitmap fs b
  notTable : ∀ g < fs.ngroups, ∀ j < E2_IPG / 8, b ≠ (fs.grp g).itable + j

lemma Own.grown (h : Own fs d b) (hg : Grown fs d d') : Own fs d' b :=
  ⟨h.inVol, hg.used b h.inVol h.used, h.notBitmap, h.notTable⟩

/-- A block that was free is no metadata. -/
lemma own_of_free (hv : VolOk fs d) (hb : InVol fs b) (hfree : ¬ Used fs d b)
    (hused : Used fs d' b) : Own fs d' b := by
  refine ⟨hb, hused, ?_, ?_⟩
  · rintro ⟨g, hg, rfl⟩
    exact hfree (hv.bbmap g hg).2
  · rintro g hg j hj rfl
    exact hfree (hv.itable g hg j hj).2

/-- The slots that `bmap_level` follows from level `n + 1` down. -/
def slotPath : ℕ → ℕ → List (Fin 256)
  | 0, _ => []
  | n + 1, idx => ofNat 256 (idx / stride (n + 2)) :: slotPath n (idx % stride (n + 2))

variable {idx : ℕ}

lemma slot_eq (h : idx < P ^ (n + 2)) :
    ((ofNat 256 (idx / stride (n + 2)) : Fin 256) : ℕ) = idx / stride (n + 2) := by
  refine mod_eq_of_lt (Nat.div_lt_of_lt_mul ?_)
  rwa [Nat.pow_succ] at h

lemma slot_rest : idx % stride (n + 2) < P ^ (n + 1) :=
  mod_lt _ (Nat.pow_pos (by decide))

/-- Without `alloc` the walk reads the leaf of its path and changes nothing. -/
lemma bmapLevel_find (hv : VolOk fs d) (n idx : ℕ) (c : Cell) (t : Tree n)
    (ht : Holds d c.ptr t) (hown : ∀ b ∈ t.all, InVol fs b) (hidx : idx < P ^ (n + 1)) :
    bmapLevel fs false n idx d c = (.ok ((t.lookup (slotPath n idx)).getD 0), d, c) := by
  induction n generalizing idx c with
  | zero =>
    cases t with
    | absent =>
      have hroot : bmapRoot fs false d c = (.ok false, d, c) := by
        rw [bmapRoot, if_pos (holds_absent.mp ht), if_pos rfl]
      rw [bmapLevel, hroot, Radix.lookup_absent]
      rfl
    | leaf b =>
      obtain ⟨hp, hb⟩ := ht
      have hroot : bmapRoot fs false d c = (.ok true, d, c) := by
        rw [bmapRoot, if_neg (hp ▸ hb)]
      rw [bmapLevel, hroot, ← hp]
      rfl
  | succ n ih =>
    cases t with
    | absent =>
      have hroot : bmapRoot fs false d c = (.ok false, d, c) := by
        rw [bmapRoot, if_pos (holds_absent.mp ht), if_pos rfl]
      rw [bmapLevel, hroot, Radix.lookup_absent]
      rfl
    | node f kids =>
      obtain ⟨hp, hf, hkids⟩ := ht
      have hread := blkRead_ok hv.noFault (hv.in_dev (hown f mem_cons_self))
      have hroot : bmapRoot fs false d c = (.ok true, d, c) := by
        rw [bmapRoot, if_neg (hp ▸ hf)]
      set i : Fin 256 := ofNat 256 (idx / stride (n + 2)) with hi
      have hslot : idx / stride (n + 2) * 4 = 4 * (i : ℕ) := by
        rw [hi, slot_eq hidx, Nat.mul_comm]
      have hchild := ih (idx % stride (n + 2)) ⟨load (blkView d f) (4 * i) 4, false⟩ (kids i)
        (hkids i) (fun b hb => hown b (all_of_kid hb)) slot_rest
      rw [bmapLevel, hroot]
      simp only [hp, hread, hslot, hchild]
      rfl

/-! ## The allocating walk -/

/-- What a walk along `path` does to the tree behind a cell, whether it ends in a block or
in an error: the tree keeps its blocks and gets free ones, on that path only. -/
structure Walk (fs : E2Fs) (d d' : Dev) {n : ℕ} (p p' : ℕ) (t t' : Tree n)
    (path : List (Fin 256)) : Prop where
  grown : Grown fs d d'
  holds : Holds d' p' t'
  keep : p ≠ 0 → p' = p
  nodup : t'.all.Nodup
  fresh : ∀ b ∈ t'.all, b ∈ t.all ∨ ¬ Used fs d b
  own : ∀ b ∈ t'.all, Own fs d' b
  same : ∀ b, InVol fs b → Used fs d b → ¬ IsBitmap fs b → b ∉ t.frames → SameBlk d d' b
  other : ∀ q, q ≠ path → t'.lookup q = t.lookup q
  found : ∀ b, t.lookup path = some b → t'.lookup path = some b

lemma Walk.refl (hv : VolOk fs d) (path : List (Fin 256))
    (ht : Holds d p t) (hnd : t.all.Nodup) (hown : ∀ b ∈ t.all, Own fs d b) :
    Walk fs d d p p t t path where
  grown := ⟨hv.noFault, rfl, fun _ _ hu => hu⟩
  holds := ht
  keep := fun _ => rfl
  nodup := hnd
  fresh := fun _ hb => .inl hb
  own := hown
  same := fun _ _ _ _ _ _ _ => rfl
  other := fun _ _ => rfl
  found := fun _ h => h

variable {ab p' : ℕ} {path : List (Fin 256)}

/-- A walk that starts with a new root. -/
lemma Walk.of_root {t' : Tree n}
    (h : Walk fs d d' 0 ab (.absent : Tree n) t path) (h' : Walk fs d' d'' ab p' t t' path) :
    Walk fs d d'' 0 p' (.absent : Tree n) t' path where
  grown := h.grown.trans h'.grown
  holds := h'.holds
  keep := fun hne => absurd rfl hne
  nodup := h'.nodup
  fresh := by
    intro b hb
    rcases h'.fresh b hb with hold | hfree
    · exact h.fresh b hold
    · exact .inr fun hu => hfree (h.grown.used b (h'.own b hb).inVol hu)
  own := h'.own
  same := by
    intro b hb hu hnb hnf
    refine (h.same b hb hu hnb hnf).trans (h'.same b hb (h.grown.used b hb hu) hnb ?_)
    intro hf
    rcases h.fresh b (frames_subset_all hf) with habs | hfree
    · simp at habs
    · exact hfree hu
  other := fun q hq => (h'.other q hq).trans (h.other q hq)
  found := fun b hb => by simp at hb

variable {f : ℕ}

variable {kids : Fin 256 → Tree n}

/-- The walk through a node, from the walk through its slot: `kid` is what the slot leads to
once the node has been written back. -/
lemma walk_node {i : Fin 256} {t' kid : Tree n} (hnode : Holds d f (.node f kids : Tree (n + 1)))
    (hnd : (Radix.node f kids : Tree (n + 1)).all.Nodup)
    (hown : ∀ b ∈ (Radix.node f kids : Tree (n + 1)).all, Own fs d b)
    (hchild : Walk fs d d' p p' (kids i) t' path)
    (hkid : kid = t' ∨ kid = .absent ∧ kids i = .absent)
    (hgrown : Grown fs d' d'') (hsame : ∀ b, b ≠ f → SameBlk d' d'' b)
    (hslot : Holds d'' (load (blkView d'' f) (4 * i) 4) kid)
    (hslots : ∀ j, j ≠ i →
      load (blkView d'' f) (4 * (j : ℕ)) 4 = load (blkView d f) (4 * (j : ℕ)) 4) :
    Walk fs d d'' f f (.node f kids : Tree (n + 1)) (.node f (update kids i kid))
      (i :: path) := by
  obtain ⟨_, hf, hkids⟩ := hnode
  -- the slot has blocks of its own or free ones
  have hsub : ∀ b ∈ kid.all, b ∈ (kids i).all ∨ ¬ Used fs d b := by
    intro b hb
    rcases hkid with rfl | ⟨rfl, _⟩
    · exact hchild.fresh b hb
    · simp at hb
  have hkidown : ∀ b ∈ kid.all, Own fs d' b := by
    intro b hb
    rcases hkid with rfl | ⟨rfl, _⟩
    · exact hchild.own b hb
    · simp at hb
  refine ⟨hchild.grown.trans hgrown, ⟨rfl, hf, fun j => ?_⟩, fun _ => rfl, ?_, ?_, ?_, ?_, ?_, ?_⟩
  · by_cases hj : j = i
    · subst hj
      rw [update_self]
      exact hslot
    · rw [update_of_ne hj, hslots j hj]
      refine (hkids j).congr fun g hg => ?_
      have hgall := frames_subset_all hg
      have hgown := hown g (all_of_kid hgall)
      have hgi : g ∉ (kids i).frames := fun hc =>
        Radix.kids_disjoint hnd hj hgall (frames_subset_all hc)
      have hgf : g ≠ f := fun hc => (nodup_kid hnd j).2 (hc ▸ hgall)
      exact (hchild.same g hgown.inVol hgown.used hgown.notBitmap hgi).trans (hsame g hgf)
  · refine Radix.nodup_update hnd ?_ fun b hb => ?_
    · rcases hkid with rfl | ⟨rfl, _⟩
      · exact hchild.nodup
      · simp
    · rcases hsub b hb with hold | hfree
      · exact .inl hold
      · exact .inr fun hc => hfree (hown b hc).used
  · intro b hb
    rcases Radix.mem_all_update hb with hold | hnew
    · exact .inl hold
    · rcases hsub b hnew with hold | hfree
      · exact .inl (all_of_kid hold)
      · exact .inr hfree
  · intro b hb
    rcases Radix.mem_all_update hb with hold | hnew
    · exact ((hown b hold).grown hchild.grown).grown hgrown
    · exact (hkidown b hnew).grown hgrown
  · intro b hb hu hnb hnf
    have hbf : b ≠ f := fun hc => hnf (hc ▸ mem_cons_self)
    have hbi : b ∉ (kids i).frames := fun hc => hnf (Radix.frames_of_kid hc)
    exact (hchild.same b hb hu hnb hbi).trans (hsame b hbf)
  · intro q hq
    cases q with
    | nil => rfl
    | cons j q =>
      rw [lookup_node, lookup_node]
      by_cases hj : j = i
      · subst hj
        rw [update_self]
        have hqp : q ≠ path := fun hc => hq (by rw [hc])
        rcases hkid with rfl | ⟨rfl, habs⟩
        · exact hchild.other q hqp
        · rw [habs]
      · rw [update_of_ne hj]
  · intro b hb
    rw [lookup_node] at hb ⊢
    rw [update_self]
    rcases hkid with rfl | ⟨rfl, habs⟩
    · exact hchild.found b hb
    · rw [habs] at hb
      exact hb

/-- The tree of a block that has just been cleared. -/
def clear : (n : ℕ) → ℕ → Tree n
  | 0, ab => .leaf ab
  | n + 1, ab => Radix.empty n ab

@[simp] lemma all_clear (n ab : ℕ) : (clear n ab).all = [ab] := by
  cases n with
  | zero => rfl
  | succ n => simp [clear, Radix.empty, Radix.all_node]

/-- A new root is a walk from the empty tree. -/
lemma walk_clear (hv : VolOk fs d) (idx : ℕ) (hgrown : Grown fs d d')
    (hvol : InVol fs ab) (hfree : ¬ Used fs d ab) (hused : Used fs d' ab)
    (hzero : ∀ i < E2_BSIZE, blkView d' ab i = 0)
    (hsame : ∀ b, ¬ IsBitmap fs b → b ≠ ab → SameBlk d d' b) :
    Walk fs d d' 0 ab (.absent : Tree n) (clear n ab) (slotPath n idx) := by
  have hne : ab ≠ 0 := Nat.pos_iff_ne_zero.mp hvol.1
  refine ⟨hgrown, ?_, fun h => absurd rfl h, by simp, ?_, ?_, ?_, ?_, fun b hb => by simp at hb⟩
  · cases n with
    | zero => exact ⟨rfl, hne⟩
    | succ n =>
      refine ⟨rfl, hne, fun i => holds_absent.mpr ?_⟩
      have hload : load (blkView d' ab) (4 * i) 4 = load (fun _ => 0) (4 * i) 4 :=
        load_congr fun j hj => hzero _ (by simp only [E2_BSIZE]; omega)
      rw [hload]
      rfl
  · intro b hb
    rw [all_clear, List.mem_singleton] at hb
    exact .inr (hb ▸ hfree)
  · intro b hb
    rw [all_clear, List.mem_singleton] at hb
    exact hb ▸ own_of_free hv hvol hfree hused
  · intro b _ hu hnb _
    exact hsame b hnb fun hc => hfree (hc ▸ hu)
  · intro q hq
    cases n with
    | zero =>
      cases q with
      | nil => exact absurd rfl hq
      | cons i q => rfl
    | succ n =>
      rw [clear, Radix.lookup_empty, Radix.lookup_absent]

/-- The head of `bmap_level` with `alloc` set. -/
lemma bmapRoot_spec (hv : VolOk fs d) (idx : ℕ) {c : Cell}
    (ht : Holds d c.ptr t) :
    bmapRoot fs true d c = (.error .enospc, d, c) ∨
      bmapRoot fs true d c = (.ok true, d, c) ∧ c.ptr ≠ 0 ∨
      c.ptr = 0 ∧ t = .absent ∧ ∃ ab d', bmapRoot fs true d c = (.ok true, d', ⟨ab, true⟩) ∧
        Walk fs d d' 0 ab (.absent : Tree n) (clear n ab) (slotPath n idx) := by
  by_cases hp : c.ptr = 0
  · rcases ballocZero_spec hv c.ptr with herr | ⟨ab, d', hok, hgrown, hvol, hfree, hused, hzero, hsame⟩
    · left
      rw [bmapRoot, if_pos hp, if_neg (by decide), herr]
    · right; right
      refine ⟨hp, Holds.eq_absent (hp ▸ ht), ab, d', ?_,
        walk_clear hv idx hgrown hvol hfree hused hzero hsame⟩
      rw [bmapRoot, if_pos hp, if_neg (by decide), hok]
  · right; left
    rw [bmapRoot, if_neg hp]
    exact ⟨rfl, hp⟩

/-- How a walk ends: with the block of its path and a pointer that the caller stores, or
for want of a free block. -/
def Ends {n : ℕ} (res : Except Errno ℕ) (p : ℕ) (c' : Cell) (t' : Tree n)
    (path : List (Fin 256)) : Prop :=
  match res with
  | .ok out => t'.lookup path = some out ∧ (c'.changed = false → c'.ptr = p)
  | .error e => e = .enospc

/-- The words of a node after one slot has been stored. -/
lemma load_slot {v : ℕ} {ib : ℕ → UInt8} (i j : Fin 256) (hv : v < 2 ^ 32) :
    load (blkView (putBlk d f (put ib (4 * (i : ℕ)) 4 v)) f) (4 * (j : ℕ)) 4
      = if j = i then v else load ib (4 * (j : ℕ)) 4 := by
  have hview : load (blkView (putBlk d f (put ib (4 * (i : ℕ)) 4 v)) f) (4 * (j : ℕ)) 4
      = load (put ib (4 * (i : ℕ)) 4 v) (4 * (j : ℕ)) 4 :=
    load_congr fun k hk => blkView_putBlk_self (by simp only [E2_BSIZE]; omega)
  rw [hview]
  split_ifs with hij
  · rw [hij, load_put]
    exact mod_eq_of_lt hv
  · exact load_put_of_disjoint (by omega)

/-- The part of `bmap_level` below a node, from the recursive call on one slot. -/
lemma bmapLevel_node (hv : VolOk fs d) {c₀ c : Cell} {d₀ : Dev} (hidx : idx < P ^ (n + 2))
    (hroot : bmapRoot fs true d₀ c₀ = (.ok true, d, c))
    (hnode : Holds d c.ptr (.node f kids : Tree (n + 1)))
    (hnd : (Radix.node f kids : Tree (n + 1)).all.Nodup)
    (hown : ∀ b ∈ (Radix.node f kids : Tree (n + 1)).all, Own fs d b)
    (hrec : ∀ c : Cell, ∀ t : Tree n, Holds d c.ptr t → t.all.Nodup → (∀ b ∈ t.all, Own fs d b) →
      ∃ res d' c' t', bmapLevel fs true n (idx % stride (n + 2)) d c = (res, d', c') ∧
        Walk fs d d' c.ptr c'.ptr t t' (slotPath n (idx % stride (n + 2))) ∧
        Ends res c.ptr c' t' (slotPath n (idx % stride (n + 2)))) :
    ∃ res d' t', bmapLevel fs true (n + 1) idx d₀ c₀ = (res, d', c) ∧
      Walk fs d d' c.ptr c.ptr (.node f kids : Tree (n + 1)) t' (slotPath (n + 1) idx) ∧
      match res with
      | .ok out => t'.lookup (slotPath (n + 1) idx) = some out
      | .error e => e = .enospc := by
  have hpf : c.ptr = f := hnode.1
  have hfown := hown f mem_cons_self
  have hread := blkRead_ok hv.noFault (hv.in_dev hfown.inVol)
  have hpath : slotPath (n + 1) idx
      = ofNat 256 (idx / stride (n + 2)) :: slotPath n (idx % stride (n + 2)) := rfl
  have hslot : idx / stride (n + 2) * 4
      = 4 * ((ofNat 256 (idx / stride (n + 2)) : Fin 256) : ℕ) := by
    rw [slot_eq hidx, Nat.mul_comm]
  rw [hpf] at hnode ⊢
  rw [hpath]
  generalize (ofNat 256 (idx / stride (n + 2)) : Fin 256) = i at *
  obtain ⟨res, d', child, t', hcall, hwalk, hends⟩ := hrec
    ⟨load (blkView d f) (4 * i) 4, false⟩ (kids i) (hnode.2.2 i) (nodup_kid hnd i).1
    fun b hb => hown b (all_of_kid hb)
  have hv' := hwalk.grown.vol hv
  have hsamef : SameBlk d d' f := hwalk.same f hfown.inVol hfown.used hfown.notBitmap
    fun hc => (nodup_kid hnd i).2 (frames_subset_all hc)
  have hword (j : Fin 256) : load (blkView d' f) (4 * (j : ℕ)) 4
      = load (blkView d f) (4 * (j : ℕ)) 4 := by
    exact hsamef.load (by simp only [E2_BSIZE]; omega)
  -- the node is left as it was: the slot keeps its pointer
  have hkeep : child.ptr = load (blkView d f) (4 * (i : ℕ)) 4 →
      Walk fs d d' f f (.node f kids : Tree (n + 1)) (.node f (update kids i t'))
        (i :: slotPath n (idx % stride (n + 2))) := by
    intro hptr
    refine walk_node hnode hnd hown hwalk (.inl rfl) ⟨hv'.noFault, rfl, fun _ _ hu => hu⟩
      (fun _ _ _ _ => rfl) ?_ fun j _ => hword j
    rw [hword, ← hptr]
    exact hwalk.holds
  rw [bmapLevel, hroot]
  simp only [hpf, hread, hslot, hcall]
  cases res with
  | error e =>
    refine ⟨.error e, d', ?_⟩
    by_cases hzero : load (blkView d f) (4 * (i : ℕ)) 4 = 0
    · -- whatever was allocated below the empty slot is dropped
      refine ⟨.node f (update kids i .absent), rfl, ?_, hends⟩
      have habs : kids i = .absent := Holds.eq_absent (hzero ▸ hnode.2.2 i)
      refine walk_node hnode hnd hown hwalk (.inr ⟨rfl, habs⟩)
        ⟨hv'.noFault, rfl, fun _ _ hu => hu⟩ (fun _ _ _ _ => rfl) ?_ fun j _ => hword j
      rw [hword, hzero]
      exact holds_absent.mpr rfl
    · exact ⟨_, rfl, hkeep (hwalk.keep hzero), hends⟩
  | ok out =>
    obtain ⟨hlook, hptr⟩ := hends
    have hfound : (Radix.node f (update kids i t') : Tree (n + 1)).lookup
        (i :: slotPath n (idx % stride (n + 2))) = some out := by
      rw [lookup_node, update_self]
      exact hlook
    cases hchanged : child.changed with
    | false =>
      refine ⟨.ok out, d', _, ?_, hkeep (hptr hchanged), hfound⟩
      simp only [hchanged, Bool.false_eq_true, if_false]
    | true =>
      have hwrite := blkWrite_ok (put (blkView d f) (4 * (i : ℕ)) 4 child.ptr)
        hv'.noFault (hv'.in_dev hfown.inVol)
      simp only [hchanged, hwrite, if_true]
      refine ⟨.ok out, _, .node f (update kids i t'), rfl, ?_, hfound⟩
      -- the new pointer is a block of the volume, so it fits into a word
      have hlt : child.ptr < 2 ^ 32 := by
        have hcount := hv.count_lt
        rcases hwalk.holds.root with hzero | hmem
        · omega
        · exact lt_trans (hwalk.own _ hmem).inVol.2 hcount
      have hft : f ∉ t'.frames := by
        intro hc
        rcases hwalk.fresh f (frames_subset_all hc) with hold | hfree
        · exact (nodup_kid hnd i).2 hold
        · exact hfree hfown.used
      refine walk_node hnode hnd hown hwalk (.inl rfl) (grown_putBlk hv' hfown.notBitmap _)
        (fun b hb => sameBlk_putBlk hb) ?_ fun j hj => ?_
      · rw [load_slot i i hlt, if_pos rfl]
        exact hwalk.holds.congr fun g hg => sameBlk_putBlk fun hc => hft (hc ▸ hg)
      · rw [load_slot i j hlt, if_neg hj]

/-- An allocating walk from any cell. -/
lemma bmapLevel_walk (n idx : ℕ) (hidx : idx < P ^ (n + 1)) (d : Dev) (hv : VolOk fs d) (c : Cell)
    (t : Tree n) (ht : Holds d c.ptr t) (hnd : t.all.Nodup) (hown : ∀ b ∈ t.all, Own fs d b) :
    ∃ res d' c' t', bmapLevel fs true n idx d c = (res, d', c') ∧
      Walk fs d d' c.ptr c'.ptr t t' (slotPath n idx) ∧ Ends res c.ptr c' t' (slotPath n idx) := by
  induction n generalizing idx d c with
  | zero =>
    rcases bmapRoot_spec hv idx ht with herr | ⟨hok, hp⟩ | ⟨hp, rfl, ab, d', hok, hwalk⟩
    · refine ⟨.error .enospc, d, c, t, ?_, Walk.refl hv _ ht hnd hown, rfl⟩
      rw [bmapLevel, herr]
    · refine ⟨.ok c.ptr, d, c, t, ?_, Walk.refl hv _ ht hnd hown, ?_, fun _ => rfl⟩
      · rw [bmapLevel, hok]
      · cases t with
        | absent => exact absurd (holds_absent.mp ht) hp
        | leaf b => rw [ht.1]; rfl
    · refine ⟨.ok ab, d', ⟨ab, true⟩, clear 0 ab, ?_, hp ▸ hwalk, rfl, fun h => ?_⟩
      · rw [bmapLevel, hok]
      · exact absurd h (Ne.symm Bool.false_ne_true)
  | succ n ih =>
    rcases bmapRoot_spec hv idx ht with herr | ⟨hok, hp⟩ | ⟨hp, rfl, ab, d₁, hok, hroot⟩
    · refine ⟨.error .enospc, d, c, t, ?_, Walk.refl hv _ ht hnd hown, rfl⟩
      rw [bmapLevel, herr]
    · cases t with
      | absent => exact absurd (holds_absent.mp ht) hp
      | node f kids =>
        obtain ⟨res, d', t', hcall, hwalk, hends⟩ :=
          bmapLevel_node hv hidx hok ht hnd hown (ih _ slot_rest d hv)
        refine ⟨res, d', c, t', hcall, hwalk, ?_⟩
        cases res with
        | ok out => exact ⟨hends, fun _ => rfl⟩
        | error e => exact hends
    · have hv₁ := hroot.grown.vol hv
      obtain ⟨res, d', t', hcall, hwalk, hends⟩ :=
        bmapLevel_node hv₁ hidx hok hroot.holds hroot.nodup hroot.own (ih _ slot_rest d₁ hv₁)
      refine ⟨res, d', ⟨ab, true⟩, t', hcall, hp ▸ hroot.of_root hwalk, ?_⟩
      cases res with
      | ok out => exact ⟨hends, fun h => absurd h (Ne.symm Bool.false_ne_true)⟩
      | error e => exact hends

/-! ## The inode -/

/-- The height of the tree below a root of the inode. -/
def depth (r : ℕ) : ℕ := r - 11

/-- The trees of an inode. -/
abbrev Trees := (r : Fin 15) → Tree (depth r)

def Trees.blocks (T : Trees) : List ℕ := (List.finRange 15).flatMap fun r => (T r).all

/-- The file of the inode: trees of blocks that are its own, each at one place. -/
structure FileOk (fs : E2Fs) (d : Dev) (n : Inode) (T : Trees) : Prop where
  group : (n.ino - 1) / E2_IPG < fs.ngroups
  holds : ∀ r : Fin 15, Holds d (n.blk r) (T r)
  nodup : T.blocks.Nodup
  own : ∀ r, ∀ b ∈ (T r).all, Own fs d b

lemma place_root_lt (fb : ℕ) : (place fb).root < 15 := by
  unfold place
  split_ifs
  · show fb < 15
    omega
  all_goals simp

/-- The root and the path below it that a logical block is looked up at. -/
def rootOf (fb : ℕ) : Fin 15 := ⟨(place fb).root, place_root_lt fb⟩

def pathOf (fb : ℕ) : List (Fin 256) := slotPath (depth (rootOf fb)) (place fb).idx

lemma place_level (fb : ℕ) : (place fb).level - 1 = depth (rootOf fb) := by
  unfold rootOf place depth
  split_ifs
  · show 0 = fb - 11
    omega
  all_goals rfl

variable {fb : ℕ}

lemma place_idx (h : fb < 2 ^ 32) : (place fb).idx < P ^ (depth (rootOf fb) + 1) := by
  have hP : P = 256 := rfl
  have hdepth : depth (rootOf fb) = (place fb).root - 11 := rfl
  rw [hdepth]
  unfold place
  rw [hP]
  split_ifs with h1 h2 h3
  · exact Nat.pow_pos (by decide)
  · show fb - 12 < 256 ^ 2
    omega
  · show fb - 12 - 256 < 256 ^ 3
    omega
  · show fb - 12 - 256 - 256 * 256 < 256 ^ 4
    omega

variable {T : Trees} {r : Fin 15}

variable {r' : Fin 15}

lemma Trees.disjoint (h : T.blocks.Nodup) (hne : r ≠ r')
    (hb : b ∈ (T r).all) : b ∉ (T r').all :=
  Radix.flatMap_disjoint (List.nodup_finRange 15) h (mem_finRange r) (mem_finRange r')
    hne hb

lemma Trees.nodup (h : T.blocks.Nodup) (r : Fin 15) : (T r).all.Nodup :=
  (List.nodup_flatMap.mp h).1 r (mem_finRange r)

/-- A block of data is at one place of the file. -/
lemma Trees.lookup_inj (h : T.blocks.Nodup) {q q' : List (Fin 256)} (hb : (T r).lookup q = some b) (hb' : (T r').lookup q' = some b) :
    r = r' ∧ q = q' := by
  by_cases hr : r = r'
  · subst hr
    exact ⟨rfl, Radix.lookup_inj (Trees.nodup h r) hb hb'⟩
  · exact absurd (lookup_mem_all hb') (Trees.disjoint h hr (lookup_mem_all hb))

/-- A block of data is no pointer block. -/
lemma Trees.lookup_not_frame (h : T.blocks.Nodup)
    {q : List (Fin 256)} (hb : (T r).lookup q = some b) : b ∉ (T r').frames := by
  intro hc
  by_cases hr : r = r'
  · subst hr
    exact Radix.lookup_not_frame (Trees.nodup h r) hb hc
  · exact Trees.disjoint h hr (lookup_mem_all hb) (frames_subset_all hc)

/-- The pointer blocks are the nodes of the tree. -/
lemma pointerBlocks_eq (h : Holds d p t) :
    pointerBlocks d n p = t.frames := by
  induction t generalizing p with
  | absent =>
    rename_i n
    cases n with
    | zero => rfl
    | succ n => rw [pointerBlocks, if_pos (holds_absent.mp h), Radix.frames_absent]
  | leaf b => rfl
  | node f kids ih =>
    obtain ⟨rfl, hf, hkids⟩ := h
    rw [pointerBlocks, if_neg hf, Radix.frames_node]
    congr 1
    exact List.flatMap_congr fun i _ => ih i (hkids i)

lemma FileOk.pointers {n : Inode} (h : FileOk fs d n T) :
    inodePointers d n = (T 12).frames ++ (T 13).frames ++ (T 14).frames := by
  have h12 := pointerBlocks_eq (h.holds 12)
  have h13 := pointerBlocks_eq (h.holds 13)
  have h14 := pointerBlocks_eq (h.holds 14)
  rw [← h12, ← h13, ← h14]
  rfl

/-- Storing the record of an inode changes one block of an inode table. -/
lemma inodeStore_ok (hv : VolOk fs d) {n : Inode} (hgroup : (n.ino - 1) / E2_IPG < fs.ngroups) :
    ∃ d', inodeStore fs n d = (.ok (), d') ∧ Grown fs d d' ∧
      ∀ b, (∀ g < fs.ngroups, ∀ j < E2_IPG / 8, b ≠ (fs.grp g).itable + j) → SameBlk d d' b := by
  -- the record is in block `j` of the table of its group and does not cross a sector
  have hboff : inodeOff fs n.ino = (fs.grp ((n.ino - 1) / E2_IPG)).itable * 1024
      + (n.ino - 1) % E2_IPG * 128 := rfl
  have hrellt : (n.ino - 1) % E2_IPG < 2048 := mod_lt _ (by decide)
  generalize (n.ino - 1) / E2_IPG = g at *
  generalize (n.ino - 1) % E2_IPG = rel at *
  have hj : rel / 8 < E2_IPG / 8 := by
    show rel / 8 < 256
    omega
  have hsize : fs.blocksCount * 2 ≤ d.nsect := hv.size
  have hvol := (hv.itable g hgroup (rel / 8) hj).1.2
  have hsect : ¬ inodeOff fs n.ino / 512 + 1 > d.nsect := by omega
  have hoff : inodeOff fs n.ino % 512 + E2_INODE_SIZE ≤ 512 := by
    show inodeOff fs n.ino % 512 + 128 ≤ 512
    omega
  have hread : sectRead d (inodeOff fs n.ino / 512)
      = (.ok (d.view (inodeOff fs n.ino / 512)), d) := by
    rw [sectRead, if_neg hsect, Dev.read, hv.noFault]
  have hwrite (buf : ℕ → UInt8) : sectWrite d (inodeOff fs n.ino / 512) buf
      = (.ok (), d.put (inodeOff fs n.ino / 512) 1 buf) := by
    rw [sectWrite, if_neg hsect, Dev.write, hv.noFault]
  have hsame (buf : ℕ → UInt8) (b : ℕ) (hb : b ≠ (fs.grp g).itable + rel / 8) :
      SameBlk d (d.put (inodeOff fs n.ino / 512) 1 buf) b := by
    intro i hi
    have hi' : i < 1024 := hi
    rw [blkView_eq, blkView_eq]
    show copy d.data (inodeOff fs n.ino / 512 * 512) (1 * 512) buf (b * 1024 + i) = _
    rcases Nat.lt_or_gt_of_ne hb with hlt | hgt
    · exact copy_of_lt (by omega)
    · exact copy_of_ge (by omega)
  refine ⟨d.put (inodeOff fs n.ino / 512) 1 (store (d.view (inodeOff fs n.ino / 512))
    (inodeOff fs n.ino % 512) (inodeRaw n)), ?_, ⟨hv.noFault, rfl, fun b hb hu => ?_⟩,
    fun b hb => hsame _ b (hb g hgroup _ hj)⟩
  · rw [inodeStore, inodeScatter]
    simp only [hread, if_pos hoff, hwrite]
  · refine (used_congr (hsame _ _ fun heq => ?_)).mpr hu
    exact hv.apart g hgroup (rel / 8) hj _ (hv.group_lt hb) heq.symm

/-- The file after a walk below one of its roots. -/
lemma FileOk.walk {n : Inode} (h : FileOk fs d n T)
    {t' : Tree (depth r)}
    (hw : Walk fs d d' (n.blk r) p' (T r) t' path) :
    FileOk fs d' { n with blk := update n.blk r p' } (update T r t') where
  group := h.group
  holds := by
    intro r'
    by_cases hr : r' = r
    · subst hr
      simp only [update_self]
      exact hw.holds
    · have hval : (r' : ℕ) ≠ r := fun hc => hr (Fin.ext hc)
      simp only [update_of_ne hr, update_of_ne hval]
      refine (h.holds r').congr fun g hg => ?_
      have hown := h.own r' g (frames_subset_all hg)
      refine hw.same g hown.inVol hown.used hown.notBitmap fun hc => ?_
      exact Trees.disjoint h.nodup hr (frames_subset_all hg) (frames_subset_all hc)
  nodup := by
    refine Radix.nodup_flatMap_update (List.nodup_finRange 15) (mem_finRange r)
      (fun r' hr => by rw [update_of_ne hr]) h.nodup ?_ ?_
    · rw [update_self]
      exact hw.nodup
    · rw [update_self]
      intro b hb
      rcases hw.fresh b hb with hold | hfree
      · exact .inl hold
      · right
        intro hc
        obtain ⟨r', _, hr'⟩ := List.mem_flatMap.mp hc
        exact hfree (h.own r' b hr').used
  own := by
    intro r' b hb
    by_cases hr : r' = r
    · subst hr
      rw [update_self] at hb
      exact hw.own b hb
    · rw [update_of_ne hr] at hb
      exact (h.own r' b hb).grown hw.grown

/-- A write that keeps the bitmaps and misses the pointer blocks keeps the file. -/
lemma FileOk.grown {n : Inode} (h : FileOk fs d n T) (hg : Grown fs d d')
    (hs : ∀ r, ∀ f ∈ (T r).frames, SameBlk d d' f) : FileOk fs d' n T :=
  ⟨h.group, fun r => (h.holds r).congr (hs r), h.nodup, fun r b hb => (h.own r b hb).grown hg⟩

/-- The block of the file at a logical block, if it is not a hole. -/
def Trees.at (T : Trees) (fb : ℕ) : Option ℕ := (T (rootOf fb)).lookup (pathOf fb)

/-- What `bmap` does with `alloc` set: the file keeps its blocks, their contents too, and
the answer is the block that it now has at `fb`. -/
lemma bmap_alloc (hv : VolOk fs d) {n : Inode} (h : FileOk fs d n T)
    (hfb : fb < 12 + P + P * P) :
    ∃ res d' n' T', Ext2.bmap fs n fb true d = (res, d', n') ∧ Grown fs d d' ∧
      FileOk fs d' n' T' ∧ (∀ x b, T.at x = some b → T'.at x = some b ∧ SameBlk d d' b) ∧
      match res with
      | .ok out => (fb + 1) * E2_BSIZE ≤ E2_MAX_FILE ∧ T'.at fb = some out
      | .error e => e = .efbig ∨ e = .enospc := by
  have hwrap : (fb + 1) % 2 ^ 32 = fb + 1 := by
    have hP : P = 256 := rfl
    rw [hP] at hfb
    omega
  by_cases hbig : (fb + 1) * E2_BSIZE > E2_MAX_FILE
  · refine ⟨.error .efbig, d, n, T, ?_, ⟨hv.noFault, rfl, fun _ _ hu => hu⟩, h,
      fun x b hb => ⟨hb, fun _ _ => rfl⟩, .inl rfl⟩
    rw [Ext2.bmap, hwrap, if_pos hbig]
  obtain ⟨res, d₁, c, t', hcall, hw, hends⟩ := bmapLevel_walk (depth (rootOf fb)) (place fb).idx
    (place_idx (lt_trans hfb (by decide))) d hv ⟨n.blk (rootOf fb), false⟩ (T (rootOf fb)) (h.holds _)
    (Trees.nodup h.nodup _) (h.own _)
  have hfile := h.walk hw
  have hroot : (place fb).root = rootOf fb := rfl
  -- the blocks that the file had stay where they were and keep their contents
  have hold : ∀ x b, T.at x = some b →
      Trees.at (update T (rootOf fb) t') x = some b ∧ SameBlk d d₁ b := by
    intro x b hb
    have hown := h.own _ b (lookup_mem_all hb)
    refine ⟨?_, hw.same b hown.inVol hown.used hown.notBitmap (Trees.lookup_not_frame h.nodup hb)⟩
    by_cases hr : rootOf x = rootOf fb
    · rw [Trees.at, hr, update_self]
      rw [Trees.at, hr] at hb
      by_cases hq : pathOf x = pathOf fb
      · rw [hq] at hb ⊢
        exact hw.found b hb
      · rw [hw.other _ hq]
        exact hb
    · rw [Trees.at, update_of_ne hr]
      exact hb
  have hfind : Trees.at (update T (rootOf fb) t') fb = t'.lookup (pathOf fb) := by
    rw [Trees.at, update_self]
  rw [Ext2.bmap, hwrap, if_neg hbig]
  simp only [place_level, hroot, hcall]
  cases res with
  | error e => exact ⟨.error e, d₁, _, _, rfl, hw.grown, hfile, hold, .inr hends⟩
  | ok out =>
    cases hchanged : c.changed with
    | false =>
      refine ⟨.ok out, d₁, _, _, ?_, hw.grown, hfile, hold, by omega, hfind.trans hends.1⟩
      simp only [hchanged, Bool.false_eq_true, if_false]
    | true =>
      -- the inode table is no block of the file
      have hv₁ := hw.grown.vol hv
      obtain ⟨d₂, hstore, hgrown, hsame⟩ := inodeStore_ok hv₁
        (n := { n with blk := update n.blk (rootOf fb) c.ptr }) h.group
      refine ⟨.ok out, d₂, _, _, ?_, hw.grown.trans hgrown, hfile.grown hgrown ?_, ?_, by omega,
        hfind.trans hends.1⟩
      · simp only [hchanged, if_true, hstore]
      · intro r f hf
        exact hsame f (hfile.own r f (frames_subset_all hf)).notTable
      · intro x b hb
        refine ⟨(hold x b hb).1, (hold x b hb).2.trans (hsame b ?_)⟩
        exact (h.own _ b (lookup_mem_all hb)).notTable

/-- What `bmap` does without `alloc`. -/
lemma bmap_find (hv : VolOk fs d) {n : Inode} (h : FileOk fs d n T)
    (hfb : fb < 12 + P + P * P) (hbig : (fb + 1) * E2_BSIZE ≤ E2_MAX_FILE)
    (hb : T.at fb = some b) : Ext2.bmap fs n fb false d = (.ok b, d, n) := by
  have hwrap : (fb + 1) % 2 ^ 32 = fb + 1 := by
    have hP : P = 256 := rfl
    rw [hP] at hfb
    omega
  have hcall := bmapLevel_find hv (depth (rootOf fb)) (place fb).idx ⟨n.blk (rootOf fb), false⟩
    (T (rootOf fb)) (h.holds _) (fun b hb => (h.own _ b hb).inVol)
    (place_idx (lt_trans hfb (by decide)))
  have hlook : (T (rootOf fb)).lookup (slotPath (depth (rootOf fb)) (place fb).idx) = some b := hb
  have hroot : (place fb).root = rootOf fb := rfl
  rw [hlook] at hcall
  rw [Ext2.bmap, hwrap, if_neg (by omega)]
  simp only [place_level, hroot, hcall, update_eq_self, Option.getD_some, Bool.false_eq_true,
    if_false]

/-! ## Which logical blocks fall together -/

lemma pathOf_direct (h : fb < 12) : (rootOf fb : ℕ) = fb ∧ pathOf fb = [] := by
  have hp : place fb = ⟨fb, 1, 0⟩ := if_pos h
  have hr : (rootOf fb : ℕ) = fb := by rw [rootOf, val_mk, hp]
  refine ⟨hr, ?_⟩
  have hd : depth (rootOf fb) = 0 := by
    rw [hr]
    exact Nat.sub_eq_zero_of_le (by omega)
  rw [pathOf, hd, slotPath]

/-- The stride of level 2 is a whole block of pointers: every index goes to slot 0. -/
lemma pathOf_single (h : 12 ≤ fb) (h' : fb < 12 + P) :
    (rootOf fb : ℕ) = 12 ∧ pathOf fb = [0] := by
  have hp : place fb = ⟨12, 2, fb - 12⟩ := by rw [place, if_neg (by omega), if_pos h']
  have hr : (rootOf fb : ℕ) = 12 := by rw [rootOf, val_mk, hp]
  refine ⟨hr, ?_⟩
  have hslot : (fb - 12) / stride 2 = 0 := Nat.div_eq_of_lt (by
    show fb - 12 < P
    omega)
  rw [pathOf, hr, hp]
  show [ofNat 256 ((fb - 12) / stride 2)] = [0]
  rw [hslot]
  rfl

lemma pathOf_double (h : 12 + P ≤ fb) (h' : fb < 12 + P + P * P) :
    (rootOf fb : ℕ) = 13 ∧ pathOf fb = [0, ofNat 256 ((fb - 12 - P) / P)] := by
  have hp : place fb = ⟨13, 3, fb - 12 - P⟩ := by
    rw [place, if_neg (by omega), if_neg (by omega), if_pos h']
  have hr : (rootOf fb : ℕ) = 13 := by rw [rootOf, val_mk, hp]
  refine ⟨hr, ?_⟩
  have hlt : fb - 12 - P < stride 3 := by
    show fb - 12 - P < P * P
    omega
  have hslot : (fb - 12 - P) / stride 3 = 0 := Nat.div_eq_of_lt hlt
  rw [pathOf, hr, hp]
  show [ofNat 256 ((fb - 12 - P) / stride 3),
    ofNat 256 ((fb - 12 - P) % stride 3 / stride 2)] = _
  rw [hslot, mod_eq_of_lt hlt]
  rfl

/-- Two logical blocks are looked up at one place when they are in one class. -/
lemma aliasClass_eq {x y : ℕ} (hx : x < 12 + P + P * P) (hy : y < 12 + P + P * P) :
    aliasClass x = aliasClass y ↔ rootOf x = rootOf y ∧ pathOf x = pathOf y := by
  rw [Fin.ext_iff, aliasClass, aliasClass]
  split_ifs with x1 y1 y2 x2 y1 y2 y1 y2
  · simp [pathOf_direct x1, pathOf_direct y1]
  · simp only [pathOf_direct x1, pathOf_single (by omega : 12 ≤ y) y2]
    simp
  · simp only [pathOf_direct x1, pathOf_double (by omega : 12 + P ≤ y) hy]
    simp
  · simp only [pathOf_single (by omega : 12 ≤ x) x2, pathOf_direct y1]
    simp
  · simp [pathOf_single (by omega : 12 ≤ x) x2, pathOf_single (by omega : 12 ≤ y) y2]
  · simp [pathOf_single (by omega : 12 ≤ x) x2, pathOf_double (by omega : 12 + P ≤ y) hy]
  · simp only [pathOf_double (by omega : 12 + P ≤ x) hx, pathOf_direct y1]
    simp
  · simp [pathOf_double (by omega : 12 + P ≤ x) hx, pathOf_single (by omega : 12 ≤ y) y2]
  · simp only [pathOf_double (by omega : 12 + P ≤ x) hx, pathOf_double (by omega : 12 + P ≤ y) hy]
    have hxlt : (x - 12 - P) / P < 256 := Nat.div_lt_of_lt_mul (by
      show x - 12 - P < P * P
      omega)
    have hylt : (y - 12 - P) / P < 256 := Nat.div_lt_of_lt_mul (by
      show y - 12 - P < P * P
      omega)
    simp only [Prod.mk.injEq, List.cons.injEq, true_and, and_true, Fin.ext_iff, Fin.val_ofNat,
      mod_eq_of_lt hxlt, mod_eq_of_lt hylt]

/-! ## Runs -/

/-- What every run keeps: the blocks handed out are the blocks of the file. -/
structure Inv (fs : E2Fs) (s : Sys) (T : Trees) : Prop where
  vol : VolOk fs s.dev
  file : FileOk fs s.dev s.inode T
  given : ∀ x ∈ s.given, x.1 < 12 + P + P * P ∧ (x.1 + 1) * E2_BSIZE ≤ E2_MAX_FILE ∧
    T.at x.1 = some x.2
  known : ∀ fb buf, s.content fb = some buf → ∃ ab, (fb, ab) ∈ s.given
  content : NoAlias s.given → ∀ x ∈ s.given, ∀ buf, s.content x.1 = some buf →
    ∀ i < E2_BSIZE, blkView s.dev x.2 i = buf i

variable {s : Sys}

/-- Where the blocks of two logical blocks agree. -/
lemma Inv.same_iff (h : Inv fs s T) {x y : ℕ × ℕ} (hx : x ∈ s.given)
    (hy : y ∈ s.given) : x.2 = y.2 ↔ aliasClass x.1 = aliasClass y.1 := by
  obtain ⟨hx1, _, hx2⟩ := h.given x hx
  obtain ⟨hy1, _, hy2⟩ := h.given y hy
  rw [aliasClass_eq hx1 hy1]
  constructor
  · intro heq
    rw [← heq] at hy2
    exact Trees.lookup_inj h.file.nodup hx2 hy2
  · rintro ⟨hr, hq⟩
    rw [Trees.at, hr, hq, ← Trees.at, hy2] at hx2
    exact (Option.some.inj hx2).symm

variable {s' : Sys}

/-- The path that `bmap` allocates joins one tree; the others stay. -/
lemma Inv.step_bmap (h : Inv fs s T) {res : Except Errno ℕ}
    (hs : Step fs s (.bmap fb res) s') : ∃ T', Inv fs s' T' := by
  obtain ⟨hfb, hcall, hgiven, hcontent⟩ := hs
  obtain ⟨res', d', n', T', hcall', hgrown, hfile, hold, hres⟩ := bmap_alloc h.vol h.file hfb
  rw [hcall', Prod.mk.injEq, Prod.mk.injEq] at hcall
  obtain ⟨rfl, hd, hn⟩ := hcall
  have hkeep : ∀ x ∈ s.given, x.1 < 12 + P + P * P ∧ (x.1 + 1) * E2_BSIZE ≤ E2_MAX_FILE ∧
      T'.at x.1 = some x.2 := fun x hx =>
    ⟨(h.given x hx).1, (h.given x hx).2.1, (hold _ _ (h.given x hx).2.2).1⟩
  have hbytes : NoAlias s.given → ∀ x ∈ s.given, ∀ buf, s'.content x.1 = some buf →
      ∀ i < E2_BSIZE, blkView s'.dev x.2 i = buf i := by
    intro hna x hx buf hbuf i hi
    rw [hcontent] at hbuf
    rw [hd, (hold _ _ (h.given x hx).2.2).2 i hi]
    exact h.content hna x hx buf hbuf i hi
  refine ⟨T', hd ▸ hgrown.vol h.vol, by rw [hd, hn]; exact hfile, ?_, ?_, ?_⟩
  · cases res with
    | error e => rwa [hgiven]
    | ok ab =>
      rw [hgiven]
      intro x hx
      rcases List.mem_cons.mp hx with rfl | hx
      · exact ⟨hfb, hres.1, hres.2⟩
      · exact hkeep x hx
  · intro fb' buf hbuf
    rw [hcontent] at hbuf
    obtain ⟨ab, hab⟩ := h.known fb' buf hbuf
    refine ⟨ab, ?_⟩
    cases res with
    | error e => rwa [hgiven]
    | ok ab' =>
      rw [hgiven]
      exact List.mem_cons_of_mem _ hab
  · cases res with
    | error e => rwa [hgiven]
    | ok ab =>
      rw [hgiven]
      intro hna
      have hna' : NoAlias s.given := fun x hx y hy =>
        hna x (List.mem_cons_of_mem _ hx) y (List.mem_cons_of_mem _ hy)
      intro x hx buf hbuf
      rcases List.mem_cons.mp hx with rfl | hx
      · -- what was stored for `fb` was stored to the block that it still has
        obtain ⟨ab', hab'⟩ := h.known fb buf (hcontent ▸ hbuf)
        have hsame := (hkeep _ hab').2.2
        rw [hres.2] at hsame
        have heq : ab = ab' := Option.some.inj hsame
        rw [heq]
        exact hbytes hna' _ hab' buf hbuf
      · exact hbytes hna' x hx buf hbuf

/-- A store to a block of the file goes around the pointer blocks. -/
lemma Inv.step_store (h : Inv fs s T) {buf : ℕ → UInt8}
    (hs : Step fs s (.store fb ab buf) s') : Inv fs s' T := by
  obtain ⟨hmem, hwrite, hn, hgiven, hcontent⟩ := hs
  have hat := (h.given _ hmem).2.2
  have hown := h.file.own _ ab (lookup_mem_all hat)
  rw [blkWrite_ok _ h.vol.noFault (h.vol.in_dev hown.inVol), Prod.mk.injEq] at hwrite
  have hd := hwrite.2
  have hgrown := grown_putBlk h.vol hown.notBitmap buf
  refine ⟨hd ▸ hgrown.vol h.vol, ?_, hgiven ▸ h.given, ?_, ?_⟩
  · rw [hd, hn]
    refine h.file.grown hgrown fun r f hf => sameBlk_putBlk fun heq => ?_
    exact Trees.lookup_not_frame h.file.nodup hat (heq ▸ hf)
  · intro fb' buf' hbuf'
    rw [hgiven]
    by_cases hfb : fb' = fb
    · exact ⟨ab, hfb ▸ hmem⟩
    · rw [hcontent, update_of_ne hfb] at hbuf'
      exact h.known fb' buf' hbuf'
  · rw [hgiven]
    intro hna x hx buf' hbuf' i hi
    rw [hd]
    by_cases hfb : x.1 = fb
    · -- the same logical block has the same block
      have hsame : x.2 = ab := (h.same_iff hx hmem).mpr (by rw [hfb])
      rw [hcontent, hfb, update_self] at hbuf'
      obtain rfl := Option.some.inj hbuf'
      rw [hsame, blkView_putBlk_self hi]
    · have hne : x.2 ≠ ab := fun hc => hna x hx _ hmem hfb ((h.same_iff hx hmem).mp hc)
      rw [hcontent, update_of_ne hfb] at hbuf'
      rw [sameBlk_putBlk hne i hi]
      exact h.content hna x hx buf' hbuf' i hi

lemma Inv.step {op : Op} (h : ∃ T, Inv fs s T) (hs : Step fs s op s') :
    ∃ T, Inv fs s' T := by
  obtain ⟨T, h⟩ := h
  cases op with
  | bmap fb res => exact h.step_bmap hs
  | store fb ab buf => exact ⟨T, h.step_store hs⟩

/-- The law holds in a reachable state exactly when no two logical blocks fall together. -/
lemma Inv.law_iff (h : Inv fs s T) : Law fs s ↔ NoAlias s.given := by
  constructor
  · intro hlaw x hx y hy hne hc
    exact hlaw.distinct x hx y hy hne ((h.same_iff hx hy).mpr hc)
  · intro hna
    refine ⟨fun x hx y hy hne hc => hna x hx y hy hne ((h.same_iff hx hy).mp hc), ?_, ?_,
      h.content hna⟩
    · intro x hx hc
      rw [h.file.pointers, List.mem_append, List.mem_append] at hc
      have hno (r : Fin 15) : x.2 ∉ (T r).frames :=
        Trees.lookup_not_frame h.file.nodup (h.given x hx).2.2
      exact hc.elim (fun hc => hc.elim (hno 12) (hno 13)) (hno 14)
    · intro x hx
      obtain ⟨hlt, hbig, hat⟩ := h.given x hx
      exact bmap_find h.vol h.file hlt hbig hat

end

/-- On a volume in order, in every state that calls of `bmap` with `alloc` and stores to the
blocks handed out can reach, the block map law holds exactly when no two of the logical
blocks handed out are in the single indirect range or in one run of 256 of the double
indirect range. -/
theorem bmap_law {fs : E2Fs} {d : Dev} {n : Inode} {T : Trees} {ops : List Op} {s : Sys}
    (hv : VolOk fs d) (hf : FileOk fs d n T)
    (hrun : Run (Step fs) ⟨d, n, [], fun _ => none⟩ ops s) : Law fs s ↔ NoAlias s.given := by
  have hinit : ∃ T, Inv fs ⟨d, n, [], fun _ => none⟩ T :=
    ⟨T, hv, hf, fun x hx => absurd hx List.not_mem_nil, fun fb buf hc => by simp at hc,
      fun _ x hx => absurd hx List.not_mem_nil⟩
  obtain ⟨T', h⟩ := hrun.invariant (I := fun s => ∃ T, Inv fs s T) hinit
    fun t op u ht hs => Inv.step ht hs
  exact h.law_iff

/-! ## A small volume -/

/-- One group of 1000 blocks, of which the first 320 are used. -/
def smallFs : E2Fs := ⟨1000, 1, fun _ => ⟨3, 4, 5⟩⟩

def smallDev : Dev := ⟨fun i => if i / 1024 = 3 ∧ i % 1024 < 40 then 0xFF else 0, 2000, []⟩

/-- An empty file. -/
def smallInode : Inode := ⟨11, false, 0, 1, fun _ => 0⟩

lemma small_used (h : 0 < b) (h' : b ≤ 320) : Used smallFs smallDev b := by
  have hrel : (b - 1) % E2_BPG = b - 1 := mod_eq_of_lt (by
    show b - 1 < 8192
    omega)
  rw [Used, hrel, bmTest_eq, blkView_eq]
  have hbyte : smallDev.data ((smallFs.grp ((b - 1) / E2_BPG)).bbmap * E2_BSIZE + (b - 1) / 8)
      = 0xFF := by
    refine if_pos ⟨?_, ?_⟩
    · show (3 * 1024 + (b - 1) / 8) / 1024 = 3
      omega
    · show (3 * 1024 + (b - 1) / 8) % 1024 < 40
      omega
  rw [hbyte]
  have hbit : ∀ i < 8, (0xFF : UInt8).toNat.testBit i = true := by decide
  exact hbit _ (mod_lt _ (by decide))

lemma small_vol : VolOk smallFs smallDev where
  noFault := rfl
  size := by decide
  ngroups := by decide
  ngroups_le := by decide
  bbmap := by
    intro g _
    have hvol : InVol smallFs 3 := ⟨by decide, by decide⟩
    exact ⟨hvol, small_used (by decide : 0 < 3) (by decide : 3 ≤ 320)⟩
  bbmap_inj := by
    intro g hg g' hg' _
    have h1 : g < 1 := hg
    have h2 : g' < 1 := hg'
    omega
  itable := by
    intro g _ j hj
    have hj' : j < 256 := hj
    have hb : InVol smallFs (5 + j) := ⟨by omega, by show 5 + j < 1000; omega⟩
    exact ⟨hb, small_used (by show 0 < 5 + j; omega) (by show 5 + j ≤ 320; omega)⟩
  apart := by
    intro g _ j _ g' _
    show 5 + j ≠ 3
    omega

lemma small_file : FileOk smallFs smallDev smallInode fun _ => .absent where
  group := by decide
  holds := fun _ => holds_absent.mpr rfl
  nodup := by
    have hnil : Trees.blocks (fun _ => .absent) = [] :=
      List.flatMap_eq_nil_iff.mpr fun r _ => Radix.all_absent
    rw [hnil]
    exact List.nodup_nil
  own := fun r b hb => by simp at hb

/-- A call of `bmap` as a step, from the result it computes. -/
lemma small_step {s : Sys} (fb ab : ℕ) (hfb : fb < 12 + P + P * P)
    (h : (Ext2.bmap smallFs s.inode fb true s.dev).1.toOption = some ab) :
    Step smallFs s (.bmap fb (.ok ab)) ⟨(Ext2.bmap smallFs s.inode fb true s.dev).2.1,
      (Ext2.bmap smallFs s.inode fb true s.dev).2.2, (fb, ab) :: s.given, s.content⟩ := by
  refine ⟨hfb, Prod.ext ?_ rfl, rfl, rfl⟩
  cases hres : (Ext2.bmap smallFs s.inode fb true s.dev).1 with
  | error e => simp [hres, Except.toOption] at h
  | ok out => simpa [hres, Except.toOption, eq_comm] using h

/-- The first block of a file and its first indirect one, which a later lookup finds again. -/
theorem bmap_law_indirect : ∃ s, Run (Step smallFs) ⟨smallDev, smallInode, [], fun _ => none⟩
    [.bmap 0 (.ok 321), .bmap 12 (.ok 323)] s ∧
      Ext2.bmap smallFs s.inode 12 false s.dev = (.ok 323, s.dev, s.inode) := by
  have hfirst := small_step (s := ⟨smallDev, smallInode, [], fun _ => none⟩) 0 321
    (by decide) (by decide +kernel)
  have hrun := (Run.single hfirst).snoc (small_step 12 323 (by decide) (by decide +kernel))
  refine ⟨_, hrun, ((bmap_law small_vol small_file hrun).mpr ?_).again (12, 323) mem_cons_self⟩
  have halias : ∀ x ∈ [(12, 323), (0, 321)], ∀ y ∈ [(12, 323), (0, 321)], x.1 ≠ y.1 →
      aliasClass x.1 ≠ aliasClass y.1 := by decide
  exact halias

/-- The first two blocks of the single indirect range are one block. -/
theorem bmap_law_single_indirect : ∃ s, Run (Step smallFs)
    ⟨smallDev, smallInode, [], fun _ => none⟩ [.bmap 12 (.ok 322), .bmap 13 (.ok 322)] s ∧
      ¬ Law smallFs s := by
  have hfirst := small_step (s := ⟨smallDev, smallInode, [], fun _ => none⟩) 12 322
    (by decide) (by decide +kernel)
  refine ⟨_, (Run.single hfirst).snoc (small_step 13 322 (by decide) ?_), fun hlaw => ?_⟩
  · decide +kernel
  · exact hlaw.distinct (13, 322) mem_cons_self (12, 322)
      (List.mem_cons_of_mem _ mem_cons_self) (by decide) rfl

end Ext2
end Fs
end MobilePhoneOs
