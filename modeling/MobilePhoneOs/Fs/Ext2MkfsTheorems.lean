import MobilePhoneOs.Fs.Ext2TreeTheorems

/-!
# Freshly made ext2 volumes

What `mkfs` writes is told block by block, and `mount` reads it back: the geometry, and a root
directory that meets the invariant of the directory tree but not its law.
-/

namespace MobilePhoneOs.Fs
namespace Ext2

open Mem Prog

/-! ## Transfers as programs -/

section

variable {fs : E2Fs} {d : Dev} {Q : Unit → Dev → Prop}

/-- Nothing is said of a call that fails. -/
def Fails (_ : Errno) (_ : Dev) : Prop := True

lemma wp_putBlock {ab : ℕ} {buf : ℕ → UInt8}
    (h : ∀ d', SameDev (putBlk d ab buf) d' → 2 * ab < d.nsect → Q () d') :
    wp (putBlock ab buf) Q Fails d := by
  unfold wp putBlock
  cases hw : blkWrite d ab buf with
  | mk r d' =>
    cases r with
    | error e => exact trivial
    | ok u =>
      refine h d' (blkWrite_inv hw) ?_
      unfold blkWrite at hw
      split at hw
      · cases hw
      · rename_i hlt
        rw [E2_SECT_PER_BLK] at hlt
        omega

lemma wp_devWrite {sect n : ℕ} {buf : ℕ → UInt8}
    (h : ∀ d', SameDev (d.put sect n buf) d' → Q () d') : wp (devWrite sect n buf) Q Fails d := by
  unfold wp devWrite
  cases hw : d.write sect n buf with
  | mk r d' =>
    cases r with
    | error e => exact trivial
    | ok u => exact h d' (write_inv hw)

lemma wp_devRead {sect : ℕ} {Q : (ℕ → UInt8) → Dev → Prop}
    (h : ∀ d', SameDev d d' → Q (d.view sect) d') : wp (devRead sect) Q Fails d := by
  unfold wp devRead
  cases hr : d.read sect with
  | mk r d' =>
    cases r with
    | error e => exact trivial
    | ok buf =>
      obtain ⟨hd, rfl⟩ := read_inv hr
      exact h d' hd

lemma wp_inodeScatter {ino : ℕ} {raw : List UInt8} (hraw : raw.length = E2_INODE_SIZE)
    (h : ∀ d', SameDev (putRec fs d ino raw) d' → Q () d') :
    wp (inodeScatter fs ino raw) Q Fails d := by
  unfold wp
  cases hw : inodeScatter fs ino raw d with
  | mk r d' =>
    cases r with
    | error e => exact trivial
    | ok u => exact h d' (inodeScatter_inv hraw hw)

lemma wp_inodeLoad {ino : ℕ} {Q : Inode → Dev → Prop}
    (h : ∀ d', SameDev d d' → Q (inodeParse ino (recView fs d ino)) d') :
    wp (inodeLoad fs ino) Q Fails d := by
  unfold wp
  cases hr : inodeLoad fs ino d with
  | mk r d' =>
    cases r with
    | error e => exact trivial
    | ok n =>
      obtain ⟨hd, rfl⟩ := inodeLoad_inv hr
      exact h d' hd

/-- A program that is said nothing of. -/
lemma wp_true {α : Type} {x : Prog Errno Dev α} : wp x (fun _ _ => True) Fails d := by
  unfold wp
  split <;> exact trivial

end

/-! ## Formatting -/

/-- A bitmap has the bits it was made of. -/
lemma bmTest_bitmapOf (p : ℕ → Bool) (n rel : ℕ) :
    bmTest (bitmapOf p n) rel = (p rel && decide (rel < n)) := by
  induction n with
  | zero =>
    rw [bmTest_eq]
    simp [bitmapOf]
  | succ n ih =>
    rw [bitmapOf]
    by_cases hp : p n = true
    · rw [if_pos hp, bmTest_bmSet, ih]
      by_cases hrel : rel = n
      · subst hrel
        simp [hp]
      · simp only [decide_eq_false hrel, Bool.or_false]
        congr 1
        rw [decide_eq_decide]
        omega
    · rw [if_neg hp, ih]
      by_cases hrel : rel = n
      · subst hrel
        simp [hp]
      · congr 1
        rw [decide_eq_decide]
        omega

section

variable {fs : E2Fs} {d d' : Dev} {k : ℕ}

/-- The descriptors of the groups before `k` are in the descriptor table. -/
def Descs (fs : E2Fs) (k : ℕ) (d : Dev) : Prop :=
  ∀ g < k, load (blkView d 2) (g * 32) 4 = (fs.grp g).bbmap ∧
    load (blkView d 2) (g * 32 + 4) 4 = (fs.grp g).ibmap ∧
    load (blkView d 2) (g * 32 + 8) 4 = (fs.grp g).itable

/-- The block bitmaps of the groups before `k` are written. -/
def Bitmaps (fs : E2Fs) (k : ℕ) (d : Dev) : Prop :=
  ∀ g < k, ∀ rel < E2_BPG, bmTest (blkView d (metaStart g)) rel = reserved fs g rel

lemma Descs.congr (h : Descs fs k d) (hk : k ≤ 16) (hs : SameBlk d d' 2) : Descs fs k d' := by
  intro g hg
  have hg' : g * 32 + 12 ≤ E2_BSIZE := by
    show g * 32 + 12 ≤ 1024
    omega
  rw [hs.load (by omega), hs.load (by omega), hs.load (by omega)]
  exact h g hg

lemma Bitmaps.congr (h : Bitmaps fs k d) (hs : ∀ g < k, SameBlk d d' (metaStart g)) :
    Bitmaps fs k d' := by
  intro g hg rel hrel
  rw [(hs g hg).bmTest hrel]
  exact h g hg rel hrel

lemma SameDev.sameBlk (h : SameDev d d') (b : ℕ) : SameBlk d d' b := by
  intro i _
  rw [h.blkView]

variable {buf : ℕ → UInt8}

/-- A group descriptor reads back. -/
lemma groupDesc_load {grp : E2Grp} (h1 : grp.bbmap < 2 ^ 32) (h2 : grp.ibmap < 2 ^ 32)
    (h3 : grp.itable < 2 ^ 32) {p : ℕ} :
    load (store buf p (groupDesc grp)) p 4 = grp.bbmap ∧
      load (store buf p (groupDesc grp)) (p + 4) 4 = grp.ibmap ∧
      load (store buf p (groupDesc grp)) (p + 8) 4 = grp.itable := by
  obtain ⟨gd, hgd, h0, h4, h8⟩ : ∃ gd, groupDesc grp = slice gd 0 32 ∧
      load gd 0 4 = grp.bbmap ∧ load gd 4 4 = grp.ibmap ∧ load gd 8 4 = grp.itable := by
    refine ⟨_, rfl, ?_, ?_, ?_⟩
    · rw [load_put_of_disjoint (by omega), load_put_of_disjoint (by omega), load_put]
      exact Nat.mod_eq_of_lt h1
    · rw [load_put_of_disjoint (by omega), load_put]
      exact Nat.mod_eq_of_lt h2
    · rw [load_put]
      exact Nat.mod_eq_of_lt h3
  have hload (q : ℕ) (hq : q + 4 ≤ 32) :
      load (store buf p (groupDesc grp)) (p + q) 4 = load gd q 4 := by
    refine load_eq_of fun i hi => ?_
    have hlen : q + i < (slice gd 0 32).length := by
      rw [slice_length]
      omega
    rw [hgd, Nat.add_assoc, store_add hlen, slice_getElem, Nat.zero_add]
  exact ⟨(hload 0 (by omega)).trans h0, (hload 4 (by omega)).trans h4,
    (hload 8 (by omega)).trans h8⟩

lemma wp_mkfsDesc (hl : Layout fs) (hk : k < fs.ngroups) (h : Descs fs k d) :
    wp (mkfsDesc fs k) (fun _ => Descs fs (k + 1)) Fails d := by
  have hle : fs.ngroups ≤ 16 := hl.le
  have hsect : (2048 + k * 32) / 512 = 4 := by omega
  have hoff : (2048 + k * 32) % 512 = k * 32 := by omega
  unfold mkfsDesc
  simp only [hsect, hoff]
  refine wp_bind.mpr (wp_devRead fun d₁ hd₁ => wp_devWrite fun d₂ hd₂ => ?_)
  have hbyte : ∀ i < 512, blkView d₂ 2 i
      = store (blkView d 2) (k * 32) (groupDesc (fs.grp k)) i := by
    intro i hi
    rw [hd₂.blkView]
    exact copy_add hi
  have hload (p : ℕ) (hp : p + 4 ≤ 512) :
      load (blkView d₂ 2) p 4 = load (store (blkView d 2) (k * 32) (groupDesc (fs.grp k))) p 4 :=
    load_congr fun i hi => hbyte (p + i) (by omega)
  have hgrp := hl.grp k hk
  have hlt : metaStart k < 2 ^ 31 := by
    simp only [metaStart, E2_BPG]
    split_ifs <;> omega
  intro g hg
  rw [hload _ (by omega), hload _ (by omega), hload _ (by omega)]
  rcases Nat.lt_or_ge g k with hgk | hgk
  · rw [load_store_of_disjoint (by omega), load_store_of_disjoint (by omega),
      load_store_of_disjoint (by omega)]
    exact h g hgk
  · obtain rfl : g = k := by omega
    refine groupDesc_load ?_ ?_ ?_ <;> rw [hgrp]
    · show metaStart g < 2 ^ 32
      omega
    · show metaStart g + 1 < 2 ^ 32
      omega
    · show metaStart g + 2 < 2 ^ 32
      omega

lemma three_le_metaStart (g : ℕ) : 3 ≤ metaStart g := by
  simp only [metaStart, E2_BPG]
  split_ifs <;> omega

/-- Blocks outside the metadata and the metadata of group 0 do not meet that of other groups. -/
lemma metaStart_ne {g c : ℕ} (hc : 3 < c ∧ c ≤ 8192) : metaStart g ≠ c := by
  simp only [metaStart, E2_BPG]
  split_ifs <;> omega

lemma sameBlk_of_put {b c : ℕ} (h : SameDev (putBlk d c buf) d') (hne : b ≠ c) :
    SameBlk d d' b :=
  (sameBlk_putBlk hne).trans (h.sameBlk b)

lemma bmTest_of_put {c rel : ℕ} (h : SameDev (putBlk d c buf) d')
    (hrel : rel < E2_BPG) : bmTest (blkView d' c) rel = bmTest buf rel := by
  have hbyte : rel / 8 < E2_BSIZE := by
    show rel / 8 < 1024
    have hrel' : rel < 8192 := hrel
    omega
  rw [bmTest_eq, bmTest_eq, h.blkView, blkView_putBlk_self hbyte]

lemma wp_bitmap (hl : Layout fs) (hk : k < fs.ngroups) (h : Descs fs fs.ngroups d ∧ Bitmaps fs k d) :
    wp (putBlock (fs.grp k).bbmap (bitmapOf (reserved fs k) E2_BPG))
      (fun _ d => Descs fs fs.ngroups d ∧ Bitmaps fs (k + 1) d) Fails d := by
  have hk3 := three_le_metaStart k
  rw [hl.grp k hk]
  show wp (putBlock (metaStart k) _) _ Fails d
  refine wp_putBlock fun d₁ hd₁ _ => ⟨h.1.congr hl.le (sameBlk_of_put hd₁ (by omega)), ?_⟩
  intro g hg rel hrel
  rcases Nat.lt_or_ge g k with hgk | hgk
  · have hne : metaStart g ≠ metaStart k := fun hc =>
      hgk.ne (metaStart_inj (j := 0) (l := 0) (by decide) (by decide) hc).1
    rw [(sameBlk_of_put hd₁ hne).bmTest hrel]
    exact h.2 g hgk rel hrel
  · obtain rfl : g = k := by omega
    rw [bmTest_of_put hd₁ hrel, bmTest_bitmapOf, decide_eq_true hrel, Bool.and_true]

/-- The bitmaps after the inode bitmaps of the groups before `k` are written. -/
structure InodeBits (fs : E2Fs) (k : ℕ) (d : Dev) : Prop where
  descs : Descs fs fs.ngroups d
  bitmaps : Bitmaps fs fs.ngroups d
  rootBit : 0 < k → bmTest (blkView d 4) 1 = true

lemma InodeBits.congr (h : InodeBits fs k d) (hl : Layout fs)
    (hs : ∀ b, b = 2 ∨ b = 4 ∨ (∃ g, b = metaStart g) → SameBlk d d' b) : InodeBits fs k d' := by
  refine ⟨h.descs.congr hl.le (hs 2 (.inl rfl)),
    h.bitmaps.congr fun g _ => hs _ (.inr (.inr ⟨g, rfl⟩)), fun hk => ?_⟩
  rw [(hs 4 (.inr (.inl rfl))).bmTest (by decide)]
  exact h.rootBit hk

lemma wp_inodeBitmap (hl : Layout fs) (hk : k < fs.ngroups) (h : InodeBits fs k d) :
    wp (putBlock (fs.grp k).ibmap (bitmapOf (fun b => k = 0 ∧ b < 10) E2_IPG))
      (fun _ => InodeBits fs (k + 1)) Fails d := by
  have hk3 := three_le_metaStart k
  rw [hl.grp k hk]
  show wp (putBlock (metaStart k + 1) _) _ Fails d
  refine wp_putBlock fun d₁ hd₁ _ => ?_
  have hdescs := h.descs.congr hl.le (sameBlk_of_put hd₁ (by omega))
  have hbitmaps : Bitmaps fs fs.ngroups d₁ := by
    refine h.bitmaps.congr fun g hg => sameBlk_of_put hd₁ fun hc => ?_
    exact absurd (metaStart_inj (j := 0) (l := 1) (by decide) (by decide) hc).2 (by decide)
  refine ⟨hdescs, hbitmaps, fun _ => ?_⟩
  rcases Nat.eq_zero_or_pos k with rfl | hpos
  · have hzero : metaStart 0 + 1 = 4 := rfl
    rw [hzero] at hd₁
    rw [bmTest_of_put hd₁ (by decide), bmTest_bitmapOf]
    rfl
  · have hne : 4 ≠ metaStart k + 1 := by
      have h8 : k ≠ 0 := hpos.ne'
      rw [metaStart, if_neg h8, E2_BPG]
      omega
    rw [(sameBlk_of_put hd₁ hne).bmTest (by decide)]
    exact h.rootBit hpos

/-- The record of the root directory reads back. -/
lemma rootRaw_parse {ino : ℕ} : DirRec (inodeParse ino
    (recView fs (putRec fs d ino (rootRaw rootBlock)) ino)) rootBlock := by
  obtain ⟨raw, hraw, hmode, hsize, hblk⟩ : ∃ raw, rootRaw rootBlock = slice raw 0 E2_INODE_SIZE ∧
      load raw 0 2 = 0x41ED ∧ load raw 4 4 = E2_BSIZE ∧ load raw 40 4 = rootBlock :=
    ⟨_, rfl, rfl, rfl, rfl⟩
  have hload (p m : ℕ) (hp : p + m ≤ 128) :
      load (recView fs (putRec fs d ino (rootRaw rootBlock)) ino) p m = load raw p m := by
    refine load_congr fun i hi => ?_
    have hlen : p + i < (rootRaw rootBlock).length := by
      rw [hraw, slice_length]
      exact Nat.lt_of_lt_of_le (by omega) hp
    show store d.data (inodeOff fs ino) (rootRaw rootBlock) (inodeOff fs ino + (p + i)) = raw (p + i)
    rw [store_add hlen]
    simp only [hraw, slice_getElem, Nat.zero_add]
  refine ⟨?_, ?_, ?_⟩
  · show decide (load _ 0 2 &&& 0xF000 = E2_M_DIR) = true
    rw [hload 0 2 (by omega), hmode]
    rfl
  · show load _ 4 4 = E2_BSIZE
    rw [hload 4 4 (by omega), hsize]
  · show load _ 40 4 = rootBlock
    rw [hload 40 4 (by omega), hblk]

/-- The metadata, the bitmaps and the root directory, as `ext2_mkfs` leaves them. -/
structure Formatted (fs : E2Fs) (d : Dev) : Prop where
  bits : InodeBits fs fs.ngroups d
  rootBlk : Dots (blkView d rootBlock) E2_ROOT_INO
  rootRec : DirRec (inodeParse E2_ROOT_INO (recView fs d E2_ROOT_INO)) rootBlock
  nsect : 2 * rootBlock < d.nsect

/-- What `ext2_mkfs` writes is laid out as `Formatted` says. -/
lemma wp_mkfsWith (hl : Layout fs) :
    wp (mkfsWith fs) (fun _ d => Formatted fs d ∧ ∀ i < E2_BSIZE, blkView d 1 i = mkfsSuper fs i)
      Fails d := by
  have hgrp : fs.grp 0 = ⟨3, 4, 5⟩ := hl.grp 0 hl.pos
  have hdata : dataStart fs 0 = rootBlock := by
    rw [dataStart, hgrp]
    rfl
  have hrec : recBlock fs E2_ROOT_INO = 5 := by
    show (fs.grp 0).itable + 0 = 5
    rw [hgrp]
  unfold mkfsWith
  simp only [hdata]
  refine wp_true.bind (fun _ d₁ _ => ?_) fun _ _ he => he
  refine (wp_forN (I := Descs fs) (fun g hg => absurd hg (Nat.not_lt_zero g)) fun k hk d hd =>
    wp_mkfsDesc hl hk hd).bind (fun _ d₂ hd₂ => ?_) fun _ _ he => he
  refine (wp_forN (I := fun k d => Descs fs fs.ngroups d ∧ Bitmaps fs k d)
    ⟨hd₂, fun g hg => absurd hg (Nat.not_lt_zero g)⟩ fun k hk d hd =>
    wp_bitmap hl hk hd).bind (fun _ d₃ hd₃ => ?_) fun _ _ he => he
  refine (wp_forN (I := InodeBits fs) ⟨hd₃.1, hd₃.2, fun hc => absurd hc (Nat.lt_irrefl 0)⟩
    fun k hk d hd => wp_inodeBitmap hl hk hd).bind (fun _ d₄ hd₄ => ?_) fun _ _ he => he
  -- the root directory: its block, its record, and then the superblock
  refine wp_bind.mpr (wp_putBlock fun d₅ hd₅ hnsect => ?_)
  have hbits₅ : InodeBits fs fs.ngroups d₅ := hd₄.congr hl fun b hb =>
    sameBlk_of_put hd₅ (by
      rcases hb with rfl | rfl | ⟨g, rfl⟩
      · decide
      · decide
      · exact metaStart_ne (by decide))
  have hdots₅ : Dots (blkView d₅ rootBlock) E2_ROOT_INO := by
    rw [hd₅.blkView]
    exact (dots_dotsBlock (by decide) (by decide)).congr fun i hi => blkView_putBlk_self hi
  refine wp_bind.mpr (wp_inodeScatter (slice_length _ _ _) fun d₆ hd₆ => ?_)
  have hsame₆ : ∀ b, b ≠ 5 → SameBlk d₅ d₆ b := fun b hb =>
    (sameBlk_putRec (slice_length _ _ _) (hrec.symm ▸ hb)).trans (hd₆.sameBlk b)
  have hbits₆ : InodeBits fs fs.ngroups d₆ := hbits₅.congr hl fun b hb => hsame₆ b (by
    rcases hb with rfl | rfl | ⟨g, rfl⟩
    · decide
    · decide
    · exact metaStart_ne (by decide))
  have hrec₆ : DirRec (inodeParse E2_ROOT_INO (recView fs d₆ E2_ROOT_INO)) rootBlock := by
    rw [hd₆.recView]
    exact rootRaw_parse
  refine wp_devWrite fun d₇ hd₇ => ?_
  have hput : SameDev (putBlk d₆ 1 (mkfsSuper fs)) d₇ := hd₇
  have hsame₇ : ∀ b, b ≠ 1 → SameBlk d₆ d₇ b := fun b hb => sameBlk_of_put hput hb
  refine ⟨⟨?_, ?_, ?_, ?_⟩, fun i hi => ?_⟩
  · refine hbits₆.congr hl fun b hb => hsame₇ b ?_
    rcases hb with rfl | rfl | ⟨g, rfl⟩
    · decide
    · decide
    · have h3 := three_le_metaStart g
      omega
  · exact (hdots₅.congr (hsame₆ rootBlock (by decide))).congr (hsame₇ rootBlock (by decide))
  · rw [(hsame₇ _ (by rw [hrec]; decide)).parse]
    exact hrec₆
  · rw [hd₇.nsect]
    show 2 * rootBlock < d₆.nsect
    rw [hd₆.nsect]
    show 2 * rootBlock < d₅.nsect
    rw [hd₅.nsect]
    exact hnsect
  · rw [hput.blkView, blkView_putBlk_self hi]

end

/-! ## Geometry -/

/-- The geometry that `ext2_mkfs` chooses is laid out, and holds the groups that `ext2_mount`
counts. -/
lemma mkfsGeometry_ok {blocks : ℕ} (h : 4096 ≤ blocks) (hlt : blocks < 2 ^ 32) :
    Layout (mkfsGeometry blocks) ∧ (mkfsGeometry blocks).blocksCount < 2 ^ 32 ∧
      groupsOf (mkfsGeometry blocks).blocksCount ≤ (mkfsGeometry blocks).ngroups := by
  have hone {n : ℕ} (h0 : 0 < n) (hn : n ≤ 16) : gdtBlocks n = 1 := by
    show (n * 32 + 1024 - 1) / 1024 = 1
    omega
  have hgrp {n : ℕ} (h0 : 0 < n) (hn : n ≤ 16) (g : ℕ) :
      layoutGrp n g = ⟨metaStart g, metaStart g + 1, metaStart g + 2⟩ := by
    rw [layoutGrp, hone h0 hn]
    rfl
  unfold mkfsGeometry
  split_ifs with hbig
  · refine ⟨⟨Nat.zero_lt_succ 15, Nat.le_refl 16, fun g _ => hgrp (by decide) (by decide) g⟩, ?_, ?_⟩
    · show min 122881 blocks < 2 ^ 32
      omega
    · show (min 122881 blocks - 1 + 8192 - 1) / 8192 ≤ 16
      omega
  · have hpos : 0 < groupsOf blocks := by
      show 0 < (blocks - 1 + 8192 - 1) / 8192
      omega
    exact ⟨⟨hpos, Nat.le_of_not_lt hbig, fun g _ => hgrp hpos (Nat.le_of_not_lt hbig) g⟩, hlt,
      Nat.le_refl _⟩

lemma mkfsBlocks_lt (nsect : ℕ) : mkfsBlocks nsect < 2 ^ 32 := by
  refine Nat.lt_of_le_of_lt (Nat.div_le_self _ _) (Nat.mod_lt _ (by decide))

/-- `ext2_mkfs` leaves a formatted volume. -/
lemma wp_mkfs (d : Dev) : wp mkfs (fun _ d' => ∃ gfs, Layout gfs ∧ gfs.blocksCount < 2 ^ 32 ∧
    groupsOf gfs.blocksCount ≤ gfs.ngroups ∧ Formatted gfs d' ∧
      ∀ i < E2_BSIZE, blkView d' 1 i = mkfsSuper gfs i) Fails d := by
  refine wp_bind.mpr (wp_gets.mpr ?_)
  simp only
  split_ifs with hblocks
  · exact wp_fail.mpr trivial
  · obtain ⟨hl, hlt, hgroups⟩ := mkfsGeometry_ok (Nat.le_of_not_lt hblocks) (mkfsBlocks_lt d.nsect)
    exact (wp_mkfsWith hl).mono (fun _ d' hd' => ⟨_, hl, hlt, hgroups, hd'⟩) fun _ _ he => he

/-! ## Mounting -/

section

variable {fs gfs : E2Fs} {d d' : Dev}

lemma sbParse_inv {sb : ℕ → UInt8} {blocks ngroups : ℕ} (h : sbParse sb = .ok (blocks, ngroups)) :
    blocks = load sb 4 4 ∧ ngroups = groupsOf blocks ∧ 0 < ngroups ∧ ngroups ≤ E2_NGROUP_MAX := by
  unfold sbParse at h
  simp only at h
  split_ifs at h
  rename_i hgroups
  cases h
  rw [not_or] at hgroups
  exact ⟨rfl, rfl, Nat.pos_of_ne_zero hgroups.1, Nat.le_of_not_lt hgroups.2⟩

lemma wp_readDescs (hl : Layout gfs) (n g : ℕ) (grp : ℕ → E2Grp) (hn : g + n ≤ gfs.ngroups)
    (hdescs : Descs gfs gfs.ngroups d) (hgrp : ∀ g' < g, grp g' = gfs.grp g') :
    wp (readDescs n g grp) (fun r d' => SameDev d d' ∧ ∀ g' < g + n, r g' = gfs.grp g') Fails d := by
  induction n generalizing g grp d with
  | zero => exact wp_pure.mpr ⟨.refl d, hgrp⟩
  | succ n ih =>
    have hle : gfs.ngroups ≤ 16 := hl.le
    have hsect : (2048 + g * 32) / 512 = 4 := by omega
    have hoff : (2048 + g * 32) % 512 = g * 32 := by omega
    rw [readDescs]
    simp only [hsect, hoff]
    refine wp_bind.mpr (wp_devRead fun d₁ hd₁ => ?_)
    obtain ⟨h1, h2, h3⟩ := hdescs g (by omega)
    have hx : (⟨load (d.view 4) (g * 32) 4, load (d.view 4) (g * 32 + 4) 4,
        load (d.view 4) (g * 32 + 8) 4⟩ : E2Grp) = gfs.grp g := by
      show (⟨load (blkView d 2) (g * 32) 4, load (blkView d 2) (g * 32 + 4) 4,
        load (blkView d 2) (g * 32 + 8) 4⟩ : E2Grp) = gfs.grp g
      rw [h1, h2, h3]
    simp only [hx]
    split_ifs
    · exact wp_fail.mpr trivial
    · have hdescs₁ : Descs gfs gfs.ngroups d₁ := hdescs.congr hl.le (hd₁.sameBlk 2)
      have hgrp₁ : ∀ g' < g + 1, Function.update grp g (gfs.grp g) g' = gfs.grp g' := by
        intro g' hg'
        by_cases heq : g' = g
        · rw [heq, Function.update_self]
        · rw [Function.update_of_ne heq]
          exact hgrp g' (by omega)
      refine (ih (g + 1) _ (by omega) hdescs₁ hgrp₁).mono (fun r d' hr => ?_) fun _ _ he => he
      exact ⟨hd₁.trans hr.1, fun g' hg' => hr.2 g' (by omega)⟩

/-- A formatted volume meets the invariant, with the geometry that `ext2_mount` reads. -/
lemma Formatted.dirsOk (h : Formatted gfs d) (hl : Layout gfs) (hpos : 0 < fs.ngroups)
    (hle : fs.ngroups ≤ gfs.ngroups) (hgrp : ∀ g < fs.ngroups, fs.grp g = gfs.grp g) :
    DirsOk fs ⟨d, [inodeParse E2_ROOT_INO (recView fs d E2_ROOT_INO)]⟩ := by
  have hlayout : Layout fs := ⟨hpos, hle.trans hl.le, fun g hg =>
    (hgrp g hg).trans (hl.grp g (by omega))⟩
  have hused : ∀ b, (b - 1) / E2_BPG < fs.ngroups → reserved gfs ((b - 1) / E2_BPG) ((b - 1) % E2_BPG)
      = true → Used fs d b := by
    intro b hb hres
    rw [Used, hlayout.grp _ hb]
    exact (h.bits.bitmaps _ (by omega) _ (Nat.mod_lt _ (by decide))).trans hres
  have hstart : ∀ g < gfs.ngroups, dataStart gfs g = metaStart g + 258 := by
    intro g hg
    rw [dataStart, hl.grp g hg]
    rfl
  have hrec : recView fs d E2_ROOT_INO = recView gfs d E2_ROOT_INO := by
    funext i
    rw [recView, recView, inodeOff_eq hlayout hpos, inodeOff_eq hl hl.pos]
  have hzero : (rootBlock - 1) / E2_BPG = 0 := by decide
  have hgroup : (rootBlock - 1) / E2_BPG < fs.ngroups := hzero.symm ▸ hpos
  have hentry : DirRec (inodeParse E2_ROOT_INO (recView fs d E2_ROOT_INO)) rootBlock := by
    rw [hrec]
    exact h.rootRec
  have hroot : DirAt fs d E2_ROOT_INO rootBlock := by
    refine ⟨by decide, hpos, ?_, by decide, by decide, hgroup, ?_, ?_, hentry, h.rootBlk⟩
    · have h0 : (fs.grp ((E2_ROOT_INO - 1) / E2_IPG)).ibmap = 4 :=
        congrArg E2Grp.ibmap (hlayout.grp 0 hpos)
      rw [Marked, h0]
      exact h.bits.rootBit hl.pos
    · refine hused rootBlock hgroup ?_
      have h0 := hstart 0 hl.pos
      have hbit : (rootBlock - 1) % E2_BPG = 260 := by decide
      rw [hzero, hbit]
      simp only [reserved, h0]
      exact decide_eq_true (.inr (.inr ⟨trivial, by decide⟩))
    · rintro ⟨g, -, j, hj, heq⟩
      have hj' : j < 258 := hj
      have heq' : 261 = metaStart g + j := heq
      simp only [metaStart, E2_BPG] at heq'
      split_ifs at heq' <;> omega
  refine ⟨hlayout, h.nsect, fun b hb => hused b hb.group ?_, hroot, fun n hn _ => ?_⟩
  · obtain ⟨g, hg, j, hj, rfl⟩ := hb
    have hj' : j < 258 := hj
    have hdiv : (metaStart g + j - 1) / E2_BPG = g := by
      simp only [metaStart, E2_BPG]
      split_ifs <;> omega
    have hb : g * E2_BPG + 1 + (metaStart g + j - 1) % E2_BPG = metaStart g + j := by
      have hpos := three_le_metaStart g
      have hmod := Nat.div_add_mod (metaStart g + j - 1) E2_BPG
      rw [hdiv, Nat.mul_comm] at hmod
      omega
    have hlt : metaStart g + j < dataStart gfs g := by
      rw [hstart g (by omega)]
      omega
    rw [hdiv]
    simp only [reserved, hb]
    exact decide_eq_true (.inr (.inl hlt))
  · obtain rfl := List.mem_singleton.mp hn
    exact ⟨⟨hentry.isDir, hentry.size, rfl⟩, hentry.blk.symm ▸ hroot⟩

/-- A volume that has been made and mounted meets the invariant. -/
lemma wp_mount (hl : Layout gfs) (hlt : gfs.blocksCount < 2 ^ 32)
    (hgroups : groupsOf gfs.blocksCount ≤ gfs.ngroups) (h : Formatted gfs d)
    (hsb : ∀ i < E2_BSIZE, blkView d 1 i = mkfsSuper gfs i) (km : MountMem) :
    wp (mount km) (fun r d' => DirsOk r.1 ⟨d', [r.2]⟩) Fails d := by
  have hcount : load (mkfsSuper gfs) 4 4 = gfs.blocksCount := by
    unfold mkfsSuper
    simp (disch := omega) only [load_put_of_disjoint, load_put]
    exact Nat.mod_eq_of_lt hlt
  have hfail {α : Type} {e : Errno} {Q : α → Dev → Prop} {d : Dev} : wp (fail e) Q Fails d :=
    wp_fail.mpr trivial
  refine wp_bind.mpr (wp_devRead fun d₁ hd₁ => ?_)
  cases hparse : sbParse (d.view (E2_BSIZE / BLK_SECTOR_SIZE)) with
  | error e => exact hfail
  | ok x =>
    obtain ⟨blocks, ngroups⟩ := x
    obtain ⟨hblocks, hngroups, hpos, -⟩ := sbParse_inv hparse
    have hb : blocks = gfs.blocksCount := by
      rw [hblocks, ← hcount]
      exact load_congr fun i hi => hsb (4 + i) (Nat.lt_of_lt_of_le (by omega : 4 + i < 8) (by decide))
    have hle : ngroups ≤ gfs.ngroups := by
      rw [hngroups, hb]
      exact hgroups
    simp only
    split
    · exact hfail
    split
    · exact hfail
    have hdescs : Descs gfs gfs.ngroups d₁ := h.bits.descs.congr hl.le (hd₁.sameBlk 2)
    refine (wp_readDescs hl ngroups 0 _ (by omega) hdescs fun g' hg' =>
      absurd hg' (Nat.not_lt_zero g')).bind (fun grp d₂ hgrp => ?_) fun _ _ he => he
    obtain ⟨hd₂, hgrp⟩ := hgrp
    rw [Nat.zero_add] at hgrp
    split
    · exact hfail
    have hdirs := Formatted.dirsOk h hl (show 0 < (⟨blocks, ngroups, grp⟩ : E2Fs).ngroups from hpos)
      hle hgrp
    refine wp_bind.mpr (wp_inodeLoad fun d₃ hd₃ => ?_)
    split
    · exact hfail
    split
    · exact hfail
    have hdev := (hd₁.trans hd₂).trans hd₃
    rw [(hd₁.trans hd₂).recView]
    exact wp_pure.mpr (hdirs.changed hdev.changed fun n hn _ => .inl hn)

end

/-! ## The directory tree of a fresh volume -/

/-- A volume that has been made and mounted meets the invariant. -/
lemma fresh_dirsOk {d d₁ d₂ : Dev} {km : MountMem} {fs : E2Fs} {root : Inode}
    (hmkfs : mkfs d = (.ok (), d₁)) (hmount : mount km d₁ = (.ok (fs, root), d₂)) :
    DirsOk fs ⟨d₂, [root]⟩ := by
  obtain ⟨gfs, hl, hlt, hgroups, hform, hsb⟩ := (wp_mkfs d).ok hmkfs
  exact (wp_mount hl hlt hgroups hform hsb km).ok hmount

/-- After `mkfs` and after every sequence of successful operations, the law of the directory
tree is broken: `ext2_mkfs` puts the name of `..` 4 bytes behind the place where `dir_ent_at`
reads it, and no operation puts it right. -/
theorem tree_law_never {d d₁ d₂ : Dev} {km : MountMem} {fs : E2Fs} {root : Inode}
    {ops : List VolOp} {s : Vol} (hmkfs : mkfs d = (.ok (), d₁))
    (hmount : mount km d₁ = (.ok (fs, root), d₂)) (hrun : Run (VolStep fs) ⟨d₂, [root]⟩ ops s) :
    ¬ TreeLaw fs s.dev := by
  have hinv : DirsOk fs s := hrun.invariant (I := DirsOk fs) (fresh_dirsOk hmkfs hmount)
    fun _ _ _ h hs => h.step hs
  exact hinv.not_law

/-! ## A small volume -/

/-- A device of 8224 sectors, enough for 4096 blocks. -/
def blankDev : Dev := ⟨fun _ => 0, 8224, []⟩

/-- The device with a volume on it. -/
@[irreducible] def freshDev : Dev := (mkfs blankDev).2

/-- The geometry and the root directory of the volume. -/
@[irreducible] def freshMount : E2Fs × Inode :=
  (mount allMem freshDev).1.toOption.getD (⟨0, 0, fun _ => ⟨0, 0, 0⟩⟩, ⟨0, false, 0, 0, fun _ => 0⟩)

lemma mkfs_blank : mkfs blankDev = (.ok (), freshDev) := by
  unfold freshDev
  exact ok_of_toOption (by decide +kernel : (mkfs blankDev).1.toOption = some ())

/-- An answer that is taken with a default. -/
lemma ok_of_isSome {σ α : Type} {x : Except Errno α × σ} (a : α) (h : x.1.toOption.isSome = true) :
    x = (.ok (x.1.toOption.getD a), x.2) := by
  obtain ⟨v, hv⟩ := Option.isSome_iff_exists.mp h
  rw [hv]
  exact ok_of_toOption hv

/-- The device of the mounted volume. -/
@[irreducible] def mountedDev : Dev := (mount allMem freshDev).2

lemma mount_fresh : mount allMem freshDev = (.ok (freshMount.1, freshMount.2), mountedDev) := by
  have hok : (mount allMem freshDev).1.toOption.isSome = true := by decide +kernel
  unfold freshMount mountedDev
  exact ok_of_isSome _ hok

lemma created_fresh : ∃ n d₃ dir', VolStep freshMount.1 ⟨mountedDev, [freshMount.2]⟩
    (.create 0 [97] false) ⟨d₃, [dir', n]⟩ ∧ dir'.isDir = true := by
  obtain ⟨hsome, hdir'⟩ : (create freshMount.1 ⟨true, true⟩ freshMount.2 [97] false
      mountedDev).1.toOption.isSome = true ∧ (create freshMount.1 ⟨true, true⟩ freshMount.2 [97]
        false mountedDev).2.2.isDir = true := by decide +kernel
  have hok := ok_of_isSome ⟨0, false, 0, 0, fun _ => 0⟩ hsome
  have hdir : freshMount.2.isDir = true := by decide +kernel
  exact ⟨_, _, _, ⟨freshMount.2, ⟨true, true⟩, _, _, ⟨rfl, hdir, by decide, by decide⟩, hok, rfl⟩,
    hdir'⟩

/-- The law is broken when a file has been created. -/
theorem tree_law_never_create : ∃ d₁ d₂ fs root s, mkfs blankDev = (.ok (), d₁) ∧
    mount allMem d₁ = (.ok (fs, root), d₂) ∧
      Run (VolStep fs) ⟨d₂, [root]⟩ [.create 0 [97] false] s ∧ ¬ TreeLaw fs s.dev := by
  obtain ⟨n, d₃, dir', hstep, -⟩ := created_fresh
  exact ⟨freshDev, mountedDev, freshMount.1, freshMount.2, ⟨d₃, [dir', n]⟩, mkfs_blank, mount_fresh,
    .single hstep, tree_law_never mkfs_blank mount_fresh (.single hstep)⟩

/-- The law is broken on the volume as it has been made. -/
theorem tree_law_fresh : ∃ d₁ d₂ fs root, mkfs blankDev = (.ok (), d₁) ∧
    mount allMem d₁ = (.ok (fs, root), d₂) ∧ Run (VolStep fs) ⟨d₂, [root]⟩ [] ⟨d₂, [root]⟩ ∧
      ¬ TreeLaw fs d₂ :=
  ⟨freshDev, mountedDev, freshMount.1, freshMount.2, mkfs_blank, mount_fresh, .nil,
    (fresh_dirsOk mkfs_blank mount_fresh).not_law⟩

end Ext2
end MobilePhoneOs.Fs
