import MobilePhoneOs.Fs.Ext2MkfsTheorems

/-!
# The layout of a freshly made ext2 volume

`ext2_mkfs` and `ext2_mount` count the groups by themselves. They agree, and the metadata is
inside the volume, if there are at most 16 groups and the last one has room for its bitmaps and
its inode table; for every other size that `ext2_mkfs` accepts the law is broken.
-/

namespace MobilePhoneOs.Fs
namespace Ext2

open Mem Prog

/-! ## Regions -/

section

variable {fs : E2Fs} {b g : ℕ}

lemma mem_regions {r : ℕ × ℕ} : r ∈ regions fs ↔ r = (1, 1) ∨ r = (2, gdtBlocks fs.ngroups) ∨
    ∃ g < fs.ngroups, r = ((fs.grp g).bbmap, 1) ∨ r = ((fs.grp g).ibmap, 1) ∨
      r = ((fs.grp g).itable, itableBlocks) := by
  simp [regions]

lemma Layout.gdtBlocks (hl : Layout fs) : gdtBlocks fs.ngroups = 1 := by
  have hpos := hl.pos
  have hle : fs.ngroups ≤ 16 := hl.le
  show (fs.ngroups * 32 + 1024 - 1) / 1024 = 1
  omega

/-- The regions of one group are a run of blocks. -/
lemma covers_group (hl : Layout fs) (hg : g < fs.ngroups) :
    (Covers ((fs.grp g).bbmap, 1) b ↔ b = metaStart g) ∧
      (Covers ((fs.grp g).ibmap, 1) b ↔ b = metaStart g + 1) ∧
      (Covers ((fs.grp g).itable, itableBlocks) b ↔ metaStart g + 2 ≤ b ∧ b < metaStart g + 258) := by
  have hblocks : itableBlocks = 256 := rfl
  rw [hl.grp g hg, hblocks]
  refine ⟨?_, ?_, ?_⟩ <;> simp only [Covers] <;> omega

/-- The blocks of the regions are the first two and the metadata of the groups. -/
lemma inMeta_iff (hl : Layout fs) : InMeta fs b ↔ b = 1 ∨ b = 2 ∨ Meta fs b := by
  have hblocks : 2 + itableBlocks = 258 := rfl
  constructor
  · rintro ⟨r, hr, hb⟩
    rcases mem_regions.mp hr with rfl | rfl | ⟨g, hg, hr⟩
    · simp only [Covers] at hb
      omega
    · simp only [Covers, hl.gdtBlocks] at hb
      omega
    · refine .inr (.inr ⟨g, hg, b - metaStart g, ?_⟩)
      rw [hblocks]
      obtain ⟨h1, h2, h3⟩ := covers_group (b := b) hl hg
      rcases hr with rfl | rfl | rfl
      · rw [h1] at hb
        omega
      · rw [h2] at hb
        omega
      · rw [h3] at hb
        omega
  · rintro (rfl | rfl | ⟨g, hg, j, hj, rfl⟩)
    · exact ⟨(1, 1), mem_regions.mpr (.inl rfl), by simp [Covers]⟩
    · refine ⟨(2, Ext2.gdtBlocks fs.ngroups), mem_regions.mpr (.inr (.inl rfl)), ?_⟩
      simp [Covers, hl.gdtBlocks]
    · rw [hblocks] at hj
      obtain ⟨h1, h2, h3⟩ := covers_group (b := metaStart g + j) hl hg
      have hmem {r : ℕ × ℕ} (h : r = ((fs.grp g).bbmap, 1) ∨ r = ((fs.grp g).ibmap, 1) ∨
          r = ((fs.grp g).itable, itableBlocks)) : r ∈ regions fs :=
        mem_regions.mpr (.inr (.inr ⟨g, hg, h⟩))
      rcases Nat.lt_or_ge j 2 with hj2 | hj2
      · rcases Nat.lt_or_ge j 1 with hj1 | hj1
        · exact ⟨_, hmem (.inl rfl), h1.mpr (by omega)⟩
        · exact ⟨_, hmem (.inr (.inl rfl)), h2.mpr (by omega)⟩
      · exact ⟨_, hmem (.inr (.inr rfl)), h3.mpr (by omega)⟩

lemma Layout.inside (hl : Layout fs) (hroom : ∀ g < fs.ngroups, metaStart g + 258 ≤ fs.blocksCount) :
    ∀ r ∈ regions fs, 0 < r.1 ∧ r.1 + r.2 ≤ fs.blocksCount := by
  have hfirst := hroom 0 hl.pos
  intro r hr
  rcases mem_regions.mp hr with rfl | rfl | ⟨g, hg, hr⟩
  · exact ⟨Nat.one_pos, show 1 + 1 ≤ _ by omega⟩
  · rw [hl.gdtBlocks]
    exact ⟨Nat.two_pos, show 2 + 1 ≤ _ by omega⟩
  · have hg258 := hroom g hg
    have hg3 := three_le_metaStart g
    have hblocks : itableBlocks = 256 := rfl
    rw [hl.grp g hg, hblocks] at hr
    rcases hr with rfl | rfl | rfl <;> simp only <;> omega

/-- The groups do not meet. -/
lemma Layout.disjoint (hl : Layout fs) :
    (regions fs).Pairwise fun r s => ∀ b, Covers r b → ¬ Covers s b := by
  have hgroup : ∀ g < fs.ngroups, ∀ s ∈ [((fs.grp g).bbmap, 1), ((fs.grp g).ibmap, 1),
      ((fs.grp g).itable, itableBlocks)], ∀ b, Covers s b → metaStart g ≤ b ∧ b < metaStart g + 258 := by
    intro g hg s hs b hb
    obtain ⟨h1, h2, h3⟩ := covers_group (b := b) hl hg
    simp only [List.mem_cons, List.not_mem_nil, or_false] at hs
    rcases hs with rfl | rfl | rfl
    · rw [h1] at hb
      omega
    · rw [h2] at hb
      omega
    · rw [h3] at hb
      omega
  have hlater : ∀ s ∈ (List.range fs.ngroups).flatMap (fun g => [((fs.grp g).bbmap, 1),
      ((fs.grp g).ibmap, 1), ((fs.grp g).itable, itableBlocks)]), ∀ b, Covers s b → 3 ≤ b := by
    intro s hs b hb
    obtain ⟨g, hg, hs⟩ := List.mem_flatMap.mp hs
    have hstart := three_le_metaStart g
    have hge := (hgroup g (List.mem_range.mp hg) s hs b hb).1
    omega
  unfold regions
  rw [hl.gdtBlocks]
  refine List.pairwise_cons.mpr ⟨fun s hs b hb hc => ?_, List.pairwise_cons.mpr
    ⟨fun s hs b hb hc => ?_, List.pairwise_flatMap.mpr ⟨fun g hg => ?_, ?_⟩⟩⟩
  · simp only [Covers] at hb
    rcases List.mem_cons.mp hs with rfl | hs
    · simp only [Covers] at hc
      omega
    · have hge := hlater s hs b hc
      omega
  · simp only [Covers] at hb
    have hge := hlater s hs b hc
    omega
  · -- the three regions of one group
    have hcov := fun b => covers_group (b := b) hl (List.mem_range.mp hg)
    refine List.pairwise_cons.mpr ⟨fun s hs b hb hc => ?_, List.pairwise_cons.mpr
      ⟨fun s hs b hb hc => ?_, List.pairwise_singleton _ _⟩⟩
    · rw [(hcov b).1] at hb
      simp only [List.mem_cons, List.not_mem_nil, or_false] at hs
      rcases hs with rfl | rfl
      · rw [(hcov b).2.1] at hc
        omega
      · rw [(hcov b).2.2] at hc
        omega
    · rw [(hcov b).2.1] at hb
      obtain rfl := List.mem_singleton.mp hs
      rw [(hcov b).2.2] at hc
      omega
  · -- two groups
    refine List.pairwise_lt_range.imp_of_mem fun {g g'} hg hg' hlt r hr s hs b hb hc => ?_
    have h1 := hgroup g (List.mem_range.mp hg) r hr b hb
    have h2 := hgroup g' (List.mem_range.mp hg') s hs b hc
    simp only [metaStart, E2_BPG] at h1 h2
    split_ifs at h1 h2 <;> omega

end

/-! ## Inside the partition -/

section

variable {fs : E2Fs} {d₀ d : Dev} {k : ℕ}

/-- The partition has kept its size, and if the volume is inside it, the bytes behind it. -/
structure Within (fs : E2Fs) (d₀ d : Dev) : Prop where
  nsect : d.nsect = d₀.nsect
  beyond : 2 * fs.blocksCount ≤ d₀.nsect → ∀ i, d₀.nsect * 512 ≤ i → d.data i = d₀.data i

lemma Within.put (h : Within fs d₀ d) {d' : Dev} {sect n : ℕ} {buf : ℕ → UInt8}
    (hn : sect + n ≤ 2 * fs.blocksCount) (hd : SameDev (d.put sect n buf) d') :
    Within fs d₀ d' := by
  refine ⟨hd.nsect.trans h.nsect, fun hvol i hi => ?_⟩
  have hend : sect * 512 + n * 512 ≤ i := by
    rw [← Nat.add_mul]
    exact (Nat.mul_le_mul_right 512 (hn.trans hvol)).trans hi
  have hout : copy d.data (sect * 512) (n * 512) buf i = d.data i := copy_of_ge hend
  rw [hd.data]
  exact hout.trans (h.beyond hvol i hi)

lemma wp_within_putBlock (h : Within fs d₀ d) {ab : ℕ} {buf : ℕ → UInt8}
    (hab : ab < fs.blocksCount) : wp (putBlock ab buf) (fun _ => Within fs d₀) Fails d := by
  refine wp_putBlock fun d' hd' _ => ?_
  have hput : SameDev (d.put (ab * 2) 2 buf) d' := hd'
  exact h.put (by omega) hput

lemma wp_within_mkfsZero (h : Within fs d₀ d) {start : ℕ} (hin : start + 258 ≤ fs.blocksCount) :
    wp (mkfsZero ⟨start, start + 1, start + 2⟩) (fun _ => Within fs d₀) Fails d := by
  refine (wp_within_putBlock h ?_).bind (fun _ d₁ h₁ => ?_) fun _ _ he => he
  · show start < fs.blocksCount
    omega
  refine (wp_within_putBlock h₁ ?_).bind (fun _ d₂ h₂ => ?_) fun _ _ he => he
  · show start + 1 < fs.blocksCount
    omega
  have hblocks : itableBlocks = 256 := rfl
  -- a loop of 256 rounds unfolds when it is looked at
  generalize itableBlocks = n at hblocks ⊢
  refine wp_forN (I := fun _ => Within fs d₀) h₂ fun t ht d hd => wp_within_putBlock hd ?_
  show start + 2 + t < fs.blocksCount
  omega

lemma wp_within_mkfsDesc (h : Within fs d₀ d) (hk : k < 16) (hin : 261 ≤ fs.blocksCount) :
    wp (mkfsDesc fs k) (fun _ => Within fs d₀) Fails d := by
  refine wp_bind.mpr (wp_devRead fun d₁ hd₁ => wp_devWrite fun d₂ hd₂ => ?_)
  have h₁ : Within fs d₀ d₁ := ⟨hd₁.nsect.trans h.nsect, fun hvol i hi => by
    rw [hd₁.data]
    exact h.beyond hvol i hi⟩
  exact h₁.put (by omega) hd₂

/-- A volume whose groups have room for their metadata is written inside the partition. -/
lemma wp_within_mkfsWith (hl : Layout fs) (hin : ∀ g < fs.ngroups, metaStart g + 258 ≤ fs.blocksCount)
    (hroot : rootBlock < fs.blocksCount) (d : Dev) :
    wp (mkfsWith fs) (fun _ => Within fs d) Fails d := by
  have hroot' : 261 < fs.blocksCount := hroot
  have hstart : Within fs d d := ⟨rfl, fun _ _ _ => rfl⟩
  have hdata : dataStart fs 0 = rootBlock := by
    rw [dataStart, hl.grp 0 hl.pos]
    rfl
  unfold mkfsWith
  simp only [hdata]
  refine (wp_forN (I := fun _ => Within fs d) hstart fun g hg e he => ?_).bind
    (fun _ d₁ h₁ => ?_) fun _ _ he => he
  · rw [hl.grp g hg]
    exact wp_within_mkfsZero he (hin g hg)
  refine (wp_forN (I := fun _ => Within fs d) h₁ fun g hg e he =>
    wp_within_mkfsDesc he (Nat.lt_of_lt_of_le hg hl.le) (by omega)).bind
    (fun _ d₂ h₂ => ?_) fun _ _ he => he
  refine (wp_forN (I := fun _ => Within fs d) h₂ fun g hg e he =>
    wp_within_putBlock he ?_).bind (fun _ d₃ h₃ => ?_) fun _ _ he => he
  · have hg258 := hin g hg
    rw [hl.grp g hg]
    show metaStart g < fs.blocksCount
    omega
  refine (wp_forN (I := fun _ => Within fs d) h₃ fun g hg e he =>
    wp_within_putBlock he ?_).bind (fun _ d₄ h₄ => ?_) fun _ _ he => he
  · have hg258 := hin g hg
    rw [hl.grp g hg]
    show metaStart g + 1 < fs.blocksCount
    omega
  refine (wp_within_putBlock h₄ hroot).bind (fun _ d₅ h₅ => ?_) fun _ _ he => he
  refine wp_bind.mpr (wp_inodeScatter (slice_length _ _ _) fun d₆ hd₆ => ?_)
  have h₆ : Within fs d d₆ := by
    refine ⟨hd₆.nsect.trans h₅.nsect, fun hvol i hi => ?_⟩
    have hoff : inodeOff fs E2_ROOT_INO = 5248 := inodeOff_eq hl hl.pos
    have hlen : (rootRaw rootBlock).length = 128 := slice_length _ _ _
    rw [hd₆.data]
    show store d₅.data (inodeOff fs E2_ROOT_INO) (rootRaw rootBlock) i = d.data i
    rw [store_of_ge (by omega)]
    exact h₅.beyond hvol i hi
  refine wp_devWrite fun d₇ hd₇ => h₆.put ?_ hd₇
  show 2 + 2 ≤ 2 * fs.blocksCount
  omega

end

/-! ## Geometry -/

section

variable {blocks nsect : ℕ} {d d' : Dev}

lemma mkfsBlocks_le (h : 32 ≤ nsect) : 2 * mkfsBlocks nsect ≤ nsect := by
  unfold mkfsBlocks E2_SECT_PER_BLK
  have hmod : (nsect + 2 ^ 64 - 32) % 2 ^ 64 ≤ nsect - 32 := by
    have hshift : nsect + 2 ^ 64 - 32 = nsect - 32 + 2 ^ 64 := by omega
    rw [hshift, Nat.add_mod_right]
    exact Nat.mod_le _ _
  generalize (nsect + 2 ^ 64 - 32) % 2 ^ 64 = usable at hmod ⊢
  omega

lemma mkfs_inv (h : mkfs d = (.ok (), d')) : 4096 ≤ mkfsBlocks d.nsect ∧
    mkfsWith (mkfsGeometry (mkfsBlocks d.nsect)) d = (.ok (), d') := by
  have hwp : wp mkfs (fun _ d' => 4096 ≤ mkfsBlocks d.nsect ∧
      mkfsWith (mkfsGeometry (mkfsBlocks d.nsect)) d = (.ok (), d')) Fails d := by
    refine wp_bind.mpr (wp_gets.mpr ?_)
    simp only
    split_ifs with hsmall
    · exact wp_fail.mpr trivial
    · exact wp_of_run (fun _ _ hx => ⟨Nat.le_of_not_lt hsmall, hx⟩) fun _ _ _ => trivial
  exact hwp.ok h

lemma mkfsGeometry_small (h : groupsOf blocks ≤ E2_NGROUP_MAX) :
    (mkfsGeometry blocks).blocksCount = blocks ∧ (mkfsGeometry blocks).ngroups = groupsOf blocks := by
  rw [mkfsGeometry, if_neg (Nat.not_lt_of_le h)]
  exact ⟨rfl, rfl⟩

/-- The clamp leaves one group too many. -/
lemma mkfsGeometry_big (h : E2_NGROUP_MAX < groupsOf blocks) :
    groupsOf (mkfsGeometry blocks).blocksCount ≠ (mkfsGeometry blocks).ngroups := by
  have hblocks : 16 < (blocks - 1 + 8192 - 1) / 8192 := h
  have hcut : min ((E2_NGROUP_MAX - 1) * E2_BPG + 1) blocks = 122881 := by
    simp only [E2_NGROUP_MAX, E2_BPG]
    omega
  rw [mkfsGeometry, if_pos h, hcut]
  show (122881 - 1 + 8192 - 1) / 8192 ≠ 16
  omega

/-- The last group is the one that may lack the room. -/
lemma room_iff (h : 4096 ≤ blocks) : (∀ g < groupsOf blocks, metaStart g + 258 ≤ blocks) ↔
    ((blocks - 1) % E2_BPG = 0 ∨ 2 + itableBlocks ≤ (blocks - 1) % E2_BPG) := by
  have hmeta : 2 + itableBlocks = 258 := rfl
  have hgroups : groupsOf blocks = (blocks - 1 + 8192 - 1) / 8192 := rfl
  rw [hmeta, hgroups, E2_BPG]
  constructor
  · intro hroom
    have hlast := hroom ((blocks - 1 + 8192 - 1) / 8192 - 1) (by omega)
    simp only [metaStart, E2_BPG] at hlast
    split_ifs at hlast <;> omega
  · intro hlast g hg
    simp only [metaStart, E2_BPG]
    split_ifs <;> omega

end

/-! ## Mounting without faults -/

section

variable {fs gfs : E2Fs} {d d' : Dev}

lemma wp_devRead_calm (hd : d.faults = []) {sect : ℕ} {Q : (ℕ → UInt8) → Dev → Prop}
    {E : Errno → Dev → Prop} (h : Q (d.view sect) d) : wp (devRead sect) Q E d := by
  unfold wp devRead Dev.read
  rw [hd]
  exact h

lemma wp_readDescs_calm (hd : d.faults = []) (hl : Layout gfs) (hdescs : Descs gfs gfs.ngroups d)
    (n g : ℕ) (grp : ℕ → E2Grp) (hn : g + n ≤ gfs.ngroups) (hgrp : ∀ g' < g, grp g' = gfs.grp g') :
    wp (readDescs n g grp) (fun r d' => d' = d ∧ ∀ g' < g + n, r g' = gfs.grp g')
      (fun _ _ => False) d := by
  induction n generalizing g grp with
  | zero => exact wp_pure.mpr ⟨rfl, hgrp⟩
  | succ n ih =>
    have hle : gfs.ngroups ≤ 16 := hl.le
    have hsect : (2048 + g * 32) / 512 = 4 := by omega
    have hoff : (2048 + g * 32) % 512 = g * 32 := by omega
    rw [readDescs]
    simp only [hsect, hoff]
    refine wp_bind.mpr (wp_devRead_calm hd ?_)
    obtain ⟨h1, h2, h3⟩ : load (d.view 4) (g * 32) 4 = (gfs.grp g).bbmap ∧
      load (d.view 4) (g * 32 + 4) 4 = (gfs.grp g).ibmap ∧
        load (d.view 4) (g * 32 + 8) 4 = (gfs.grp g).itable := hdescs g (by omega)
    have hpos := three_le_metaStart g
    have hset : ¬ ((gfs.grp g).itable = 0 ∨ (gfs.grp g).bbmap = 0 ∨ (gfs.grp g).ibmap = 0) := by
      rw [hl.grp g (by omega)]
      show ¬ (metaStart g + 2 = 0 ∨ metaStart g = 0 ∨ metaStart g + 1 = 0)
      omega
    simp only [h1, h2, h3, if_neg hset]
    refine (ih (g + 1) _ (by omega) fun g' hg' => ?_).mono (fun r d' hr => ?_) fun _ _ he => he
    · by_cases heq : g' = g
      · rw [heq, Function.update_self]
      · rw [Function.update_of_ne heq]
        exact hgrp g' (by omega)
    · exact ⟨hr.1, fun g' hg' => hr.2 g' (by omega)⟩

lemma inodeLoad_calm (hd : d.faults = []) {ino : ℕ} (hlt : inodeOff fs ino / 512 < d.nsect) :
    inodeLoad fs ino d = (.ok (inodeParse ino (recView fs d ino)), d) := by
  have hread : sectRead d (inodeOff fs ino / 512) = (.ok (d.view (inodeOff fs ino / 512)), d) := by
    rw [sectRead, if_neg (by omega), Dev.read, hd]
  have hload : ∃ n, inodeLoad fs ino d = (.ok n, d) := by
    unfold inodeLoad inodeGather
    simp only [hread, if_pos (inodeOff_sector fs ino)]
    exact ⟨_, rfl⟩
  obtain ⟨n, hload⟩ := hload
  rw [hload, (inodeLoad_inv hload).2]

lemma sbParse_congr {sb sb' : ℕ → UInt8} (h : ∀ i < E2_BSIZE, sb i = sb' i) :
    sbParse sb = sbParse sb' := by
  have hload (p m : ℕ) (hp : p + m ≤ 128) : load sb p m = load sb' p m :=
    load_congr fun i hi => h (p + i) (show p + i < 1024 by omega)
  unfold sbParse
  rw [hload 56 2 (by omega), h 24 (by decide), hload 20 4 (by omega), hload 88 2 (by omega),
    hload 32 4 (by omega), hload 76 4 (by omega), hload 4 4 (by omega)]

/-- The superblock is accepted, with the geometry it was written with. -/
lemma sbParse_mkfsSuper (hlt : gfs.blocksCount < 2 ^ 32) (hge : 64 ≤ gfs.blocksCount)
    (hpos : 0 < groupsOf gfs.blocksCount) (hle : groupsOf gfs.blocksCount ≤ E2_NGROUP_MAX) :
    sbParse (mkfsSuper gfs) = .ok (gfs.blocksCount, groupsOf gfs.blocksCount) := by
  have hcount : load (mkfsSuper gfs) 4 4 = gfs.blocksCount := by
    unfold mkfsSuper
    simp (disch := omega) only [load_put_of_disjoint, load_put]
    exact Nat.mod_eq_of_lt hlt
  obtain ⟨hmagic, hfirst, hsize, hbpg, hrev, hlog⟩ : load (mkfsSuper gfs) 56 2 = E2_MAGIC ∧
      load (mkfsSuper gfs) 20 4 = 1 ∧ load (mkfsSuper gfs) 88 2 = E2_INODE_SIZE ∧
      load (mkfsSuper gfs) 32 4 = E2_BPG ∧ load (mkfsSuper gfs) 76 4 = 1 ∧
      load (mkfsSuper gfs) 24 1 = 0 := by
    unfold mkfsSuper
    simp (disch := omega) only [load_put_of_disjoint, load_put]
    refine ⟨?_, ?_, ?_, ?_, ?_, ?_⟩ <;> norm_num [E2_MAGIC, E2_INODE_SIZE, E2_BPG]
  have hzero : mkfsSuper gfs 24 = 0 := by
    rw [load_one] at hlog
    exact UInt8.toNat_inj.mp hlog
  unfold sbParse
  simp only [hcount, hmagic, hzero, hfirst, hsize, hbpg, hrev]
  rw [if_neg (not_not_intro rfl), if_neg (not_not_intro rfl), if_neg (not_not_intro rfl),
    if_neg (not_not_intro rfl), if_neg (not_not_intro rfl), if_neg (Nat.lt_irrefl 1),
    if_neg (by omega), if_neg (by omega)]

/-- What `ext2_mount` finds on a formatted volume. -/
lemma mount_calm (hd : d.faults = []) (hl : Layout gfs) (hform : Formatted gfs d)
    (hsb : ∀ i < E2_BSIZE, blkView d 1 i = mkfsSuper gfs i) (hlt : gfs.blocksCount < 2 ^ 32)
    (hgroups : groupsOf gfs.blocksCount = gfs.ngroups)
    (hroom : 3 + gfs.ngroups * 259 ≤ gfs.blocksCount) :
    ∃ m root, mount allMem d = (.ok (m, root), d) ∧ m.blocksCount = gfs.blocksCount ∧
      m.ngroups = gfs.ngroups ∧ (∀ g < gfs.ngroups, m.grp g = gfs.grp g) ∧
      root.blk 0 = rootBlock := by
  have hpos := hl.pos
  have hparse : sbParse (d.view (E2_BSIZE / BLK_SECTOR_SIZE))
      = .ok (gfs.blocksCount, gfs.ngroups) := by
    rw [← hgroups, ← sbParse_mkfsSuper hlt (by omega) (by omega) (hgroups.le.trans hl.le)]
    exact sbParse_congr hsb
  have hwp : wp (mount allMem) (fun r d' => d' = d ∧ r.1.blocksCount = gfs.blocksCount ∧
      r.1.ngroups = gfs.ngroups ∧ (∀ g < gfs.ngroups, r.1.grp g = gfs.grp g) ∧
      r.2.blk 0 = rootBlock) (fun _ _ => False) d := by
    refine wp_bind.mpr (wp_devRead_calm hd ?_)
    rw [hparse]
    have hfit : ¬ 2 + gdtBlocks gfs.ngroups + gfs.ngroups * (3 + E2_IPG / 8) > gfs.blocksCount := by
      rw [hl.gdtBlocks]
      show ¬ 2 + 1 + gfs.ngroups * 259 > gfs.blocksCount
      omega
    simp only
    rw [if_neg hfit, if_neg (show ¬ allMem.fs = false by decide)]
    refine (wp_readDescs_calm hd hl hform.bits.descs gfs.ngroups 0 _ (Nat.zero_add _).le fun g' hg' =>
      absurd hg' (Nat.not_lt_zero g')).bind (fun grp d₁ hgrp => ?_) fun _ _ he => he
    obtain ⟨rfl, hgrp⟩ := hgrp
    rw [Nat.zero_add] at hgrp
    rw [if_neg (show ¬ allMem.inode = false by decide)]
    have hoff : inodeOff ⟨gfs.blocksCount, gfs.ngroups, grp⟩ E2_ROOT_INO = 5248 := by
      show (grp ((E2_ROOT_INO - 1) / E2_IPG)).itable * E2_BSIZE + _ = _
      rw [hgrp _ (show (E2_ROOT_INO - 1) / E2_IPG < _ from hpos)]
      exact inodeOff_eq hl hl.pos
    have hrec : recView ⟨gfs.blocksCount, gfs.ngroups, grp⟩ d₁ E2_ROOT_INO
        = recView gfs d₁ E2_ROOT_INO := by
      funext i
      rw [recView, recView, hoff, inodeOff_eq hl hl.pos]
      rfl
    have hsect : 2 * 261 < d₁.nsect := hform.nsect
    have hin : inodeOff ⟨gfs.blocksCount, gfs.ngroups, grp⟩ E2_ROOT_INO / 512 < d₁.nsect := by omega
    have hload := inodeLoad_calm hd hin
    have hroot := hform.rootRec
    rw [← hrec] at hroot
    refine wp_bind.mpr ?_
    unfold wp
    rw [hload]
    show wp (if (inodeParse _ _).isDir = false then _ else _) _ _ d₁
    rw [if_neg (by rw [hroot.isDir]; decide), if_neg (show ¬ allMem.shell = false by decide)]
    exact wp_pure.mpr ⟨rfl, rfl, rfl, hgrp, hroot.blk⟩
  obtain ⟨⟨m, root⟩, d', hok, rfl, h⟩ := hwp.answers
  exact ⟨m, root, hok, h⟩

end

/-! ## The law -/

section

variable {fs m : E2Fs} {d d' : Dev} {root : Inode}

/-- `ext2_mount` counts the groups of the volume. -/
lemma mount_groups {km : MountMem} (h : mount km d = (.ok (m, root), d')) :
    m.ngroups = groupsOf m.blocksCount := by
  have hfail {α : Type} {e : Errno} {Q : α → Dev → Prop} {d : Dev} : wp (fail e) Q Fails d :=
    wp_fail.mpr trivial
  have hwp : wp (mount km) (fun r _ => r.1.ngroups = groupsOf r.1.blocksCount) Fails d := by
    refine wp_bind.mpr (wp_devRead fun d₁ _ => ?_)
    cases hparse : sbParse (d.view (E2_BSIZE / BLK_SECTOR_SIZE)) with
    | error e => exact hfail
    | ok x =>
      obtain ⟨-, hngroups, -, -⟩ := sbParse_inv hparse
      simp only
      split
      · exact hfail
      split
      · exact hfail
      refine wp_true.bind (fun grp d₂ _ => ?_) fun _ _ he => he
      split
      · exact hfail
      refine wp_bind.mpr (wp_inodeLoad fun d₃ _ => ?_)
      split
      · exact hfail
      split
      · exact hfail
      exact wp_pure.mpr hngroups
  exact hwp.ok h

/-- The law leaves no size out. -/
lemma LayoutLaw.fits {blocks : ℕ} (h : LayoutLaw (mkfsGeometry blocks) d d') (hge : 4096 ≤ blocks)
    (hlt : blocks < 2 ^ 32) : Fits blocks := by
  obtain ⟨hl, -, -⟩ := mkfsGeometry_ok hge hlt
  obtain ⟨m, root, hmount, hlaw⟩ := h.mounts
  have hgroups : groupsOf blocks ≤ E2_NGROUP_MAX := by
    by_contra hbig
    refine mkfsGeometry_big (Nat.lt_of_not_le hbig) ?_
    rw [← hlaw.blocksCount, ← hlaw.ngroups]
    exact (mount_groups hmount).symm
  refine ⟨hgroups, (room_iff hge).mp fun g hg => ?_⟩
  obtain ⟨hcount, hngroups⟩ := mkfsGeometry_small hgroups
  rw [← hngroups] at hg
  have hin := (h.inside _ (mem_regions.mpr (.inr (.inr ⟨g, hg, .inr (.inr rfl)⟩)))).2
  rw [hl.grp g hg, hcount] at hin
  have hblocks : itableBlocks = 256 := rfl
  simp only [hblocks] at hin
  omega

/-- The bits of a formatted volume. -/
lemma Formatted.used_iff {b : ℕ} (h : Formatted fs d) (hl : Layout fs) (hpos : 0 < b)
    (hb : b ≤ fs.ngroups * E2_BPG) :
    Used fs d b ↔ InMeta fs b ∨ b = rootBlock ∨ fs.blocksCount ≤ b := by
  have hb' : b ≤ fs.ngroups * 8192 := hb
  have hg : (b - 1) / 8192 < fs.ngroups := by omega
  have hbit := h.bits.bitmaps _ hg ((b - 1) % 8192) (Nat.mod_lt _ (by decide))
  have hstart : dataStart fs ((b - 1) / 8192) = metaStart ((b - 1) / 8192) + 258 := by
    rw [dataStart, hl.grp _ hg]
    rfl
  have hab : (b - 1) / 8192 * 8192 + 1 + (b - 1) % 8192 = b := by omega
  have hused : Used fs d b ↔ reserved fs ((b - 1) / 8192) ((b - 1) % 8192) = true := by
    rw [← hbit, Used]
    show bmTest (blkView d (fs.grp ((b - 1) / 8192)).bbmap) _ = true ↔ _
    rw [hl.grp _ hg]
    rfl
  have hmeta : Meta fs b ↔ metaStart ((b - 1) / 8192) ≤ b ∧ b < metaStart ((b - 1) / 8192) + 258 := by
    constructor
    · rintro ⟨g, hg', j, hj, rfl⟩
      have hj' : j < 258 := hj
      have hdiv : (metaStart g + j - 1) / 8192 = g := by
        simp only [metaStart, E2_BPG]
        split_ifs <;> omega
      rw [hdiv]
      omega
    · intro hin
      exact ⟨_, hg, b - metaStart ((b - 1) / 8192), show _ < 258 by omega, by omega⟩
  rw [hused, inMeta_iff hl, hmeta]
  simp only [reserved, E2_BPG, hab, hstart, decide_eq_true_eq, ge_iff_le]
  show _ ↔ _ ∨ b = 261 ∨ _
  simp only [metaStart, E2_BPG]
  split_ifs <;> omega

/-- No operation clears a bit, so the blocks that are marked are never given out. -/
lemma DirsOk.run_used {b : ℕ} {ops : List VolOp} {s s' : Vol} (h : DirsOk fs s)
    (hrun : Run (VolStep fs) s ops s') (hgroup : (b - 1) / E2_BPG < fs.ngroups)
    (hb : Used fs s.dev b) : Used fs s'.dev b := by
  have hinv : DirsOk fs s' ∧ Used fs s'.dev b :=
    hrun.invariant (I := fun s => DirsOk fs s ∧ Used fs s.dev b) ⟨h, hb⟩ fun s op s' hi hs => by
      obtain ⟨hdirs, i, ab, -, -, hk⟩ := hi.1.step_changed hs
      exact ⟨hdirs, hk.used b hgroup hi.2⟩
  exact hinv.2

end

/-- A volume that `ext2_mkfs` has made obeys the law of the layout if and only if it has at most
16 groups and its last group has room for its metadata. -/
theorem mkfs_layout {d d' : Dev} (hmkfs : mkfs d = (.ok (), d')) :
    LayoutLaw (mkfsGeometry (mkfsBlocks d.nsect)) d d' ↔ Fits (mkfsBlocks d.nsect) := by
  obtain ⟨hge, hwith⟩ := mkfs_inv hmkfs
  have hlt := mkfsBlocks_lt d.nsect
  refine ⟨fun h => h.fits hge hlt, fun hfits => ?_⟩
  obtain ⟨hl, -, -⟩ := mkfsGeometry_ok hge hlt
  obtain ⟨hcount, hngroups⟩ := mkfsGeometry_small hfits.1
  generalize mkfsGeometry (mkfsBlocks d.nsect) = gfs at *
  obtain ⟨hform, hsb⟩ := (wp_mkfsWith hl).ok hwith
  have hroom : ∀ g < gfs.ngroups, metaStart g + 258 ≤ gfs.blocksCount := by
    rw [hcount, hngroups]
    exact (room_iff hge).mpr hfits.2
  have hrootBlock : rootBlock < gfs.blocksCount := by
    rw [hcount]
    show 261 < mkfsBlocks d.nsect
    omega
  have hwithin := (wp_within_mkfsWith hl hroom hrootBlock d).ok hwith
  have hnsect : 2 * 261 < d'.nsect := hform.nsect
  have hvolume : 2 * gfs.blocksCount ≤ d.nsect := by
    rw [hcount]
    exact mkfsBlocks_le (by rw [← hwithin.nsect]; omega)
  have hgroups : groupsOf gfs.blocksCount = gfs.ngroups := by rw [hcount, hngroups]
  have htight : 3 + gfs.ngroups * 259 ≤ gfs.blocksCount := by
    have hlast := hroom (gfs.ngroups - 1) (Nat.sub_lt hl.pos (by decide))
    simp only [metaStart, E2_BPG] at hlast
    split_ifs at hlast <;> omega
  have hquiet : SameDev d' (quiet d') := ⟨rfl, rfl⟩
  have hformq : Formatted gfs (quiet d') :=
    ⟨hform.bits.congr hl fun b _ => hquiet.sameBlk b, hform.rootBlk, hform.rootRec, hform.nsect⟩
  refine ⟨hl.inside hroom, hl.disjoint, ?_, fun i hi => hwithin.beyond hvolume i hi, ?_⟩
  · rw [E2_SECT_PER_BLK, Nat.mul_comm]
    exact hvolume
  obtain ⟨m, root, hmount, hmcount, hmgroups, hmgrp, hmroot⟩ :=
    mount_calm (d := quiet d') rfl hl hformq hsb (hcount ▸ hlt) hgroups htight
  have hml : Layout m := ⟨hmgroups.symm ▸ hl.pos, hmgroups.symm ▸ hl.le, fun g hg =>
    (hmgrp g (hmgroups ▸ hg)).trans (hl.grp g (hmgroups ▸ hg))⟩
  have hused {b : ℕ} (hpos : 0 < b) (hb : b ≤ gfs.ngroups * E2_BPG) :
      Used m (quiet d') b ↔ InMeta gfs b ∨ b = root.blk 0 ∨ gfs.blocksCount ≤ b := by
    have hb' : b ≤ gfs.ngroups * 8192 := hb
    rw [hmroot, ← hformq.used_iff hl hpos hb, Used, Used, hmgrp]
    show (b - 1) / 8192 < gfs.ngroups
    omega
  refine ⟨m, root, hmount, hmcount, hmgroups, hmgrp, fun b hpos hb => hused hpos hb, ?_⟩
  have hdirs : DirsOk m ⟨quiet d', [root]⟩ :=
    (wp_mount hl (hcount ▸ hlt) hgroups.le hformq hsb allMem).ok hmount
  intro ops s hrun b e halloc
  have hnew := (balloc_new hml halloc).1
  refine ⟨fun hmeta => hnew.free ?_, hmcount ▸ hnew.vol⟩
  refine hdirs.run_used hrun hnew.group ((hused hnew.pos ?_).mpr (.inl hmeta))
  have hgroup : (b - 1) / 8192 < m.ngroups := hnew.group
  rw [hmgroups] at hgroup
  show b ≤ gfs.ngroups * 8192
  omega

/-- The volume of 4096 blocks obeys it. -/
theorem mkfs_layout_small : ∃ d', mkfs blankDev = (.ok (), d') ∧
    LayoutLaw (mkfsGeometry (mkfsBlocks blankDev.nsect)) blankDev d' :=
  ⟨freshDev, mkfs_blank, (mkfs_layout mkfs_blank).mpr (by decide)⟩

/-- A device of 16918 sectors. -/
def shortDev : Dev := ⟨fun _ => 0, 16918, []⟩

/-- Its volume has 8443 blocks, and the second group ends 250 blocks behind its start, before the
end of its inode table. -/
theorem mkfs_layout_short : ∃ d', mkfs shortDev = (.ok (), d') ∧
    ¬ LayoutLaw (mkfsGeometry (mkfsBlocks shortDev.nsect)) shortDev d' := by
  have hok : (mkfs shortDev).1.toOption = some () := by decide +kernel
  refine ⟨_, ok_of_toOption hok, fun h => ?_⟩
  exact absurd (h.fits (by decide) (by decide)) (by decide)

end Ext2
end MobilePhoneOs.Fs
