import MobilePhoneOs.Fs.Fat32Mkfs
import MobilePhoneOs.Fs.Fat32ChainTheorems

/-!
# The layout of a freshly made FAT32 volume

`fat32_mkfs` counts the sectors in 64 bits and writes the count in 32. Below `2 ^ 32` sectors
the volume is as it should be; above, `fat32_sniff` and `fat_mount` see a partition whose size
has been cut, and the FAT may have been cut too.
-/

namespace MobilePhoneOs.Fs
namespace Fat32

open Mem Prog

section

variable {nsect fatsz : ℕ} {d d₀ d' : Dev}

/-! ## The boot sector -/

/-- The geometry of the boot sector that `fat32_mkfs` writes. -/
def mkfsGeometry (nsect fatsz : ℕ) : FatFs where
  secPerClus := 1
  reserved := 32
  nfats := 2
  fatsz := fatsz
  rootClus := 2
  dataStart := (32 + 2 * fatsz) % 2 ^ 32
  totalClusters := nsect % 2 ^ 32 - (32 + 2 * fatsz) % 2 ^ 32

lemma oemName_length : ([0xEB, 0x3C, 0x90] ++ oemName).length = 11 := rfl

lemma bootSector_fields (nsect fatsz : ℕ) :
    load (bootSector nsect fatsz) 11 2 = 512 ∧ load (bootSector nsect fatsz) 13 1 = 1 ∧
      load (bootSector nsect fatsz) 14 2 = 32 ∧ load (bootSector nsect fatsz) 16 1 = 2 ∧
      load (bootSector nsect fatsz) 19 2 = 0 ∧ load (bootSector nsect fatsz) 22 2 = 0 ∧
      load (bootSector nsect fatsz) 32 4 = nsect % 2 ^ 32 ∧
      load (bootSector nsect fatsz) 36 4 = fatsz % 2 ^ 32 ∧ load (bootSector nsect fatsz) 44 2 = 2 := by
  have hnames (p n : ℕ) (hp : 11 ≤ p) (hn : p + n ≤ 67) : load (bootSector nsect fatsz) p n
      = load (put (put (put (put (put (put (put (put (put (put (put (put (put (put
        (store (fun _ => 0) 0 ([0xEB, 0x3C, 0x90] ++ oemName)) 11 2 512) 13 1 1) 14 2 32) 16 1 2)
        21 1 0xF8) 24 2 63) 26 2 255) 32 4 nsect) 36 4 fatsz) 44 2 2) 46 2 1) 48 2 6) 64 1 0x80)
        65 1 0x29) p n := by
    unfold bootSector
    rw [load_store_of_disjoint (by omega), load_store_of_disjoint (by omega),
      load_store_of_disjoint (by omega), load_put_of_disjoint (by omega)]
  have hzero (p : ℕ) (hp : 11 ≤ p) :
      load (store (fun _ => 0) 0 ([0xEB, 0x3C, 0x90] ++ oemName)) p 2 = 0 := by
    rw [load_store_of_disjoint (by rw [oemName_length]; omega)]
    rfl
  rw [hnames 11 2 (by omega) (by omega), hnames 13 1 (by omega) (by omega),
    hnames 14 2 (by omega) (by omega), hnames 16 1 (by omega) (by omega),
    hnames 19 2 (by omega) (by omega), hnames 22 2 (by omega) (by omega), hnames 32 4 (by omega) (by omega),
    hnames 36 4 (by omega) (by omega), hnames 44 2 (by omega) (by omega)]
  simp (disch := omega) only [load_put_of_disjoint, load_put, hzero]
  norm_num

lemma bootSector_mark (nsect fatsz : ℕ) : bootSector nsect fatsz 510 = 0x55 ∧ bootSector nsect fatsz 511 = 0xAA :=
  ⟨store_add (i := 0) (by decide), store_add (i := 1) (by decide)⟩

lemma geometry_congr {bs bs' : ℕ → UInt8} (h : ∀ i < 512, bs i = bs' i) :
    geometry bs = geometry bs' := by
  have hload (p n : ℕ) (hp : p + n ≤ 512) : load bs p n = load bs' p n :=
    load_congr fun i hi => h (p + i) (by omega)
  unfold geometry
  rw [hload 13 1 (by omega), hload 14 2 (by omega), hload 16 1 (by omega), hload 19 2 (by omega),
    hload 22 2 (by omega), hload 32 4 (by omega), hload 36 4 (by omega), hload 44 2 (by omega)]

lemma totalSectors_congr {bs bs' : ℕ → UInt8} (h : ∀ i < 512, bs i = bs' i) :
    totalSectors bs = totalSectors bs' := by
  have hload (p n : ℕ) (hp : p + n ≤ 512) : load bs p n = load bs' p n :=
    load_congr fun i hi => h (p + i) (by omega)
  unfold totalSectors
  rw [hload 19 2 (by omega), hload 32 4 (by omega)]

lemma totalSectors_boot (nsect fatsz : ℕ) : totalSectors (bootSector nsect fatsz) = nsect % 2 ^ 32 := by
  obtain ⟨-, -, -, -, h19, -, h32, -⟩ := bootSector_fields nsect fatsz
  rw [totalSectors, h19, h32]
  split_ifs with h
  · exact h.symm
  · rfl

lemma geometry_boot (hfatsz : fatsz < 2 ^ 32) :
    geometry (bootSector nsect fatsz) = mkfsGeometry nsect fatsz := by
  obtain ⟨-, h13, h14, h16, -, h22, -, h36, h44⟩ := bootSector_fields nsect fatsz
  have htotal := totalSectors_boot nsect fatsz
  have hcopy : (if load (bootSector nsect fatsz) 36 4 = 0 then load (bootSector nsect fatsz) 22 2
      else load (bootSector nsect fatsz) 36 4) = fatsz := by
    rw [h22, h36, Nat.mod_eq_of_lt hfatsz]
    split_ifs with h
    · exact h.symm
    · rfl
  unfold totalSectors at htotal
  unfold geometry mkfsGeometry
  simp only [hcopy, htotal, h13, h14, h16, h44, Nat.div_one]
  congr 1
  split_ifs with h
  · rfl
  · omega

/-! ## What is found on the volume -/

/-- The boot sector is on the device. -/
def Booted (nsect fatsz : ℕ) (d : Dev) : Prop := ∀ i < 512, d.data i = bootSector nsect fatsz i

lemma Booted.view (h : Booted nsect fatsz d) : ∀ i < 512, d.view 0 i = bootSector nsect fatsz i := by
  intro i hi
  rw [← h i hi]
  show d.data (0 * 512 + i) = d.data i
  rw [Nat.zero_mul, Nat.zero_add]

/-- The sniff counts the clusters again, in 32 bits. -/
lemma sniff_iff (h : Booted nsect fatsz d) (hfatsz : fatsz < 2 ^ 32) (hnsect : nsect ≠ 0) :
    fat32Sniff nsect (quiet d) = true ↔ fatsz ≠ 0 ∧ (32 + 2 * fatsz) % 2 ^ 32 < nsect % 2 ^ 32 ∧
      4085 ≤ nsect % 2 ^ 32 - (32 + 2 * fatsz) % 2 ^ 32 := by
  obtain ⟨h11, -⟩ := bootSector_fields nsect fatsz
  obtain ⟨h510, h511⟩ := bootSector_mark nsect fatsz
  have hload : load (d.view 0) 11 2 = 512 := by
    rw [← h11]
    exact load_congr fun i hi => h.view (11 + i) (by omega)
  have hgeo : geometry (d.view 0) = mkfsGeometry nsect fatsz :=
    (geometry_congr h.view).trans (geometry_boot hfatsz)
  have htotal : totalSectors (d.view 0) = nsect % 2 ^ 32 :=
    (totalSectors_congr h.view).trans (totalSectors_boot _ _)
  have hread : ((quiet d).read 0).1 = .ok (d.view 0) := rfl
  have hmark : ¬ (d.view 0 510 ≠ 0x55 ∨ d.view 0 511 ≠ 0xAA) := by
    rw [h.view 510 (by omega), h.view 511 (by omega), h510, h511]
    decide
  unfold fat32Sniff
  rw [if_neg hnsect, hread]
  simp only
  rw [if_neg hmark, if_neg (not_not_intro hload), hgeo, htotal]
  have hpow : pow2 1 = true := rfl
  split_ifs with hbad
  · change pow2 1 = false ∨ 1 > 128 ∨ 32 = 0 ∨ (2 ≠ 1 ∧ 2 ≠ 2) ∨ fatsz = 0 ∨
      nsect % 2 ^ 32 ≤ (32 + 2 * fatsz) % 2 ^ 32 ∨ nsect % 2 ^ 32 > nsect at hbad
    rw [hpow] at hbad
    simp only [false_iff]
    simp only [Bool.true_eq_false, false_or] at hbad
    omega
  · change ¬ (pow2 1 = false ∨ 1 > 128 ∨ 32 = 0 ∨ (2 ≠ 1 ∧ 2 ≠ 2) ∨ fatsz = 0 ∨
      nsect % 2 ^ 32 ≤ (32 + 2 * fatsz) % 2 ^ 32 ∨ nsect % 2 ^ 32 > nsect) at hbad
    rw [decide_eq_true_eq]
    show nsect % 2 ^ 32 - (32 + 2 * fatsz) % 2 ^ 32 ≥ 4085 ∧ 2 ≥ 2 ∧
      2 < nsect % 2 ^ 32 - (32 + 2 * fatsz) % 2 ^ 32 + 2 ↔ _
    omega

/-- `fat_mount` takes the geometry of the boot sector, if it has clusters enough. -/
lemma mount_iff (h : Booted nsect fatsz d) (hfatsz : fatsz < 2 ^ 32) (hd : 0 < d.nsect) {fs : FatFs} :
    fatMount (quiet d) = (.ok fs, quiet d) ↔ fs = mkfsGeometry nsect fatsz ∧ fatsz ≠ 0 ∧
      4085 ≤ nsect % 2 ^ 32 - (32 + 2 * fatsz) % 2 ^ 32 := by
  obtain ⟨h11, -⟩ := bootSector_fields nsect fatsz
  obtain ⟨h510, h511⟩ := bootSector_mark nsect fatsz
  have hread : secRead 0 (quiet d) = (.ok fun i => if i < BLK_SECTOR_SIZE then d.view 0 i else 0, quiet d) := by
    unfold secRead
    rw [if_neg (show ¬ 0 + 1 > (quiet d).nsect from Nat.not_lt_of_le hd)]
    rfl
  have hbytes : ∀ i < 512, (if i < BLK_SECTOR_SIZE then d.view 0 i else 0) = bootSector nsect fatsz i := by
    intro i hi
    rw [if_pos (show i < BLK_SECTOR_SIZE from hi)]
    exact h.view i hi
  have hgeo : geometry (fun i => if i < BLK_SECTOR_SIZE then d.view 0 i else 0)
      = mkfsGeometry nsect fatsz := (geometry_congr hbytes).trans (geometry_boot hfatsz)
  have hload : load (fun i => if i < BLK_SECTOR_SIZE then d.view 0 i else 0) 11 2 = 512 := by
    rw [← h11]
    exact load_congr fun i hi => hbytes (11 + i) (by omega)
  have hpow : pow2 1 = true := rfl
  unfold fatMount
  simp only [bind, tryBind, hread, hgeo]
  rw [if_neg (by rw [hbytes 510 (by omega), hbytes 511 (by omega), h510, h511]; decide),
    if_neg (not_not_intro hload), if_neg (by
      change ¬ (pow2 1 = false ∨ 1 > 128 ∨ 32 = 0 ∨ (2 ≠ 1 ∧ 2 ≠ 2))
      rw [hpow]
      decide)]
  split_ifs with hbad
  · change fatsz = 0 ∨ nsect % 2 ^ 32 - (32 + 2 * fatsz) % 2 ^ 32 < 4085 ∨ 2 < 2 ∨
      2 ≥ nsect % 2 ^ 32 - (32 + 2 * fatsz) % 2 ^ 32 + 2 at hbad
    constructor
    · intro hc
      cases hc
    · rintro ⟨-, h0, hge⟩
      omega
  · change ¬ (fatsz = 0 ∨ nsect % 2 ^ 32 - (32 + 2 * fatsz) % 2 ^ 32 < 4085 ∨ 2 < 2 ∨
      2 ≥ nsect % 2 ^ 32 - (32 + 2 * fatsz) % 2 ^ 32 + 2) at hbad
    constructor
    · intro hc
      cases hc
      exact ⟨rfl, by omega, by omega⟩
    · rintro ⟨rfl, -⟩
      rfl

/-! ## Formatting -/

lemma blockWrite_spec (lba : ℕ) (buf : ℕ → UInt8) (d : Dev) :
    wp (blockWrite lba buf) (fun _ d' => Wrote [lba] buf d d') (fun _ _ => ¬ Calm d) d := by
  unfold wp blockWrite
  have hdata : ∀ a, (d.put lba 1 buf).data a
      = if a / 512 ∈ [lba] then buf (a % 512) else d.data a := fun a => by
    rw [put_data]
    simp only [List.mem_singleton]
  unfold Dev.write
  rcases hf : d.faults with _ | ⟨_ | k, fl⟩
  · exact ⟨hdata, rfl, id⟩
  · refine ⟨hdata, rfl, fun hc f hm => hc f ?_⟩
    rw [hf]
    exact List.mem_cons_of_mem _ hm
  · intro hc
    have hk := hc (some k) (by rw [hf]; exact List.mem_cons_self)
    exact absurd hk (by simp)

lemma Wrote.sector {lba s i : ℕ} {buf : ℕ → UInt8} (h : Wrote [lba] buf d d') (hi : i < 512) :
    d'.data (s * 512 + i) = if s = lba then buf i else d.data (s * 512 + i) := by
  have hdiv : (s * 512 + i) / 512 = s := by omega
  have hmod : (s * 512 + i) % 512 = i := by omega
  rw [h.data, hdiv, hmod]
  simp only [List.mem_singleton]

/-- The volume after the first `k` sectors of the FATs have been written. -/
structure Formatting (nsect fatsz k : ℕ) (d₀ d : Dev) : Prop where
  size : d.nsect = d₀.nsect
  calm : Calm d₀ → Calm d
  boot : Booted nsect fatsz d
  fats : ∀ j < k, ∀ i < 512, d.data ((32 + j) * 512 + i) = fatSector (j % fatsz) i

lemma Formatting.write {k : ℕ} (h : Formatting nsect fatsz k d₀ d)
    (hw : Wrote [32 + k] (fatSector (k % fatsz)) d d') : Formatting nsect fatsz (k + 1) d₀ d' := by
  refine ⟨hw.nsect.trans h.size, hw.calm ∘ h.calm, fun i hi => ?_, fun j hj i hi => ?_⟩
  · have hsec := hw.sector (s := 0) hi
    rw [if_neg (by omega), Nat.zero_mul, Nat.zero_add] at hsec
    rw [hsec]
    exact h.boot i hi
  · rw [hw.sector hi]
    split_ifs with heq
    · obtain rfl : j = k := by omega
      rfl
    · exact h.fats j (by omega) i hi

/-- What `fat32_mkfs` leaves on the device. -/
structure Made (nsect fatsz : ℕ) (d₀ d : Dev) : Prop where
  size : d.nsect = d₀.nsect
  boot : (32 + 2 * fatsz) % 2 ^ 32 ≠ 0 → Booted nsect fatsz d
  root : ∀ i < 512, d.data ((32 + 2 * fatsz) % 2 ^ 32 * 512 + i) = 0
  fats : 32 + 2 * fatsz < 2 ^ 32 → ∀ j < 2 * fatsz, ∀ i < 512,
    d.data ((32 + j) * 512 + i) = fatSector (j % fatsz) i

lemma Formatting.made (h : Formatting nsect fatsz (2 * fatsz) d₀ d)
    (hw : Wrote [(32 + 2 * fatsz) % 2 ^ 32] (fun _ => 0) d d') : Made nsect fatsz d₀ d' := by
  refine ⟨hw.nsect.trans h.size, fun hpos i hi => ?_, fun i hi => ?_, fun hlt j hj i hi => ?_⟩
  · have hsec := hw.sector (s := 0) hi
    rw [if_neg hpos.symm, Nat.zero_mul, Nat.zero_add] at hsec
    rw [hsec]
    exact h.boot i hi
  · rw [hw.sector hi, if_pos rfl]
  · rw [hw.sector hi, if_neg (by rw [Nat.mod_eq_of_lt hlt]; omega)]
    exact h.fats j hj i hi

/-- The number of clusters that `fat32_mkfs` computes. -/
def mkfsClusters (nsect : ℕ) : ℕ :=
  (nsect + 2 ^ 64 + 2 ^ 64 - 32 - 2 * mkfsFatsz nsect % 2 ^ 32) % 2 ^ 32

/-- The sizes that `fat32_mkfs` accepts. -/
def Accepts (nsect : ℕ) : Prop :=
  65525 ≤ mkfsClusters nsect ∧ (32 + 2 * mkfsFatsz nsect) % 2 ^ 32 + mkfsClusters nsect ≤ nsect

/-- The loops over the copies of the FAT and their sectors. -/
lemma fats_spec (h : Formatting nsect fatsz 0 d₀ d) :
    wp ((List.range 2).forM fun copy => (List.range fatsz).forM fun s =>
        blockWrite (32 + copy * fatsz + s) (fatSector s))
      (fun _ => Formatting nsect fatsz (2 * fatsz) d₀) (fun _ _ => ¬ Calm d₀) d := by
  have hzero : Formatting nsect fatsz (0 * fatsz) d₀ d := by
    rw [Nat.zero_mul]
    exact h
  refine wp_forM_range (I := fun c => Formatting nsect fatsz (c * fatsz) d₀) hzero fun c _ e he => ?_
  rw [Nat.add_mul, Nat.one_mul]
  refine wp_forM_range (I := fun s => Formatting nsect fatsz (c * fatsz + s) d₀) he
    fun s hs e' he' => ?_
  refine (blockWrite_spec _ _ e').mono (fun _ e'' hw => ?_) fun _ _ hc hcalm => hc (he'.calm hcalm)
  have hmod : (c * fatsz + s) % fatsz = s := by
    rw [Nat.mul_comm, Nat.mul_add_mod, Nat.mod_eq_of_lt hs]
  rw [Nat.add_assoc 32] at hw
  exact he'.write (by rwa [hmod])

/-- The boot sector stays under a write to another sector. -/
lemma Booted.write {lba : ℕ} {buf : ℕ → UInt8} (h : Booted nsect fatsz d) (hw : Wrote [lba] buf d d')
    (hlba : lba ≠ 0) : Booted nsect fatsz d' := by
  intro i hi
  have hsec := hw.sector (s := 0) hi
  rw [if_neg hlba.symm, Nat.zero_mul, Nat.zero_add] at hsec
  rw [hsec]
  exact h i hi

/-- The boot sector, the FSInfo sector and their backups, before the rest. -/
lemma heads_spec {rest : Prog Stop Dev Unit} {Q : Unit → Dev → Prop} {E : Stop → Dev → Prop}
    (hE : ∀ e d', ¬ Calm d → E e d') (h : ∀ d', Formatting nsect fatsz 0 d d' → wp rest Q E d') :
    wp (do
        blockWrite 0 (bootSector nsect fatsz)
        blockWrite 6 (bootSector nsect fatsz)
        blockWrite 1 fsInfo
        blockWrite 7 fsInfo
        rest) Q E d := by
  refine (blockWrite_spec 0 _ d).bind (fun _ d₁ h₁ => ?_) hE
  have hb₁ : Booted nsect fatsz d₁ := by
    intro i hi
    have hsec := h₁.sector (s := 0) hi
    rw [if_pos rfl, Nat.zero_mul, Nat.zero_add] at hsec
    exact hsec
  refine (blockWrite_spec 6 _ d₁).bind (fun _ d₂ h₂ => ?_) fun e d' he =>
    hE e d' fun hc => he (h₁.calm hc)
  refine (blockWrite_spec 1 _ d₂).bind (fun _ d₃ h₃ => ?_) fun e d' he =>
    hE e d' fun hc => he (h₂.calm (h₁.calm hc))
  refine (blockWrite_spec 7 _ d₃).bind (fun _ d₄ h₄ => h d₄ ?_) fun e d' he =>
    hE e d' fun hc => he (h₃.calm (h₂.calm (h₁.calm hc)))
  exact ⟨((h₄.nsect.trans h₃.nsect).trans h₂.nsect).trans h₁.nsect,
    h₄.calm ∘ h₃.calm ∘ h₂.calm ∘ h₁.calm,
    ((hb₁.write h₂ (by decide)).write h₃ (by decide)).write h₄ (by decide),
    fun j hj => absurd hj (Nat.not_lt_zero j)⟩

lemma mkfs_spec (d : Dev) : wp (fat32Mkfs nsect)
    (fun _ d' => Accepts nsect ∧ Made nsect (mkfsFatsz nsect) d d')
    (fun _ _ => Accepts nsect → ¬ Calm d) d := by
  have hstart : (32 + 2 * mkfsFatsz nsect % 2 ^ 32) % 2 ^ 32 = (32 + 2 * mkfsFatsz nsect) % 2 ^ 32 :=
    Nat.add_mod_mod _ _ _
  unfold fat32Mkfs
  simp only [hstart]
  split_ifs with hsmall hbig
  · intro ha
    exact absurd hsmall (Nat.not_lt_of_le ha.1)
  · intro ha
    exact absurd hbig (Nat.not_lt_of_le ha.2)
  · have hacc : Accepts nsect := ⟨Nat.le_of_not_lt hsmall, Nat.le_of_not_lt hbig⟩
    refine heads_spec (fun _ _ hc _ => hc) fun d₁ h₁ => ?_
    refine (fats_spec h₁).bind (fun _ d₂ h₂ => ?_) fun _ _ hc _ => hc
    refine (blockWrite_spec _ _ d₂).mono (fun _ d₃ h₃ => ?_) fun _ _ hc _ hcalm => hc (h₂.calm hcalm)
    exact ⟨hacc, h₂.made h₃⟩

/-! ## The law -/

lemma fatSector_word {c : ℕ} (hc : 2 ≤ c) : load (fatSector (c / 128)) (c % 128 * 4) 4 = 0 ↔ c ≠ 2 := by
  have hzero (p : ℕ) : load (fun _ => 0) p 4 = 0 := rfl
  unfold fatSector
  split_ifs with hs
  · have hmod : c % 128 = c := by omega
    rw [hmod]
    by_cases h2 : c = 2
    · rw [h2, load_put]
      decide
    · rw [load_put_of_disjoint (by omega), load_put_of_disjoint (by omega),
        load_put_of_disjoint (by omega), hzero]
      exact iff_of_true rfl h2
  · rw [hzero]
    exact iff_of_true rfl (by omega)

lemma Made.fatWord (h : Made nsect fatsz d₀ d) (hlt : 32 + 2 * fatsz < 2 ^ 32) {i c : ℕ} (hi : i < 2)
    (hc : c < 128 * fatsz) :
    fatWord (mkfsGeometry nsect fatsz) d i c = load (fatSector (c / 128)) (c % 128 * 4) 4 := by
  have hs : c / 128 < fatsz := by omega
  have hle : i * fatsz ≤ 1 * fatsz := Nat.mul_le_mul_right _ (by omega)
  have hmod : (i * fatsz + c / 128) % fatsz = c / 128 := by
    rw [Nat.mul_comm, Nat.mul_add_mod, Nat.mod_eq_of_lt hs]
  refine load_eq_of fun k hk => ?_
  have hbyte := h.fats hlt (i * fatsz + c / 128) (by omega) (c % 128 * 4 + k) (by omega)
  rw [hmod] at hbyte
  rw [← hbyte]
  refine congrArg d.data ?_
  show 512 * (32 + i * fatsz) + 4 * c + k = (32 + (i * fatsz + c / 128)) * 512 + (c % 128 * 4 + k)
  omega

/-- The root directory of a fresh volume has no entry. -/
lemma Made.empty (h : Made nsect fatsz d₀ d) (hd : (32 + 2 * fatsz) % 2 ^ 32 < d.nsect) :
    dirNext (mkfsGeometry nsect fatsz) 2 0 (quiet d) = (.ok none, quiet d) := by
  have hloc : dirSlotLocate (mkfsGeometry nsect fatsz) 2 0 (quiet d)
      = (.ok ((32 + 2 * fatsz) % 2 ^ 32, 0), quiet d) := by
    have hslots : dirSlots (mkfsGeometry nsect fatsz) = 16 := by
      norm_num [dirSlots, clusBytes, mkfsGeometry]
    unfold dirSlotLocate
    simp only [hslots, Nat.zero_mod, Nat.zero_mul, Nat.zero_div]
    rfl
  have hread : secRead ((32 + 2 * fatsz) % 2 ^ 32) (quiet d)
      = (.ok fun i => if i < BLK_SECTOR_SIZE then d.view ((32 + 2 * fatsz) % 2 ^ 32) i else 0, quiet d) := by
    unfold secRead
    rw [if_neg (show ¬ (32 + 2 * fatsz) % 2 ^ 32 + 1 > (quiet d).nsect from Nat.not_lt_of_le hd)]
    rfl
  have hslot : dirReadSlot (mkfsGeometry nsect fatsz) 2 0 (quiet d) = (.ok fun i =>
      if 0 + i < BLK_SECTOR_SIZE then d.view ((32 + 2 * fatsz) % 2 ^ 32) (0 + i) else 0, quiet d) := by
    unfold dirReadSlot
    simp only [bind, tryBind, hloc, hread]
    rfl
  have hfree : d.view ((32 + 2 * fatsz) % 2 ^ 32) (0 + 0) = SLOT_FREE := h.root 0 (by omega)
  show dirNextFrom (mkfsGeometry nsect fatsz) 2 (_ + 1) 0 .empty (quiet d) = _
  rw [dirNextFrom]
  simp only [tryBind, hslot]
  rw [if_pos (by rw [if_pos (show 0 + 0 < BLK_SECTOR_SIZE by decide), hfree])]
  rfl

lemma regions_mkfs : regions (mkfsGeometry nsect fatsz) = [(0, 32), (32, fatsz),
    (32 + fatsz, fatsz), ((32 + 2 * fatsz) % 2 ^ 32, nsect % 2 ^ 32 - (32 + 2 * fatsz) % 2 ^ 32)] := by
  have hrange : List.range 2 = [0, 1] := rfl
  simp [regions, mkfsGeometry, hrange]

/-- What lies on either side of the copies of the FAT. -/
lemma data_disjoint (h : (regions (mkfsGeometry nsect fatsz)).Pairwise
    fun r s => r.1 + r.2 ≤ s.1 ∨ s.1 + s.2 ≤ r.1)
    (hlt : (32 + 2 * fatsz) % 2 ^ 32 < nsect % 2 ^ 32) :
    (32 + fatsz ≤ (32 + 2 * fatsz) % 2 ^ 32 ∨ nsect % 2 ^ 32 ≤ 32) ∧
      (32 + fatsz + fatsz ≤ (32 + 2 * fatsz) % 2 ^ 32 ∨ nsect % 2 ^ 32 ≤ 32 + fatsz) := by
  rw [regions_mkfs] at h
  simp only [List.pairwise_cons, List.mem_cons, List.not_mem_nil, or_false, forall_eq_or_imp,
    forall_eq] at h
  omega

/-- The law leaves no size out. -/
lemma MkfsLaw.fits (h : MkfsLaw nsect d) (hm : Made nsect (mkfsFatsz nsect) d₀ d)
    (hd : 0 < d.nsect) (hnsect : nsect ≠ 0) : Fits nsect := by
  have hfatsz : mkfsFatsz nsect < 2 ^ 32 := Nat.mod_lt _ (by decide)
  have hne : (32 + 2 * mkfsFatsz nsect) % 2 ^ 32 ≠ 0 := by
    intro hzero
    have hmark : ((quiet d).read 0).1 = .ok (d.view 0) := rfl
    have hbyte : d.view 0 510 = 0 := by
      have hroot := hm.root 510 (by omega)
      rw [hzero] at hroot
      exact hroot
    have hsniff := h.sniff
    unfold fat32Sniff at hsniff
    rw [if_neg hnsect, hmark] at hsniff
    simp only at hsniff
    rw [if_pos (.inl (by rw [hbyte]; decide))] at hsniff
    exact absurd hsniff (by decide)
  have hboot := hm.boot hne
  obtain ⟨h0, hlt, hge⟩ := (sniff_iff hboot hfatsz hnsect).mp h.sniff
  obtain ⟨fs, hmount, hlaw⟩ := h.mounts
  obtain ⟨rfl, -, -⟩ := (mount_iff hboot hfatsz hd).mp hmount
  have hroom : nsect % 2 ^ 32 - (32 + 2 * mkfsFatsz nsect) % 2 ^ 32 + 2 ≤ 128 * mkfsFatsz nsect :=
    hlaw.room
  obtain ⟨hfirst, hsecond⟩ := data_disjoint hlaw.disjoint hlt
  -- a start that has wrapped lies in one of the two copies
  refine ⟨?_, ?_⟩ <;> omega

/-- A partition that fits obeys the law. -/
lemma Made.law (h : Made nsect (mkfsFatsz nsect) d₀ d) (hfits : Fits nsect) (hd : nsect = d.nsect)
    (hacc : Accepts nsect) : MkfsLaw nsect d := by
  have hfatsz : mkfsFatsz nsect < 2 ^ 32 := Nat.mod_lt _ (by decide)
  obtain ⟨hstart, hroom⟩ := hfits
  have hclusters := hacc.1
  unfold mkfsClusters at hclusters
  generalize mkfsFatsz nsect = fatsz at *
  have hboot := h.boot (by omega)
  refine ⟨(sniff_iff hboot hfatsz (by omega)).mpr (by omega), mkfsGeometry nsect fatsz,
    (mount_iff hboot hfatsz (by omega)).mpr ⟨rfl, by omega, by omega⟩, ?_, ?_, ?_, ?_, ?_⟩
  · show nsect % 2 ^ 32 - (32 + 2 * fatsz) % 2 ^ 32 + 2 ≤ 128 * fatsz
    omega
  · rw [regions_mkfs]
    simp only [List.pairwise_cons, List.mem_cons, List.not_mem_nil, or_false, forall_eq_or_imp,
      forall_eq, List.Pairwise.nil, and_true, false_imp_iff, implies_true]
    omega
  · rw [regions_mkfs]
    simp only [List.mem_cons, List.not_mem_nil, or_false, forall_eq_or_imp, forall_eq]
    omega
  · intro i hi c hc hlt
    have hlt' : c < nsect % 2 ^ 32 - (32 + 2 * fatsz) % 2 ^ 32 + 2 := hlt
    show Fat32.fatWord _ d i c = 0 ↔ c ≠ 2
    rw [h.fatWord (by omega) hi (by omega)]
    exact fatSector_word hc
  · exact h.empty (by omega)

end

/-- The volume that `fat32_mkfs` makes obeys the law if and only if the number of sectors, cut to
32 bits, is behind the FATs and these have room for the clusters. -/
theorem mkfs_law {d d' : Dev} (hmkfs : fat32Mkfs d.nsect d = (.ok (), d')) :
    MkfsLaw d.nsect d' ↔ Fits d.nsect := by
  obtain ⟨hacc, hmade⟩ := (mkfs_spec d).ok hmkfs
  have hpos : 65525 ≤ d.nsect := by
    have h1 := hacc.1
    have h2 := hacc.2
    omega
  have hsize : 0 < d'.nsect := by
    rw [hmade.size]
    omega
  exact ⟨fun h => h.fits hmade hsize (by omega), fun h => hmade.law h hmade.size.symm hacc⟩

/-- Every partition of less than `2 ^ 32` sectors that is accepted fits. -/
lemma fits_of_lt {nsect : ℕ} (hlt : nsect < 2 ^ 32) (hacc : Accepts nsect) : Fits nsect := by
  obtain ⟨h1, h2⟩ := hacc
  have hfatsz : mkfsFatsz nsect = (nsect - 30) / 130 + 2 := by
    unfold mkfsFatsz
    omega
  unfold Fits
  rw [hfatsz] at *
  omega

/-- A device of `n` sectors without faults to come. -/
def emptyDev (n : ℕ) : Dev := ⟨fun _ => 0, n, []⟩

lemma mkfs_runs {n : ℕ} (hacc : Accepts n) : ∃ d', fat32Mkfs n (emptyDev n) = (.ok (), d') := by
  have hcalm : Calm (emptyDev n) := fun f hf => absurd hf List.not_mem_nil
  have hwp : wp (fat32Mkfs n) (fun _ _ => True) (fun _ _ => False) (emptyDev n) :=
    (mkfs_spec (emptyDev n)).mono (fun _ _ _ => trivial) fun _ _ he => he hacc hcalm
  obtain ⟨_, d', hok, -⟩ := hwp.answers
  exact ⟨d', hok⟩

/-- A partition of 70000 sectors obeys it. -/
theorem mkfs_law_small : ∃ d', fat32Mkfs 70000 (emptyDev 70000) = (.ok (), d') ∧
    MkfsLaw 70000 d' := by
  have hacc : Accepts 70000 := by
    unfold Accepts mkfsClusters mkfsFatsz
    omega
  have hfits : Fits 70000 := fits_of_lt (by omega) hacc
  obtain ⟨d', hok⟩ := mkfs_runs hacc
  exact ⟨d', hok, (mkfs_law (d := emptyDev 70000) hok).mpr hfits⟩

/-- A partition of `2 ^ 32` sectors is formatted with a count of 0 sectors. -/
theorem mkfs_law_two_terabytes : ∃ d', fat32Mkfs (2 ^ 32) (emptyDev (2 ^ 32)) = (.ok (), d') ∧
    ¬ MkfsLaw (2 ^ 32) d' := by
  have hacc : Accepts (2 ^ 32) := by
    unfold Accepts mkfsClusters mkfsFatsz
    omega
  obtain ⟨d', hok⟩ := mkfs_runs hacc
  obtain ⟨-, hmade⟩ := (mkfs_spec (emptyDev (2 ^ 32))).ok hok
  refine ⟨d', hok, fun h => ?_⟩
  have hsize : d'.nsect = 2 ^ 32 := hmade.size
  have hfits := h.fits hmade (by omega) (by omega)
  unfold Fits at hfits
  omega

end Fat32
end MobilePhoneOs.Fs
