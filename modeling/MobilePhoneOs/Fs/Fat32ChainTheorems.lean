import MobilePhoneOs.Fs.Fat32
import MobilePhoneOs.Lib.Chain
import Mathlib.Data.List.GetD
import Mathlib.Data.List.Perm.Subperm

/-!
# FAT32 chains

A file is a chain of clusters that the FAT links up, and byte `i` of the file is byte
`i % 512` of the sector that the chain has for `i / 512`. `FileOk` relates the chain to the
bytes it stands for. Walks arrive unless a transfer fails, and a chain grows by free clusters,
which read as zeros.
-/

namespace MobilePhoneOs

open List (mem_of_getElem? mem_cons_of_mem mem_cons_self mem_range mem_map mem_singleton)
namespace Fs
namespace Fat32

open Mem Prog Chain

/-! ## Transfers of one sector -/

/-- No transfer to come fails. -/
def Calm (d : Dev) : Prop := ∀ f ∈ d.faults, f = none

/-- What reads leave alone. -/
structure Quiet (d d' : Dev) : Prop where
  data : d'.data = d.data
  nsect : d'.nsect = d.nsect
  calm : Calm d → Calm d'

lemma Quiet.rfl {d : Dev} : Quiet d d := ⟨Eq.refl _, Eq.refl _, id⟩

lemma Quiet.trans {d d' d'' : Dev} (h : Quiet d d') (h' : Quiet d' d'') : Quiet d d'' :=
  ⟨h'.data.trans h.data, h'.nsect.trans h.nsect, h'.calm ∘ h.calm⟩

/-- The device after `buf` has been written to the sectors `L`. -/
structure Wrote (L : List ℕ) (buf : ℕ → UInt8) (d d' : Dev) : Prop where
  data : ∀ a, d'.data a = if a / 512 ∈ L then buf (a % 512) else d.data a
  nsect : d'.nsect = d.nsect
  calm : Calm d → Calm d'

lemma secRead_spec (lba : ℕ) (d : Dev) :
    wp (secRead lba)
      (fun sec d' => lba < d.nsect ∧ Quiet d d' ∧ ∀ i < 512, sec i = d.data (lba * 512 + i))
      (fun _ d' => Quiet d d' ∧ (lba < d.nsect → ¬ Calm d)) d := by
  unfold wp secRead
  split_ifs with hlba
  · exact ⟨Quiet.rfl, fun hc => absurd hlba (by omega)⟩
  · have hlt : lba < d.nsect := by omega
    have hview : ∀ i < 512, (if i < BLK_SECTOR_SIZE then d.view lba i else 0)
        = d.data (lba * 512 + i) := fun i hi => if_pos hi
    unfold Dev.read
    rcases hf : d.faults with _ | ⟨_ | k, fl⟩
    · exact ⟨hlt, Quiet.rfl, hview⟩
    · refine ⟨hlt, ⟨Eq.refl _, Eq.refl _, fun hc f hm => hc f ?_⟩, hview⟩
      rw [hf]
      exact mem_cons_of_mem _ hm
    · refine ⟨⟨Eq.refl _, Eq.refl _, fun hc f hm => hc f ?_⟩, fun _ hc => ?_⟩
      · rw [hf]
        exact mem_cons_of_mem _ hm
      · have hk := hc (some k) (by rw [hf]; exact mem_cons_self)
        exact absurd hk (by simp)

lemma put_data (d : Dev) (lba : ℕ) (buf : ℕ → UInt8) (a : ℕ) :
    (d.put lba 1 buf).data a = if a / 512 = lba then buf (a % 512) else d.data a := by
  have hput : (d.put lba 1 buf).data = copy d.data (lba * 512) (1 * 512) buf := rfl
  rw [hput]
  split_ifs with ha
  · have hsplit : a = lba * 512 + a % 512 := by omega
    have hlt : a % 512 < 1 * 512 := by omega
    have hcopy : copy d.data (lba * 512) (1 * 512) buf (lba * 512 + a % 512) = buf (a % 512) :=
      copy_add hlt
    exact (congrArg _ hsplit).trans hcopy
  · rcases Nat.lt_or_ge a (lba * 512) with hlt | hge
    · exact copy_of_lt hlt
    · exact copy_of_ge (Nat.le_of_not_lt fun hlt => ha (by omega))

lemma secWrite_spec (lba : ℕ) (buf : ℕ → UInt8) (d : Dev) :
    wp (secWrite lba buf) (fun _ d' => lba < d.nsect ∧ Wrote [lba] buf d d')
      (fun _ _ => lba < d.nsect → ¬ Calm d) d := by
  unfold wp secWrite
  split_ifs with hlba
  · exact fun hc => absurd hlba (by omega)
  · have hlt : lba < d.nsect := by omega
    have hdata : ∀ a, (d.put lba 1 buf).data a
        = if a / 512 ∈ [lba] then buf (a % 512) else d.data a := fun a => by
      rw [put_data]
      simp only [mem_singleton]
    unfold Dev.write
    rcases hf : d.faults with _ | ⟨_ | k, fl⟩
    · exact ⟨hlt, hdata, rfl, id⟩
    · refine ⟨hlt, hdata, rfl, fun hc f hm => hc f ?_⟩
      rw [hf]
      exact mem_cons_of_mem _ hm
    · intro _ hc
      have hk := hc (some k) (by rw [hf]; exact mem_cons_self)
      exact absurd hk (by simp)

/-- One buffer goes to several sectors. -/
lemma writes_spec (f : ℕ → ℕ) (buf : ℕ → UInt8) (L : List ℕ) (d : Dev) :
    wp (L.forM fun i => secWrite (f i) buf)
      (fun _ d' => (∀ i ∈ L, f i < d.nsect) ∧ Wrote (L.map f) buf d d')
      (fun _ _ => (∀ i ∈ L, f i < d.nsect) → ¬ Calm d) d := by
  induction L generalizing d with
  | nil => exact ⟨by simp, ⟨by simp, rfl, id⟩⟩
  | cons i L ih =>
    refine (secWrite_spec (f i) buf d).bind (fun _ d₁ h₁ => ?_)
      fun _ _ he hall => he (hall i mem_cons_self)
    obtain ⟨hlt, hw₁⟩ := h₁
    refine (ih d₁).mono (fun _ d₂ h₂ => ?_) fun _ d₂ he hall hc => ?_
    · obtain ⟨hall, hw₂⟩ := h₂
      refine ⟨fun j hj => ?_, fun a => ?_, hw₂.nsect.trans hw₁.nsect, hw₂.calm ∘ hw₁.calm⟩
      · rcases List.mem_cons.mp hj with rfl | hj
        · exact hlt
        · exact hw₁.nsect ▸ hall j hj
      · rw [hw₂.data, hw₁.data, List.map_cons]
        simp only [List.mem_cons, List.not_mem_nil, or_false]
        split_ifs with h1 h2 h3 h4 <;> tauto
    · refine he (fun j hj => ?_) (hw₁.calm hc)
      rw [hw₁.nsect]
      exact hall j (mem_cons_of_mem _ hj)

/-! ## FAT entries -/

/-- The FAT has room for every cluster and its numbers stay below the end marks, and 32-bit
arithmetic did not wrap in the start of the data. -/
structure Room (fs : FatFs) : Prop where
  data : fs.dataStart = fs.reserved + fs.nfats * fs.fatsz
  table : fs.totalClusters + 2 ≤ 128 * fs.fatsz
  eoc : fs.totalClusters + 2 ≤ FAT_EOC

/-- A geometry with room, and what `fat_mount` checks of every geometry. -/
structure Geom (fs : FatFs) : Prop extends Room fs where
  spc_pos : 0 < fs.secPerClus
  spc_le : fs.secPerClus ≤ 128
  nfats_pos : 0 < fs.nfats

/-- The clusters of the volume. -/
def InRange (fs : FatFs) (c : ℕ) : Prop := 2 ≤ c ∧ c < fs.totalClusters + 2

/-- FAT entry `n` of the first copy. -/
def entry (fs : FatFs) (d : Dev) (n : ℕ) : ℕ := load d.data (512 * fs.reserved + 4 * n) 4

variable {fs : FatFs} {d d' : Dev}

lemma Quiet.entry (h : Quiet d d') (n : ℕ) : entry fs d' n = entry fs d n := by
  unfold Fat32.entry
  rw [h.data]

variable {sec : ℕ → UInt8}

lemma entry_sector (fs : FatFs) (d : Dev) (n : ℕ)
    (hsec : ∀ i < 512, sec i = d.data ((fs.reserved + n / 128) * 512 + i)) :
    load sec (n % 128 * 4) 4 = entry fs d n :=
  load_eq_of fun i hi => by
    rw [hsec _ (by omega)]
    congr 1
    omega

lemma fatEntry_spec (fs : FatFs) (n : ℕ) (d : Dev) :
    wp (fatEntry fs n)
      (fun v d' => v = entry fs d n ∧ InRange fs n ∧ fs.reserved + n / 128 < d.nsect ∧ Quiet d d')
      (fun _ d' => Quiet d d' ∧ (InRange fs n → fs.reserved + n / 128 < d.nsect → ¬ Calm d)) d := by
  unfold fatEntry
  split_ifs with hn
  · exact ⟨Quiet.rfl, fun hr => absurd hn (by have := hr.1; have := hr.2; omega)⟩
  · refine (secRead_spec _ d).bind (fun sec d₁ h => ?_) fun _ _ h => ⟨h.1, fun _ => h.2⟩
    obtain ⟨hlt, hq, hsec⟩ := h
    exact ⟨entry_sector fs d n hsec, ⟨by omega, by omega⟩, hlt, hq⟩

variable {L : List ℕ} {buf : ℕ → UInt8} {n : ℕ}

lemma Wrote.entry (h : Wrote L buf d d')
    (hn : fs.reserved + n / 128 ∉ L) : entry fs d' n = entry fs d n :=
  load_eq_of fun i hi => by
    rw [h.data, if_neg]
    rwa [show (512 * fs.reserved + 4 * n + i) / 512 = fs.reserved + n / 128 by omega]

/-- FAT entry `n` of copy `k`. -/
def mirror (fs : FatFs) (d : Dev) (k n : ℕ) : ℕ :=
  load d.data (512 * (fs.reserved + k * fs.fatsz) + 4 * n) 4

/-- The copies of the FAT agree. -/
def Mirrored (fs : FatFs) (d : Dev) : Prop :=
  ∀ k < fs.nfats, ∀ n < fs.totalClusters + 2, mirror fs d k n = entry fs d n

lemma Quiet.mirrored (h : Quiet d d') (hm : Mirrored fs d) : Mirrored fs d' := fun k hk n hn => by
  unfold mirror
  rw [h.data, h.entry]
  exact hm k hk n hn

/-- No transfer to come fails and the device holds the whole volume. -/
structure Ready (fs : FatFs) (d : Dev) : Prop where
  calm : Calm d
  fits : fs.dataStart + fs.totalClusters * fs.secPerClus ≤ d.nsect

lemma Quiet.ready (h : Quiet d d') (hr : Ready fs d) : Ready fs d' :=
  ⟨h.calm hr.calm, h.nsect ▸ hr.fits⟩

/-- What `fat_set_entry` does: the entry is set in the first copy, the other entries of that
copy and the data area stay, and copies that agreed still do. -/
structure SetEntry (fs : FatFs) (n val : ℕ) (d d' : Dev) : Prop where
  inDev : fs.reserved + n / 128 < d.nsect
  entry : ∀ m < fs.totalClusters + 2, entry fs d' m = if m = n then val else entry fs d m
  data : ∀ a, fs.dataStart ≤ a / 512 → d'.data a = d.data a
  mirrored : Mirrored fs d → Mirrored fs d'
  nsect : d'.nsect = d.nsect
  calm : Calm d → Calm d'

variable {i : ℕ}

variable {s : ℕ}

/-- Sector `s` of copy `i` of the FAT lies in front of the data. -/
lemma mirror_lt (hg : Geom fs) (hi : i < fs.nfats) (hs : s < fs.fatsz) :
    fs.reserved + s + i * fs.fatsz < fs.dataStart := by
  have hle : (i + 1) * fs.fatsz ≤ fs.nfats * fs.fatsz := Nat.mul_le_mul_right _ hi
  rw [hg.data]
  rw [Nat.add_mul, Nat.one_mul] at hle
  omega

lemma entry_lt_fatsz (hg : Geom fs) (hn : n < fs.totalClusters + 2) :
    n / 128 < fs.fatsz := by
  have h := hg.table
  omega

lemma Ready.mirror_lt (hg : Geom fs) (hr : Ready fs d) (hi : i < fs.nfats)
    (hs : s < fs.fatsz) : fs.reserved + s + i * fs.fatsz < d.nsect := by
  have h1 := Fat32.mirror_lt hg hi hs
  have h2 := hr.fits
  omega

lemma Ready.entry_lt (hg : Geom fs) (hr : Ready fs d) (hn : n < fs.totalClusters + 2) :
    fs.reserved + n / 128 < d.nsect := by
  have h := hr.mirror_lt hg hg.nfats_pos (entry_lt_fatsz hg hn)
  rwa [Nat.zero_mul, Nat.add_zero] at h

variable {k : ℕ}

/-- Sectors of different copies are different. -/
lemma mirror_inj {t : ℕ} (hs : s < fs.fatsz) (ht : t < fs.fatsz)
    (heq : fs.reserved + s + i * fs.fatsz = fs.reserved + t + k * fs.fatsz) : s = t ∧ i = k := by
  have hsum : s + fs.fatsz * i = t + fs.fatsz * k := by
    rw [Nat.mul_comm fs.fatsz, Nat.mul_comm fs.fatsz]
    omega
  have hmod := congrArg (· % fs.fatsz) hsum
  have hdiv := congrArg (· / fs.fatsz) hsum
  have hpos : 0 < fs.fatsz := by omega
  simp only [Nat.add_mul_mod_self_left, Nat.mod_eq_of_lt hs, Nat.mod_eq_of_lt ht,
    Nat.add_mul_div_left _ _ hpos, Nat.div_eq_of_lt hs, Nat.div_eq_of_lt ht, Nat.zero_add] at hmod hdiv
  exact ⟨hmod, hdiv⟩

/-- Entry `n` of copy `k` is in sector `n / 128` of the copy. -/
lemma mirror_sector (fs : FatFs) (d : Dev) (k n : ℕ)
    (hsec : ∀ i < 512, sec i = d.data ((fs.reserved + n / 128 + k * fs.fatsz) * 512 + i)) :
    load sec (n % 128 * 4) 4 = mirror fs d k n :=
  load_eq_of fun i hi => by
    rw [hsec _ (by omega)]
    congr 1
    rw [Nat.mul_add]
    omega

lemma entry_eq_mirror (fs : FatFs) (d : Dev) (n : ℕ) : entry fs d n = mirror fs d 0 n := by
  unfold entry mirror
  rw [Nat.zero_mul, Nat.add_zero]

/-- The sector of entry `n` is written to every copy. -/
lemma Wrote.mirror (hg : Geom fs) {m : ℕ}
    (hw : Wrote ((List.range fs.nfats).map fun i => fs.reserved + n / 128 + i * fs.fatsz) buf d d')
    (hn : n < fs.totalClusters + 2) (hm : m < fs.totalClusters + 2) (hk : k < fs.nfats) :
    mirror fs d' k m = if m / 128 = n / 128 then load buf (m % 128 * 4) 4 else mirror fs d k m := by
  have hsect : ∀ i < 512, ((fs.reserved + m / 128 + k * fs.fatsz) * 512 + i) / 512
      = fs.reserved + m / 128 + k * fs.fatsz := fun i hi => by omega
  have hoff : ∀ i < 512, ((fs.reserved + m / 128 + k * fs.fatsz) * 512 + i) % 512 = i :=
    fun i hi => by omega
  split_ifs with hsame
  · refine (mirror_sector fs d' k m fun i hi => ?_).symm
    rw [hw.data, hsect i hi, hoff i hi, if_pos]
    exact mem_map.mpr ⟨k, mem_range.mpr hk, by rw [hsame]⟩
  · refine (mirror_sector fs d' k m fun i hi => rfl).symm.trans
      (mirror_sector fs d k m fun i hi => ?_)
    rw [hw.data, hsect i hi, if_neg]
    intro hmem
    obtain ⟨i, hi, heq⟩ := mem_map.mp hmem
    exact hsame (mirror_inj (entry_lt_fatsz hg hn) (entry_lt_fatsz hg hm) heq).1.symm

/-- An entry is set, or the device has failed. -/
lemma fatSetEntry_spec (hg : Geom fs) {val : ℕ} (hn : n < fs.totalClusters + 2)
    (hval : val < 2 ^ 32) (d : Dev) :
    wp (fatSetEntry fs n val) (fun _ d' => SetEntry fs n val d d') (fun _ _ => ¬ Ready fs d) d := by
  have hnf := entry_lt_fatsz hg hn
  refine (secRead_spec _ d).bind (fun sec d₁ h => ?_)
    fun _ _ he hr => he.2 (hr.entry_lt hg hn) hr.calm
  obtain ⟨hlt, hq, hsec⟩ := h
  refine (writes_spec _ _ _ d₁).mono (fun _ d₂ h => ?_) fun _ _ he hr => ?_
  · obtain ⟨_, hw⟩ := h
    have hload : ∀ m, m / 128 = n / 128 → load (put sec (n % 128 * 4) 4 val) (m % 128 * 4) 4
        = if m = n then val else entry fs d m := fun m hsame => by
      split_ifs with hmn
      · rw [hmn, load_put]
        exact Nat.mod_eq_of_lt hval
      · rw [load_put_of_disjoint (by omega), ← entry_sector fs d m]
        rwa [hsame]
    have hentry : ∀ m < fs.totalClusters + 2, entry fs d₂ m = if m = n then val else entry fs d m :=
      fun m hm => by
        rw [entry_eq_mirror, hw.mirror hg hn hm hg.nfats_pos]
        split_ifs with hsame hmn hmn
        · rw [hload m hsame, if_pos hmn]
        · rw [hload m hsame, if_neg hmn]
        · exact absurd (by rw [hmn]) hsame
        · rw [← entry_eq_mirror, hq.entry]
    refine ⟨hlt, hentry, fun a ha => ?_, fun hmir k hk m hm => ?_, hw.nsect.trans hq.nsect,
      hw.calm ∘ hq.calm⟩
    · rw [hw.data, if_neg, hq.data]
      intro hmem
      obtain ⟨i, hi, heq⟩ := mem_map.mp hmem
      have := mirror_lt hg (mem_range.mp hi) hnf
      omega
    · rw [hw.mirror hg hn hm hk, hentry m hm]
      split_ifs with hsame hmn hmn
      · rw [hload m hsame, if_pos hmn]
      · rw [hload m hsame, if_neg hmn]
      · exact absurd (by rw [hmn]) hsame
      · rw [hq.mirrored hmir k hk m hm, hq.entry]
  · refine he (fun i hi => ?_) (hq.calm hr.calm)
    rw [hq.nsect]
    exact hr.mirror_lt hg (mem_range.mp hi) hnf

/-! ## Chains -/

/-- The file that starts at `first` has the clusters `C`, all of them on the device. -/
structure Owns (fs : FatFs) (d : Dev) (first : ℕ) (C : List ℕ) : Prop where
  head : C = [] → first = 0
  linked : C ≠ [] → Linked (entry fs d) IsEoc first C
  range : ∀ c ∈ C, InRange fs c
  inDev : ∀ c ∈ C, fs.reserved + c / 128 < d.nsect ∧
    ∀ s < fs.secPerClus, clusRelLba fs c + s < d.nsect

variable {first : ℕ} {C : List ℕ}

lemma Owns.congr (h : Owns fs d first C) (hentry : ∀ c ∈ C, entry fs d' c = entry fs d c)
    (hnsect : d'.nsect = d.nsect) : Owns fs d' first C :=
  ⟨h.head, fun hne => (h.linked hne).congr hentry, h.range, hnsect ▸ h.inDev⟩

lemma Owns.quiet (h : Owns fs d first C) (hq : Quiet d d') : Owns fs d' first C :=
  h.congr (fun c _ => hq.entry c) hq.nsect

variable {c : ℕ}

lemma ne_nil_of_getElem? (hi : C[i]? = some c) : C ≠ [] :=
  List.ne_nil_of_mem (mem_of_getElem? hi)

lemma Owns.link (h : Owns fs d first C) {a b : ℕ} (ha : C[i]? = some a)
    (hb : C[i + 1]? = some b) : entry fs d a = b := by
  obtain ⟨_, t, _, hs⟩ := h.linked (ne_nil_of_getElem? ha)
  exact hs.link ha hb

lemma Owns.getElem_zero (h : Owns fs d first C) (hne : C ≠ []) : C[0]? = some first := by
  obtain ⟨_, t, _, hs⟩ := h.linked hne
  cases C with
  | nil => exact absurd rfl hne
  | cons a l => rw [hs.1, List.getElem?_cons_zero]

lemma Owns.nodup (h : Owns fs d first C) : C.Nodup := by
  by_cases hne : C = []
  · rw [hne]
    exact List.nodup_nil
  · exact (h.linked hne).nodup

/-- A cluster of the volume is not an end mark. -/
lemma InRange.not_eoc (hg : Geom fs) (hc : InRange fs c) : ¬ IsEoc c := fun he => by
  have h1 := hc.2
  have h2 := hg.eoc
  have h3 := he.1
  omega

lemma not_eoc_zero : ¬ IsEoc 0 := by decide

variable {l : List ℕ}

lemma Owns.last_eoc {p : ℕ} (h : Owns fs d first (l ++ [p])) :
    IsEoc (entry fs d p) := by
  obtain ⟨_, t, ht, hs⟩ := h.linked (by simp)
  rwa [(seg_concat.mp hs).2]

/-- The link of the last cluster is an end mark. -/
lemma Owns.last_link (h : Owns fs d first C) {a : ℕ} (ha : C[i]? = some a)
    (hb : C[i + 1]? = none) : IsEoc (entry fs d a) := by
  have hlen : C.length = i + 1 := by
    have h1 := (List.getElem?_eq_some_iff.mp ha).1
    have h2 := List.getElem?_eq_none_iff.mp hb
    omega
  obtain ⟨l, p, rfl⟩ := List.eq_nil_or_concat' C |>.resolve_left (ne_nil_of_getElem? ha)
  have hil : i = l.length := by simpa using hlen.symm
  rw [hil, List.getElem?_concat_length] at ha
  rw [← Option.some.inj ha]
  exact h.last_eoc

/-- No cluster of a file is free. -/
lemma Owns.entry_ne_zero (h : Owns fs d first C) (hc : c ∈ C) : entry fs d c ≠ 0 := by
  obtain ⟨i, hi⟩ := List.getElem?_of_mem hc
  rcases hb : C[i + 1]? with _ | b
  · intro h0
    have heoc := h.last_link hi hb
    rw [h0] at heoc
    exact not_eoc_zero heoc
  · rw [h.link hi hb]
    have hr := h.range b (mem_of_getElem? hb)
    exact Nat.ne_of_gt (Nat.lt_of_lt_of_le Nat.two_pos hr.1)

/-- A walk along the chain of a file stays on it, and arrives unless a transfer fails. -/
lemma seekSteps_spec (hg : Geom fs) (h : Owns fs d first C) (hc : C[i]? = some c) :
    wp (seekSteps fs k c) (fun c' d' => C[i + k]? = some c' ∧ Quiet d d')
      (fun _ d' => Quiet d d' ∧ (i + k < C.length → ¬ Calm d)) d := by
  induction k generalizing i c d with
  | zero => exact ⟨hc, Quiet.rfl⟩
  | succ k ih =>
    have hmem := mem_of_getElem? hc
    refine (fatEntry_spec fs c d).bind (fun v d₁ hv => ?_)
      fun _ _ he => ⟨he.1, fun _ => he.2 (h.range c hmem) (h.inDev c hmem).1⟩
    obtain ⟨rfl, _, _, hq⟩ := hv
    rcases hb : C[i + 1]? with _ | b
    · rw [if_pos (.inr (h.last_link hc hb))]
      have hlen := List.getElem?_eq_none_iff.mp hb
      exact ⟨hq, fun hlt => absurd hlt (by omega)⟩
    · have hrb := h.range b (mem_of_getElem? hb)
      rw [h.link hc hb, if_neg (not_or.mpr ⟨by have := hrb.1; omega, hrb.not_eoc hg⟩)]
      refine (ih (h.quiet hq) hb).mono (fun c' d₂ h₂ => ?_) fun _ d₂ h₂ => ?_
      · exact ⟨by rw [← h₂.1]; congr 1; omega, hq.trans h₂.2⟩
      · exact ⟨hq.trans h₂.1, fun hlt hc => h₂.2 (by omega) (hq.calm hc)⟩

/-- The cursor is on the chain. -/
def At (C : List ℕ) (cur : Cursor) : Prop := C[cur.idx]? = some cur.clus

lemma At.clus_ge (h : Owns fs d first C) {cur : Cursor} (hcur : At C cur) : 2 ≤ cur.clus :=
  (h.range _ (mem_of_getElem? hcur)).1

lemma chainSeek_spec (hg : Geom fs) {cur : Cursor} {want : ℕ} (h : Owns fs d first C)
    (hcur : At C cur) (hle : cur.idx ≤ want) :
    wp (chainSeek fs cur want) (fun cur' d' => At C cur' ∧ cur'.idx = want ∧ Quiet d d')
      (fun _ d' => Quiet d d' ∧ (want < C.length → ¬ Calm d)) d := by
  have hge := hcur.clus_ge h
  unfold chainSeek
  rw [if_neg (by omega)]
  refine (seekSteps_spec hg h hcur).bind (fun c d₁ hc => ?_)
    fun _ _ he => ⟨he.1, fun hlt => he.2 (by omega)⟩
  obtain ⟨hc, hq⟩ := hc
  rw [Nat.add_sub_cancel' hle] at hc
  have hidx : max cur.idx want = want := Nat.max_eq_right hle
  exact ⟨by show C[max cur.idx want]? = some c; rwa [hidx], hidx, hq⟩

lemma chainLenFrom_spec (hg : Geom fs) {fuel : ℕ}
    (hl : Linked (entry fs d) IsEoc c l) (hr : ∀ a ∈ l, InRange fs a) :
    wp (chainLenFrom fs fuel c n) (fun m d' => m = n + l.length ∧ Quiet d d')
      (fun _ d' => Quiet d d' ∧
        (l.length < fuel → n + l.length ≤ fs.totalClusters → ¬ Ready fs d)) d := by
  induction fuel generalizing c n l d with
  | zero => exact ⟨Quiet.rfl, fun hlt => absurd hlt (Nat.not_lt_zero _)⟩
  | succ fuel ih =>
    unfold chainLenFrom
    cases l with
    | nil =>
      rw [if_pos (.inr (linked_nil.mp hl))]
      exact ⟨rfl, Quiet.rfl⟩
    | cons a l =>
      obtain ⟨rfl, ha, hrest⟩ := linked_cons.mp hl
      have hra := hr c mem_cons_self
      rw [if_neg (not_or.mpr ⟨by have := hra.1; omega, hra.not_eoc hg⟩)]
      refine (fatEntry_spec fs c d).bind (fun v d₁ hv => ?_)
        fun _ _ he => ⟨he.1, fun _ _ hd => he.2 hra (hd.entry_lt hg hra.2) hd.calm⟩
      obtain ⟨rfl, _, _, hq⟩ := hv
      have hlen : (c :: l).length = l.length + 1 := List.length_cons
      split_ifs
      · exact ⟨hq, fun _ hle => by omega⟩
      · refine (ih (hrest.congr fun b _ => hq.entry b)
          fun b hb => hr b (mem_cons_of_mem _ hb)).mono (fun m d₂ hm => ?_) fun _ d₂ he => ?_
        · exact ⟨by omega, hq.trans hm.2⟩
        · exact ⟨hq.trans he.1, fun h1 h2 hd => he.2 (by omega) (by omega) (hq.ready hd)⟩

/-- The walk of `chain_grow` ends at the last cluster. -/
lemma chainTail_spec (hg : Geom fs) {fuel : ℕ} (hne : l ≠ [])
    (hl : Linked (entry fs d) IsEoc c l) (hr : ∀ a ∈ l, InRange fs a) :
    wp (chainTail fs fuel c) (fun p d' => (∃ pre, l = pre ++ [p]) ∧ Quiet d d')
      (fun _ d' => Quiet d d' ∧ (l.length ≤ fuel → ¬ Ready fs d)) d := by
  induction fuel generalizing c l d with
  | zero => exact ⟨Quiet.rfl, fun hle => absurd (List.length_eq_zero_iff.mp (by omega)) hne⟩
  | succ fuel ih =>
    cases l with
    | nil => exact absurd rfl hne
    | cons a l =>
      obtain ⟨rfl, ha, hrest⟩ := linked_cons.mp hl
      have hra := hr c mem_cons_self
      refine (fatEntry_spec fs c d).bind (fun v d₁ hv => ?_)
        fun _ _ he => ⟨he.1, fun _ hd => he.2 hra (hd.entry_lt hg hra.2) hd.calm⟩
      obtain ⟨rfl, _, _, hq⟩ := hv
      cases l with
      | nil =>
        rw [if_pos (.inr (linked_nil.mp hrest))]
        exact ⟨⟨[], rfl⟩, hq⟩
      | cons b l =>
        have hrb := hr b (by simp)
        have hb : entry fs d c = b := (linked_cons.mp hrest).1
        rw [if_neg (not_or.mpr ⟨by have := hrb.1; omega, by rw [hb]; exact hrb.not_eoc hg⟩)]
        refine (ih (List.cons_ne_nil b l) (hrest.congr fun e _ => hq.entry e)
          fun e he => hr e (mem_cons_of_mem _ he)).mono (fun p d₂ hp => ?_) fun _ d₂ he => ?_
        · obtain ⟨⟨pre, hpre⟩, hq'⟩ := hp
          exact ⟨⟨c :: pre, by rw [hpre, List.cons_append]⟩, hq.trans hq'⟩
        · refine ⟨hq.trans he.1, fun hle hd => he.2 ?_ (hq.ready hd)⟩
          rw [List.length_cons] at hle
          omega

/-- A cluster that the search finds is free, and if it finds none there is none. -/
lemma findFree_spec (hg : Geom fs) (hL : ∀ n ∈ L, InRange fs n) :
    wp (findFree fs L)
      (fun v d' => Quiet d d' ∧ (v ≠ 0 → InRange fs v ∧ entry fs d v = 0 ∧
        fs.reserved + v / 128 < d.nsect) ∧ (v = 0 → ∀ n ∈ L, entry fs d n ≠ 0))
      (fun _ _ => ¬ Ready fs d) d := by
  induction L generalizing d with
  | nil => exact ⟨Quiet.rfl, fun hc => absurd rfl hc, by simp⟩
  | cons scn rest ih =>
    have hscn := hL scn mem_cons_self
    refine (fatEntry_spec fs scn d).bind (fun v d₁ hv => ?_)
      fun _ _ he hd => he.2 hscn (hd.entry_lt hg hscn.2) hd.calm
    obtain ⟨rfl, hr, hlt, hq⟩ := hv
    split_ifs with h0
    · exact ⟨hq, fun _ => ⟨hr, h0, hlt⟩, fun hz => absurd (hz ▸ hr.1) (by decide)⟩
    · refine (ih fun n hn => hL n (mem_cons_of_mem _ hn)).mono (fun v d₂ hv => ?_)
        fun _ _ he hd => he (hq.ready hd)
      obtain ⟨hq', hfound, hnone⟩ := hv
      refine ⟨hq.trans hq', fun hne => ?_, fun hz n hn => ?_⟩
      · obtain ⟨h1, h2, h3⟩ := hfound hne
        exact ⟨h1, by rw [← h2, hq.entry], hq.nsect ▸ h3⟩
      · rcases List.mem_cons.mp hn with rfl | hn
        · exact h0
        · rw [← hq.entry]
          exact hnone hz n hn

/-! ## The bytes of a file -/

/-- The sector of the volume that is sector `k` of the file. -/
def sectOf (fs : FatFs) (C : List ℕ) (k : ℕ) : ℕ :=
  clusRelLba fs (C.getD (k / fs.secPerClus) 0) + k % fs.secPerClus

/-- The chain `C` stands for the bytes `ref`. -/
structure FileOk (fs : FatFs) (d : Dev) (first : ℕ) (C : List ℕ) (ref : ℕ → UInt8) : Prop
    extends Owns fs d first C where
  bytes : ∀ i < C.length * clusBytes fs, d.data (sectOf fs C (i / 512) * 512 + i % 512) = ref i

variable {ref : ℕ → UInt8}

/-- The code's way from a position to its sector. -/
lemma sectOf_pos {pos : ℕ} (hc : C[pos / clusBytes fs]? = some c) :
    clusRelLba fs c + pos % clusBytes fs / 512 = sectOf fs C (pos / 512) := by
  have hcb : clusBytes fs = 512 * fs.secPerClus := Nat.mul_comm _ _
  unfold sectOf
  rw [Nat.div_div_eq_div_mul, ← hcb, List.getD_eq_getElem?_getD, hc, Option.getD_some, hcb,
    Nat.mod_mul_right_div_self]

/-- A byte of the chain lies in a sector of the chain. -/
lemma div_lt_sectors : i < n * clusBytes fs ↔ i / 512 < n * fs.secPerClus := by
  rw [Nat.div_lt_iff_lt_mul (by decide), clusBytes, Nat.mul_assoc]

lemma sectOf_mem (hg : Geom fs) (hk : k < C.length * fs.secPerClus) :
    C[k / fs.secPerClus]? = some (C.getD (k / fs.secPerClus) 0) := by
  have hlt : k / fs.secPerClus < C.length := (Nat.div_lt_iff_lt_mul hg.spc_pos).mpr hk
  rw [List.getD_eq_getElem?_getD, List.getElem?_eq_getElem hlt, Option.getD_some]

lemma dataStart_le_sectOf (k : ℕ) : fs.dataStart ≤ sectOf fs C k := by
  unfold sectOf clusRelLba
  omega

lemma Owns.sectOf_lt (hg : Geom fs) (h : Owns fs d first C)
    (hk : k < C.length * fs.secPerClus) : sectOf fs C k < d.nsect :=
  (h.inDev _ (mem_of_getElem? (sectOf_mem hg hk))).2 _ (Nat.mod_lt _ hg.spc_pos)

/-- A sector belongs to one cluster only. -/
lemma clusRelLba_inj (hg : Geom fs) {c' r r' : ℕ} (hc : 2 ≤ c) (hc' : 2 ≤ c')
    (hr : r < fs.secPerClus) (hr' : r' < fs.secPerClus)
    (heq : clusRelLba fs c + r = clusRelLba fs c' + r') : c = c' ∧ r = r' := by
  unfold clusRelLba at heq
  have hsum : (c - 2) * fs.secPerClus + r = (c' - 2) * fs.secPerClus + r' := by omega
  have hdiv := congrArg (· / fs.secPerClus) hsum
  have hmod := congrArg (· % fs.secPerClus) hsum
  simp only [Nat.mul_comm _ fs.secPerClus, Nat.mul_add_div hg.spc_pos, Nat.mul_add_mod,
    Nat.div_eq_of_lt hr, Nat.div_eq_of_lt hr', Nat.mod_eq_of_lt hr, Nat.mod_eq_of_lt hr'] at hdiv hmod
  exact ⟨by omega, hmod⟩

/-- Different sectors of a file are different sectors of the volume. -/
lemma Owns.sectOf_inj (hg : Geom fs) (h : Owns fs d first C) {k' : ℕ}
    (hk : k < C.length * fs.secPerClus) (hk' : k' < C.length * fs.secPerClus)
    (heq : sectOf fs C k = sectOf fs C k') : k = k' := by
  have hm := sectOf_mem hg hk
  have hm' := sectOf_mem hg hk'
  obtain ⟨hc, hr⟩ := clusRelLba_inj hg (h.range _ (mem_of_getElem? hm)).1
    (h.range _ (mem_of_getElem? hm')).1 (Nat.mod_lt _ hg.spc_pos) (Nat.mod_lt _ hg.spc_pos) heq
  have hidx : k / fs.secPerClus = k' / fs.secPerClus := by
    rw [← hc] at hm'
    exact (List.getElem?_inj (List.getElem?_eq_some_iff.mp hm).1 h.nodup).mp (hm.trans hm'.symm)
  calc k = fs.secPerClus * (k / fs.secPerClus) + k % fs.secPerClus := (Nat.div_add_mod _ _).symm
    _ = fs.secPerClus * (k' / fs.secPerClus) + k' % fs.secPerClus := by rw [hidx, hr]
    _ = k' := Nat.div_add_mod _ _

lemma FileOk.quiet (h : FileOk fs d first C ref) (hq : Quiet d d') : FileOk fs d' first C ref :=
  ⟨h.toOwns.quiet hq, fun i hi => by rw [hq.data, h.bytes i hi]⟩

lemma FileOk.sector (h : FileOk fs d first C ref) (hk : k < C.length * fs.secPerClus)
    (hi : i < 512) : d.data (sectOf fs C k * 512 + i) = ref (k * 512 + i) := by
  have hdiv : (k * 512 + i) / 512 = k := by omega
  have hmod : (k * 512 + i) % 512 = i := by omega
  have hb := h.bytes (k * 512 + i) (div_lt_sectors.mpr (by rwa [hdiv]))
  rwa [hdiv, hmod] at hb

/-- A write to the data area leaves the copies alone. -/
lemma Wrote.mirrored (hg : Geom fs) (hw : Wrote L buf d d')
    (hL : ∀ s ∈ L, fs.dataStart ≤ s) (hm : Mirrored fs d) : Mirrored fs d' := fun k hk n hn => by
  have hnf := entry_lt_fatsz hg hn
  have hsame : ∀ j < fs.nfats, Fat32.mirror fs d' j n = Fat32.mirror fs d j n := fun j hj => by
    refine (mirror_sector fs d' j n fun i hi => rfl).symm.trans
      (mirror_sector fs d j n fun i hi => ?_)
    rw [hw.data, if_neg]
    intro hmem
    have h1 := hL _ hmem
    have h2 := mirror_lt hg hj hnf
    omega
  rw [hsame k hk, hm k hk n hn, entry_eq_mirror, entry_eq_mirror, hsame 0 hg.nfats_pos]

/-- A write to the data area leaves the FAT alone. -/
lemma Wrote.entry_of_data (hg : Geom fs) (hw : Wrote L buf d d')
    (hL : ∀ s ∈ L, fs.dataStart ≤ s) (hn : n < fs.totalClusters + 2) :
    Fat32.entry fs d' n = Fat32.entry fs d n :=
  hw.entry fun hmem => by
    have h1 := hL _ hmem
    have h2 := mirror_lt hg hg.nfats_pos (entry_lt_fatsz hg hn)
    omega

/-- Overwriting one sector of the file. -/
lemma FileOk.patch (hg : Geom fs) (h : FileOk fs d first C ref)
    (hk : k < C.length * fs.secPerClus) (hw : Wrote [sectOf fs C k] sec d d') :
    FileOk fs d' first C fun i => if i / 512 = k then sec (i % 512) else ref i := by
  refine ⟨h.toOwns.congr (fun c hc => ?_) hw.nsect, fun i hi => ?_⟩
  · refine hw.entry_of_data hg (fun s hs => ?_) (h.range c hc).2
    rw [mem_singleton.mp hs]
    exact dataStart_le_sectOf k
  · have hdiv : (sectOf fs C (i / 512) * 512 + i % 512) / 512 = sectOf fs C (i / 512) := by omega
    have hmod : (sectOf fs C (i / 512) * 512 + i % 512) % 512 = i % 512 := by omega
    rw [hw.data, hdiv, hmod]
    by_cases hik : i / 512 = k
    · rw [if_pos (by rw [hik]; exact List.mem_singleton_self _), if_pos hik]
    · have hne : sectOf fs C (i / 512) ∉ [sectOf fs C k] := fun hc =>
        hik (h.sectOf_inj hg (div_lt_sectors.mp hi) hk (mem_singleton.mp hc))
      rw [if_neg hne, if_neg hik, h.bytes i hi]

/-! ## Growth -/

/-- The sectors of a cluster. -/
def clusSectors (fs : FatFs) (c : ℕ) : List ℕ :=
  (List.range fs.secPerClus).map fun i => clusRelLba fs c + i

/-- The file that starts at `first` with the clusters `C` starts at `first'` after the free
cluster `f`, filled with zeros, has been linked to its end. -/
structure Extended (fs : FatFs) (f first first' : ℕ) (C : List ℕ) (d d' : Dev) : Prop where
  range : InRange fs f
  free : entry fs d f = 0
  eoc : IsEoc (entry fs d' f)
  link : (C = [] ∧ first' = f) ∨ ∃ l p, C = l ++ [p] ∧ entry fs d' p = f ∧ first' = first
  same : ∀ m, InRange fs m → m ≠ f → (∀ l, C ≠ l ++ [m]) → entry fs d' m = entry fs d m
  data : ∀ a, fs.dataStart ≤ a / 512 →
    d'.data a = if a / 512 ∈ clusSectors fs f then 0 else d.data a
  inDev : fs.reserved + f / 128 < d.nsect ∧ ∀ s < fs.secPerClus, clusRelLba fs f + s < d.nsect
  mirrored : Mirrored fs d → Mirrored fs d'
  nsect : d'.nsect = d.nsect
  calm : Calm d → Calm d'

variable {f first' : ℕ}

lemma Extended.notMem (he : Extended fs f first first' C d d') (h : Owns fs d first C) : f ∉ C :=
  fun hmem => h.entry_ne_zero hmem he.free

lemma Extended.owns (hg : Geom fs) (he : Extended fs f first first' C d d')
    (h : Owns fs d first C) : Owns fs d' first' (C ++ [f]) := by
  have hnot := he.notMem h
  have hnd := h.nodup
  refine ⟨fun hc => absurd hc (by simp), fun _ => ?_, fun c hc => ?_, fun c hc => ?_⟩
  · rcases he.link with ⟨rfl, rfl⟩ | ⟨l, p, rfl, hp, rfl⟩
    · exact linked_cons.mpr ⟨rfl, he.range.not_eoc hg, linked_nil.mpr he.eoc⟩
    · refine (h.linked (by simp)).concat (he.range.not_eoc hg) hp rfl he.eoc fun b hb => ?_
      have hbC : b ∈ l ++ [p] := List.mem_append_left _ hb
      refine he.same b (h.range b hbC) (ne_of_mem_of_not_mem hbC hnot) fun l' hl' => ?_
      have hbp : b = p := by
        have hlast := congrArg List.getLast? hl'
        simpa using hlast.symm
      rw [List.nodup_append] at hnd
      exact hnd.2.2 b hb p (List.mem_singleton_self p) hbp
  · rcases List.mem_append.mp hc with hc | hc
    · exact h.range c hc
    · rw [mem_singleton.mp hc]
      exact he.range
  · rw [he.nsect]
    rcases List.mem_append.mp hc with hc | hc
    · exact h.inDev c hc
    · rw [mem_singleton.mp hc]
      exact he.inDev

lemma mem_clusSectors :
    s ∈ clusSectors fs c ↔ ∃ r < fs.secPerClus, clusRelLba fs c + r = s := by
  simp only [clusSectors, mem_map, mem_range]

lemma sectOf_append_left (hg : Geom fs) (hk : k < C.length * fs.secPerClus) :
    sectOf fs (C ++ [f]) k = sectOf fs C k := by
  have hlt : k / fs.secPerClus < C.length := (Nat.div_lt_iff_lt_mul hg.spc_pos).mpr hk
  unfold sectOf
  rw [List.getD_append _ _ _ _ hlt]

lemma sectOf_append_right (hg : Geom fs) (hge : C.length * fs.secPerClus ≤ k)
    (hk : k < (C.length + 1) * fs.secPerClus) :
    sectOf fs (C ++ [f]) k ∈ clusSectors fs f := by
  have h1 := (Nat.le_div_iff_mul_le hg.spc_pos).mpr hge
  have h2 := (Nat.div_lt_iff_lt_mul hg.spc_pos).mpr hk
  have hidx : k / fs.secPerClus = C.length := by omega
  refine mem_clusSectors.mpr ⟨k % fs.secPerClus, Nat.mod_lt _ hg.spc_pos, ?_⟩
  unfold sectOf
  rw [hidx, List.getD_append_right _ _ _ _ (Nat.le_refl _), Nat.sub_self, List.getD_cons_zero]

/-- The new cluster reads as zeros. -/
lemma Extended.fileOk (hg : Geom fs) (he : Extended fs f first first' C d d')
    (h : FileOk fs d first C ref) (hz : ∀ i, C.length * clusBytes fs ≤ i → ref i = 0) :
    FileOk fs d' first' (C ++ [f]) ref := by
  refine ⟨he.owns hg h.toOwns, fun i hi => ?_⟩
  have hdiv : (sectOf fs (C ++ [f]) (i / 512) * 512 + i % 512) / 512
      = sectOf fs (C ++ [f]) (i / 512) := by omega
  rw [he.data _ (by rw [hdiv]; exact dataStart_le_sectOf _), hdiv]
  rw [List.length_append, List.length_singleton] at hi
  rcases Nat.lt_or_ge i (C.length * clusBytes fs) with hlt | hge
  · have hk := div_lt_sectors.mp hlt
    rw [sectOf_append_left hg hk, if_neg, h.bytes i hlt]
    intro hmem
    obtain ⟨r, hr, heq⟩ := mem_clusSectors.mp hmem
    have hm := mem_of_getElem? (sectOf_mem hg hk)
    have hsame := (clusRelLba_inj hg he.range.1 (h.range _ hm).1 hr (Nat.mod_lt _ hg.spc_pos) heq).1
    exact he.notMem h.toOwns (hsame ▸ hm)
  · have hge' : C.length * fs.secPerClus ≤ i / 512 := by
      rw [Nat.le_div_iff_mul_le (by decide), Nat.mul_assoc]
      exact hge
    rw [if_pos (sectOf_append_right hg hge' (div_lt_sectors.mp hi)), hz i hge]

/-- The free cluster `f` has been filled with zeros and marked as the end of a chain. -/
structure Prepared (fs : FatFs) (f : ℕ) (d d' : Dev) : Prop where
  range : InRange fs f
  free : entry fs d f = 0
  entry : ∀ m < fs.totalClusters + 2, entry fs d' m = if m = f then FAT_EOC else entry fs d m
  data : ∀ a, fs.dataStart ≤ a / 512 →
    d'.data a = if a / 512 ∈ clusSectors fs f then 0 else d.data a
  inDev : fs.reserved + f / 128 < d.nsect ∧ ∀ s < fs.secPerClus, clusRelLba fs f + s < d.nsect
  mirrored : Mirrored fs d → Mirrored fs d'
  nsect : d'.nsect = d.nsect
  calm : Calm d → Calm d'

lemma fat_eoc : IsEoc FAT_EOC := by decide

/-- The first cluster of a file. -/
lemma Prepared.head (hp : Prepared fs f d d') : Extended fs f first f [] d d' := by
  refine ⟨hp.range, hp.free, ?_, .inl ⟨rfl, rfl⟩, fun m hm hne _ => ?_, hp.data, hp.inDev,
    hp.mirrored, hp.nsect, hp.calm⟩
  · rw [hp.entry f hp.range.2, if_pos rfl]
    exact fat_eoc
  · rw [hp.entry m hm.2, if_neg hne]

/-- A cluster behind the last one of a file. -/
lemma Prepared.tail {d'' : Dev} {p : ℕ} (hp : Prepared fs f d d')
    (h : Owns fs d first (l ++ [p])) (hs : SetEntry fs p f d' d'') :
    Extended fs f first first (l ++ [p]) d d'' := by
  have hfp : f ≠ p := fun hc =>
    h.entry_ne_zero (c := p) (by simp) (hc ▸ hp.free)
  have hrp := h.range p (by simp)
  refine ⟨hp.range, hp.free, ?_, .inr ⟨l, p, rfl, ?_, rfl⟩, fun m hm hne hlast => ?_,
    fun a ha => ?_, hp.inDev, hs.mirrored ∘ hp.mirrored, hs.nsect.trans hp.nsect,
    hs.calm ∘ hp.calm⟩
  · rw [hs.entry f hp.range.2, if_neg hfp, hp.entry f hp.range.2, if_pos rfl]
    exact fat_eoc
  · rw [hs.entry p hrp.2, if_pos rfl]
  · rw [hs.entry m hm.2, if_neg fun hc => hlast l (by rw [hc]), hp.entry m hm.2, if_neg hne]
  · rw [hs.data a ha, hp.data a ha]

lemma dataStart_le_clusSectors (hs : s ∈ clusSectors fs c) : fs.dataStart ≤ s := by
  obtain ⟨r, _, rfl⟩ := mem_clusSectors.mp hs
  unfold clusRelLba
  omega

lemma Ready.clus_lt (hd : Ready fs d) {r : ℕ} (hc : InRange fs c) (hr : r < fs.secPerClus) :
    clusRelLba fs c + r < d.nsect := by
  have hle : (c - 2 + 1) * fs.secPerClus ≤ fs.totalClusters * fs.secPerClus :=
    Nat.mul_le_mul_right _ (by have := hc.1; have := hc.2; omega)
  have hfits := hd.fits
  rw [Nat.add_mul, Nat.one_mul] at hle
  unfold clusRelLba
  omega

/-- What `chain_grow` does to a cluster before it links it. -/
lemma prepare_spec (hg : Geom fs) (hr : InRange fs f) (hfree : entry fs d f = 0)
    (hdev : fs.reserved + f / 128 < d.nsect) :
    wp ((List.range fs.secPerClus).forM fun i => secWrite (clusRelLba fs f + i) fun _ => 0)
      (fun _ d₁ => wp (fatSetEntry fs f FAT_EOC) (fun _ d₂ => Prepared fs f d d₂)
        (fun _ _ => ¬ Ready fs d) d₁) (fun _ _ => ¬ Ready fs d) d := by
  refine (writes_spec _ _ _ d).mono (fun _ d₁ h₁ => ?_)
    fun _ _ he hd => he (fun i hi => hd.clus_lt hr (mem_range.mp hi)) hd.calm
  obtain ⟨hin, hw⟩ := h₁
  have hL : ∀ s ∈ clusSectors fs f, fs.dataStart ≤ s := fun s hs => dataStart_le_clusSectors hs
  refine (fatSetEntry_spec hg hr.2 (by decide) d₁).mono (fun _ d₂ hs => ?_)
    fun _ _ he hd => he ⟨hw.calm hd.calm, hw.nsect ▸ hd.fits⟩
  refine ⟨hr, hfree, fun m hm => ?_, fun a ha => ?_, ⟨hdev, fun s hs => ?_⟩,
    hs.mirrored ∘ hw.mirrored hg hL, hs.nsect.trans hw.nsect, hs.calm ∘ hw.calm⟩
  · rw [hs.entry m hm, hw.entry_of_data hg hL hm]
  · rw [hs.data a ha, hw.data]
    rfl
  · exact hin s (mem_range.mpr hs)

lemma inChain_bind {α β : Type} {x : Prog Stop Dev α} {g : α → Prog Stop (Dev × ℕ) β}
    {R : β → Dev × ℕ → Prop} {E : Stop → Dev × ℕ → Prop}
    (h : wp x (fun a d' => wp (g a) R E (d', first)) (fun e d' => E e (d', first)) d) :
    wp (inChain x >>= g) R E (d, first) :=
  wp_bind.mpr (wp_zoom.mpr h)

/-- The chain `C` has grown by the free clusters `new`, and nothing else has changed. -/
structure Growth (fs : FatFs) (ref : ℕ → UInt8) (C new : List ℕ) (d : Dev) (s : Dev × ℕ) :
    Prop where
  file : FileOk fs s.1 s.2 (C ++ new) ref
  free : ∀ c ∈ new, InRange fs c ∧ entry fs d c = 0
  entry : ∀ m, InRange fs m → m ∉ C ++ new → entry fs s.1 m = entry fs d m
  data : ∀ a, fs.dataStart ≤ a / 512 → (∀ c ∈ new, a / 512 ∉ clusSectors fs c) →
    s.1.data a = d.data a
  mirrored : Mirrored fs d → Mirrored fs s.1
  nsect : s.1.nsect = d.nsect
  calm : Calm d → Calm s.1

/-- What growing by `count` clusters leaves behind. -/
def Grown (fs : FatFs) (ref : ℕ → UInt8) (C : List ℕ) (count : ℕ) (d : Dev) (s : Dev × ℕ) : Prop :=
  ∃ new, new.length = count ∧ Growth fs ref C new d s

variable {s : Dev × ℕ}

variable {new : List ℕ}

/-- A cluster in use that is not of the file stays so. -/
lemma Growth.foreign (h : Growth fs ref C new d s)
    (hr : InRange fs c) (hc : c ∉ C) (hused : Fat32.entry fs d c ≠ 0) :
    c ∉ C ++ new ∧ Fat32.entry fs s.1 c ≠ 0 := by
  have hnot : c ∉ C ++ new := fun hmem =>
    (List.mem_append.mp hmem).elim hc fun hnew => hused (h.free c hnew).2
  exact ⟨hnot, by rwa [h.entry c hr hnot]⟩

/-- No cluster yet. -/
lemma Growth.of_quiet (h : FileOk fs d first C ref) (hq : Quiet d d') :
    Growth fs ref C [] d (d', first) :=
  ⟨by rw [List.append_nil]; exact h.quiet hq, by simp, fun m _ _ => hq.entry m,
    fun a _ _ => by rw [hq.data], hq.mirrored, hq.nsect, hq.calm⟩

/-- One more cluster in front of the others. -/
lemma Extended.growth (he : Extended fs f first first' C d d')
    (hrest : Growth fs ref (C ++ [f]) new d' s) : Growth fs ref C (f :: new) d s := by
  have happ : C ++ [f] ++ new = C ++ f :: new := by rw [List.append_assoc, List.singleton_append]
  have hnd := hrest.file.nodup
  refine ⟨happ ▸ hrest.file, fun c hc => ?_, fun m hm hmem => ?_, fun a ha hout => ?_,
    hrest.mirrored ∘ he.mirrored, hrest.nsect.trans he.nsect, hrest.calm ∘ he.calm⟩
  · rcases List.mem_cons.mp hc with rfl | hc
    · exact ⟨he.range, he.free⟩
    · obtain ⟨hr, h0⟩ := hrest.free c hc
      have hne : ∀ x ∈ C ++ [f], x ≠ c := fun x hx => (List.nodup_append.mp hnd).2.2 x hx c hc
      rw [he.same c hr (fun hcf => hne f (by simp) hcf.symm)
        fun l hl => hne c (by rw [hl]; simp) rfl] at h0
      exact ⟨hr, h0⟩
  · rw [← happ] at hmem
    rw [hrest.entry m hm hmem]
    refine he.same m hm (fun hmf => hmem ?_) fun l hl => hmem ?_
    · simp [hmf]
    · simp [hl]
  · rw [hrest.data a ha fun c hc => hout c (mem_cons_of_mem _ hc), he.data a ha,
      if_neg (hout f mem_cons_self)]

variable {count : ℕ}

lemma Extended.grown (he : Extended fs f first first' C d d')
    (hrest : Grown fs ref (C ++ [f]) count d' s) : Grown fs ref C (count + 1) d s := by
  obtain ⟨new, hlen, hg⟩ := hrest
  exact ⟨f :: new, by rw [List.length_cons, hlen], he.growth hg⟩

lemma Growth.quiet_left (hq : Quiet d d')
    (h : Growth fs ref C new d' s) : Growth fs ref C new d s :=
  ⟨h.file, fun c hc => ⟨(h.free c hc).1, by rw [← hq.entry]; exact (h.free c hc).2⟩,
    fun m hm hmem => by rw [h.entry m hm hmem, hq.entry],
    fun a ha hout => by rw [h.data a ha hout, hq.data],
    h.mirrored ∘ hq.mirrored, h.nsect.trans hq.nsect, h.calm ∘ hq.calm⟩

lemma Grown.of_quiet (hq : Quiet d d')
    (h : Grown fs ref C count d' s) : Grown fs ref C count d s := by
  obtain ⟨new, hlen, hg⟩ := h
  exact ⟨new, hlen, hg.quiet_left hq⟩

/-- `prev` is the last cluster, or there is none. -/
def IsTail (C : List ℕ) (prev : ℕ) : Prop := (C = [] ∧ prev = 0) ∨ ∃ l, C = l ++ [prev]

/-- The volume has no free cluster. -/
def Full (fs : FatFs) (d : Dev) : Prop := ∀ n, InRange fs n → entry fs d n ≠ 0

/-- How growing by `count` clusters fails: the clusters ran out. -/
def GrowFail (fs : FatFs) (ref : ℕ → UInt8) (C : List ℕ) (count : ℕ) (d : Dev) (e : Stop)
    (s : Dev × ℕ) : Prop :=
  Ready fs d → e = .errno .enospc ∧ Full fs s.1 ∧ ∃ k < count, Grown fs ref C k d s

lemma GrowFail.of_quiet {e : Stop} (hq : Quiet d d')
    (h : GrowFail fs ref C count d' e s) : GrowFail fs ref C count d e s := fun hd => by
  obtain ⟨he, hfull, k, hk, hgrown⟩ := h (hq.ready hd)
  exact ⟨he, hfull, k, hk, hgrown.of_quiet hq⟩

lemma Extended.growFail (he : Extended fs f first first' C d d') {e : Stop} (hrest : GrowFail fs ref (C ++ [f]) count d' e s) :
    GrowFail fs ref C (count + 1) d e s := fun hd => by
  obtain ⟨hs, hfull, k, hk, hgrown⟩ := hrest ⟨he.calm hd.calm, he.nsect ▸ hd.fits⟩
  exact ⟨hs, hfull, k + 1, Nat.succ_lt_succ hk, he.grown hgrown⟩

lemma mem_clusters : n ∈ List.range' 2 fs.totalClusters ↔ InRange fs n := by
  rw [List.mem_range'_1]
  unfold InRange
  omega

lemma InRange.lt_pow (hg : Geom fs) (hc : InRange fs c) : c < 2 ^ 32 := by
  have h1 := hc.2
  have h2 := hg.eoc
  have h3 : FAT_EOC < 2 ^ 32 := by decide
  omega

/-- Each round links a cleared cluster behind the tail. -/
lemma growLoop_spec (hg : Geom fs) {prev : ℕ} (h : FileOk fs d first C ref)
    (hz : ∀ i, C.length * clusBytes fs ≤ i → ref i = 0) (hprev : IsTail C prev) :
    wp (growLoop fs count prev) (fun _ s => Grown fs ref C count d s)
      (fun e s => GrowFail fs ref C count d e s) (d, first) := by
  induction count generalizing d first C prev with
  | zero => exact ⟨[], rfl, .of_quiet h Quiet.rfl⟩
  | succ count ih =>
    refine inChain_bind ((findFree_spec hg fun n hn => mem_clusters.mp hn).mono
      (fun f d₁ h₁ => ?_) fun _ _ he hd => absurd hd he)
    obtain ⟨hq, hfound, hnone⟩ := h₁
    by_cases h0 : f = 0
    · -- no cluster is free: nothing has been taken
      rw [if_pos h0]
      refine fun hd => ⟨rfl, fun n hn => ?_, 0, Nat.succ_pos _, [], rfl, .of_quiet h hq⟩
      rw [hq.entry]
      exact hnone h0 n (mem_clusters.mpr hn)
    rw [if_neg h0]
    obtain ⟨hr, hfree, hdev⟩ := hfound h0
    have hok := h.quiet hq
    have hprep := prepare_spec hg hr (by rwa [hq.entry]) (by rwa [hq.nsect])
    refine inChain_bind (hprep.mono (fun _ d₂ hset => ?_) fun _ _ he hd => absurd (hq.ready hd) he)
    refine inChain_bind (hset.mono (fun _ d₃ hprep => ?_) fun _ _ he hd => absurd (hq.ready hd) he)
    have hz' : ∀ i, (C ++ [f]).length * clusBytes fs ≤ i → ref i = 0 := fun i hi => by
      rw [List.length_append, List.length_singleton, Nat.add_mul] at hi
      exact hz i (by omega)
    -- the other rounds, once the cluster is linked
    have hgo : ∀ {first' : ℕ} {d₄ : Dev}, Extended fs f first first' C d₁ d₄ →
        wp (growLoop fs count f) (fun _ s => Grown fs ref C (count + 1) d s)
          (fun e s => GrowFail fs ref C (count + 1) d e s) (d₄, first') := fun he =>
      (ih (he.fileOk hg hok hz) hz' (.inr ⟨C, rfl⟩)).mono
        (fun _ _ hs => (he.grown hs).of_quiet hq) fun _ _ hs => (he.growFail hs).of_quiet hq
    rcases hprev with ⟨rfl, rfl⟩ | ⟨l, rfl⟩
    · exact hgo hprep.head
    · have hrp := h.range prev (by simp)
      rw [if_pos hrp.1]
      refine inChain_bind ((fatSetEntry_spec hg hrp.2 (hr.lt_pow hg) d₃).mono
        (fun _ d₄ hlink => hgo (hprep.tail hok.toOwns hlink)) fun _ _ he hd => absurd ?_ he)
      have hd₁ := hq.ready hd
      exact ⟨hprep.calm hd₁.calm, hprep.nsect ▸ hd₁.fits⟩

/-- A file has at most all clusters. -/
lemma Owns.length_le (ho : Owns fs d first C) : C.length ≤ fs.totalClusters := by
  have hsub : C ⊆ List.range' 2 fs.totalClusters := fun c hc => mem_clusters.mpr (ho.range c hc)
  have hle := (List.subperm_of_subset ho.nodup hsub).length_le
  rwa [List.length_range'] at hle

lemma chainGrow_spec (hg : Geom fs) (h : FileOk fs d first C ref)
    (hz : ∀ i, C.length * clusBytes fs ≤ i → ref i = 0) :
    wp (chainGrow fs count) (fun _ s => Grown fs ref C count d s)
      (fun e s => GrowFail fs ref C count d e s) (d, first) := by
  refine wp_bind.mpr (wp_gets.mpr ?_)
  show wp ((if 2 ≤ first then inChain (chainTail fs (fs.totalClusters + d.faults.length + 1) first)
    else pure first) >>= fun prev => growLoop fs count prev) _ _ (d, first)
  by_cases hne : C = []
  · have h0 := h.head hne
    subst h0
    exact growLoop_spec hg h hz (.inl ⟨hne, rfl⟩)
  · rw [if_pos (h.range first (mem_of_getElem? (h.getElem_zero hne))).1]
    have hlen := h.toOwns.length_le
    refine inChain_bind ((chainTail_spec hg hne (h.linked hne) h.range).mono
      (fun prev d₁ h₁ => ?_) fun _ _ he hd => absurd hd (he.2 (by omega)))
    obtain ⟨htail, hq⟩ := h₁
    exact (growLoop_spec hg (h.quiet hq) hz (.inr htail)).mono
      (fun _ _ hs => hs.of_quiet hq) fun _ _ hs => hs.of_quiet hq

end Fat32
end Fs
end MobilePhoneOs
