import MobilePhoneOs.Fs.Fat32NameTheorems

/-!
# Removal from a FAT32 directory

`chain_free` gives the clusters of a file back, and `fat_unlink` marks the slots of one entry
as deleted. Neither touches another slot or another entry of the FAT.
-/

namespace MobilePhoneOs.Fs.Fat32

open Mem Prog Chain
open List (mem_cons_self mem_cons_of_mem)
open Function (update update_apply update_of_ne)

variable {fs : FatFs} {d d' d₀ : Dev} {first c p q n : ℕ} {C F l : List ℕ} {sl sl' : ℕ → ℕ → UInt8}

/-! ## Chains -/

/-- The clusters `F` are free, and nothing else has changed. -/
structure Freed (fs : FatFs) (F : List ℕ) (d d' : Dev) : Prop where
  entry : ∀ m < fs.totalClusters + 2, entry fs d' m = if m ∈ F then 0 else entry fs d m
  data : ∀ a, fs.dataStart ≤ a / 512 → d'.data a = d.data a
  nsect : d'.nsect = d.nsect
  calm : Calm d'

/-- Each link is read before its entry is cleared. -/
lemma chainFreeFrom_spec (hg : Geom fs) {fuel : ℕ} (hr : Ready fs d)
    (hl : Linked (entry fs d) IsEoc c l) (hin : ∀ a ∈ l, InRange fs a) (hfuel : l.length ≤ fuel) :
    wp (chainFreeFrom fs fuel c) (fun _ d' => Freed fs l d d') (fun _ _ => False) d := by
  induction fuel generalizing c l d with
  | zero =>
    obtain rfl := List.length_eq_zero_iff.mp (Nat.le_zero.mp hfuel)
    exact ⟨by simp, fun _ _ => rfl, rfl, hr.calm⟩
  | succ fuel ih =>
    unfold chainFreeFrom
    cases l with
    | nil =>
      rw [if_pos (.inr (linked_nil.mp hl))]
      exact ⟨by simp, fun _ _ => rfl, rfl, hr.calm⟩
    | cons a l =>
      have hnot := (List.nodup_cons.mp hl.nodup).1
      obtain ⟨rfl, ha, hrest⟩ := linked_cons.mp hl
      have hrc := hin c mem_cons_self
      rw [if_neg (not_or.mpr ⟨Nat.not_lt.mpr hrc.1, ha⟩)]
      refine (fatEntry_spec fs c d).bind (fun v d₁ hv => ?_)
        fun _ _ he => he.2 hrc (hr.entry_lt hg hrc.2) hr.calm
      obtain ⟨rfl, _, _, hq⟩ := hv
      refine (fatSetEntry_spec hg hrc.2 (by decide) d₁).bind (fun _ d₂ hs => ?_)
        fun _ _ he => he (hq.ready hr)
      have hset : ∀ m < fs.totalClusters + 2, entry fs d₂ m = if m = c then 0 else entry fs d m :=
        fun m hm => by rw [hs.entry m hm, hq.entry]
      have hkeep : ∀ b ∈ l, entry fs d₂ b = entry fs d b := fun b hb => by
        rw [hset b (hin b (mem_cons_of_mem _ hb)).2, if_neg (ne_of_mem_of_not_mem hb hnot)]
      have hready : Ready fs d₂ := ⟨hs.calm (hq.ready hr).calm, hs.nsect ▸ (hq.ready hr).fits⟩
      refine (ih hready (hrest.congr hkeep) (fun b hb => hin b (mem_cons_of_mem _ hb))
        (Nat.le_of_succ_le_succ hfuel)).mono (fun _ d₃ h => ?_) fun _ _ he => he
      refine ⟨fun m hm => ?_, fun a ha => ?_, h.nsect.trans (hs.nsect.trans hq.nsect), h.calm⟩
      · rw [h.entry m hm, hset m hm]
        simp only [List.mem_cons]
        split_ifs with h1 h2 h3 <;> simp_all
      · rw [h.data a ha, hs.data a ha, hq.data]

/-- `chain_free` frees the clusters of the chain and no other. -/
lemma chainFree_spec (hg : Geom fs) (hr : Ready fs d) (ho : Owns fs d first C) :
    wp (chainFree fs first) (fun _ d' => Freed fs C d d') (fun _ _ => False) d := by
  by_cases hne : C = []
  · rw [ho.head hne, hne]
    exact ⟨by simp, fun _ _ => rfl, rfl, hr.calm⟩
  · exact chainFreeFrom_spec hg hr (ho.linked hne) ho.range (Nat.le_succ_of_le ho.length_le)

/-- Clusters that a new file has taken are given back, and the FAT is as it was. -/
theorem chainFree_chainGrow (hg : Geom fs) (hr : Ready fs d) {count : ℕ} {s : Dev × ℕ}
    (hgrow : chainGrow fs count (d, 0) = (.ok (), s)) :
    wp (chainFree fs s.2) (fun _ d' => ∀ m, InRange fs m → entry fs d' m = entry fs d m)
      (fun _ _ => False) s.1 := by
  have hnil : FileOk fs d 0 [] fun _ => 0 :=
    ⟨⟨fun _ => rfl, fun hc => absurd rfl hc, by simp, by simp⟩, by simp⟩
  obtain ⟨new, _, h⟩ := (chainGrow_spec hg hnil fun _ _ => rfl).ok hgrow
  have hready : Ready fs s.1 := ⟨h.calm hr.calm, h.nsect ▸ hr.fits⟩
  refine (chainFree_spec hg hready h.file.toOwns).mono (fun _ d' hf m hm => ?_) fun _ _ he => he
  rw [hf.entry m hm.2]
  split_ifs with hnew
  · exact (h.free m hnew).2.symm
  · exact h.entry m hm hnew

/-- One cluster of the small volume. -/
theorem chainFree_chainGrow_one : ∃ s, chainGrow (smallFs 1) 1 (smallVol 1, 0) = (.ok (), s) ∧
    wp (chainFree (smallFs 1) s.2) (fun _ d' =>
      ∀ m, InRange (smallFs 1) m → entry (smallFs 1) d' m = entry (smallFs 1) (smallVol 1) m)
      (fun _ _ => False) s.1 := by
  have hready : Ready (smallFs 1) (smallVol 1) := ⟨by simp [Calm, smallVol], by decide⟩
  have hrun : (chainGrow (smallFs 1) 1 (smallVol 1, 0)).1.toOption = some () := by decide
  have hgrow := ok_of_toOption hrun
  exact ⟨_, hgrow, chainFree_chainGrow small_geom hready hgrow⟩

lemma freeData_spec (hg : Geom fs) (hr : Ready fs d) (ho : Owns fs d first C) :
    wp (if 2 ≤ first then tryBind (chainFree fs first) pure fun _ => pure () else pure ())
      (fun _ d' => Freed fs C d d') (fun _ _ => False) d := by
  split_ifs with hge
  · exact wp_tryBind.mpr ((chainFree_spec hg hr ho).mono (fun _ _ hf => hf) fun _ _ hf => hf.elim)
  · have hnil : C = [] := by
      by_contra hne
      exact hge (ho.range _ (List.mem_of_getElem? (ho.getElem_zero hne))).1
    rw [hnil]
    exact ⟨by simp, fun _ _ => rfl, rfl, hr.calm⟩

/-! ## Slots -/

/-- The slots with slot `p` marked as deleted. -/
def mark (sl : ℕ → ℕ → UInt8) (p : ℕ) : ℕ → ℕ → UInt8 :=
  update sl p (update (sl p) 0 SLOT_DELETED)

/-- How many long-name slots lie in a row in front of slot `p`. -/
def lfnRun (sl : ℕ → ℕ → UInt8) : ℕ → ℕ
  | 0 => 0
  | p + 1 => if (sl p 11).toNat = ATTR_LFN then lfnRun sl p + 1 else 0

/-- The slots with the last `k` slots in front of `p` marked as deleted. -/
def dropped (sl : ℕ → ℕ → UInt8) (p k : ℕ) : ℕ → ℕ → UInt8 := fun q j =>
  if p ≤ q + k ∧ q < p ∧ j = 0 then SLOT_DELETED else sl q j

lemma lfnRun_congr (h : ∀ q < p, sl q 11 = sl' q 11) : lfnRun sl p = lfnRun sl' p := by
  induction p with
  | zero => rfl
  | succ p ih => rw [lfnRun, lfnRun, h p (Nat.lt_succ_self p), ih fun q hq => h q (by omega)]

/-- Slot `p` itself and the long-name slots in front of it. -/
lemma dropped_mark (sl : ℕ → ℕ → UInt8) (p : ℕ) :
    dropped (mark sl p) p (lfnRun (mark sl p) p) = dropped sl (p + 1) (lfnRun sl p + 1) := by
  rw [@lfnRun_congr p _ sl fun q hq => by rw [mark, update_of_ne (Nat.ne_of_lt hq)]]
  funext q j
  simp only [dropped, mark, update_apply]
  split_ifs <;> first | rfl | omega | simp_all

lemma DirOk.congr (h : DirOk fs d first C sl) (heq : ∀ q j, j < 32 → sl q j = sl' q j)
    (hz : ∀ q j, C.length * dirSlots fs ≤ q → sl' q j = 0) : DirOk fs d first C sl' :=
  ⟨h.file.congr_ref fun i _ => heq _ _ (Nat.mod_lt _ (by decide)), hz⟩

/-- A directory keeps its slots when other clusters are freed. -/
lemma DirOk.freed (h : DirOk fs d first C sl) (hf : Freed fs F d d') (hF : ∀ c ∈ F, c ∉ C) :
    DirOk fs d' first C sl := by
  refine ⟨⟨h.file.toOwns.congr (fun m hm => ?_) hf.nsect, fun i hi => ?_⟩, h.zero⟩
  · rw [hf.entry m (h.file.range m hm).2, if_neg fun hmF => hF m hmF hm]
  · rw [hf.data, h.file.bytes i hi]
    rw [show (sectOf fs C (i / 512) * 512 + i % 512) / 512 = sectOf fs C (i / 512) by omega]
    exact dataStart_le_sectOf _

/-- A directory that has the slots `sl`, on a device where the FAT is that of `d₀`. -/
structure Holds (fs : FatFs) (first : ℕ) (C : List ℕ) (d₀ : Dev) (sl : ℕ → ℕ → UInt8) (d : Dev) :
    Prop where
  dir : DirOk fs d first C sl
  calm : Calm d
  entry : ∀ m < fs.totalClusters + 2, entry fs d m = entry fs d₀ m

lemma Holds.passed (h : Holds fs first C d₀ sl d) (hp : Passed d d') :
    Holds fs first C d₀ sl d' :=
  ⟨h.dir.passed hp, hp.calm.mpr h.calm, fun m hm => (hp.quiet.entry m).trans (h.entry m hm)⟩

lemma Holds.read (hg : Geom fs) (h : Holds fs first C d₀ sl d) (hlt : p < C.length * dirSlots fs) :
    wp (dirReadSlot fs first p) (fun e d' => (∀ j < 32, e j = sl p j) ∧ Holds fs first C d₀ sl d')
      (fun _ _ => False) d := by
  refine (dirReadSlot_spec hg h.dir p).mono (fun e d₁ hr => ⟨hr.2.1, h.passed hr.2.2.toPassed⟩)
    fun _ _ he => ?_
  rcases he with ⟨_, hle, _⟩ | ⟨_, hc⟩
  · omega
  · exact hc h.calm

/-- A write to a slot leaves the FAT alone. -/
lemma dirWriteSlot_entry (hg : Geom fs) (ho : Owns fs d first C) (e : ℕ → UInt8) :
    wp (dirWriteSlot fs first p e)
      (fun _ d' => ∀ m < fs.totalClusters + 2, entry fs d' m = entry fs d m) (fun _ _ => True) d := by
  refine (dirSlotLocate_spec hg ho p).bind (fun at' d₁ h₁ => ?_) fun _ _ _ => trivial
  obtain ⟨_, rfl, hp⟩ := h₁
  refine (secRead_spec _ d₁).bind (fun sec d₂ h₂ => ?_) fun _ _ _ => trivial
  refine wp_of_run (fun _ d₃ hrun m hm => ?_) fun _ _ _ => trivial
  have hw := ((secWrite_spec _ _ d₂).ok hrun).2
  rw [hw.entry, h₂.2.1.entry, hp.quiet.entry]
  have hlow := mirror_lt hg hg.nfats_pos (entry_lt_fatsz hg hm)
  have hhigh := @dataStart_le_sectOf fs C (p / 16)
  rw [List.mem_singleton]
  unfold slotPlace
  omega

/-- A slot is marked as deleted. -/
lemma Holds.mark (hg : Geom fs) (h : Holds fs first C d₀ sl d) (hlt : p < C.length * dirSlots fs)
    {e : ℕ → UInt8} (he : ∀ j < 32, e j = sl p j) :
    wp (dirWriteSlot fs first p (update e 0 SLOT_DELETED))
      (fun _ d' => Holds fs first C d₀ (mark sl p) d') (fun _ _ => False) d := by
  refine ((dirWriteSlot_spec hg h.dir _ hlt).and (dirWriteSlot_entry hg h.dir.file.toOwns _)).mono
    (fun _ d' hw => ?_) fun _ _ hf => hf.1.2 h.calm
  obtain ⟨⟨hdir, hcalm⟩, hentry⟩ := hw
  refine ⟨hdir.congr (fun q j hj => ?_) fun q j hq => ?_, hcalm h.calm,
    fun m hm => (hentry m hm).trans (h.entry m hm)⟩
  · by_cases hqp : q = p
    · subst hqp
      simp only [Fat32.mark, Function.update_self, update_apply, he j hj]
    · rw [Fat32.mark, update_of_ne hqp, update_of_ne hqp]
  · rw [Fat32.mark, update_of_ne (by omega)]
    exact h.dir.zero q j hq

/-- The loop over the long-name slots in front of `p`. -/
lemma dropLfn_spec (hg : Geom fs) (h : Holds fs first C d₀ sl d)
    (hle : p ≤ C.length * dirSlots fs) :
    wp (dropLfn fs first p) (fun _ d' => Holds fs first C d₀ (dropped sl p (lfnRun sl p)) d')
      (fun _ _ => False) d := by
  induction p generalizing sl d with
  | zero =>
    have hnone : dropped sl 0 (lfnRun sl 0) = sl := by
      funext q j
      exact if_neg fun hc => Nat.not_lt_zero q hc.2.1
    rw [hnone]
    exact h
  | succ p ih =>
    have hlt : p < C.length * dirSlots fs := hle
    refine wp_tryBind.mpr ((h.read hg hlt).mono (fun e d₁ he => ?_) fun _ _ hf => hf.elim)
    obtain ⟨he, h₁⟩ := he
    rw [he 11 (by decide), lfnRun]
    by_cases hlfn : (sl p 11).toNat = ATTR_LFN
    · rw [if_neg (not_not.mpr hlfn), if_pos hlfn]
      refine wp_tryBind.mpr ((h₁.mark hg hlt he).mono (fun _ d₂ h₂ => ?_) fun _ _ hf => hf.elim)
      have hrest := ih h₂ (Nat.le_of_lt hlt)
      rwa [dropped_mark] at hrest
    · rw [if_pos hlfn, if_neg hlfn]
      have hnone : dropped sl (p + 1) 0 = sl := by
        funext q j
        exact if_neg (by omega)
      rw [hnone]
      exact h₁

/-- What `fat_unlink` does to the slots of an entry. -/
lemma dropEntry_spec (hg : Geom fs) (h : DirOk fs d first C sl) (hc : Calm d)
    (hlt : p < C.length * dirSlots fs) :
    wp (do
      let e ← dirReadSlot fs first p
      dirWriteSlot fs first p (update e 0 SLOT_DELETED)
      dropLfn fs first p)
      (fun _ d' => Holds fs first C d (dropped sl (p + 1) (lfnRun sl p + 1)) d')
      (fun _ _ => False) d := by
  have h₁ : Holds fs first C d sl d := ⟨h, hc, fun _ _ => rfl⟩
  refine (h₁.read hg hlt).bind (fun e d₂ he => ?_) fun _ _ hf => hf
  refine (he.2.mark hg hlt he.1).bind (fun _ d₃ h₃ => ?_) fun _ _ hf => hf
  have hdrop := dropLfn_spec hg h₃ (Nat.le_of_lt hlt)
  rwa [dropped_mark] at hdrop

/-! ## The removal -/

/-- The entry that `fat_unlink` takes for `name`. -/
def target (E : List DirentInfo) (name : List UInt8) : Option DirentInfo :=
  E.find? fun info => !isVolume info && !isDot info && nameEq info name

/-- What a scan of the chain `C` delivers. -/
def listing (fs : FatFs) (d : Dev) (C : List ℕ) : List DirentInfo :=
  entries (slotsOf fs d C) (C.length * dirSlots fs)

/-- The entry `info` is a directory with another entry than `.` and `..`. -/
def Crowded (fs : FatFs) (d : Dev) (info : DirentInfo) (F : List ℕ) : Prop :=
  info.attr &&& ATTR_DIR ≠ 0 ∧ ∃ x ∈ listing fs d F, isVolume x = false ∧ isDot x = false

/-- The slot of `info` and the long-name slots in front of it are marked as deleted, the clusters
`F` of a file are free, and the other slots and the other entries of the FAT are as they were. -/
structure Unlinked (fs : FatFs) (first : ℕ) (C : List ℕ) (info : DirentInfo) (F : List ℕ)
    (d d' : Dev) : Prop where
  dir : DirOk fs d' first C
    (dropped (slotsOf fs d C) (info.pidx + 1) (lfnRun (slotsOf fs d C) info.pidx + 1))
  entry : ∀ m < fs.totalClusters + 2,
    entry fs d' m = if info.attr &&& ATTR_DIR = 0 ∧ m ∈ F then 0 else entry fs d m

/-- `fat_unlink` removes the entry of `name`, unless there is none or it is a directory that is not
empty: then it changes nothing. -/
theorem fatUnlink_exact (hg : Geom fs) (hr : Ready fs d) (ho : Owns fs d first C) {name : List UInt8}
    {F : List ℕ} (hF : ∀ info ∈ target (listing fs d C) name, Owns fs d info.firstClus F ∧
      (info.attr &&& ATTR_DIR = 0 → ∀ c ∈ F, c ∉ C)) :
    wp (fatUnlink fs first name)
      (fun _ d' => ∃ info, target (listing fs d C) name = some info ∧
        ¬ Crowded fs d info F ∧ Unlinked fs first C info F d d')
      (fun e d' => d'.data = d.data ∧ (e = .errno .enoent ∧ target (listing fs d C) name = none ∨
        e = .errno .enotempty ∧ ∃ info, target (listing fs d C) name = some info ∧
          Crowded fs d info F)) d := by
  have hdir := ho.dirOk
  refine (dirFind_spec hg hdir).bind (fun r d₁ h₁ => ?_) fun _ _ he => absurd hr.calm he.2
  obtain ⟨hr₁, hp₁, -⟩ := h₁
  have hfound : target (listing fs d C) name = r := hr₁.symm
  cases r with
  | none => exact ⟨hp₁.data, .inl ⟨rfl, hfound⟩⟩
  | some info =>
    have hmem : info ∈ listing fs d C := List.mem_of_find?_eq_some hfound
    obtain ⟨hown, hapart⟩ := hF info hfound
    have hlt : info.pidx < C.length * dirSlots fs := by simpa using (pidx_range hmem).2
    have hready₁ := hp₁.quiet.ready hr
    have hrest : ∀ {d₂ : Dev}, DirOk fs d₂ first C (slotsOf fs d C) → Calm d₂ →
        (∀ m < fs.totalClusters + 2,
          entry fs d₂ m = if info.attr &&& ATTR_DIR = 0 ∧ m ∈ F then 0 else entry fs d m) → _ :=
      fun hd₂ hc₂ hentry => (dropEntry_spec hg hd₂ hc₂ hlt).mono (fun _ d' h =>
        (⟨h.dir, fun m hm => (h.entry m hm).trans (hentry m hm)⟩ : Unlinked fs first C info F d d'))
        fun _ _ he => he
    refine wp_bind.mpr ?_
    by_cases hattr : info.attr &&& ATTR_DIR = 0
    · rw [if_neg (not_not.mpr hattr)]
      refine (freeData_spec hg hready₁ (hown.quiet hp₁.quiet)).bind (fun _ d₂ hf => ?_)
        fun _ _ hf => hf.elim
      have hc : ¬ Crowded fs d info F := fun hc => hc.1 hattr
      have hd₂ := (hdir.passed hp₁).freed hf (hapart hattr)
      refine (hrest hd₂ hf.calm fun m hm => ?_).mono (fun _ _ hu => ⟨info, hfound, hc, hu⟩)
        fun _ _ he => he.elim
      rw [hf.entry m hm, hp₁.quiet.entry]
      simp only [hattr, true_and]
    · rw [if_pos hattr]
      refine wp_tryBind.mpr ?_
      refine (dirFind_spec hg (hown.dirOk.passed hp₁)).mono (fun r' d₂ h₂ => ?_)
        fun _ _ he => absurd hready₁.calm he.2
      obtain ⟨hr₂, hp₂, -⟩ := h₂
      have hp := hp₁.trans hp₂
      cases r' with
      | none =>
        have hc : ¬ Crowded fs d info F := by
          rintro ⟨-, x, hx, hv, hdot⟩
          have hno := List.find?_eq_none.mp hr₂.symm x hx
          simp [hv, hdot] at hno
        refine (hrest (hdir.passed hp) (hp.calm.mpr hr.calm) fun m hm => ?_).mono
          (fun _ _ hu => ⟨info, hfound, hc, hu⟩) fun _ _ he => he.elim
        rw [hp.quiet.entry, if_neg fun hc => hattr hc.1]
      | some x =>
        have hx := List.find?_some hr₂.symm
        simp only [Bool.and_eq_true, Bool.not_eq_true'] at hx
        exact ⟨hp.data, .inr ⟨rfl, info, hfound, hattr, x, List.mem_of_find?_eq_some hr₂.symm, hx⟩⟩

/-- The small volume with a file `A` in slot 0 of the root, which has cluster 5. -/
def namedVol : Dev where
  data :=
    let bs := put (smallVol 1).data (512 + 4 * 5) 4 FAT_EOC
    put (store bs (65 * 512) (65 :: List.replicate 10 32)) (65 * 512 + 26) 2 5
  nsect := (smallVol 1).nsect
  faults := []

theorem fatUnlink_exact_file : ∃ info d', fatUnlink (smallFs 1) 2 [97] namedVol = (.ok (), d') ∧
    Unlinked (smallFs 1) 2 [2] info [5] namedVol d' := by
  have hroot : Owns (smallFs 1) namedVol 2 [2] := small_root.congr (by decide) rfl
  have hend : Linked (entry (smallFs 1) namedVol) IsEoc 5 [5] :=
    linked_cons.mpr ⟨rfl, by decide, linked_nil.mpr (by decide)⟩
  have hfile : Owns (smallFs 1) namedVol 5 [5] := by
    refine ⟨by simp, fun _ => hend, ?_, ?_⟩
    all_goals simp only [List.mem_singleton, forall_eq]
    · exact ⟨by decide, by decide⟩
    · exact ⟨by decide, by decide⟩
  have hready : Ready (smallFs 1) namedVol := ⟨by simp [Calm, namedVol], by decide⟩
  have hfound : (target (listing (smallFs 1) namedVol [2]) [97]).map (·.firstClus) = some 5 := by
    decide
  have hrun : (fatUnlink (smallFs 1) 2 [97] namedVol).1.toOption = some () := by decide
  have hF : ∀ info ∈ target (listing (smallFs 1) namedVol [2]) [97],
      Owns (smallFs 1) namedVol info.firstClus [5] ∧
        (info.attr &&& ATTR_DIR = 0 → ∀ c ∈ [5], c ∉ [2]) := by
    intro info hinfo
    rw [hinfo] at hfound
    have hclus : info.firstClus = 5 := Option.some.inj hfound
    rw [hclus]
    exact ⟨hfile, by simp⟩
  obtain ⟨info, -, -, hu⟩ := (fatUnlink_exact small_geom hready hroot hF).ok (ok_of_toOption hrun)
  exact ⟨info, _, ok_of_toOption hrun, hu⟩

end MobilePhoneOs.Fs.Fat32
