import MobilePhoneOs.Fs.Fat32Theorems
import MobilePhoneOs.Fs.Fat32Walk
import Mathlib.Data.DFinsupp.WellFounded

/-!
# Which walks along FAT32 chains finish inside the volume

Seeks and frees always do: a seek takes as many steps as it is told to, and a free clears every
entry that it has seen. The walk of a growing chain to its tail is on its own on a cycle, and what
a seek finds is a link that nothing has checked yet.
-/

namespace MobilePhoneOs.Fs
namespace Fat32
namespace Walk

open Mem Prog

variable {fs : FatFs} {d d' : Dev}

/-! ## Accesses -/

variable {c : ℕ}

variable {E : MobilePhoneOs.Stop Stop → Dev → Prop}

lemma wp_inside {Q : Unit → Dev → Prop}
    (hQ : InRange fs c → Q () d) (hE : ¬ InRange fs c → E .oob d) : wp (inside fs c) Q E d := by
  rw [inside]
  split
  · exact hQ ‹_›
  · exact hE ‹_›

/-- A program of the driver makes no other failures than its own. -/
lemma wp_lift_orderly {α : Type} (x : Prog Stop Dev α) (d : Dev) :
    wp (lift x) (fun _ _ => True) (fun e _ => Orderly e) d := by
  apply wp_lift.mpr
  exact wp_of_run (fun _ _ _ => trivial) fun e _ _ => ⟨e, rfl⟩

lemma getEntry_spec (fs : FatFs) (n : ℕ) (d : Dev) :
    wp (getEntry fs n)
      (fun v d' => v = entry fs d n ∧ InRange fs n ∧ fs.reserved + n / 128 < d.nsect ∧ Quiet d d')
      (fun e d' => Quiet d d' ∧ Orderly e ∧
        (Calm d → ¬ (InRange fs n ∧ fs.reserved + n / 128 < d.nsect))) d := by
  rw [getEntry]
  split
  · next hn =>
    refine ⟨Quiet.rfl, ⟨_, rfl⟩, fun _ hr => ?_⟩
    have hlow := hr.1.1
    have hhigh := hr.1.2
    omega
  · next hn =>
    have hr : InRange fs n := ⟨by omega, by omega⟩
    apply wp_bind.mpr
    apply wp_inside
    · intro _
      apply wp_lift.mpr
      refine (fatEntry_spec fs n d).mono (fun _ _ h => h) fun e d' h => ?_
      exact ⟨h.1, ⟨e, rfl⟩, fun hcalm hc => h.2 hc.1 hc.2 hcalm⟩
    · exact fun hc => absurd hr hc

lemma getEntry_orderly (fs : FatFs) (n : ℕ) (d : Dev) :
    wp (getEntry fs n) (fun _ _ => InRange fs n) (fun e _ => Orderly e) d :=
  (getEntry_spec fs n d).mono (fun _ _ h => h.2.1) fun _ _ h => h.2.1

variable {n : ℕ}

lemma setEntry_orderly (h : InRange fs n) (val : ℕ) (d : Dev) :
    wp (setEntry fs n val) (fun _ _ => True) (fun e _ => Orderly e) d := by
  apply wp_bind.mpr
  apply wp_inside
  · exact fun _ => wp_lift_orderly _ d
  · exact fun hc => absurd h hc

lemma writeSector_orderly (h : InRange fs c) (k : ℕ) (sec : ℕ → UInt8) (d : Dev) :
    wp (writeSector fs c k sec) (fun _ _ => True) (fun e _ => Orderly e) d := by
  apply wp_bind.mpr
  apply wp_inside
  · exact fun _ => wp_lift_orderly _ d
  · exact fun hc => absurd h hc

/-- A sector of a cluster is read, or the cluster is outside, or a transfer fails. -/
lemma readSector_spec (fs : FatFs) (c k : ℕ) (d : Dev) :
    wp (readSector fs c k)
      (fun sec d' => InRange fs c ∧ clusRelLba fs c + k < d.nsect ∧ Quiet d d' ∧
        sec = sectorAt d (clusRelLba fs c + k))
      (fun e d' => (e = .oob ∧ ¬ InRange fs c) ∨ (Quiet d d' ∧ Orderly e ∧ InRange fs c ∧
        (Calm d → d.nsect ≤ clusRelLba fs c + k))) d := by
  apply wp_bind.mpr
  apply wp_inside
  · intro hr
    apply wp_lift.mpr
    have hspec := secRead_spec (clusRelLba fs c + k) d
    have hsec : wp (secRead (clusRelLba fs c + k))
        (fun sec _ => sec = sectorAt d (clusRelLba fs c + k)) (fun _ _ => True) d := by
      unfold wp secRead Dev.read
      split_ifs
      · trivial
      · rcases d.faults with _ | ⟨_ | j, fl⟩
        · rfl
        · rfl
        · trivial
    refine (hspec.and hsec).mono (fun sec d' h => ?_) fun e d' h => ?_
    · exact ⟨hr, h.1.1, h.1.2.1, h.2⟩
    · refine .inr ⟨h.1.1, ⟨e, rfl⟩, hr, fun hcalm => ?_⟩
      by_contra hlt
      exact h.1.2 (by omega) hcalm
  · exact fun hr => .inl ⟨rfl, hr⟩

/-! ## Links -/

lemma link_congr (hdata : d'.data = d.data) (hnsect : d'.nsect = d.nsect) (c : ℕ) :
    link fs d' c = link fs d c := by
  unfold link entry
  rw [hdata, hnsect]

lemma nth_congr (hdata : d'.data = d.data) (hnsect : d'.nsect = d.nsect) (first k : ℕ) :
    nth fs d' first k = nth fs d first k := by
  induction k with
  | zero => rfl
  | succ k ih =>
    rw [nth, nth, ih]
    congr 1
    ext1 c
    exact link_congr hdata hnsect c

lemma Quiet.nth (h : Quiet d d') (first k : ℕ) : nth fs d' first k = nth fs d first k :=
  nth_congr h.data h.nsect first k

lemma sectorAt_congr (hdata : d'.data = d.data) (lba : ℕ) : sectorAt d' lba = sectorAt d lba := by
  unfold sectorAt Dev.view
  rw [hdata]

variable {first : ℕ}

lemma nth_succ {k : ℕ} (h : nth fs d first k = some c) :
    nth fs d first (k + 1) = link fs d c := by
  rw [nth, h]
  rfl

/-- A chain that has ended stays ended. -/
lemma nth_none {i : ℕ} (h : nth fs d first i = none) (k : ℕ) :
    nth fs d first (i + k) = none := by
  induction k with
  | zero => exact h
  | succ k ih => rw [← Nat.add_assoc, nth, ih, Option.bind_none]

/-- The link that a walk reads is the one that it can take. -/
lemma link_of_entry {v : ℕ} (hv : v = entry fs d n) (hr : InRange fs n)
    (hs : fs.reserved + n / 128 < d.nsect) :
    link fs d n = if v = 0 ∨ IsEoc v then none else some v := by
  rw [hv, link]
  by_cases hend : entry fs d n = 0 ∨ IsEoc (entry fs d n)
  · rw [if_pos hend, if_neg]
    rintro ⟨-, -, hne, heoc⟩
    exact hend.elim hne heoc
  · rw [if_neg hend, if_pos ⟨hr, hs, fun h => hend (.inl h), fun h => hend (.inr h)⟩]

lemma link_none (h : ¬ (InRange fs n ∧ fs.reserved + n / 128 < d.nsect)) :
    link fs d n = none := by
  rw [link, if_neg]
  rintro ⟨hr, hs, -⟩
  exact h ⟨hr, hs⟩

/-! ## Seeks -/

lemma seekSteps_spec {i : ℕ} (h : nth fs d first i = some c) (k : ℕ) :
    wp (seekSteps fs k c)
      (fun c' d' => nth fs d first (i + k) = some c' ∧ Quiet d d')
      (fun e d' => Quiet d d' ∧ Orderly e ∧ (Calm d → nth fs d first (i + k) = none)) d := by
  induction k generalizing i c d with
  | zero => exact ⟨h, Quiet.rfl⟩
  | succ k ih =>
    have hsum : i + (k + 1) = (i + 1) + k := by omega
    rw [seekSteps, hsum]
    refine (getEntry_spec fs c d).bind (fun v d' hv => ?_) fun e d' he => ?_
    · obtain ⟨hv, hr, hs, hq⟩ := hv
      have hlink := link_of_entry hv hr hs
      have hnext := nth_succ h
      rw [hlink] at hnext
      split
      · next hend =>
        rw [if_pos hend] at hnext
        exact ⟨hq, ⟨_, rfl⟩, fun _ => nth_none hnext k⟩
      · next hend =>
        rw [if_neg hend, ← Quiet.nth hq] at hnext
        refine (ih hnext).mono (fun c' d'' hc => ?_) fun e d'' he => ?_
        · exact ⟨by rw [← Quiet.nth hq]; exact hc.1, hq.trans hc.2⟩
        · refine ⟨hq.trans he.1, he.2.1, fun hcalm => ?_⟩
          rw [← Quiet.nth hq]
          exact he.2.2 (hq.calm hcalm)
    · refine ⟨he.1, he.2.1, fun hcalm => nth_none ?_ k⟩
      rw [nth_succ h]
      exact link_none (he.2.2 hcalm)

variable {cur : Cursor}

/-- A seek along a chain from a cursor that stands on it, or at a start that is none. -/
lemma chainSeek_spec
    (h : nth fs d first cur.idx = if 2 ≤ cur.clus then some cur.clus else none) {want : ℕ}
    (hwant : cur.idx ≤ want) :
    wp (chainSeek fs cur want)
      (fun cur' d' => cur'.idx = want ∧ nth fs d first want = some cur'.clus ∧ Quiet d d')
      (fun e d' => Quiet d d' ∧ Orderly e ∧ (Calm d → nth fs d first want = none)) d := by
  have hsum : cur.idx + (want - cur.idx) = want := by omega
  rw [chainSeek]
  split
  · next hlt =>
    rw [if_neg (by omega)] at h
    refine ⟨Quiet.rfl, ⟨_, rfl⟩, fun _ => ?_⟩
    rw [← hsum]
    exact nth_none h _
  · next hge =>
    rw [if_pos (by omega)] at h
    have hsteps := seekSteps_spec h (want - cur.idx)
    rw [hsum] at hsteps
    refine hsteps.bind (fun c d' hc => ?_) fun e d' he => he
    exact ⟨max_eq_right hwant, hc⟩

/-- The rule of a seek and the sector of the cluster that it finds. -/
lemma wp_seekSector {β : Type} {f : Cursor → (ℕ → UInt8) → Confined β} {Q : β → Dev → Prop}
    (h : nth fs d first cur.idx = if 2 ≤ cur.clus then some cur.clus else none) {want : ℕ}
    (hwant : cur.idx ≤ want) (k : ℕ)
    (hok : ∀ cur' d', cur'.idx = want → nth fs d first want = some cur'.clus →
      InRange fs cur'.clus → clusRelLba fs cur'.clus + k < d.nsect → Quiet d d' →
      wp (f cur' (sectorAt d (clusRelLba fs cur'.clus + k))) Q E d')
    (hoob : ∀ c d', nth fs d first want = some c → ¬ InRange fs c → E .oob d')
    (herr : ∀ e d', Orderly e → (Calm d → ∀ c, nth fs d first want = some c →
      InRange fs c ∧ d.nsect ≤ clusRelLba fs c + k) → E e d') :
    wp (chainSeek fs cur want >>= fun cur => readSector fs cur.clus k >>= f cur) Q E d := by
  refine (chainSeek_spec h hwant).bind (fun cur' d₁ hseek => ?_) fun e d₁ he => ?_
  · obtain ⟨hidx, hnth, hq⟩ := hseek
    refine (readSector_spec fs cur'.clus k d₁).bind (fun sec d₂ hread => ?_) fun e d₂ he => ?_
    · obtain ⟨hr, hlt, hq', rfl⟩ := hread
      rw [sectorAt_congr hq.data]
      exact hok cur' d₂ hidx hnth hr (by rwa [← hq.nsect]) (hq.trans hq')
    · obtain ⟨rfl, hout⟩ | ⟨-, horderly, hr, hbehind⟩ := he
      · exact hoob cur'.clus d₂ hnth hout
      · refine herr e d₂ horderly fun hcalm c hc => ?_
        have hsame : cur'.clus = c := Option.some.inj (hnth.symm.trans hc)
        rw [← hsame, ← hq.nsect]
        exact ⟨hr, hbehind (hq.calm hcalm)⟩
  · refine herr e d₁ he.2.1 fun hcalm c hc => ?_
    rw [he.2.2 hcalm] at hc
    exact nomatch hc

lemma chainSeek_orderly (cur : Cursor) (want : ℕ) (d : Dev) :
    wp (chainSeek fs cur want) (fun _ _ => True) (fun e _ => Orderly e) d := by
  rw [chainSeek]
  split
  · exact ⟨_, rfl⟩
  · next hge =>
    have hstart : nth fs d cur.clus 0 = some cur.clus := if_pos (by omega)
    refine (seekSteps_spec hstart (want - cur.idx)).bind (fun c d' _ => ?_) fun e d' he => he.2.1
    trivial

/-! ## How walks end -/

/-- How a walk ends: inside exactly if `P`, and on its own only if `S`. -/
def Ends {α : Type} (x : Confined α) (P S : Prop) (d : Dev) : Prop :=
  wp x (fun _ _ => Calm d → P)
    (fun e _ => (Orderly e ∧ (Calm d → P)) ∨ (e = .oob ∧ ¬ P) ∨ (e = .spin ∧ S)) d

section Ends

variable {α : Type} {x : Confined α} {P S : Prop}

lemma Ends.not_oob (h : Ends x P S d) (hP : P) : ¬ Oob x d := by
  apply wp.not_oob h
  rintro _ (⟨⟨_, he⟩, -⟩ | ⟨-, hnot⟩ | ⟨he, -⟩)
  · exact nomatch he
  · exact hnot hP
  · exact nomatch he

lemma Ends.not_spins (h : Ends x P S d) (hS : ¬ S) : ¬ Spins x d := by
  apply wp.not_spins h
  rintro _ (⟨⟨_, he⟩, -⟩ | ⟨he, -⟩ | ⟨-, hs⟩)
  · exact nomatch he
  · exact nomatch he
  · exact hS hs

/-- A walk that no transfer stops has seen that it may be made. -/
lemma Ends.holds (h : Ends x P S d) (hcalm : Calm d) (hspins : ¬ Spins x d) (hoob : ¬ Oob x d) :
    P := by
  cases hx : x d with
  | mk r d' =>
    unfold Ends wp at h
    rw [hx] at h
    cases r with
    | ok a => exact h hcalm
    | error e =>
      obtain ⟨-, hP⟩ | ⟨rfl, -⟩ | ⟨rfl, -⟩ := h
      · exact hP hcalm
      · exact absurd ⟨d', hx⟩ hoob
      · exact absurd ⟨d', hx⟩ hspins

lemma Ends.ignore (h : Ends x P S d) : Ends (x >>= fun _ => pure ()) P S d :=
  wp.bind h (fun _ _ h => h) fun _ _ h => h

lemma ends_of_orderly (h : wp x (fun _ _ => True) (fun e _ => Orderly e) d) : Ends x True False d :=
  h.mono (fun _ _ _ _ => trivial) fun _ _ he => .inl ⟨he, fun _ => trivial⟩

end Ends

/-! ## Growth -/

/-- The walk to the tail ends where the chain ends or breaks off. -/
lemma chainTail_spec {i : ℕ} (h : nth fs d first i = some c) (fuel : ℕ) :
    wp (chainTail fs fuel c)
      (fun prev _ => InRange fs prev ∧ (Calm d → ∃ k, nth fs d first k = none))
      (fun e _ => (Orderly e ∧ (Calm d → ∃ k, nth fs d first k = none)) ∨
        (e = .spin ∧ nth fs d first (i + fuel) ≠ none)) d := by
  induction fuel generalizing i c d with
  | zero =>
    refine .inr ⟨rfl, ?_⟩
    rw [Nat.add_zero, h]
    exact Option.some_ne_none c
  | succ fuel ih =>
    have hsum : i + (fuel + 1) = (i + 1) + fuel := by omega
    rw [chainTail, hsum]
    refine (getEntry_spec fs c d).bind (fun v d' hv => ?_) fun e d' he => ?_
    · obtain ⟨hv, hr, hs, hq⟩ := hv
      have hlink := link_of_entry hv hr hs
      have hnext := nth_succ h
      rw [hlink] at hnext
      split
      · next hend =>
        rw [if_pos hend] at hnext
        exact ⟨hr, fun _ => ⟨i + 1, hnext⟩⟩
      · next hend =>
        rw [if_neg hend, ← Quiet.nth hq] at hnext
        refine (ih hnext).mono (fun c' d'' hc => ?_) fun e d'' he => ?_
        · refine ⟨hc.1, fun hcalm => ?_⟩
          obtain ⟨k, hk⟩ := hc.2 (hq.calm hcalm)
          exact ⟨k, by rw [← Quiet.nth hq]; exact hk⟩
        · obtain ⟨horderly, hends⟩ | ⟨hspin, hgoes⟩ := he
          · refine .inl ⟨horderly, fun hcalm => ?_⟩
            obtain ⟨k, hk⟩ := hends (hq.calm hcalm)
            exact ⟨k, by rw [← Quiet.nth hq]; exact hk⟩
          · exact .inr ⟨hspin, by rw [← Quiet.nth hq]; exact hgoes⟩
    · refine .inl ⟨he.2.1, fun hcalm => ⟨i + 1, ?_⟩⟩
      rw [nth_succ h]
      exact link_none (he.2.2 hcalm)

lemma findFree_orderly {L : List ℕ} (d : Dev) :
    wp (findFree fs L) (fun scn _ => scn = 0 ∨ InRange fs scn) (fun e _ => Orderly e) d := by
  induction L generalizing d with
  | nil => exact .inl rfl
  | cons scn rest ih =>
    rw [findFree]
    refine (getEntry_orderly fs scn d).bind (fun v d' hr => ?_) fun e d' he => he
    split
    · exact .inr hr
    · exact ih d'

lemma growLoop_orderly {prev : ℕ} (h : prev < 2 ∨ InRange fs prev) (count : ℕ) (d : Dev) :
    wp (growLoop fs count first prev) (fun _ _ => True) (fun e _ => Orderly e) d := by
  induction count generalizing first prev d with
  | zero => trivial
  | succ count ih =>
    rw [growLoop]
    refine (findFree_orderly d).bind (fun fresh d' hfresh => ?_) fun e d' he => he
    split
    · exact ⟨_, rfl⟩
    · next hne =>
      have hr := hfresh.resolve_left hne
      have hzero : wp ((List.range fs.secPerClus).forM fun i => writeSector fs fresh i fun _ => 0)
          (fun _ _ => True) (fun e _ => Orderly e) d' :=
        @wp_forM_range _ _ _ _ (fun _ _ => True) _ _ trivial
          fun k _ s _ => writeSector_orderly hr k _ s
      refine hzero.bind (fun _ d₁ _ => ?_) fun e d₁ he => he
      refine (setEntry_orderly hr FAT_EOC d₁).bind (fun _ d₂ _ => ?_) fun e d₂ he => he
      split
      · next hge =>
        refine (setEntry_orderly (h.resolve_left (by omega)) fresh d₂).bind (fun _ d₃ _ => ?_)
          fun e d₃ he => he
        exact ih (.inr hr) d₃
      · exact ih (.inr hr) d₂

/-- A chain grows where its end is found. -/
lemma chainGrow_ends (hdata : d'.data = d.data) (hnsect : d'.nsect = d.nsect)
    (fuel first count : ℕ) :
    Ends (chainGrow fs fuel first count) (∃ k, nth fs d first k = none)
      (nth fs d first fuel ≠ none) d' := by
  have hnth : ∀ k, nth fs d' first k = nth fs d first k := nth_congr hdata hnsect first
  rw [chainGrow]
  by_cases hfirst : 2 ≤ first
  · have hstart : nth fs d' first 0 = some first := if_pos hfirst
    have htail := chainTail_spec hstart fuel
    simp only [Nat.zero_add, hnth] at htail
    rw [if_pos hfirst]
    refine htail.bind (fun prev d₁ h => ?_) fun e d₁ he => he.imp_right .inr
    refine (growLoop_orderly (.inr h.1) count d₁).mono (fun _ _ _ => h.2) fun e d₂ he => ?_
    exact .inl ⟨he, h.2⟩
  · have hnone : ∃ k, nth fs d first k = none := ⟨0, if_neg hfirst⟩
    rw [if_neg hfirst]
    have hgrow := @growLoop_orderly fs first first (.inl (by omega)) count d'
    exact hgrow.mono (fun _ _ _ _ => hnone) fun e d₁ he => .inl ⟨he, fun _ => hnone⟩

/-! ## Frees -/

/-- Clearing an entry leaves the entries in front of its sector alone, and the others in it. What
is behind may be another copy of the FAT. -/
lemma clearEntry_spec (hg : Mounted fs) (n : ℕ) (d : Dev) :
    wp (fatSetEntry fs n 0)
      (fun _ d' => ∀ m, m / 128 ≤ n / 128 →
        entry fs d' m = if m = n then 0 else entry fs d m)
      (fun _ _ => True) d := by
  refine (secRead_spec _ d).bind (fun sec d₁ h => ?_) fun _ _ _ => trivial
  obtain ⟨-, hq, hsec⟩ := h
  refine (writes_spec _ _ _ d₁).mono (fun _ d₂ h m hm => ?_) fun _ _ _ => trivial
  have hw := h.2
  rcases Nat.lt_or_eq_of_le hm with hlt | hsame
  -- no copy is written in front of the sector
  · have hne : m ≠ n := fun hmn => by
      rw [hmn] at hlt
      exact Nat.lt_irrefl _ hlt
    rw [if_neg hne, hw.entry, hq.entry]
    intro hmem
    obtain ⟨i, -, hi⟩ := List.mem_map.mp hmem
    omega
  -- the first copy is the one that entries are read from
  · have hfirst : fs.reserved + m / 128 ∈
        (List.range fs.nfats).map fun i => fs.reserved + n / 128 + i * fs.fatsz :=
      List.mem_map.mpr ⟨0, List.mem_range.mpr hg.nfats, by rw [hsame, Nat.zero_mul, Nat.add_zero]⟩
    have hload : load (put sec (n % 128 * 4) 4 0) (m % 128 * 4) 4 = entry fs d₂ m := by
      apply entry_sector fs d₂ m
      intro i hi
      have hdiv : ((fs.reserved + m / 128) * 512 + i) / 512 = fs.reserved + m / 128 := by omega
      have hmod : ((fs.reserved + m / 128) * 512 + i) % 512 = i := by omega
      rw [hw.data, hdiv, if_pos hfirst, hmod]
    rw [← hload]
    split
    · next hmn =>
      rw [hmn, load_put]
      exact Nat.zero_mod _
    · next hmn =>
      rw [load_put_of_disjoint (by omega), ← entry_sector fs d m]
      rwa [hsame]

/-- How many entries in sector `s` of the FAT are taken. -/
def taken (fs : FatFs) (d : Dev) (s : ℕ) : ℕ :=
  ((Finset.range 128).filter fun j => entry fs d (128 * s + j) ≠ 0).card

/-- The sectors of the FAT in order; the first of them that changes says how much is left. -/
def takenIn (fs : FatFs) (K : ℕ) (d : Dev) : Lex (Fin K → ℕ) := toLex fun s => taken fs d s

lemma taken_congr {s : ℕ} (h : ∀ j < 128, entry fs d' (128 * s + j) = entry fs d (128 * s + j)) :
    taken fs d' s = taken fs d s := by
  have hsame : (Finset.range 128).filter (fun j => entry fs d' (128 * s + j) ≠ 0) =
      (Finset.range 128).filter fun j => entry fs d (128 * s + j) ≠ 0 := by
    apply Finset.filter_congr
    intro j hj
    rw [h j (Finset.mem_range.mp hj)]
  unfold taken
  rw [hsame]

/-- One entry is cleared. -/
lemma taken_lt (hn : entry fs d n ≠ 0)
    (h : ∀ m, m / 128 ≤ n / 128 → entry fs d' m = if m = n then 0 else entry fs d m) :
    taken fs d' (n / 128) < taken fs d (n / 128) := by
  have hsector : ∀ j < 128, (128 * (n / 128) + j) / 128 ≤ n / 128 := fun j hj => by omega
  have hplace : 128 * (n / 128) + n % 128 = n := Nat.div_add_mod n 128
  apply Finset.card_lt_card
  apply Finset.ssubset_iff_of_subset ?_ |>.mpr
  · refine ⟨n % 128, ?_, ?_⟩
    · apply Finset.mem_filter.mpr
      exact ⟨Finset.mem_range.mpr (by omega), by rwa [hplace]⟩
    · intro hmem
      have hne := (Finset.mem_filter.mp hmem).2
      rw [hplace, h n (Nat.le_refl _), if_pos rfl] at hne
      exact hne rfl
  · intro j hj
    obtain ⟨hlt, hne⟩ := Finset.mem_filter.mp hj
    apply Finset.mem_filter.mpr
    refine ⟨hlt, fun hzero => hne ?_⟩
    rw [h _ (hsector j (Finset.mem_range.mp hlt)), hzero, ite_self]

lemma toLex_lt_of_first {K : ℕ} {f g : Fin K → ℕ} (k : Fin K) (hbefore : ∀ s < k, f s = g s)
    (hless : f k < g k) : toLex f < toLex g := ⟨k, hbefore, hless⟩

lemma takenIn_lt {K : ℕ} (hK : n / 128 < K) (hn : entry fs d n ≠ 0)
    (h : ∀ m, m / 128 ≤ n / 128 → entry fs d' m = if m = n then 0 else entry fs d m) :
    takenIn fs K d' < takenIn fs K d := by
  have hbefore : ∀ s : Fin K, s < ⟨n / 128, hK⟩ → taken fs d' s = taken fs d s := by
    intro s hs
    have hlt : s.val < n / 128 := hs
    apply taken_congr
    intro j hj
    rw [h _ (by omega), if_neg]
    intro heq
    omega
  exact @toLex_lt_of_first K (fun s => taken fs d' s) (fun s => taken fs d s) ⟨n / 128, hK⟩
    hbefore (taken_lt hn h)

/-- A round reads an entry and clears it. -/
lemma freeRound_spec (hg : Mounted fs) (c : ℕ) (d : Dev) :
    wp (freeRound fs c)
      (fun next d' => InRange fs c ∧ next = entry fs d c ∧
        ∀ m, m / 128 ≤ c / 128 → entry fs d' m = if m = c then 0 else entry fs d m)
      (fun e _ => Orderly e) d := by
  rw [freeRound]
  refine (getEntry_spec fs c d).bind (fun next d₁ hget => ?_) fun e d₁ he => he.2.1
  obtain ⟨hnext, hr, -, hq⟩ := hget
  have hclear : wp (setEntry fs c 0)
      (fun _ d' => ∀ m, m / 128 ≤ c / 128 → entry fs d' m = if m = c then 0 else entry fs d₁ m)
      (fun e _ => Orderly e) d₁ := by
    apply wp_bind.mpr
    apply wp_inside
    · intro _
      apply wp_lift.mpr
      exact (clearEntry_spec hg c d₁).mono (fun _ _ h => h) fun e _ _ => ⟨e, rfl⟩
    · exact fun hc => absurd hr hc
  refine hclear.bind (fun _ d₂ hset => ?_) fun e d₂ he => he
  refine ⟨hr, hnext, fun m hm => ?_⟩
  rw [hset m hm, hq.entry]

/-- What is left of a program needs some amount of fuel. -/
lemma wp_fuel {ε σ α β : Type} {x : Prog ε σ α} {f : ℕ → α → Prog ε σ β} {Q : β → σ → Prop}
    {E : ε → σ → Prop} {s : σ} (h : wp x (fun a s' => ∃ n, wp (f n a) Q E s') E s) :
    ∃ n, wp (x >>= f n) Q E s := by
  cases hx : x s with
  | mk r s' =>
    unfold wp at h
    rw [hx] at h
    cases r with
    | ok a =>
      obtain ⟨n, hn⟩ := h
      refine ⟨n, ?_⟩
      unfold wp
      rw [bind_ok hx]
      exact hn
    | error e =>
      refine ⟨0, ?_⟩
      unfold wp
      rw [bind_error hx]
      exact h

/-- Every round clears an entry, and what a copy of the FAT may put back lies behind it. -/
lemma chainFree_ends (hg : Mounted fs) (c : ℕ) (d : Dev) :
    ∃ fuel, wp (chainFree fs fuel c) (fun _ _ => True) (fun e _ => Orderly e) d := by
  generalize hK : (fs.totalClusters + 2) / 128 + 1 = K
  generalize hμ : takenIn fs K d = μ
  induction μ using WellFoundedLT.induction generalizing c d with
  | ind μ ih =>
    by_cases hstop : c < 2 ∨ IsEoc c
    · refine ⟨1, ?_⟩
      rw [chainFree, if_pos hstop]
      trivial
    · have hround : wp (freeRound fs c)
          (fun next d' => ∃ fuel, wp (chainFree fs fuel next) (fun _ _ => True)
            (fun e _ => Orderly e) d') (fun e _ => Orderly e) d := by
        refine (freeRound_spec hg c d).mono (fun next d' h => ?_) fun e d' he => he
        obtain ⟨hr, hnext, hclear⟩ := h
        by_cases hzero : entry fs d c = 0
        -- a free cluster has no link that leads on
        · refine ⟨1, ?_⟩
          rw [chainFree, if_pos (.inl (by omega))]
          trivial
        · have hlt : c / 128 < K := by
            have hhigh := hr.2
            omega
          refine ih (takenIn fs K d') ?_ next d' rfl
          rw [← hμ]
          exact takenIn_lt hlt hzero hclear
      obtain ⟨fuel, hfuel⟩ := wp_fuel hround
      refine ⟨fuel + 1, ?_⟩
      rw [chainFree, if_neg hstop]
      exact hfuel

/-! ## Scans -/

/-- The sector of slot `pidx` in a cluster. -/
def slotLba (fs : FatFs) (c pidx : ℕ) : ℕ := clusRelLba fs c + pidx % dirSlots fs * 32 / 512

lemma dirReadSlot_spec (fs : FatFs) (first pidx : ℕ) (d : Dev) :
    wp (dirReadSlot fs first pidx)
      (fun e d' => Quiet d d' ∧ ∃ c, nth fs d first (pidx / dirSlots fs) = some c ∧ InRange fs c ∧
        slotLba fs c pidx < d.nsect ∧
        e = fun i => sectorAt d (slotLba fs c pidx) (pidx % dirSlots fs * 32 % 512 + i))
      (fun e _ => (e = .oob ∧ ∃ c, nth fs d first (pidx / dirSlots fs) = some c ∧ ¬ InRange fs c) ∨
        (Orderly e ∧ (Calm d → ∀ c, nth fs d first (pidx / dirSlots fs) = some c →
          InRange fs c ∧ d.nsect ≤ slotLba fs c pidx))) d := by
  have hstart : nth fs d first 0 = if 2 ≤ first then some first else none := rfl
  apply wp_seekSector hstart (Nat.zero_le _)
  · intro cur d' _ hc hr hlt hq
    exact ⟨hq, cur.clus, hc, hr, hlt, rfl⟩
  · exact fun c _ hc hr => .inl ⟨rfl, c, hc, hr⟩
  · exact fun e _ he hends => .inr ⟨he, hends⟩

section ScanFate

variable {wanted : List DirentInfo → DirentInfo → Bool} {first n pidx c : ℕ} {s : ScanState}

lemma scanFate_none (h : ∀ c, nth fs d first (pidx / dirSlots fs) = some c →
    InRange fs c ∧ d.nsect ≤ slotLba fs c pidx) :
    scanFate fs d wanted first (n + 1) pidx s = some true := by
  rw [scanFate]
  cases hc : nth fs d first (pidx / dirSlots fs) with
  | none => rfl
  | some c =>
    obtain ⟨hr, hbehind⟩ := h c hc
    show (if ¬ InRange fs c then _ else _) = _
    rw [if_neg (not_not_intro hr)]
    exact if_pos hbehind

lemma scanFate_out (hc : nth fs d first (pidx / dirSlots fs) = some c) (hr : ¬ InRange fs c) :
    scanFate fs d wanted first (n + 1) pidx s = some false := by
  rw [scanFate, hc]
  exact if_pos hr

lemma scanFate_slot (hc : nth fs d first (pidx / dirSlots fs) = some c) (hr : InRange fs c)
    (hlt : slotLba fs c pidx < d.nsect) :
    scanFate fs d wanted first (n + 1) pidx s =
      match scanSlot wanted s
        (fun i => sectorAt d (slotLba fs c pidx) (pidx % dirSlots fs * 32 % 512 + i)) pidx with
      | .stop _ => some true
      | .go s => scanFate fs d wanted first n ((pidx + 1) % 2 ^ 32) s := by
  rw [scanFate, hc]
  show (if ¬ InRange fs c then _ else _) = _
  rw [if_neg (not_not_intro hr)]
  exact if_neg (Nat.not_le.mpr hlt)

/-- What has come to an end stays there. -/
lemma scanFate_add {b : Bool} (h : scanFate fs d wanted first n pidx s = some b) (k : ℕ) :
    scanFate fs d wanted first (n + k) pidx s = some b := by
  induction n generalizing pidx s with
  | zero => exact nomatch h
  | succ n ih =>
    rw [Nat.add_right_comm, scanFate]
    rw [scanFate] at h
    cases hc : nth fs d first (pidx / dirSlots fs) with
    | none =>
      rw [hc] at h
      exact h
    | some c =>
      rw [hc] at h
      dsimp only at h ⊢
      split at h
      · next hr => rwa [if_pos hr]
      · next hr =>
        rw [if_neg hr]
        split at h
        · next hbehind => rwa [if_pos hbehind]
        · next hbehind =>
          rw [if_neg hbehind]
          split at h
          · exact h
          · exact ih h

lemma scanFate_congr (hdata : d'.data = d.data) (hnsect : d'.nsect = d.nsect) (n : ℕ) :
    scanFate fs d' wanted first n pidx s = scanFate fs d wanted first n pidx s := by
  induction n generalizing pidx s with
  | zero => rfl
  | succ n ih =>
    rw [scanFate, scanFate, nth_congr hdata hnsect, hnsect]
    simp only [sectorAt_congr hdata, ih]

lemma scan_spec (fs : FatFs) (wanted : List DirentInfo → DirentInfo → Bool) (first n pidx : ℕ)
    (s : ScanState) (d : Dev) :
    wp (scan fs wanted first n pidx s)
      (fun _ _ => Calm d → scanFate fs d wanted first n pidx s = some true)
      (fun e _ => (Orderly e ∧ (Calm d → scanFate fs d wanted first n pidx s = some true)) ∨
        (e = .oob ∧ scanFate fs d wanted first n pidx s = some false) ∨
        (e = .spin ∧ scanFate fs d wanted first n pidx s = none)) d := by
  induction n generalizing pidx s d with
  | zero => exact .inr (.inr ⟨rfl, rfl⟩)
  | succ n ih =>
    rw [scan]
    apply wp_tryBind.mpr
    refine (dirReadSlot_spec fs first pidx d).mono (fun e d' h => ?_) fun e d' he => ?_
    · obtain ⟨hq, c, hc, hr, hlt, he⟩ := h
      have hfate := @scanFate_slot fs d wanted first n pidx c s hc hr hlt
      rw [← he] at hfate
      rw [hfate]
      cases scanSlot wanted s e pidx with
      | stop r => exact fun _ => rfl
      | go s' =>
        have hrest := ih ((pidx + 1) % 2 ^ 32) s' d'
        rw [scanFate_congr hq.data hq.nsect] at hrest
        refine hrest.mono (fun _ _ h hcalm => h (hq.calm hcalm)) fun e d'' he => ?_
        exact he.imp_left fun h => ⟨h.1, fun hcalm => h.2 (hq.calm hcalm)⟩
    · obtain ⟨rfl, c, hc, hr⟩ | ⟨⟨e', rfl⟩, hends⟩ := he
      · exact .inr (.inl ⟨rfl, scanFate_out hc hr⟩)
      · have hfate : Calm d → scanFate fs d wanted first (n + 1) pidx s = some true :=
          fun hcalm => scanFate_none (hends hcalm)
        split
        · exact hfate
        · next r heq => exact .inl ⟨⟨e', rfl⟩, hfate⟩

/-- A scan inside comes to its end with fuel enough. -/
lemma scan_ends (hdata : d'.data = d.data) (hnsect : d'.nsect = d.nsect)
    (wanted : List DirentInfo → DirentInfo → Bool) (first n pidx : ℕ) (s : ScanState) :
    Ends (scan fs wanted first n pidx s) (∃ m, scanFate fs d wanted first m pidx s = some true)
      (scanFate fs d wanted first n pidx s = none) d' := by
  have hspec := scan_spec fs wanted first n pidx s d'
  rw [scanFate_congr hdata hnsect] at hspec
  refine hspec.mono (fun _ _ h hcalm => ⟨n, h hcalm⟩) fun e d₁ he => ?_
  obtain ⟨horderly, h⟩ | ⟨hoob, hout⟩ | hspin := he
  · exact .inl ⟨horderly, fun hcalm => ⟨n, h hcalm⟩⟩
  · refine .inr (.inl ⟨hoob, ?_⟩)
    rintro ⟨m, hm⟩
    have hagree := scanFate_add hm n
    rw [Nat.add_comm, scanFate_add hout m] at hagree
    exact nomatch hagree
  · exact .inr (.inr hspin)

end ScanFate

/-! ## Reads -/

/-- Of the clusters that a read of `len` bytes comes to none is outside. -/
def ReadClear (fs : FatFs) (d : Dev) (first off len : ℕ) : Prop :=
  ∀ k c, off / clusBytes fs ≤ k → k * clusBytes fs < off + len →
    (∀ j, off / clusBytes fs ≤ j → j < k → Passes fs d first off j) →
    nth fs d first k = some c → InRange fs c

/-- What holds between two rounds of a read: the cursor stands on the chain, and every piece that
was read is in a cluster of the volume. -/
structure Reading (fs : FatFs) (d : Dev) (first off len : ℕ) (cur : Cursor) (acc : List UInt8) :
    Prop where
  cursor : nth fs d first cur.idx = if 2 ≤ cur.clus then some cur.clus else none
  behind : cur.idx ≤ (off + acc.length) / clusBytes fs
  le : acc.length ≤ len
  aligned : acc.length < len →
    max off ((off + acc.length) / clusBytes fs * clusBytes fs) = off + acc.length
  passed : ∀ j, off / clusBytes fs ≤ j → max off (j * clusBytes fs) < off + acc.length →
    Passes fs d first off j ∧ ∀ c, nth fs d first j = some c → InRange fs c

lemma clusBytes_pos (hg : Mounted fs) : 0 < clusBytes fs := Nat.mul_pos hg.spc (by decide)

lemma Reading.start (fs : FatFs) (d : Dev) (first off len : ℕ) :
    Reading fs d first off len ⟨first, 0⟩ [] where
  cursor := rfl
  behind := Nat.zero_le _
  le := Nat.zero_le _
  aligned _ := max_eq_left (Nat.div_mul_le_self off _)
  passed j _ hlt := absurd (le_max_left off (j * clusBytes fs)) (Nat.not_le.mpr hlt)

section Reading

variable {first off len c : ℕ} {cur : Cursor} {acc : List UInt8}

/-- The pieces in front of the one that is to be read. -/
lemma Reading.before (hg : Mounted fs) {j : ℕ} (hj : off / clusBytes fs ≤ j)
    (hlt : j < (off + acc.length) / clusBytes fs) :
    max off (j * clusBytes fs) < off + acc.length := by
  have hpos := clusBytes_pos hg
  apply max_lt
  · by_contra hle
    have hsame : off + acc.length = off := by omega
    rw [hsame] at hlt
    omega
  · have hnext : (j + 1) * clusBytes fs ≤ off + acc.length := (Nat.le_div_iff_mul_le hpos).mp hlt
    rw [Nat.add_mul, Nat.one_mul] at hnext
    omega

lemma Reading.inRange (hg : Mounted fs) (h : Reading fs d first off len cur acc) {j : ℕ}
    (hj : off / clusBytes fs ≤ j) (hlt : j < (off + acc.length) / clusBytes fs)
    (hc : nth fs d first j = some c) : InRange fs c :=
  (h.passed j hj (Reading.before hg hj hlt)).2 c hc

/-- A read that is through has passed all of its pieces. -/
lemma Reading.clear_of_done (h : Reading fs d first off len cur acc) (hlen : 0 < len)
    (hdone : ¬ acc.length < len) : ReadClear fs d first off len := by
  intro k c hk hlt _ hc
  apply (h.passed k hk ?_).2 c hc
  apply max_lt
  · omega
  · omega

section

variable (hg : Mounted fs) (h : Reading fs d first off len cur acc)
include hg h

/-- A chain that ends here has no piece outside. -/
lemma Reading.clear_of_none (hnone : nth fs d first ((off + acc.length) / clusBytes fs) = none) :
    ReadClear fs d first off len := by
  intro k c hk _ _ hc
  apply h.inRange hg hk ?_ hc
  by_contra hge
  have hsum : (off + acc.length) / clusBytes fs + (k - (off + acc.length) / clusBytes fs) = k := by
    omega
  have hk' := nth_none hnone (k - (off + acc.length) / clusBytes fs)
  rw [hsum, hc] at hk'
  exact nomatch hk'

/-- A piece that is not on the device is the last that a read comes to. -/
lemma Reading.clear_of_end (hlt : acc.length < len)
    (hends : ∀ c, nth fs d first ((off + acc.length) / clusBytes fs) = some c →
      InRange fs c ∧ d.nsect ≤ clusRelLba fs c + (off + acc.length) % clusBytes fs / 512) :
    ReadClear fs d first off len := by
  intro k c hk _ hbefore hc
  rcases Nat.lt_trichotomy k ((off + acc.length) / clusBytes fs) with hless | heq | hgt
  · exact h.inRange hg hk hless hc
  · rw [heq] at hc
    exact (hends c hc).1
  · obtain ⟨c', hc', hlba⟩ := hbefore _ (Nat.div_le_div_right (Nat.le_add_right _ _)) hgt
    rw [h.aligned hlt] at hlba
    exact absurd hlba (Nat.not_lt.mpr (hends c' hc').2)

lemma Reading.not_clear (hlt : acc.length < len)
    (hc : nth fs d first ((off + acc.length) / clusBytes fs) = some c) (hr : ¬ InRange fs c) :
    ¬ ReadClear fs d first off len := by
  intro hclear
  refine hr (hclear _ c ?_ ?_ ?_ hc)
  · exact Nat.div_le_div_right (Nat.le_add_right _ _)
  · have hle := Nat.div_mul_le_self (off + acc.length) (clusBytes fs)
    omega
  · intro j hj hbefore
    exact (h.passed j hj (Reading.before hg hj hbefore)).1

/-- A round that reads its piece. -/
lemma Reading.next (hlt : acc.length < len) {cur' : Cursor} {bytes : List UInt8}
    (hidx : cur'.idx = (off + acc.length) / clusBytes fs)
    (hc : nth fs d first ((off + acc.length) / clusBytes fs) = some cur'.clus)
    (hr : InRange fs cur'.clus)
    (hp : Passes fs d first off ((off + acc.length) / clusBytes fs))
    (hbytes : bytes.length
      = min (clusBytes fs - (off + acc.length) % clusBytes fs) (len - acc.length)) :
    Reading fs d first off len cur' (acc ++ bytes) where
  cursor := by
    rw [hidx, hc, if_pos hr.1]
  behind := by
    rw [hidx, List.length_append]
    exact Nat.div_le_div_right (by omega)
  le := by
    rw [List.length_append]
    omega
  aligned := by
    rw [List.length_append, hbytes]
    intro hlt'
    have hsplit := Nat.div_add_mod' (off + acc.length) (clusBytes fs)
    have hmod := Nat.mod_lt (off + acc.length) (clusBytes_pos hg)
    have hend : off + (acc.length + min (clusBytes fs - (off + acc.length) % clusBytes fs)
        (len - acc.length)) = ((off + acc.length) / clusBytes fs + 1) * clusBytes fs := by
      rw [Nat.add_mul, Nat.one_mul]
      omega
    rw [hend, Nat.mul_div_cancel _ (clusBytes_pos hg)]
    apply max_eq_right
    omega
  passed := by
    intro j hj hmax
    rw [List.length_append, hbytes] at hmax
    by_cases hbefore : max off (j * clusBytes fs) < off + acc.length
    · exact h.passed j hj hbefore
    · have hge : ¬ j < (off + acc.length) / clusBytes fs :=
        fun hlt => hbefore (Reading.before hg hj hlt)
      have hnext : j * clusBytes fs < ((off + acc.length) / clusBytes fs + 1) * clusBytes fs := by
        have hsplit := Nat.div_add_mod' (off + acc.length) (clusBytes fs)
        rw [Nat.add_mul _ 1, Nat.one_mul]
        omega
      have hle := Nat.lt_of_mul_lt_mul_right hnext
      have hsame : j = (off + acc.length) / clusBytes fs := by omega
      rw [hsame]
      refine ⟨hp, fun c' hc' => ?_⟩
      rw [hc] at hc'
      rwa [← Option.some.inj hc']

end

end Reading

/-- The piece at `pos`, from a cursor that stands on the chain in front of it. -/
lemma seekRead_spec
    (h : nth fs d first cur.idx = if 2 ≤ cur.clus then some cur.clus else none) {pos : ℕ}
    (hidx : cur.idx ≤ pos / clusBytes fs) (hpos : pos < 2 ^ 32) :
    wp (seekRead fs cur pos)
      (fun x d' => Quiet d d' ∧ x.1.idx = pos / clusBytes fs ∧
        nth fs d first (pos / clusBytes fs) = some x.1.clus ∧ InRange fs x.1.clus ∧
        clusRelLba fs x.1.clus + pos % clusBytes fs / 512 < d.nsect)
      (fun e _ => (e = .oob ∧ ∃ c, nth fs d first (pos / clusBytes fs) = some c ∧ ¬ InRange fs c) ∨
        (Orderly e ∧ (Calm d → ∀ c, nth fs d first (pos / clusBytes fs) = some c →
          InRange fs c ∧ d.nsect ≤ clusRelLba fs c + pos % clusBytes fs / 512))) d := by
  have hwant : pos / clusBytes fs % 2 ^ 32 = pos / clusBytes fs :=
    Nat.mod_eq_of_lt (Nat.lt_of_le_of_lt (Nat.div_le_self _ _) hpos)
  rw [seekRead, hwant]
  apply wp_seekSector h hidx
  · intro cur' d' hidx' hc hr hlt hq
    exact ⟨hq, hidx', hc, hr, hlt⟩
  · exact fun c _ hc hr => .inl ⟨rfl, c, hc, hr⟩
  · exact fun e _ he hends => .inr ⟨he, hends⟩

/-- A read takes a round for each piece, and each piece has a byte at least. -/
lemma readLoop_ends (hg : Mounted fs) {off len : ℕ} (hlen : 0 < len)
    (hsize : off + len < 2 ^ 32) {acc : List UInt8}
    (h : Reading fs d first off len cur acc) (fuel : ℕ) (hdata : d'.data = d.data)
    (hnsect : d'.nsect = d.nsect) :
    Ends (readLoop fs off len fuel cur acc) (ReadClear fs d first off len)
      (fuel + acc.length ≤ len) d' := by
  induction fuel generalizing cur acc d' with
  | zero => exact .inr (.inr ⟨rfl, by rw [Nat.zero_add]; exact h.le⟩)
  | succ fuel ih =>
    rw [readLoop]
    split
    · next hlt =>
      have hpos : off + acc.length < 2 ^ 32 := by omega
      have hnth : ∀ k, nth fs d' first k = nth fs d first k := nth_congr hdata hnsect first
      split
      · next hzero =>
        have hstart := h.cursor
        rw [hzero, if_neg (by omega)] at hstart
        have hnone := nth_none hstart ((off + acc.length) / clusBytes fs - cur.idx)
        rw [Nat.add_sub_cancel' h.behind] at hnone
        exact fun _ => h.clear_of_none hg hnone
      · have hcursor := h.cursor
        rw [← hnth] at hcursor
        apply wp_tryBind.mpr
        refine (seekRead_spec hcursor h.behind hpos).mono (fun x d₁ hx => ?_) fun e d₁ he => ?_
        · obtain ⟨hq, hidx, hc, hr, hin⟩ := hx
          rw [hnth] at hc
          rw [hnsect] at hin
          have hp : Passes fs d first off ((off + acc.length) / clusBytes fs) := by
            refine ⟨x.1.clus, hc, ?_⟩
            rw [h.aligned hlt]
            exact hin
          have hnext := h.next hg hlt hidx hc hr hp
            (slice_length x.2 ((off + acc.length) % clusBytes fs % 512) _)
          refine (ih hnext (hq.data.trans hdata) (hq.nsect.trans hnsect)).mono
            (fun _ _ hP hcalm => hP (hq.calm hcalm)) fun e d₂ he => ?_
          obtain ⟨horderly, hP⟩ | hoob | ⟨hspin, hfuel⟩ := he
          · exact .inl ⟨horderly, fun hcalm => hP (hq.calm hcalm)⟩
          · exact .inr (.inl hoob)
          · refine .inr (.inr ⟨hspin, ?_⟩)
            have hpiece := Nat.mod_lt (off + acc.length) (clusBytes_pos hg)
            rw [List.length_append, slice_length] at hfuel
            omega
        · simp only [hnth] at he
          obtain ⟨rfl, c, hc, hr⟩ | ⟨⟨e', rfl⟩, hends⟩ := he
          · exact .inr (.inl ⟨rfl, h.not_clear hg hlt hc hr⟩)
          · have hP : Calm d' → ReadClear fs d first off len := by
              intro hcalm
              have hend := hends hcalm
              rw [hnsect] at hend
              exact h.clear_of_end hg hlt hend
            show wp (if acc = [] then _ else _) _ _ _
            split
            · exact .inl ⟨⟨e', rfl⟩, hP⟩
            · exact hP
    · next hge => exact fun _ => h.clear_of_done hlen hge

lemma fatRead_ends (hg : Mounted fs) (inode : FatInode) (hsize : inode.size < 2 ^ 32)
    (off len fuel : ℕ) (hdata : d'.data = d.data) (hnsect : d'.nsect = d.nsect) :
    Ends (fatRead fs fuel inode off len) ((Call.read inode hsize off len).Clear fs d)
      (fuel ≤ len) d' := by
  rw [fatRead]
  split
  · next hdir => exact .inl ⟨⟨_, rfl⟩, fun _ hfile => absurd (hfile.symm.trans hdir) nofun⟩
  · next hfile =>
    split
    · next hend =>
      intro _ _ k c _ _ hlt hne
      exact absurd hend (not_or.mpr ⟨Nat.not_le.mpr hlt, hne⟩)
    · next hgo =>
      have hclear : (Call.read inode hsize off len).Clear fs d ↔
          ReadClear fs d inode.firstClus off (min len (inode.size - off)) := by
        constructor
        · intro h k c hk hlt hbefore hc
          exact h (Bool.eq_false_iff.mpr hfile) k c hk hlt (by omega) (by omega) hbefore hc
        · intro h _ k c hk hlt _ _ hbefore hc
          exact h k c hk hlt hbefore hc
      have hloop := readLoop_ends hg (by omega) (by omega)
        (Reading.start fs d inode.firstClus off (min len (inode.size - off))) fuel hdata hnsect
      rw [hclear]
      refine wp.mono hloop (fun _ _ h => h) fun e d₁ he => ?_
      refine he.imp_right fun h => h.imp_right fun h => ⟨h.1, ?_⟩
      have hle := h.2
      rw [List.length_nil] at hle
      omega

/-! ## All walks -/

/-- Whether a call may be made is a matter of the disk, not of the transfers to come. -/
lemma finishes_iff {call : Call} {P : Prop} {S : ℕ → Prop}
    (h : ∀ fuel faults, Ends (call.run fs fuel) P (S fuel) { d with faults })
    (hS : P → ∃ fuel, ¬ S fuel) : (∀ faults, Finishes fs { d with faults } call) ↔ P := by
  constructor
  · intro hall
    obtain ⟨fuel, hspins, hoob⟩ := hall []
    have hcalm : Calm { d with faults := [] } := fun f hf => absurd hf List.not_mem_nil
    exact (h fuel []).holds hcalm hspins hoob
  · intro hP faults
    obtain ⟨fuel, hfuel⟩ := hS hP
    exact ⟨fuel, (h fuel faults).not_spins hfuel, (h fuel faults).not_oob hP⟩

/-- A walk finishes inside the volume, whatever transfers fail, exactly if the FAT is clear for
it. -/
theorem walks_confined (hg : Mounted fs) (d : Dev) (call : Call) :
    (∀ faults, Finishes fs { d with faults } call) ↔ call.Clear fs d := by
  cases call with
  | seek cur want =>
    refine finishes_iff (S := fun _ => False) (fun fuel faults => ?_) fun _ => ⟨0, id⟩
    have hends := ends_of_orderly (@chainSeek_orderly fs cur want { d with faults })
    exact hends.ignore
  | grow first count =>
    refine finishes_iff (S := fun fuel => nth fs d first fuel ≠ none) (fun fuel faults => ?_) ?_
    · exact (@chainGrow_ends fs d { d with faults } rfl rfl fuel first count).ignore
    · rintro ⟨k, hk⟩
      exact ⟨k, not_not_intro hk⟩
  | free first =>
    refine iff_of_true (fun faults => ?_) trivial
    obtain ⟨fuel, h⟩ := chainFree_ends hg first { d with faults }
    have hends := ends_of_orderly h
    exact ⟨fuel, hends.not_spins id, hends.not_oob trivial⟩
  | scan wanted first pidx =>
    refine finishes_iff (S := fun fuel => scanFate fs d wanted first fuel pidx ⟨.empty, []⟩ = none)
      (fun fuel faults => ?_) ?_
    · exact (@scan_ends fs d { d with faults } rfl rfl wanted first fuel pidx _).ignore
    · rintro ⟨n, hn⟩
      exact ⟨n, by rw [hn]; exact nofun⟩
  | read inode hsize off len =>
    refine finishes_iff (S := fun fuel => fuel ≤ len) (fun fuel faults => ?_) fun _ => ?_
    · exact (@fatRead_ends fs d { d with faults } hg inode hsize off len fuel rfl rfl).ignore
    · exact ⟨len + 1, by omega⟩

/-- The small volume when the FAT links cluster 5 to `v`. -/
def linkedVol (v : ℕ) : Dev where
  data := put (smallVol 1).data (512 + 4 * 5) 4 v
  nsect := (smallVol 1).nsect
  faults := []

/-- A file of two clusters that starts there. -/
def linkedFile : FatInode := ⟨5, false, 1024, true, 65, 0⟩

lemma small_mounted : Mounted (smallFs 1) := ⟨by decide, by decide, by decide, by decide⟩

/-- The walk that grows a chain of one cluster finishes, here when the second transfer fails. -/
theorem walks_confined_single :
    Finishes (smallFs 1) { linkedVol FAT_EOC with faults := [none, some 0] } (.grow 5 1) :=
  (walks_confined small_mounted (linkedVol FAT_EOC) (.grow 5 1)).mpr ⟨1, by decide⟩
    [none, some 0]

/-- A cluster that links to itself has no end, and a cluster outside is read when it is linked
to. -/
theorem walks_lost :
    ((fatMount (linkedVol 5)).1.toOption = some (smallFs 1) ∧
      ¬ Finishes (smallFs 1) (linkedVol 5) (.grow 5 1)) ∧
    (fatMount (linkedVol 9999)).1.toOption = some (smallFs 1) ∧
      ¬ Finishes (smallFs 1) (linkedVol 9999) (.read linkedFile (by decide) 512 1) := by
  have hcalm : ∀ v, Calm (linkedVol v) := fun v f hf => absurd hf List.not_mem_nil
  constructor
  · refine ⟨by decide, ?_⟩
    rintro ⟨fuel, hspins, hoob⟩
    have hends := @chainGrow_ends (smallFs 1) (linkedVol 5) (linkedVol 5) rfl rfl fuel 5 1
    obtain ⟨k, hk⟩ := hends.ignore.holds (hcalm 5) hspins hoob
    have hlink : link (smallFs 1) (linkedVol 5) 5 = some 5 := by decide
    have hloop : nth (smallFs 1) (linkedVol 5) 5 k = some 5 := by
      clear hk
      induction k with
      | zero => rfl
      | succ k ih => rw [nth_succ ih, hlink]
    rw [hloop] at hk
    exact nomatch hk
  · refine ⟨by decide, ?_⟩
    rintro ⟨fuel, hspins, hoob⟩
    have hends := @fatRead_ends (smallFs 1) (linkedVol 9999) (linkedVol 9999) small_mounted
      linkedFile (by decide) 512 1 fuel rfl rfl
    have hclear := hends.ignore.holds (hcalm 9999) hspins hoob
    have hlink : nth (smallFs 1) (linkedVol 9999) 5 1 = some 9999 := by decide
    have hr := hclear rfl 1 9999 (by decide) (by decide) (by decide) (by decide)
      (fun j hj hlt => absurd hlt (Nat.not_lt.mpr hj)) hlink
    exact absurd hr (by decide)

end Walk
end Fat32
end MobilePhoneOs.Fs
