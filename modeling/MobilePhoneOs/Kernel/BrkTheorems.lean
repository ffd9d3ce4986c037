import MobilePhoneOs.Kernel.Brk
import MobilePhoneOs.Mm.SpaceTheorems

/-!
# The break agrees with what is mapped exactly when every growth fits

A growth that fits maps every page of its range to a frame of its own, and one that does not
leaves a page of the range out, although the break is stored all the same. A shrink returns
one frame for each page.
-/

namespace MobilePhoneOs.Brk

open Mm Mm.Vmm

/-! ## Growth -/

/-- A page of zeros. -/
def Zeros (_ : ℕ) (page : ℕ → ℕ) : Prop := ∀ j < PAGE_SIZE, page j = 0

lemma zeros_congr : PageLaw Zeros := fun _ _ _ h hz j hj => (h j hj).symm.trans (hz j hj)

section

variable (n : ℕ) {s : Sys} {lo : ℕ} (hs : Space s) (hlo : lo % PAGE_SIZE = 0) (hlow : 2 ^ 39 ≤ lo)
  (hhigh : lo + n * PAGE_SIZE ≤ 2 ^ 48)
include n hs hlo hlow hhigh

/-- Pages are entered until the frames run out, counting those for tables. -/
lemma grow_spec (hnone : ∀ i < n, s.maps (lo / PAGE_SIZE + i) = none) :
    Around s (grow s (pages lo n)) lo n ∧
      (n + tablesFor (present s.ram.mem s.root) (pages lo n) ≤ s.ram.free.length →
        Grew s (grow s (pages lo n)) lo n heapFlags Zeros) ∧
      (s.ram.free.length < n + tablesFor (present s.ram.mem s.root) (pages lo n) →
        ∃ i < n, (grow s (pages lo n)).maps (lo / PAGE_SIZE + i) = none) := by
  induction n generalizing s lo with
  | zero =>
    refine ⟨⟨hs, rfl, fun _ _ => rfl, fun _ _ _ => rfl⟩, fun _ => ⟨?_, ?_, rfl⟩, fun h => ?_⟩
    · exact fun i hi => absurd hi (Nat.not_lt_zero i)
    · exact fun i hi => absurd hi (Nat.not_lt_zero i)
    · exact absurd h (Nat.not_lt_zero _)
  | succ n ih =>
    have huser : UserVa lo := ⟨hlow, by simp only [PAGE_SIZE] at *; omega⟩
    have hfirst : s.maps (lo / PAGE_SIZE) = none := hnone 0 (Nat.succ_pos n)
    rw [pages_succ, grow]
    cases hfree : s.ram.free with
    | nil =>
      rw [alloc_nil hfree]
      refine ⟨⟨hs, rfl, fun _ _ => rfl, fun _ _ _ => rfl⟩, fun h => ?_, fun _ => ?_⟩
      · rw [List.length_nil] at h
        omega
      · exact ⟨0, Nat.succ_pos n, hfirst⟩
    | cons pa fs =>
      have hpa : IsTable pa := hs.free_isTable (by rw [hfree]; exact List.mem_cons_self)
      have hpos := hpa.pos
      have halloc : s.alloc.2 = pa := by rw [alloc_cons hfree]
      simp only [halloc, if_neg (show ¬ pa = 0 by omega)]
      have hpage := page_succ lo
      rcases hs.enter hfree heapFlags huser hlo with ⟨hres, hin⟩ | ⟨hres, hout⟩
      · rw [if_neg (not_not.mpr hres)]
        have hcleared := hin.write hfree ((s.alloc.1.mapAt lo pa heapFlags).1.zero pa).ram.mem
          fun a ha => zeroPage_mem_of_ne hpa.aligned ha
        change Entered s ((s.alloc.1.mapAt lo pa heapFlags).1.zero pa) lo pa heapFlags fs
          at hcleared
        have hzero : ∀ j < PAGE_SIZE,
            ((s.alloc.1.mapAt lo pa heapFlags).1.zero pa).ram.mem (pa + j) = 0 :=
          fun j hj => zeroPage_mem (by omega) (by omega)
        generalize (s.alloc.1.mapAt lo pa heapFlags).1.zero pa = s3 at hcleared hzero ⊢
        obtain ⟨haround, hgrew, hshort⟩ := @ih s3 (lo + PAGE_SIZE) hcleared.space
          (by simp only [PAGE_SIZE] at *; omega) (by omega)
          (by simp only [PAGE_SIZE] at *; omega) fun i hi => by
            rw [hcleared.maps, hpage, Function.update_of_ne (by omega), Nat.add_assoc,
              Nat.add_comm 1 i]
            exact hnone (i + 1) (by omega)
        have hlater := hcleared.later (pages (lo + PAGE_SIZE) n) fun va hva => by
          obtain ⟨i, hi, rfl⟩ := mem_pages.mp hva
          exact ⟨by omega, by simp only [PAGE_SIZE] at *; omega⟩
        have hroom := hcleared.room
        have hleft : s3.ram.free.length = fs.length
            - tablesFor (present s.ram.mem s.root) [lo] := by
          rw [hcleared.free, List.length_drop]
        refine ⟨.cons hcleared hfree haround, fun h => ?_, fun h => ?_⟩
        · rw [List.length_cons] at h
          exact .cons hcleared hfree zeros_congr hzero haround (hgrew (by omega))
        · rw [List.length_cons] at h
          obtain ⟨i, hi, hmissing⟩ := hshort (by omega)
          refine ⟨i + 1, by omega, ?_⟩
          rwa [hpage, Nat.add_assoc, Nat.add_comm 1 i] at hmissing
      · rw [if_pos hres]
        have hlast : ∃ i < n + 1, ((s.alloc.1.mapAt lo pa heapFlags).1.release pa).maps
            (lo / PAGE_SIZE + i) = none := by
          refine ⟨0, Nat.succ_pos n, ?_⟩
          rw [hout.maps]
          exact hfirst
        refine ⟨⟨hout.space, hout.root, fun page _ => by rw [hout.maps], hout.kept⟩, fun h => ?_,
          fun _ => hlast⟩
        rcases hout.why with ⟨hsome, -, -⟩ | ⟨-, hroom, -, -⟩
        · exact absurd hfirst hsome
        · rw [tablesFor_cons, List.length_cons] at h
          omega

/-! ## Shrinking -/

/-- Every page gives its frame back, as no other page maps it. -/
lemma shrink_spec (hmapped : ∀ i < n, s.maps (lo / PAGE_SIZE + i) ≠ none)
    (hown : ∀ i < n, ∀ m page m', s.maps (lo / PAGE_SIZE + i) = some m → s.maps page = some m' →
      m'.1 = m.1 → page = lo / PAGE_SIZE + i) :
    Space (shrink s (pages lo n)) ∧ (shrink s (pages lo n)).held = s.held ∧
      (∀ page, (shrink s (pages lo n)).maps page
        = if lo / PAGE_SIZE ≤ page ∧ page < lo / PAGE_SIZE + n then none else s.maps page) ∧
      (shrink s (pages lo n)).ram.free.length = s.ram.free.length + n ∧
      ∀ a, alignDown a ∉ s.held → (shrink s (pages lo n)).ram.mem a = s.ram.mem a := by
  induction n generalizing s lo with
  | zero =>
    refine ⟨hs, rfl, fun page => ?_, rfl, fun _ _ => rfl⟩
    rw [if_neg (by omega)]
    rfl
  | succ n ih =>
    have huser : UserVa lo := ⟨hlow, by simp only [PAGE_SIZE] at *; omega⟩
    obtain ⟨m, hm⟩ := Option.ne_none_iff_exists'.mp (hmapped 0 (Nat.succ_pos n))
    rw [Nat.add_zero] at hm
    have hprobe : s.probe lo = some (m.1, shownFlags m.2) := by
      rw [hs.probe huser, expected, hm, hlo]
      rfl
    obtain ⟨hm1, hm2, hm3⟩ := hs.pages _ _ hm
    obtain ⟨hs1, hfree1, hmaps1, hmem1⟩ := hs.unmapAt huser
    have hrel : Space ((s.unmapAt lo).1.release m.1) := by
      refine hs1.release hm1 hm2 (hfree1 ▸ hm3) fun page m' hm' hc => ?_
      rw [hmaps1, Function.update_apply] at hm'
      split at hm'
      · exact absurd hm' (by simp)
      · rename_i hne
        exact hne (hown 0 (Nat.succ_pos n) m page m' hm hm' hc)
    have hpage := page_succ lo
    have hkeep : ∀ i < n, (s.unmapAt lo).1.maps (lo / PAGE_SIZE + 1 + i)
        = s.maps (lo / PAGE_SIZE + (i + 1)) := by
      intro i _
      rw [hmaps1, Function.update_of_ne (by omega), Nat.add_assoc, Nat.add_comm 1 i]
    rw [pages_succ, shrink, hprobe]
    obtain ⟨hsp, hheld, hmaps, hfree, hmem⟩ := @ih ((s.unmapAt lo).1.release m.1)
      (lo + PAGE_SIZE) hrel (by simp only [PAGE_SIZE] at *; omega) (by omega)
      (by simp only [PAGE_SIZE] at *; omega) (fun i hi => by
        rw [hpage, release_maps, hkeep i hi]
        exact hmapped (i + 1) (by omega)) fun i hi m1 page m2 hm1 hm2 heq => by
        rw [hpage, release_maps, hkeep i hi] at hm1
        rw [release_maps, hmaps1, Function.update_apply] at hm2
        split at hm2
        · exact absurd hm2 (by simp)
        · rw [hpage, hown (i + 1) (by omega) m1 page m2 hm1 hm2 heq]
          omega
    refine ⟨hsp, hheld, fun page => ?_, ?_, fun a ha => ?_⟩
    · rw [hmaps, hpage, release_maps, hmaps1, Function.update_apply]
      split_ifs <;> first | rfl | omega
    · rw [hfree, release_free, List.length_cons, hfree1]
      omega
    · rw [hmem a ha]
      exact hmem1 a ha

end

/-! ## One call -/

section

variable {h : Heap}

lemma HeapInv.user (hi : HeapInv h) {va : ℕ} (hlow : h.floor ≤ va) (hva : va < Uaccess.USER_VA_LIMIT) :
    UserVa va := by
  have hf := hi.low
  have hlim : Uaccess.USER_VA_LIMIT < 2 ^ 48 := by decide
  exact ⟨by omega, by omega⟩

lemma limit_lt : PH14_BRK_LIMIT < Uaccess.USER_VA_LIMIT := by decide

section

variable (hi : HeapInv h)
include hi

/-- The heap as the probes see it. -/
lemma HeapInv.probes :
    (∀ va, h.floor ≤ va → va < h.brk → ∃ pa, h.sys.probe va = some (pa, heapFlags)) ∧
      ∀ va, h.brk ≤ va → va < PH14_BRK_LIMIT → h.sys.probe va = none := by
  have hhigh := hi.high
  have hlim := limit_lt
  have hle := hi.floor_le
  constructor
  · intro va hlow hva
    obtain ⟨pa, hm⟩ := hi.below va hlow hva
    have hshown : shownFlags heapFlags = heapFlags := by decide
    rw [hi.space.probe (hi.user hlow (by omega)), expected, hm, Option.map_some, hshown]
    exact ⟨_, rfl⟩
  · intro va hlow hva
    rw [hi.space.probe (hi.user (by omega) (by omega)), expected, hi.above va hlow hva]
    rfl

/-- A call that leaves the heap alone. -/
lemma obeys_refl : Obeys h h h.brk :=
  ⟨rfl, hi.aligned, hi.probes.1, fun va hlow hva => absurd hva (by omega), hi.probes.2,
    fun _ _ _ _ => rfl, rfl⟩

/-- The pages of a growth in a row. -/
lemma HeapInv.range {want : ℕ} (hwant : want % PAGE_SIZE = 0)
    (hgt : h.brk < want) :
    ∃ n, pagesFrom h.brk want = pages h.brk n ∧ h.brk + n * PAGE_SIZE = want := by
  have hal := hi.aligned
  refine ⟨want / PAGE_SIZE - h.brk / PAGE_SIZE, pagesFrom_eq hal hwant, ?_⟩
  simp only [PAGE_SIZE] at *
  omega

/-- A growth that fits. -/
lemma grow_obeys {s' : Sys} {n : ℕ}
    (hlim : h.brk + n * PAGE_SIZE ≤ PH14_BRK_LIMIT) (ha : Around h.sys s' h.brk n)
    (hg : Grew h.sys s' h.brk n heapFlags Zeros) :
    HeapInv { h with sys := s', brk := h.brk + n * PAGE_SIZE } ∧
      Obeys h { h with sys := s', brk := h.brk + n * PAGE_SIZE } (h.brk + n * PAGE_SIZE) := by
  have hlow := hi.low
  have hle := hi.floor_le
  have hal := hi.aligned
  have hfal := hi.floor_aligned
  have hlt := limit_lt
  -- the page of an address is an old one, a new one, or behind the range
  have hold : ∀ va, va < h.brk → va / PAGE_SIZE < h.brk / PAGE_SIZE := by
    intro va hva
    simp only [PAGE_SIZE] at *
    omega
  have hbehind : ∀ va, h.brk + n * PAGE_SIZE ≤ va →
      h.brk / PAGE_SIZE + n ≤ va / PAGE_SIZE := by
    intro va hva
    simp only [PAGE_SIZE] at *
    omega
  have hnew : ∀ va, h.brk ≤ va → va < h.brk + n * PAGE_SIZE →
      ∃ i < n, va / PAGE_SIZE = h.brk / PAGE_SIZE + i := by
    intro va hlo hhi
    refine ⟨va / PAGE_SIZE - h.brk / PAGE_SIZE, ?_, ?_⟩
    all_goals
      simp only [PAGE_SIZE] at *
      omega
  have hinv : HeapInv { h with sys := s', brk := h.brk + n * PAGE_SIZE } := by
    refine ⟨ha.space, hlow, hfal, ?_, ?_, ?_, fun va hlo hva => ?_, fun va hlo hva => ?_,
      fun va hlo hva m page m' hm hm' heq => ?_⟩
    · show h.floor ≤ h.brk + n * PAGE_SIZE
      omega
    · show h.brk + n * PAGE_SIZE ≤ Uaccess.USER_VA_LIMIT
      omega
    · rw [Nat.add_mul_mod_self_right]
      exact hal
    · by_cases hva' : va < h.brk
      · obtain ⟨pa, hm⟩ := hi.below va hlo hva'
        exact ⟨pa, (ha.others _ (.inl (hold va hva'))).trans hm⟩
      · obtain ⟨i, hin, hpage⟩ := hnew va (by omega) hva
        obtain ⟨pa, hm, -, -⟩ := hg.pages i hin
        exact ⟨pa, by rw [hpage]; exact hm⟩
    · rw [ha.others _ (.inr (hbehind va hlo))]
      exact hi.above va (by
        have : h.brk + n * PAGE_SIZE ≤ va := hlo
        omega) hva
    · -- frames of new pages were free, frames of the others were in use
      have hfresh : ∀ i < n, ∀ m, s'.maps (h.brk / PAGE_SIZE + i) = some m →
          m.1 ∈ h.sys.ram.free := by
        intro i hin m hm
        obtain ⟨pa, hmap, hmem, -⟩ := hg.pages i hin
        obtain rfl := Option.some.inj (hm.symm.trans hmap)
        exact hmem
      have hused : ∀ page m, h.sys.maps page = some m → m.1 ∉ h.sys.ram.free :=
        fun page m hm => (hi.space.pages page m hm).2.2
      have hwhere : ∀ page, s'.maps page = h.sys.maps page ∨
          ∃ i < n, page = h.brk / PAGE_SIZE + i := by
        intro page
        by_cases hp : page < h.brk / PAGE_SIZE ∨ h.brk / PAGE_SIZE + n ≤ page
        · exact .inl (ha.others page hp)
        · exact .inr ⟨page - h.brk / PAGE_SIZE, by omega, by omega⟩
      by_cases hva' : va < h.brk
      · rw [ha.others _ (.inl (hold va hva'))] at hm
        rcases hwhere page with hsame | ⟨i, hin, rfl⟩
        · rw [hsame] at hm'
          exact hi.own va hlo hva' m page m' hm hm' heq
        · exact absurd (heq ▸ hfresh i hin m' hm') (hused _ m hm)
      · obtain ⟨i, hin, hpage⟩ := hnew va (by omega) hva
        rw [hpage] at hm ⊢
        rcases hwhere page with hsame | ⟨i', hin', rfl⟩
        · rw [hsame] at hm'
          exact absurd (heq.symm ▸ hfresh i hin m hm) (hused page m' hm')
        · rw [hg.own i hin i' hin' m m' hm hm' heq]
  refine ⟨hinv, rfl, hinv.aligned, hinv.probes.1, fun va hlo hva => ?_, hinv.probes.2,
    fun va hlo hva _ => ?_, ?_⟩
  · obtain ⟨i, hin, hpage⟩ := hnew va hlo hva
    obtain ⟨pa, hm, -, hzero⟩ := hg.pages i hin
    rw [← hpage] at hm
    have huser : UserVa va := hi.user (by omega) (by
      have : va < h.brk + n * PAGE_SIZE := hva
      omega)
    have hcell : s'.ram.mem (pa + va % PAGE_SIZE) = 0 := hzero _ (Nat.mod_lt _ (by decide))
    rw [ha.space.byte huser hm, hcell]
  · obtain ⟨pa, hm⟩ := hi.below va hlo hva
    have huser := hi.user hlo (by omega)
    obtain ⟨htab, hheld, hfree⟩ := hi.space.pages _ _ hm
    have hlt : va % PAGE_SIZE < PAGE_SIZE := Nat.mod_lt _ (by decide)
    have hdown : alignDown (pa + va % PAGE_SIZE) = pa :=
      alignDown_page htab.aligned (by omega) (by omega)
    have hkept := ha.kept (pa + va % PAGE_SIZE) (by rwa [hdown]) (by rwa [hdown])
    rw [hi.space.byte huser hm,
      ha.space.byte huser ((ha.others _ (.inl (hold va hva))).trans hm), hkept]
  · have hcount := hg.count
    simp only [PAGE_SIZE] at *
    omega

/-- A growth that does not fit leaves a page below the new break unmapped. -/
lemma grow_violates {s' : Sys} {n i : ℕ}
    (hlim : h.brk + n * PAGE_SIZE ≤ PH14_BRK_LIMIT) (ha : Around h.sys s' h.brk n) (hin : i < n)
    (hnone : s'.maps (h.brk / PAGE_SIZE + i) = none) :
    ¬ Obeys h { h with sys := s', brk := h.brk + n * PAGE_SIZE } (h.brk + n * PAGE_SIZE) := by
  intro hobeys
  have hle := hi.floor_le
  have hlt := limit_lt
  have hva : h.brk + i * PAGE_SIZE < h.brk + n * PAGE_SIZE := by
    simp only [PAGE_SIZE]
    omega
  obtain ⟨pa, hprobe⟩ := hobeys.mapped (h.brk + i * PAGE_SIZE) (by omega) hva
  have hpage : (h.brk + i * PAGE_SIZE) / PAGE_SIZE = h.brk / PAGE_SIZE + i :=
    Nat.add_mul_div_right _ _ (show 0 < PAGE_SIZE by decide)
  rw [ha.space.probe (hi.user (by omega) (by omega)), expected, hpage, hnone] at hprobe
  exact absurd hprobe (by simp)

/-- A shrink to `want`. -/
lemma shrink_obeys {want n : ℕ} (hwant : want % PAGE_SIZE = 0)
    (hfloor : h.floor ≤ want) (hn : want + n * PAGE_SIZE = h.brk) :
    HeapInv { h with sys := shrink h.sys (pages want n), brk := want } ∧
      Obeys h { h with sys := shrink h.sys (pages want n), brk := want } want := by
  have hlow := hi.low
  have hhigh := hi.high
  have hfal := hi.floor_aligned
  have hlim : Uaccess.USER_VA_LIMIT < 2 ^ 48 := by decide
  have hrow : ∀ i < n, h.floor ≤ want + i * PAGE_SIZE ∧ want + i * PAGE_SIZE < h.brk ∧
      (want + i * PAGE_SIZE) / PAGE_SIZE = want / PAGE_SIZE + i := by
    intro i hin
    simp only [PAGE_SIZE] at *
    omega
  obtain ⟨hspace, hheld, hmaps, hfree, hmem⟩ := shrink_spec n hi.space hwant (by omega) (by omega)
    (fun i hin => by
      obtain ⟨hlo, hva, hpage⟩ := hrow i hin
      obtain ⟨pa, hm⟩ := hi.below _ hlo hva
      rw [← hpage, hm]
      exact Option.some_ne_none _)
    fun i hin m page m' hm hm' heq => by
      obtain ⟨hlo, hva, hpage⟩ := hrow i hin
      rw [← hpage] at hm ⊢
      exact hi.own _ hlo hva m page m' hm hm' heq
  generalize hs' : shrink h.sys (pages want n) = s' at hspace hheld hmaps hfree hmem ⊢
  -- pages below the new break stay
  have hstay : ∀ va, va < want → s'.maps (va / PAGE_SIZE) = h.sys.maps (va / PAGE_SIZE) := by
    intro va hva
    rw [hmaps, if_neg]
    simp only [PAGE_SIZE] at *
    omega
  have hinv : HeapInv { h with sys := s', brk := want } := by
    refine ⟨hspace, hlow, hfal, hfloor, ?_, hwant, fun va hlo hva => ?_, fun va hlo hva => ?_,
      fun va hlo hva m page m' hm hm' heq => ?_⟩
    · show want ≤ Uaccess.USER_VA_LIMIT
      omega
    · have hva' : va < want := hva
      obtain ⟨pa, hm⟩ := hi.below va hlo (by omega)
      exact ⟨pa, (hstay va hva').trans hm⟩
    · have hlo' : want ≤ va := hlo
      rw [hmaps]
      split
      · rfl
      · apply hi.above va ?_ hva
        simp only [PAGE_SIZE] at *
        omega
    · have hva' : va < want := hva
      simp only [hstay va hva'] at hm
      rw [hmaps] at hm'
      split at hm'
      · exact absurd hm' (by simp)
      · exact hi.own va hlo (by omega) m page m' hm hm' heq
  refine ⟨hinv, rfl, hwant, hinv.probes.1, fun va hlo hva => ?_, hinv.probes.2,
    fun va hlo _ hva => ?_, ?_⟩
  · have hva' : va < want := hva
    omega
  · have hva' : va < want := hva
    obtain ⟨pa, hm⟩ := hi.below va hlo (by omega)
    have huser := hi.user hlo (by omega)
    obtain ⟨htab, hnheld, -⟩ := hi.space.pages _ _ hm
    have hoff : va % PAGE_SIZE < PAGE_SIZE := Nat.mod_lt _ (by decide)
    have hdown : alignDown (pa + va % PAGE_SIZE) = pa :=
      alignDown_page htab.aligned (by omega) (by omega)
    rw [hi.space.byte huser hm, hspace.byte huser ((hstay va hva').trans hm),
      hmem _ (by rwa [hdown])]
  · rw [hfree, hheld]
    simp only [PAGE_SIZE] at *
    omega

end

lemma alignUp_spec {unew : ℕ} (h : unew ≤ PH14_BRK_LIMIT) :
    alignUp unew % PAGE_SIZE = 0 ∧ unew ≤ alignUp unew ∧ alignUp unew < unew + PAGE_SIZE ∧
      alignUp unew ≤ PH14_BRK_LIMIT := by
  simp only [alignUp, add64, PAGE_SIZE, PH14_BRK_LIMIT] at *
  omega

/-- A call of `sys_brk` obeys its law exactly when its growth fits, and then the heap stays as
it should. -/
lemma sysBrk_spec (hi : HeapInv h) (unew ret : ℕ) :
    (Obeys h (sysBrk h unew).1 (sysBrk h unew).2 ↔ Fits h (.brk unew ret)) ∧
      (Fits h (.brk unew ret) → HeapInv (sysBrk h unew).1) := by
  rw [sysBrk]
  split
  · rename_i hzero
    have hfits : Fits h (.brk unew ret) := fun hne => absurd hzero hne
    exact ⟨iff_of_true (obeys_refl hi) hfits, fun _ => hi⟩
  split
  · rename_i hzero hout
    have hfits : Fits h (.brk unew ret) := fun _ hlo hhi => by omega
    exact ⟨iff_of_true (obeys_refl hi) hfits, fun _ => hi⟩
  rename_i hne hin
  rw [not_or, Nat.not_lt, Nat.not_lt] at hin
  obtain ⟨hal, hge, -, hlim⟩ := alignUp_spec hin.2
  rcases Nat.lt_trichotomy h.brk (alignUp unew) with hgt | heq | hlt
  · obtain ⟨n, hrange, hwant⟩ := hi.range hal hgt
    have hle := hi.floor_le
    have hlow := hi.low
    have hlt := limit_lt
    have hlim48 : Uaccess.USER_VA_LIMIT < 2 ^ 48 := by decide
    have hnone : ∀ i < n, h.sys.maps (h.brk / PAGE_SIZE + i) = none := by
      intro i hin'
      have hpage : (h.brk + i * PAGE_SIZE) / PAGE_SIZE = h.brk / PAGE_SIZE + i :=
        Nat.add_mul_div_right _ _ (show 0 < PAGE_SIZE by decide)
      rw [← hpage]
      refine hi.above _ (by omega) ?_
      simp only [PAGE_SIZE] at *
      omega
    obtain ⟨haround, hgrew, hshort⟩ := grow_spec n hi.space hi.aligned (by omega) (by omega) hnone
    have hfits : Fits h (.brk unew ret) ↔
        n + tablesFor (present h.sys.ram.mem h.sys.root) (pages h.brk n)
          ≤ h.sys.ram.free.length := by
      rw [Fits, hrange, pages_length]
      exact ⟨fun hf => hf hne hin.1 hin.2 hgt, fun hf _ _ _ _ => hf⟩
    simp only [if_pos hgt, hrange]
    rw [hfits, ← hwant]
    rw [← hwant] at hlim
    refine ⟨⟨fun hobeys => ?_, fun hf => (grow_obeys hi hlim haround (hgrew hf)).2⟩,
      fun hf => (grow_obeys hi hlim haround (hgrew hf)).1⟩
    by_contra hc
    obtain ⟨i, hin', hmissing⟩ := hshort (by omega)
    exact grow_violates hi hlim haround hin' hmissing hobeys
  · have hfits : Fits h (.brk unew ret) := fun _ _ _ hgt => by omega
    simp only [← heq, gt_iff_lt, Nat.lt_irrefl, if_false]
    exact ⟨iff_of_true (obeys_refl hi) hfits, fun _ => hi⟩
  · have hfits : Fits h (.brk unew ret) := fun _ _ _ hgt => by omega
    have hfloor : h.floor ≤ alignUp unew := by omega
    have hbal := hi.aligned
    have hn : alignUp unew + (h.brk / PAGE_SIZE - alignUp unew / PAGE_SIZE) * PAGE_SIZE = h.brk := by
      simp only [PAGE_SIZE] at *
      omega
    simp only [if_neg (show ¬ alignUp unew > h.brk by omega), if_pos hlt, pagesFrom_eq hal hbal]
    obtain ⟨hinv, hobeys⟩ := shrink_obeys hi hal hfloor hn
    exact ⟨iff_of_true hobeys hfits, fun _ => hinv⟩

end

/-! ## Runs -/

lemma heapInv_other {h h' : Heap} (hi : HeapInv h) (hstep : Step h .other h') : HeapInv h' := by
  obtain ⟨⟨ram', root', held', maps'⟩, floor', brk'⟩ := h'
  obtain ⟨hmem, hfree, hpages, hroot, hheld, hmaps, hfloor, hbrk⟩ := hstep
  subst hroot hheld hmaps hfloor hbrk
  exact { hi with space := hi.space.congr hmem hfree hpages }

/-- The runs of `sys_brk` in which every growth fits are the runs in which every call obeys its
law. -/
theorem brk_lawful_iff_fits (h0 : Heap) (hi : HeapInv h0) (acts : List Act) (h : Heap) :
    Run (Guarded Fits Step) h0 acts h ↔
      Run (fun h a h' => Step h a h' ∧ Lawful h a h') h0 acts h := by
  refine Run.guarded_iff (I := HeapInv) (fun h a h' hi hstep hlaw => ?_)
    (fun h a h' hi hstep => ?_) hi
  · cases a with
    | brk unew ret =>
      obtain ⟨hiff, hkeep⟩ := sysBrk_spec hi unew ret
      have hcall : (h', ret) = sysBrk h unew := hstep
      rw [← hcall] at hiff hkeep
      exact hkeep (hiff.mp hlaw)
    | other => exact heapInv_other hi hstep
  · cases a with
    | brk unew ret =>
      obtain ⟨hiff, -⟩ := sysBrk_spec hi unew ret
      have hcall : (h', ret) = sysBrk h unew := hstep
      rw [← hcall] at hiff
      exact hiff
    | other => exact iff_of_true trivial trivial

/-- A process whose image ends at `brk`, with nothing mapped behind it. -/
lemma heapInv_fresh {s : Sys} {brk : ℕ} (hs : Space s) (hlow : 2 ^ 39 ≤ brk)
    (hhigh : brk ≤ Uaccess.USER_VA_LIMIT) (hal : brk % PAGE_SIZE = 0)
    (hnone : ∀ va, brk ≤ va → va < PH14_BRK_LIMIT → s.maps (va / PAGE_SIZE) = none) :
    HeapInv ⟨s, brk, brk⟩ :=
  ⟨hs, hlow, hal, le_rfl, hhigh, hal, fun _ hlo hva => absurd hva (Nat.not_lt.mpr hlo), hnone,
    fun _ hlo hva => absurd hva (Nat.not_lt.mpr hlo)⟩

/-- A process with an empty space whose root came from `n` free frames in a row. -/
def emptyHeap (n : ℕ) : Heap := ⟨emptySpace n, 2 ^ 40, 2 ^ 40⟩

lemma heapInv_emptyHeap {n : ℕ} (hpos : 0 < n) (hn : n ≤ 65536) : HeapInv (emptyHeap n) :=
  heapInv_fresh (space_emptySpace hpos hn) (by decide) (by decide) (by decide) fun _ _ _ => rfl

/-- A growth by a page that takes all the frames there are. -/
theorem brk_lawful_one_page :
    Run (fun h a h' => Step h a h' ∧ Lawful h a h') (emptyHeap 5)
      [.brk (2 ^ 40 + 5) (2 ^ 40 + 4096)] (sysBrk (emptyHeap 5) (2 ^ 40 + 5)).1 := by
  refine (brk_lawful_iff_fits _ (heapInv_emptyHeap (by decide) (by decide)) _ _).mp
    (Run.single ⟨fun _ _ _ _ => ?_, ?_⟩)
  · decide
  · rfl

/-- The tables do not fit any more, but the break is stored. -/
theorem brk_stored_after_partial_growth :
    ¬ ∀ h0 acts h, HeapInv h0 → Run Step h0 acts h → ∀ a h', Step h a h' → Lawful h a h' := by
  intro hall
  have hi := heapInv_emptyHeap (n := 4) (by decide) (by decide)
  have hstep : Step (emptyHeap 4) (.brk (2 ^ 40 + 5) (2 ^ 40 + 4096))
      (sysBrk (emptyHeap 4) (2 ^ 40 + 5)).1 := rfl
  have hlaw := hall _ [] _ hi .nil _ _ hstep
  have hfits := (sysBrk_spec hi (2 ^ 40 + 5) (2 ^ 40 + 4096)).1.mp hlaw
  have hroom := hfits (by decide) (by decide) (by decide) (by decide)
  revert hroom
  decide

end MobilePhoneOs.Brk
