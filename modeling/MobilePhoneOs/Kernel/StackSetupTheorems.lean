import MobilePhoneOs.Kernel.StackSetup
import MobilePhoneOs.Kernel.UaccessTheorems
import MobilePhoneOs.Mm.SpaceTheorems

/-!
# The stack is laid out exactly when the vectors spare the strings

A copy-out to pages of one's own is a copy in the user's view of them. The strings make one
block in that view and the vectors another; the area of the vectors is one word short, so with
an even number of strings its last word lies on the lowest string.
-/

namespace MobilePhoneOs

open List (getD_append getD_append_right getD_cons_succ length_append length_cons length_nil)
namespace StackSetup

open Mm Mm.Vmm

/-! ## Writing to pages of one's own -/

/-- The user may write from `lo` on and below `hi`, and every page there has a frame of its
own. -/
structure Window (s : Sys) (lo hi : ℕ) : Prop where
  low : 2 ^ 39 ≤ lo
  high : hi < Uaccess.USER_VA_LIMIT
  mapped : ∀ va, lo ≤ va → va < hi → ∃ m, s.maps (va / PAGE_SIZE) = some m ∧
    shownFlags m.2 &&& VM_USER ≠ 0 ∧ shownFlags m.2 &&& VM_WRITE ≠ 0
  own : ∀ va va', lo ≤ va → va < hi → lo ≤ va' → va' < hi → ∀ m m',
    s.maps (va / PAGE_SIZE) = some m → s.maps (va' / PAGE_SIZE) = some m' → m.1 = m'.1 →
      va / PAGE_SIZE = va' / PAGE_SIZE

/-- The space after the `n` bytes `src` went to `p`, as the user sees it from `lo` to `hi`. -/
structure Wrote (s s' : Sys) (lo hi p n : ℕ) (src : ℕ → ℕ) : Prop where
  space : Space s'
  root : s'.root = s.root
  held : s'.held = s.held
  maps : s'.maps = s.maps
  free : s'.ram.free = s.ram.free
  bytes : ∀ va, lo ≤ va → va < hi →
    s'.byte va = Mem.copy s.byte p n (fun i => some (src i)) va

section

variable {s s' : Sys} {lo hi : ℕ}

lemma Window.user (hw : Window s lo hi) {va : ℕ} (hlo : lo ≤ va) (hhi : va < hi) : UserVa va := by
  have hlow := hw.low
  have hhigh := hw.high
  have hlim : Uaccess.USER_VA_LIMIT < 2 ^ 48 := by decide
  exact ⟨by omega, by omega⟩

lemma Window.congr (hw : Window s lo hi) (hmaps : s'.maps = s.maps) : Window s' lo hi := by
  refine ⟨hw.low, hw.high, ?_, ?_⟩
  · rw [hmaps]
    exact hw.mapped
  · rw [hmaps]
    exact hw.own

/-- Where a user byte lies. -/
lemma translate_eq (hs : Space s) {va : ℕ} (hva : UserVa va) {m : ℕ × ℕ}
    (hm : s.maps (va / PAGE_SIZE) = some m) :
    Uaccess.translate s.ram.mem s.root va = m.1 + va % PAGE_SIZE ∧
      alignDown (Uaccess.translate s.ram.mem s.root va) = m.1 := by
  have hprobe := hs.probe hva
  rw [expected, hm, Sys.probe] at hprobe
  have hval : Uaccess.translate s.ram.mem s.root va = m.1 + va % PAGE_SIZE := by
    rw [Uaccess.translate, hprobe]
    rfl
  have hlt : va % PAGE_SIZE < PAGE_SIZE := Nat.mod_lt _ (by decide)
  refine ⟨hval, ?_⟩
  rw [hval]
  exact alignDown_page (hs.pages _ _ hm).1.aligned (by omega) (by omega)

lemma Window.userByte (hs : Space s) (hw : Window s lo hi) {va : ℕ} (hlo : lo ≤ va)
    (hhi : va < hi) : Uaccess.UserByte s.ram.mem s.root true va := by
  obtain ⟨m, hm, huser, hwrite⟩ := hw.mapped va hlo hhi
  have hprobe := hs.probe (hw.user hlo hhi)
  rw [expected, hm, Sys.probe] at hprobe
  exact ⟨_, _, hprobe, huser, fun _ => hwrite⟩

/-- Two user bytes of a window lie apart. -/
lemma Window.translate_inj (hs : Space s) (hw : Window s lo hi) {va va' : ℕ} (hlo : lo ≤ va)
    (hhi : va < hi) (hlo' : lo ≤ va') (hhi' : va' < hi)
    (h : Uaccess.translate s.ram.mem s.root va = Uaccess.translate s.ram.mem s.root va') :
    va = va' := by
  obtain ⟨m, hm, -, -⟩ := hw.mapped va hlo hhi
  obtain ⟨m', hm', -, -⟩ := hw.mapped va' hlo' hhi'
  obtain ⟨hval, hdown⟩ := translate_eq hs (hw.user hlo hhi) hm
  obtain ⟨hval', hdown'⟩ := translate_eq hs (hw.user hlo' hhi') hm'
  have hframe : m.1 = m'.1 := by rw [← hdown, ← hdown', h]
  have hpage := hw.own va va' hlo hhi hlo' hhi' m m' hm hm' hframe
  have hoff : va % PAGE_SIZE = va' % PAGE_SIZE := by omega
  rw [← Nat.div_add_mod va PAGE_SIZE, ← Nat.div_add_mod va' PAGE_SIZE, hpage, hoff]

/-- A copy-out to a window. -/
lemma Window.copyOut (hs : Space s) (hw : Window s lo hi) {p n : ℕ} (hp : lo ≤ p)
    (hn : p + n ≤ hi) (junk : ℕ) (src : ℕ → ℕ) :
    (copyOut junk s p src n).2 = 0 ∧ Wrote s (copyOut junk s p src n).1 lo hi p n src := by
  obtain ⟨kids, hinv⟩ := hs.tables
  have hhigh := hw.high
  have hlim : Uaccess.USER_VA_LIMIT < 2 ^ 48 := by decide
  have hrange : Uaccess.UserRange s.ram.mem s.root true p n :=
    ⟨by omega, by omega, fun i hi' => hw.userByte hs (by omega) (by omega)⟩
  have hapart : Uaccess.ApartOn (fun va => lo ≤ va ∧ va < hi) s.ram.mem s.root :=
    Uaccess.apartOn_of_inv hinv (fun va hva _ => hw.user hva.1 hva.2)
      fun page m hm => (hs.pages page m hm).2.1
  obtain ⟨hres, hmem, -, -⟩ := @Uaccess.copyOut_eq _ _ _ _ _ junk src (by omega) (by omega) hapart
    hrange fun i hi' => ⟨by omega, by omega⟩
  rw [StackSetup.copyOut]
  generalize Uaccess.copyOut s.ram.mem s.root junk p src n = out at hres hmem ⊢
  obtain ⟨e, mem, log⟩ := out
  simp only at hres hmem ⊢
  -- the bytes written lie in no table
  have hkeep : ∀ a, alignDown a ∈ s.held → mem a = s.ram.mem a := by
    intro a ha
    rw [hmem]
    apply Mem.scatter_of_ne
    rintro i hi' rfl
    obtain ⟨m, hm, -, -⟩ := hw.mapped (p + i) (by omega) (by omega)
    rw [(translate_eq hs (hw.user (by omega) (by omega)) hm).2] at ha
    exact (hs.pages _ _ hm).2.1 ha
  have hspace : Space { s with ram := ⟨mem, s.ram.free⟩ } :=
    hs.congr hkeep hs.freeOk fun page m hm => (hs.pages page m hm).2.2
  refine ⟨hres, hspace, rfl, rfl, rfl, rfl, fun va hlo hhi => ?_⟩
  obtain ⟨m, hm, -, -⟩ := hw.mapped va hlo hhi
  have huser := hw.user hlo hhi
  have hcell := (translate_eq hs huser hm).1
  rw [Sys.byte, hspace.probe huser, expected, hm]
  simp only [Option.map_some]
  rw [← hcell, hmem]
  by_cases hin : p ≤ va ∧ va < p + n
  · obtain ⟨i, rfl⟩ := Nat.exists_eq_add_of_le hin.1
    rw [Mem.copy_add (by omega)]
    refine congrArg some (Mem.scatter_self (i := i) (by omega) fun j hj heq => ?_)
    have hva := hw.translate_inj hs (by omega) (by omega) hlo hhi heq
    omega
  · rw [Mem.copy, if_neg hin, hs.byte huser hm, ← hcell]
    refine congrArg some (Mem.scatter_of_ne fun i hi' heq => ?_)
    have hva := hw.translate_inj hs (by omega) (by omega) hlo hhi heq
    omega

end

/-! ## The reservation -/

/-- The whole window is mapped, or it does not fit. -/
lemma mapStack_spec (n lo : ℕ) {s : Sys} (hs : Space s) (hlo : lo % PAGE_SIZE = 0)
    (hlow : 2 ^ 39 ≤ lo) (hhigh : lo + n * PAGE_SIZE ≤ 2 ^ 48) :
    ((mapStack s (pages lo n)).2 = 0 ∧ (∀ i < n, s.maps (lo / PAGE_SIZE + i) = none) ∧
        n + tablesFor (present s.ram.mem s.root) (pages lo n) ≤ s.ram.free.length ∧
        Around s (mapStack s (pages lo n)).1 lo n ∧
        Grew s (mapStack s (pages lo n)).1 lo n stackFlags fun _ _ => True) ∨
      ((mapStack s (pages lo n)).2 = -ENOMEM ∧ ¬ ((∀ i < n, s.maps (lo / PAGE_SIZE + i) = none) ∧
        n + tablesFor (present s.ram.mem s.root) (pages lo n) ≤ s.ram.free.length)) := by
  induction n generalizing s lo with
  | zero =>
    refine .inl ⟨rfl, ?_, ?_, ⟨hs, rfl, fun _ _ => rfl, fun _ _ _ => rfl⟩, ?_, ?_, rfl⟩
    · exact fun i hi => absurd hi (Nat.not_lt_zero i)
    · exact Nat.zero_le _
    · exact fun i hi => absurd hi (Nat.not_lt_zero i)
    · exact fun i hi => absurd hi (Nat.not_lt_zero i)
  | succ n ih =>
    have huser : UserVa lo := ⟨hlow, by simp only [PAGE_SIZE] at *; omega⟩
    have hpage := page_succ lo
    rw [pages_succ, mapStack]
    cases hfree : s.ram.free with
    | nil =>
      rw [alloc_nil hfree]
      refine .inr ⟨rfl, fun hc => ?_⟩
      have hroom := hc.2
      rw [length_nil] at hroom
      omega
    | cons pa fs =>
      have hpa : IsTable pa := hs.free_isTable (by rw [hfree]; exact List.mem_cons_self)
      have hpos := hpa.pos
      have halloc : s.alloc.2 = pa := by rw [alloc_cons hfree]
      simp only [halloc, if_neg (show ¬ pa = 0 by omega)]
      rw [length_cons]
      rcases hs.enter hfree stackFlags huser hlo with ⟨hres, hin⟩ | ⟨hres, hout⟩
      · rw [if_neg (not_not.mpr hres)]
        have hlater := hin.later (pages (lo + PAGE_SIZE) n) fun va hva => by
          obtain ⟨i, hi, rfl⟩ := mem_pages.mp hva
          exact ⟨by omega, by simp only [PAGE_SIZE] at *; omega⟩
        have hroom := hin.room
        generalize (s.alloc.1.mapAt lo pa stackFlags).1 = s3 at hin hlater ⊢
        have hleft : s3.ram.free.length = fs.length
            - tablesFor (present s.ram.mem s.root) [lo] := by
          rw [hin.free, List.length_drop]
        have hmaps : ∀ i, s3.maps ((lo + PAGE_SIZE) / PAGE_SIZE + i)
            = s.maps (lo / PAGE_SIZE + (i + 1)) := by
          intro i
          rw [hin.maps, hpage, Function.update_of_ne (by omega), Nat.add_assoc, Nat.add_comm 1 i]
        rcases @ih (lo + PAGE_SIZE) s3 hin.space (by simp only [PAGE_SIZE] at *; omega) (by omega)
          (by simp only [PAGE_SIZE] at *; omega) with ⟨he, hnone, hfit, ha, hg⟩ | ⟨he, hno⟩
        · refine .inl ⟨he, fun i hi => ?_, by omega, .cons hin hfree ha,
            .cons hin hfree (fun _ _ _ _ h => h) trivial ha hg⟩
          cases i with
          | zero => exact hin.empty
          | succ i =>
            rw [← hmaps]
            exact hnone i (by omega)
        · refine .inr ⟨he, fun hc => hno ⟨fun i hi => ?_, by omega⟩⟩
          rw [hmaps]
          exact hc.1 (i + 1) (by omega)
      · rw [if_pos hres]
        refine .inr ⟨rfl, fun hc => ?_⟩
        have hfirst := hc.1 0 (Nat.succ_pos n)
        have hroom := hc.2
        rcases hout.why with ⟨hsome, -, -⟩ | ⟨-, hshort, -, -⟩
        · exact hsome hfirst
        · rw [tablesFor_cons] at hroom
          omega

/-! ## The strings -/

lemma strBytes_cons (str : List ℕ) (strs : List (List ℕ)) :
    strBytes (str :: strs) = str.length + 1 + strBytes strs := rfl

lemma strBytes_append (xs ys : List (List ℕ)) :
    strBytes (xs ++ ys) = strBytes xs + strBytes ys := by
  rw [strBytes, List.map_append, List.sum_append]
  rfl

lemma image_cons (str : List ℕ) (strs : List (List ℕ)) :
    image (str :: strs) = image strs ++ (str ++ [0]) := by
  simp [image]

lemma image_append (xs ys : List (List ℕ)) : image (xs ++ ys) = image ys ++ image xs := by
  simp [image]

lemma image_length (strs : List (List ℕ)) : (image strs).length = strBytes strs := by
  induction strs with
  | nil => rfl
  | cons str strs ih =>
    rw [image_cons, length_append, ih, length_append, strBytes_cons]
    exact Nat.add_comm _ _

/-- The addresses of strings that are pushed from `top` on. -/
def addresses : ℕ → List (List ℕ) → List ℕ
  | _, [] => []
  | top, str :: strs => (top - (str.length + 1)) :: addresses (top - (str.length + 1)) strs

lemma addresses_length (top : ℕ) (strs : List (List ℕ)) :
    (addresses top strs).length = strs.length := by
  induction strs generalizing top with
  | nil => rfl
  | cons str strs ih => rw [addresses, length_cons, ih, length_cons]

variable {strs : List (List ℕ)}

/-- The addresses lie between the lowest one and the top, each with its string. -/
lemma addresses_inside (top : ℕ) {i : ℕ} (h : strBytes strs ≤ top)
    (hi : i < strs.length) :
    top - strBytes strs ≤ (addresses top strs).getD i 0 ∧
      (addresses top strs).getD i 0 + (strs.getD i []).length < top := by
  induction strs generalizing top i with
  | nil => exact absurd hi (Nat.not_lt_zero i)
  | cons str strs ih =>
    rw [strBytes_cons] at h ⊢
    rw [addresses]
    cases i with
    | zero =>
      simp only [List.getD_cons_zero]
      omega
    | succ i =>
      simp only [getD_cons_succ]
      have htail := @ih (top - (str.length + 1)) i (by omega) (Nat.lt_of_succ_lt_succ hi)
      omega

/-- The bytes of a string with its NUL. -/
lemma cstr_eq (str : List ℕ) (j : ℕ) : cstr str j = (str ++ [0]).getD j 0 := by
  rw [cstr]
  rcases Nat.lt_trichotomy j str.length with hj | rfl | hj
  · rw [getD_append _ _ _ _ hj]
  · rw [getD_append_right _ _ _ _ le_rfl, List.getD_eq_default _ _ le_rfl, Nat.sub_self]
    rfl
  · rw [List.getD_eq_default _ _ hj.le, List.getD_eq_default]
    rw [length_append, List.length_singleton]
    omega

/-- All strings are in place when the bytes from the lowest address on are the image. -/
lemma strings_iff {s : Sys} {top : ℕ} (h : strBytes strs ≤ top) :
    (∀ i < strs.length, HoldsString s ((addresses top strs).getD i 0) (strs.getD i [])) ↔
      ∀ j < strBytes strs, s.byte (top - strBytes strs + j) = some ((image strs).getD j 0) := by
  induction strs generalizing top with
  | nil =>
    refine iff_of_true (fun i hi => ?_) fun j hj => ?_
    · exact absurd hi (Nat.not_lt_zero i)
    · exact absurd hj (Nat.not_lt_zero j)
  | cons str strs ih =>
    rw [strBytes_cons] at h ⊢
    have hlen := image_length strs
    have hlow : top - (str.length + 1 + strBytes strs)
        = top - (str.length + 1) - strBytes strs := by omega
    rw [image_cons, addresses, hlow]
    have htail := @ih (top - (str.length + 1)) (by omega)
    constructor
    · intro hall j hj
      by_cases hin : j < strBytes strs
      · rw [getD_append _ _ _ _ (by omega)]
        exact htail.mp (fun i hi => hall (i + 1) (Nat.succ_lt_succ hi)) j hin
      · have hfirst := hall 0 (Nat.succ_pos _) (j - strBytes strs)
          (show j - strBytes strs ≤ str.length by omega)
        simp only [List.getD_cons_zero] at hfirst
        rw [getD_append_right _ _ _ _ (by omega), hlen, ← cstr_eq, ← hfirst]
        congr 1
        omega
    · intro hall i hi
      cases i with
      | zero =>
        intro j hj
        simp only [List.getD_cons_zero] at hj ⊢
        have hbyte := hall (strBytes strs + j) (by omega)
        rw [getD_append_right _ _ _ _ (by omega), hlen, Nat.add_sub_cancel_left,
          ← cstr_eq] at hbyte
        rw [← hbyte]
        congr 1
        omega
      | succ i =>
        refine htail.mpr (fun j hj => ?_) i (Nat.lt_of_succ_lt_succ hi)
        have hbyte := hall j (by omega)
        rwa [getD_append _ _ _ _ (by omega)] at hbyte

section

variable {s s1 s' : Sys} {lo hi : ℕ}

lemma wrote_zero (hs : Space s) (lo hi p : ℕ) (src : ℕ → ℕ) : Wrote s s lo hi p 0 src := by
  refine ⟨hs, rfl, rfl, rfl, rfl, fun va _ _ => ?_⟩
  rw [Mem.copy, if_neg (by omega)]

lemma Wrote.below {p m n : ℕ} {x y z : ℕ → ℕ} (h : Wrote s s1 lo hi (p + m) n y)
    (h' : Wrote s1 s' lo hi p m x) (hx : ∀ i < m, x i = z i) (hy : ∀ i < n, y i = z (m + i)) :
    Wrote s s' lo hi p (m + n) z := by
  refine ⟨h'.space, h'.root.trans h.root, h'.held.trans h.held, h'.maps.trans h.maps,
    h'.free.trans h.free, fun va hlo hhi => ?_⟩
  rw [h'.bytes va hlo hhi, ← Mem.copy_below (fun i hi => congrArg some (hx i hi))
    fun i hi => congrArg some (hy i hi)]
  rw [Mem.copy, Mem.copy]
  split
  · rfl
  · exact h.bytes va hlo hhi

/-- A write right behind another one. -/
lemma Wrote.append {p m n : ℕ} {x y z : ℕ → ℕ} (h : Wrote s s1 lo hi p m x)
    (h' : Wrote s1 s' lo hi (p + m) n y) (hx : ∀ i < m, x i = z i)
    (hy : ∀ i < n, y i = z (m + i)) : Wrote s s' lo hi p (m + n) z := by
  refine ⟨h'.space, h'.root.trans h.root, h'.held.trans h.held, h'.maps.trans h.maps,
    h'.free.trans h.free, fun va hlo hhi => ?_⟩
  rw [h'.bytes va hlo hhi, ← Mem.copy_append (fun i hi => congrArg some (hx i hi))
    fun i hi => congrArg some (hy i hi)]
  rw [Mem.copy, Mem.copy]
  split
  · rfl
  · exact h.bytes va hlo hhi

/-- Pushing strings writes their image below `top`. -/
lemma pushStrings_spec (junk : ℕ) (strs : List (List ℕ)) (top : ℕ) (hs : Space s)
    (hw : Window s lo hi) (htop : top ≤ hi) (hroom : lo + strBytes strs ≤ top) :
    ∃ s', pushStrings junk strs s top = (s', some (top - strBytes strs, addresses top strs)) ∧
      Wrote s s' lo hi (top - strBytes strs) (strBytes strs) fun j => (image strs).getD j 0 := by
  induction strs generalizing s top with
  | nil => exact ⟨s, rfl, wrote_zero hs lo hi _ _⟩
  | cons str strs ih =>
    rw [strBytes_cons] at hroom ⊢
    obtain ⟨hres, hfirst⟩ := hw.copyOut hs (p := top - (str.length + 1)) (n := str.length + 1)
      (by omega) (by omega) junk (cstr str)
    rw [pushStrings]
    generalize copyOut junk s (top - (str.length + 1)) (cstr str) (str.length + 1) = out
      at hres hfirst ⊢
    obtain ⟨s1, e⟩ := out
    simp only at hres hfirst ⊢
    obtain ⟨s', hpush, hrest⟩ := @ih s1 (top - (str.length + 1)) hfirst.space
      (hw.congr hfirst.maps) (by omega) (by omega)
    have hlow : top - (str.length + 1 + strBytes strs)
        = top - (str.length + 1) - strBytes strs := by omega
    have hlen := image_length strs
    simp only [hres, ne_eq, not_true_eq_false, if_false, hpush]
    refine ⟨s', ?_, ?_⟩
    · rw [hlow]
      rfl
    · rw [hlow, image_cons, Nat.add_comm (str.length + 1)]
      have hback : top - (str.length + 1) - strBytes strs + strBytes strs
          = top - (str.length + 1) := by omega
      rw [← hback] at hfirst
      refine hfirst.below hrest (fun i hi' => ?_) fun i hi' => ?_
      · rw [getD_append _ _ _ _ (by omega)]
      · rw [getD_append_right _ _ _ _ (by omega), hlen, Nat.add_sub_cancel_left, cstr_eq]

end

/-! ## The vectors -/

/-- Words in rows from `va` on. -/
def inRow : ℕ → List (List ℕ) → List (ℕ × List ℕ)
  | _, [] => []
  | va, ws :: rows => (va, ws) :: inRow (va + ws.length * 8) rows

lemma wordBytes_left {xs ys : List ℕ} {j : ℕ} (h : j < xs.length * 8) :
    wordBytes (xs ++ ys) j = wordBytes xs j := by
  rw [wordBytes, wordBytes, getD_append _ _ _ _ (by omega)]

lemma wordBytes_right (xs ys : List ℕ) (j : ℕ) :
    wordBytes (xs ++ ys) (xs.length * 8 + j) = wordBytes ys j := by
  have hdiv : (xs.length * 8 + j) / 8 = xs.length + j / 8 := by omega
  have hmod : (xs.length * 8 + j) % 8 = j % 8 := by omega
  rw [wordBytes, wordBytes, hdiv, hmod, getD_append_right _ _ _ _ (by omega),
    Nat.add_sub_cancel_left]

lemma copyWords_append {junk : ℕ} {xs ys : List (ℕ × List ℕ)} {s s' : Sys}
    (h : copyWords junk xs s = (s', 0)) :
    copyWords junk (xs ++ ys) s = copyWords junk ys s' := by
  induction xs generalizing s with
  | nil =>
    obtain ⟨rfl, -⟩ := Prod.mk.inj h
    rfl
  | cons x xs ih =>
    obtain ⟨va, ws⟩ := x
    rw [List.cons_append, copyWords]
    rw [copyWords] at h
    generalize copyOut junk s va (wordBytes ws) (ws.length * 8) = out at h ⊢
    obtain ⟨s1, e⟩ := out
    simp only at h ⊢
    by_cases he : e ≠ 0
    · rw [if_pos he] at h
      exact absurd (Prod.mk.inj h).2 he
    · rw [if_neg he] at h ⊢
      exact ih h

/-- Rows of words that follow each other are one write. -/
lemma copyWords_spec (junk : ℕ) (rows : List (List ℕ)) (va : ℕ) {s : Sys} {lo hi : ℕ} (hs : Space s)
    (hw : Window s lo hi) (hlo : lo ≤ va) (hhi : va + rows.flatten.length * 8 ≤ hi) :
    ∃ s', copyWords junk (inRow va rows) s = (s', 0) ∧
      Wrote s s' lo hi va (rows.flatten.length * 8) (wordBytes rows.flatten) := by
  induction rows generalizing s va with
  | nil => exact ⟨s, rfl, wrote_zero hs lo hi _ _⟩
  | cons ws rows ih =>
    rw [List.flatten_cons, length_append, Nat.add_mul] at hhi ⊢
    obtain ⟨hres, hfirst⟩ := hw.copyOut hs (p := va) (n := ws.length * 8) hlo (by omega) junk
      (wordBytes ws)
    rw [inRow, copyWords]
    generalize copyOut junk s va (wordBytes ws) (ws.length * 8) = out at hres hfirst ⊢
    obtain ⟨s1, e⟩ := out
    simp only at hres hfirst ⊢
    obtain ⟨s', hcopy, hrest⟩ := @ih (va + ws.length * 8) s1 hfirst.space (hw.congr hfirst.maps)
      (by omega) (by omega)
    rw [if_neg (not_not.mpr hres)]
    exact ⟨s', hcopy, hfirst.append hrest (fun i hi' => (wordBytes_left hi').symm)
      fun i _ => (wordBytes_right _ _ i).symm⟩

/-! ## What lies on the stack -/

/-- The words from the initial `sp` on, row by row. -/
def rows (argv envp : List (List ℕ)) : List (List ℕ) :=
  [[argv.length], addresses USER_STACK_TOP argv, [0],
    addresses (USER_STACK_TOP - strBytes argv) envp, [0], [6, PAGE_SIZE, 0, 0]]

lemma rows_length (argv envp : List (List ℕ)) :
    (rows argv envp).flatten.length = argv.length + envp.length + 7 := by
  simp only [rows, List.flatten_cons, List.flatten_nil, length_append, length_cons,
    length_nil, addresses_length]
  omega

/-- The low digits of a number make up its remainder. -/
lemma mod_pow_of_digits {v v' k : ℕ} (h : ∀ j < k, v / 256 ^ j % 256 = v' / 256 ^ j % 256) :
    v % 256 ^ k = v' % 256 ^ k := by
  induction k with
  | zero => rw [Nat.pow_zero, Nat.mod_one, Nat.mod_one]
  | succ k ih =>
    rw [Nat.mod_pow_succ, Nat.mod_pow_succ, ih fun j hj => h j (Nat.lt_succ_of_lt hj),
      h k (Nat.lt_succ_self k)]

/-- A word is known by its bytes. -/
lemma HoldsWord.unique {s : Sys} {va v v' : ℕ} (h : HoldsWord s va v) (h' : HoldsWord s va v')
    (hv : v < 2 ^ 64) (hv' : v' < 2 ^ 64) : v = v' := by
  have hmod : v % 256 ^ 8 = v' % 256 ^ 8 :=
    mod_pow_of_digits fun j hj => Option.some.inj ((h j hj).symm.trans (h' j hj))
  rwa [show 256 ^ 8 = 2 ^ 64 from rfl, Nat.mod_eq_of_lt hv, Nat.mod_eq_of_lt hv'] at hmod

/-- A vector points to its strings when these lie where they were pushed. -/
lemma pointers_iff {s : Sys} {vec top : ℕ} (lo : ℕ)
    (hword : ∀ i < strs.length, HoldsWord s (vec + 8 * i) ((addresses top strs).getD i 0))
    (hnull : HoldsWord s (vec + 8 * strs.length) 0) (hlo : lo + strBytes strs ≤ top)
    (htop : top ≤ USER_STACK_TOP) :
    (∃ ptrs, Pointers s vec lo strs ptrs) ↔
      ∀ i < strs.length, HoldsString s ((addresses top strs).getD i 0) (strs.getD i []) := by
  have hinside : ∀ i < strs.length, lo ≤ (addresses top strs).getD i 0 ∧
      (addresses top strs).getD i 0 + (strs.getD i []).length < USER_STACK_TOP := by
    intro i hi
    have hat := addresses_inside top (by omega) hi
    omega
  have hval : USER_STACK_TOP < 2 ^ 64 := by decide
  constructor
  · rintro ⟨ptrs, hp⟩ i hi
    have hptr := hp.inside i hi
    have hat := hinside i hi
    rw [(hword i hi).unique (hp.word i hi) (by omega) (by omega)]
    exact hp.string i hi
  · exact fun hall => ⟨_, addresses_length top strs, hword, hnull, hall, hinside⟩

/-- A stack whose words are in place is laid out when the bytes of the strings are too. -/
lemma layout_iff {s : Sys} {argv envp : List (List ℕ)} {base : ℕ} (h16 : base % 16 = 0)
    (hlow : USER_STACK_TOP - USER_STACK_SIZE ≤ base)
    (hroom : base + 8 * (argv.length + envp.length + 3) + strBytes (argv ++ envp)
      ≤ USER_STACK_TOP)
    (hwords : ∀ k < argv.length + envp.length + 7,
      HoldsWord s (base + 8 * k) ((rows argv envp).flatten.getD k 0)) :
    Layout s argv envp ⟨base, argv.length, base + 8, base + 8 + (argv.length + 1) * 8⟩ ↔
      ∀ j < strBytes (argv ++ envp),
        s.byte (USER_STACK_TOP - strBytes (argv ++ envp) + j)
          = some ((image (argv ++ envp)).getD j 0) := by
  rw [strBytes_append] at hroom ⊢
  have hlenA := addresses_length USER_STACK_TOP argv
  have hlenE := addresses_length (USER_STACK_TOP - strBytes argv) envp
  have hflat : (rows argv envp).flatten = argv.length :: (addresses USER_STACK_TOP argv ++
      (0 :: (addresses (USER_STACK_TOP - strBytes argv) envp ++ [0, 6, PAGE_SIZE, 0, 0]))) := by
    simp [rows]
  -- the words by their places in the vectors
  have hargc : HoldsWord s base argv.length := by
    have h := hwords 0 (by omega)
    rwa [hflat] at h
  have hargv : ∀ i < argv.length,
      HoldsWord s (base + 8 + 8 * i) ((addresses USER_STACK_TOP argv).getD i 0) := by
    intro i hi
    have h := hwords (i + 1) (by omega)
    rw [hflat, getD_cons_succ, getD_append _ _ _ _ (by omega)] at h
    rwa [show base + 8 + 8 * i = base + 8 * (i + 1) by omega]
  have hnullA : HoldsWord s (base + 8 + 8 * argv.length) 0 := by
    have h := hwords (argv.length + 1) (by omega)
    rw [hflat, getD_cons_succ, getD_append_right _ _ _ _ (by omega), hlenA,
      Nat.sub_self] at h
    rwa [show base + 8 + 8 * argv.length = base + 8 * (argv.length + 1) by omega]
  have henvp : ∀ i < envp.length, HoldsWord s (base + 8 + (argv.length + 1) * 8 + 8 * i)
      ((addresses (USER_STACK_TOP - strBytes argv) envp).getD i 0) := by
    intro i hi
    have h := hwords (argv.length + 1 + i + 1) (by omega)
    rw [hflat, getD_cons_succ, getD_append_right _ _ _ _ (by omega), hlenA,
      show argv.length + 1 + i - argv.length = i + 1 by omega, getD_cons_succ,
      getD_append _ _ _ _ (by omega)] at h
    rwa [show base + 8 + (argv.length + 1) * 8 + 8 * i
      = base + 8 * (argv.length + 1 + i + 1) by omega]
  have hnullE : HoldsWord s (base + 8 + (argv.length + 1) * 8 + 8 * envp.length) 0 := by
    have h := hwords (argv.length + 1 + envp.length + 1) (by omega)
    rw [hflat, getD_cons_succ, getD_append_right _ _ _ _ (by omega), hlenA,
      show argv.length + 1 + envp.length - argv.length = envp.length + 1 by omega,
      getD_cons_succ, getD_append_right _ _ _ _ (by omega), hlenE, Nat.sub_self] at h
    rwa [show base + 8 + (argv.length + 1) * 8 + 8 * envp.length
      = base + 8 * (argv.length + 1 + envp.length + 1) by omega]
  have hiffA := pointers_iff (base + 8 + (argv.length + 1) * 8 + 8 * (envp.length + 1))
    hargv hnullA (by omega) le_rfl
  have hiffE := pointers_iff (base + 8 + (argv.length + 1) * 8 + 8 * (envp.length + 1))
    henvp hnullE (by omega) (by omega)
  rw [strings_iff (by omega)] at hiffA hiffE
  have himage := image_append argv envp
  have hlen := image_length envp
  have hbelow : USER_STACK_TOP - strBytes argv - strBytes envp
      = USER_STACK_TOP - (strBytes argv + strBytes envp) := by omega
  rw [hbelow] at hiffE
  rw [himage]
  constructor
  · intro hl j hj
    by_cases hin : j < strBytes envp
    · rw [getD_append _ _ _ _ (by omega)]
      exact hiffE.mp hl.envp j hin
    · have hbyte := hiffA.mp hl.argv (j - strBytes envp) (by omega)
      rw [getD_append_right _ _ _ _ (by omega), hlen, ← hbyte]
      congr 1
      omega
  · intro hall
    refine ⟨h16, hlow, rfl, hargc, rfl, ?_, hiffA.mpr fun j hj => ?_, hiffE.mpr fun j hj => ?_⟩
    · show base + 8 + (argv.length + 1) * 8 = base + 8 + 8 * (argv.length + 1)
      omega
    · have hbyte := hall (strBytes envp + j) (by omega)
      rw [getD_append_right _ _ _ _ (by omega), hlen, Nat.add_sub_cancel_left] at hbyte
      rw [← hbyte]
      congr 1
      omega
    · have hbyte := hall j (by omega)
      rwa [getD_append _ _ _ _ (by omega)] at hbyte

/-! ## The call -/

lemma stackPages_eq : stackPages = pages (USER_STACK_TOP - USER_STACK_SIZE) 64 :=
  pagesFrom_eq (by decide) (by decide)

lemma room_iff {s : Sys} (hs : Space s) :
    Room s ↔ (∀ i < 64, s.maps ((USER_STACK_TOP - USER_STACK_SIZE) / PAGE_SIZE + i) = none) ∧
      64 + tablesFor (present s.ram.mem s.root) stackPages ≤ s.ram.free.length := by
  have hval : USER_STACK_TOP - USER_STACK_SIZE = 0x1fffffc0000 := by decide
  have hprobe : ∀ i < 64, s.probe (USER_STACK_TOP - USER_STACK_SIZE + i * PAGE_SIZE) = none ↔
      s.maps ((USER_STACK_TOP - USER_STACK_SIZE) / PAGE_SIZE + i) = none := by
    intro i hi
    have hpage : (USER_STACK_TOP - USER_STACK_SIZE + i * PAGE_SIZE) / PAGE_SIZE
        = (USER_STACK_TOP - USER_STACK_SIZE) / PAGE_SIZE + i :=
      Nat.add_mul_div_right _ _ (show 0 < PAGE_SIZE by decide)
    rw [hs.probe ⟨by rw [hval]; simp only [PAGE_SIZE]; omega,
      by rw [hval]; simp only [PAGE_SIZE]; omega⟩, expected, hpage, Option.map_eq_none_iff]
  rw [Room, stackPages_eq, pages_length]
  constructor
  · intro h
    exact ⟨fun i hi => (hprobe i hi).mp (h.1 _ (mem_pages.mpr ⟨i, hi, rfl⟩)), h.2⟩
  · intro h
    refine ⟨fun va hva => ?_, h.2⟩
    obtain ⟨i, hi, rfl⟩ := mem_pages.mp hva
    exact (hprobe i hi).mpr (h.1 i hi)

/-- The mapped reservation is a window, together with what the user could write above it. -/
lemma window_stack {s s1 : Sys} (hs : Space s) {hi : ℕ} (hlo : USER_STACK_TOP ≤ hi)
    (hhi : hi ≤ USER_STACK_TOP + PAGE_SIZE)
    (hover : ∀ va, USER_STACK_TOP ≤ va → va < hi → Uaccess.UserByte s.ram.mem s.root true va)
    (ha : Around s s1 (USER_STACK_TOP - USER_STACK_SIZE) 64)
    (hg : Grew s s1 (USER_STACK_TOP - USER_STACK_SIZE) 64 stackFlags fun _ _ => True) :
    Window s1 (USER_STACK_TOP - USER_STACK_SIZE) hi := by
  have htop : USER_STACK_TOP = 0x20000000000 := rfl
  have hlow : USER_STACK_TOP - USER_STACK_SIZE = 0x1fffffc0000 := by decide
  have hlim : Uaccess.USER_VA_LIMIT = 0x40000000000 := rfl
  have hpage : 0x1fffffc0000 / PAGE_SIZE = 0x1fffffc0 := by decide
  have hothers := ha.others
  have hown := hg.own
  have hpages := hg.pages
  rw [htop] at hlo hhi hover
  rw [hlow] at hothers hown hpages ⊢
  rw [hpage] at hothers hown hpages
  simp only [PAGE_SIZE] at hhi
  -- a page is one of the reservation, or the one above it that the user could write before
  have hstack : ∀ va, 0x1fffffc0000 ≤ va → va < 0x20000000000 →
      ∃ i < 64, va / PAGE_SIZE = 0x1fffffc0 + i := by
    intro va h h'
    exact ⟨va / PAGE_SIZE - 0x1fffffc0, by simp only [PAGE_SIZE]; omega,
      by simp only [PAGE_SIZE]; omega⟩
  have hold : ∀ va, 0x20000000000 ≤ va → s1.maps (va / PAGE_SIZE) = s.maps (va / PAGE_SIZE) := by
    intro va h
    exact hothers _ (.inr (by simp only [PAGE_SIZE]; omega))
  have huser : ∀ va, 0x20000000000 ≤ va → va < hi → UserVa va := fun va h h' =>
    ⟨by omega, by omega⟩
  have hfresh : ∀ i < 64, ∀ m, s1.maps (0x1fffffc0 + i) = some m → m.1 ∈ s.ram.free := by
    intro i hi m hm
    obtain ⟨pa, hmap, hfree, -⟩ := hpages i hi
    rw [hmap] at hm
    rw [← Option.some.inj hm]
    exact hfree
  refine ⟨by omega, by omega, fun va h h' => ?_, fun va va' h h' k k' m m' hm hm' heq => ?_⟩
  · by_cases hva : va < 0x20000000000
    · obtain ⟨i, hi, hat⟩ := hstack va h hva
      obtain ⟨pa, hmap, -, -⟩ := hpages i hi
      have hflags : shownFlags stackFlags &&& VM_USER ≠ 0 ∧
          shownFlags stackFlags &&& VM_WRITE ≠ 0 := by decide
      rw [← hat] at hmap
      exact ⟨_, hmap, hflags⟩
    · obtain ⟨pa, fl, hprobe, hu, hwr⟩ := hover va (by omega) h'
      have hexp := hs.probe (huser va (by omega) h')
      rw [Sys.probe, hprobe] at hexp
      obtain ⟨m, hm, heq⟩ := Option.map_eq_some_iff.mp hexp.symm
      obtain ⟨-, rfl⟩ := Prod.mk.inj heq
      exact ⟨m, (hold va (by omega)).trans hm, hu, hwr rfl⟩
  · by_cases hva : va < 0x20000000000
    · obtain ⟨i, hi, hat⟩ := hstack va h hva
      rw [hat] at hm
      by_cases hva' : va' < 0x20000000000
      · obtain ⟨i', hi', hat'⟩ := hstack va' k hva'
        rw [hat'] at hm'
        rw [hat, hat', hown i hi i' hi' m m' hm hm' heq.symm]
      · rw [hold va' (by omega)] at hm'
        exact absurd (heq ▸ hfresh i hi m hm) (hs.pages _ _ hm').2.2
    · by_cases hva' : va' < 0x20000000000
      · obtain ⟨i', hi', hat'⟩ := hstack va' k hva'
        rw [hat'] at hm'
        rw [hold va (by omega)] at hm
        exact absurd (heq.symm ▸ hfresh i' hi' m' hm') (hs.pages _ _ hm).2.2
      · simp only [PAGE_SIZE]
        omega

/-- The initial `sp`. -/
def spOf (argv envp : List (List ℕ)) : ℕ :=
  ((USER_STACK_TOP - strBytes (argv ++ envp)) / 16 * 16
    - (8 * (argv.length + 1 + envp.length + 1) + 4 * 8)) / 16 * 16

lemma userVa_top : UserVa USER_STACK_TOP := by
  have htop : USER_STACK_TOP = 2199023255552 := rfl
  exact ⟨by omega, by omega⟩

lemma spOf_nil : spOf [] [] = USER_STACK_TOP - 48 := by decide

/-- The area of the vectors is one word short: it ends at the aligned address below the strings
when their number is odd, and one word above it when it is even. -/
lemma spOf_spec {argv envp : List (List ℕ)} (hfit : total argv envp + 256 ≤ USER_STACK_SIZE) :
    spOf argv envp % 16 = 0 ∧ USER_STACK_TOP - USER_STACK_SIZE ≤ spOf argv envp ∧
      USER_STACK_TOP - USER_STACK_SIZE + strBytes (argv ++ envp) ≤ USER_STACK_TOP ∧
      spOf argv envp + 8 * (argv.length + envp.length + 7)
        = (USER_STACK_TOP - strBytes (argv ++ envp)) / 16 * 16
          + 8 * ((argv.length + envp.length + 1) % 2) := by
  have htop : USER_STACK_TOP = 2199023255552 := rfl
  have hsize : USER_STACK_SIZE = 262144 := rfl
  rw [total, hsize] at hfit
  rw [spOf, strBytes_append, htop, hsize]
  omega

lemma inRow_rows (base : ℕ) (argv envp : List (List ℕ)) :
    inRow base (rows argv envp) = [(base, [argv.length]),
      (base + 8, addresses USER_STACK_TOP argv), (base + 8 + argv.length * 8, [0]),
      (base + 8 + (argv.length + 1) * 8, addresses (USER_STACK_TOP - strBytes argv) envp),
      (base + 8 + (argv.length + 1) * 8 + envp.length * 8, [0]),
      (base + 8 + (argv.length + 1 + envp.length + 1) * 8, [6, PAGE_SIZE, 0, 0])] := by
  simp only [rows, inRow, addresses_length, List.length_singleton, List.cons.injEq, Prod.mk.injEq,
    and_true, true_and]
  omega

section

variable {s s1 : Sys} {argv envp : List (List ℕ)} {hi : ℕ}

/-- Both pushes together write one image. -/
lemma push_both (argv envp : List (List ℕ)) (junk : ℕ) (hs : Space s1)
    (hw : Window s1 (USER_STACK_TOP - USER_STACK_SIZE) hi) (hhi : USER_STACK_TOP ≤ hi)
    (hroom : USER_STACK_TOP - USER_STACK_SIZE + strBytes (argv ++ envp) ≤ USER_STACK_TOP) :
    ∃ s2 s3, pushStrings junk argv s1 USER_STACK_TOP
        = (s2, some (USER_STACK_TOP - strBytes argv, addresses USER_STACK_TOP argv)) ∧
      pushStrings junk envp s2 (USER_STACK_TOP - strBytes argv)
        = (s3, some (USER_STACK_TOP - strBytes (argv ++ envp),
          addresses (USER_STACK_TOP - strBytes argv) envp)) ∧
      Wrote s1 s3 (USER_STACK_TOP - USER_STACK_SIZE) hi
        (USER_STACK_TOP - strBytes (argv ++ envp)) (strBytes (argv ++ envp))
        fun j => (image (argv ++ envp)).getD j 0 := by
  rw [strBytes_append] at hroom ⊢
  obtain ⟨s2, hpush, hfirst⟩ := pushStrings_spec junk argv USER_STACK_TOP hs hw hhi (by omega)
  obtain ⟨s3, hpush', hrest⟩ := pushStrings_spec junk envp (USER_STACK_TOP - strBytes argv)
    hfirst.space (hw.congr hfirst.maps) (by omega) (by omega)
  have hback : USER_STACK_TOP - strBytes argv - strBytes envp + strBytes envp
      = USER_STACK_TOP - strBytes argv := by omega
  have hlen := image_length envp
  refine ⟨s2, s3, hpush, ?_, ?_⟩
  · rw [hpush', Nat.sub_sub]
  · rw [← Nat.sub_sub, image_append, Nat.add_comm (strBytes argv)]
    rw [← hback] at hfirst
    refine hfirst.below hrest (fun i hi' => ?_) fun i hi' => ?_
    · rw [getD_append _ _ _ _ (by omega)]
    · rw [getD_append_right _ _ _ _ (by omega), hlen, Nat.add_sub_cancel_left]

/-- A call whose reservation was mapped, up to the vectors. -/
lemma stackSetup_eq (junk : ℕ) (hargc : argv.length ≤ 8) (henvc : envp.length ≤ 4)
    (hfit : total argv envp + 256 ≤ USER_STACK_SIZE) {s2 s3 : Sys}
    (hmap : mapStack s stackPages = (s1, 0))
    (hpush : pushStrings junk argv s1 USER_STACK_TOP
      = (s2, some (USER_STACK_TOP - strBytes argv, addresses USER_STACK_TOP argv)))
    (hpush' : pushStrings junk envp s2 (USER_STACK_TOP - strBytes argv)
      = (s3, some (USER_STACK_TOP - strBytes (argv ++ envp),
        addresses (USER_STACK_TOP - strBytes argv) envp))) :
    stackSetup junk s argv envp
      = if (copyWords junk (inRow (spOf argv envp) (rows argv envp)) s3).2 ≠ 0 then
          ((copyWords junk (inRow (spOf argv envp) (rows argv envp)) s3).1,
            .error (-Uaccess.EFAULT))
        else ((copyWords junk (inRow (spOf argv envp) (rows argv envp)) s3).1,
          .ok ⟨spOf argv envp, argv.length, spOf argv envp + 8,
            spOf argv envp + 8 + (argv.length + 1) * 8⟩) := by
  have hbig : ¬ total argv envp + 256 > USER_STACK_SIZE := by omega
  rw [stackSetup, hmap, inRow_rows]
  simp only [ne_eq, not_true_eq_false, if_false, List.take_of_length_le hargc,
    List.take_of_length_le henvc, hbig, hpush, hpush']
  rfl

/-- The words after they have been written. -/
lemma words_hold {s3 s4 : Sys} {lo base : ℕ} {ws : List ℕ}
    (h : Wrote s3 s4 lo hi base (ws.length * 8) (wordBytes ws)) (hlo : lo ≤ base)
    (hhi : base + ws.length * 8 ≤ hi) {k : ℕ} (hk : k < ws.length) :
    HoldsWord s4 (base + 8 * k) (ws.getD k 0) := by
  intro j hj
  have hdiv : (8 * k + j) / 8 = k := by omega
  have hmod : (8 * k + j) % 8 = j := by omega
  rw [h.bytes _ (by omega) (by omega), Nat.add_assoc, Mem.copy_add (by omega), wordBytes, hdiv,
    hmod]

lemma rows_last (argv envp : List (List ℕ)) :
    (rows argv envp).flatten.getD (argv.length + envp.length + 6) 0 = 0 := by
  have hflat : (rows argv envp).flatten
      = (argv.length :: (addresses USER_STACK_TOP argv ++ (0 ::
        (addresses (USER_STACK_TOP - strBytes argv) envp ++ [0, 6, PAGE_SIZE, 0])))) ++ [0] := by
    simp [rows]
  rw [hflat, getD_append_right, List.getD_eq_getElem?_getD]
  · simp only [length_cons, length_append, addresses_length, length_nil]
    rw [show argv.length + envp.length + 6
      - (argv.length + (envp.length + (0 + 1 + 1 + 1 + 1) + 1) + 1) = 0 by omega]
    rfl
  · simp only [length_cons, length_append, addresses_length, length_nil]
    omega

/-- The strings stay whole when the last word spares them. -/
lemma strings_hold_iff {s3 s4 : Sys}
    (hfit : total argv envp + 256 ≤ USER_STACK_SIZE) (hhi : USER_STACK_TOP ≤ hi)
    (hstr : Wrote s1 s3 (USER_STACK_TOP - USER_STACK_SIZE) hi
      (USER_STACK_TOP - strBytes (argv ++ envp)) (strBytes (argv ++ envp))
      fun j => (image (argv ++ envp)).getD j 0)
    (hvec : Wrote s3 s4 (USER_STACK_TOP - USER_STACK_SIZE) hi (spOf argv envp)
      ((rows argv envp).flatten.length * 8) (wordBytes (rows argv envp).flatten)) :
    (∀ j < strBytes (argv ++ envp), s4.byte (USER_STACK_TOP - strBytes (argv ++ envp) + j)
        = some ((image (argv ++ envp)).getD j 0)) ↔
      (argv ++ envp).length % 2 = 1 ∨
        ∀ b ∈ (image (argv ++ envp)).take (exposed (argv ++ envp)), b = 0 := by
  obtain ⟨-, hlow, hroom, hend⟩ := spOf_spec hfit
  have hlast := rows_last argv envp
  have hlen := rows_length argv envp
  have himage := image_length (argv ++ envp)
  have hcount : (argv ++ envp).length = argv.length + envp.length := length_append
  have htop : USER_STACK_TOP = 2199023255552 := rfl
  rw [hlen] at hvec
  generalize argv ++ envp = strs at *
  generalize (rows argv envp).flatten = ws at *
  generalize spOf argv envp = base at *
  generalize USER_STACK_TOP - USER_STACK_SIZE = lo at *
  rw [htop] at hhi hroom hend hstr ⊢
  -- the bytes behind the vectors are those of the strings, the others are zero
  have hsafe : ∀ j < strBytes strs, base + (argv.length + envp.length + 7) * 8
      ≤ 2199023255552 - strBytes strs + j →
        s4.byte (2199023255552 - strBytes strs + j) = some ((image strs).getD j 0) := by
    intro j hj hge
    rw [hvec.bytes _ (by omega) (by omega), Mem.copy_of_ge hge, hstr.bytes _ (by omega) (by omega),
      Mem.copy_add hj]
  have hcovered : ∀ j < strBytes strs, 2199023255552 - strBytes strs + j
      < base + (argv.length + envp.length + 7) * 8 →
        s4.byte (2199023255552 - strBytes strs + j) = some 0 := by
    intro j hj hlt
    have hat : 2199023255552 - strBytes strs + j
        = base + (2199023255552 - strBytes strs + j - base) := by omega
    rw [hvec.bytes _ (by omega) (by omega), hat, Mem.copy_add (by omega), wordBytes,
      show (2199023255552 - strBytes strs + j - base) / 8 = argv.length + envp.length + 6 by omega,
      hlast, Nat.zero_div, Nat.zero_mod]
  have hexposed : exposed strs = 8 - (16 - strBytes strs % 16) % 16 := rfl
  constructor
  · intro hall
    by_cases hodd : strs.length % 2 = 1
    · exact .inl hodd
    · refine .inr fun b hb => ?_
      obtain ⟨j, hj, rfl⟩ := List.mem_take_iff_getElem.mp hb
      rw [himage] at hj
      have hbyte := hall j (by omega)
      rw [hcovered j (by omega) (by omega)] at hbyte
      rw [← List.getD_eq_getElem _ 0]
      exact (Option.some.inj hbyte).symm
  · intro hcase j hj
    by_cases hge : base + (argv.length + envp.length + 7) * 8 ≤ 2199023255552 - strBytes strs + j
    · exact hsafe j hj hge
    · rcases hcase with hodd | hzero
      · omega
      · rw [hcovered j hj (by omega), List.getD_eq_getElem _ 0 (by omega)]
        refine congrArg some (hzero _ ?_).symm
        exact List.mem_take_iff_getElem.mpr ⟨j, by omega, rfl⟩

/-- A call whose vectors the user can write everywhere. -/
lemma lawful_written (junk : ℕ) (hargc : argv.length ≤ 8) (henvc : envp.length ≤ 4)
    (hfit : total argv envp + 256 ≤ USER_STACK_SIZE) (hmap : mapStack s stackPages = (s1, 0))
    (hs : Space s1) (hw : Window s1 (USER_STACK_TOP - USER_STACK_SIZE) hi)
    (hhi : USER_STACK_TOP ≤ hi)
    (hend : spOf argv envp + 8 * (argv.length + envp.length + 7) ≤ hi) :
    Lawful argv envp (stackSetup junk s argv envp) ↔ (argv ++ envp).length % 2 = 1 ∨
      ∀ b ∈ (image (argv ++ envp)).take (exposed (argv ++ envp)), b = 0 := by
  obtain ⟨h16, hlow, hroom, hup⟩ := spOf_spec hfit
  have hlen := rows_length argv envp
  obtain ⟨s2, s3, hpush, hpush', hstr⟩ := push_both argv envp junk hs hw hhi hroom
  obtain ⟨s4, hcopy, hvec⟩ := copyWords_spec junk (rows argv envp) _ hstr.space (hw.congr hstr.maps)
    hlow (by omega)
  have heq := stackSetup_eq junk hargc henvc hfit hmap hpush hpush'
  rw [hcopy] at heq
  rw [heq, ← strings_hold_iff hfit hhi hstr hvec]
  apply layout_iff h16 hlow
  · omega
  · intro k hk
    exact words_hold hvec hlow (by omega) (by omega)

/-- Without any string the last word goes over the top. -/
lemma not_lawful_empty (junk : ℕ) (hmap : mapStack s stackPages = (s1, 0)) (hs : Space s1)
    (hw : Window s1 (USER_STACK_TOP - USER_STACK_SIZE) USER_STACK_TOP)
    (hover : ¬ Uaccess.UserByte s1.ram.mem s1.root true USER_STACK_TOP) :
    ¬ Lawful [] [] (stackSetup junk s [] []) := by
  have hfit : total [] [] + 256 ≤ USER_STACK_SIZE := by decide
  have hbase := spOf_nil
  have htop : USER_STACK_TOP = 2199023255552 := rfl
  have hsize : USER_STACK_SIZE = 262144 := rfl
  obtain ⟨s2, s3, hpush, hpush', hstr⟩ := push_both [] [] junk hs hw le_rfl
    (by decide)
  -- the first five rows go through, the auxiliary vector does not
  obtain ⟨s4, hcopy, hvec⟩ := copyWords_spec junk [[0], [], [0], [], [0]] (spOf [] []) hstr.space
    (hw.congr hstr.maps) (by rw [hbase, htop, hsize]; omega)
    (by rw [hbase, htop]; decide)
  have hmaps : s4.maps = s1.maps := hvec.maps.trans hstr.maps
  have huser := userVa_top
  have hprobe : s4.probe USER_STACK_TOP = s1.probe USER_STACK_TOP := by
    rw [hvec.space.probe huser, hs.probe huser, expected, expected, hmaps]
  have hfail : (copyOut junk s4 (spOf [] [] + 24) (wordBytes [6, PAGE_SIZE, 0, 0]) 32).2
      = -Uaccess.EFAULT := by
    rw [copyOut, Uaccess.copyOut_fail (by rw [hbase, htop]; decide) (by decide)]
    intro hrange
    have hbyte := hrange.2.2 24 (by omega)
    rw [hbase, htop] at hbyte
    rw [htop] at hover hprobe
    obtain ⟨pa, fl, hp, hrest⟩ := hbyte
    rw [Sys.probe, Sys.probe] at hprobe
    exact hover ⟨pa, fl, hprobe.symm.trans hp, hrest⟩
  have hall : (copyWords junk (inRow (spOf [] []) (rows [] [])) s3).2 = -Uaccess.EFAULT := by
    have hrows : inRow (spOf [] []) (rows [] [])
        = inRow (spOf [] []) [[0], [], [0], [], [0]]
          ++ [(spOf [] [] + 24, [6, PAGE_SIZE, 0, 0])] := by
      simp [rows, inRow, addresses, Nat.add_assoc]
    rw [hrows, copyWords_append hcopy, copyWords]
    have hne : ¬ -Uaccess.EFAULT = 0 := by decide
    simp only [length_cons, length_nil, Nat.reduceAdd, Nat.reduceMul, hfail, ne_eq, hne,
      not_false_eq_true, if_true]
  have heq := stackSetup_eq (s := s) junk (Nat.zero_le _) (Nat.zero_le _) hfit hmap hpush hpush'
  rw [hall, if_pos (by decide)] at heq
  rw [heq]
  show ¬ -Uaccess.EFAULT = -ENOMEM
  decide

/-- A call for which there is room. -/
lemma lawful_iff_spared (junk : ℕ) (hargc : argv.length ≤ 8) (henvc : envp.length ≤ 4)
    (hfit : total argv envp + 256 ≤ USER_STACK_SIZE) (hmap : mapStack s stackPages = (s1, 0))
    (hs : Space s) (ha : Around s s1 (USER_STACK_TOP - USER_STACK_SIZE) 64)
    (hg : Grew s s1 (USER_STACK_TOP - USER_STACK_SIZE) 64 stackFlags fun _ _ => True) :
    Lawful argv envp (stackSetup junk s argv envp) ↔ Spared s (argv ++ envp) := by
  have htop : USER_STACK_TOP = 2199023255552 := rfl
  obtain ⟨-, -, hstr, hend⟩ := spOf_spec hfit
  have hwin := window_stack hs le_rfl (Nat.le_add_right _ _)
    (fun va h h' => absurd h' (Nat.not_lt.mpr h)) ha hg
  by_cases hne : argv ++ envp = []
  · obtain ⟨rfl, rfl⟩ := List.append_eq_nil_iff.mp hne
    by_cases hover : Uaccess.UserByte s.ram.mem s.root true USER_STACK_TOP
    · -- the page above the top takes the last word
      have hwide := window_stack hs (Nat.le_add_right USER_STACK_TOP PAGE_SIZE) le_rfl
        (fun va h h' => (Uaccess.userByte_page (by
          rw [htop] at h h' ⊢
          simp only [PAGE_SIZE] at *
          omega)).mp hover) ha hg
      refine iff_of_true ?_ (.inr (.inr ⟨rfl, hover⟩))
      refine (lawful_written junk hargc henvc hfit hmap ha.space hwide (Nat.le_add_right _ _)
        ?_).mpr (.inr fun b hb => ?_)
      · rw [spOf_nil, htop]
        simp only [length_nil, PAGE_SIZE]
        omega
      · exact absurd (List.mem_of_mem_take hb) List.not_mem_nil
    · refine iff_of_false (not_lawful_empty junk hmap ha.space hwin fun hc => hover ?_) ?_
      · have huser := userVa_top
        have hmaps := ha.others (USER_STACK_TOP / PAGE_SIZE) (.inr (by decide))
        obtain ⟨pa, fl, hp, hrest⟩ := hc
        refine ⟨pa, fl, ?_, hrest⟩
        rw [← hp]
        show s.probe USER_STACK_TOP = s1.probe USER_STACK_TOP
        rw [hs.probe huser, ha.space.probe huser, expected, expected, hmaps]
      · rintro (h | ⟨h, -⟩ | ⟨-, h⟩)
        · exact absurd h (by decide)
        · exact h rfl
        · exact hover h
  · have hpos : 0 < strBytes (argv ++ envp) := by
      obtain ⟨str, strs, hcons⟩ := List.exists_cons_of_ne_nil hne
      rw [hcons, strBytes_cons]
      omega
    rw [lawful_written junk hargc henvc hfit hmap ha.space hwin le_rfl (by rw [htop] at *; omega)]
    constructor
    · rintro (h | h)
      · exact .inl h
      · exact .inr (.inl ⟨hne, h⟩)
    · rintro (h | ⟨-, h⟩ | ⟨h, -⟩)
      · exact .inl h
      · exact .inr h
      · exact absurd h hne

/-- The reservation is mapped when there is room for it. -/
lemma mapStack_room (hs : Space s) :
    (Room s ∧ ∃ s1, mapStack s stackPages = (s1, 0) ∧
        Around s s1 (USER_STACK_TOP - USER_STACK_SIZE) 64 ∧
        Grew s s1 (USER_STACK_TOP - USER_STACK_SIZE) 64 stackFlags fun _ _ => True) ∨
      (¬ Room s ∧ ∃ s1, mapStack s stackPages = (s1, -ENOMEM)) := by
  have hspec := mapStack_spec 64 (USER_STACK_TOP - USER_STACK_SIZE) hs (by decide)
    (by decide) (by decide)
  rw [← stackPages_eq, ← room_iff hs] at hspec
  rcases hspec with ⟨he, hnone, hroom, ha, hg⟩ | ⟨he, hno⟩
  · exact .inl ⟨(room_iff hs).mpr ⟨hnone, hroom⟩, _, by rw [← he], ha, hg⟩
  · exact .inr ⟨hno, _, by rw [← he]⟩

end

/-- A call is lawful when it is refused for want of memory, or when the area of the vectors,
which is one word short, ends below the strings or covers nothing of them but zeros. -/
theorem stackSetup_lawful_iff (junk : ℕ) (s : Sys) (hs : Space s) (argv envp : List (List ℕ))
    (hargc : argv.length ≤ 8) (henvc : envp.length ≤ 4) :
    Lawful argv envp (stackSetup junk s argv envp) ↔
      ¬ Room s ∨ total argv envp + 256 > USER_STACK_SIZE ∨ Spared s (argv ++ envp) := by
  rcases mapStack_room hs with ⟨hroom, s1, hmap, ha, hg⟩ | ⟨hno, s1, hmap⟩
  · by_cases hbig : total argv envp + 256 > USER_STACK_SIZE
    · refine iff_of_true ?_ (.inr (.inl hbig))
      rw [stackSetup, hmap]
      simp only [ne_eq, not_true_eq_false, if_false, List.take_of_length_le hargc,
        List.take_of_length_le henvc, hbig, if_true]
      rfl
    · rw [lawful_iff_spared junk hargc henvc (by omega) hmap hs ha hg]
      constructor
      · exact fun h => .inr (.inr h)
      · rintro (h | h | h)
        · exact absurd hroom h
        · exact absurd h hbig
        · exact h
  · refine iff_of_true ?_ (.inl hno)
    rw [stackSetup, hmap]
    rfl

theorem stackSetup_lawful_one_argument :
    Lawful [[104, 101, 108, 108, 111]] [] (stackSetup 0 (emptySpace 300)
      [[104, 101, 108, 108, 111]] []) :=
  (stackSetup_lawful_iff 0 (emptySpace 300) (space_emptySpace (by decide) (by decide)) _ []
    (by decide) (by decide)).mpr (.inr (.inr (.inl (by decide))))

/-- Every page needs three tables at most. -/
lemma tablesFor_le (there : List (Fin 512) → Bool) (vas : List ℕ) :
    tablesFor there vas ≤ 3 * vas.length := by
  induction vas generalizing there with
  | nil => exact Nat.zero_le _
  | cons va vas ih =>
    have hhead : ((steps va).filter fun p => !there p).length ≤ (steps va).length :=
      List.length_filter_le _ _
    have hlen : (steps va).length = 3 := rfl
    have htail := ih fun p => there p || decide (p ∈ steps va)
    rw [tablesFor, length_cons]
    omega

lemma room_emptySpace : Room (emptySpace 300) := by
  have hs : Space (emptySpace 300) := space_emptySpace (by decide) (by decide)
  have hlen := tablesFor_le (present (emptySpace 300).ram.mem (emptySpace 300).root) stackPages
  have hpages : stackPages.length = 64 := by
    rw [stackPages_eq, pages_length]
  have hfree : (emptySpace 300).ram.free.length = 299 := emptySpace_free 299
  exact (room_iff hs).mpr ⟨fun i hi => rfl, by omega⟩

/-- The two strings take 16 bytes, so the lower one lies at the aligned address below them, and
the last word of the auxiliary vector on it. -/
theorem stackSetup_overwrites_argument :
    ¬ ∀ (junk : ℕ) (s : Sys) (argv envp : List (List ℕ)), Space s → argv.length ≤ 8 →
      envp.length ≤ 4 → (∀ str ∈ argv ++ envp, str.length ≤ 47) →
        Lawful argv envp (stackSetup junk s argv envp) := by
  intro hall
  obtain ⟨s, hs, hroom⟩ : ∃ s, Space s ∧ Room s :=
    ⟨_, space_emptySpace (by decide) (by decide), room_emptySpace⟩
  have hlaw := hall 0 s [List.replicate 8 97, List.replicate 6 98] [] hs (by decide) (by decide)
    (by decide)
  rcases mapStack_room hs with ⟨-, s1, hmap, ha, hg⟩ | ⟨hno, -⟩
  · rw [lawful_iff_spared 0 (by decide) (by decide) (by decide) hmap hs ha hg] at hlaw
    rcases hlaw with h | ⟨-, h⟩ | ⟨h, -⟩
    · exact absurd h (by decide)
    · exact absurd (h 98 (by decide)) (by decide)
    · exact absurd h (by decide)
  · exact hno hroom

end StackSetup
end MobilePhoneOs
