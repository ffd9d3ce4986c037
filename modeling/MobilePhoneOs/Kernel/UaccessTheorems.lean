import MobilePhoneOs.Kernel.Uaccess
import MobilePhoneOs.Mm.VmmTheorems

/-!
# What the copies to and from user memory do

Inside a page a translation only adds the offset, so a round of a loop copies to the places
its bytes translate to. The check and the copy walk the same tables, since the copy out does
not write to them.
-/

namespace MobilePhoneOs.Uaccess

open Mm Mm.Vmm
open Option (getD_some map_eq_some_iff map_some some.injEq)

/-! ## Translation inside a page -/

lemma levelShift_le {lvl : ℕ} (h : lvl ≤ 3) : 12 ≤ levelShift lvl := by
  have hall : ∀ l : Fin 4, 12 ≤ levelShift l := by decide
  exact hall ⟨lvl, by omega⟩

variable {va : ℕ}

/-- The slots of a walk depend on the page only. -/
lemma index_page (lvl : ℕ) {va' : ℕ} (hlvl : lvl ≤ 3) (h : va / PAGE_SIZE = va' / PAGE_SIZE) :
    index lvl va = index lvl va' := by
  have hsplit : 2 ^ levelShift lvl = PAGE_SIZE * 2 ^ (levelShift lvl - 12) := by
    have h12 : PAGE_SIZE = 2 ^ 12 := rfl
    rw [h12, ← Nat.pow_add, Nat.add_sub_cancel' (levelShift_le hlvl)]
  rw [index_eq, index_eq, hsplit, ← Nat.div_div_eq_div_mul, ← Nat.div_div_eq_div_mul, h]

lemma page_of_alignDown (va : ℕ) : alignDown va / PAGE_SIZE = va / PAGE_SIZE := by
  simp only [alignDown, PAGE_SIZE]
  omega

/-- The address bits of a descriptor are those of a page. -/
lemma addr_aligned (d : ℕ) : (d &&& PT_ADDR_MASK) % PAGE_SIZE = 0 := by
  have h12 : PAGE_SIZE = 2 ^ 12 := rfl
  have hmask : PT_ADDR_MASK % 2 ^ 12 = 0 := by decide
  rw [h12, Nat.and_mod_two_pow, hmask, Nat.and_zero]

/-- An offset of a block is an offset of a page beside whole pages. -/
lemma block_offset {p s : ℕ} (hal : p % PAGE_SIZE = 0) (hs : 12 ≤ s) :
    p ||| (va &&& (2 ^ s - 1)) = (p ||| (alignDown va &&& (2 ^ s - 1))) + va % PAGE_SIZE := by
  have h12 : PAGE_SIZE = 2 ^ 12 := rfl
  rw [Nat.and_two_pow_sub_one_eq_mod, Nat.and_two_pow_sub_one_eq_mod]
  obtain ⟨t, rfl⟩ := Nat.exists_eq_add_of_le hs
  have hmod : va % 2 ^ (12 + t) = alignDown va % 2 ^ (12 + t) + va % PAGE_SIZE := by
    have hhi : alignDown va % 2 ^ (12 + t) = va / PAGE_SIZE % 2 ^ t * PAGE_SIZE := by
      rw [alignDown, Nat.pow_add, ← h12, Nat.mul_comm PAGE_SIZE, Nat.mul_mod_mul_right]
    rw [hhi, Nat.pow_add, ← h12, Nat.mod_mul, Nat.mul_comm PAGE_SIZE, Nat.add_comm]
  have hlow : alignDown va % 2 ^ (12 + t) % 2 ^ 12 = 0 := by
    rw [Nat.mod_mod_of_dvd _ (Nat.pow_dvd_pow 2 (by omega)), alignDown, h12]
    exact Nat.mul_mod_left _ _
  have hboth : (p ||| alignDown va % 2 ^ (12 + t)) % 2 ^ 12 = 0 := by
    rw [Nat.or_mod_two_pow, hlow, ← h12, hal, Nat.or_zero]
  have hlt : va % PAGE_SIZE < 2 ^ 12 := Nat.mod_lt _ (by decide)
  -- a number of whole pages and an offset do not overlap
  have hadd : ∀ x, x % 2 ^ 12 = 0 → x + va % PAGE_SIZE = x ||| va % PAGE_SIZE := by
    intro x hx
    obtain ⟨q, rfl⟩ := Nat.dvd_of_mod_eq_zero hx
    exact Nat.two_pow_add_eq_or_of_lt hlt q
  rw [hmod, hadd _ hlow, hadd _ hboth, Nat.or_assoc]

/-- A walk of probe answers for the page, and the offset is added. -/
lemma probeFrom_page (mem : Mem) (va k t : ℕ) (hk : k ≤ 3) :
    probeFrom mem va k t
        = (probeFrom mem (alignDown va) k t).map (fun m => (m.1 + va % PAGE_SIZE, m.2)) ∧
      ∀ m ∈ probeFrom mem (alignDown va) k t, m.1 % PAGE_SIZE = 0 := by
  induction k generalizing t with
  | zero =>
    have hidx := index_page 3 (by omega) (page_of_alignDown va)
    have hoff : alignDown va % PAGE_SIZE = 0 := Nat.mul_mod_left _ _
    simp only [probeFrom, hidx]
    split
    · simp
    · rw [page_or_offset va (addr_aligned _), page_or_offset _ (addr_aligned _), hoff]
      simp [addr_aligned]
  | succ k ih =>
    have hidx := index_page (3 - (k + 1)) (by omega) (page_of_alignDown va)
    have hshift : 12 ≤ levelShift (3 - (k + 1)) := levelShift_le (by omega)
    have hal := addr_aligned (mem (t + 8 * index (3 - (k + 1)) va))
    simp only [probeFrom, hidx, Nat.one_shiftLeft]
    split
    · simp
    split
    · rw [block_offset hal hshift]
      refine ⟨rfl, ?_⟩
      simp only [Option.mem_def, some.injEq, forall_eq']
      have h12 : PAGE_SIZE = 2 ^ 12 := rfl
      have hdown : alignDown va % 2 ^ levelShift (3 - (k + 1)) % PAGE_SIZE = 0 := by
        rw [h12, Nat.mod_mod_of_dvd _ (Nat.pow_dvd_pow 2 hshift), ← h12]
        exact Nat.mul_mod_left _ _
      rw [h12] at hal hdown ⊢
      rw [Nat.and_two_pow_sub_one_eq_mod, Nat.or_mod_two_pow, hal, hdown, Nat.or_zero]
    · exact ih _ (by omega)

lemma vmmProbe_page (mem : Mem) (root va : ℕ) :
    vmmProbe mem root va
      = (vmmProbe mem root (alignDown va)).map fun m => (m.1 + va % PAGE_SIZE, m.2) :=
  (probeFrom_page mem va 3 root le_rfl).1

variable {mem : Mem} {root : ℕ}

lemma vmmProbe_aligned {pa fl : ℕ}
    (h : vmmProbe mem root (alignDown va) = some (pa, fl)) : pa % PAGE_SIZE = 0 :=
  (probeFrom_page mem va 3 root le_rfl).2 _ h

variable {write : Bool}

/-- A byte is the user's when its page is. -/
lemma userByte_alignDown :
    UserByte mem root write (alignDown va) ↔ UserByte mem root write va := by
  rw [UserByte, UserByte, vmmProbe_page mem root va]
  constructor
  · rintro ⟨pa, fl, hprobe, huser, hwrite⟩
    exact ⟨_, fl, by rw [hprobe]; rfl, huser, hwrite⟩
  · rintro ⟨pa, fl, hprobe, huser, hwrite⟩
    obtain ⟨⟨pa', fl'⟩, hfound, heq⟩ := map_eq_some_iff.mp hprobe
    obtain ⟨-, rfl⟩ := Prod.mk.inj heq
    exact ⟨pa', fl', hfound, huser, hwrite⟩

lemma userByte_page {va' : ℕ}
    (h : va / PAGE_SIZE = va' / PAGE_SIZE) :
    UserByte mem root write va ↔ UserByte mem root write va' := by
  have hva : UserByte mem root write (alignDown va) ↔ UserByte mem root write va :=
    userByte_alignDown
  have hva' : UserByte mem root write (alignDown va') ↔ UserByte mem root write va' :=
    userByte_alignDown
  have hdown : alignDown va = alignDown va' := by rw [alignDown, alignDown, h]
  rw [← hva, ← hva', hdown]

variable {i : ℕ}

/-- Inside a page the translation adds. -/
lemma translate_add
    (hbyte : UserByte mem root write va) (hi : va % PAGE_SIZE + i < PAGE_SIZE) :
    translate mem root (va + i) = translate mem root va + i := by
  have hdown : alignDown (va + i) = alignDown va := by
    simp only [alignDown, PAGE_SIZE] at *
    omega
  have hmod : (va + i) % PAGE_SIZE = va % PAGE_SIZE + i := by
    simp only [PAGE_SIZE] at *
    omega
  obtain ⟨pa, fl, hprobe, -, -⟩ := userByte_alignDown.mpr hbyte
  rw [translate, translate, vmmProbe_page mem root (va + i), vmmProbe_page mem root va, hdown,
    hprobe, hmod]
  simp only [map_some, getD_some]
  omega

variable {junk : ℕ}

/-- A round copies from or to the place its first byte translates to. -/
lemma userSide_eq
    (hbyte : UserByte mem root write va) :
    userSide mem root junk va = translate mem root va := by
  obtain ⟨pa, fl, hprobe, -, -⟩ := userByte_alignDown.mpr hbyte
  have hal := vmmProbe_aligned hprobe
  have hoff : va &&& (PAGE_SIZE - 1) = va % PAGE_SIZE := Nat.and_two_pow_sub_one_eq_mod va 12
  rw [userSide, translate, vmmProbe_page mem root va, hprobe, hoff]
  simp only [map_some, getD_some, alignDown, PAGE_SIZE] at *
  omega

/-! ## The check -/

/-- A round takes what is left of the page, or of the range. -/
lemma chunk_eq (va len : ℕ) : chunk va len = min (PAGE_SIZE - va % PAGE_SIZE) len := by
  have hoff : va &&& (PAGE_SIZE - 1) = va % PAGE_SIZE := Nat.and_two_pow_sub_one_eq_mod va 12
  rw [chunk, hoff]
  split <;> omega

variable {len : ℕ}

lemma chunk_pos (va : ℕ) (h : len ≠ 0) : 0 < chunk va len := by
  have hlt : va % PAGE_SIZE < PAGE_SIZE := Nat.mod_lt _ (by decide)
  rw [chunk_eq]
  omega

lemma chunk_le (va len : ℕ) : chunk va len ≤ len := by
  rw [chunk_eq]
  exact Nat.min_le_right _ _

/-- The bytes of a round lie in one page. -/
lemma chunk_page (h : i < chunk va len) : va % PAGE_SIZE + i < PAGE_SIZE := by
  rw [chunk_eq] at h
  omega

lemma add64_eq {a b : ℕ} (h : a + b ≤ USER_VA_LIMIT) : add64 a b = a + b := by
  apply Nat.mod_eq_of_lt
  have hlim : USER_VA_LIMIT < 2 ^ 64 := by decide
  omega

/-- The range ends inside the user window. -/
lemma rangeOk_iff (hva : va < 2 ^ 64) (hlen : len < 2 ^ 64) :
    rangeOk va len = true ↔ va < USER_VA_LIMIT ∧ va + len ≤ USER_VA_LIMIT := by
  have hval : USER_VA_LIMIT = 4398046511104 := rfl
  have hlast : sub64 (add64 va len) 1 = ((va + len) % 2 ^ 64 + 2 ^ 64 - 1) % 2 ^ 64 := rfl
  simp only [rangeOk]
  split
  · simp only [Bool.false_eq_true, false_iff]
    omega
  split
  · simp only [true_iff]
    omega
  split
  · simp only [Bool.false_eq_true, false_iff]
    omega
  · rw [decide_eq_true_eq]
    omega

/-- The bytes of a range are those of its first round and those of the rest. -/
lemma forall_chunk {P : ℕ → Prop}
    (hpage : ∀ i < chunk va len, P (va + i) ↔ P va) (hlen : len ≠ 0) :
    (∀ i < len, P (va + i)) ↔
      P va ∧ ∀ i < len - chunk va len, P (va + chunk va len + i) := by
  constructor
  · intro h
    refine ⟨h 0 (by omega), fun i hi => ?_⟩
    rw [Nat.add_assoc]
    exact h _ (by omega)
  · rintro ⟨h0, hrest⟩ i hi
    by_cases hc : i < chunk va len
    · exact (hpage i hc).mpr h0
    · have := hrest (i - chunk va len) (by omega)
      rwa [Nat.add_assoc, Nat.add_sub_cancel' (by omega)] at this

lemma userByte_chunk (h : i < chunk va len) :
    UserByte mem root write (va + i) ↔ UserByte mem root write va := by
  have hpage := chunk_page h
  apply userByte_page
  simp only [PAGE_SIZE] at *
  omega

/-- The check passes when every byte of the range is the user's. -/
lemma checkLoop_iff (n : ℕ)
    (hrange : va + len ≤ USER_VA_LIMIT) (hn : len ≤ n) :
    checkLoop mem root write n va len = 0 ↔ ∀ i < len, UserByte mem root write (va + i) := by
  have hfault : ¬ -EFAULT = 0 := by decide
  induction n generalizing va len with
  | zero =>
    obtain rfl : len = 0 := by omega
    simp [checkLoop]
  | succ n ih =>
    rw [checkLoop]
    split
    · subst_vars
      simp
    rename_i hlen
    have hpos := chunk_pos va hlen
    have hle := chunk_le va len
    have hrest : checkLoop mem root write n (va + chunk va len) (len - chunk va len) = 0 ↔
        ∀ i < len - chunk va len, UserByte mem root write (va + chunk va len + i) :=
      ih (by omega) (by omega)
    have hpage : UserByte mem root write (alignDown va) ↔ UserByte mem root write va :=
      userByte_alignDown
    rw [forall_chunk (fun i hi => userByte_chunk hi) hlen, ← hrest, add64_eq (by omega), ← hpage]
    cases hprobe : vmmProbe mem root (alignDown va) with
    | none => simp [UserByte, hprobe, hfault]
    | some m =>
      obtain ⟨pa, fl⟩ := m
      simp only [UserByte, hprobe, some.injEq, Prod.mk.injEq]
      split
      · rename_i huser
        simp [huser, hfault]
      split
      · rename_i hwrite
        simp [hwrite, hfault]
      · rename_i huser hwrite
        have hyes : ∃ pa' fl', (pa = pa' ∧ fl = fl') ∧ fl' &&& VM_USER ≠ 0 ∧
            (write = true → fl' &&& VM_WRITE ≠ 0) :=
          ⟨pa, fl, ⟨rfl, rfl⟩, huser, fun hw hc => hwrite ⟨hw, hc⟩⟩
        exact (and_iff_right hyes).symm

lemma checks_iff (hva : va < 2 ^ 64)
    (hlen : len < 2 ^ 64) :
    (rangeOk va len = false ∨ checkRange mem root va len write ≠ 0)
      ↔ ¬ UserRange mem root write va len := by
  rw [UserRange, ← and_assoc, ← rangeOk_iff hva hlen]
  cases hok : rangeOk va len with
  | false => simp
  | true =>
    have hrange := ((rangeOk_iff hva hlen).mp hok).2
    simp only [checkRange, checkLoop_iff len hrange le_rfl, Bool.true_eq_false, false_or,
      true_and, ne_eq]

/-! ## The copies -/

/-- The places of a round in front of the places of the rest. -/
lemma touched_cons {tr : ℕ → ℕ} {a c : ℕ} {log : List (ℕ × ℕ)} (hc : c ≤ len)
    (hround : ∀ i < c, tr i = a + i)
    (hlog : touched log = (List.range (len - c)).map fun i => tr (c + i)) :
    touched ((a, c) :: log) = (List.range len).map tr := by
  obtain ⟨d, rfl⟩ := Nat.exists_eq_add_of_le hc
  rw [Nat.add_sub_cancel_left] at hlog
  rw [touched, List.flatMap_cons, ← touched, hlog, List.range_add, List.map_append, List.map_map]
  congr 1
  exact List.map_congr_left fun i hi => (hround i (List.mem_range.mp hi)).symm

/-- The places that the bytes of a round translate to. -/
lemma round_places (junk len : ℕ)
    (hbyte : UserByte mem root write va) :
    ∀ i < chunk va len, translate mem root (va + i) = userSide mem root junk va + i := by
  intro i hi
  rw [userSide_eq hbyte]
  exact translate_add hbyte (chunk_page hi)

variable {kdst : Mem}

/-- The loop of copy-in moves the translated bytes in order. -/
lemma copyInLoop_spec (n : ℕ) {pos : ℕ}
    (hrange : va + len ≤ USER_VA_LIMIT) (hn : len ≤ n)
    (hbytes : ∀ i < len, UserByte mem root false (va + i)) :
    (copyInLoop mem root junk n kdst pos va len).1
        = Mem.copy kdst pos len (fun i => mem (translate mem root (va + i))) ∧
      touched (copyInLoop mem root junk n kdst pos va len).2
        = (List.range len).map fun i => translate mem root (va + i) := by
  have hnone : ∀ b : Mem, b = Mem.copy b pos 0 fun i => mem (translate mem root (va + i)) := by
    intro b
    rw [Mem.copy_eq_scatter, Mem.scatter_zero]
  induction n generalizing kdst pos va len with
  | zero =>
    obtain rfl : len = 0 := by omega
    exact ⟨hnone _, rfl⟩
  | succ n ih =>
    rw [copyInLoop]
    split
    · subst_vars
      exact ⟨hnone _, rfl⟩
    rename_i hlen
    have hpos := chunk_pos va hlen
    have hle := chunk_le va len
    obtain ⟨hbyte, hrest⟩ := (forall_chunk (fun i hi => userByte_chunk hi) hlen).mp hbytes
    have hround := round_places junk len hbyte
    simp only [add64_eq (show va + chunk va len ≤ USER_VA_LIMIT by omega)]
    generalize hc : chunk va len = c at *
    obtain ⟨hbuf, hlog⟩ := @ih (va + c) (len - c)
      (Mem.copy kdst pos c fun i => mem (userSide mem root junk va + i)) (pos + c) (by omega) (by omega) hrest fun b => by
        rw [Mem.copy_eq_scatter, Mem.scatter_zero]
    refine ⟨?_, touched_cons hle hround ?_⟩
    · rw [hbuf]
      have hsum : len = c + (len - c) := by omega
      nth_rewrite 2 [hsum]
      refine Mem.copy_append (fun i hi => ?_) fun i _ => ?_
      · rw [hround i hi]
      · rw [Nat.add_assoc]
    · simp only [hlog, Nat.add_assoc]

/-- A walk depends on the words it reads. -/
lemma probeFrom_congr {mem' : Mem} (k : ℕ) {t : ℕ}
    (h : ∀ a ∈ walkedFrom mem va k t, mem' a = mem a) :
    probeFrom mem' va k t = probeFrom mem va k t := by
  induction k generalizing t with
  | zero =>
    have hslot := h (t + 8 * index 3 va) List.mem_cons_self
    rw [probeFrom, probeFrom, hslot]
  | succ k ih =>
    rw [walkedFrom] at h
    have hslot : mem' (t + 8 * index (3 - (k + 1)) va) = mem (t + 8 * index (3 - (k + 1)) va) := by
      apply h
      split <;> exact List.mem_cons_self
    rw [probeFrom, probeFrom, hslot]
    split
    · rfl
    split
    · rfl
    rename_i hv ht
    apply ih
    intro a ha
    apply h
    rw [if_neg (by tauto)]
    exact List.mem_cons_of_mem _ ha

/-- No page that the user may write at an address of `S` is a table that leads to one. -/
def ApartOn (S : ℕ → Prop) (mem : Mem) (root : ℕ) : Prop :=
  ∀ va va', S va → S va' → UserByte mem root true va → UserByte mem root true va' →
    ∀ a ∈ walkedFrom mem va' 3 root, alignDown a ≠ alignDown (translate mem root va)

/-- The tables that lead to the user's bytes at addresses of `S` are as they were. -/
def SameTables (S : ℕ → Prop) (mem mem' : Mem) (root : ℕ) : Prop :=
  ∀ va, S va → UserByte mem root true va → ∀ a ∈ walkedFrom mem va 3 root, mem' a = mem a

section

variable {S : ℕ → Prop} {mem mem' : Mem} {root va : ℕ} (h : SameTables S mem mem' root)
include h

lemma SameTables.probe (hva : S va) (hbyte : UserByte mem root true va) :
    vmmProbe mem' root va = vmmProbe mem root va :=
  probeFrom_congr 3 (h va hva hbyte)

/-- A round of copy-out does not write to the tables. -/
lemma SameTables.copy (hapart : ApartOn S mem root) (hva : S va)
    (hbyte : UserByte mem root true va) (junk len : ℕ) (src : ℕ → ℕ) :
    SameTables S mem (Mem.copy mem' (userSide mem root junk va) (chunk va len) src) root := by
  intro va' hva' hbyte' a ha
  rw [← h va' hva' hbyte' a ha]
  apply if_neg
  rintro ⟨hlo, hhi⟩
  have hne := hapart va va' hva hva' hbyte hbyte' a ha
  apply hne
  -- an address of the round lies in the page of its first byte
  obtain ⟨i, rfl⟩ := Nat.exists_eq_add_of_le hlo
  have hpage := chunk_page (show i < chunk va len by omega)
  rw [userSide_eq hbyte]
  obtain ⟨pa, fl, hprobe, -, -⟩ := userByte_alignDown.mpr hbyte
  have hal := vmmProbe_aligned hprobe
  rw [translate, vmmProbe_page mem root va, hprobe]
  simp only [map_some, getD_some, alignDown, PAGE_SIZE] at *
  omega

end

variable {S : ℕ → Prop}

/-- The loop of copy-out moves the bytes to their places in order. -/
lemma copyOutLoop_spec (junk : ℕ) (ksrc : ℕ → ℕ)
    (hapart : ApartOn S mem root) (n : ℕ) {mem' : Mem} (pos : ℕ)
    (hsame : SameTables S mem mem' root) (hrange : va + len ≤ USER_VA_LIMIT) (hn : len ≤ n)
    (hbytes : ∀ i < len, UserByte mem root true (va + i)) (hS : ∀ i < len, S (va + i)) :
    (copyOutLoop root junk ksrc n mem' pos va len).1
        = Mem.scatter mem' (fun i => translate mem root (va + i)) (fun i => ksrc (pos + i)) len ∧
      SameTables S mem (copyOutLoop root junk ksrc n mem' pos va len).1 root ∧
      touched (copyOutLoop root junk ksrc n mem' pos va len).2
        = (List.range len).map fun i => translate mem root (va + i) := by
  induction n generalizing mem' pos va len with
  | zero =>
    obtain rfl : len = 0 := by omega
    exact ⟨rfl, hsame, rfl⟩
  | succ n ih =>
    rw [copyOutLoop]
    split
    · subst_vars
      exact ⟨rfl, hsame, rfl⟩
    rename_i hlen
    have hpos := chunk_pos va hlen
    have hle := chunk_le va len
    have hva : S va := hS 0 (by omega)
    obtain ⟨hbyte, hrest⟩ := (forall_chunk (fun i hi => userByte_chunk hi) hlen).mp hbytes
    have hround := round_places junk len hbyte
    have hside : userSide mem' root junk va = userSide mem root junk va := by
      rw [userSide, userSide, hsame.probe hva hbyte]
    have hnext := hsame.copy hapart hva hbyte junk len fun i => ksrc (pos + i)
    simp only [hside, add64_eq (show va + chunk va len ≤ USER_VA_LIMIT by omega)]
    generalize hc : chunk va len = c at *
    obtain ⟨hmem, htab, hlog⟩ := ih (pos + c) hnext
      (show va + c + (len - c) ≤ USER_VA_LIMIT by omega) (by omega) hrest (fun i hi => by
        rw [Nat.add_assoc]
        exact hS (c + i) (by omega))
    refine ⟨?_, htab, touched_cons hle hround ?_⟩
    · rw [hmem, Mem.copy_eq_scatter]
      have hsum : len = c + (len - c) := by omega
      nth_rewrite 2 [hsum]
      rw [Mem.scatter_add, Mem.scatter_congr (n := c) (fun i hi => (hround i hi).symm)
        fun _ _ => rfl]
      simp only [Nat.add_assoc]
    · simp only [hlog, Nat.add_assoc]

lemma sameTables_refl (S : ℕ → Prop) (mem : Mem) (root : ℕ) : SameTables S mem mem root :=
  fun _ _ _ _ _ => rfl

/-! ## The calls -/

lemma copyIn_eq (hva : va < 2 ^ 64)
    (hlen : len < 2 ^ 64) (h : UserRange mem root false va len) :
    (copyIn mem root junk kdst va len).1 = 0 ∧
      (copyIn mem root junk kdst va len).2.1
        = Mem.copy kdst 0 len (fun i => mem (translate mem root (va + i))) ∧
      touched (copyIn mem root junk kdst va len).2.2
        = (List.range len).map fun i => translate mem root (va + i) := by
  have hpass := fun hc => (checks_iff hva hlen).mp hc h
  rw [copyIn, if_neg hpass]
  exact ⟨rfl, copyInLoop_spec len h.2.1 le_rfl h.2.2⟩

lemma copyOut_eq (junk : ℕ) {ksrc : ℕ → ℕ}
    (hva : va < 2 ^ 64) (hlen : len < 2 ^ 64) (hapart : ApartOn S mem root)
    (h : UserRange mem root true va len) (hS : ∀ i < len, S (va + i)) :
    (copyOut mem root junk va ksrc len).1 = 0 ∧
      (copyOut mem root junk va ksrc len).2.1 = writeBytes mem root va ksrc len ∧
      SameTables S mem (copyOut mem root junk va ksrc len).2.1 root ∧
      touched (copyOut mem root junk va ksrc len).2.2
        = (List.range len).map fun i => translate mem root (va + i) := by
  have hpass := fun hc => (checks_iff hva hlen).mp hc h
  obtain ⟨hmem, htab, hlog⟩ := copyOutLoop_spec junk ksrc hapart len 0
    (sameTables_refl S mem root) h.2.1 le_rfl h.2.2 hS
  rw [copyOut, if_neg hpass]
  refine ⟨rfl, ?_, htab, hlog⟩
  rw [hmem, writeBytes]
  simp only [Nat.zero_add]

lemma copyIn_fail (hva : va < 2 ^ 64)
    (hlen : len < 2 ^ 64) (h : ¬ UserRange mem root false va len) :
    copyIn mem root junk kdst va len = (-EFAULT, kdst, []) :=
  if_pos ((checks_iff hva hlen).mpr h)

lemma copyOut_fail {ksrc : ℕ → ℕ} (hva : va < 2 ^ 64)
    (hlen : len < 2 ^ 64) (h : ¬ UserRange mem root true va len) :
    copyOut mem root junk va ksrc len = (-EFAULT, mem, []) :=
  if_pos ((checks_iff hva hlen).mpr h)

/-- A call that can fail succeeds on exactly the ranges on which it does not. -/
lemma success_iff {res : ℤ} {P : Prop} (hyes : P → res = 0) (hno : ¬ P → res = -EFAULT) :
    res = 0 ↔ P := by
  refine ⟨fun h => ?_, hyes⟩
  by_contra hc
  rw [hno hc] at h
  exact absurd h (by decide)

/-- Copy-in and copy-out succeed on the user's ranges and no others. They then move the
translated bytes in order and touch nothing else; a call that fails touches nothing. -/
theorem uaccess_correct (mem : Mem) (root junk va len : ℕ) (kbuf : Mem) (hva : va < 2 ^ 64)
    (hlen : len < 2 ^ 64) (hapart : Apart mem root) :
    ((copyIn mem root junk kbuf va len).1 = 0 ↔ UserRange mem root false va len) ∧
      ((copyOut mem root junk va kbuf len).1 = 0 ↔ UserRange mem root true va len) ∧
      ((copyIn mem root junk kbuf va len).1 = 0 →
        (copyIn mem root junk kbuf va len).2.1
            = Mem.copy kbuf 0 len (fun i => mem (translate mem root (va + i))) ∧
          touched (copyIn mem root junk kbuf va len).2.2
            = (List.range len).map fun i => translate mem root (va + i)) ∧
      ((copyOut mem root junk va kbuf len).1 = 0 →
        (copyOut mem root junk va kbuf len).2.1 = writeBytes mem root va kbuf len ∧
          (∀ a, a ∉ touched (copyOut mem root junk va kbuf len).2.2 →
            (copyOut mem root junk va kbuf len).2.1 a = mem a) ∧
          touched (copyOut mem root junk va kbuf len).2.2
            = (List.range len).map fun i => translate mem root (va + i)) ∧
      ((copyIn mem root junk kbuf va len).1 ≠ 0 →
        copyIn mem root junk kbuf va len = (-EFAULT, kbuf, [])) ∧
      ((copyOut mem root junk va kbuf len).1 ≠ 0 →
        copyOut mem root junk va kbuf len = (-EFAULT, mem, [])) := by
  have hlow : UserRange mem root true va len → ∀ i < len, va + i < USER_VA_LIMIT := by
    intro h i hi
    have hend := h.2.1
    omega
  have hin : (copyIn mem root junk kbuf va len).1 = 0 ↔ UserRange mem root false va len :=
    success_iff (fun h => (copyIn_eq hva hlen h).1) fun h => by rw [copyIn_fail hva hlen h]
  have hout : (copyOut mem root junk va kbuf len).1 = 0 ↔ UserRange mem root true va len :=
    success_iff (fun h => (copyOut_eq junk hva hlen hapart h (hlow h)).1) fun h => by
      rw [copyOut_fail hva hlen h]
  refine ⟨hin, hout, fun h => (copyIn_eq hva hlen (hin.mp h)).2, fun h => ?_,
    fun h => copyIn_fail hva hlen fun hc => h (hin.mpr hc),
    fun h => copyOut_fail hva hlen fun hc => h (hout.mpr hc)⟩
  obtain ⟨-, hmem, -, hlog⟩ := copyOut_eq junk hva hlen hapart (hout.mp h) (hlow (hout.mp h))
  refine ⟨hmem, fun a ha => ?_, hlog⟩
  rw [hmem]
  apply Mem.scatter_of_ne
  intro i hi hc
  apply ha
  rw [hlog]
  exact List.mem_map.mpr ⟨i, List.mem_range.mpr hi, hc⟩

/-! ## Address spaces made by the walks -/

/-- A walk reads words of the tables only. -/
lemma walkedFrom_frames (k f : ℕ) (kids : Fin 512 → Tree k)
    (hf : f % PAGE_SIZE = 0)
    (hslot : Slot mem (mem (f + 8 * ix (3 - k) va)) (kids (ix (3 - k) va))) :
    ∀ a ∈ walkedFrom mem va k f, alignDown a ∈ (Radix.node f kids).frames := by
  induction k generalizing f with
  | zero =>
    intro a ha
    obtain rfl := List.mem_singleton.mp ha
    have hdown : alignDown (f + 8 * index 3 va) = f := alignDown_slot hf (ix 3 va)
    rw [hdown]
    exact List.mem_cons_self
  | succ k ih =>
    have hdown : alignDown (f + 8 * index (3 - (k + 1)) va) = f :=
      alignDown_slot hf (ix (3 - (k + 1)) va)
    intro a ha
    rw [walkedFrom] at ha
    split at ha
    · obtain rfl := List.mem_singleton.mp ha
      rw [hdown]
      exact List.mem_cons_self
    rename_i hgo
    rcases List.mem_cons.mp ha with rfl | ha
    · rw [hdown]
      exact List.mem_cons_self
    have hix : f + 8 * index (3 - (k + 1)) va = f + 8 * ix (3 - (k + 1)) va := rfl
    rw [hix] at hgo ha
    cases hkid : kids (ix (3 - (k + 1)) va) with
    | absent =>
      rw [hkid, slot_absent] at hslot
      exact absurd (.inl hslot) hgo
    | node g kk =>
      rw [hkid] at hslot
      obtain ⟨hd, hg, hslots⟩ := hslot
      rw [hd, (tableDesc_spec hg).2.2] at ha
      apply Radix.frames_of_kid (i := ix (3 - (k + 1)) va)
      rw [hkid]
      exact ih g kk hg.aligned (hslots _) a ha

/-- Where no page that is mapped is a frame of a table, the tables stand apart. -/
lemma apartOn_of_inv {s : Sys} {kids : Fin 512 → Tree 3} (hs : Inv s kids)
    (huser : ∀ va, S va → UserByte s.ram.mem s.root true va → UserVa va)
    (hpages : ∀ page m, s.maps page = some m → m.1 ∉ s.held) : ApartOn S s.ram.mem s.root := by
  intro va va' hva hva' hbyte hbyte' a ha hc
  have hframe := walkedFrom_frames 3 s.root kids hs.root.aligned
    (hs.slots _ (ix_ne_zero (huser va' hva' hbyte'))) a ha
  have hexp := hs.probe (huser va hva hbyte)
  obtain ⟨pa, fl, hprobe, -, -⟩ := hbyte
  rw [hprobe] at hexp
  obtain ⟨m, hm, heq⟩ := map_eq_some_iff.mp hexp.symm
  apply hpages _ _ hm
  -- the page of the translation is the page that the map names
  have hpage := vmmProbe_page s.ram.mem s.root va
  rw [hprobe] at hpage
  obtain ⟨⟨pa', fl'⟩, hbase, heq'⟩ := map_eq_some_iff.mp hpage.symm
  have hal := vmmProbe_aligned hbase
  have hm1 : m.1 = pa' := by
    have h1 : m.1 + va % PAGE_SIZE = pa := (Prod.mk.inj heq).1
    have h2 : pa' + va % PAGE_SIZE = pa := (Prod.mk.inj heq').1
    omega
  have hdown : alignDown (translate s.ram.mem s.root va) = m.1 := by
    have hpa : translate s.ram.mem s.root va = m.1 + va % PAGE_SIZE := by
      rw [translate, hprobe, ← (Prod.mk.inj heq).1]
      rfl
    have hlt : va % PAGE_SIZE < PAGE_SIZE := Nat.mod_lt _ (by decide)
    rw [hpa]
    exact alignDown_page (hm1 ▸ hal) (by omega) (by omega)
  rw [← hdown, ← hc]
  exact hs.held.subset hframe

lemma apart_of_inv {s : Sys} {kids : Fin 512 → Tree 3} (hs : Inv s kids)
    (hkernel : ∀ va < 2 ^ 39, ¬ UserByte s.ram.mem s.root true va)
    (hpages : ∀ page m, s.maps page = some m → m.1 ∉ s.held) : Apart s.ram.mem s.root := by
  refine apartOn_of_inv hs (fun va hva hbyte => ?_) hpages
  have hlim : USER_VA_LIMIT < 2 ^ 48 := by decide
  refine ⟨?_, by omega⟩
  by_contra hc
  exact hkernel va (by omega) hbyte

/-- The address space with the user pages at 2^40 and behind it, in frames apart. -/
def twoPages : Sys :=
  let s := mapped (VM_USER ||| VM_WRITE)
  ⟨(vmmMapAt s.ram s.root (2 ^ 40 + 4096) 0x60005000 (VM_USER ||| VM_WRITE)).1, s.root, s.held,
    Function.update s.maps ((2 ^ 40 + 4096) / PAGE_SIZE) (some (0x60005000, VM_USER ||| VM_WRITE))⟩

lemma inv_twoPages : ∃ kids, Inv twoPages kids := by
  have hfirst := (run_mapped (VM_USER ||| VM_WRITE)).invariant (I := fun s => ∃ kids, Inv s kids)
    ⟨_, inv_rootAlloc freeOk_fourFrames rfl (by decide)⟩ fun _ _ _ hs h => inv_step hs h
  have hstep : Step (mapped (VM_USER ||| VM_WRITE))
      (.map (2 ^ 40 + 4096) 0x60005000 (VM_USER ||| VM_WRITE) 0) twoPages :=
    ⟨⟨by decide, by decide⟩, by decide, rfl, rfl, ⟨[], rfl, (List.append_nil _).symm⟩, rfl⟩
  exact inv_step hfirst hstep

lemma apart_twoPages : Apart twoPages.ram.mem 0x50000000 := by
  obtain ⟨kids, hs⟩ := inv_twoPages
  refine apart_of_inv hs (fun va hva hbyte => ?_) fun page m hm => ?_
  · -- slot 0 leads to a table of the kernel that holds nothing here
    obtain ⟨pa, fl, hprobe, -, -⟩ := hbyte
    have h0 : index 0 va = 0 := by
      rw [index_eq, show levelShift 0 = 39 from rfl]
      omega
    have hempty : ∀ i : Fin 512, twoPages.ram.mem (0x40200000 + 8 * i) = 0 := by decide +kernel
    have hroot : twoPages.ram.mem 0x50000000 = tableDesc 0x40200000 := by decide
    have hword := hempty (ix 1 va)
    have hnone : probeFrom twoPages.ram.mem va 2 0x40200000 = none := by
      rw [probeFrom]
      exact if_pos (by rw [show 0x40200000 + 8 * index (3 - (1 + 1)) va = 0x40200000 + 8 * ix 1 va
        from rfl, hword]; rfl)
    rw [vmmProbe, probeFrom] at hprobe
    simp only [Nat.reduceAdd, Nat.reduceSub, h0, Nat.mul_zero, Nat.add_zero] at hprobe
    rw [show twoPages.root = 0x50000000 from rfl, hroot,
      if_neg (tableDesc_spec (f := 0x40200000) ⟨by decide, by decide, by decide⟩).1,
      if_neg (tableDesc_spec (f := 0x40200000) ⟨by decide, by decide, by decide⟩).2.1,
      (tableDesc_spec (f := 0x40200000) ⟨by decide, by decide, by decide⟩).2.2, hnone] at hprobe
    exact absurd hprobe (by simp)
  · simp only [twoPages, mapped, Function.update_apply] at hm
    split_ifs at hm
    all_goals simp only [some.injEq] at hm
    · rw [← hm]
      decide
    · rw [← hm]
      decide

lemma userRange_twoPages (write : Bool) :
    UserRange twoPages.ram.mem 0x50000000 write (2 ^ 40 + 4095) 2 := by
  refine ⟨by decide, by decide, fun i hi => ?_⟩
  obtain rfl | rfl : i = 0 ∨ i = 1 := by omega
  · exact ⟨0x60000fff, VM_READ ||| VM_WRITE ||| VM_USER, by decide, by decide,
      fun _ => by decide⟩
  · exact ⟨0x60005000, VM_READ ||| VM_WRITE ||| VM_USER, by decide, by decide,
      fun _ => by decide⟩

/-- Two bytes that cross from one page into the other. -/
theorem uaccess_correct_twoPages :
    touched (copyIn twoPages.ram.mem 0x50000000 7 (fun _ => 0) (2 ^ 40 + 4095) 2).2.2
        = [0x60000fff, 0x60005000] ∧
      (copyOut twoPages.ram.mem 0x50000000 7 (2 ^ 40 + 4095) (fun i => i + 1) 2).2.1 0x60005000
        = 2 := by
  have h := uaccess_correct twoPages.ram.mem 0x50000000 7 (2 ^ 40 + 4095) 2 (fun i => i + 1)
    (by decide) (by decide) apart_twoPages
  have h' := uaccess_correct twoPages.ram.mem 0x50000000 7 (2 ^ 40 + 4095) 2 (fun _ => 0)
    (by decide) (by decide) apart_twoPages
  constructor
  · rw [(h'.2.2.1 (h'.1.mpr (userRange_twoPages false))).2]
    decide
  · rw [(h.2.2.2.1 (h.2.1.mpr (userRange_twoPages true))).1]
    decide

/-- No byte is asked for, but the address lies behind the user window. -/
theorem uaccess_refuses_empty_range :
    ¬ ∀ (mem : Mem) (root junk va len : ℕ) (kbuf : Mem), va < 2 ^ 64 → len < 2 ^ 64 →
      Apart mem root → ((copyIn mem root junk kbuf va len).1 = 0 ↔
        va + len ≤ 2 ^ 64 ∧ ∀ i < len, UserByte mem root false (va + i)) := by
  intro h
  have hnone : ∀ va, ¬ UserByte (fun _ => 0) 0 true va := by
    rintro va ⟨pa, fl, hprobe, -, -⟩
    exact absurd hprobe (by simp [vmmProbe, probeFrom])
  have hres := (h (fun _ => 0) 0 0 USER_VA_LIMIT 0 (fun _ => 0) (by decide) (by decide)
    fun va _ _ _ hbyte => absurd hbyte (hnone va)).mpr ⟨by decide, fun i hi => by omega⟩
  exact absurd hres (by decide)

end MobilePhoneOs.Uaccess
