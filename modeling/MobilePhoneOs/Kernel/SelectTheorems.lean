import MobilePhoneOs.Kernel.Select

/-!
# What the sets of `sys_select` say

A scan leaves in the masks what it answers, and the next scan starts from there. So a call that has
found something at once answers for what it was asked, up to descriptors that are not open and bits
that no scan comes to; a call that has slept watches nothing any more.
-/

namespace MobilePhoneOs

open List (range mem_range)
namespace Select

open Poll
open Dirs (inter)

/-! ## Bits of the masks -/

variable {b : ℕ}

lemma getLsbD_bitAt (hb : b < 64) (c : ℕ) :
    (bitAt b).getLsbD c = decide (c = b) := by
  rw [bitAt, BitVec.getLsbD_shiftLeft, show (1 : BitVec 64) = 1#64 from rfl, BitVec.getLsbD_one]
  by_cases hc : c = b
  · simp [hc, hb]
  · rw [decide_eq_false hc]
    by_cases hlt : c < b
    · simp [hlt]
    · have hsub : c - b ≠ 0 := by omega
      simp [hsub]

lemma getLsbD_put (ok : Bool) (mask : BitVec 64) (hb : b < 64) (c : ℕ) :
    (put ok mask (bitAt b)).getLsbD c = if c = b then ok else mask.getLsbD c := by
  cases ok with
  | true =>
    simp only [put, if_true, BitVec.getLsbD_or, getLsbD_bitAt hb]
    by_cases hc : c = b
    · simp [hc]
    · simp [hc]
  | false =>
    simp only [put, Bool.false_eq_true, if_false, BitVec.getLsbD_and, BitVec.getLsbD_not,
      getLsbD_bitAt hb]
    by_cases hlt : c < 64
    · by_cases hc : c = b
      · simp [hc]
      · simp only [hlt, hc, decide_true, decide_false, Bool.not_false, Bool.and_true, if_false]
    · have hout : mask.getLsbD c = false := BitVec.getLsbD_of_ge _ _ (by omega)
      simp [hout]

lemma and_bit_ne_zero (mask : BitVec 64) (hb : b < 64) :
    mask &&& bitAt b ≠ 0 ↔ mask.getLsbD b = true := by
  constructor
  · intro h
    by_contra hc
    apply h
    apply BitVec.eq_of_getLsbD_eq
    intro i hi
    rw [BitVec.getLsbD_and, getLsbD_bitAt hb]
    by_cases hib : i = b
    · rw [hib, (Bool.not_eq_true _).mp hc]
      simp
    · simp [hib]
  · intro h hc
    have hbit := congrArg (fun w => w.getLsbD b) hc
    simp [getLsbD_bitAt hb, h] at hbit

/-- To drop a bit is to put it to 0. -/
lemma drop_eq_put (mask : BitVec 64) (hb : b < 64) :
    drop mask (bitAt b) = put false mask (bitAt b) := by
  rw [drop]
  split
  · rfl
  rename_i h
  rw [and_bit_ne_zero mask hb, Bool.not_eq_true] at h
  apply BitVec.eq_of_getLsbD_eq
  intro i _
  rw [getLsbD_put false mask hb]
  split
  · rename_i hi
    rw [hi, h]
  · rfl

variable {m : Masks}

lemma Masks.eq_of_at {m' : Masks} (h : ∀ b, m.at b = m'.at b) : m = m' := by
  have hr : m.rmask = m'.rmask :=
    BitVec.eq_of_getLsbD_eq fun i _ => congrArg Dirs.r (h i)
  have hw : m.wmask = m'.wmask :=
    BitVec.eq_of_getLsbD_eq fun i _ => congrArg Dirs.w (h i)
  have he : m.emask = m'.emask :=
    BitVec.eq_of_getLsbD_eq fun i _ => congrArg Dirs.e (h i)
  cases m
  cases m'
  simp_all

/-! ## One scan -/

/-- What the scan leaves at a descriptor: one that is not open answers for exceptions only,
whatever it was asked about. -/
def answer (v : View) (b : ℕ) (x : Dirs) : Dirs :=
  match v.get b with
  | none => ⟨false, false, x.any⟩
  | some _ => x.inter (readyAt v b)

lemma answer_any (v : View) (b : ℕ) (x : Dirs) :
    (answer v b x).any = true ↔
      (x.inter (readyAt v b)).any = true ∨ (x.any = true ∧ v.get b = none) := by
  rw [answer]
  cases hv : v.get b with
  | none =>
    simp only [Dirs.any, inter, readyAt, hv]
    simp
    tauto
  | some f => simp

@[simp] lemma answer_nothing (v : View) (b : ℕ) :
    answer v b ⟨false, false, false⟩ = ⟨false, false, false⟩ := by
  rw [answer]
  cases v.get b <;> rfl

lemma Dirs.eq_nothing {x : Dirs} (h : x.any = false) : x = ⟨false, false, false⟩ := by
  cases x
  simp_all [Dirs.any]

lemma skip_iff (m : Masks) (hb : b < 64) :
    (m.rmask &&& bitAt b = 0 ∧ m.wmask &&& bitAt b = 0 ∧ m.emask &&& bitAt b = 0)
      ↔ (m.at b).any = false := by
  have hr := (and_bit_ne_zero m.rmask hb).not
  have hw := (and_bit_ne_zero m.wmask hb).not
  have he := (and_bit_ne_zero m.emask hb).not
  rw [not_not, Bool.not_eq_true] at hr hw he
  rw [hr, hw, he, Dirs.any, Bool.or_eq_false_iff, Bool.or_eq_false_iff, and_assoc]
  rfl

/-- The masks after the answer `x` for descriptor `b`. -/
def Masks.put (m : Masks) (b : ℕ) (x : Dirs) : Masks :=
  ⟨Select.put x.r m.rmask (bitAt b), Select.put x.w m.wmask (bitAt b),
    Select.put x.e m.emask (bitAt b)⟩

lemma Masks.at_put (m : Masks) (hb : b < 64) (x : Dirs) (c : ℕ) :
    (m.put b x).at c = if c = b then x else m.at c := by
  simp only [Masks.at, Masks.put, getLsbD_put _ _ hb]
  split <;> rfl

/-- The step of a scan, on a descriptor that it is asked about. -/
lemma scanBit_asked (v : View) (s : Masks × ℕ) (hb : b < 64)
    (hany : (s.1.at b).any = true) :
    scanBit v s b = (s.1.put b (answer v b (s.1.at b)),
      s.2 + if (answer v b (s.1.at b)).any then 1 else 0) := by
  have hgo : ¬ (s.1.rmask &&& bitAt b = 0 ∧ s.1.wmask &&& bitAt b = 0 ∧
      s.1.emask &&& bitAt b = 0) := by
    rw [skip_iff s.1 hb, hany]
    simp
  -- either way the answer is what the three masks get
  have hput : ∀ x : Dirs, (if x.r || x.w || x.e then
        ((⟨put x.r s.1.rmask (bitAt b), put x.w s.1.wmask (bitAt b),
          put x.e s.1.emask (bitAt b)⟩, s.2 + 1) : Masks × ℕ)
      else (⟨drop s.1.rmask (bitAt b), drop s.1.wmask (bitAt b), drop s.1.emask (bitAt b)⟩, s.2))
        = (s.1.put b x, s.2 + if x.any then 1 else 0) := by
    intro x
    cases hx : x.any with
    | true =>
      rw [Dirs.any] at hx
      rw [if_pos hx, if_pos rfl]
      rfl
    | false =>
      have hnone := Dirs.eq_nothing hx
      rw [drop_eq_put _ hb, drop_eq_put _ hb, drop_eq_put _ hb, hnone]
      rfl
  have hmask : ∀ mask : BitVec 64, decide (mask &&& bitAt b ≠ 0) = mask.getLsbD b := by
    intro mask
    rw [Bool.eq_iff_iff, decide_eq_true_eq]
    exact and_bit_ne_zero mask hb
  rw [scanBit, if_neg hgo, ← hput, answer]
  cases hv : v.get b with
  | none => simp only [hany]
  | some f => simp only [hmask, readyAt, hv, inter, Masks.at]

/-- The step of a scan rewrites the bits of its descriptor, and counts it when it answers. -/
lemma scanBit_spec (v : View) (s : Masks × ℕ) (hb : b < 64) :
    (∀ c, (scanBit v s b).1.at c = if c = b then answer v b (s.1.at b) else s.1.at c) ∧
      (scanBit v s b).2 = s.2 + if (answer v b (s.1.at b)).any then 1 else 0 := by
  cases hany : (s.1.at b).any with
  | true =>
    rw [scanBit_asked v s hb hany]
    exact ⟨Masks.at_put _ hb _, rfl⟩
  | false =>
    have hsame : scanBit v s b = s := if_pos ((skip_iff s.1 hb).mpr hany)
    have hx := Dirs.eq_nothing hany
    rw [hsame, hx, answer_nothing]
    refine ⟨fun c => ?_, rfl⟩
    split
    · rename_i hc
      rw [hc, hx]
    · rfl

/-- A scan answers for every descriptor that it comes to, and counts those with an answer. -/
lemma scan_fold (v : View) (m : Masks) {n : ℕ} (hn : n ≤ 64) :
    (∀ c, ((range n).foldl (scanBit v) (m, 0)).1.at c
        = if c < n then answer v c (m.at c) else m.at c) ∧
      ((range n).foldl (scanBit v) (m, 0)).2
        = (range n).countP fun b => (answer v b (m.at b)).any := by
  induction n with
  | zero => exact ⟨fun c => (if_neg (Nat.not_lt_zero c)).symm, rfl⟩
  | succ n ih =>
    obtain ⟨hbits, hcount⟩ := ih (by omega)
    have hstep := scanBit_spec v ((range n).foldl (scanBit v) (m, 0)) (b := n) (by omega)
    rw [hbits, if_neg (lt_irrefl n), hcount] at hstep
    rw [List.range_succ, List.foldl_append]
    refine ⟨fun c => ?_, ?_⟩
    · refine (hstep.1 c).trans ?_
      rw [hbits]
      by_cases hc : c = n
      · rw [if_pos hc, if_pos (by omega), hc]
      · rw [if_neg hc]
        split_ifs
        all_goals first | rfl | omega
    · refine hstep.2.trans ?_
      rw [List.countP_append, List.countP_singleton]

lemma scan_at (nfds : ℕ) (v : View) (m : Masks) (b : ℕ) :
    (scan nfds v m).1.at b
      = if b < min nfds PROC_FD_MAX then answer v b (m.at b) else m.at b :=
  (scan_fold v m (le_trans (Nat.min_le_right _ _) (by decide))).1 b

lemma scan_count (nfds : ℕ) (v : View) (m : Masks) :
    (scan nfds v m).2
      = (range (min nfds PROC_FD_MAX)).countP fun b => (answer v b (m.at b)).any :=
  (scan_fold v m (le_trans (Nat.min_le_right _ _) (by decide))).2

lemma scan_finds (nfds : ℕ) (v : View) (m : Masks) :
    (scan nfds v m).2 ≠ 0 ↔ Finds nfds m v := by
  rw [scan_count, ← Nat.pos_iff_ne_zero, List.countP_pos_iff, Finds]
  constructor
  · intro ⟨b, hb, hany⟩
    exact ⟨b, mem_range.mp hb, (answer_any v b _).mp hany⟩
  · intro ⟨b, hb, hany⟩
    exact ⟨b, mem_range.mpr hb, (answer_any v b _).mpr hany⟩

variable {nfds : ℕ} {v : View}

/-- A scan that finds nothing leaves nothing of what it came to. -/
lemma scan_clears (h : ¬ Finds nfds m v) (b : ℕ) :
    (scan nfds v m).1.at b
      = if b < min nfds PROC_FD_MAX then ⟨false, false, false⟩ else m.at b := by
  rw [scan_at]
  split
  · rename_i hb
    apply Dirs.eq_nothing
    rw [Bool.eq_false_iff]
    intro hany
    exact h ⟨b, hb, (answer_any v b _).mp hany⟩
  · rfl

/-! ## The end of a call -/

/-- What a copy-out that succeeds leaves at a pointer. -/
def UserSet.left (mask : BitVec 64) : UserSet → Option (BitVec 64)
  | .null => none
  | .word _ _ => some mask

variable {x : UserSet}

lemma copyOut_ok (h : ∀ mask, x ≠ .word mask false) (mask : BitVec 64) :
    x.copyOut mask = some (x.left mask) := by
  match x with
  | .null => rfl
  | .word _ true => rfl
  | .word m false => exact absurd rfl (h m)

lemma copyOut_fault (h : ¬ ∀ mask, x ≠ .word mask false) (mask : BitVec 64) :
    x.copyOut mask = none := by
  rw [not_forall] at h
  obtain ⟨m, hm⟩ := h
  rw [not_not.mp hm]
  rfl

variable {c : Call}

lemma finish_ok (h : c.Writable) (m : Masks) (ready : ℕ) :
    finish c m ready = ⟨ready, c.rd.left m.rmask, c.wr.left m.wmask, c.ex.left m.emask⟩ := by
  have hrd := copyOut_ok (h c.rd (by simp)) m.rmask
  have hwr := copyOut_ok (h c.wr (by simp)) m.wmask
  have hex := copyOut_ok (h c.ex (by simp)) m.emask
  simp only [finish, hrd, hwr, hex]

lemma finish_fault (h : ¬ c.Writable) (m : Masks) (ready : ℕ) :
    (finish c m ready).ret = -EFAULT := by
  by_cases hrd : ∀ mask, c.rd ≠ .word mask false
  · by_cases hwr : ∀ mask, c.wr ≠ .word mask false
    · have hex : ¬ ∀ mask, c.ex ≠ .word mask false := by
        intro hex
        apply h
        intro x hx
        simp only [List.mem_cons, List.not_mem_nil, or_false] at hx
        rcases hx with rfl | rfl | rfl
        · exact hrd
        · exact hwr
        · exact hex
      simp only [finish, copyOut_ok hrd, copyOut_ok hwr, copyOut_fault hex]
    · simp only [finish, copyOut_ok hrd, copyOut_fault hwr]
  · simp only [finish, copyOut_fault hrd]

/-- A mask with a bit has come from a pointer. -/
lemma leaves_left {given mask : BitVec 64} {f : ℕ → Bool}
    (hin : x.copyIn = some given) (h : Leaves (x.left mask) f)
    (hb : given.getLsbD b = true) : mask.getLsbD b = f b := by
  match x with
  | .null =>
    rw [← Option.some.inj hin] at hb
    simp at hb
  | .word _ _ => exact h mask rfl b

lemma masks_copyIn (h : m ∈ c.start) :
    c.nfds ≠ 0 ∧ c.nfds ≤ 64 ∧ c.rd.copyIn = some m.rmask ∧ c.wr.copyIn = some m.wmask ∧
      c.ex.copyIn = some m.emask := by
  rw [Call.start] at h
  split at h
  · exact absurd h (by simp)
  rename_i hn
  rw [not_or] at hn
  refine ⟨hn.1, not_lt.mp hn.2, ?_⟩
  simp only [Call.masks, Option.mem_def, Option.bind_eq_bind, Option.bind_eq_some_iff] at h
  obtain ⟨r, hr, w, hw, e, he, heq⟩ := h
  obtain rfl := Option.some.inj heq
  exact ⟨hr, hw, he⟩

lemma sysSelect_start (h : m ∈ c.start) (views : List View) :
    sysSelect c views = (loop c m views).map fun s => finish c s.1 s.2 := by
  rw [Call.start] at h
  split at h
  · exact absurd h (by simp)
  rename_i hn
  rw [sysSelect, if_neg hn, h]

/-! ## A call that ends with its first scan -/

/-- What is asked about and found, as the law has it. -/
def due (nfds : ℕ) (m : Masks) (v : View) (b : ℕ) : Dirs :=
  (requested nfds m b).inter (readyAt v b)

lemma due_scanned (hb : b < min nfds PROC_FD_MAX) :
    due nfds m v b = (m.at b).inter (readyAt v b) := by
  rw [due, requested, if_pos (by omega)]

/-- Where no scan comes, only an exception can be due, on a descriptor below `nfds`. -/
lemma due_beyond (hb : min nfds PROC_FD_MAX ≤ b) :
    due nfds m v b = ⟨false, false, decide (b < nfds) && (m.at b).e⟩ := by
  rw [due, requested]
  split
  · rename_i hlt
    have hget : v.get b = none := if_pos (by omega)
    simp [readyAt, hget, inter, hlt]
  · rename_i hge
    simp [inter, hge]

/-- The scan answers what is due, but for a descriptor that is not open. -/
lemma answer_due (hb : b < min nfds PROC_FD_MAX)
    (h : v.get b = none → (m.at b).any = true → (m.at b).e = true) :
    answer v b (m.at b) = due nfds m v b := by
  rw [due_scanned hb, answer]
  cases hv : v.get b with
  | none =>
    have hany : (m.at b).any = (m.at b).e := by
      rw [Bool.eq_iff_iff]
      constructor
      · exact h hv
      · intro he
        simp [Dirs.any, he]
    simp [readyAt, hv, inter, hany]
  | some f => rfl

/-- What is due is counted on the descriptors that the scan comes to and on the rest. -/
lemma count_split {n : ℕ} (hn : n ≤ 64) (p : ℕ → Bool) :
    (range 64).countP p
      = (range n).countP p + (range (64 - n)).countP fun b => p (n + b) := by
  have hsum : 64 = n + (64 - n) := by omega
  rw [hsum, List.range_add, List.countP_append, List.countP_map, Nat.add_sub_cancel_left]
  rfl

lemma countP_lt {l : List ℕ} {p q : ℕ → Bool} (h : ∀ x ∈ l, p x = true → q x = true)
    (hb : b ∈ l) (hp : p b = false) (hq : q b = true) : l.countP p < l.countP q := by
  obtain ⟨l₁, l₂, rfl⟩ := List.append_of_mem hb
  have h₁ : l₁.countP p ≤ l₁.countP q :=
    List.countP_mono_left fun x hx => h x (List.mem_append_left _ hx)
  have h₂ : l₂.countP p ≤ l₂.countP q :=
    List.countP_mono_left fun x hx => h x (List.mem_append_right _ (List.mem_cons_of_mem _ hx))
  rw [List.countP_append, List.countP_append, List.countP_cons, List.countP_cons, hp, hq]
  simp only [Bool.false_eq_true, if_false, if_true]
  omega

section stop

variable {c : Call} {m : Masks} {v : View}

/-- What the law says of a call that ends with its first scan. -/
def Answered (c : Call) (m : Masks) (v : View) : Prop :=
  Leaves (c.rd.left (scan c.nfds v m).1.rmask) (fun b => (due c.nfds m v b).r) ∧
    Leaves (c.wr.left (scan c.nfds v m).1.wmask) (fun b => (due c.nfds m v b).w) ∧
    Leaves (c.ex.left (scan c.nfds v m).1.emask) (fun b => (due c.nfds m v b).e) ∧
    (scan c.nfds v m).2 = (range 64).countP fun b => (due c.nfds m v b).any

/-- With no bit beyond the scan, what is counted is what is due. -/
lemma answered_of_plain (hn : c.nfds ≤ 64) (h : Plain c.nfds m v) : Answered c m v := by
  have hat : ∀ b, (scan c.nfds v m).1.at b = due c.nfds m v b := by
    intro b
    rw [scan_at]
    split
    · rename_i hb
      exact answer_due hb (h.2 b hb)
    · rename_i hb
      have hclear := Dirs.eq_nothing (h.1 b (not_lt.mp hb))
      rw [due_beyond (not_lt.mp hb), hclear, Bool.and_false]
  have hleft : ∀ (x : UserSet) (mask : BitVec 64) (f : ℕ → Bool), (∀ b, mask.getLsbD b = f b) →
      Leaves (x.left mask) f := by
    intro x mask f hbits w hw
    match x with
    | .null => exact absurd hw (by simp [UserSet.left])
    | .word _ _ =>
      rw [← Option.some.inj hw]
      exact hbits
  refine ⟨hleft _ _ _ fun b => ?_, hleft _ _ _ fun b => ?_, hleft _ _ _ fun b => ?_, ?_⟩
  · exact congrArg Dirs.r (hat b)
  · exact congrArg Dirs.w (hat b)
  · exact congrArg Dirs.e (hat b)
  · have hle : min c.nfds PROC_FD_MAX ≤ 64 := by omega
    rw [scan_count, count_split hle]
    have hsame : ((range (min c.nfds PROC_FD_MAX)).countP fun b => (answer v b (m.at b)).any)
        = (range (min c.nfds PROC_FD_MAX)).countP fun b => (due c.nfds m v b).any := by
      apply List.countP_congr
      intro b hb
      rw [answer_due (mem_range.mp hb) (h.2 b (mem_range.mp hb))]
    have hzero : ((range (64 - min c.nfds PROC_FD_MAX)).countP fun b =>
        (due c.nfds m v (min c.nfds PROC_FD_MAX + b)).any) = 0 := by
      rw [List.countP_eq_zero]
      intro b _
      have hclear := Dirs.eq_nothing (h.1 (min c.nfds PROC_FD_MAX + b) (Nat.le_add_right _ _))
      rw [due_beyond (Nat.le_add_right _ _), hclear, Bool.and_false]
      simp [Dirs.any]
    omega

/-- A descriptor that is not open and that is not asked about for exceptions spoils the answer:
it is in a set that did not ask for it, or it is only counted. -/
lemma open_of_answered (hm : m ∈ c.start) (h : Answered c m v)
    (hb : b < min c.nfds PROC_FD_MAX) (hv : v.get b = none) (hany : (m.at b).any = true) :
    (m.at b).e = true := by
  obtain ⟨-, -, hleaves, hcount⟩ := h
  obtain ⟨-, hn, -, -, hex⟩ := masks_copyIn hm
  by_contra he
  rw [Bool.not_eq_true] at he
  have hbit : ((scan c.nfds v m).1.at b).e = true := by
    rw [scan_at, if_pos hb, answer, hv]
    exact hany
  have hnotdue : (due c.nfds m v b).any = false := by
    simp [due_scanned hb, readyAt, hv, inter, Dirs.any, he]
  cases hx : c.ex with
  | word _ _ =>
    rw [hx] at hleaves
    have hset := hleaves _ rfl b
    have hdue : (due c.nfds m v b).e = false := by
      rw [Dirs.eq_nothing hnotdue]
    exact absurd (hbit.symm.trans (hset.trans hdue)) (by simp)
  | null =>
    -- nothing is asked about for exceptions, so all that is due is counted, and this besides
    rw [hx] at hex
    have hnone : ∀ i, (m.at i).e = false := by
      intro i
      rw [Masks.at, ← Option.some.inj hex]
      simp
    have hrest : ((range (64 - min c.nfds PROC_FD_MAX)).countP fun i =>
        (due c.nfds m v (min c.nfds PROC_FD_MAX + i)).any) = 0 := by
      rw [List.countP_eq_zero]
      intro i _
      rw [due_beyond (Nat.le_add_right _ _), hnone, Bool.and_false]
      simp [Dirs.any]
    have hlt : ((range (min c.nfds PROC_FD_MAX)).countP fun i => (due c.nfds m v i).any)
        < (range (min c.nfds PROC_FD_MAX)).countP fun i => (answer v i (m.at i)).any := by
      refine countP_lt (fun i hi hdue => ?_) (mem_range.mpr hb) hnotdue ?_
      · rw [due_scanned (mem_range.mp hi)] at hdue
        exact (answer_any v i _).mpr (.inl hdue)
      · exact (answer_any v b _).mpr (.inr ⟨hany, hv⟩)
    have hle : min c.nfds PROC_FD_MAX ≤ 64 := by omega
    rw [scan_count, count_split hle] at hcount
    omega

/-- A bit that no scan comes to spoils the answer: it stays in its set, or what it asks for is
not counted. -/
lemma clear_of_answered (hm : m ∈ c.start) (h : Answered c m v)
    (hb : min c.nfds PROC_FD_MAX ≤ b) : (m.at b).any = false := by
  have hopen := fun i hi => open_of_answered (b := i) hm h hi
  obtain ⟨hr, hw, he, hcount⟩ := h
  obtain ⟨-, hn, hrd, hwr, hex⟩ := masks_copyIn hm
  have hstays : (scan c.nfds v m).1.at b = m.at b := by
    rw [scan_at, if_neg (not_lt.mpr hb)]
  have hdue := due_beyond (m := m) (v := v) hb
  have hr0 : (m.at b).r = false := by
    by_contra hbit
    rw [Bool.not_eq_false] at hbit
    have hset := leaves_left hrd hr hbit
    rw [hdue] at hset
    exact absurd ((congrArg Dirs.r hstays).trans hbit |>.symm.trans hset) (by simp)
  have hw0 : (m.at b).w = false := by
    by_contra hbit
    rw [Bool.not_eq_false] at hbit
    have hset := leaves_left hwr hw hbit
    rw [hdue] at hset
    exact absurd ((congrArg Dirs.w hstays).trans hbit |>.symm.trans hset) (by simp)
  have he0 : (m.at b).e = false := by
    by_contra hbit
    rw [Bool.not_eq_false] at hbit
    have hset := leaves_left hex he hbit
    have hdue_e : (due c.nfds m v b).e = true :=
      hset.symm.trans ((congrArg Dirs.e hstays).trans hbit)
    have hsame : ((range (min c.nfds PROC_FD_MAX)).countP fun i => (answer v i (m.at i)).any)
        = (range (min c.nfds PROC_FD_MAX)).countP fun i => (due c.nfds m v i).any := by
      apply List.countP_congr
      intro i hi
      rw [answer_due (mem_range.mp hi) (hopen i (mem_range.mp hi))]
    have hlt : b < 64 := by
      by_contra hge
      have hzero : (m.at b).e = false := BitVec.getLsbD_of_ge _ _ (not_lt.mp hge)
      exact absurd (hbit.symm.trans hzero) (by simp)
    have hpos : 0 < (range (64 - min c.nfds PROC_FD_MAX)).countP fun i =>
        (due c.nfds m v (min c.nfds PROC_FD_MAX + i)).any := by
      rw [List.countP_pos_iff]
      refine ⟨b - min c.nfds PROC_FD_MAX, mem_range.mpr (by omega), ?_⟩
      rw [Nat.add_sub_cancel' hb]
      simp [Dirs.any, hdue_e]
    have hle : min c.nfds PROC_FD_MAX ≤ 64 := by omega
    rw [scan_count, count_split hle] at hcount
    omega
  rw [Dirs.any, hr0, hw0, he0]
  rfl

lemma answered_iff (hm : m ∈ c.start) : Answered c m v ↔ Plain c.nfds m v :=
  ⟨fun h => ⟨fun _ hb => clear_of_answered hm h hb, fun _ hb => open_of_answered hm h hb⟩,
    answered_of_plain (masks_copyIn hm).2.1⟩

end stop

/-! ## The law -/

lemma loop_stop (vs : List View)
    (h : Finds c.nfds m v ∨ c.timeoutMs = 0) :
    loop c m (v :: vs) = some (scan c.nfds v m) ∧ scans c m (v :: vs) = [(m, v)] := by
  rw [← scan_finds] at h
  exact ⟨if_pos h, congrArg (List.cons (m, v)) (if_pos h)⟩

lemma loop_park (vs : List View)
    (h : ¬ (Finds c.nfds m v ∨ c.timeoutMs = 0)) :
    loop c m (v :: vs) = loop c (scan c.nfds v m).1 vs ∧
      scans c m (v :: vs) = (m, v) :: scans c (scan c.nfds v m).1 vs := by
  rw [← scan_finds] at h
  exact ⟨if_neg h, congrArg (List.cons (m, v)) (if_neg h)⟩

/-- A call that asks about nothing that a scan comes to scans on from the same masks. -/
lemma idle (hzero : c.timeoutMs ≠ 0)
    (hidle : ∀ b < min c.nfds PROC_FD_MAX, (m.at b).any = false) (vs : List View) :
    loop c m vs = none ∧ ∀ s ∈ scans c m vs, s.1 = m := by
  induction vs with
  | nil => exact ⟨rfl, fun s hs => absurd hs List.not_mem_nil⟩
  | cons v vs ih =>
    have hnot : ¬ Finds c.nfds m v := by
      intro ⟨b, hb, hany⟩
      rw [Dirs.eq_nothing (hidle b hb)] at hany
      simp [Dirs.any, inter] at hany
    have hsame : (scan c.nfds v m).1 = m := by
      apply Masks.eq_of_at
      intro b
      rw [scan_clears hnot]
      split
      · rename_i hb
        rw [Dirs.eq_nothing (hidle b hb)]
      · rfl
    obtain ⟨hloop, hscans⟩ := loop_park vs (not_or.mpr ⟨hnot, hzero⟩)
    rw [hsame] at hloop hscans
    refine ⟨hloop.trans ih.1, fun s hs => ?_⟩
    rw [hscans] at hs
    rcases List.mem_cons.mp hs with rfl | hs
    · rfl
    · exact ih.2 s hs

/-- A call whose first scan ends it answers as it should, if it can copy its sets out, exactly when
its masks are plain; one that parks keeps to what it was asked exactly when it does not scan again,
or when there is nothing that a scan comes to. -/
theorem select_lawful (c : Call) (v : View) (vs : List View) :
    Lawful c (v :: vs) ↔ ∀ m ∈ c.start,
      (Finds c.nfds m v ∨ c.timeoutMs = 0 → c.Writable → Plain c.nfds m v) ∧
        (¬ (Finds c.nfds m v ∨ c.timeoutMs = 0) →
          vs = [] ∨ ∀ b < min c.nfds PROC_FD_MAX, (m.at b).any = false) := by
  constructor
  · intro hlaw m hm
    constructor
    · intro hstop hwrite
      obtain ⟨hloop, hscans⟩ := loop_stop vs hstop
      have hres : sysSelect c (v :: vs) = some ⟨((scan c.nfds v m).2 : ℤ),
          c.rd.left (scan c.nfds v m).1.rmask, c.wr.left (scan c.nfds v m).1.wmask,
          c.ex.left (scan c.nfds v m).1.emask⟩ := by
        rw [sysSelect_start hm, hloop, Option.map_some, finish_ok hwrite]
      obtain ⟨s, hs, hr, hw, he, hcount⟩ := hlaw.answers m hm _ hres (Int.natCast_nonneg _)
      rw [hscans] at hs
      obtain rfl := Option.some.inj hs
      have hready : (scan c.nfds v m).2 = (range 64).countP fun b => (due c.nfds m v b).any :=
        Int.natCast_inj.mp hcount
      exact (answered_iff hm).mp ⟨hr, hw, he, hready⟩
    · intro hpark
      cases vs with
      | nil => exact .inl rfl
      | cons v' vs =>
        -- the second scan starts from what the first one has left
        right
        obtain ⟨-, hscans⟩ := loop_park (v' :: vs) hpark
        have hwatch := hlaw.watches m hm ((scan c.nfds v m).1, v') (by
          rw [hscans]
          exact List.mem_cons_of_mem _ List.mem_cons_self)
        intro b hb
        have hbits := scan_clears (not_or.mp hpark).1 b
        rw [if_pos hb] at hbits
        rw [← hwatch, hbits]
        rfl
  · intro hcond
    constructor
    · intro m hm
      obtain ⟨-, hpark⟩ := hcond m hm
      by_cases hstop : Finds c.nfds m v ∨ c.timeoutMs = 0
      · intro s hs
        rw [(loop_stop vs hstop).2, List.mem_singleton] at hs
        rw [hs]
      · obtain rfl | hidle := hpark hstop
        · intro s hs
          rw [(loop_park [] hstop).2] at hs
          rw [List.mem_singleton.mp hs]
        · exact (idle (not_or.mp hstop).2 hidle (v :: vs)).2
    · intro m hm res hres hret
      obtain ⟨hplain, hpark⟩ := hcond m hm
      rw [sysSelect_start hm] at hres
      by_cases hstop : Finds c.nfds m v ∨ c.timeoutMs = 0
      · obtain ⟨hloop, hscans⟩ := loop_stop vs hstop
        rw [hloop, Option.map_some] at hres
        obtain rfl := Option.some.inj hres
        by_cases hwrite : c.Writable
        · obtain ⟨hr, hw, he, hcount⟩ := (answered_iff hm).mpr (hplain hstop hwrite)
          rw [finish_ok hwrite]
          refine ⟨(m, v), by rw [hscans]; rfl, hr, hw, he, ?_⟩
          exact congrArg _ hcount
        · rw [finish_fault hwrite] at hret
          exact absurd hret (by decide)
      · -- the call has not returned
        have hnone : loop c m (v :: vs) = none := by
          obtain rfl | hidle := hpark hstop
          · exact (loop_park [] hstop).1
          · exact (idle (not_or.mp hstop).2 hidle (v :: vs)).1
        rw [hnone] at hres
        exact absurd hres (by simp)

/-- What a scan finds with `n` lines in the terminal and descriptor 0 on the console. -/
def console (n : ℕ) : View := fun b =>
  if b = 0 then
    some (⟨fun _ => Ipc.pipeMake, Ipc.Usock.Socks.init, fun _ => ⟨false, none, 0⟩, n, 0⟩, .console)
  else none

/-- A wait for a line on the console: when it comes, the call no longer looks for it. -/
theorem select_forgets : ¬ ∀ c views, Lawful c views := by
  intro h
  let c : Call := ⟨1, .word (some 1) true, .null, .null, 2 ^ 64 - 1⟩
  have hwatch := (h c [console 0, console 1]).watches ⟨1, 0, 0⟩ rfl (⟨0, 0, 0⟩, console 1)
    (List.mem_cons_of_mem _ List.mem_cons_self)
  exact absurd hwatch (by decide)

end Select
end MobilePhoneOs
