import MobilePhoneOs.Fs.Fat32Slots
import MobilePhoneOs.Fs.Fat32Theorems

/-!
# FAT32 directory scans and writes

A scan of a directory whose chain is sound delivers the entries of its slots, and ends: it fails
only by a transfer that the driver fails. `fat_create` finds vacant slots, in a chain that it may
have made longer, and a slot that is written reads back.
-/

namespace MobilePhoneOs.Fs
namespace Fat32

open Mem Prog
open MobilePhoneOs.Fs.Fat32.Stop (noConfusion)
open Function (update update_of_ne update_self)

variable {fs : FatFs} {d d' d'' : Dev} {first : ℕ} {C : List ℕ}

/-! ## Transfers that succeed -/

/-- Reads that the driver has not failed, and the schedule behind them. -/
structure Passed (d d' : Dev) : Prop where
  data : d'.data = d.data
  nsect : d'.nsect = d.nsect
  faults : ∃ pre, d.faults = pre ++ d'.faults ∧ ∀ f ∈ pre, f = none

lemma Passed.rfl : Passed d d := ⟨Eq.refl _, Eq.refl _, [], Eq.refl _, by simp⟩

lemma Passed.trans (h : Passed d d') (h' : Passed d' d'') : Passed d d'' := by
  obtain ⟨pre, hpre, hnone⟩ := h.faults
  obtain ⟨pre', hpre', hnone'⟩ := h'.faults
  refine ⟨h'.data.trans h.data, h'.nsect.trans h.nsect, pre ++ pre', ?_, fun f hf => ?_⟩
  · rw [hpre, hpre', List.append_assoc]
  · exact (List.mem_append.mp hf).elim (hnone f) (hnone' f)

/-- Whether a transfer to come fails has not changed. -/
lemma Passed.calm (h : Passed d d') : Calm d' ↔ Calm d := by
  obtain ⟨pre, hpre, hnone⟩ := h.faults
  unfold Calm
  rw [hpre]
  refine ⟨fun hc f hf => (List.mem_append.mp hf).elim (hnone f) (hc f), fun hc f hf => ?_⟩
  exact hc f (List.mem_append_right _ hf)

lemma Passed.quiet (h : Passed d d') : Quiet d d' := ⟨h.data, h.nsect, h.calm.mpr⟩

lemma Passed.length_le (h : Passed d d') : d'.faults.length ≤ d.faults.length := by
  obtain ⟨pre, hpre, _⟩ := h.faults
  rw [hpre, List.length_append]
  exact Nat.le_add_left _ _

/-- At least one read, which takes its turn of the schedule. -/
structure Took (d d' : Dev) : Prop extends Passed d d' where
  fewer : d.faults = [] ∨ d'.faults.length < d.faults.length

lemma Took.trans (h : Took d d') (h' : Passed d' d'') : Took d d'' :=
  ⟨h.toPassed.trans h', h.fewer.imp_right fun hlt => Nat.lt_of_le_of_lt h'.length_le hlt⟩

lemma Passed.took (h : Passed d d') (h' : Took d' d'') : Took d d'' := by
  refine ⟨h.trans h'.toPassed, ?_⟩
  have hle := h.length_le
  have hle' := h'.toPassed.length_le
  rcases h'.fewer with hnil | hlt
  · rw [List.eq_nil_iff_length_eq_zero] at hnil ⊢
    omega
  · omega

/-- The driver has failed a transfer. -/
def Failed (d : Dev) (e : Stop) : Prop := e = .errno .dev ∧ ¬ Calm d

lemma Passed.failed (h : Passed d d') {e : Stop} (he : Failed d' e) : Failed d e :=
  ⟨he.1, fun hc => he.2 (h.calm.mpr hc)⟩

lemma Failed.ne_hang {e : Stop} (he : Failed d e) : e ≠ .hang := by
  rw [he.1]
  exact noConfusion

lemma secRead_took {lba : ℕ} (hlba : lba < d.nsect) :
    wp (secRead lba) (fun sec d' => Took d d' ∧ ∀ i < 512, sec i = d.data (lba * 512 + i))
      (fun e _ => Failed d e) d := by
  have hview : ∀ i < 512, (if i < BLK_SECTOR_SIZE then d.view lba i else 0)
      = d.data (lba * 512 + i) := fun i hi => if_pos hi
  unfold wp secRead
  rw [if_neg (by omega)]
  unfold Dev.read
  rcases hf : d.faults with _ | ⟨_ | k, fl⟩
  · exact ⟨⟨Passed.rfl, .inl hf⟩, hview⟩
  · refine ⟨⟨⟨Eq.refl _, Eq.refl _, [none], hf, by simp⟩, .inr ?_⟩, hview⟩
    rw [hf]
    exact Nat.lt_succ_self _
  · refine ⟨Eq.refl _, fun hc => ?_⟩
    have hk := hc (some k) (by rw [hf]; exact List.mem_cons_self)
    exact absurd hk (by simp)

variable {n : ℕ}

lemma fatEntry_took (hr : InRange fs n) (hdev : fs.reserved + n / 128 < d.nsect) :
    wp (fatEntry fs n) (fun v d' => v = entry fs d n ∧ Took d d') (fun e _ => Failed d e) d := by
  unfold fatEntry
  rw [if_neg (by have h1 := hr.1; have h2 := hr.2; omega)]
  refine (secRead_took hdev).bind (fun sec d₁ h₁ => ?_) fun _ _ he => he
  exact ⟨entry_sector fs d n h₁.2, h₁.1⟩

lemma secWrite_done {lba : ℕ} {buf : ℕ → UInt8} (hlba : lba < d.nsect) :
    wp (secWrite lba buf) (fun _ d' => Wrote [lba] buf d d') (fun e _ => Failed d e) d := by
  refine wp_of_run (fun _ d₁ hrun => ((secWrite_spec lba buf d).ok hrun).2) fun e d₁ hrun => ?_
  have hcalm := secWrite_spec lba buf d
  unfold wp at hcalm
  rw [hrun] at hcalm
  refine ⟨?_, hcalm hlba⟩
  unfold secWrite at hrun
  rw [if_neg (by omega)] at hrun
  unfold Dev.write at hrun
  rcases hf : d.faults with _ | ⟨_ | k, fl⟩ <;> rw [hf] at hrun
  · cases hrun
  · cases hrun
  · cases hrun
    exact Eq.refl _

/-! ## Slots -/

/-- How a walk to a place fails: it runs past the chain, or the driver fails a transfer. -/
def Beyond (d d' : Dev) (past : Prop) (e : Stop) : Prop :=
  (e = .errno .eio ∧ past ∧ Passed d d') ∨ Failed d e

lemma Passed.beyond {past past' : Prop} {e : Stop} (h : Passed d d') (hp : past → past')
    (he : Beyond d' d'' past e) : Beyond d d'' past' e := by
  rcases he with ⟨he, hpast, hd⟩ | he
  · exact .inl ⟨he, hp hpast, h.trans hd⟩
  · exact .inr (h.failed he)

variable {i : ℕ}

lemma seekSteps_took (hg : Geom fs) {k c : ℕ} (h : Owns fs d first C) (hc : C[i]? = some c) :
    wp (seekSteps fs k c) (fun c' d' => C[i + k]? = some c' ∧ Passed d d')
      (fun e d' => Beyond d d' (C.length ≤ i + k) e) d := by
  induction k generalizing i c d with
  | zero => exact ⟨hc, Passed.rfl⟩
  | succ k ih =>
    have hmem := List.mem_of_getElem? hc
    refine (fatEntry_took (h.range c hmem) (h.inDev c hmem).1).bind (fun v d₁ hv => ?_)
      fun _ _ he => .inr he
    obtain ⟨rfl, ht⟩ := hv
    have hp := ht.toPassed
    rcases hb : C[i + 1]? with _ | b
    · rw [if_pos (.inr (h.last_link hc hb))]
      have hlen := List.getElem?_eq_none_iff.mp hb
      exact .inl ⟨rfl, by omega, hp⟩
    · have hrb := h.range b (List.mem_of_getElem? hb)
      rw [h.link hc hb, if_neg (not_or.mpr ⟨by have := hrb.1; omega, hrb.not_eoc hg⟩)]
      refine (ih (h.quiet hp.quiet) hb).mono (fun c' d₂ h₂ => ?_) fun _ d₂ h₂ => ?_
      · exact ⟨by rw [← h₂.1]; congr 1; omega, hp.trans h₂.2⟩
      · exact hp.beyond (fun hle => by omega) h₂

lemma chainNth_took (hg : Geom fs) {idx : ℕ} (h : Owns fs d first C) :
    wp (chainNth fs first idx) (fun cur d' => C[idx]? = some cur.clus ∧ Passed d d')
      (fun e d' => Beyond d d' (C.length ≤ idx) e) d := by
  unfold chainNth chainSeek
  by_cases hne : C = []
  · rw [if_pos (by rw [h.head hne]; exact Nat.zero_lt_two), hne]
    exact .inl ⟨rfl, Nat.zero_le _, Passed.rfl⟩
  · have h0 := h.getElem_zero hne
    have hge := (h.range _ (List.mem_of_getElem? h0)).1
    rw [if_neg (Nat.not_lt.mpr hge)]
    refine (seekSteps_took hg h h0).bind (fun c d₁ hc => ?_) fun _ _ he => ?_
    · rw [Nat.zero_add] at hc
      exact hc
    · rwa [Nat.zero_add] at he

/-- The chain `C` holds the slots `sl`. -/
structure DirOk (fs : FatFs) (d : Dev) (first : ℕ) (C : List ℕ) (sl : ℕ → ℕ → UInt8) : Prop where
  file : FileOk fs d first C fun i => sl (i / 32) (i % 32)
  zero : ∀ p j, C.length * dirSlots fs ≤ p → sl p j = 0

variable {sl : ℕ → ℕ → UInt8}

lemma dirSlots_eq (fs : FatFs) : dirSlots fs = fs.secPerClus * 16 := by
  unfold dirSlots clusBytes
  omega

variable {p : ℕ}

/-- The sector of a slot is a sector of the chain. -/
lemma slot_lt : p < n * dirSlots fs ↔ p / 16 < n * fs.secPerClus := by
  rw [dirSlots_eq, ← Nat.mul_assoc, Nat.div_lt_iff_lt_mul (by decide)]

lemma DirOk.quiet (h : DirOk fs d first C sl) (hq : Quiet d d') : DirOk fs d' first C sl :=
  ⟨h.file.quiet hq, h.zero⟩

lemma DirOk.passed (h : DirOk fs d first C sl) (hp : Passed d d') : DirOk fs d' first C sl :=
  h.quiet hp.quiet

/-- A slot on the disk. -/
lemma DirOk.byte (h : DirOk fs d first C sl) {j : ℕ} (hp : p < C.length * dirSlots fs)
    (hj : j < 32) : d.data (sectOf fs C (p / 16) * 512 + (p % 16 * 32 + j)) = sl p j := by
  have hb := h.file.sector (slot_lt.mp hp) (show p % 16 * 32 + j < 512 by omega)
  have hslot : (p / 16 * 512 + (p % 16 * 32 + j)) / 32 = p := by omega
  have hoff : (p / 16 * 512 + (p % 16 * 32 + j)) % 32 = j := by omega
  rw [hb, hslot, hoff]

lemma dirSlotLocate_spec (hg : Geom fs) (h : Owns fs d first C) (p : ℕ) :
    wp (dirSlotLocate fs first p)
      (fun at' d' => p < C.length * dirSlots fs ∧ at' = slotPlace fs C p ∧ Passed d d')
      (fun e d' => Beyond d d' (C.length * dirSlots fs ≤ p) e) d := by
  have hpos : 0 < dirSlots fs := by
    have := hg.spc_pos
    rw [dirSlots_eq]
    omega
  refine (chainNth_took hg h).bind (fun cur d₁ h₁ => ?_) fun e d₁ he => ?_
  · obtain ⟨hcur, hp⟩ := h₁
    have hidx := (List.getElem?_eq_some_iff.mp hcur).1
    refine ⟨(Nat.div_lt_iff_lt_mul hpos).mp hidx, ?_, hp⟩
    have hdiv : p / dirSlots fs = p / 16 / fs.secPerClus := by
      rw [dirSlots_eq, Nat.mul_comm, Nat.div_div_eq_div_mul]
    have hmod : p % dirSlots fs = p / 16 % fs.secPerClus * 16 + p % 16 := by
      rw [dirSlots_eq, Nat.mul_comm, Nat.mod_mul]
      omega
    rw [hdiv] at hcur
    unfold slotPlace sectOf
    rw [hmod, List.getD_eq_getElem?_getD, hcur, Option.getD_some]
    refine Prod.ext ?_ ?_
    · omega
    · omega
  · exact Passed.rfl.beyond (fun hle => (Nat.le_div_iff_mul_le hpos).mp hle) he

lemma dirReadSlot_spec (hg : Geom fs) (h : DirOk fs d first C sl) (p : ℕ) :
    wp (dirReadSlot fs first p)
      (fun e d' => p < C.length * dirSlots fs ∧ (∀ j < 32, e j = sl p j) ∧ Took d d')
      (fun e d' => Beyond d d' (C.length * dirSlots fs ≤ p) e) d := by
  refine (dirSlotLocate_spec hg h.file.toOwns p).bind (fun at' d₁ h₁ => ?_) fun _ _ he => he
  obtain ⟨hlt, rfl, hp⟩ := h₁
  have hsect := h.file.sectOf_lt hg (slot_lt.mp hlt)
  refine (secRead_took (by rw [hp.nsect]; exact hsect)).bind (fun sec d₂ h₂ => ?_)
    fun _ _ he => .inr (hp.failed he)
  refine ⟨hlt, fun j hj => ?_, hp.took h₂.1⟩
  show sec (p % 16 * 32 + j) = sl p j
  rw [h₂.2 _ (by omega), hp.data]
  exact h.byte hlt hj

/-- Other bytes behind the end of the chain make no difference. -/
lemma FileOk.congr_ref {ref ref' : ℕ → UInt8} (h : FileOk fs d first C ref)
    (heq : ∀ i < C.length * clusBytes fs, ref i = ref' i) : FileOk fs d first C ref' :=
  ⟨h.toOwns, fun i hi => (h.bytes i hi).trans (heq i hi)⟩

lemma dirWriteSlot_spec (hg : Geom fs) (h : DirOk fs d first C sl) (e : ℕ → UInt8)
    (hlt : p < C.length * dirSlots fs) :
    wp (dirWriteSlot fs first p e)
      (fun _ d' => DirOk fs d' first C (update sl p e) ∧ (Calm d → Calm d'))
      (fun r _ => Failed d r) d := by
  refine (dirSlotLocate_spec hg h.file.toOwns p).bind (fun at' d₁ h₁ => ?_) fun _ _ he => ?_
  case refine_2 =>
    rcases he with ⟨_, hle, _⟩ | he
    · omega
    · exact he
  obtain ⟨_, rfl, hp⟩ := h₁
  have hk := slot_lt.mp hlt
  have hsect := h.file.sectOf_lt hg hk
  refine (secRead_took (by rw [hp.nsect]; exact hsect)).bind (fun sec d₂ h₂ => ?_)
    fun _ _ he => hp.failed he
  have hp₂ := hp.trans h₂.1.toPassed
  refine (secWrite_done (by rw [hp₂.nsect]; exact hsect)).mono (fun _ d₃ hw => ?_)
    fun _ _ he => hp₂.failed he
  refine ⟨⟨(((h.passed hp₂).file.patch hg hk hw).congr_ref fun i hi => ?_), fun q j hq => ?_⟩,
    fun hc => hw.calm (hp₂.calm.mpr hc)⟩
  · -- the sector of the slot, with the slot replaced
    show (if i / 512 = p / 16 then copy sec (p % 16 * 32) 32 e (i % 512) else sl (i / 32) (i % 32))
      = update sl p e (i / 32) (i % 32)
    have hsec : i / 512 = p / 16 → sec (i % 512) = sl (i / 32) (i % 32) := fun hik => by
      rw [h₂.2 _ (Nat.mod_lt _ (by decide)), hp.data]
      show d.data (sectOf fs C (p / 16) * 512 + i % 512) = _
      rw [h.file.sector hk (Nat.mod_lt _ (by decide)), ← hik]
      congr 1
      · congr 1
        omega
      · omega
    by_cases hip : i / 32 = p
    · rw [hip, update_self, if_pos (by omega),
        show i % 512 = p % 16 * 32 + i % 32 by omega, copy_add (Nat.mod_lt _ (by decide))]
    · rw [update_of_ne hip]
      split_ifs with hik
      · rw [← hsec hik]
        rcases Nat.lt_or_ge (i % 512) (p % 16 * 32) with hlow | hhigh
        · exact copy_of_lt hlow
        · exact copy_of_ge (by omega)
      · rfl
  · rw [update_of_ne (by omega)]
    exact h.zero q j hq

/-! ## Scans -/

lemma load_bytes {e e' : ℕ → UInt8} (he : ∀ j < 32, e j = e' j) (hn : p + n ≤ 32) :
    load e p n = load e' p n :=
  load_congr fun i hi => he (p + i) (by omega)

lemma lfnPlace_le {k : ℕ} (hk : k < 13) : lfnPlace k + 2 ≤ 32 := by
  unfold lfnPlace
  split_ifs <;> omega

/-- Only the 32 bytes of a slot count. -/
lemma collect_congr {e e' : ℕ → UInt8} (he : ∀ j < 32, e j = e' j) (st : LfnState) :
    st.collect e = st.collect e' := by
  have hlfn : ∀ (base : ℕ) (lfn : ℕ → ℕ),
      (fun i => if base ≤ i ∧ i < base + 13 ∧ i < VFS_NAME_MAX then load e (lfnPlace (i - base)) 2
        else lfn i)
      = fun i => if base ≤ i ∧ i < base + 13 ∧ i < VFS_NAME_MAX then
        load e' (lfnPlace (i - base)) 2 else lfn i := fun base lfn => by
    ext i
    split_ifs with hi
    · exact load_bytes he (lfnPlace_le (by omega))
    · rfl
  unfold LfnState.collect
  rw [he 0 (by decide), he 13 (by decide)]
  simp only [hlfn]

lemma info_congr {e e' : ℕ → UInt8} (he : ∀ j < 32, e j = e' j) (st : LfnState) (p : ℕ) :
    st.info e p = st.info e' p := by
  have hsfn : slice e 0 11 = slice e' 0 11 := slice_congr fun i hi => he _ (by omega)
  unfold LfnState.info
  rw [hsfn, he 11 (by decide), load_bytes he (by omega), load_bytes he (by omega),
    load_bytes he (by omega)]

/-- What `dir_next` answers from slot `p` on, against what is in the `n` slots left. -/
def NextIs (sl : ℕ → ℕ → UInt8) (n p : ℕ) (st : LfnState) (r : Option (DirentInfo × ℕ)) : Prop :=
  match r with
  | none => entriesFrom sl n p st = []
  | some (info, next) => p < next ∧ next ≤ p + n ∧
      entriesFrom sl n p st = info :: entriesFrom sl (p + n - next) next .empty

variable {fuel : ℕ}

/-- The scan takes the slots of a long name along to the entry behind them. -/
lemma dirNextFrom_spec (hg : Geom fs) {st : LfnState} (h : DirOk fs d first C sl)
    (hn : p + n = C.length * dirSlots fs) (hfuel : n < fuel) :
    wp (dirNextFrom fs first fuel p st)
      (fun r d' => NextIs sl n p st r ∧ Passed d d' ∧ (r ≠ none → Took d d'))
      (fun e _ => Failed d e) d := by
  induction fuel generalizing n p st d with
  | zero => omega
  | succ fuel ih =>
    refine wp_tryBind.mpr ((dirReadSlot_spec hg h p).mono (fun e d₁ h₁ => ?_) fun e d₁ he => ?_)
    · obtain ⟨hlt, he, ht⟩ := h₁
      have hp := ht.toPassed
      obtain ⟨m, rfl⟩ : ∃ m, n = m + 1 := ⟨n - 1, by omega⟩
      -- the rest of the scan, for a slot that is passed over
      have hgo : ∀ st', entriesFrom sl (m + 1) p st = entriesFrom sl m (p + 1) st' →
          wp (dirNextFrom fs first fuel (p + 1) st')
            (fun r d' => NextIs sl (m + 1) p st r ∧ Passed d d' ∧ (r ≠ none → Took d d'))
            (fun e _ => Failed d e) d₁ := fun st' hst' => by
        have hm : p + 1 + m = C.length * dirSlots fs := by omega
        refine (ih (h.passed hp) hm (by omega)).mono (fun r d₂ h₂ => ?_)
          fun _ _ he => hp.failed he
        obtain ⟨hr, hp', _⟩ := h₂
        refine ⟨?_, hp.trans hp', fun _ => ht.trans hp'⟩
        rcases r with _ | ⟨info, next⟩
        · exact hst'.trans hr
        · obtain ⟨h1, h2, h3⟩ := hr
          have hnext : p + 1 + m - next = p + (m + 1) - next := by omega
          rw [hnext] at h3
          exact ⟨by omega, by omega, hst'.trans h3⟩
      rw [he 0 (by decide), he 11 (by decide)]
      split_ifs with hfree hdel hlfn
      · exact ⟨by unfold NextIs entriesFrom; rw [if_pos hfree], hp, fun hr => absurd rfl hr⟩
      · exact hgo st (by rw [entriesFrom, if_neg hfree, if_pos hdel])
      · refine hgo _ ?_
        rw [entriesFrom, if_neg hfree, if_neg hdel, if_pos hlfn, collect_congr he]
      · refine ⟨⟨Nat.lt_succ_self _, by omega, ?_⟩, hp, fun _ => ht⟩
        have hrest : p + (m + 1) - (p + 1) = m := by omega
        rw [entriesFrom, if_neg hfree, if_neg hdel, if_neg hlfn, info_congr he, hrest]
    · rcases he with ⟨rfl, hle, hp⟩ | he
      · rw [if_pos rfl]
        have hzero : n = 0 := by omega
        exact ⟨by unfold NextIs; rw [hzero, entriesFrom], hp, fun hr => absurd rfl hr⟩
      · rw [he.1, if_neg (by decide)]
        rw [he.1] at he
        exact he

/-- The fuel of a scan is enough for every slot of a chain. -/
lemma slots_lt_scanFuel (h : Owns fs d first C) (d' : Dev) :
    C.length * dirSlots fs < scanFuel fs d' := by
  have hle := Nat.mul_le_mul_right (dirSlots fs) h.length_le
  unfold scanFuel
  rw [Nat.add_mul]
  omega

lemma dirFindFrom_spec (hg : Geom fs) {f : DirentInfo → Bool}
    (h : DirOk fs d first C sl) (hn : p + n = C.length * dirSlots fs) (hfuel : n < fuel) :
    wp (dirFindFrom fs first f fuel p)
      (fun r d' => r = (entriesFrom sl n p .empty).find? f ∧ Passed d d' ∧ (r ≠ none → Took d d'))
      (fun e _ => Failed d e) d := by
  induction fuel generalizing n p d with
  | zero => omega
  | succ fuel ih =>
    have hscan := slots_lt_scanFuel h.file.toOwns d
    refine wp_bind.mpr (wp_bind.mpr (wp_gets.mpr ?_))
    refine (dirNextFrom_spec hg h hn (by unfold id; omega)).mono (fun r d₁ h₁ => ?_)
      fun _ _ he => he
    obtain ⟨hr, hp, ht⟩ := h₁
    rcases r with _ | ⟨info, next⟩
    · have hnil : entriesFrom sl n p .empty = [] := hr
      exact ⟨by rw [hnil]; rfl, hp, fun hc => absurd rfl hc⟩
    · obtain ⟨hlt, hle, heq⟩ := hr
      have htook := ht (by simp)
      show wp (if f info = true then pure (some info) else dirFindFrom fs first f fuel next) _ _ d₁
      rw [heq]
      split_ifs with hf
      · exact ⟨by rw [List.find?_cons_of_pos hf], hp, fun _ => htook⟩
      · have hrest : next + (p + n - next) = C.length * dirSlots fs := by omega
        refine (ih (h.passed hp) hrest (by omega)).mono (fun r' d₂ h₂ => ?_)
          fun _ _ he => hp.failed he
        rw [List.find?_cons_of_neg hf]
        exact ⟨h₂.1, hp.trans h₂.2.1, fun _ => htook.trans h₂.2.1⟩

/-- The loops over `dir_next` find the first entry of the directory with `f`. -/
lemma dirFind_spec (hg : Geom fs) {f : DirentInfo → Bool} (h : DirOk fs d first C sl) :
    wp (dirFind fs first f)
      (fun r d' => r = (entries sl (C.length * dirSlots fs)).find? f ∧ Passed d d' ∧
        (r ≠ none → Took d d')) (fun e _ => Failed d e) d :=
  wp_bind.mpr (wp_gets.mpr
    (dirFindFrom_spec hg h (Nat.zero_add _) (slots_lt_scanFuel h.file.toOwns d)))

/-! ## Short names -/

/-- An entry has the short name `sfn`. -/
def SfnUsed (E : List DirentInfo) (sfn : List UInt8) : Prop := ∃ info ∈ E, info.sfn = sfn

lemma find_sfn {E : List DirentInfo} {sfn : List UInt8} :
    (E.find? fun info => decide (info.sfn = sfn)) = none ↔ ¬ SfnUsed E sfn := by
  rw [List.find?_eq_none]
  simp only [decide_eq_true_eq, SfnUsed, not_exists, not_and]

/-- One round of the search for a short name. -/
lemma pickSfn_round (hg : Geom fs) {sfn : List UInt8} {next : Prog Stop Dev (List UInt8)}
    {Q : List UInt8 → Dev → Prop} {E : Stop → Dev → Prop} (h : DirOk fs d first C sl)
    (hfail : ∀ e d', Failed d e → E e d')
    (hfree : ¬ SfnUsed (entries sl (C.length * dirSlots fs)) sfn → ∀ d', Passed d d' → Q sfn d')
    (hused : SfnUsed (entries sl (C.length * dirSlots fs)) sfn → ∀ d', Took d d' →
      wp next Q E d') :
    wp (dirFind fs first (fun info => info.sfn = sfn) >>= fun r =>
      if r.isSome then next else pure sfn) Q E d := by
  refine (dirFind_spec hg h).bind (fun r d₁ h₁ => ?_) hfail
  obtain ⟨hr, hp, ht⟩ := h₁
  rcases r with _ | info
  · exact hfree (find_sfn.mp hr.symm) d₁ hp
  · refine hused ?_ d₁ (ht (by simp))
    by_contra hno
    exact absurd (hr.trans (find_sfn.mpr hno)) (by simp)

variable {tmpl : List UInt8} {attempt : ℕ}

section

variable (hg : Geom fs) (h : DirOk fs d first C sl)
include hg h

/-- A plain name that no entry has is taken as it is. -/
lemma pickSfn_free (hfree : ¬ SfnUsed (entries sl (C.length * dirSlots fs)) tmpl) :
    wp (pickSfn fs first tmpl none (fuel + 1) attempt)
      (fun sfn d' => sfn = tmpl ∧ Passed d d') (fun e _ => Failed d e) d := by
  unfold pickSfn
  rw [if_neg (by simp)]
  exact pickSfn_round hg h (fun _ _ he => he) (fun _ _ hp => ⟨rfl, hp⟩) fun hu => absurd hu hfree

/-- A plain name that an entry has is tried again and again. -/
lemma pickSfn_stuck (hc : Calm d)
    (hused : SfnUsed (entries sl (C.length * dirSlots fs)) tmpl) :
    wp (pickSfn fs first tmpl none fuel attempt) (fun _ _ => False) (fun e _ => e = .hang) d := by
  induction fuel generalizing attempt d with
  | zero => exact rfl
  | succ fuel ih =>
    unfold pickSfn
    rw [if_neg (by simp)]
    exact pickSfn_round hg h (fun _ _ he => absurd hc he.2) (fun hno => absurd hused hno)
      fun _ d₁ ht => ih (h.passed ht.toPassed) (ht.calm.mpr hc)

/-- Only a transfer that fails ends that loop. -/
lemma pickSfn_fault (hc : ¬ Calm d) (hfuel : d.faults.length < fuel)
    (hused : SfnUsed (entries sl (C.length * dirSlots fs)) tmpl) :
    wp (pickSfn fs first tmpl none fuel attempt) (fun _ _ => False) (fun e _ => Failed d e) d := by
  induction fuel generalizing attempt d with
  | zero => omega
  | succ fuel ih =>
    unfold pickSfn
    rw [if_neg (by simp)]
    refine pickSfn_round hg h (fun _ _ he => he) (fun hno => absurd hused hno) fun _ d₁ ht => ?_
    rcases ht.fewer with hnil | hlt
    · exact absurd (fun f hf => absurd (hnil ▸ hf) List.not_mem_nil) hc
    · exact (ih (h.passed ht.toPassed) (fun hc₁ => hc (ht.calm.mp hc₁)) (by omega)).mono
        (fun _ _ hfalse => hfalse) fun _ _ he => ht.toPassed.failed he

/-- With a numeric tail the search gives up after the ninth name. -/
lemma pickSfn_tail (ha : 1 ≤ attempt) (hfuel : 10 < attempt + fuel) (hle : attempt ≤ 10) :
    wp (pickSfn fs first tmpl (some i) fuel attempt)
      (fun sfn d' => sfn ∈ (List.range' 1 9).map (fun k => tmpl.set i (UInt8.ofNat (48 + k))) ∧
        ¬ SfnUsed (entries sl (C.length * dirSlots fs)) sfn ∧ Passed d d')
      (fun e _ => e ≠ .hang) d := by
  induction fuel generalizing attempt d with
  | zero => omega
  | succ fuel ih =>
    unfold pickSfn
    by_cases hlast : attempt > 9
    · rw [if_pos ⟨rfl, hlast⟩]
      exact noConfusion
    rw [if_neg fun hc => hlast hc.2]
    refine pickSfn_round hg h (fun _ _ he => he.ne_hang) (fun hfree d₁ hp => ⟨?_, hfree, hp⟩)
      fun _ d₁ ht => ?_
    · refine List.mem_map.mpr ⟨attempt, ?_, rfl⟩
      rw [List.mem_range'_1]
      omega
    · exact (ih (h.passed ht.toPassed) (by omega) (by omega) (by omega)).mono
        (fun _ _ h₂ => ⟨h₂.1, h₂.2.1, ht.toPassed.trans h₂.2.2⟩) fun _ _ he => he

end

/-! ## Programs that end -/

/-- A program that does not run forever, from any state. -/
def Ends {σ α : Type} (x : Prog Stop σ α) : Prop := ∀ s, wp x (fun _ _ => True) (fun e _ => e ≠ .hang) s

section
variable {σ α β : Type}

lemma Ends.bind {x : Prog Stop σ α} {g : α → Prog Stop σ β} (hx : Ends x) (hg : ∀ a, Ends (g a)) :
    Ends (x >>= g) :=
  fun s => (hx s).bind (fun a s' _ => hg a s') fun _ _ he => he

lemma Ends.forM {L : List β} {g : β → Prog Stop σ Unit} (hg : ∀ i, Ends (g i)) : Ends (L.forM g) := by
  induction L with
  | nil => exact fun _ => trivial
  | cons i L ih => exact (hg i).bind fun _ => ih

lemma Ends.inChain {x : Prog Stop Dev α} (hx : Ends x) : Ends (inChain x) :=
  fun s => wp_zoom.mpr (hx s.1)

end

lemma secRead_ends (lba : ℕ) : Ends (secRead lba) := fun d => by
  unfold wp secRead
  split_ifs
  · exact noConfusion
  · rcases d.read lba with ⟨_ | _, _⟩
    · exact noConfusion
    · trivial

lemma secWrite_ends (lba : ℕ) (buf : ℕ → UInt8) : Ends (secWrite lba buf) := fun d => by
  unfold wp secWrite
  split_ifs
  · exact noConfusion
  · rcases d.write lba 1 buf with ⟨_ | _, _⟩
    · exact noConfusion
    · trivial

lemma fatEntry_ends (n : ℕ) : Ends (fatEntry fs n) := by
  unfold fatEntry
  split_ifs
  · exact fun _ => noConfusion
  · exact (secRead_ends _).bind fun _ _ => trivial

lemma fatSetEntry_ends (n val : ℕ) : Ends (fatSetEntry fs n val) :=
  (secRead_ends _).bind fun _ => .forM fun _ => secWrite_ends _ _

lemma findFree_ends (L : List ℕ) : Ends (findFree fs L) := by
  induction L with
  | nil => exact fun _ => trivial
  | cons scn rest ih =>
    refine (fatEntry_ends scn).bind fun v => ?_
    split_ifs
    · exact fun _ => trivial
    · exact ih

lemma growLoop_ends (count prev : ℕ) : Ends (growLoop fs count prev) := by
  induction count generalizing prev with
  | zero => exact fun _ => trivial
  | succ count ih =>
    refine (findFree_ends _).inChain.bind fun fresh => ?_
    split_ifs
    · exact fun _ => noConfusion
    · refine (Ends.forM fun _ => secWrite_ends _ _).inChain.bind fun _ => ?_
      refine (fatSetEntry_ends _ _).inChain.bind fun _ => ?_
      exact (fatSetEntry_ends _ _).inChain.bind fun _ => ih fresh
    · refine (Ends.forM fun _ => secWrite_ends _ _).inChain.bind fun _ => ?_
      refine (fatSetEntry_ends _ _).inChain.bind fun _ => ?_
      exact Ends.bind (fun _ => trivial) fun _ => ih fresh

/-- The walk to the last cluster ends on a chain without a cycle. -/
lemma chainTail_ends {c : ℕ} (h : Owns fs d first C) (hc : C[i]? = some c)
    (hfuel : C.length ≤ i + fuel) :
    wp (chainTail fs fuel c) (fun _ _ => True) (fun e _ => e ≠ .hang) d := by
  induction fuel generalizing i c d with
  | zero =>
    have hlt := (List.getElem?_eq_some_iff.mp hc).1
    omega
  | succ fuel ih =>
    have hmem := List.mem_of_getElem? hc
    refine (fatEntry_took (h.range c hmem) (h.inDev c hmem).1).bind (fun v d₁ hv => ?_)
      fun _ _ he => he.ne_hang
    obtain ⟨rfl, ht⟩ := hv
    split_ifs with hlast
    · trivial
    · rcases hb : C[i + 1]? with _ | b
      · exact absurd (.inr (h.last_link hc hb)) hlast
      · rw [h.link hc hb]
        exact ih (h.quiet ht.quiet) hb (by omega)

lemma chainGrow_ends {count : ℕ} (h : Owns fs d first C) :
    wp (chainGrow fs count) (fun _ _ => True) (fun e _ => e ≠ .hang) (d, first) := by
  refine wp_bind.mpr (wp_gets.mpr ?_)
  show wp ((if 2 ≤ first then inChain (chainTail fs (fs.totalClusters + d.faults.length + 1) first)
    else pure first) >>= fun prev => growLoop fs count prev) _ _ (d, first)
  split_ifs with hge
  · have hne : C ≠ [] := fun hnil => by
      have := h.head hnil
      omega
    have hlen := h.length_le
    exact inChain_bind ((chainTail_ends h (h.getElem_zero hne) (by omega)).mono
      (fun prev d₁ _ => growLoop_ends count prev _) fun _ _ he => he)
  · exact growLoop_ends count first _

/-! ## Room -/

lemma vacantRun_le (sl : ℕ → ℕ → UInt8) (n p : ℕ) : vacantRun sl n p ≤ n := by
  induction n generalizing p with
  | zero => exact Nat.le_refl _
  | succ n ih =>
    unfold vacantRun
    split_ifs
    · exact Nat.succ_le_succ (ih (p + 1))
    · exact Nat.zero_le _

lemma vacantRun_vacant {j : ℕ} (hj : j < vacantRun sl n p) : Vacant (sl (p + j)) := by
  induction n generalizing p j with
  | zero => exact absurd hj (Nat.not_lt_zero _)
  | succ n ih =>
    unfold vacantRun at hj
    split_ifs at hj with hv
    · cases j with
      | zero => exact hv
      | succ j =>
        have hrest := ih (Nat.lt_of_succ_lt_succ hj)
        rwa [Nat.add_right_comm] at hrest
    · exact absurd hj (Nat.not_lt_zero _)

lemma freeRun_spec (hg : Geom fs) {run : ℕ} (h : DirOk fs d first C sl)
    (hn : p + n ≤ C.length * dirSlots fs) :
    wp (freeRun fs first n p run) (fun r d' => r = (run + vacantRun sl n p, false) ∧ Passed d d')
      (fun e _ => Failed d e) d := by
  induction n generalizing p run d with
  | zero => exact ⟨rfl, Passed.rfl⟩
  | succ n ih =>
    refine wp_tryBind.mpr ((dirReadSlot_spec hg h p).mono (fun e d₁ h₁ => ?_) fun e d₁ he => ?_)
    · obtain ⟨_, he, ht⟩ := h₁
      have hp := ht.toPassed
      unfold vacantRun
      rw [he 0 (by decide)]
      by_cases hv : Vacant (sl p)
      · rw [if_pos hv, if_neg (by unfold Vacant at hv; tauto)]
        refine (ih (h.passed hp) (by omega)).mono (fun r d₂ h₂ => ?_) fun _ _ he => hp.failed he
        exact ⟨h₂.1.trans (by congr 1; omega), hp.trans h₂.2⟩
      · rw [if_neg hv, if_pos (by unfold Vacant at hv; tauto)]
        exact ⟨rfl, hp⟩
    · rcases he with ⟨_, hle, _⟩ | he
      · omega
      · rw [he.1, if_neg (by decide)]
        rw [he.1] at he
        exact he

/-- One more cluster, full of free slots. -/
lemma DirOk.grow (hg : Geom fs) (h : DirOk fs d first C sl) :
    wp (chainGrow fs 1)
      (fun _ s => ∃ f, DirOk fs s.1 s.2 (C ++ [f]) sl ∧ (Calm d → Calm s.1)) (fun e _ => e ≠ .hang)
      (d, first) := by
  have hz : ∀ i, C.length * clusBytes fs ≤ i → sl (i / 32) (i % 32) = 0 := fun i hi => by
    refine h.zero _ _ ?_
    have hcb : clusBytes fs = dirSlots fs * 32 := by
      rw [dirSlots_eq, clusBytes]
      omega
    rw [hcb, ← Nat.mul_assoc] at hi
    omega
  have hend : wp (chainGrow fs 1) _ _ (d, first) := chainGrow_ends h.file.toOwns
  have hgrow : wp (chainGrow fs 1) _ _ (d, first) := chainGrow_spec hg h.file hz
  refine (hgrow.and hend).mono (fun _ s h₁ => ?_) fun _ _ he => he.2
  obtain ⟨⟨new, hlen, hgr⟩, _⟩ := h₁
  obtain ⟨f, rfl⟩ := List.length_eq_one_iff.mp hlen
  refine ⟨f, ⟨hgr.file, fun p j hp => h.zero p j (Nat.le_trans ?_ hp)⟩, hgr.calm⟩
  exact Nat.mul_le_mul_right _ (by rw [List.length_append]; exact Nat.le_add_right _ _)

/-- The room that `fat_create` has found: `need` vacant slots from `p` on, in a chain that may
have grown. -/
structure RoomAt (fs : FatFs) (sl : ℕ → ℕ → UInt8) (need : ℕ) (C' : List ℕ) (p : ℕ)
    (s : Dev × ℕ) : Prop where
  dir : DirOk fs s.1 s.2 C' sl
  inside : p + need ≤ C'.length * dirSlots fs
  vacant : ∀ j < need, Vacant (sl (p + j))

/-- Each round passes a slot or takes one of the clusters that the directory does not have. -/
lemma slotSearch_spec (hg : Geom fs) {need pidx cap : ℕ} (h : DirOk fs d first C sl)
    (hcap : cap ≤ C.length * dirSlots fs) (hpidx : pidx ≤ cap)
    (hfuel : cap - pidx + (fs.totalClusters - C.length) * (dirSlots fs + 1) < fuel) :
    wp (slotSearch fs need fuel pidx cap)
      (fun p s => (∃ C', RoomAt fs sl need C' p s) ∧
        p = fitFrom sl (dirSlots fs) need fuel pidx cap ∧ (Calm d → Calm s.1))
      (fun e _ => e ≠ .hang) (d, first) := by
  induction fuel generalizing pidx cap C d first with
  | zero => omega
  | succ fuel ih =>
    refine wp_bind.mpr (wp_gets.mpr (inChain_bind ((freeRun_spec hg h ?_).mono
      (fun r d₁ h₁ => ?_) fun _ _ he => he.ne_hang)))
    · omega
    obtain ⟨rfl, hp⟩ := h₁
    have hle := vacantRun_le sl (cap - pidx) pidx
    unfold fitFrom
    simp only [Nat.zero_add, Bool.false_eq_true, false_or]
    split_ifs with hrun hend
    · -- enough slots in a row
      refine ⟨⟨C, h.passed hp, by omega, fun j hj => ?_⟩, rfl, hp.calm.mpr⟩
      exact vacantRun_vacant (Nat.lt_of_lt_of_le hj hrun)
    · -- at the end of the directory: one more cluster
      refine ((h.passed hp).grow hg).bind (fun _ s₂ h₂ => ?_) fun _ _ he => he
      obtain ⟨f, hdir, hcalm⟩ := h₂
      have hlen : (C ++ [f]).length = C.length + 1 := by
        rw [List.length_append, List.length_singleton]
      have hmax := hdir.file.toOwns.length_le
      have hmul : (C.length + 1) * dirSlots fs = C.length * dirSlots fs + dirSlots fs := by
        rw [Nat.add_mul, Nat.one_mul]
      have hfree : (fs.totalClusters - C.length) * (dirSlots fs + 1)
          = (fs.totalClusters - (C.length + 1)) * (dirSlots fs + 1) + (dirSlots fs + 1) := by
        rw [← Nat.succ_mul]
        congr 1
        omega
      refine (ih hdir (by rw [hlen]; omega) (by omega) (by rw [hlen]; omega)).mono
        (fun p s₃ h₃ => ⟨h₃.1, h₃.2.1, fun hc => h₃.2.2 (hcalm (hp.calm.mpr hc))⟩) fun _ _ he => he
    · -- a used slot, or too few vacant ones: go on behind them
      refine (ih (h.passed hp) hcap (by omega) (by omega)).mono
        (fun p s₃ h₃ => ⟨h₃.1, h₃.2.1, fun hc => h₃.2.2 (hp.calm.mpr hc)⟩) fun _ _ he => he

lemma chainLenFrom_took (hg : Geom fs) {c : ℕ} (h : Owns fs d first C)
    (hc : C[i]? = some c) (hfuel : C.length < i + fuel) (hn : n = i) :
    wp (chainLenFrom fs fuel c n) (fun m d' => m = C.length ∧ Passed d d') (fun e _ => Failed d e)
      d := by
  induction fuel generalizing i c n d with
  | zero =>
    have hlt := (List.getElem?_eq_some_iff.mp hc).1
    omega
  | succ fuel ih =>
    have hmem := List.mem_of_getElem? hc
    have hrc := h.range c hmem
    have hlt := (List.getElem?_eq_some_iff.mp hc).1
    have hmax := h.length_le
    unfold chainLenFrom
    rw [if_neg (not_or.mpr ⟨by have := hrc.1; omega, hrc.not_eoc hg⟩)]
    refine (fatEntry_took hrc (h.inDev c hmem).1).bind (fun v d₁ hv => ?_) fun _ _ he => he
    obtain ⟨rfl, ht⟩ := hv
    have hp := ht.toPassed
    rw [if_neg (by omega)]
    rcases hb : C[i + 1]? with _ | b
    · have hlen := List.getElem?_eq_none_iff.mp hb
      obtain ⟨m, rfl⟩ : ∃ m, fuel = m + 1 := ⟨fuel - 1, by omega⟩
      unfold chainLenFrom
      rw [if_pos (.inr (h.last_link hc hb))]
      exact ⟨by omega, hp⟩
    · rw [h.link hc hb]
      exact (ih (h.quiet hp.quiet) hb (by omega) (by rw [hn])).mono
        (fun m d₂ hm => ⟨hm.1, hp.trans hm.2⟩) fun _ _ he => hp.failed he

/-- The number of clusters of a directory; a failed walk counts as none. -/
lemma dirLen_spec (hg : Geom fs) (h : DirOk fs d first C sl) :
    wp (if first = 0 then pure 0
      else inChain (tryBind (chainLen fs first) pure fun _ => pure 0))
      (fun n s => s.2 = first ∧ DirOk fs s.1 first C sl ∧ n ≤ C.length ∧
        (Calm d → n = C.length ∧ Calm s.1)) (fun _ _ => False) (d, first) := by
  by_cases hne : C = []
  · rw [if_pos (h.file.head hne), hne]
    exact ⟨rfl, hne ▸ h, Nat.le_refl _, fun hc => ⟨rfl, hc⟩⟩
  · have h0 := h.file.getElem_zero hne
    have hge := (h.file.range _ (List.mem_of_getElem? h0)).1
    have hmax := h.file.toOwns.length_le
    rw [if_neg (by omega)]
    have hlen : wp (chainLen fs first) _ _ d :=
      (chainLenFrom_took hg h.file.toOwns h0 (by omega) rfl).and
        (chainLenFrom_spec hg (h.file.linked hne) h.file.range)
    refine wp_zoom.mpr (wp_tryBind.mpr (hlen.mono (fun n d₁ h₁ => ?_) fun _ d₁ he => ?_))
    · obtain ⟨⟨hn, hp⟩, _⟩ := h₁
      exact ⟨rfl, h.passed hp, Nat.le_of_eq hn, fun hc => ⟨hn, hp.calm.mpr hc⟩⟩
    · exact ⟨rfl, h.quiet he.2.1, Nat.zero_le _, fun hc => absurd hc he.1.2⟩

lemma dirRoom_spec (hg : Geom fs) {need : ℕ} (h : DirOk fs d first C sl) :
    wp (dirRoom fs need)
      (fun p s => (∃ C', RoomAt fs sl need C' p s) ∧
        (Calm d → p = fit fs sl C need ∧ Calm s.1))
      (fun e _ => e ≠ .hang) (d, first) := by
  refine wp_bind.mpr (wp_gets.mpr ?_)
  refine (dirLen_spec hg h).bind (fun n s₁ h₁ => ?_) fun _ _ he => he.elim
  obtain ⟨rfl, hdir, hle, hcalm⟩ := h₁
  have hcap : n * dirSlots fs ≤ C.length * dirSlots fs := Nat.mul_le_mul_right _ hle
  have hfuel : (fs.totalClusters - C.length) * (dirSlots fs + 1)
      ≤ (fs.totalClusters + 1) * (dirSlots fs + 1) := Nat.mul_le_mul_right _ (by omega)
  refine (slotSearch_spec hg hdir hcap (Nat.zero_le _) (by omega)).mono (fun p s₂ h₂ => ?_)
    fun _ _ he => he
  refine ⟨h₂.1, fun hc => ?_⟩
  obtain ⟨hn, hc₁⟩ := hcalm hc
  refine ⟨?_, h₂.2.2 hc₁⟩
  rw [h₂.2.1, hn]
  rfl

/-! ## A new entry -/

/-- Clusters that another chain takes are not those of the directory. -/
lemma DirOk.other_growth (hg : Geom fs) (h : DirOk fs d first C sl) {new : List ℕ}
    {ref : ℕ → UInt8} {s : Dev × ℕ} (hgr : Growth fs ref [] new d s) :
    DirOk fs s.1 first C sl ∧ ∀ c ∈ new, InRange fs c ∧ c ∉ C := by
  have hnot : ∀ c ∈ new, c ∉ C := fun c hc hmem =>
    h.file.entry_ne_zero hmem (hgr.free c hc).2
  refine ⟨⟨⟨h.file.toOwns.congr (fun c hc => ?_) hgr.nsect, fun i hi => ?_⟩, h.zero⟩,
    fun c hc => ⟨(hgr.free c hc).1, hnot c hc⟩⟩
  · exact hgr.entry c (h.file.range c hc) fun hmem => hnot c hmem hc
  · have hm := List.mem_of_getElem? (sectOf_mem hg (div_lt_sectors.mp hi))
    have hdiv : (sectOf fs C (i / 512) * 512 + i % 512) / 512 = sectOf fs C (i / 512) := by omega
    rw [hgr.data _ (by rw [hdiv]; exact dataStart_le_sectOf _), h.file.bytes i hi]
    rw [hdiv]
    intro c hc hmem
    obtain ⟨r, hr, heq⟩ := mem_clusSectors.mp hmem
    have hsame := (clusRelLba_inj hg (hgr.free c hc).1.1 (h.file.range _ hm).1 hr
      (Nat.mod_lt _ hg.spc_pos) heq).1
    exact hnot c hc (hsame ▸ hm)

/-- The cluster of a new directory is not one of the directory it is in. -/
structure Apart (fs : FatFs) (C : List ℕ) (c : ℕ) : Prop where
  range : InRange fs c
  notMem : c ∉ C

lemma newCluster_spec (hg : Geom fs) (h : DirOk fs d first C sl) :
    wp (newCluster fs)
      (fun self s => s.2 = first ∧ DirOk fs s.1 first C sl ∧ Apart fs C self ∧
        (Calm d → Calm s.1)) (fun e _ => e ≠ .hang) (d, first) := by
  have hnil : FileOk fs d 0 [] fun _ => 0 :=
    ⟨⟨fun _ => rfl, fun hne => absurd rfl hne, by simp, by simp⟩, by simp⟩
  have hgrow : wp (chainGrow fs 1) _ _ (d, 0) :=
    (chainGrow_spec hg hnil fun _ _ => rfl).and (chainGrow_ends hnil.toOwns)
  unfold wp newCluster at *
  rcases hrun : chainGrow fs 1 (d, 0) with ⟨e | _, s⟩ <;> rw [hrun] at hgrow
  · exact hgrow.2
  · obtain ⟨⟨new, hlen, hgr⟩, _⟩ := hgrow
    obtain ⟨f, rfl⟩ := List.length_eq_one_iff.mp hlen
    obtain ⟨hdir, hnew⟩ := h.other_growth hg hgr
    have hf : s.2 = f := by
      have h0 := hgr.file.getElem_zero (by simp)
      simpa using h0.symm
    obtain ⟨hr, hnot⟩ := hnew f (List.mem_singleton_self f)
    exact ⟨rfl, hdir, ⟨hf ▸ hr, hf ▸ hnot⟩, hgr.calm⟩

/-- The `.` and `..` of a new directory go to its own cluster. -/
lemma writeDots_spec (hg : Geom fs) {self : ℕ} (h : DirOk fs d first C sl)
    (ha : Apart fs C self) :
    wp (writeDots fs self first) (fun _ d' => DirOk fs d' first C sl ∧ (Calm d → Calm d'))
      (fun e _ => e ≠ .hang) d := by
  have hread : wp (secRead (clusRelLba fs self)) _ _ d :=
    (secRead_spec _ d).and (secRead_ends _ d)
  refine hread.bind (fun sec d₁ h₁ => ?_) fun _ _ he => he.2
  obtain ⟨⟨_, hq, _⟩, _⟩ := h₁
  have hwrite : wp (secWrite (clusRelLba fs self) (dotSector sec self first)) _ _ d₁ :=
    (secWrite_spec _ _ d₁).and (secWrite_ends _ _ d₁)
  refine hwrite.mono (fun _ d₂ h₂ => ?_) fun _ _ he => he.2
  obtain ⟨⟨_, hw⟩, _⟩ := h₂
  have hfile := (h.quiet hq).file.foreign hg ha.range ha.notMem (r := 0) hg.spc_pos hw
  exact ⟨⟨hfile, h.zero⟩, fun hc => hw.calm (hq.calm hc)⟩

variable {name sfn : List UInt8} {isDir : Bool} {clus n p : ℕ}

lemma lfnSlots_succ {sum : UInt8} {j : ℕ} :
    update (lfnSlots sl p name sum n j) (p + j) (lfnSlot name sum n (n - j))
      = lfnSlots sl p name sum n (j + 1) := by
  ext q i
  by_cases hq : q = p + j
  · have hj : n - (p + j - p) = n - j := by omega
    rw [hq, update_self, lfnSlots, if_pos ⟨by omega, by omega⟩, hj]
  · rw [update_of_ne hq, lfnSlots, lfnSlots]
    by_cases hlt : p ≤ q ∧ q < p + j
    · rw [if_pos hlt, if_pos ⟨hlt.1, by omega⟩]
    · rw [if_neg hlt, if_neg (by omega)]

lemma writeEntry_spec (hg : Geom fs) (h : DirOk fs d first C sl)
    (hin : p + (n + 1) ≤ C.length * dirSlots fs) :
    wp (writeEntry fs first p name sfn n isDir clus)
      (fun _ d' => DirOk fs d' first C (entrySlots sl p name sfn n isDir clus) ∧
        (Calm d → Calm d')) (fun e _ => e ≠ .hang) d := by
  have hlfn : wp ((List.range n).forM fun j =>
      dirWriteSlot fs first (p + j) (lfnSlot name (lfnChecksum sfn) n (n - j)))
      (fun _ d' => DirOk fs d' first C (lfnSlots sl p name (lfnChecksum sfn) n n) ∧
        (Calm d → Calm d')) (fun e _ => e ≠ .hang) d := by
    refine wp_forM_range (I := fun j d' =>
      DirOk fs d' first C (lfnSlots sl p name (lfnChecksum sfn) n j) ∧ (Calm d → Calm d'))
      ⟨?_, id⟩ fun j hj d₁ h₁ => ?_
    · have h0 : lfnSlots sl p name (lfnChecksum sfn) n 0 = sl := by
        ext q i
        rw [lfnSlots, if_neg (by omega)]
      rwa [h0]
    · refine (dirWriteSlot_spec hg h₁.1 _ (by omega)).mono (fun _ d₂ h₂ => ?_)
        fun _ _ he => he.ne_hang
      rw [lfnSlots_succ] at h₂
      exact ⟨h₂.1, fun hc => h₂.2 (h₁.2 hc)⟩
  refine hlfn.bind (fun _ d₁ h₁ => ?_) fun _ _ he => he
  refine (dirWriteSlot_spec hg h₁.1 _ (by omega)).mono (fun _ d₂ h₂ => ?_)
    fun _ _ he => he.ne_hang
  exact ⟨h₂.1, fun hc => h₂.2 (h₁.2 hc)⟩

/-- What `fat_create` leaves behind for an entry of `n` long-name slots in front of `sfn`. -/
structure Entered (fs : FatFs) (sl : ℕ → ℕ → UInt8) (C : List ℕ) (d : Dev) (name sfn : List UInt8)
    (n : ℕ) (isDir : Bool) (inode : FatInode) (s : Dev × ℕ) (C' : List ℕ) (p : ℕ) : Prop where
  dir : DirOk fs s.1 s.2 C' (entrySlots sl p name sfn n isDir inode.firstClus)
  inside : p + (n + 1) ≤ C'.length * dirSlots fs
  vacant : ∀ j < n + 1, Vacant (sl (p + j))
  node : inode = ⟨inode.firstClus, isDir, 0, true, (slotPlace fs C' (p + n)).1,
    (slotPlace fs C' (p + n)).2⟩
  clus : inode.firstClus < 2 ^ 32
  calm : Calm d → p = fit fs sl C (n + 1) ∧ Calm s.1

/-- The new entry goes to the room that has been found. -/
lemma enterAt_spec (hg : Geom fs) {self : ℕ} {memVn : Bool} {C' : List ℕ} {s : Dev × ℕ}
    (hroom : RoomAt fs sl (n + 1) C' p s) (hself : self < 2 ^ 32)
    (hcalm : Calm d → p = fit fs sl C (n + 1) ∧ Calm s.1) :
    wp (do
      inChain (writeEntry fs s.2 p name sfn n isDir self)
      let at' ← inChain (dirSlotLocate fs s.2 (p + n))
      if memVn = false then fail (.errno .enomem)
      else pure (⟨self, isDir, 0, true, at'.1, at'.2⟩ : FatInode))
      (fun inode s' => ∃ C' p, Entered fs sl C d name sfn n isDir inode s' C' p)
      (fun e _ => e ≠ .hang) s := by
  refine inChain_bind ((writeEntry_spec hg hroom.dir hroom.inside).mono (fun _ d₂ h₂ => ?_)
    fun _ _ he => he)
  obtain ⟨hdir, hc₂⟩ := h₂
  refine inChain_bind ((dirSlotLocate_spec hg hdir.file.toOwns (p + n)).mono (fun at' d₃ h₃ => ?_)
    fun _ _ he => ?_)
  · obtain ⟨_, rfl, hp⟩ := h₃
    split_ifs
    · exact noConfusion
    · exact ⟨C', p, hdir.passed hp, hroom.inside, hroom.vacant, rfl, hself,
        fun hc => ⟨(hcalm hc).1, hp.calm.mpr (hc₂ (hcalm hc).2)⟩⟩
  · rcases he with ⟨he, _⟩ | he
    · rw [he]
      exact noConfusion
    · exact he.ne_hang

lemma createEntry_spec (hg : Geom fs) {self : ℕ} {memVn : Bool} (h : DirOk fs d first C sl)
    (hself : self < 2 ^ 32) (hapart : isDir = true → Apart fs C self) {d₀ : Dev}
    (hcalm : Calm d₀ → Calm d) :
    wp (createEntry fs name sfn n isDir self memVn)
      (fun inode s' => ∃ C' p, Entered fs sl C d₀ name sfn n isDir inode s' C' p)
      (fun e _ => e ≠ .hang) (d, first) := by
  refine wp_bind.mpr (wp_gets.mpr ?_)
  have hdots : wp (if isDir = true then inChain (writeDots fs self first)
      else (pure () : Prog Stop (Dev × ℕ) Unit))
      (fun _ s => s.2 = first ∧ DirOk fs s.1 first C sl ∧ (Calm d₀ → Calm s.1))
      (fun e _ => e ≠ .hang) (d, first) := by
    split_ifs with hd
    · refine wp_zoom.mpr ((writeDots_spec hg h (hapart hd)).mono (fun _ d₁ h₁ => ?_)
        fun _ _ he => he)
      exact ⟨rfl, h₁.1, fun hc => h₁.2 (hcalm hc)⟩
    · exact ⟨rfl, h, hcalm⟩
  refine hdots.bind (fun _ s₁ h₁ => ?_) fun _ _ he => he
  obtain ⟨rfl, hdir, hc₁⟩ := h₁
  refine (dirRoom_spec hg hdir).bind (fun p s₂ h₂ => ?_) fun _ _ he => he
  obtain ⟨⟨C', hroom⟩, hfit⟩ := h₂
  refine wp_bind.mpr (wp_gets.mpr ?_)
  exact enterAt_spec hg hroom hself fun hc => hfit (hc₁ hc)

end Fat32
end MobilePhoneOs.Fs
