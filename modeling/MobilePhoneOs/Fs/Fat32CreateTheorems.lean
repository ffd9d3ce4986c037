import MobilePhoneOs.Fs.Fat32DirTheorems

/-!
# Short names of new FAT32 entries

`fat_create` gives a new entry a short name that no other entry has. With a name that is plain
8.3 and taken it never ends: it tries the same short name again and again.
-/

namespace MobilePhoneOs.Fs
namespace Fat32

open Mem Prog

variable {fs : FatFs} {d d' : Dev} {first : ℕ} {C : List ℕ} {sl sl' : ℕ → ℕ → UInt8}

/-! ## Slots on the disk -/

lemma clusBytes_eq (fs : FatFs) : clusBytes fs = dirSlots fs * 32 := by
  rw [dirSlots_eq, clusBytes]
  omega

/-- The slots of a chain are what the disk holds. -/
lemma Owns.dirOk (h : Owns fs d first C) : DirOk fs d first C (slotsOf fs d C) := by
  refine ⟨⟨h, fun i hi => ?_⟩, fun p j hp => if_neg (Nat.not_lt.mpr hp)⟩
  have hlt : i / 32 < C.length * dirSlots fs := by
    rw [clusBytes_eq, ← Nat.mul_assoc] at hi
    omega
  have hsect : i / 32 / 16 = i / 512 := by omega
  have hoff : i / 32 % 16 * 32 + i % 32 = i % 512 := by omega
  unfold slotsOf
  rw [if_pos hlt, hsect, hoff]

/-- The bytes of the slots agree. -/
def SameSlots (sl sl' : ℕ → ℕ → UInt8) : Prop := ∀ p, ∀ j < 32, sl p j = sl' p j

lemma DirOk.slotsOf (h : DirOk fs d first C sl) : SameSlots (slotsOf fs d C) sl := fun p j hj => by
  unfold Fat32.slotsOf
  split_ifs with hp
  · exact h.byte hp hj
  · exact (h.zero p j (Nat.not_lt.mp hp)).symm

lemma SameSlots.entriesFrom (h : SameSlots sl sl') (n p : ℕ) (st : LfnState) :
    entriesFrom sl n p st = entriesFrom sl' n p st := by
  induction n generalizing p st with
  | zero => rfl
  | succ n ih =>
    unfold Fat32.entriesFrom
    rw [h p 0 (by decide), h p 11 (by decide), ih, ih, ih, collect_congr (h p), info_congr (h p)]

lemma SameSlots.live (h : SameSlots sl sl') (p : ℕ) : Live (sl p) ↔ Live (sl' p) := by
  unfold Live Vacant
  rw [h p 0 (by decide), h p 11 (by decide)]

lemma SameSlots.sfnOf (h : SameSlots sl sl') (p : ℕ) : sfnOf (sl p) = sfnOf (sl' p) :=
  slice_congr fun i hi => h p _ (by omega)

/-- A scan that meets no end in front of a short entry delivers it. -/
lemma mem_entriesFrom {n p q : ℕ} {st : LfnState} (hle : p ≤ q) (hlt : q < p + n)
    (hlive : Live (sl q)) (hend : ∀ i, p ≤ i → i < q → sl i 0 ≠ SLOT_FREE) :
    ∃ info ∈ entriesFrom sl n p st, info.pidx = q ∧ info.sfn = sfnOf (sl q) := by
  induction n generalizing p st with
  | zero => omega
  | succ n ih =>
    unfold entriesFrom
    rcases Nat.eq_or_lt_of_le hle with rfl | hlt'
    · obtain ⟨hvac, hlfn⟩ := hlive
      rw [if_neg fun h0 => hvac (.inl h0), if_neg fun h0 => hvac (.inr h0), if_neg hlfn]
      exact ⟨_, List.mem_cons_self, rfl, rfl⟩
    · have hrest : ∀ st', ∃ info ∈ entriesFrom sl n (p + 1) st',
          info.pidx = q ∧ info.sfn = sfnOf (sl q) := fun st' =>
        ih hlt' (by omega) fun i hi => hend i (by omega)
      rw [if_neg (hend p (Nat.le_refl p) hlt')]
      split_ifs
      · exact hrest _
      · exact hrest _
      · obtain ⟨info, hmem, hinfo⟩ := hrest .empty
        exact ⟨info, List.mem_cons_of_mem _ hmem, hinfo⟩

/-! ## Short names -/

/-- The 11 bytes of a name field that starts with a character of a name. -/
structure ShortName (c : List UInt8) : Prop where
  length : c.length = 11
  head : ∃ a l, c = a :: l ∧ sfnCharOk a = true

/-- The marks of short names are visible, no dots and no small letters. -/
lemma sfnMarks_range : ∀ c ∈ sfnMarks, 33 ≤ c.toNat ∧ c.toNat < 127 ∧ c.toNat ≠ 46 ∧
    ¬ (97 ≤ c.toNat ∧ c.toNat ≤ 122) := by decide +kernel

lemma sfnCharOk_spec {c : UInt8} (h : sfnCharOk c = true) :
    33 ≤ c.toNat ∧ c.toNat < 127 ∧ c.toNat ≠ 46 ∧ ¬ (97 ≤ c.toNat ∧ c.toNat ≤ 122) := by
  simp only [sfnCharOk, Bool.or_eq_true, Bool.and_eq_true, decide_eq_true_eq,
    List.contains_iff_mem] at h
  rcases h with (⟨hlo, hhi⟩ | ⟨hlo, hhi⟩) | hmark
  · have hlo' : 65 ≤ c.toNat := UInt8.le_iff_toNat_le.mp hlo
    have hhi' : c.toNat ≤ 90 := UInt8.le_iff_toNat_le.mp hhi
    omega
  · have hlo' : 48 ≤ c.toNat := UInt8.le_iff_toNat_le.mp hlo
    have hhi' : c.toNat ≤ 57 := UInt8.le_iff_toNat_le.mp hhi
    omega
  · exact sfnMarks_range c hmark

lemma upchar_ok (c : UInt8) (h : sfnCharOk c = true) : upchar c = c := by
  have hsmall := (sfnCharOk_spec h).2.2.2
  refine if_neg fun hc => hsmall ?_
  exact ⟨UInt8.le_iff_toNat_le.mp hc.1, UInt8.le_iff_toNat_le.mp hc.2⟩

/-- The characters of short names are visible, and no dots. -/
lemma sfnCharOk_range (c : UInt8) (h : sfnCharOk c = true) :
    33 ≤ c.toNat ∧ c.toNat < 127 ∧ c.toNat ≠ 46 := by
  obtain ⟨hlo, hhi, hdot, _⟩ := sfnCharOk_spec h
  exact ⟨hlo, hhi, hdot⟩

lemma ShortName.pad {nb ne : List UInt8} (hnb : ∃ a l, nb = a :: l ∧ sfnCharOk a = true)
    (h8 : nb.length ≤ 8) (h3 : ne.length ≤ 3) : ShortName (padSfn nb ne) := by
  obtain ⟨a, l, rfl, ha⟩ := hnb
  refine ⟨?_, a, _, rfl, ha⟩
  simp only [padSfn, List.length_append, List.length_replicate]
  omega

lemma ShortName.set {c : List UInt8} (h : ShortName c) {i : ℕ} (hi : 0 < i) (v : UInt8) :
    ShortName (c.set i v) := by
  obtain ⟨a, l, rfl, ha⟩ := h.head
  obtain ⟨k, rfl⟩ : ∃ k, i = k + 1 := ⟨i - 1, by omega⟩
  exact ⟨by rw [List.length_set]; exact h.length, a, l.set k v, rfl, ha⟩

/-- The parts of a plain name. -/
structure PlainParts (nb ne : List UInt8) : Prop where
  base : ∀ c ∈ nb, sfnCharOk c = true
  ext : ∀ c ∈ ne, sfnCharOk c = true
  base_pos : 1 ≤ nb.length
  base_le : nb.length ≤ 8
  ext_le : ne.length ≤ 3

lemma plainParts {name : List UInt8} (h : plainSfn name = true) :
    PlainParts (splitDot name).1 ((splitDot name).2.getD []) := by
  unfold plainSfn at h
  simp only [Bool.and_eq_true, decide_eq_true_eq, List.all_eq_true] at h
  obtain ⟨⟨⟨⟨⟨h1, h2⟩, h3⟩, h4⟩, h5⟩, _⟩ := h
  exact ⟨h1, h2, h3, h4, h5⟩

lemma map_upchar_ok {l : List UInt8} (h : ∀ c ∈ l, sfnCharOk c = true) : l.map upchar = l := by
  refine (List.map_congr_left fun c hc => ?_).trans (List.map_id l)
  exact upchar_ok c (h c hc)

variable {name : List UInt8}

lemma makeSfnTemplate_plain (h : plainSfn name = true) :
    makeSfnTemplate name = (padSfn (splitDot name).1 ((splitDot name).2.getD []), none) := by
  have hparts := plainParts h
  unfold makeSfnTemplate
  simp only [if_pos h, map_upchar_ok hparts.base, map_upchar_ok hparts.ext]

lemma candidates_plain (h : plainSfn name = true) : candidates name = [(makeSfnTemplate name).1] := by
  unfold candidates
  rw [makeSfnTemplate_plain h]

/-- A template whose numeric tail goes behind a `~`. -/
lemma makeSfnTemplate_tail (h : plainSfn name = false) :
    ∃ i, (makeSfnTemplate name).2 = some i ∧ 0 < i ∧ ShortName (makeSfnTemplate name).1 := by
  unfold makeSfnTemplate
  simp only [h, Bool.false_eq_true, if_false]
  refine ⟨_, rfl, ?_, ShortName.pad ?_ ?_ ?_⟩
  · rw [List.length_append, List.length_singleton]
    omega
  · split_ifs with hnil
    · exact ⟨95, [126], rfl, by decide⟩
    · obtain ⟨a, l, hal⟩ := List.exists_cons_of_ne_nil hnil
      refine ⟨a, l ++ [126], by rw [hal, List.cons_append], ?_⟩
      have hmem : a ∈ (((splitDot name).1.map upchar).filter sfnCharOk) :=
        List.mem_of_mem_take (hal ▸ List.mem_cons_self)
      exact (List.mem_filter.mp hmem).2
  · rw [List.length_append, List.length_singleton]
    split_ifs
    · exact Nat.le_of_ble_eq_true rfl
    · have hle := List.length_take_le 6 (((splitDot name).1.map upchar).filter sfnCharOk)
      omega
  · exact List.length_take_le _ _

lemma candidates_short {c : List UInt8} (hc : c ∈ candidates name) : ShortName c := by
  by_cases h : plainSfn name = true
  · rw [candidates_plain h, List.mem_singleton, makeSfnTemplate_plain h] at hc
    have hparts := plainParts h
    rw [hc]
    refine ShortName.pad ?_ hparts.base_le hparts.ext_le
    obtain ⟨a, l, hal⟩ := List.exists_cons_of_length_pos hparts.base_pos
    exact ⟨a, l, hal, hparts.base a (hal ▸ List.mem_cons_self)⟩
  · obtain ⟨i, hi, hpos, hshort⟩ := makeSfnTemplate_tail (Bool.eq_false_iff.mpr h)
    unfold candidates at hc
    rw [hi] at hc
    obtain ⟨k, _, rfl⟩ := List.mem_map.mp hc
    exact hshort.set hpos _

/-! ## The slot of a short entry -/

variable {sfn : List UInt8} {isDir : Bool} {clus : ℕ}

lemma sfnSlot_sfn (isDir : Bool) (clus : ℕ) (h : ShortName sfn) :
    sfnOf (sfnSlot sfn isDir clus) = sfn := by
  have hstore := slice_store (fun _ => (0 : UInt8)) 0 sfn
  rw [h.length] at hstore
  refine (slice_congr fun i hi => ?_).trans hstore
  simp (disch := omega) only [sfnSlot, put, store_of_lt]

lemma sfnSlot_fields (isDir : Bool) (h : ShortName sfn) (hclus : clus < 2 ^ 32) :
    (sfnSlot sfn isDir clus 11).toNat = (if isDir then ATTR_DIR else 0x20) ∧
      load (sfnSlot sfn isDir clus) 26 2 + load (sfnSlot sfn isDir clus) 20 2 * 65536 = clus ∧
      load (sfnSlot sfn isDir clus) 28 4 = 0 := by
  have hzero : load (store (fun _ => (0 : UInt8)) 0 sfn) 28 4 = 0 := by
    rw [load_store_of_disjoint (by rw [h.length]; omega)]
    rfl
  have hlow : clus &&& 0xFFFF = clus % 65536 := Nat.and_two_pow_sub_one_eq_mod clus 16
  have hhigh : clus >>> 16 = clus / 65536 := Nat.shiftRight_eq_div_pow clus 16
  rw [← load_one]
  unfold sfnSlot
  simp (disch := omega) only [load_put_of_disjoint, load_put, hzero, hlow, hhigh]
  refine ⟨?_, by omega, trivial⟩
  cases isDir <;> rfl

lemma sfnSlot_live (isDir : Bool) (h : ShortName sfn) (hclus : clus < 2 ^ 32) :
    Live (sfnSlot sfn isDir clus) := by
  obtain ⟨a, l, hal, ha⟩ := h.head
  have hrange := sfnCharOk_range a ha
  have h0 : sfnSlot sfn isDir clus 0 = a := by
    have hslice := sfnSlot_sfn isDir clus h
    have hhead := congrArg List.head? hslice
    rw [hal] at hhead ⊢
    exact Option.some.inj hhead
  refine ⟨fun hv => ?_, ?_⟩
  · unfold Vacant SLOT_FREE SLOT_DELETED at hv
    rw [h0] at hv
    rcases hv with rfl | rfl
    · exact absurd hrange.1 (by decide)
    · exact absurd hrange.2.1 (by decide)
  · rw [(sfnSlot_fields isDir h hclus).1]
    cases isDir <;> decide

/-! ## The long-name slots -/

/-- The places of characters lie apart, and behind byte 0 and around bytes 11 to 13. -/
lemma lfnPlace_apart {k m : ℕ} (hkm : k < m) : lfnPlace k + 2 ≤ lfnPlace m := by
  unfold lfnPlace
  split_ifs <;> omega

lemma lfnPlace_pos (k : ℕ) : 1 ≤ lfnPlace k ∧ (lfnPlace k + 2 ≤ 11 ∨ 14 ≤ lfnPlace k) := by
  unfold lfnPlace
  split_ifs <;> omega

/-- The loop that fills in characters: each is at its place, and the other bytes stay. -/
lemma load_chars (val : ℕ → ℕ) (m : ℕ) (e : ℕ → UInt8) :
    (∀ k < m, load ((List.range m).foldl (fun e k => put e (lfnPlace k) 2 (val k)) e) (lfnPlace k) 2
      = val k % 65536) ∧
    ∀ q w, (∀ k < m, q + w ≤ lfnPlace k ∨ lfnPlace k + 2 ≤ q) →
      load ((List.range m).foldl (fun e k => put e (lfnPlace k) 2 (val k)) e) q w = load e q w := by
  induction m with
  | zero => exact ⟨fun k hk => absurd hk (Nat.not_lt_zero k), fun _ _ _ => rfl⟩
  | succ m ih =>
    obtain ⟨hchar, hother⟩ := ih
    rw [List.range_succ, List.foldl_append, List.foldl_cons, List.foldl_nil]
    refine ⟨fun k hk => ?_, fun q w hq => ?_⟩
    · rcases Nat.lt_or_eq_of_le (Nat.le_of_lt_succ hk) with hlt | rfl
      · rw [load_put_of_disjoint (.inl (lfnPlace_apart hlt)), hchar k hlt]
      · exact load_put _ _ _ _
    · rw [load_put_of_disjoint (hq m (Nat.lt_succ_self m))]
      exact hother q w fun k hk => hq k (Nat.lt_succ_of_lt hk)

/-- Character `i` of a name, padded with 0xFFFF. -/
def charAt (name : List UInt8) (i : ℕ) : ℕ := ((name[i]?).map UInt8.toNat).getD 0xFFFF

/-- What a long-name slot holds. -/
structure IsLfnSlot (name : List UInt8) (sum : UInt8) (n ord : ℕ) (e : ℕ → UInt8) : Prop where
  ordinal : (e 0).toNat = if ord = n then 0x40 ||| n else ord
  attr : (e 11).toNat = ATTR_LFN
  sum : e 13 = sum
  char : ∀ k < 13, load e (lfnPlace k) 2 = charAt name ((ord - 1) * 13 + k)

lemma charAt_lt (name : List UInt8) (i : ℕ) : charAt name i < 65536 := by
  unfold charAt
  cases name[i]? with
  | none => decide
  | some c =>
    have hc := c.toNat_lt
    show c.toNat < 65536
    omega

lemma lfnSlot_fields {sum : UInt8} {n ord : ℕ} (hn : n ≤ 5) (hord : ord ≤ n) :
    IsLfnSlot name sum n ord (lfnSlot name sum n ord) := by
  have hload := load_chars (charAt name ∘ fun k => (ord - 1) * 13 + k) 13
    (put (put (put (fun _ => 0) 0 1 (if ord = n then 0x40 ||| n else ord)) 11 1 ATTR_LFN) 13 1
      sum.toNat)
  have hor : ∀ n < 6, 0x40 ||| n < 256 := by decide
  have hsum := sum.toNat_lt
  obtain ⟨hchar, hother⟩ := hload
  refine ⟨?_, ?_, ?_, fun k hk => ?_⟩
  · rw [← load_one]
    refine (hother 0 1 fun k _ => .inl (lfnPlace_pos k).1).trans ?_
    rw [load_put_of_disjoint (by omega), load_put_of_disjoint (by omega), load_put, pow_one,
      Nat.mod_eq_of_lt]
    split_ifs
    · exact hor n (by omega)
    · omega
  · rw [← load_one]
    refine (hother 11 1 fun k _ => ?_).trans ?_
    · have := (lfnPlace_pos k).2
      omega
    · rw [load_put_of_disjoint (by omega), load_put]
      rfl
  · refine UInt8.toNat_inj.mp ?_
    rw [← load_one]
    refine (hother 13 1 fun k _ => ?_).trans ?_
    · have := (lfnPlace_pos k).2
      omega
    · rw [load_put, pow_one, Nat.mod_eq_of_lt hsum]
  · exact (hchar k hk).trans (Nat.mod_eq_of_lt (charAt_lt name _))

/-! ## Creation -/

lemma createFail_spec {α : Type} (self : ℕ) (r : Stop) {s : Dev × ℕ} :
    wp (createFail fs self r : Prog Stop (Dev × ℕ) α) (fun _ _ => False) (fun e _ => e = r) s := by
  have hfree : wp (if self = 0 then pure ()
      else inChain (tryBind (chainFree fs self) pure fun _ => pure ()))
      (fun _ _ => True) (fun _ _ => False) s := by
    split_ifs
    · trivial
    · refine wp_zoom.mpr (wp_tryBind.mpr ?_)
      exact wp_of_run (fun _ _ _ => trivial) fun _ _ _ => trivial
  exact hfree.bind (fun _ _ _ => rfl) fun _ _ he => he.elim

/-- What `fat_create` does when it does not run forever. -/
lemma fatCreate_spec (name : List UInt8) (isDir memIn memVn : Bool) (hg : Geom fs) (h : DirOk fs d first C sl) :
    wp (fatCreate fs name isDir memIn memVn)
      (fun inode s' => ∃ sfn C' p, sfn ∈ candidates name ∧
        ¬ SfnUsed (entries sl (C.length * dirSlots fs)) sfn ∧
        Entered fs sl C d name sfn (lfnCountOf name) isDir inode s' C' p)
      (fun e _ => e = .hang → plainSfn name = true ∧
        SfnUsed (entries sl (C.length * dirSlots fs)) (makeSfnTemplate name).1 ∧ Calm d)
      (d, first) := by
  unfold fatCreate
  by_cases hlen : name.length ≥ VFS_NAME_MAX
  · rw [if_pos hlen]
    exact Stop.noConfusion
  rw [if_neg hlen]
  refine wp_bind.mpr (wp_gets.mpr ?_)
  have hpick : wp (pickSfn fs first (makeSfnTemplate name).1 (makeSfnTemplate name).2
      (d.faults.length + 11) (if (makeSfnTemplate name).2.isSome then 1 else 0))
      (fun sfn d' => sfn ∈ candidates name ∧
        ¬ SfnUsed (entries sl (C.length * dirSlots fs)) sfn ∧ Passed d d')
      (fun e _ => e = .hang → plainSfn name = true ∧
        SfnUsed (entries sl (C.length * dirSlots fs)) (makeSfnTemplate name).1 ∧ Calm d) d := by
    by_cases hplain : plainSfn name = true
    · rw [candidates_plain hplain]
      have htail : (makeSfnTemplate name).2 = none := by rw [makeSfnTemplate_plain hplain]
      rw [htail]
      by_cases hused : SfnUsed (entries sl (C.length * dirSlots fs)) (makeSfnTemplate name).1
      · by_cases hc : Calm d
        · exact (pickSfn_stuck hg h hc hused).mono (fun _ _ hf => hf.elim)
            fun _ _ _ _ => ⟨hplain, hused, hc⟩
        · exact (pickSfn_fault hg h hc (by omega) hused).mono (fun _ _ hf => hf.elim)
            fun _ _ he hh => absurd hh he.ne_hang
      · refine (pickSfn_free hg h hused).mono (fun sfn d' h₁ => ?_)
          fun _ _ he hh => absurd hh he.ne_hang
        obtain ⟨rfl, hp⟩ := h₁
        exact ⟨List.mem_singleton_self _, hused, hp⟩
    · obtain ⟨i, hi, _⟩ := makeSfnTemplate_tail (Bool.eq_false_iff.mpr hplain)
      unfold candidates
      rw [hi]
      exact (pickSfn_tail hg h (Nat.le_refl 1) (by omega) (by omega)).mono (fun _ _ h₁ => h₁)
        fun _ _ he hh => absurd hh he
  refine inChain_bind (hpick.mono (fun sfn d₁ h₁ => ?_) fun _ _ he => he)
  obtain ⟨hcand, hfree, hp⟩ := h₁
  have hdir := h.passed hp
  by_cases hmem : memIn = false
  · rw [if_pos hmem]
    exact Stop.noConfusion
  rw [if_neg hmem]
  -- a new directory takes a cluster of its own
  have hself : wp (if isDir = true then newCluster fs else (pure 0 : Prog Stop (Dev × ℕ) ℕ))
      (fun self s => s.2 = first ∧ DirOk fs s.1 first C sl ∧ self < 2 ^ 32 ∧
        (isDir = true → Apart fs C self) ∧ (Calm d → Calm s.1)) (fun e _ => e ≠ .hang)
      (d₁, first) := by
    split_ifs with hd
    · refine (newCluster_spec hg hdir).mono (fun self s h₂ => ?_) fun _ _ he => he
      obtain ⟨hfirst, hdir₂, hapart, hc⟩ := h₂
      exact ⟨hfirst, hdir₂, hapart.range.lt_pow hg, fun _ => hapart, fun hcd => hc (hp.calm.mpr hcd)⟩
    · exact ⟨rfl, hdir, by decide, fun hc => absurd hc hd, hp.calm.mpr⟩
  refine hself.bind (fun self s₂ h₂ => ?_) fun _ _ he hh => absurd hh he
  obtain ⟨rfl, hdir₂, hlt, hapart, hcalm⟩ := h₂
  refine wp_tryBind.mpr ((createEntry_spec hg hdir₂ hlt hapart hcalm).mono (fun inode s₃ h₃ => ?_)
    fun e s₃ he => ?_)
  · obtain ⟨C', p, hent⟩ := h₃
    exact ⟨sfn, C', p, hcand, hfree, hent⟩
  · exact (createFail_spec self e).mono (fun _ _ hf => hf.elim)
      fun _ _ h₄ hh => absurd (h₄ ▸ hh) he

/-- A name is its base, and its extension behind a dot. -/
lemma splitDot_join (name : List UInt8) : name = (splitDot name).1 ++
    match (splitDot name).2 with
    | none => []
    | some ne => 46 :: ne := by
  have hcut : ∀ l : List UInt8, 46 ∈ l → ∃ rest, l.dropWhile (· ≠ 46) = 46 :: rest := by
    intro l hl
    induction l with
    | nil => exact absurd hl List.not_mem_nil
    | cons a l ih =>
      by_cases ha : a = 46
      · exact ⟨l, by rw [List.dropWhile_cons_of_neg (by simpa using ha), ha]⟩
      · rw [List.dropWhile_cons_of_pos (by simpa using ha)]
        exact ih ((List.mem_cons.mp hl).resolve_left fun h => ha h.symm)
  unfold splitDot
  split_ifs with hdot
  · obtain ⟨rest, hrest⟩ := hcut name.reverse (by simpa using hdot)
    have hjoin := List.takeWhile_append_dropWhile (p := fun c => decide (c ≠ 46)) (l := name.reverse)
    rw [hrest] at hjoin
    have hrev := congrArg List.reverse hjoin
    rw [List.reverse_reverse, List.reverse_append, List.reverse_cons] at hrev
    rw [hrest, List.drop_one, List.tail_cons]
    refine hrev.symm.trans ?_
    rw [List.append_assoc, List.singleton_append]
  · exact (List.append_nil name).symm

lemma plainSfn_length (h : plainSfn name = true) : name.length < VFS_NAME_MAX := by
  have hparts := plainParts h
  have hjoin := congrArg List.length (splitDot_join name)
  have h1 := hparts.base_le
  have h2 := hparts.ext_le
  show name.length < 64
  rw [List.length_append] at hjoin
  rcases hne : (splitDot name).2 with _ | ne
  · rw [hne] at hjoin
    simp only [List.length_nil] at hjoin
    omega
  · rw [hne] at hjoin h2
    simp only [List.length_cons, Option.getD_some] at hjoin h2
    omega

/-- A plain name that is taken keeps `fat_create` busy forever. -/
lemma fatCreate_hang (isDir memIn memVn : Bool) (hg : Geom fs) (h : DirOk fs d first C sl)
    (hc : Calm d) (hplain : plainSfn name = true)
    (hused : SfnUsed (entries sl (C.length * dirSlots fs)) (makeSfnTemplate name).1) :
    wp (fatCreate fs name isDir memIn memVn) (fun _ _ => False) (fun e _ => e = .hang)
      (d, first) := by
  have hlen : ¬ name.length ≥ VFS_NAME_MAX := Nat.not_le.mpr (plainSfn_length hplain)
  have htail : (makeSfnTemplate name).2 = none := by rw [makeSfnTemplate_plain hplain]
  unfold fatCreate
  rw [if_neg hlen]
  refine wp_bind.mpr (wp_gets.mpr ?_)
  rw [htail]
  exact inChain_bind ((pickSfn_stuck hg h hc hused).mono (fun _ _ hf => hf.elim) fun _ _ he => he)

/-- A slot of the new directory that is live is the new entry or was live before. -/
lemma live_entrySlots {p n q : ℕ} (hn : n ≤ 5) (hq : q ≠ p + n)
    (hlive : Live (entrySlots sl p name sfn n isDir clus q)) :
    entrySlots sl p name sfn n isDir clus q = sl q := by
  have hlfn : ∀ ord ≤ n, ¬ Live (lfnSlot name (lfnChecksum sfn) n ord) := fun ord hord hl =>
    hl.2 (lfnSlot_fields hn hord).attr
  unfold entrySlots at *
  rw [Function.update_of_ne hq] at *
  unfold lfnSlots at *
  split_ifs at * with hin
  · exact absurd hlive (hlfn _ (Nat.sub_le _ _))
  · rfl

/-- A name that is not too long takes at most five long-name slots. -/
lemma lfnCountOf_le (h : name.length < VFS_NAME_MAX) : lfnCountOf name ≤ 5 := by
  have h64 : name.length < 64 := h
  unfold lfnCountOf
  split_ifs <;> omega

lemma fatCreate_length {memIn memVn : Bool} {s t : Dev × ℕ} {inode : FatInode}
    (hrun : fatCreate fs name isDir memIn memVn s = (.ok inode, t)) :
    name.length < VFS_NAME_MAX := by
  by_contra hge
  unfold fatCreate at hrun
  rw [if_pos (Nat.not_lt.mp hge)] at hrun
  cases hrun

/-- The entry that `fat_create` has made has a short name of its own. -/
lemma Entered.fresh {inode : FatInode} {s' : Dev × ℕ} {C' : List ℕ} {p : ℕ}
    (h : DirOk fs d first C (slotsOf fs d C))
    (he : Entered fs (slotsOf fs d C) C d name sfn (lfnCountOf name) isDir inode s' C' p)
    (hshort : ShortName sfn)
    (hlen : lfnCountOf name ≤ 5)
    (hfree : ¬ SfnUsed (entries (slotsOf fs d C) (C.length * dirSlots fs)) sfn) :
    FreshSfn fs C (d, first) s' inode C' (p + lfnCountOf name) := by
  have hsame := he.dir.slotsOf
  have hnew : entrySlots (slotsOf fs d C) p name sfn (lfnCountOf name) isDir inode.firstClus
      (p + lfnCountOf name) = sfnSlot sfn isDir inode.firstClus := Function.update_self _ _ _
  have hsfn : sfnOf (slotsOf fs s'.1 C' (p + lfnCountOf name)) = sfn := by
    rw [hsame.sfnOf, hnew, sfnSlot_sfn _ _ hshort]
  refine ⟨he.dir.file.toOwns, by have := he.inside; omega, ?_, ?_, fun info hinfo heq => ?_,
    fun htidy q hq hlive heq => ?_⟩
  · rw [he.node]
  · rw [hsame.live, hnew]
    exact sfnSlot_live isDir hshort he.clus
  · exact hfree ⟨info, hinfo, heq.trans hsfn⟩
  · rw [hsame.live] at hlive
    have hold := live_entrySlots hlen hq hlive
    rw [hold] at hlive
    rw [hsfn, hsame.sfnOf, hold] at heq
    have hlt : q < C.length * dirSlots fs := by
      by_contra hge
      refine hlive.1 (.inl ?_)
      rw [h.zero q 0 (Nat.not_lt.mp hge)]
      rfl
    -- nothing in front of a live slot is the end of the directory
    have hend : ∀ i, 0 ≤ i → i < q → slotsOf fs d C i 0 ≠ SLOT_FREE := fun i _ hiq h0 =>
      hlive.1 (.inl (htidy i q (Nat.le_of_lt hiq) h0))
    have hin : q < 0 + C.length * dirSlots fs := by omega
    obtain ⟨info, hmem, _, hinfo⟩ := mem_entriesFrom (Nat.zero_le q) hin hlive hend
    exact hfree ⟨info, hmem, hinfo.trans heq⟩

/-- `fat_create` ends with a short name of its own, unless the name is plain and taken and no
transfer fails. -/
theorem create_sfn (hg : Geom fs) {s : Dev × ℕ} (ho : Owns fs s.1 s.2 C) {memIn memVn : Bool} :
    SfnLaw fs C s name isDir memIn memVn ↔ SfnFree fs C s name := by
  obtain ⟨d, first⟩ := s
  have hdir := ho.dirOk
  refine ⟨fun hlaw hplain hused hc => ?_, fun hfree => ?_⟩
  · have hstuck := fatCreate_hang isDir memIn memVn hg hdir hc hplain hused
    refine hlaw.answers ?_
    unfold wp at hstuck
    rcases hrun : fatCreate fs name isDir memIn memVn (d, first) with ⟨e | _, s'⟩
    · rw [hrun] at hstuck
      rw [hstuck]
    · rw [hrun] at hstuck
      exact hstuck.elim
  · have hspec := fatCreate_spec name isDir memIn memVn hg hdir
    refine ⟨fun hhang => ?_, fun inode t hrun => ?_⟩
    · unfold wp at hspec
      rcases hrun : fatCreate fs name isDir memIn memVn (d, first) with ⟨e | _, s'⟩
      · rw [hrun] at hspec hhang
        obtain ⟨hplain, hused, hc⟩ := hspec (Except.error.inj hhang)
        exact hfree hplain hused hc
      · rw [hrun] at hhang
        cases hhang
    · obtain ⟨sfn, C', p, hcand, hno, hent⟩ := hspec.ok hrun
      have hlen := lfnCountOf_le (fatCreate_length hrun)
      exact ⟨C', _, hent.fresh hdir (candidates_short hcand) hlen hno⟩

/-! ## A small volume -/

lemma small_geom : Geom (smallFs 1) :=
  { small_room 1 with
    spc_pos := by decide
    spc_le := by decide
    nfats_pos := by decide }

/-- The root of the small volume is empty. -/
lemma small_root : Owns (smallFs 1) (smallVol 1) 2 [2] := by
  have hentry : entry (smallFs 1) (smallVol 1) 2 = 0x0FFFFFFF := by decide
  refine ⟨fun hc => absurd hc (by simp), fun _ => ?_, fun c hc => ?_, fun c hc => ?_⟩
  · refine Chain.linked_cons.mpr ⟨rfl, by decide, Chain.linked_nil.mpr ?_⟩
    rw [hentry]
    decide
  · rw [List.mem_singleton.mp hc]
    exact ⟨Nat.le_refl 2, (by decide : 2 < 4085 + 2)⟩
  · rw [List.mem_singleton.mp hc]
    refine ⟨(by decide : 1 + 2 / 128 < 65 + 4085 * 1), fun r hr => ?_⟩
    have h1 : r < 1 := hr
    show 65 + (2 - 2) * 1 + r < 65 + 4085 * 1
    omega

theorem create_sfn_root :
    SfnLaw (smallFs 1) [2] (smallVol 1, 2) [65] true true true ↔
      SfnFree (smallFs 1) [2] (smallVol 1, 2) [65] := create_sfn small_geom small_root

/-- Making the directory `A` twice. -/
theorem create_sfn_twice : ∃ inode s,
    fatCreate (smallFs 1) [65] true true true (smallVol 1, 2) = (.ok inode, s) ∧
      ¬ SfnLaw (smallFs 1) [2] s [65] true true true := by
  have hfirst : (fatCreate (smallFs 1) [65] true true true (smallVol 1, 2)).1.toOption
      = some ⟨3, true, 0, true, 65, 0⟩ := by decide
  refine ⟨_, _, ok_of_toOption hfirst, fun hlaw => hlaw.answers ?_⟩
  have hsecond : (match (fatCreate (smallFs 1) [65] true true true
      (fatCreate (smallFs 1) [65] true true true (smallVol 1, 2)).2).1 with
    | .ok _ => none
    | .error e => some e) = some Stop.hang := by decide
  split at hsecond
  · cases hsecond
  · rename_i e he
    rw [he, Option.some.inj hsecond]

end Fat32
end MobilePhoneOs.Fs
