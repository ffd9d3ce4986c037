import MobilePhoneOs.Fs.Fat32CreateTheorems

/-!
# Long names of new FAT32 entries

`dir_next` reads an ASCII name back from the slots that `fat_create` has written for it. Whether
a lookup comes to them, and what becomes of the other entries, depends on the slots around.
-/

namespace MobilePhoneOs

open List (append_nil length_map mem_append mem_cons not_mem_nil)
namespace Fs
namespace Fat32

open Mem Prog
open Function (update_of_ne update_self)

variable {fs : FatFs} {d d' : Dev} {first : ℕ} {C : List ℕ} {sl sl' : ℕ → ℕ → UInt8}

/-! ## Scans in parts -/

lemma entriesFrom_add (sl : ℕ → ℕ → UInt8) (m n p : ℕ) (st : LfnState) :
    entriesFrom sl (m + n) p st = entriesFrom sl m p st ++
      ((passFrom sl m p st).map (entriesFrom sl n (p + m))).getD [] := by
  induction m generalizing p st with
  | zero => rw [Nat.zero_add]; rfl
  | succ m ih =>
    rw [Nat.succ_add, entriesFrom, entriesFrom, passFrom, ih, ih, ih]
    have hnext : p + 1 + m = p + (m + 1) := by omega
    rw [hnext]
    split_ifs <;> rfl

lemma passFrom_add (sl : ℕ → ℕ → UInt8) (m n p : ℕ) (st : LfnState) :
    passFrom sl (m + n) p st = (passFrom sl m p st).bind (passFrom sl n (p + m)) := by
  induction m generalizing p st with
  | zero => rw [Nat.zero_add]; rfl
  | succ m ih =>
    rw [Nat.succ_add, passFrom, passFrom, ih, ih, ih]
    have hnext : p + 1 + m = p + (m + 1) := by omega
    rw [hnext]
    split_ifs <;> rfl

variable {n p : ℕ}

/-- The same slots give the same entries. -/
lemma entriesFrom_congr (st : LfnState) (h : ∀ q, p ≤ q → q < p + n → sl q = sl' q) :
    entriesFrom sl n p st = entriesFrom sl' n p st ∧ passFrom sl n p st = passFrom sl' n p st := by
  induction n generalizing p st with
  | zero => exact ⟨rfl, rfl⟩
  | succ n ih =>
    have hrest := fun st' => ih (p := p + 1) st' fun q h1 h2 => h q (by omega) (by omega)
    rw [entriesFrom, entriesFrom, passFrom, passFrom, h p (Nat.le_refl p) (by omega),
      (hrest st).1, (hrest st).2, (hrest (st.collect (sl' p))).1, (hrest (st.collect (sl' p))).2,
      (hrest .empty).1, (hrest .empty).2]
    exact ⟨rfl, rfl⟩

variable {st : LfnState}

/-- An entry has the number of its slot. -/
lemma pidx_range {info : DirentInfo} (h : info ∈ entriesFrom sl n p st) :
    p ≤ info.pidx ∧ info.pidx < p + n := by
  induction n generalizing p st with
  | zero => exact absurd h not_mem_nil
  | succ n ih =>
    have hrest : ∀ {st'}, info ∈ entriesFrom sl n (p + 1) st' →
        p ≤ info.pidx ∧ info.pidx < p + (n + 1) := fun hm => by
      have := ih hm
      omega
    unfold entriesFrom at h
    split_ifs at h
    · exact absurd h not_mem_nil
    · exact hrest h
    · exact hrest h
    · rcases mem_cons.mp h with rfl | h
      · exact ⟨Nat.le_refl p, by show p < _; omega⟩
      · exact hrest h

/-- Vacant slots hold no entry; unless all of them are deleted one is the end. -/
lemma entriesFrom_vacant {m : ℕ} (h : ∀ j < m, Vacant (sl (p + j))) :
    ((∀ j < m, sl (p + j) 0 = SLOT_DELETED) ∧
      entriesFrom sl (m + n) p st = entriesFrom sl n (p + m) st) ∨
    ((¬ ∀ j < m, sl (p + j) 0 = SLOT_DELETED) ∧ entriesFrom sl (m + n) p st = []) := by
  induction m generalizing p with
  | zero =>
    rw [Nat.zero_add]
    exact .inl ⟨fun j hj => absurd hj (Nat.not_lt_zero j), rfl⟩
  | succ m ih =>
    have hnext : ∀ j, p + 1 + j = p + (j + 1) := fun j => by omega
    have h0 := h 0 (Nat.succ_pos m)
    rw [Nat.add_zero] at h0
    have hih := ih (p := p + 1) fun j hj => by
      rw [hnext]
      exact h (j + 1) (Nat.succ_lt_succ hj)
    rw [Nat.succ_add, entriesFrom]
    by_cases hfree : sl p 0 = SLOT_FREE
    · rw [if_pos hfree]
      refine .inr ⟨fun hall => ?_, rfl⟩
      have hdel := hall 0 (Nat.succ_pos m)
      rw [Nat.add_zero, hfree] at hdel
      exact absurd hdel (by decide)
    · have hdel : sl p 0 = SLOT_DELETED := h0.resolve_left hfree
      rw [if_neg hfree, if_pos hdel]
      refine hih.imp (fun hall => ⟨fun j hj => ?_, ?_⟩) fun hsome => ⟨fun hall => hsome.1 ?_, hsome.2⟩
      · cases j with
        | zero => exact hdel
        | succ j => exact hnext j ▸ hall.1 j (Nat.lt_of_succ_lt_succ hj)
      · rw [hall.2, hnext]
      · intro j hj
        rw [hnext]
        exact hall (j + 1) (Nat.succ_lt_succ hj)

/-- Zeros behind the slots add nothing. -/
lemma entriesFrom_zeros {m : ℕ} (h : ∀ q, p + m ≤ q → sl q 0 = SLOT_FREE) :
    entriesFrom sl (m + n) p st = entriesFrom sl m p st := by
  rw [entriesFrom_add]
  have hnil : ∀ st', entriesFrom sl n (p + m) st' = [] := fun st' => by
    cases n with
    | zero => rfl
    | succ n => rw [entriesFrom, if_pos (h _ (Nat.le_refl _))]
  rcases passFrom sl m p st with _ | st'
  · exact append_nil _
  · show entriesFrom sl m p st ++ entriesFrom sl n (p + m) st' = _
    rw [hnil, append_nil]

/-- The long name that a scan comes with matters for its first entry only. -/
lemma entriesFrom_state (n p : ℕ) (st st' : LfnState) :
    entriesFrom sl n p st = entriesFrom sl n p st' ∨
    ∃ q info info' l, entriesFrom sl n p st = info :: l ∧ entriesFrom sl n p st' = info' :: l ∧
      info.pidx = q ∧ info'.pidx = q ∧ p ≤ q ∧ ∀ x ∈ l, q < x.pidx := by
  induction n generalizing p st st' with
  | zero => exact .inl rfl
  | succ n ih =>
    have hrest : ∀ st st', _ := fun st st' => ih (p + 1) st st'
    rw [entriesFrom, entriesFrom]
    split_ifs
    · exact .inl rfl
    · refine (hrest st st').imp_right ?_
      rintro ⟨q, info, info', l, h1, h2, h3, h4, h5, h6⟩
      exact ⟨q, info, info', l, h1, h2, h3, h4, by omega, h6⟩
    · refine (hrest _ _).imp_right ?_
      rintro ⟨q, info, info', l, h1, h2, h3, h4, h5, h6⟩
      exact ⟨q, info, info', l, h1, h2, h3, h4, by omega, h6⟩
    · refine .inr ⟨p, _, _, _, rfl, rfl, rfl, rfl, Nat.le_refl p, fun x hx => ?_⟩
      exact (pidx_range hx).1

/-! ## The long name -/

variable {name sfn : List UInt8} {isDir : Bool} {clus n p : ℕ}

/-- The first `n - ord` slots of a long name have been collected, down to ordinal `ord + 1`. -/
structure Collected (name : List UInt8) (sum : UInt8) (n ord : ℕ) (st : LfnState) : Prop where
  parts : st.parts = n
  sum : st.sum = sum
  lfn : ∀ i, st.lfn i = if ord * 13 ≤ i then charAt name i else 0xFFFF

/-- The ordinal and the head mark of a long-name slot. -/
lemma ordinal_bits : ∀ n < 6, 0 < n → (0x40 ||| n) &&& 0x1F = n ∧ (0x40 ||| n) &&& 0x40 ≠ 0 ∧
    n &&& 0x1F = n ∧ n &&& 0x40 = 0 := by decide

variable {sum : UInt8}

section

variable {e : ℕ → UInt8} {ord : ℕ} (hlen : name.length < VFS_NAME_MAX)
include hlen

/-- The characters of one slot. -/
lemma collect_chars (he : IsLfnSlot name sum n (ord + 1) e) (lfn : ℕ → ℕ)
    (hlfn : ∀ i, lfn i = if (ord + 1) * 13 ≤ i then charAt name i else 0xFFFF) (i : ℕ) :
    (if (ord + 1 - 1) * 13 ≤ i ∧ i < (ord + 1 - 1) * 13 + 13 ∧ i < VFS_NAME_MAX then
      load e (lfnPlace (i - (ord + 1 - 1) * 13)) 2 else lfn i)
      = if ord * 13 ≤ i then charAt name i else 0xFFFF := by
  rw [Nat.add_sub_cancel]
  by_cases hle : ord * 13 ≤ i
  · rw [if_pos hle]
    by_cases hlt : i < ord * 13 + 13 ∧ i < VFS_NAME_MAX
    · rw [if_pos ⟨hle, hlt⟩, he.char _ (by omega), Nat.add_sub_cancel, Nat.add_sub_cancel' hle]
    · rw [if_neg fun hc => hlt hc.2, hlfn]
      split_ifs with hge
      · rfl
      · -- behind the 64 characters that the reader keeps there are none
        unfold charAt
        rw [List.getElem?_eq_none (by omega)]
        rfl
  · rw [if_neg hle, if_neg fun hc => hle hc.1, hlfn, if_neg (by omega)]

/-- The first slot of a long name, which carries the highest ordinal. -/
lemma collect_head (hn : n ≤ 5) (hord : ord + 1 = n) (hshort : name.length ≤ n * 13)
    (he : IsLfnSlot name sum n (ord + 1) e) (st : LfnState) :
    Collected name sum n ord (st.collect e) := by
  obtain ⟨h1, h2, _, _⟩ := ordinal_bits n (by omega) (by omega)
  have h0 : (e 0).toNat = 0x40 ||| n := by rw [he.ordinal, if_pos hord]
  have hlfn : ∀ i, (0xFFFF : ℕ) = if (ord + 1) * 13 ≤ i then charAt name i else 0xFFFF := fun i => by
    split_ifs with hge
    · unfold charAt
      rw [List.getElem?_eq_none (by rw [hord] at hge; omega)]
      rfl
    · rfl
  unfold LfnState.collect
  simp only [h0, h1, if_pos h2]
  rw [if_neg (by omega)]
  refine ⟨rfl, he.sum, fun i => ?_⟩
  rw [← hord]
  exact collect_chars hlen he (fun _ => 0xFFFF) hlfn i

/-- Another slot of a long name. -/
lemma collect_next (hn : n ≤ 5) (hord : ord + 1 < n) (he : IsLfnSlot name sum n (ord + 1) e)
    (hst : Collected name sum n (ord + 1) st) : Collected name sum n ord (st.collect e) := by
  obtain ⟨_, _, h3, h4⟩ := ordinal_bits (ord + 1) (by omega) (Nat.succ_pos ord)
  have h0 : (e 0).toNat = ord + 1 := by rw [he.ordinal, if_neg (by omega)]
  have hparts := hst.parts
  unfold LfnState.collect
  simp only [h0, h3, h4, ne_eq, not_true_eq_false, if_false]
  rw [if_neg (by omega)]
  exact ⟨hparts, hst.sum, fun i => collect_chars hlen he _ hst.lfn i⟩

end

/-- A scan collects the long name from the slots of an entry. -/
lemma passFrom_lfn {j : ℕ} (hlen : name.length < VFS_NAME_MAX) (hn : n ≤ 5)
    (hshort : 0 < n → name.length ≤ n * 13)
    (hsl : ∀ j < n, IsLfnSlot name sum n (n - j) (sl (p + j))) (st : LfnState) (hj : j ≤ n) :
    entriesFrom sl j p st = [] ∧
      ∃ st', passFrom sl j p st = some st' ∧ (0 < j → Collected name sum n (n - j) st') := by
  induction j with
  | zero => exact ⟨rfl, st, rfl, fun h => absurd h (Nat.lt_irrefl 0)⟩
  | succ j ih =>
    obtain ⟨hnil, st', hpass, hcol⟩ := ih (Nat.le_of_succ_le hj)
    have he := hsl j hj
    obtain ⟨ord, hord⟩ : ∃ ord, n - j = ord + 1 := ⟨n - j - 1, by omega⟩
    rw [hord] at he
    -- the first byte is an ordinal, not a mark of a vacant slot
    have hbyte : (sl (p + j) 0).toNat ≠ 0 ∧ (sl (p + j) 0).toNat ≠ 0xE5 := by
      have hvals : ∀ n < 6, 0 < n → (0x40 ||| n) ≠ 0 ∧ (0x40 ||| n) ≠ 0xE5 := by decide
      rw [he.ordinal]
      split_ifs
      · exact hvals n (by omega) (by omega)
      · omega
    have hfree : sl (p + j) 0 ≠ SLOT_FREE := fun h0 => hbyte.1 (by rw [h0]; rfl)
    have hdel : sl (p + j) 0 ≠ SLOT_DELETED := fun h0 => hbyte.2 (by rw [h0]; rfl)
    have hstep : passFrom sl 1 (p + j) st' = some (st'.collect (sl (p + j))) := by
      rw [passFrom, if_neg hfree, if_neg hdel, if_pos he.attr, passFrom]
    have hnone : entriesFrom sl 1 (p + j) st' = [] := by
      rw [entriesFrom, if_neg hfree, if_neg hdel, if_pos he.attr, entriesFrom]
    refine ⟨?_, st'.collect (sl (p + j)), ?_, fun _ => ?_⟩
    · rw [entriesFrom_add, hnil, hpass]
      exact hnone
    · rw [passFrom_add, hpass]
      exact hstep
    · have hsub : n - (j + 1) = ord := by omega
      rw [hsub]
      rcases Nat.eq_zero_or_pos j with rfl | hpos
      · exact collect_head hlen hn (by omega) (hshort hj) he st'
      · refine collect_next hlen hn (by omega) he ?_
        rw [← hord]
        exact hcol hpos

/-- What a reader makes of a character. -/
def shown (c : UInt8) : UInt8 := if c.toNat < 128 then c else 63

lemma Collected.name_eq (h : Collected name sum n 0 st)
    (hlen : name.length < VFS_NAME_MAX) (hz : (0 : UInt8) ∉ name) (hshort : name.length ≤ n * 13) :
    st.name = name.map shown := by
  have hlfn : ∀ i, st.lfn i = charAt name i := fun i => by
    rw [h.lfn, if_pos (by omega)]
  -- the characters, and the padding behind them
  have hchars : (List.range (st.parts * 13)).map st.lfn
      = name.map UInt8.toNat ++ List.replicate (n * 13 - name.length) 0xFFFF := by
    refine List.ext_getElem ?_ fun i h1 h2 => ?_
    · rw [h.parts]
      simp only [length_map, List.length_range, List.length_append, List.length_replicate]
      omega
    · rw [List.getElem_map, List.getElem_range, hlfn]
      unfold charAt
      rcases Nat.lt_or_ge i name.length with hlt | hge
      · rw [List.getElem_append_left (by rwa [length_map]), List.getElem_map,
          List.getElem?_eq_getElem hlt]
        rfl
      · rw [List.getElem_append_right (by rwa [length_map]), List.getElem_replicate,
          List.getElem?_eq_none hge]
        rfl
  have hin : ∀ ch ∈ name.map UInt8.toNat, (ch ≠ 0xFFFF && ch ≠ 0) = true := fun ch hch => by
    obtain ⟨c, hc, rfl⟩ := List.mem_map.mp hch
    have h1 := c.toNat_lt
    have h2 : c.toNat ≠ 0 := fun h0 => hz (by
      have hc0 : c = 0 := UInt8.toNat_inj.mp h0
      exact hc0 ▸ hc)
    simp only [ne_eq, Bool.and_eq_true, decide_eq_true_eq]
    exact ⟨by omega, h2⟩
  have hcut : (name.map UInt8.toNat ++ List.replicate (n * 13 - name.length) 0xFFFF).takeWhile
      (fun ch => ch ≠ 0xFFFF && ch ≠ 0) = name.map UInt8.toNat := by
    rw [List.takeWhile_append_of_pos hin]
    cases n * 13 - name.length with
    | zero => exact append_nil _
    | succ k =>
      rw [List.replicate_succ, List.takeWhile_cons_of_neg (by decide), append_nil]
  unfold LfnState.name
  rw [hchars, hcut, List.take_of_length_le (by rw [length_map]; exact Nat.le_of_lt_succ hlen),
    List.map_map]
  refine List.map_congr_left fun c _ => ?_
  show (if c.toNat < 128 then UInt8.ofNat c.toNat else 63) = shown c
  rw [UInt8.ofNat_toNat]
  rfl

/-- Only ASCII survives. -/
lemma map_shown : name.map shown = name ↔ ∀ c ∈ name, c.toNat < 128 := by
  have hone : ∀ c, shown c = c ↔ c.toNat < 128 := fun c => by
    unfold shown
    split_ifs with hc
    · exact ⟨fun _ => hc, fun _ => rfl⟩
    · refine ⟨fun heq => ?_, fun hlt => absurd hlt hc⟩
      rw [← heq]
      decide
  have hall := List.map_inj_left (l := name) (f := shown) (g := id)
  rw [List.map_id] at hall
  exact hall.trans (forall₂_congr fun c _ => hone c)

/-- Blanks behind a part of a short name are not part of it. -/
lemma rdropWhile_blanks {l : List UInt8} (h : ∀ c ∈ l, sfnCharOk c = true) (k : ℕ) :
    (l ++ List.replicate k 32).rdropWhile (· = 32) = l := by
  induction k with
  | zero =>
    rw [List.replicate_zero, append_nil, List.rdropWhile_eq_self_iff]
    intro hne hblank
    have hrange := sfnCharOk_range _ (h _ (List.getLast_mem hne))
    have hlast : l.getLast hne = 32 := of_decide_eq_true hblank
    rw [hlast] at hrange
    exact absurd hrange.1 (by decide)
  | succ k ih =>
    rw [List.replicate_succ', ← List.append_assoc, List.rdropWhile_concat_pos _ _ _ (by decide), ih]

/-- The characters of a plain name. -/
lemma plain_char (h : plainSfn name = true) {c : UInt8} (hc : c ∈ name) :
    sfnCharOk c = true ∨ c = 46 := by
  have hparts := plainParts h
  rw [splitDot_join name] at hc
  rcases mem_append.mp hc with hc | hc
  · exact .inl (hparts.base c hc)
  · rcases hopt : (splitDot name).2 with _ | ne
    · rw [hopt] at hc
      exact absurd hc not_mem_nil
    · rw [hopt] at hc
      refine (mem_cons.mp hc).elim .inr fun hc => .inl (hparts.ext c ?_)
      rw [hopt]
      exact hc

/-- A plain name is what its short name reads as. -/
lemma decodeSfn_plain (h : plainSfn name = true) : decodeSfn (makeSfnTemplate name).1 = name := by
  have hparts := plainParts h
  have hjoin := splitDot_join name
  have hext : (splitDot name).2 ≠ some [] := by
    unfold plainSfn at h
    simp only [Bool.and_eq_true, decide_eq_true_eq] at h
    exact h.2
  rw [makeSfnTemplate_plain h]
  generalize hb : (splitDot name).1 = nb at *
  generalize he : (splitDot name).2.getD [] = ne at *
  have hlen : (nb ++ List.replicate (8 - nb.length) 32).length = 8 := by
    have := hparts.base_le
    rw [List.length_append, List.length_replicate]
    omega
  have hname : (if ne = [] then nb else nb ++ 46 :: ne) = name := by
    rcases hopt : (splitDot name).2 with _ | ne'
    · rw [hopt] at he hjoin
      have hne : ne = [] := he.symm
      rw [if_pos hne, hjoin]
      exact (append_nil nb).symm
    · rw [hopt] at he hjoin hext
      have hne : ne' = ne := he
      rw [if_neg fun hc => hext (by rw [hne, hc]), ← hne]
      exact hjoin.symm
  have hzero : ∀ c ∈ name, decide (c ≠ 0) = true := fun c hc => by
    have hok := plain_char h hc
    refine decide_eq_true fun h0 => ?_
    rw [h0] at hok
    exact hok.elim (fun hc => absurd hc (by decide)) fun hc => absurd hc (by decide)
  unfold decodeSfn padSfn
  rw [List.take_left' hlen, List.drop_left' hlen, rdropWhile_blanks hparts.base,
    rdropWhile_blanks hparts.ext]
  dsimp only
  rw [hname]
  unfold cstr
  rw [List.takeWhile_eq_self_iff]
  exact hzero

/-! ## The new entry among the others -/

/-- What a scan that comes with `st` makes of the slots of an entry. -/
lemma scan_entry (isDir : Bool) (hlen : name.length < VFS_NAME_MAX) (hn : n ≤ 5)
    (hshort : 0 < n → name.length ≤ n * 13) (hsfn : ShortName sfn) (hclus : clus < 2 ^ 32) (sl : ℕ → ℕ → UInt8) (b p : ℕ) (st : LfnState) :
    ∃ st', (n = 0 → st' = st) ∧ (0 < n → Collected name (lfnChecksum sfn) n 0 st') ∧
      entriesFrom (entrySlots sl p name sfn n isDir clus) (n + 1 + b) p st
        = st'.info (sfnSlot sfn isDir clus) (p + n) :: entriesFrom sl b (p + (n + 1)) .empty := by
  have hsl : ∀ j < n, IsLfnSlot name (lfnChecksum sfn) n (n - j)
      (entrySlots sl p name sfn n isDir clus (p + j)) := fun j hj => by
    unfold entrySlots lfnSlots
    rw [update_of_ne (by omega), if_pos ⟨by omega, by omega⟩, Nat.add_sub_cancel_left]
    exact lfnSlot_fields hn (Nat.sub_le n j)
  obtain ⟨hnil, st', hpass, hcol⟩ := passFrom_lfn hlen hn hshort hsl st (Nat.le_refl n)
  have hslot : entrySlots sl p name sfn n isDir clus (p + n) = sfnSlot sfn isDir clus :=
    update_self _ _ _
  have hlive := sfnSlot_live isDir hsfn hclus
  have hrest : ∀ q, p + n + 1 ≤ q → q < p + n + 1 + b →
      entrySlots sl p name sfn n isDir clus q = sl q := fun q hq _ => by
    unfold entrySlots lfnSlots
    rw [update_of_ne (by omega), if_neg (by omega)]
  refine ⟨st', fun h0 => ?_, fun hpos => ?_, ?_⟩
  · rw [h0, passFrom] at hpass
    exact (Option.some.inj hpass).symm
  · have h := hcol hpos
    rwa [Nat.sub_self] at h
  · rw [Nat.add_assoc n, entriesFrom_add, hnil, hpass, List.nil_append, Nat.add_comm 1 b]
    show entriesFrom _ (b + 1) (p + n) st' = _
    rw [entriesFrom, hslot, if_neg fun h0 => hlive.1 (.inl h0), if_neg fun h0 => hlive.1 (.inr h0),
      if_neg hlive.2, (entriesFrom_congr _ hrest).1]
    rfl

/-- The name that a scan gives to the new entry. -/
lemma entry_name (isDir : Bool) (clus p : ℕ) {st' : LfnState} (hlen : name.length < VFS_NAME_MAX) (hz : (0 : UInt8) ∉ name)
    (hne : name ≠ []) (hsfn : ShortName sfn) (hcand : sfn ∈ candidates name)
    (h0 : lfnCountOf name = 0 → st' = st)
    (hpos : 0 < lfnCountOf name → Collected name (lfnChecksum sfn) (lfnCountOf name) 0 st') :
    (st'.info (sfnSlot sfn isDir clus) p).name = name ↔
      (∀ c ∈ name, c.toNat < 128) ∧ (plainSfn name = true → st.parts ≠ 0 →
        lfnChecksum (makeSfnTemplate name).1 = st.sum → st.name = name) := by
  have hslice : slice (sfnSlot sfn isDir clus) 0 11 = sfn := sfnSlot_sfn _ _ hsfn
  have hinfo : (st'.info (sfnSlot sfn isDir clus) p).name
      = if st'.parts ≠ 0 ∧ lfnChecksum sfn = st'.sum then st'.name else decodeSfn sfn := by
    unfold LfnState.info
    rw [hslice]
  rw [hinfo]
  by_cases hplain : plainSfn name = true
  · -- no long name: what the scan comes with decides
    have hst : st' = st := h0 (by unfold lfnCountOf; rw [if_pos hplain])
    have hascii : ∀ c ∈ name, c.toNat < 128 := fun c hc => by
      rcases plain_char hplain hc with hok | rfl
      · have := sfnCharOk_range c hok
        omega
      · decide
    rw [candidates_plain hplain, List.mem_singleton] at hcand
    rw [hst, hcand]
    split_ifs with hc
    · exact ⟨fun heq => ⟨hascii, fun _ _ _ => heq⟩, fun h => h.2 hplain hc.1 hc.2⟩
    · refine ⟨fun _ => ⟨hascii, fun _ h1 h2 => absurd ⟨h1, h2⟩ hc⟩, fun _ => decodeSfn_plain hplain⟩
  · have hlength := List.length_pos_iff.mpr hne
    have hcount : lfnCountOf name = (name.length + 12) / 13 := by
      unfold lfnCountOf
      rw [if_neg hplain]
    have hcol := hpos (by omega)
    have hparts := hcol.parts
    rw [if_pos ⟨by omega, hcol.sum.symm⟩, hcol.name_eq hlen hz (by omega), map_shown]
    exact ⟨fun h => ⟨h, fun hp => absurd hp hplain⟩, fun h => h.1⟩

lemma Owns.unique {C₁ C₂ : List ℕ} (h₁ : Owns fs d first C₁) (h₂ : Owns fs d first C₂) : C₁ = C₂ := by
  have hge : ∀ {C}, Owns fs d first C → C ≠ [] → 2 ≤ first := fun h hne =>
    (h.range _ (List.mem_of_getElem? (h.getElem_zero hne))).1
  by_cases h1 : C₁ = []
  · by_cases h2 : C₂ = []
    · rw [h1, h2]
    · have := hge h₂ h2
      have := h₁.head h1
      omega
  · by_cases h2 : C₂ = []
    · have := hge h₁ h1
      have := h₂.head h2
      omega
    · exact (h₁.linked h1).unique (h₂.linked h2)

lemma slotPlace_inj (hg : Geom fs) (h : Owns fs d first C) {q : ℕ}
    (hp : p < C.length * dirSlots fs) (hq : q < C.length * dirSlots fs)
    (heq : slotPlace fs C p = slotPlace fs C q) : p = q := by
  have hsect := h.sectOf_inj hg (slot_lt.mp hp) (slot_lt.mp hq) (congrArg Prod.fst heq)
  have hoff : p % 16 * 32 = q % 16 * 32 := congrArg Prod.snd heq
  omega

/-- The entries that a lookup stops at. -/
def answersTo (name : List UInt8) (info : DirentInfo) : Bool := !isVolume info && nameEq info name

/-- A lookup opens the first entry that answers to the name. -/
lemma fatLookup_spec (hg : Geom fs) (h : DirOk fs d first C sl) (hc : Calm d) (hne : name ≠ []) :
    wp (fatLookup fs first name true)
      (fun inode _ => ∃ info,
        (entries sl (C.length * dirSlots fs)).find? (answersTo name) = some info ∧
        inode = ⟨info.firstClus, info.attr &&& ATTR_DIR ≠ 0, info.size, true,
          (slotPlace fs C info.pidx).1, (slotPlace fs C info.pidx).2⟩)
      (fun _ _ => (entries sl (C.length * dirSlots fs)).find? (answersTo name) = none) d := by
  unfold fatLookup
  rw [if_neg hne]
  refine (dirFind_spec hg h).bind (fun r d₁ h₁ => ?_) fun _ _ he => absurd hc he.2
  obtain ⟨hr, hp, _⟩ := h₁
  rcases r with _ | info
  · exact hr.symm
  · have hin := (pidx_range (List.mem_of_find?_eq_some hr.symm)).2
    refine (dirSlotLocate_spec hg (h.passed hp).file.toOwns info.pidx).bind (fun at' d₂ h₂ => ?_)
      fun _ _ he => ?_
    · obtain ⟨_, rfl, _⟩ := h₂
      exact ⟨info, hr.symm, rfl⟩
    · rcases he with ⟨_, hle, _⟩ | he
      · omega
      · exact absurd (hp.calm.mpr hc) he.2

/-! ## The law of a new name -/

section
variable {inode : FatInode} {s' : Dev × ℕ} {C' : List ℕ}

/-- The entries before and after, over so many slots that both directories end in them. -/
lemma Entered.entries_eq (h : DirOk fs d first C sl)
    (he : Entered fs sl C d name sfn n isDir inode s' C' p) :
    ∃ b, entries sl (C.length * dirSlots fs) = entriesFrom sl (p + (n + 1 + b)) 0 .empty ∧
      entries (slotsOf fs s'.1 C') (C'.length * dirSlots fs)
        = entriesFrom (entrySlots sl p name sfn n isDir inode.firstClus) (p + (n + 1 + b)) 0 .empty ∧
      ∀ st, entriesFrom sl b (p + (n + 1)) st = entriesFrom sl
        (C.length * dirSlots fs - (p + (n + 1))) (p + (n + 1)) st := by
  have hin := he.inside
  have hfree : ∀ {sl : ℕ → ℕ → UInt8} {N q : ℕ}, (∀ p j, N ≤ p → sl p j = 0) → N ≤ q →
      sl q 0 = SLOT_FREE := fun hz hq => hz _ 0 hq
  have hsame := he.dir.slotsOf
  -- both directories end in the first `max N N'` slots
  obtain ⟨b, hb⟩ : ∃ b, p + (n + 1 + b) = max (C.length * dirSlots fs) (C'.length * dirSlots fs) :=
    ⟨max (C.length * dirSlots fs) (C'.length * dirSlots fs) - (p + (n + 1)), by omega⟩
  have hmore : ∀ {sl : ℕ → ℕ → UInt8} {N : ℕ}, (∀ p j, N ≤ p → sl p j = 0) →
      N ≤ p + (n + 1 + b) → entriesFrom sl (p + (n + 1 + b)) 0 .empty = entries sl N :=
    fun {sl N} hz hle => by
      have hsum : p + (n + 1 + b) = N + (p + (n + 1 + b) - N) := by omega
      rw [hsum]
      exact entriesFrom_zeros fun q hq => hfree hz (by omega)
  refine ⟨b, (hmore h.zero (by omega)).symm, ?_, fun st => ?_⟩
  · rw [hmore he.dir.zero (by omega)]
    exact hsame.entriesFrom _ _ _
  · have hsum : b = C.length * dirSlots fs - (p + (n + 1))
        + (b - (C.length * dirSlots fs - (p + (n + 1)))) := by omega
    rw [hsum]
    exact entriesFrom_zeros fun q hq => hfree h.zero (by omega)

/-- The new entry, and what the scan is like around it. -/
structure Around (fs : FatFs) (sl : ℕ → ℕ → UInt8) (C : List ℕ) (name : List UInt8) (isDir : Bool)
    (inode : FatInode) (n p : ℕ) (st : LfnState) (E E' : List DirentInfo) (new : DirentInfo) :
    Prop where
  pidx : new.pidx = p + n
  clus : new.firstClus = inode.firstClus
  attr : new.attr = if isDir then ATTR_DIR else 0x20
  size : new.size = 0
  after : E' = entriesFrom sl p 0 .empty ++ new :: entriesFrom sl
    (C.length * dirSlots fs - (p + (n + 1))) (p + (n + 1)) .empty
  before : ((∀ j < n + 1, sl (p + j) 0 = SLOT_DELETED) ∧ E = entriesFrom sl p 0 .empty ++
      entriesFrom sl (C.length * dirSlots fs - (p + (n + 1))) (p + (n + 1)) st) ∨
    ((¬ ∀ j < n + 1, sl (p + j) 0 = SLOT_DELETED) ∧ E = entriesFrom sl p 0 .empty)

/-- If the end of the directory lies in front of the new slots, no scan gets to them. -/
lemma Entered.hidden (h : DirOk fs d first C sl)
    (he : Entered fs sl C d name sfn n isDir inode s' C' p)
    (hpass : passFrom sl p 0 .empty = none) :
    entries (slotsOf fs s'.1 C') (C'.length * dirSlots fs) = entriesFrom sl p 0 .empty := by
  obtain ⟨b, _, h₂, _⟩ := he.entries_eq h
  have hfront : ∀ q, 0 ≤ q → q < 0 + p →
      entrySlots sl p name sfn n isDir inode.firstClus q = sl q := fun q _ hq => by
    unfold entrySlots lfnSlots
    rw [update_of_ne (by omega), if_neg (by omega)]
  obtain ⟨hent, hst⟩ := entriesFrom_congr .empty hfront
  rw [h₂, entriesFrom_add, hst, hpass, hent]
  exact append_nil _

lemma Entered.around (h : DirOk fs d first C sl)
    (he : Entered fs sl C d name sfn n isDir inode s' C' p) {st : LfnState}
    (hpass : passFrom sl p 0 .empty = some st) (hlen : name.length < VFS_NAME_MAX) (hn : n ≤ 5)
    (hshort : 0 < n → name.length ≤ n * 13) (hsfn : ShortName sfn) :
    ∃ st', (n = 0 → st' = st) ∧ (0 < n → Collected name (lfnChecksum sfn) n 0 st') ∧
      Around fs sl C name isDir inode n p st (entries sl (C.length * dirSlots fs))
        (entries (slotsOf fs s'.1 C') (C'.length * dirSlots fs))
        (st'.info (sfnSlot sfn isDir inode.firstClus) (p + n)) := by
  obtain ⟨b, h₁, h₂, h₃⟩ := he.entries_eq h
  have hfront : ∀ q, 0 ≤ q → q < 0 + p →
      entrySlots sl p name sfn n isDir inode.firstClus q = sl q := fun q _ hq => by
    unfold entrySlots lfnSlots
    rw [update_of_ne (by omega), if_neg (by omega)]
  obtain ⟨hent, hst⟩ := entriesFrom_congr .empty hfront
  obtain ⟨st', h0, hpos, hscan⟩ := scan_entry isDir hlen hn hshort hsfn he.clus sl b p st
  obtain ⟨hattr, hclus, hsize⟩ := sfnSlot_fields isDir hsfn he.clus
  refine ⟨st', h0, hpos, rfl, hclus, hattr, ?_, ?_, ?_⟩
  · show (if _ then 0 else load (sfnSlot sfn isDir inode.firstClus) 28 4) = 0
    rw [hsize, ite_self]
  · rw [h₂, entriesFrom_add, hst, hpass, hent]
    show _ ++ entriesFrom _ (n + 1 + b) (0 + p) st = _
    rw [Nat.zero_add, hscan, h₃]
  · rw [h₁, entriesFrom_add, hpass]
    show (_ ∧ entriesFrom sl p 0 .empty ++ entriesFrom sl (n + 1 + b) (0 + p) st = _) ∨
      (_ ∧ entriesFrom sl p 0 .empty ++ entriesFrom sl (n + 1 + b) (0 + p) st = _)
    rw [Nat.zero_add, ← h₃]
    refine (entriesFrom_vacant he.vacant).imp (fun hall => ⟨hall.1, by rw [hall.2]⟩) fun hsome => ?_
    exact ⟨hsome.1, by rw [hsome.2, append_nil]⟩

variable {st : LfnState} {E E' : List DirentInfo} {new : DirentInfo}

section

variable (ha : Around fs sl C name isDir inode n p st E E' new)
include ha

/-- The entries from before are all still there if the first one behind the new slots reads the
same without the long name that was collected in front of them. -/
lemma Around.kept_iff :
    (∀ info ∈ E, info ∈ E') ↔ ((∀ j < n + 1, sl (p + j) 0 = SLOT_DELETED) →
      entriesFrom sl (C.length * dirSlots fs - (p + (n + 1))) (p + (n + 1)) st
        = entriesFrom sl (C.length * dirSlots fs - (p + (n + 1))) (p + (n + 1)) .empty) := by
  rw [ha.after]
  rcases ha.before with ⟨hdel, hE⟩ | ⟨hdel, hE⟩
  · rw [hE]
    refine ⟨fun hkept _ => ?_, fun heq info hinfo => ?_⟩
    · refine (entriesFrom_state _ _ _ _).elim id fun ⟨q, info, info', l, h1, h2, h3, h4, h5, h6⟩ => ?_
      have hmem := hkept info (List.mem_append_right _ (h1 ▸ List.mem_cons_self))
      rw [h2] at hmem
      rcases mem_append.mp hmem with hm | hm
      · have := (pidx_range hm).2
        omega
      · rcases mem_cons.mp hm with rfl | hm
        · have := ha.pidx
          omega
        · rcases mem_cons.mp hm with rfl | hm
          · rw [h1, h2]
          · have := h6 info hm
            omega
    · rw [heq hdel] at hinfo
      rcases mem_append.mp hinfo with hm | hm
      · exact List.mem_append_left _ hm
      · exact List.mem_append_right _ (List.mem_cons_of_mem _ hm)
  · rw [hE]
    exact ⟨fun _ hall => absurd hall hdel, fun _ info hinfo => List.mem_append_left _ hinfo⟩

lemma Around.eq_new {info : DirentInfo}
    (hm : info ∈ E') (hp : info.pidx = p + n) : info = new := by
  rw [ha.after] at hm
  rcases mem_append.mp hm with hm | hm
  · have := (pidx_range hm).2
    omega
  · rcases mem_cons.mp hm with rfl | hm
    · rfl
    · have := (pidx_range hm).1
      omega

/-- The first entry that answers to the name is the new one if no entry in front of it does. -/
lemma Around.find_iff (hname : new.name = name) :
    E'.find? (answersTo name) = some new ↔
      ∀ info ∈ entriesFrom sl p 0 .empty, isVolume info = false → nameEq info name = false := by
  have hans : answersTo name new = true := by
    have hvol : isVolume new = false := by
      unfold isVolume
      rw [ha.attr]
      cases isDir <;> decide
    unfold answersTo nameEq
    rw [hvol, hname]
    simp
  have hfront : (∀ info ∈ entriesFrom sl p 0 .empty, answersTo name info = false) ↔
      ∀ info ∈ entriesFrom sl p 0 .empty, isVolume info = false → nameEq info name = false := by
    refine forall₂_congr fun info _ => ?_
    unfold answersTo
    cases isVolume info <;> simp
  rw [← hfront, ha.after, List.find?_append]
  refine ⟨fun hfind info hinfo => ?_, fun hnone => ?_⟩
  · rcases hfirst : (entriesFrom sl p 0 .empty).find? (answersTo name) with _ | found
    · exact Bool.eq_false_iff.mpr (List.find?_eq_none.mp hfirst info hinfo)
    · rw [hfirst] at hfind
      have hsame : found = new := Option.some.inj hfind
      have h1 := (pidx_range (List.mem_of_find?_eq_some hfirst)).2
      have h2 := ha.pidx
      rw [hsame] at h1
      omega
  · rw [List.find?_eq_none.mpr fun info hinfo => Bool.eq_false_iff.mp (hnone info hinfo),
      List.find?_cons_of_pos hans]
    rfl

end

/-- The slots of the new entry. -/
lemma Entered.slots (he : Entered fs sl C d name sfn n isDir inode s' C' p) (hn : n ≤ 5)
    (hsfn : ShortName sfn) :
    sfnOf (slotsOf fs s'.1 C' (p + n)) = sfn ∧
      ∀ j < n, IsLfnSlot name (lfnChecksum sfn) n (n - j) (slotsOf fs s'.1 C' (p + j)) := by
  have hsame := he.dir.slotsOf
  refine ⟨?_, fun j hj => ?_⟩
  · have hnew : entrySlots sl p name sfn n isDir inode.firstClus (p + n)
        = sfnSlot sfn isDir inode.firstClus := update_self _ _ _
    rw [hsame.sfnOf, hnew, sfnSlot_sfn _ _ hsfn]
  · have hslot : entrySlots sl p name sfn n isDir inode.firstClus (p + j)
        = lfnSlot name (lfnChecksum sfn) n (n - j) := by
      unfold entrySlots lfnSlots
      rw [update_of_ne (by omega), if_pos ⟨by omega, by omega⟩, Nat.add_sub_cancel_left]
    have hfields : IsLfnSlot name (lfnChecksum sfn) n (n - j) _ :=
      lfnSlot_fields hn (Nat.sub_le n j)
    have heq : ∀ i < 32, slotsOf fs s'.1 C' (p + j) i = lfnSlot name (lfnChecksum sfn) n (n - j) i :=
      fun i hi => by rw [hsame _ i hi, hslot]
    refine ⟨?_, ?_, ?_, fun k hk => ?_⟩
    · rw [heq 0 (by decide)]
      exact hfields.ordinal
    · rw [heq 11 (by decide)]
      exact hfields.attr
    · rw [heq 13 (by decide)]
      exact hfields.sum
    · rw [load_bytes heq (lfnPlace_le hk)]
      exact hfields.char k hk

/-- A name reads back exactly when it fits. -/
lemma Entered.readsAs_iff (first : ℕ) (hg : Geom fs) (h : DirOk fs d first C (slotsOf fs d C))
    (hc : Calm s'.1)
    (he : Entered fs (slotsOf fs d C) C d name sfn (lfnCountOf name) isDir inode s' C' p)
    (hlen : name.length < VFS_NAME_MAX) (hz : (0 : UInt8) ∉ name) (hcand : sfn ∈ candidates name) :
    ReadsAs fs C (d, first) name s' inode C' p ↔
      ∃ st, NameFits name (slotsOf fs d C) (C.length * dirSlots fs) p st := by
  have hn := lfnCountOf_le hlen
  have hsfn := candidates_short hcand
  have hdir' := he.dir.file.toOwns.dirOk
  have hin := he.inside
  have hshort : 0 < lfnCountOf name → name.length ≤ lfnCountOf name * 13 := by
    unfold lfnCountOf
    split_ifs <;> omega
  obtain ⟨hsfnOf, hslots⟩ := he.slots hn hsfn
  have hplace : slotPlace fs C' (p + lfnCountOf name) = (inode.deLba, inode.deOff) := by rw [he.node]
  rcases hpass : passFrom (slotsOf fs d C) p 0 .empty with _ | st
  · -- the end of the directory is in front of the new slots
    refine ⟨fun hr => ?_, fun ⟨st, hfit⟩ => ?_⟩
    · obtain ⟨info, hinfo, hpidx, _⟩ := hr.decoded
      rw [he.hidden h hpass] at hinfo
      have := (pidx_range hinfo).2
      omega
    · exact absurd (hfit.reached.symm.trans hpass) (Option.some_ne_none st)
  obtain ⟨st', h0, hpos, ha⟩ := he.around h hpass hlen hn hshort hsfn
  generalize hnew : st'.info (sfnSlot sfn isDir inode.firstClus) (p + lfnCountOf name) = new at ha
  have hname := fun hne : name ≠ [] =>
    entry_name isDir inode.firstClus (p + lfnCountOf name) hlen hz hne hsfn hcand h0 hpos
  rw [hnew] at hname
  have hopen : ∀ info : DirentInfo, info = new → inode = ⟨info.firstClus,
      info.attr &&& ATTR_DIR ≠ 0, info.size, true, (slotPlace fs C' info.pidx).1,
      (slotPlace fs C' info.pidx).2⟩ := by
    rintro info rfl
    have hdirbit : decide ((if isDir then ATTR_DIR else 0x20) &&& ATTR_DIR ≠ 0) = isDir := by
      cases isDir <;> decide
    rw [ha.pidx, ha.clus, ha.attr, ha.size, hdirbit]
    exact he.node
  refine ⟨fun hr => ⟨st, ?_⟩, fun ⟨st₁, hfit⟩ => ?_⟩
  · have hne : name ≠ [] := fun hnil => by
      obtain ⟨d', hlook⟩ := hr.lookup
      unfold fatLookup at hlook
      rw [if_pos hnil] at hlook
      cases hlook
    obtain ⟨info, hinfo, hpidx, hread⟩ := hr.decoded
    rw [ha.eq_new hinfo hpidx] at hread
    obtain ⟨hascii, hplain⟩ := (hname hne).mp hread
    obtain ⟨d', hlook⟩ := hr.lookup
    obtain ⟨found, hfind, hinode⟩ := (fatLookup_spec hg hdir' hc hne).ok hlook
    have hfound := List.mem_of_find?_eq_some hfind
    have hsamePlace : slotPlace fs C' found.pidx = slotPlace fs C' (p + lfnCountOf name) := by
      rw [hplace, hinode]
    have hlt := (pidx_range hfound).2
    have hpidx' := slotPlace_inj hg he.dir.file.toOwns (by omega) (by omega) hsamePlace
    have hsome : (entries (slotsOf fs s'.1 C') (C'.length * dirSlots fs)).find? (answersTo name)
        = some new := by
      rw [hfind, ha.eq_new hfound hpidx']
    exact ⟨hne, hascii, hpass, hplain, ha.kept_iff.mp hr.kept, (ha.find_iff hread).mp hsome⟩
  · have hst : st₁ = st := Option.some.inj (hfit.reached.symm.trans hpass)
    subst hst
    have hread := (hname hfit.nonempty).mpr ⟨hfit.ascii, hfit.plain⟩
    have hfind := (ha.find_iff hread).mpr hfit.first
    have hmem : new ∈ entries (slotsOf fs s'.1 C') (C'.length * dirSlots fs) := by
      rw [ha.after]
      exact List.mem_append_right _ List.mem_cons_self
    refine ⟨he.dir.file.toOwns, by omega, hplace, fun j hj => ?_, fun j hj => ?_,
      ⟨new, hmem, ha.pidx, hread⟩, ?_, ha.kept_iff.mpr hfit.behind⟩
    · rw [(hslots j hj).ordinal]
      rcases Nat.eq_zero_or_pos j with rfl | hpos
      · rw [Nat.sub_zero, if_pos rfl, if_pos rfl, Nat.or_comm]
      · rw [if_neg (by omega), if_neg (by omega), Nat.or_zero]
    · rw [hsfnOf]
      exact ⟨(hslots j hj).attr, (hslots j hj).sum⟩
    · have hlook := fatLookup_spec hg hdir' hc hfit.nonempty
      unfold wp at hlook
      rcases hrun : fatLookup fs s'.2 name true s'.1 with ⟨e | inode', d'⟩ <;> rw [hrun] at hlook
      · rw [hfind] at hlook
        cases hlook
      · obtain ⟨info, hinfo, hinode⟩ := hlook
        rw [hfind] at hinfo
        rw [hinode, ← hopen info (Option.some.inj hinfo).symm]
        exact ⟨d', rfl⟩

/-- The place of an entry is the only one that it can be read from. -/
lemma Entered.reads_iff (hg : Geom fs) (h : DirOk fs d first C (slotsOf fs d C))
    (hc : Calm s'.1)
    (he : Entered fs (slotsOf fs d C) C d name sfn (lfnCountOf name) isDir inode s' C' p)
    (hlen : name.length < VFS_NAME_MAX) (hz : (0 : UInt8) ∉ name) (hcand : sfn ∈ candidates name) :
    (∃ C' p, ReadsAs fs C (d, first) name s' inode C' p) ↔
      ∃ st, NameFits name (slotsOf fs d C) (C.length * dirSlots fs) p st := by
  refine Iff.trans ⟨fun ⟨C₁, p₁, hr⟩ => ?_, fun hr => ⟨C', p, hr⟩⟩
    (he.readsAs_iff first hg h hc hlen hz hcand)
  have hin := he.inside
  have hC : C₁ = C' := hr.owns.unique he.dir.file.toOwns
  subst hC
  have hplace : slotPlace fs C₁ (p₁ + lfnCountOf name) = slotPlace fs C₁ (p + lfnCountOf name) := by
    rw [hr.place, he.node]
  have hp := slotPlace_inj hg he.dir.file.toOwns hr.inside (by omega) hplace
  have hpp : p₁ = p := by omega
  exact hpp ▸ hr

end

/-- A name that `fat_create` has accepted reads back exactly when it fits where it goes. -/
theorem create_name (hg : Geom fs) {s t : Dev × ℕ} (ho : Owns fs s.1 s.2 C) (hc : Calm s.1)
    (hz : (0 : UInt8) ∉ name) {memIn memVn : Bool} {inode : FatInode}
    (hrun : fatCreate fs name isDir memIn memVn s = (.ok inode, t)) :
    (∃ C' p, ReadsAs fs C s name t inode C' p) ↔ ∃ st, NameFits name (slotsOf fs s.1 C)
      (C.length * dirSlots fs) (fit fs (slotsOf fs s.1 C) C (lfnCountOf name + 1)) st := by
  have hdir := ho.dirOk
  obtain ⟨sfn, C', p, hcand, _, he⟩ := (fatCreate_spec _ _ _ _ hg hdir).ok hrun
  obtain ⟨hfit, hc'⟩ := he.calm hc
  rw [← hfit]
  exact he.reads_iff hg hdir hc' (fatCreate_length hrun) hz hcand

/-- The file `a` in an empty root. -/
theorem create_name_root : ∃ inode t,
    fatCreate (smallFs 1) [97] false true true (smallVol 1, 2) = (.ok inode, t) ∧
      ((∃ C' p, ReadsAs (smallFs 1) [2] (smallVol 1, 2) [97] t inode C' p) ↔
        ∃ st, NameFits [97] (slotsOf (smallFs 1) (smallVol 1) [2]) ([2].length * dirSlots (smallFs 1))
          (fit (smallFs 1) (slotsOf (smallFs 1) (smallVol 1) [2]) [2] (lfnCountOf [97] + 1)) st) := by
  have hrun : (fatCreate (smallFs 1) [97] false true true (smallVol 1, 2)).1.toOption
      = some ⟨0, false, 0, true, 65, 32⟩ := by decide
  have hcalm : Calm (smallVol 1) := fun f hf => absurd hf not_mem_nil
  exact ⟨_, _, ok_of_toOption hrun,
    create_name small_geom small_root hcalm (by decide) (ok_of_toOption hrun)⟩

/-- A name with a byte that is not ASCII. -/
theorem create_name_byte : ∃ inode t,
    fatCreate (smallFs 1) [0xE9] false true true (smallVol 1, 2) = (.ok inode, t) ∧
      ¬ ∃ C' p, ReadsAs (smallFs 1) [2] (smallVol 1, 2) [0xE9] t inode C' p := by
  have hrun : (fatCreate (smallFs 1) [0xE9] false true true (smallVol 1, 2)).1.toOption
      = some ⟨0, false, 0, true, 65, 32⟩ := by decide
  have hok := ok_of_toOption hrun
  have hcalm : Calm (smallVol 1) := fun f hf => absurd hf not_mem_nil
  obtain ⟨sfn, C', p, hcand, _, he⟩ := (fatCreate_spec _ _ _ _ small_geom small_root.dirOk).ok hok
  refine ⟨_, _, hok, fun hr => ?_⟩
  obtain ⟨st, hfit⟩ := (he.reads_iff small_geom small_root.dirOk (he.calm hcalm).2
    (fatCreate_length hok) (by decide) hcand).mp hr
  exact absurd (hfit.ascii 0xE9 (List.mem_singleton_self _)) (by decide)

end Fat32
end Fs
end MobilePhoneOs
