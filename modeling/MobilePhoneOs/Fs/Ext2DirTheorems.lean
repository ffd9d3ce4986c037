import MobilePhoneOs.Fs.Ext2Dir
import MobilePhoneOs.Fs.Ext2Theorems
import Mathlib.Data.List.TakeWhile

/-!
# ext2 directories are finite maps

A directory is read as a list of records for each block. `dir_find` is a search through the
records of all blocks; an operation that is in order replaces one record by another of the
same length, or adds a block with one record.
-/

namespace MobilePhoneOs

open List (mem_append length_cons mem_cons)

open Function (update update_self update_of_ne)
namespace Fs
namespace Ext2

open Mem
open Prod (ext mk.injEq)
open Except (ok.injEq toOption)

/-! ## Records -/

/-- The bytes of a run of records. -/
def sumLen (rs : List Rec) : ℕ := (rs.map Rec.len).sum

@[simp] lemma sumLen_nil : sumLen [] = 0 := rfl

@[simp] lemma sumLen_cons (r : Rec) (rs : List Rec) : sumLen (r :: rs) = r.len + sumLen rs := by
  simp [sumLen]

@[simp] lemma sumLen_append (xs ys : List Rec) : sumLen (xs ++ ys) = sumLen xs + sumLen ys := by
  simp [sumLen]

section

variable {buf buf' : ℕ → UInt8} {off stop : ℕ} {r : Rec} {rs : List Rec}

/-- A record depends on its own bytes only. -/
lemma IsRec.congr (h : IsRec buf off r) (hb : ∀ i, off ≤ i → i < off + r.len → buf' i = buf i) :
    IsRec buf' off r := by
  have h8 := h.eight_le
  have hload (p n : ℕ) (hp : off ≤ p) (hn : p + n ≤ off + r.len) :
      load buf' p n = load buf p n :=
    load_congr fun i hi => hb _ (by omega) (by omega)
  refine ⟨?_, ?_, h8, h.four_dvd, fun hne => ?_⟩
  · rw [hload _ _ (by omega) (by omega)]
    exact h.ino
  · rw [hload _ _ (by omega) (by omega)]
    exact h.len
  · obtain ⟨hnl, hft, hname, hfit, hz⟩ := h.body hne
    rw [hload _ _ (by omega) (by omega), hload _ _ (by omega) (by omega)]
    refine ⟨hnl, hft, ?_, hfit, hz⟩
    exact (slice_congr fun i hi => hb _ (by omega) (by omega)).trans hname

lemma Tiles.stop_eq (h : Tiles buf off rs stop) : stop = off + sumLen rs := by
  induction rs generalizing off with
  | nil =>
    have h' : off = stop := h
    rw [sumLen_nil]
    omega
  | cons r rs ih =>
    have h' := ih h.2
    rw [sumLen_cons]
    omega

lemma tiles_append {xs ys : List Rec} : Tiles buf off (xs ++ ys) stop ↔
    Tiles buf off xs (off + sumLen xs) ∧ Tiles buf (off + sumLen xs) ys stop := by
  induction xs generalizing off with
  | nil => simp [Tiles]
  | cons r xs ih =>
    have hassoc : off + sumLen (r :: xs) = off + r.len + sumLen xs := by
      rw [sumLen_cons]
      omega
    rw [hassoc, List.cons_append, Tiles, Tiles, ih, and_assoc]

lemma Tiles.congr (h : Tiles buf off rs stop)
    (hb : ∀ i, off ≤ i → i < stop → buf' i = buf i) : Tiles buf' off rs stop := by
  induction rs generalizing off with
  | nil => exact h
  | cons r rs ih =>
    have hstop := h.2.stop_eq
    refine ⟨h.1.congr fun i h1 h2 => hb i h1 (by omega), ih h.2 fun i h1 h2 => hb i ?_ h2⟩
    omega

lemma Tiles.length_le (h : Tiles buf off rs stop) : off + rs.length ≤ stop := by
  induction rs generalizing off with
  | nil =>
    have h' : off = stop := h
    simp [h']
  | cons r rs ih =>
    have h1 := ih h.2
    have h2 := h.1.eight_le
    rw [length_cons]
    omega

lemma Tiles.aligned (h : Tiles buf off rs stop) (hoff : off % 4 = 0) : stop % 4 = 0 := by
  induction rs generalizing off with
  | nil =>
    have h' : off = stop := h
    omega
  | cons r rs ih =>
    have h4 := h.1.four_dvd
    exact ih h.2 (by omega)

/-- One record of a block is replaced by one of the same length. -/
lemma Tiles.replace {pre post : List Rec} {r' : Rec}
    (h : Tiles buf off (pre ++ r :: post) stop) (hlen : r'.len = r.len)
    (hrec : IsRec buf' (off + sumLen pre) r')
    (hb : ∀ i, i < off + sumLen pre ∨ off + sumLen pre + r.len ≤ i → buf' i = buf i) :
    Tiles buf' off (pre ++ r' :: post) stop := by
  obtain ⟨hpre, _, hpost⟩ := tiles_append.mp h
  refine tiles_append.mpr ⟨hpre.congr fun i _ h2 => hb i (.inl h2), hrec, ?_⟩
  rw [hlen]
  exact hpost.congr fun i h1 _ => hb i (.inr h1)

/-! ## Entries that are written -/

/-- The bytes outside the new entry are left alone. -/
lemma entPut_frame {ino ftype i : ℕ} {name : List UInt8}
    (h : i < off ∨ off + 8 + name.length ≤ i) : entPut buf off ino name ftype i = buf i := by
  have hput (b : ℕ → UInt8) (p n v : ℕ) (hp : i < p ∨ p + n ≤ i) : put b p n v i = b i := by
    rcases hp with hp | hp
    · exact store_of_lt hp
    · exact store_of_ge (by rwa [leBytes_length])
  rw [entPut]
  have hname : store (put (put (put buf off 4 ino) (off + 6) 1 name.length) (off + 7) 1 ftype)
      (off + 8) name i = put (put (put buf off 4 ino) (off + 6) 1 name.length) (off + 7) 1 ftype i := by
    rcases h with h | h
    · exact store_of_lt (by omega)
    · exact store_of_ge (by omega)
  rw [hname, hput _ _ _ _ (by omega), hput _ _ _ _ (by omega), hput _ _ _ _ (by omega)]

/-- The entry reads back. -/
lemma entPut_rec {ino ftype len : ℕ} {name : List UInt8} (hino : ino < 2 ^ 32)
    (hname : name.length < 256) (hft : ftype < 256) (hz : 0 ∉ name)
    (hlen : load buf (off + 4) 2 = len) (h8 : 8 ≤ len) (h4 : 4 ∣ len)
    (hfit : 8 + name.length ≤ len) :
    IsRec (entPut buf off ino name ftype) off ⟨ino, len, ftype, name⟩ := by
  refine ⟨?_, ?_, h8, h4, fun _ => ⟨?_, ?_, ?_, hfit, hz⟩⟩
  · rw [entPut, load_store_of_disjoint (by omega), load_put_of_disjoint (by omega),
      load_put_of_disjoint (by omega), load_put]
    exact Nat.mod_eq_of_lt hino
  · rw [entPut, load_store_of_disjoint (by omega), load_put_of_disjoint (by omega),
      load_put_of_disjoint (by omega), load_put_of_disjoint (by omega)]
    exact hlen
  · rw [entPut, load_store_of_disjoint (by omega), load_put_of_disjoint (by omega), load_put]
    exact Nat.mod_eq_of_lt hname
  · rw [entPut, load_store_of_disjoint (by omega), load_put]
    exact Nat.mod_eq_of_lt hft
  · exact slice_store _ _ _

/-- A record whose inode number is cleared is a tombstone. -/
lemma put_zero_rec (h : IsRec buf off r) : IsRec (put buf off 4 0) off { r with ino := 0 } := by
  refine ⟨?_, ?_, h.eight_le, h.four_dvd, fun hne => absurd rfl hne⟩
  · rw [load_put]
    rfl
  · rw [load_put_of_disjoint (by omega)]
    exact h.len

/-- The room that `dir_add_entry` finds in a block is at a record. -/
lemma roomScan_spec {bb : ℕ → UInt8} (need : ℕ) (h : Tiles bb off rs E2_BSIZE) (fuel : ℕ)
    (hfuel : rs.length ≤ fuel) :
    roomScan bb need fuel off = .ok none ∨ ∃ pre r post, rs = pre ++ r :: post ∧
      roomScan bb need fuel off = .ok (some (off + sumLen pre)) ∧
      (load bb (off + sumLen pre) 4 = 0 → need ≤ r.len) := by
  induction fuel generalizing off rs with
  | zero => exact .inl rfl
  | succ fuel ih =>
    cases rs with
    | nil =>
      have hoff : off = E2_BSIZE := h
      left
      rw [roomScan, if_neg (by omega)]
    | cons r rs =>
      have hrec := h.1
      have hstop := h.2.stop_eq
      have h8 := hrec.eight_le
      have hrest : roomScan bb need fuel (off + r.len) = .ok none ∨ ∃ pre r' post,
          r :: rs = pre ++ r' :: post ∧
          roomScan bb need fuel (off + r.len) = .ok (some (off + sumLen pre)) ∧
          (load bb (off + sumLen pre) 4 = 0 → need ≤ r'.len) := by
        rw [length_cons] at hfuel
        rcases ih h.2 (by omega) with hnone | ⟨pre, r', post, hrs, hscan, hroom⟩
        · exact .inl hnone
        · have hassoc : off + sumLen (r :: pre) = off + r.len + sumLen pre := by
            rw [sumLen_cons]
            omega
          refine .inr ⟨r :: pre, r', post, by rw [hrs]; rfl, ?_⟩
          rw [hassoc]
          exact ⟨hscan, hroom⟩
      have hhere : ∃ pre r' post, r :: rs = pre ++ r' :: post ∧ off + sumLen pre = off ∧ r' = r :=
        ⟨[], r, rs, rfl, by simp, rfl⟩
      obtain ⟨pre₀, _, post₀, hrs₀, hoff₀, rfl⟩ := hhere
      rw [roomScan, if_pos (by omega)]
      simp only [hrec.len]
      rw [if_neg (by omega)]
      split_ifs with hlive hslack hroom
      · exact .inr ⟨pre₀, _, post₀, hrs₀, by rw [hoff₀], fun hz => absurd (hoff₀ ▸ hz) hlive⟩
      · exact hrest
      · exact .inr ⟨pre₀, _, post₀, hrs₀, by rw [hoff₀], fun _ => hroom⟩
      · exact hrest

end

/-! ## Directories -/

/-- The names of the records that are in use. -/
def liveNames (rs : List Rec) : List (List UInt8) :=
  (rs.filter fun r => decide (r.ino ≠ 0)).map Rec.name

lemma mem_liveNames {name : List UInt8} {rs : List Rec} :
    name ∈ liveNames rs ↔ ∃ r ∈ rs, r.ino ≠ 0 ∧ r.name = name := by
  simp [liveNames, and_assoc]

lemma liveNames_live {A B : List Rec} {r : Rec} (h : r.ino ≠ 0) :
    (liveNames (A ++ r :: B)).Perm (r.name :: liveNames (A ++ B)) := by
  have hfilter : (A ++ r :: B).filter (fun r => decide (r.ino ≠ 0))
      = A.filter (fun r => decide (r.ino ≠ 0)) ++ r :: B.filter fun r => decide (r.ino ≠ 0) := by
    rw [List.filter_append, List.filter_cons_of_pos (by simpa using h)]
  rw [liveNames, hfilter, liveNames, List.filter_append]
  exact List.perm_middle.map Rec.name

lemma liveNames_dead {A B : List Rec} {r : Rec} (h : r.ino = 0) :
    liveNames (A ++ r :: B) = liveNames (A ++ B) := by
  rw [liveNames, liveNames, List.filter_append, List.filter_append,
    List.filter_cons_of_neg (by simpa using h)]

/-- A well-formed directory: the file of the inode has a block of its own for every block of
the directory, the records `R` tile the blocks, and no name stands in two live records. -/
structure DirOk (fs : E2Fs) (d : Dev) (dir : Inode) (T : Trees) (R : List (List Rec)) : Prop where
  vol : VolOk fs d
  file : FileOk fs d dir T
  size : dir.size = R.length * E2_BSIZE
  blocks : ∀ bi rs, R[bi]? = some rs →
    ∃ ab, T.at bi = some ab ∧ Tiles (blkView d ab) 0 rs E2_BSIZE
  apart : ∀ bi < R.length, ∀ bj < R.length, T.at bi = T.at bj → bi = bj
  names : (liveNames R.flatten).Nodup

section

variable {fs : E2Fs} {d d' : Dev} {dir : Inode} {T : Trees} {R : List (List Rec)}

/-- Beyond the first indirect block two blocks of the directory would be one. -/
lemma DirOk.count (h : DirOk fs d dir T R) : R.length ≤ 13 := by
  by_contra hc
  have hclass : aliasClass 12 = aliasClass 13 := by decide
  have hkey := (aliasClass_eq (by decide) (by decide)).mp hclass
  have hat : T.at 12 = T.at 13 := by rw [Trees.at, Trees.at, hkey.1, hkey.2]
  have := h.apart 12 (by omega) 13 (by omega) hat
  omega

variable {rs : List Rec}

variable {bi : ℕ}

/-- A block of the directory as the code finds it. -/
lemma DirOk.block (h : DirOk fs d dir T R) (hbi : R[bi]? = some rs) :
    ∃ ab, T.at bi = some ab ∧ bmap fs dir bi false d = (.ok ab, d, dir) ∧ ab ≠ 0 ∧
      Own fs d ab ∧ blkRead d ab = (.ok (blkView d ab), d) ∧ Tiles (blkView d ab) 0 rs E2_BSIZE := by
  obtain ⟨ab, hat, htiles⟩ := h.blocks bi rs hbi
  have hlt := (List.getElem?_eq_some_iff.mp hbi).1
  have hcount := h.count
  have hown := h.file.own _ ab (Radix.lookup_mem_all hat)
  have hfind : bmap fs dir bi false d = (.ok ab, d, dir) :=
    bmap_find h.vol h.file (by show bi < 65804; omega) (by show (bi + 1) * 1024 ≤ 16777216; omega) hat
  exact ⟨ab, hat, hfind, Nat.pos_iff_ne_zero.mp hown.inVol.1, hown,
    blkRead_ok h.vol.noFault (h.vol.in_dev hown.inVol), htiles⟩

variable {r : Rec}

/-- The record at a position of the directory, as `dir_ent_at` reads it. -/
lemma dirEntAt_spec (h : DirOk fs d dir T R) {pre post : List Rec}
    (hbi : R[bi]? = some (pre ++ r :: post)) :
    ∃ ent, dirEntAt fs dir (bi * E2_BSIZE + sumLen pre) d = (.ok (r.len, ent), d) ∧
      ent.ino = r.ino ∧ (r.ino ≠ 0 → ent = ⟨r.ino, r.ftype, r.name⟩ ∧ 0 ∉ r.name) := by
  obtain ⟨ab, _, hbmap, hne, _, hread, htiles⟩ := h.block hbi
  obtain ⟨hpre, hrec, hpost⟩ := tiles_append.mp htiles
  rw [Nat.zero_add] at hrec hpost hpre
  have hstop := hpost.stop_eq
  have halign := hpre.aligned rfl
  have h8 := hrec.eight_le
  have hB : E2_BSIZE = 1024 := rfl
  have hlt := (List.getElem?_eq_some_iff.mp hbi).1
  have hcount := h.count
  have hmod : (bi * E2_BSIZE + sumLen pre) % E2_BSIZE = sumLen pre := by
    rw [hB] at hstop ⊢
    omega
  have hdiv : (bi * E2_BSIZE + sumLen pre) / E2_BSIZE % 2 ^ 32 = bi := by
    rw [hB] at hstop ⊢
    omega
  rw [dirEntAt]
  simp only [hmod, hdiv, hbmap, if_neg hne, hread, hrec.len]
  rw [if_neg (by omega)]
  refine ⟨_, rfl, hrec.ino, fun hlive => ?_⟩
  obtain ⟨hnl, hft, hname, _, hz⟩ := hrec.body hlive
  rw [hrec.ino, hnl, hft, hname]
  exact ⟨rfl, hz⟩

/-! ## Search -/

/-- The search of `dir_find` through records from position `doff` on. -/
def findRec (name : List UInt8) : ℕ → List Rec → Option (ℕ × Dirent)
  | _, [] => none
  | doff, r :: rs =>
    if r.ino ≠ 0 ∧ r.name = name then some (doff, ⟨r.ino, r.ftype, r.name⟩)
    else findRec name (doff + r.len) rs

/-- The records stand in the directory from position `doff` to its end. -/
def Entries (fs : E2Fs) (d : Dev) (dir : Inode) : ℕ → List Rec → Prop
  | doff, [] => doff = dir.size
  | doff, r :: rs => doff < dir.size ∧ 0 < r.len ∧
      (∃ ent, dirEntAt fs dir doff d = (.ok (r.len, ent), d) ∧ ent.ino = r.ino ∧
        (r.ino ≠ 0 → ent = ⟨r.ino, r.ftype, r.name⟩ ∧ 0 ∉ r.name)) ∧
      Entries fs d dir (doff + r.len) rs

variable {doff : ℕ}

lemma Entries.length_le (h : Entries fs d dir doff rs) :
    doff + rs.length ≤ dir.size := by
  induction rs generalizing doff with
  | nil =>
    have h' : doff = dir.size := h
    simp [h']
  | cons r rs ih =>
    have h1 := ih h.2.2.2
    have h2 := h.2.1
    rw [length_cons]
    omega

/-- The rest of one block, in front of what the following blocks hold. -/
lemma entries_block (h : DirOk fs d dir T R) {rest : List Rec} (pre post : List Rec)
    (hbi : R[bi]? = some (pre ++ post))
    (hrest : Entries fs d dir ((bi + 1) * E2_BSIZE) rest) :
    Entries fs d dir (bi * E2_BSIZE + sumLen pre) (post ++ rest) := by
  induction post generalizing pre with
  | nil =>
    obtain ⟨ab, _, _, _, _, _, htiles⟩ := h.block hbi
    have hstop := htiles.stop_eq
    rw [List.append_nil] at hstop
    have hend : bi * E2_BSIZE + sumLen pre = (bi + 1) * E2_BSIZE := by
      rw [Nat.add_mul]
      omega
    rw [hend]
    exact hrest
  | cons r post ih =>
    obtain ⟨ab, _, _, _, _, _, htiles⟩ := h.block hbi
    have hrec := (tiles_append.mp htiles).2.1
    have hstop := htiles.stop_eq
    have h8 := hrec.eight_le
    have hlt := (List.getElem?_eq_some_iff.mp hbi).1
    rw [sumLen_append, sumLen_cons] at hstop
    have hsize := h.size
    have hB : E2_BSIZE = 1024 := rfl
    refine ⟨?_, by omega, dirEntAt_spec h hbi, ?_⟩
    · rw [hsize]
      rw [hB] at hstop ⊢
      omega
    · have hnext := ih (pre ++ [r]) (by rw [hbi, List.append_assoc]; rfl)
      rw [sumLen_append, sumLen_cons, sumLen_nil, Nat.add_zero, ← Nat.add_assoc] at hnext
      exact hnext

lemma entries_drop (h : DirOk fs d dir T R) (Rs : List (List Rec)) (bi : ℕ)
    (hdrop : R.drop bi = Rs) (hbi : bi ≤ R.length) :
    Entries fs d dir (bi * E2_BSIZE) Rs.flatten := by
  induction Rs generalizing bi with
  | nil =>
    have hlen : bi = R.length := by
      have := List.drop_eq_nil_iff.mp hdrop
      omega
    show bi * E2_BSIZE = dir.size
    rw [h.size, hlen]
  | cons rs Rs ih =>
    have hlt : bi < R.length := by
      by_contra hc
      rw [List.drop_eq_nil_of_le (by omega)] at hdrop
      exact absurd hdrop (by simp)
    have hget : R[bi]? = some ([] ++ rs) := by
      have := congrArg List.head? hdrop
      rwa [List.head?_drop] at this
    have htail : R.drop (bi + 1) = Rs := by
      rw [← List.tail_drop, hdrop]
      rfl
    have hentries := entries_block h [] rs hget (ih (bi + 1) htail hlt)
    rwa [sumLen_nil, Nat.add_zero] at hentries

variable {name : List UInt8}

lemma strEq_iff {raw : List UInt8} (h : 0 ∉ raw) : strEq raw name = true ↔ raw = name := by
  have hall : raw.takeWhile (· ≠ 0) = raw :=
    List.takeWhile_eq_self_iff.mpr fun b hb => by
      have : b ≠ 0 := fun hc => h (hc ▸ hb)
      simp [this]
  rw [strEq, hall, decide_eq_true_iff]

lemma dirFindFrom_spec (name : List UInt8) (fuel doff : ℕ) (rs : List Rec)
    (h : Entries fs d dir doff rs) (hfuel : rs.length ≤ fuel) :
    dirFindFrom fs dir name fuel doff d = (.ok (findRec name doff rs), d) := by
  induction fuel generalizing doff rs with
  | zero =>
    obtain rfl := List.length_eq_zero_iff.mp (Nat.le_zero.mp hfuel)
    rfl
  | succ fuel ih =>
    cases rs with
    | nil =>
      have hend : doff = dir.size := h
      rw [dirFindFrom, if_neg (by omega), findRec]
    | cons r rs =>
      obtain ⟨hlt, hpos, ⟨ent, hent, hino, hlive⟩, hrest⟩ := h
      rw [length_cons] at hfuel
      rw [dirFindFrom, if_pos hlt, hent, findRec]
      simp only
      by_cases hz : r.ino = 0
      · rw [if_neg fun hc => hc.1 (hino.trans hz), if_neg fun hc => hc.1 hz]
        exact ih _ _ hrest (by omega)
      · obtain ⟨hent', hname⟩ := hlive hz
        rw [hent']
        simp only [strEq_iff hname]
        split_ifs
        · rfl
        · exact ih _ _ hrest (by omega)

/-- `dir_find` is a search through the records of all blocks. -/
lemma dirFind_spec (h : DirOk fs d dir T R) (name : List UInt8) :
    dirFind fs dir name d = (.ok (findRec name 0 R.flatten), d) := by
  have hentries := entries_drop h R 0 rfl (Nat.zero_le _)
  rw [Nat.zero_mul] at hentries
  have hlen := hentries.length_le
  exact dirFindFrom_spec name _ 0 _ hentries (by omega)

lemma findRec_some {p : ℕ} {ent : Dirent}
    (h : findRec name doff rs = some (p, ent)) :
    ∃ pre r post, rs = pre ++ r :: post ∧ p = doff + sumLen pre ∧ r.ino ≠ 0 ∧ r.name = name ∧
      ent = ⟨r.ino, r.ftype, name⟩ := by
  induction rs generalizing doff with
  | nil => simp [findRec] at h
  | cons r rs ih =>
    rw [findRec] at h
    split_ifs at h with hhit
    · have heq := Option.some.inj h
      rw [mk.injEq] at heq
      refine ⟨[], r, rs, rfl, by rw [sumLen_nil]; omega, hhit.1, hhit.2, ?_⟩
      rw [← heq.2, hhit.2]
    · obtain ⟨pre, r', post, hrs, hp, hlive, hname, hent⟩ := ih h
      refine ⟨r :: pre, r', post, by rw [hrs]; rfl, ?_, hlive, hname, hent⟩
      rw [sumLen_cons]
      omega

lemma findRec_none :
    findRec name doff rs = none ↔ ∀ r ∈ rs, r.ino ≠ 0 → r.name ≠ name := by
  induction rs generalizing doff with
  | nil => simp [findRec]
  | cons r rs ih =>
    rw [findRec]
    split_ifs with hhit
    · simp only [false_iff]
      exact fun hc => hc r List.mem_cons_self hhit.1 hhit.2
    · rw [ih]
      simp only [mem_cons, forall_eq_or_imp]
      exact ⟨fun h => ⟨fun h1 h2 => hhit ⟨h1, h2⟩, h⟩, fun h => h.2⟩

/-! ## One record changes -/

/-- Where a record of the directory stands. -/
lemma flatten_split {A B : List Rec}
    (h : R.flatten = A ++ r :: B) : ∃ Rs pre post Rs', R = Rs ++ (pre ++ r :: post) :: Rs' ∧
      A = Rs.flatten ++ pre ∧ B = post ++ Rs'.flatten := by
  induction R generalizing A with
  | nil => simp at h
  | cons rs R ih =>
    have hlater : ∀ A', R.flatten = A' ++ r :: B → A = rs ++ A' →
        ∃ Rs pre post Rs', rs :: R = Rs ++ (pre ++ r :: post) :: Rs' ∧
          A = Rs.flatten ++ pre ∧ B = post ++ Rs'.flatten := by
      intro A' hR hA
      obtain ⟨Rs, pre, post, Rs', hsplit, hpre, hpost⟩ := ih hR
      refine ⟨rs :: Rs, pre, post, Rs', by rw [hsplit]; rfl, ?_, hpost⟩
      rw [hA, hpre, List.flatten_cons, List.append_assoc]
    rw [List.flatten_cons] at h
    rcases List.append_eq_append_iff.mp h with ⟨A', hA, hR⟩ | ⟨C, hrs, hC⟩
    · exact hlater A' hR hA
    · cases C with
      | nil => exact hlater [] (by simpa using hC.symm) (by simpa using hrs.symm)
      | cons c C =>
        rw [List.cons_append, List.cons.injEq] at hC
        obtain ⟨rfl, hB⟩ := hC
        exact ⟨[], A, C, R, by rw [hrs]; rfl, rfl, hB⟩

lemma flatten_mid (Rs Rs' : List (List Rec)) (pre post : List Rec) (r : Rec) :
    (Rs ++ (pre ++ r :: post) :: Rs').flatten = (Rs.flatten ++ pre) ++ r :: (post ++ Rs'.flatten) := by
  simp

lemma getElem?_mid {α : Type} (xs ys : List α) (x : α) : (xs ++ x :: ys)[xs.length]? = some x := by
  simp

lemma getElem?_mid_ne {α : Type} {xs ys : List α} {x y : α} {i : ℕ} (h : i ≠ xs.length) :
    (xs ++ x :: ys)[i]? = (xs ++ y :: ys)[i]? := by
  rcases Nat.lt_or_gt_of_ne h with hlt | hgt
  · rw [List.getElem?_append_left hlt, List.getElem?_append_left hlt]
  · obtain ⟨k, hk⟩ : ∃ k, i - xs.length = k + 1 := ⟨i - xs.length - 1, by omega⟩
    rw [List.getElem?_append_right hgt.le, List.getElem?_append_right hgt.le, hk,
      List.getElem?_cons_succ, List.getElem?_cons_succ]

/-- The bytes of whole blocks. -/
lemma DirOk.sumLen_flatten (h : DirOk fs d dir T R) {Rs Rs' : List (List Rec)}
    (hR : R = Rs ++ Rs') : sumLen Rs.flatten = Rs.length * E2_BSIZE := by
  have hblock : ∀ rs ∈ Rs, sumLen rs = E2_BSIZE := by
    intro rs hrs
    obtain ⟨bi, hbi⟩ := List.mem_iff_getElem?.mp (hR ▸ List.mem_append_left Rs' hrs : rs ∈ R)
    obtain ⟨ab, _, htiles⟩ := h.blocks bi rs hbi
    have hstop := htiles.stop_eq
    omega
  clear hR
  induction Rs with
  | nil => rfl
  | cons rs Rs ih =>
    rw [List.flatten_cons, sumLen_append, hblock rs List.mem_cons_self,
      ih fun rs' hrs' => hblock rs' (List.mem_cons_of_mem _ hrs'), length_cons]
    ring

/-- A record is replaced by another one of the same length. -/
lemma DirOk.replace {Rs Rs' : List (List Rec)} {pre post : List Rec} {r' : Rec} {ab : ℕ}
    {buf' : ℕ → UInt8} (h : DirOk fs d dir T (Rs ++ (pre ++ r :: post) :: Rs'))
    (hat : T.at Rs.length = some ab) (hlen : r'.len = r.len) (hrec : IsRec buf' (sumLen pre) r')
    (hb : ∀ i, i < sumLen pre ∨ sumLen pre + r.len ≤ i → buf' i = blkView d ab i)
    (hnames : (liveNames (Rs ++ (pre ++ r' :: post) :: Rs').flatten).Nodup) :
    DirOk fs (putBlk d ab buf') dir T (Rs ++ (pre ++ r' :: post) :: Rs') := by
  have hown := h.file.own _ ab (Radix.lookup_mem_all hat)
  have hgrown := grown_putBlk h.vol hown.notBitmap buf'
  refine ⟨hgrown.vol h.vol, ?_, ?_, ?_, ?_, hnames⟩
  · refine h.file.grown hgrown fun x f hf => sameBlk_putBlk fun heq => ?_
    exact Trees.lookup_not_frame h.file.nodup hat (heq ▸ hf)
  · rw [h.size]
    simp
  · intro bi rs hbi
    by_cases hmid : bi = Rs.length
    · subst hmid
      rw [getElem?_mid] at hbi
      obtain rfl := Option.some.inj hbi
      obtain ⟨ab', hat', htiles⟩ := h.blocks Rs.length _ (getElem?_mid _ _ _)
      obtain rfl : ab = ab' := Option.some.inj (hat.symm.trans hat')
      refine ⟨ab, hat, ?_⟩
      have hreplace : Tiles buf' 0 (pre ++ r' :: post) E2_BSIZE := by
        refine htiles.replace hlen ?_ ?_
        · rwa [Nat.zero_add]
        · rwa [Nat.zero_add]
      exact hreplace.congr fun i _ hi => blkView_putBlk_self hi
    · rw [getElem?_mid_ne (y := pre ++ r :: post) hmid] at hbi
      obtain ⟨ab', hat', htiles⟩ := h.blocks bi rs hbi
      refine ⟨ab', hat', htiles.congr fun i _ hi => sameBlk_putBlk ?_ i hi⟩
      rintro rfl
      refine hmid (h.apart bi ?_ Rs.length ?_ (hat'.trans hat.symm))
      · exact (List.getElem?_eq_some_iff.mp hbi).1
      · simp
  · have hlen' : (Rs ++ (pre ++ r' :: post) :: Rs').length
        = (Rs ++ (pre ++ r :: post) :: Rs').length := by simp
    rw [hlen']
    exact h.apart

end

/-! ## The map -/

/-- The directory stands for the map. -/
def Describes (R : List (List Rec)) (m : List UInt8 → Option (ℕ × ℕ)) : Prop :=
  ∀ name v, m name = some v ↔
    ∃ r ∈ R.flatten, r.ino ≠ 0 ∧ r.name = name ∧ v = (r.ino, r.ftype)

section

variable {fs : E2Fs} {d d' : Dev} {dir : Inode} {T : Trees} {R R' : List (List Rec)}
  {m : List UInt8 → Option (ℕ × ℕ)}

variable {name : List UInt8}

/-- A name of the map stands in one live record. -/
lemma findRec_hit (hnames : (liveNames R.flatten).Nodup) (hm : Describes R m) {ino ftype : ℕ} (h : m name = some (ino, ftype)) :
    ∃ doff, findRec name 0 R.flatten = some (doff, ⟨ino, ftype, name⟩) := by
  obtain ⟨r, hr, hlive, hname, hv⟩ := (hm name _).mp h
  cases hfind : findRec name 0 R.flatten with
  | none => exact absurd hname (findRec_none.mp hfind r hr hlive)
  | some found =>
    obtain ⟨doff, ent⟩ := found
    obtain ⟨pre, r', post, hflat, _, hlive', hname', hent⟩ := findRec_some hfind
    have hmem' : r' ∈ R.flatten := by
      rw [hflat]
      simp
    -- two live records of one name are one
    have heq : r = r' := by
      refine List.inj_on_of_nodup_map hnames ?_ ?_ (hname.trans hname'.symm)
      · exact List.mem_filter.mpr ⟨hr, by simpa using hlive⟩
      · exact List.mem_filter.mpr ⟨hmem', by simpa using hlive'⟩
    rw [mk.injEq] at hv
    refine ⟨doff, ?_⟩
    rw [hent, hv.1, hv.2, heq]

/-- The law of a well-formed directory that stands for the map. -/
lemma DirOk.law (h : DirOk fs d dir T R) (hm : Describes R m) : DirLaw fs ⟨d, dir, m⟩ where
  tiles := by
    intro bi hbi
    have hlt : bi < R.length := by
      have hsize : dir.size / E2_BSIZE = R.length := by
        rw [h.size]
        exact Nat.mul_div_cancel _ (by decide)
      rwa [hsize] at hbi
    obtain ⟨ab, _, hbmap, hne, _, _, htiles⟩ := h.block (List.getElem?_eq_getElem hlt)
    exact ⟨ab, _, hbmap, hne, htiles⟩
  hit := by
    intro name _ ino ftype hname
    obtain ⟨doff, hfind⟩ := findRec_hit h.names hm hname
    exact ⟨doff, by rw [dirFind_spec h, hfind]⟩
  miss := by
    intro name _ hname
    have hfind : findRec name 0 R.flatten = none := by
      refine findRec_none.mpr fun r hr hlive hc => ?_
      have hsome := (hm name _).mpr ⟨r, hr, hlive, hc, rfl⟩
      exact absurd (hsome.symm.trans hname) (by simp)
    rw [dirFind_spec h, hfind]

variable {r : Rec}

/-- A live record with a new name joins. -/
lemma describes_add (hm : Describes R m) (hlive : r.ino ≠ 0)
    (hmem : ∀ x : Rec, x.ino ≠ 0 → (x ∈ R'.flatten ↔ x ∈ R.flatten ∨ x = r))
    (hnew : ∀ x ∈ R.flatten, x.ino ≠ 0 → x.name ≠ r.name) :
    Describes R' (update m r.name (some (r.ino, r.ftype))) := by
  intro name v
  by_cases hname : name = r.name
  · subst hname
    rw [update_self]
    constructor
    · intro hv
      exact ⟨r, (hmem r hlive).mpr (.inr rfl), hlive, rfl, (Option.some.inj hv).symm⟩
    · rintro ⟨x, hx, hxl, hxn, rfl⟩
      rcases (hmem x hxl).mp hx with hx | rfl
      · exact absurd hxn (hnew x hx hxl)
      · rfl
  · rw [update_of_ne hname, hm name v]
    constructor
    · rintro ⟨x, hx, hxl, hxn, hv⟩
      exact ⟨x, (hmem x hxl).mpr (.inl hx), hxl, hxn, hv⟩
    · rintro ⟨x, hx, hxl, hxn, hv⟩
      rcases (hmem x hxl).mp hx with hx | rfl
      · exact ⟨x, hx, hxl, hxn, hv⟩
      · exact absurd hxn.symm hname

/-- A live record leaves, and no other one has its name. -/
lemma describes_remove (hm : Describes R m)
    (hmem : ∀ x : Rec, x.ino ≠ 0 → (x ∈ R.flatten ↔ x ∈ R'.flatten ∨ x = r))
    (honly : ∀ x ∈ R'.flatten, x.ino ≠ 0 → x.name ≠ r.name) :
    Describes R' (update m r.name none) := by
  intro name v
  by_cases hname : name = r.name
  · subst hname
    rw [update_self]
    constructor
    · intro hv
      exact absurd hv (by simp)
    · rintro ⟨x, hx, hxl, hxn, _⟩
      exact absurd hxn (honly x hx hxl)
  · rw [update_of_ne hname, hm name v]
    constructor
    · rintro ⟨x, hx, hxl, hxn, hv⟩
      rcases (hmem x hxl).mp hx with hx | rfl
      · exact ⟨x, hx, hxl, hxn, hv⟩
      · exact absurd hxn.symm hname
    · rintro ⟨x, hx, hxl, hxn, hv⟩
      exact ⟨x, (hmem x hxl).mpr (.inl hx), hxl, hxn, hv⟩

/-- The live records when a dead one stands in for a live one. -/
lemma mem_mid_live {A B : List Rec} {r' x : Rec} (hdead : r.ino = 0) (hx : x.ino ≠ 0) :
    x ∈ A ++ r' :: B ↔ x ∈ A ++ r :: B ∨ x = r' := by
  have hne : x ≠ r := fun hc => hx (hc ▸ hdead)
  simp only [mem_append, mem_cons, hne, false_or]
  tauto

/-! ## The operations -/

section

variable (h : DirOk fs d dir T R)
include h

/-- The blocks of the directory at which a record stands. -/
lemma DirOk.pos {Rs Rs' : List (List Rec)} {pre post : List Rec}
    (hR : R = Rs ++ (pre ++ r :: post) :: Rs') :
    (sumLen (Rs.flatten ++ pre)) % E2_BSIZE = sumLen pre ∧
      sumLen (Rs.flatten ++ pre) / E2_BSIZE % 2 ^ 32 = Rs.length ∧ R[Rs.length]? = some (pre ++ r :: post) := by
  have hget : R[Rs.length]? = some (pre ++ r :: post) := by rw [hR, getElem?_mid]
  obtain ⟨ab, _, _, _, _, _, htiles⟩ := h.block hget
  have h8 := (tiles_append.mp htiles).2.1.eight_le
  have hstop := htiles.stop_eq
  rw [sumLen_append, sumLen_cons] at hstop
  have hcount := h.count
  rw [hR, List.length_append, length_cons] at hcount
  rw [sumLen_append, h.sumLen_flatten hR]
  have hB : E2_BSIZE = 1024 := rfl
  rw [hB] at hstop ⊢
  exact ⟨by omega, by omega, hget⟩

/-- Removing the record that opens its block leaves a tombstone. -/
lemma dirRemove_spec (hm : Describes R m) {doff : ℕ}
    {ent : Dirent} (hfind : findRec name 0 R.flatten = some (doff, ent))
    (hopen : doff % E2_BSIZE = 0) :
    ∃ d' R', dirRemoveEntry fs dir doff d = (.ok (), d') ∧ DirOk fs d' dir T R' ∧
      Describes R' (update m name none) := by
  obtain ⟨A, r, B, hflat, hdoff, hlive, rfl, _⟩ := findRec_some hfind
  obtain ⟨Rs, pre, post, Rs', hR, hA, hB⟩ := flatten_split hflat
  obtain ⟨hmod, hdiv, hget⟩ := h.pos hR
  rw [Nat.zero_add, hA] at hdoff
  rw [← hdoff] at hmod hdiv
  have hpre : sumLen pre = 0 := hmod.symm.trans hopen
  obtain ⟨ab, hat, hbmap, hne, hown, hread, htiles⟩ := h.block hget
  have hrec := (tiles_append.mp htiles).2.1
  rw [hpre] at hrec
  have hput := put_zero_rec hrec
  have hflat' := flatten_mid Rs Rs' pre post { r with ino := 0 }
  have h8 := hrec.eight_le
  subst hR
  have hold := h.names
  rw [flatten_mid, (liveNames_live hlive).nodup_iff] at hold
  obtain ⟨honly, hnames⟩ := List.nodup_cons.mp hold
  rw [mem_liveNames] at honly
  have hdir : DirOk fs (putBlk d ab (put (blkView d ab) 0 4 0)) dir T
      (Rs ++ (pre ++ { r with ino := 0 } :: post) :: Rs') := by
    refine h.replace hat rfl ?_ (fun i hi => ?_) ?_
    · rw [hpre]
      exact hput
    · exact store_of_ge (by rw [leBytes_length]; omega)
    · rw [hflat', liveNames_dead rfl]
      exact hnames
  refine ⟨_, _, ?_, hdir, describes_remove hm (fun x hx => ?_) fun x hx hxl hxn => ?_⟩
  · rw [dirRemoveEntry]
    simp only [hdiv, hbmap, if_neg hne, hread, hopen, if_true]
    exact blkWrite_ok _ h.vol.noFault (h.vol.in_dev hown.inVol)
  · rw [hflat', flatten_mid]
    exact mem_mid_live rfl hx
  · refine honly ⟨x, ?_, hxl, hxn⟩
    rw [hflat'] at hx
    have hne' : x ≠ { r with ino := 0 } := fun hc => hxl (by rw [hc])
    rw [mem_append, mem_cons, or_iff_right hne'] at hx
    exact mem_append.mpr hx

/-- The room that `dir_add_entry` finds is at a record of the directory. -/
lemma dirRoom_spec (need n bi : ℕ) (hn : bi + n = R.length) :
    dirRoom fs dir need n bi d = (.ok none, d) ∨
      ∃ Rs pre r post Rs' ab, R = Rs ++ (pre ++ r :: post) :: Rs' ∧ T.at Rs.length = some ab ∧
        dirRoom fs dir need n bi d = (.ok (some (ab, blkView d ab, sumLen pre)), d) ∧
        (load (blkView d ab) (sumLen pre) 4 = 0 → need ≤ r.len) := by
  induction n generalizing bi with
  | zero => exact .inl rfl
  | succ n ih =>
    have hlt : bi < R.length := by omega
    obtain ⟨ab, hat, hbmap, hne, _, hread, htiles⟩ := h.block (List.getElem?_eq_getElem hlt)
    rw [dirRoom]
    simp only [hbmap, if_neg hne, hread]
    rcases roomScan_spec need htiles E2_BSIZE (by have := htiles.length_le; omega) with
      hnone | ⟨pre, r, post, hrs, hscan, hroom⟩
    · simp only [hnone]
      exact ih (bi + 1) (by omega)
    · simp only [hscan]
      rw [Nat.zero_add] at hroom ⊢
      have hR : R = R.take bi ++ (pre ++ r :: post) :: R.drop (bi + 1) := by
        rw [← hrs, List.getElem_cons_drop, List.take_append_drop]
      have hlen : (R.take bi).length = bi := by
        rw [List.length_take]
        omega
      exact .inr ⟨R.take bi, pre, r, post, R.drop (bi + 1), ab, hR, by rw [hlen]; exact hat, rfl, hroom⟩

lemma DirOk.nblocks : dir.size / E2_BSIZE = R.length := by
  rw [h.size]
  exact Nat.mul_div_cancel _ (by decide)

/-- An entry that goes into a tombstone. -/
lemma dirAdd_reuse (hm : Describes R m) {ino ftype : ℕ}
    (hz : 0 ∉ name) (hlen : name.length < 255) (hpos : 0 < ino) (hino : ino < 2 ^ 32)
    (hft : ftype < 256) (hnew : findRec name 0 R.flatten = none) {Rs Rs' : List (List Rec)}
    {pre post : List Rec} {ab : ℕ} (hR : R = Rs ++ (pre ++ r :: post) :: Rs')
    (hat : T.at Rs.length = some ab) (hdead : load (blkView d ab) (sumLen pre) 4 = 0)
    (hroom : recNeed name.length ≤ r.len) :
    ∃ R', DirOk fs (putBlk d ab (entPut (blkView d ab) (sumLen pre) ino name ftype)) dir T R' ∧
      Describes R' (update m name (some (ino, ftype))) := by
  obtain ⟨_, _, hget⟩ := h.pos hR
  obtain ⟨ab', hat', _, _, _, _, htiles⟩ := h.block hget
  obtain rfl : ab = ab' := Option.some.inj (hat.symm.trans hat')
  have hrec := (tiles_append.mp htiles).2.1
  rw [Nat.zero_add] at hrec
  have hfit : 8 + name.length ≤ r.len := by
    have hneed : recNeed name.length = (8 + name.length + 3) / 4 * 4 := rfl
    omega
  have hr0 : r.ino = 0 := hrec.ino.symm.trans hdead
  have hput := entPut_rec hino (by omega) hft hz hrec.len hrec.eight_le hrec.four_dvd hfit
  subst hR
  have hnone := findRec_none.mp hnew
  have hflat' := flatten_mid Rs Rs' pre post ⟨ino, r.len, ftype, name⟩
  refine ⟨Rs ++ (pre ++ ⟨ino, r.len, ftype, name⟩ :: post) :: Rs', ?_, ?_⟩
  · refine h.replace hat rfl hput (fun i hi => entPut_frame (by omega)) ?_
    have hold := h.names
    rw [flatten_mid, liveNames_dead hr0] at hold
    rw [hflat', (liveNames_live (by show ino ≠ 0; omega)).nodup_iff]
    refine List.nodup_cons.mpr ⟨fun hc => ?_, hold⟩
    obtain ⟨x, hx, hxl, hxn⟩ := mem_liveNames.mp hc
    refine hnone x ?_ hxl hxn
    rw [flatten_mid, mem_append, mem_cons]
    exact (mem_append.mp hx).imp_right .inr
  · have hlive : (⟨ino, r.len, ftype, name⟩ : Rec).ino ≠ 0 := by
      show ino ≠ 0
      omega
    refine describes_add hm hlive (fun x hx => ?_) hnone
    rw [hflat', flatten_mid]
    exact mem_mid_live hr0 hx

end

lemma bmap_inode (fs : E2Fs) (n : Inode) (fb : ℕ) (alloc : Bool) (d : Dev) :
    (bmap fs n fb alloc d).2.2 = { n with blk := (bmap fs n fb alloc d).2.2.blk } := by
  unfold bmap
  split_ifs
  · rfl
  · simp only
    split
    · rfl
    · split_ifs
      · split <;> rfl
      · rfl

/-- The blocks of a directory of at most 13 blocks are mapped apart. -/
lemma at_inj (hT : T.blocks.Nodup) {x y b : ℕ} (hx : x ≤ 12) (hy : y ≤ 12)
    (hxb : T.at x = some b) (hyb : T.at y = some b) : x = y := by
  have hP : P = 256 := rfl
  have hkey := Trees.lookup_inj hT hxb hyb
  have hclass := (aliasClass_eq (by rw [hP]; omega) (by rw [hP]; omega)).mpr hkey
  unfold aliasClass at hclass
  rw [hP] at hclass
  split_ifs at hclass <;> simp at hclass <;> omega

/-- An entry that gets a new block. -/
lemma dirAdd_append (h : DirOk fs d dir T R) (hm : Describes R m)
    {ino ftype : ℕ} (hz : 0 ∉ name) (hlen : name.length < 255) (hpos : 0 < ino)
    (hino : ino < 2 ^ 32) (hft : ftype < 256) (hnew : findRec name 0 R.flatten = none)
    (hcount : R.length ≤ 12) {d₁ d₂ d₃ : Dev} {dir₁ : Inode} {ab : ℕ}
    (hbmap : bmap fs dir R.length true d = (.ok ab, d₁, dir₁))
    (hwrite : blkWrite d₁ ab (freshBlock ino name ftype) = (.ok (), d₂))
    (hstore : inodeStore fs { dir₁ with size := dir₁.size + E2_BSIZE } d₂ = (.ok (), d₃)) :
    ∃ T' R', DirOk fs d₃ { dir₁ with size := dir₁.size + E2_BSIZE } T' R' ∧
      Describes R' (update m name (some (ino, ftype))) := by
  have hP : P = 256 := rfl
  obtain ⟨res, d', n', T', hcall, hgrown, hfile, hold, hres⟩ :=
    bmap_alloc h.vol h.file (by rw [hP]; omega : R.length < 12 + P + P * P)
  rw [hbmap, mk.injEq, mk.injEq] at hcall
  obtain ⟨rfl, rfl, rfl⟩ := hcall
  have hat := hres.2
  have hv₁ := hgrown.vol h.vol
  have hown := hfile.own _ ab (Radix.lookup_mem_all hat)
  rw [blkWrite_ok _ hv₁.noFault (hv₁.in_dev hown.inVol), mk.injEq] at hwrite
  obtain rfl := hwrite.2.symm
  have hgrown₂ := grown_putBlk hv₁ hown.notBitmap (freshBlock ino name ftype)
  have hv₂ := hgrown₂.vol hv₁
  have hfile₂ := hfile.grown hgrown₂ fun x f hf => sameBlk_putBlk fun heq =>
    Trees.lookup_not_frame hfile.nodup hat (heq ▸ hf)
  obtain ⟨d₃', hstore', hgrown₃, hsame⟩ :=
    inodeStore_ok hv₂ (n := { dir₁ with size := dir₁.size + E2_BSIZE }) hfile₂.group
  rw [hstore, mk.injEq] at hstore'
  obtain ⟨_, rfl⟩ := hstore'
  have hkeep : ∀ b, Own fs d₁ b → SameBlk (putBlk d₁ ab (freshBlock ino name ftype)) d₃ b :=
    fun b hb => hsame b hb.notTable
  have hsize : dir₁.size = dir.size := by
    have hinode := bmap_inode fs dir R.length true d
    rw [hbmap] at hinode
    have hsize := congrArg Inode.size hinode
    exact hsize
  have hrec : IsRec (freshBlock ino name ftype) 0 ⟨ino, E2_BSIZE, ftype, name⟩ :=
    entPut_rec hino (by omega) hft hz (load_put _ 4 2 E2_BSIZE) (by decide) (by decide)
      (by show 8 + name.length ≤ 1024; omega)
  have hnone := findRec_none.mp hnew
  have hflat : (R ++ [[(⟨ino, E2_BSIZE, ftype, name⟩ : Rec)]]).flatten
      = R.flatten ++ (⟨ino, E2_BSIZE, ftype, name⟩ : Rec) :: [] := by simp
  refine ⟨T', R ++ [[⟨ino, E2_BSIZE, ftype, name⟩]], ⟨hgrown₃.vol hv₂, ?_, ?_, ?_, ?_, ?_⟩, ?_⟩
  · have hfile₃ := hfile₂.grown hgrown₃ fun x f hf =>
      hkeep f (hfile.own x f (Radix.frames_subset_all hf))
    exact ⟨hfile₃.group, hfile₃.holds, hfile₃.nodup, hfile₃.own⟩
  · rw [hsize, h.size, List.length_append]
    exact (Nat.succ_mul _ _).symm
  · intro bi rs hbi
    have hlt := (List.getElem?_eq_some_iff.mp hbi).1
    rw [List.length_append, List.length_singleton] at hlt
    by_cases hlast : bi = R.length
    · subst hlast
      rw [getElem?_mid] at hbi
      obtain rfl := Option.some.inj hbi
      have htiles : Tiles (freshBlock ino name ftype) 0 [⟨ino, E2_BSIZE, ftype, name⟩] E2_BSIZE :=
        ⟨hrec, Nat.zero_add _⟩
      refine ⟨ab, hat, htiles.congr fun i _ hi => ?_⟩
      rw [hkeep ab hown i hi, blkView_putBlk_self hi]
    · rw [List.getElem?_append_left (by omega)] at hbi
      obtain ⟨ab', hat', htiles⟩ := h.blocks bi rs hbi
      obtain ⟨hat'', hsame'⟩ := hold bi ab' hat'
      have hne : ab' ≠ ab := fun hc =>
        hlast (at_inj hfile.nodup (by omega) hcount (hc ▸ hat'') hat)
      have hown' := hfile.own _ ab' (Radix.lookup_mem_all hat'')
      refine ⟨ab', hat'', htiles.congr fun i _ hi => ?_⟩
      exact ((hsame'.trans (sameBlk_putBlk hne)).trans (hkeep ab' hown')) i hi
  · intro bi hbi bj hbj heq
    rw [List.length_append, List.length_singleton] at hbi hbj
    have hsome : ∃ b, T'.at bi = some b := by
      by_cases hlast : bi = R.length
      · exact ⟨ab, hlast ▸ hat⟩
      · obtain ⟨ab', hat', _⟩ := h.blocks bi _ (List.getElem?_eq_getElem (by omega))
        exact ⟨ab', (hold bi ab' hat').1⟩
    obtain ⟨b, hb⟩ := hsome
    exact at_inj hfile.nodup (by omega) (by omega) hb (heq ▸ hb)
  · rw [hflat, (liveNames_live (by show ino ≠ 0; omega)).nodup_iff, List.append_nil]
    refine List.nodup_cons.mpr ⟨fun hc => ?_, h.names⟩
    obtain ⟨x, hx, hxl, hxn⟩ := mem_liveNames.mp hc
    exact hnone x hx hxl hxn
  · have hlive : (⟨ino, E2_BSIZE, ftype, name⟩ : Rec).ino ≠ 0 := by
      show ino ≠ 0
      omega
    refine describes_add hm hlive (fun x _ => ?_) hnone
    rw [hflat, mem_append, List.mem_singleton]

/-! ## Runs -/

/-- The blocks of a tree, read off the device. -/
lemma treeBlocks_eq {n p : ℕ} {t : Tree n} (h : Holds d p t) : treeBlocks d n p = t.all := by
  induction t generalizing p with
  | absent =>
    rename_i n
    cases n with
    | zero => rw [treeBlocks, if_pos (holds_absent.mp h), Radix.all_absent]
    | succ n => rw [treeBlocks, if_pos (holds_absent.mp h), Radix.all_absent]
  | leaf b =>
    obtain ⟨rfl, hb⟩ := h
    rw [treeBlocks, if_neg hb, Radix.all]
  | node f kids ih =>
    obtain ⟨rfl, hf, hkids⟩ := h
    rw [treeBlocks, if_neg hf, Radix.all_node]
    congr 1
    exact List.flatMap_congr fun i _ => ih i (hkids i)

lemma FileOk.blocks_eq {n : Inode} (h : FileOk fs d n T) : inodeBlocks d n = T.blocks :=
  List.flatMap_congr fun r _ => treeBlocks_eq (h.holds r)

/-- What is written elsewhere leaves the directory alone. -/
lemma DirOk.other (h : DirOk fs d dir T R) (hv : VolOk fs d')
    (hsame : ∀ b ∈ inodeBlocks d dir, Used fs d' b ∧ SameBlk d d' b) {links : ℕ} :
    DirOk fs d' { dir with links := links } T R := by
  rw [h.file.blocks_eq] at hsame
  have hmem : ∀ r, ∀ b ∈ (T r).all, b ∈ T.blocks := fun r b hb =>
    List.mem_flatMap.mpr ⟨r, List.mem_finRange r, hb⟩
  refine ⟨hv, ⟨h.file.group, fun r => ?_, h.file.nodup, fun r b hb => ?_⟩, h.size, ?_, h.apart, h.names⟩
  · exact (h.file.holds r).congr fun f hf => (hsame f (hmem r f (Radix.frames_subset_all hf))).2
  · have hown := h.file.own r b hb
    exact ⟨hown.inVol, (hsame b (hmem r b hb)).1, hown.notBitmap, hown.notTable⟩
  · intro bi rs hbi
    obtain ⟨ab, hat, htiles⟩ := h.blocks bi rs hbi
    have hin := hmem _ ab (Radix.lookup_mem_all hat)
    exact ⟨ab, hat, htiles.congr fun i _ hi => (hsame ab hin).2 i hi⟩

/-- One sound step of a well-formed directory. -/
lemma dir_step {s s' : DirSys} {op : DirOp} (h : DirOk fs s.dev s.dir T R)
    (hm : Describes R s.map) (hsound : DirSound fs s op) (hs : DirStep fs s op s') :
    ∃ T' R', DirOk fs s'.dev s'.dir T' R' ∧ Describes R' s'.map := by
  cases op with
  | add name ino ftype =>
    obtain ⟨d, hz, hlen, hpos, hino, hft, hfind, hadd, hmap⟩ := hs
    rw [dirFind_spec h, mk.injEq, ok.injEq] at hfind
    obtain ⟨hnone, rfl⟩ := hfind
    rw [hmap]
    unfold DirSound at hsound
    unfold dirAddEntry at hadd
    rw [h.nblocks] at hsound hadd
    simp only at hsound hadd
    rcases dirRoom_spec h (recNeed name.length) R.length 0 (Nat.zero_add _) with
      hroom | ⟨Rs, pre, r, post, Rs', ab, hR, hat, hroom, hfit⟩
    · rw [hroom] at hsound hadd
      cases hb : bmap fs s.dir R.length true s.dev with
      | mk res rest =>
        obtain ⟨d₁, dir₁⟩ := rest
        cases res with
        | error e => simp [hb] at hadd
        | ok ab =>
          simp only [hb] at hadd
          cases hw : blkWrite d₁ ab (freshBlock ino name ftype) with
          | mk res d₂ =>
            cases res with
            | error e => simp [hw] at hadd
            | ok u =>
              simp only [hw, mk.injEq] at hadd
              obtain ⟨hres, hdev, hdir⟩ := hadd
              rw [← hdir]
              exact dirAdd_append h hm hz hlen hpos hino hft hnone hsound hb hw
                (ext hres hdev)
    · rw [hroom] at hsound hadd
      simp only [mk.injEq] at hsound hadd
      obtain ⟨_, hdev, hdir⟩ := hadd
      have hown := h.file.own _ ab (Radix.lookup_mem_all hat)
      rw [if_neg (by rw [hsound]; exact fun hc => hc rfl),
        blkWrite_ok _ h.vol.noFault (h.vol.in_dev hown.inVol)] at hdev
      rw [← hdev, ← hdir]
      exact ⟨T, dirAdd_reuse h hm hz hlen hpos hino hft hnone hR hat hsound (hfit hsound)⟩
  | remove name =>
    obtain ⟨doff, ent, d, hz, _, _, hfind, hremove, hdir, hmap⟩ := hs
    rw [dirFind_spec h, mk.injEq, ok.injEq] at hfind
    obtain ⟨hfound, rfl⟩ := hfind
    have hopen := hsound doff ent (by rw [dirFind_spec h, hfound])
    obtain ⟨d', R', hcall, hok, hm'⟩ := dirRemove_spec h hm hfound hopen
    rw [hremove, mk.injEq] at hcall
    rw [hcall.2, hdir, hmap]
    exact ⟨T, R', hok, hm'⟩
  | other =>
    obtain ⟨hv, hsame, hdir, hmap⟩ := hs
    rw [hdir, hmap]
    exact ⟨T, R, h.other hv hsame, hm⟩

end

/-- In every run of successful additions and removals from a well-formed directory in which
an entry goes into a tombstone or into a new block among the first 13, and a removed record
opens its block, the records tile every block and `dir_find` finds exactly the names of the
map, with their inode numbers and types. -/
theorem dir_law {fs : E2Fs} {s₀ s : DirSys} {T : Trees} {R : List (List Rec)} {ops : List DirOp}
    (h₀ : DirOk fs s₀.dev s₀.dir T R) (hm : Describes R s₀.map)
    (hrun : Run (Guarded (DirSound fs) (DirStep fs)) s₀ ops s) : DirLaw fs s := by
  have hinv : ∃ T R, DirOk fs s.dev s.dir T R ∧ Describes R s.map :=
    hrun.invariant (I := fun s => ∃ T R, DirOk fs s.dev s.dir T R ∧ Describes R s.map)
      ⟨T, R, h₀, hm⟩ fun t op u ht hs => by
        obtain ⟨T, R, h, hm⟩ := ht
        exact dir_step h hm hs.1 hs.2
  obtain ⟨T', R', h, hm'⟩ := hinv
  exact h.law hm'

/-! ## A small directory -/

/-- A directory of one block, block 300 of the small volume. -/
def smallDir : Inode := ⟨11, true, 1024, 2, fun i => if i = 0 then 300 else 0⟩

def smallTrees : Trees
  | ⟨0, _⟩ => .leaf 300
  | ⟨_ + 1, _⟩ => .absent

lemma small_all (r : Fin 15) : (smallTrees r).all = if (r : ℕ) = 0 then [300] else [] := by
  rcases r with ⟨_ | k, hk⟩
  · rfl
  · rw [if_neg (Nat.succ_ne_zero k)]
    exact Radix.all_absent

/-- The small directory with the contents `buf`. -/
lemma small_dir {buf : ℕ → UInt8} {rs : List Rec} (htiles : Tiles buf 0 rs E2_BSIZE)
    (hnames : (liveNames rs).Nodup) :
    DirOk smallFs (putBlk smallDev 300 buf) smallDir smallTrees [rs] := by
  have hnb : ¬ IsBitmap smallFs 300 := by
    rintro ⟨g, _, hg⟩
    have hg' : (300 : ℕ) = 3 := hg
    omega
  have hnt : ∀ g < smallFs.ngroups, ∀ j < E2_IPG / 8, 300 ≠ (smallFs.grp g).itable + j := by
    intro g _ j hj
    have hj' : j < 256 := hj
    show 300 ≠ 5 + j
    omega
  have hgrown := grown_putBlk small_vol hnb buf
  have hvol : InVol smallFs 300 := ⟨by decide, by decide⟩
  have hused := hgrown.used 300 hvol (small_used (by decide) (by decide))
  refine ⟨hgrown.vol small_vol, ⟨by decide, fun r => ?_, ?_, fun r b hb => ?_⟩,
    (Nat.one_mul E2_BSIZE).symm, ?_, ?_, ?_⟩
  · rcases r with ⟨_ | k, hk⟩
    · exact ⟨rfl, by decide⟩
    · exact holds_absent.mpr rfl
  · have hblocks : Trees.blocks smallTrees
        = (List.finRange 15).flatMap fun r : Fin 15 => if (r : ℕ) = 0 then [300] else [] :=
      List.flatMap_congr fun r _ => small_all r
    rw [hblocks]
    decide
  · rw [small_all] at hb
    split_ifs at hb
    · obtain rfl := List.mem_singleton.mp hb
      exact ⟨hvol, hused, hnb, hnt⟩
    · exact absurd hb List.not_mem_nil
  · intro bi rs' hbi
    have hlt := (List.getElem?_eq_some_iff.mp hbi).1
    obtain rfl : bi = 0 := by simpa using hlt
    obtain rfl : rs = rs' := by simpa using hbi
    exact ⟨300, rfl, htiles.congr fun i _ hi => blkView_putBlk_self hi⟩
  · intro bi hbi bj hbj _
    rw [List.length_singleton] at hbi hbj
    omega
  · simpa using hnames

/-- An addition as a step, from the results that the code computes. -/
lemma small_add {d : Dev} {dir : Inode} (m : List UInt8 → Option (ℕ × ℕ)) {name : List UInt8}
    {ino ftype : ℕ} (hname : 0 ∉ name ∧ name.length < 255) (hino : 0 < ino ∧ ino < 2 ^ 32)
    (hft : ftype < 256) (hfind : dirFind smallFs dir name d = (.ok none, d))
    (hadd : (dirAddEntry smallFs dir ino name ftype d).1.toOption = some ()) :
    DirStep smallFs ⟨d, dir, m⟩ (.add name ino ftype)
      ⟨(dirAddEntry smallFs dir ino name ftype d).2.1, (dirAddEntry smallFs dir ino name ftype d).2.2,
        update m name (some (ino, ftype))⟩ := by
  refine ⟨d, hname.1, hname.2, hino.1, hino.2, hft, hfind, ext ?_ rfl, rfl⟩
  cases hres : (dirAddEntry smallFs dir ino name ftype d).1 with
  | error e => simp [hres, toOption] at hadd
  | ok u => rfl

/-- A removal as a step. -/
lemma small_remove {d : Dev} {dir : Inode} (m : List UInt8 → Option (ℕ × ℕ)) {name : List UInt8}
    {doff : ℕ} {ent : Dirent} (hname : 0 ∉ name ∧ name ≠ [46] ∧ name ≠ [46, 46])
    (hfind : dirFind smallFs dir name d = (.ok (some (doff, ent)), d))
    (hremove : (dirRemoveEntry smallFs dir doff d).1.toOption = some ()) :
    DirStep smallFs ⟨d, dir, m⟩ (.remove name)
      ⟨(dirRemoveEntry smallFs dir doff d).2, dir, update m name none⟩ := by
  refine ⟨doff, ent, d, hname.1, hname.2.1, hname.2.2, hfind, ext ?_ rfl, rfl, rfl⟩
  cases hres : (dirRemoveEntry smallFs dir doff d).1 with
  | error e => simp [hres, toOption] at hremove
  | ok u => rfl

/-- A block with an entry and a tombstone behind it. -/
def tombBlock : ℕ → UInt8 :=
  store (store (fun _ => 0) 0 [20, 0, 0, 0, 12, 0, 1, 1, 98]) 16 [0xF4, 3]

lemma tomb_tiles : Tiles tombBlock 0 [⟨20, 12, 1, [98]⟩, ⟨0, 1012, 0, []⟩] E2_BSIZE :=
  ⟨⟨by decide, by decide, by decide, by decide, fun _ => by decide⟩,
    ⟨by decide, by decide, by decide, by decide, fun hc => absurd rfl hc⟩, rfl⟩

/-- The map of that directory. -/
def tombMap (name : List UInt8) : Option (ℕ × ℕ) := if name = [98] then some (20, 1) else none

/-- The addition of a second entry. -/
def added : Except Errno Unit × Dev × Inode :=
  dirAddEntry smallFs smallDir 12 [97] 1 (putBlk smallDev 300 tombBlock)

/-- An entry goes into the tombstone, beside the other one, and then that one is removed. -/
theorem dir_law_reuse : ∃ s, Run (Guarded (DirSound smallFs) (DirStep smallFs))
    ⟨putBlk smallDev 300 tombBlock, smallDir, tombMap⟩ [.add [97] 12 1, .remove [98]] s ∧
      DirLaw smallFs s := by
  have hdir := small_dir tomb_tiles (by decide)
  have hadd := small_add tombMap (by decide) (by decide) (by decide)
    (dirFind_spec hdir [97]) (by decide : added.1.toOption = some ())
  have hroom : (dirRoom smallFs smallDir (recNeed [97].length) (smallDir.size / E2_BSIZE) 0
      (putBlk smallDev 300 tombBlock)).1.toOption.map (Option.map fun x => load x.2.1 x.2.2 4)
      = some (some 0) := by decide
  have hsound : DirSound smallFs ⟨putBlk smallDev 300 tombBlock, smallDir, tombMap⟩
      (.add [97] 12 1) := by
    unfold DirSound
    simp only
    cases hc : (dirRoom smallFs smallDir (recNeed [97].length) (smallDir.size / E2_BSIZE) 0
      (putBlk smallDev 300 tombBlock)).1 with
    | error e =>
      rw [hc] at hroom
      simp [toOption] at hroom
    | ok found =>
      rw [hc] at hroom
      cases found with
      | none => simp [toOption] at hroom
      | some x => simpa [toOption] using hroom
  have hmap : Describes [[⟨20, 12, 1, [98]⟩, ⟨0, 1012, 0, []⟩]] tombMap := by
    intro name v
    simp [tombMap, eq_comm]
  -- the law after the addition tells where the other entry is
  obtain ⟨doff, hfind⟩ := (dir_law hdir hmap (Run.single ⟨hsound, hadd⟩)).hit [98] (by decide) 20 1
    (by decide)
  have hstart : (dirFind smallFs added.2.2 [98] added.2.1).1.toOption.map (Option.map Prod.fst)
      = some (some 0) := by decide
  change dirFind smallFs added.2.2 [98] added.2.1 = _ at hfind
  rw [hfind] at hstart
  obtain rfl : doff = 0 := by simpa [toOption] using hstart
  have hremove := small_remove (update tombMap [97] (some (12, 1))) (by decide) hfind (by decide)
  have hfirst : DirSound smallFs ⟨added.2.1, added.2.2, update tombMap [97] (some (12, 1))⟩
      (.remove [98]) := by
    intro doff ent h
    rw [hfind] at h
    obtain ⟨rfl, -⟩ := Prod.mk.inj (Option.some.inj (Except.ok.inj h))
    rfl
  have hone : Run (Guarded (DirSound smallFs) (DirStep smallFs))
      ⟨putBlk smallDev 300 tombBlock, smallDir, tombMap⟩ [.add [97] 12 1]
      ⟨added.2.1, added.2.2, update tombMap [97] (some (12, 1))⟩ := Run.single ⟨hsound, hadd⟩
  have hrun := hone.guarded hremove hfirst
  exact ⟨_, hrun, dir_law hdir hmap hrun⟩

/-- A well-formed block with `.` and `..`. -/
def dotBlock : ℕ → UInt8 :=
  store (store (fun _ => 0) 0 [11, 0, 0, 0, 12, 0, 1, 2, 46]) 12
    [11, 0, 0, 0, 0xF4, 3, 2, 2, 46, 46]

lemma dot_tiles : Tiles dotBlock 0 [⟨11, 12, 2, [46]⟩, ⟨11, 1012, 2, [46, 46]⟩] E2_BSIZE :=
  ⟨⟨by decide, by decide, by decide, by decide, fun _ => by decide⟩,
    ⟨by decide, by decide, by decide, by decide, fun _ => by decide⟩, rfl⟩

/-- The map of that directory. -/
def dotMap (name : List UInt8) : Option (ℕ × ℕ) :=
  if name = [46] ∨ name = [46, 46] then some (11, 2) else none

/-- The first entry that is added to it is not found. -/
theorem dir_law_first_entry :
    DirOk smallFs (putBlk smallDev 300 dotBlock) smallDir smallTrees
        [[⟨11, 12, 2, [46]⟩, ⟨11, 1012, 2, [46, 46]⟩]] ∧
      Describes [[⟨11, 12, 2, [46]⟩, ⟨11, 1012, 2, [46, 46]⟩]] dotMap ∧
      ∃ s, Run (DirStep smallFs) ⟨putBlk smallDev 300 dotBlock, smallDir, dotMap⟩
        [.add [97] 20 1] s ∧ ¬ DirLaw smallFs s := by
  have hdir := small_dir dot_tiles (by decide)
  have hstep := small_add dotMap (by decide) (by decide) (by decide)
    (dirFind_spec hdir [97]) (by decide : (dirAddEntry smallFs smallDir 20 [97] 1
      (putBlk smallDev 300 dotBlock)).1.toOption = some ())
  refine ⟨hdir, ?_, _, Run.single hstep, fun hlaw => ?_⟩
  · intro name v
    simp only [List.flatten_cons, List.flatten_nil, List.append_nil, mem_cons,
      List.not_mem_nil, or_false, exists_eq_or_imp, exists_eq_left]
    unfold dotMap
    split_ifs with h
    · rw [Option.some.injEq]
      refine ⟨?_, ?_⟩
      · rintro rfl
        exact h.imp (fun h => ⟨by decide, h.symm, rfl⟩) fun h => ⟨by decide, h.symm, rfl⟩
      · rintro (⟨_, _, hv⟩ | ⟨_, _, hv⟩) <;> exact hv.symm
    · refine ⟨fun hc => absurd hc (by simp), ?_⟩
      rintro (⟨_, hn, _⟩ | ⟨_, hn, _⟩)
      · exact absurd (.inl hn.symm) h
      · exact absurd (.inr hn.symm) h
  · obtain ⟨doff, hfind⟩ := hlaw.hit [97] (by decide) 20 1 rfl
    have hnone : (dirFind smallFs (dirAddEntry smallFs smallDir 20 [97] 1
        (putBlk smallDev 300 dotBlock)).2.2 [97] (dirAddEntry smallFs smallDir 20 [97] 1
        (putBlk smallDev 300 dotBlock)).2.1).1.toOption = some none := by decide
    rw [hfind] at hnone
    simp [toOption] at hnone

end Ext2
end Fs
end MobilePhoneOs
