import MobilePhoneOs.Fs.Getdents
import Mathlib.Order.Nat

/-!
# A directory is listed in any chunks

`Packed` says which entries a string of bytes holds, whatever the padding of the records. One call
packs the entries from the file's offset on, and stops at the end of the directory or in front of
a record that its buffer has no room for; so the replies of several calls, one after another, pack
the directory from its start.
-/

namespace MobilePhoneOs.Getdents

open Ramfs (Vtype VFS_NAME_MAX)

/-! ## Records -/

lemma uxDirentLen_ge (name : List UInt8) : name.length + 4 ≤ uxDirentLen name := by
  simp only [uxDirentLen, UX_DIRENT_ALIGN]
  omega

lemma uxDirentLen_lt {name : List UInt8} (h : name.length < VFS_NAME_MAX) :
    uxDirentLen name < 2 ^ 16 := by
  simp only [uxDirentLen, UX_DIRENT_ALIGN, VFS_NAME_MAX] at *
  omega

/-- The bytes of a record that the call writes. -/
def fields (e : Dirent) : List UInt8 :=
  le16 (uxDirentLen e.name % 2 ^ 16) ++ [e.dtype] ++ (e.name ++ [0])

lemma fields_length (e : Dirent) : (fields e).length = e.name.length + 4 := by
  simp [fields, le16]

/-- The bytes are the records of the entries, each with some padding. -/
def Packed : List UInt8 → List Dirent → Prop
  | bytes, [] => bytes = []
  | bytes, e :: es => ∃ pad rest, bytes = fields e ++ pad ++ rest ∧
      (fields e ++ pad).length = uxDirentLen e.name ∧ Packed rest es

lemma Packed.append {a b : List UInt8} {es fs : List Dirent} (ha : Packed a es)
    (hb : Packed b fs) : Packed (a ++ b) (es ++ fs) := by
  induction es generalizing a with
  | nil =>
    rw [show a = [] from ha]
    exact hb
  | cons e es ih =>
    obtain ⟨pad, rest, hsplit, hlen, hrest⟩ := ha
    refine ⟨pad, rest ++ b, ?_, hlen, ih hrest⟩
    rw [hsplit, List.append_assoc]

/-- The length that a record states is its length. -/
lemma reclen_eq {e : Dirent} (hname : e.name.length < VFS_NAME_MAX) (rest : List UInt8) :
    ((fields e ++ rest).getD 0 0).toNat + 256 * ((fields e ++ rest).getD 1 0).toNat
      = uxDirentLen e.name := by
  have hlt := uxDirentLen_lt hname
  have hmod : uxDirentLen e.name % 2 ^ 16 = uxDirentLen e.name := Nat.mod_eq_of_lt hlt
  simp only [fields, hmod, le16, List.cons_append, List.getD_cons_zero, List.getD_cons_succ,
    UInt8.toNat_ofNat']
  omega

/-- Behind the type comes the name, up to its NUL. -/
lemma name_eq {e : Dirent} (hname : 0 ∉ e.name) (rest : List UInt8) :
    ((fields e ++ rest).drop 3).takeWhile (· ≠ 0) = e.name := by
  have hdrop : (fields e ++ rest).drop 3 = e.name ++ 0 :: rest := by
    simp [fields, le16]
  have hall : ∀ x ∈ e.name, decide (x ≠ 0) = true := by
    intro x hx
    rw [decide_eq_true_eq]
    rintro rfl
    exact hname hx
  rw [hdrop, List.takeWhile_append_of_pos hall]
  simp

/-- Decoding by the record lengths gives the entries. -/
lemma decodeLoop_packed {es : List Dirent} (fuel : ℕ) {bytes : List UInt8}
    (hnames : ∀ e ∈ es, e.name.length < VFS_NAME_MAX ∧ 0 ∉ e.name) (h : Packed bytes es)
    (hfuel : bytes.length ≤ fuel) : decodeLoop fuel bytes = some es := by
  induction es generalizing fuel bytes with
  | nil =>
    rw [show bytes = [] from h]
    cases fuel <;> rfl
  | cons e es ih =>
    obtain ⟨pad, rest, hsplit, hlen, hrest⟩ := h
    obtain ⟨hshort, hnul⟩ := hnames e List.mem_cons_self
    have hge := uxDirentLen_ge e.name
    have htotal : bytes.length = uxDirentLen e.name + rest.length := by
      rw [hsplit, List.length_append, hlen]
    have hstated := reclen_eq hshort (pad ++ rest)
    have hname := name_eq hnul (pad ++ rest)
    have hdtype : (fields e ++ (pad ++ rest)).getD 2 0 = e.dtype := rfl
    rw [← List.append_assoc, ← hsplit] at hstated hname hdtype
    have hdrop : bytes.drop (uxDirentLen e.name) = rest := by
      rw [hsplit, ← hlen]
      exact List.drop_left
    cases fuel with
    | zero => omega
    | succ fuel =>
      rw [decodeLoop, hstated, hname, hdtype, hdrop]
      · have hgo : ¬ (uxDirentLen e.name = 0 ∨ bytes.length < uxDirentLen e.name) := by omega
        rw [if_neg hgo, ih fuel (fun f hf => hnames f (List.mem_cons_of_mem _ hf)) hrest (by omega)]
        rfl
      · intro hnil
        rw [hnil] at htotal
        simp only [List.length_nil] at htotal
        omega

/-! ## One call -/

lemma emit_kbuf (s : State) (e : Dirent) :
    (s.emit e).kbuf = Mem.store s.kbuf s.used (fields e) := by
  have htype := Mem.store_append s.kbuf s.used (le16 (uxDirentLen e.name % 2 ^ 16)) [e.dtype]
  have hname := Mem.store_append s.kbuf s.used (le16 (uxDirentLen e.name % 2 ^ 16) ++ [e.dtype])
    (e.name ++ [0])
  rw [← htype] at hname
  exact hname

/-- The record that has been written, with what was in the buffer as its padding. -/
lemma slice_emit (s : State) (e : Dirent) :
    Mem.slice (s.emit e).kbuf s.used (uxDirentLen e.name)
      = fields e ++ Mem.slice s.kbuf (s.used + (fields e).length)
          (uxDirentLen e.name - (fields e).length) := by
  have hge := uxDirentLen_ge e.name
  have hlen := fields_length e
  have hsum : uxDirentLen e.name
      = (fields e).length + (uxDirentLen e.name - (fields e).length) := by omega
  rw [emit_kbuf]
  nth_rewrite 1 [hsum]
  rw [Mem.slice_add, Mem.slice_store]
  congr 1
  exact Mem.slice_store_of_disjoint (.inr le_rfl)

/-- What one call does from a state of its loop: it packs the next entries behind what it has,
and stops in front of one that does not fit. -/
structure Fills (entries : List Dirent) (buflen : ℕ) (s : State) (r : ℤ × State) : Prop where
  ret : r.1 = r.2.used
  off : s.off ≤ r.2.off ∧ r.2.off ≤ entries.length
  used : s.used ≤ r.2.used ∧ r.2.used ≤ buflen
  frame : ∀ j, j < s.used ∨ buflen ≤ j → r.2.kbuf j = s.kbuf j
  packed : Packed (Mem.slice r.2.kbuf s.used (r.2.used - s.used))
    ((entries.drop s.off).take (r.2.off - s.off))
  stop : ∀ e, entries[r.2.off]? = some e → buflen < r.2.used + uxDirentLen e.name

variable {entries : List Dirent}

/-- A loop that stops at once. -/
lemma fills_stop {buflen : ℕ} {s : State} (hoff : s.off ≤ entries.length)
    (hused : s.used ≤ buflen)
    (hstop : ∀ e, entries[s.off]? = some e → buflen < s.used + uxDirentLen e.name) :
    Fills entries buflen s (s.used, s) := by
  refine ⟨rfl, ⟨le_rfl, hoff⟩, ⟨le_rfl, hused⟩, fun _ _ => rfl, ?_, hstop⟩
  rw [Nat.sub_self, Nat.sub_self, List.take_zero]
  rfl

variable {readdir : Readdir}

/-- The loop packs entries until one does not fit or none is left. -/
lemma getdentsLoop_fills (h : Lists readdir entries)
    (buflen fuel : ℕ) {s : State} (hoff : s.off ≤ entries.length) (hused : s.used ≤ buflen)
    (hfuel : buflen ≤ s.used + fuel) :
    Fills entries buflen s (getdentsLoop readdir buflen fuel s) := by
  induction fuel generalizing s with
  | zero =>
    apply fills_stop hoff hused
    intro e _
    have hge := uxDirentLen_ge e.name
    omega
  | succ fuel ih =>
    rw [getdentsLoop]
    split
    · have hidx : s.off % 2 ^ 32 = s.off := Nat.mod_eq_of_lt (lt_of_le_of_lt hoff h.fits)
      rw [hidx]
      cases hentry : entries[s.off]? with
      | none =>
        rw [h.past s.off (List.getElem?_eq_none_iff.mp hentry) (lt_of_le_of_lt hoff h.fits)]
        apply fills_stop hoff hused
        intro e he
        rw [hentry] at he
        exact absurd he (by simp)
      | some e =>
        rw [h.entry s.off e hentry]
        simp only
        have hlt : s.off < entries.length := (List.getElem?_eq_some_iff.mp hentry).1
        have hge := uxDirentLen_ge e.name
        split
        · rename_i hbig
          apply fills_stop hoff hused
          intro f hf
          rw [hentry] at hf
          rw [← Option.some.inj hf]
          exact hbig
        · -- the record of `e`, and what the rounds after it pack
          rename_i hfit
          have hrest : Fills entries buflen (s.emit e)
              (getdentsLoop readdir buflen fuel (s.emit e)) := by
            apply ih
            · exact hlt
            · exact not_lt.mp hfit
            · show buflen ≤ s.used + uxDirentLen e.name + fuel
              omega
          generalize getdentsLoop readdir buflen fuel (s.emit e) = r at hrest
          have hoff' : s.off + 1 ≤ r.2.off := hrest.off.1
          have hused' : s.used + uxDirentLen e.name ≤ r.2.used := hrest.used.1
          refine ⟨hrest.ret, ⟨by omega, hrest.off.2⟩, ⟨by omega, hrest.used.2⟩, fun j hj => ?_, ?_,
            hrest.stop⟩
          · have hflen := fields_length e
            have hout : j < s.used + uxDirentLen e.name ∨ buflen ≤ j := by omega
            rw [hrest.frame j hout, emit_kbuf]
            rcases hj with hj | hj
            · exact Mem.store_of_lt hj
            · exact Mem.store_of_ge (by omega)
          · have hsum : r.2.used - s.used
                = uxDirentLen e.name + (r.2.used - (s.used + uxDirentLen e.name)) := by omega
            have hfirst : Mem.slice r.2.kbuf s.used (uxDirentLen e.name)
                = Mem.slice (s.emit e).kbuf s.used (uxDirentLen e.name) := by
              apply Mem.slice_congr
              intro i hi
              apply hrest.frame
              left
              show s.used + i < s.used + uxDirentLen e.name
              omega
            have hcount : r.2.off - s.off = (r.2.off - (s.off + 1)) + 1 := by omega
            have hdrop : entries.drop s.off = e :: entries.drop (s.off + 1) := by
              rw [List.drop_eq_getElem_cons hlt, (List.getElem?_eq_some_iff.mp hentry).2]
            rw [hsum, Mem.slice_add, hfirst, slice_emit, hcount, hdrop, List.take_succ_cons]
            refine ⟨_, _, rfl, ?_, hrest.packed⟩
            have hflen := fields_length e
            rw [List.length_append, Mem.slice_length]
            omega
    · apply fills_stop hoff hused
      intro e _
      have hge := uxDirentLen_ge e.name
      omega

variable {off : ℕ}

/-- One call from the offset `off`. -/
lemma fGetdents_fills (h : Lists readdir entries) (hoff : off ≤ entries.length) (kbuf : ℕ → UInt8) (buflen : ℕ) :
    Fills entries buflen ⟨off, kbuf, 0⟩ (fGetdents .dir readdir off kbuf buflen) := by
  have hdir : ¬ (Vtype.dir ≠ .dir) := by simp
  rw [fGetdents, if_neg hdir]
  exact getdentsLoop_fills h buflen buflen hoff (Nat.zero_le _) (Nat.le_add_left _ _)

section

variable {buflen : ℕ} {kbuf : ℕ → UInt8} {r : ℤ × State} (h : Fills entries buflen ⟨off, kbuf, 0⟩ r)
include h

lemma Fills.bytes :
    Packed (Reply.bytes ⟨r.1, r.2.kbuf⟩) ((entries.drop off).take (r.2.off - off)) := by
  have hpacked := h.packed
  rw [Reply.bytes, h.ret]
  exact hpacked

/-- A call whose buffer has room for the next record gives out an entry at least. -/
lemma Fills.progress
    (hroom : ∀ e ∈ entries[off]?, uxDirentLen e.name ≤ buflen) (hoff : off < entries.length) :
    off < r.2.off ∧ 0 < r.2.used := by
  have hle : off ≤ r.2.off := h.off.1
  have hmoved : r.2.off ≠ off := by
    intro hsame
    have hentry : entries[off]? = some entries[off] := List.getElem?_eq_getElem hoff
    have hstop := h.stop entries[off] (by rw [hsame]; exact hentry)
    have hfit := hroom _ hentry
    -- nothing is packed then
    have hpacked := h.packed
    simp only [hsame, Nat.sub_self, List.take_zero, Nat.sub_zero] at hpacked
    have hlen := congrArg List.length (show Mem.slice r.2.kbuf 0 r.2.used = [] from hpacked)
    rw [Mem.slice_length, List.length_nil] at hlen
    omega
  refine ⟨by omega, ?_⟩
  by_contra hzero
  have hpacked := h.packed
  have hcount : r.2.off - off = (r.2.off - off - 1) + 1 := by omega
  rw [hcount, List.drop_eq_getElem_cons hoff, List.take_succ_cons] at hpacked
  obtain ⟨pad, rest, hsplit, hlen, -⟩ := hpacked
  have hbytes := congrArg List.length hsplit
  have hge := uxDirentLen_ge entries[off].name
  rw [Mem.slice_length, List.length_append, hlen] at hbytes
  omega

end

/-! ## Several calls -/

/-- Each reply keeps to its buffer. -/
def Inside (x : Reply × ((ℕ → UInt8) × ℕ)) : Prop :=
  0 ≤ x.1.ret ∧ x.1.ret ≤ x.2.2 ∧ ∀ j, x.2.2 ≤ j → x.1.kbuf j = x.2.1 j

/-- The replies pack the entries from the first offset to the last. -/
lemma calls_spec (h : Lists readdir entries)
    (bufs : List ((ℕ → UInt8) × ℕ)) (hoff : off ≤ entries.length) :
    (∀ x ∈ (calls readdir off bufs).1.zip bufs, Inside x) ∧
      off ≤ (calls readdir off bufs).2 ∧ (calls readdir off bufs).2 ≤ entries.length ∧
      Packed ((calls readdir off bufs).1.flatMap Reply.bytes)
        ((entries.drop off).take ((calls readdir off bufs).2 - off)) ∧
      (LargeEnough readdir entries off bufs →
        min (off + bufs.length) entries.length ≤ (calls readdir off bufs).2) := by
  induction bufs generalizing off with
  | nil =>
    refine ⟨fun x hx => absurd hx List.not_mem_nil, le_rfl, hoff, ?_, fun _ => ?_⟩
    · simp only [calls, Nat.sub_self, List.take_zero]
      rfl
    · simp only [calls, List.length_nil]
      omega
  | cons b bufs ih =>
    obtain ⟨kbuf, buflen⟩ := b
    have hfills := fGetdents_fills h hoff kbuf buflen
    have henough : LargeEnough readdir entries off ((kbuf, buflen) :: bufs) ↔
        (∀ e ∈ entries[off]?, uxDirentLen e.name ≤ buflen) ∧
          LargeEnough readdir entries (fGetdents .dir readdir off kbuf buflen).2.off bufs := Iff.rfl
    rw [henough]
    have hcalls : calls readdir off ((kbuf, buflen) :: bufs)
        = (⟨(fGetdents .dir readdir off kbuf buflen).1,
              (fGetdents .dir readdir off kbuf buflen).2.kbuf⟩
            :: (calls readdir (fGetdents .dir readdir off kbuf buflen).2.off bufs).1,
          (calls readdir (fGetdents .dir readdir off kbuf buflen).2.off bufs).2) := rfl
    rw [hcalls]
    generalize fGetdents .dir readdir off kbuf buflen = r at hfills
    obtain ⟨hinside, hmono, hend, hpacked, hprogress⟩ := ih hfills.off.2
    have hle : off ≤ r.2.off := hfills.off.1
    refine ⟨fun x hx => ?_, by omega, hend, ?_, fun ⟨hroom, hmore⟩ => ?_⟩
    · rw [List.zip_cons_cons, List.mem_cons] at hx
      rcases hx with rfl | hx
      · have hused := hfills.used.2
        rw [hfills.ret]
        exact ⟨Int.natCast_nonneg _, Int.ofNat_le.mpr hused, fun j hj => hfills.frame j (.inr hj)⟩
      · exact hinside x hx
    · -- the entries of this call, and those of the later ones
      have hsum : (calls readdir r.2.off bufs).2 - off
          = (r.2.off - off) + ((calls readdir r.2.off bufs).2 - r.2.off) := by omega
      have hsplit : (entries.drop off).take ((calls readdir r.2.off bufs).2 - off)
          = (entries.drop off).take (r.2.off - off)
            ++ (entries.drop r.2.off).take ((calls readdir r.2.off bufs).2 - r.2.off) := by
        rw [hsum, List.take_add, List.drop_drop, Nat.add_sub_cancel' hle]
      rw [List.flatMap_cons, hsplit]
      exact hfills.bytes.append hpacked
    · have hlast := hprogress hmore
      rw [List.length_cons]
      by_cases hlt : off < entries.length
      · have hnext := (hfills.progress hroom hlt).1
        omega
      · omega

/-- The replies of calls with buffers that are large enough keep to their buffers and decode to
the entries of the directory in order, one at least for each call, up to the offset that the calls
reach; the next reply is empty exactly when that is the end of the directory. -/
theorem getdents_listing {readdir : Readdir} {entries : List Dirent} (h : Lists readdir entries)
    {bufs : List ((ℕ → UInt8) × ℕ)} (henough : LargeEnough readdir entries 0 bufs) :
    (∀ x ∈ (calls readdir 0 bufs).1.zip bufs, Inside x) ∧
      decode ((calls readdir 0 bufs).1.flatMap Reply.bytes)
        = some (entries.take (calls readdir 0 bufs).2) ∧
      min bufs.length entries.length ≤ (calls readdir 0 bufs).2 ∧
      (calls readdir 0 bufs).2 ≤ entries.length ∧
      ∀ kbuf buflen, LargeEnough readdir entries (calls readdir 0 bufs).2 [(kbuf, buflen)] →
        ((fGetdents .dir readdir (calls readdir 0 bufs).2 kbuf buflen).1 = 0
          ↔ (calls readdir 0 bufs).2 = entries.length) := by
  obtain ⟨hinside, -, hend, hpacked, hprogress⟩ := calls_spec h bufs (Nat.zero_le _)
  have hlast := hprogress henough
  rw [Nat.zero_add] at hlast
  rw [List.drop_zero, Nat.sub_zero] at hpacked
  refine ⟨hinside, ?_, hlast, hend, fun kbuf buflen hroom => ?_⟩
  · apply decodeLoop_packed _ _ hpacked le_rfl
    intro e he
    exact h.name e (List.mem_of_mem_take he)
  · have hfills := fGetdents_fills h hend kbuf buflen
    rw [hfills.ret]
    constructor
    · intro hzero
      by_contra hne
      have hpos := (hfills.progress hroom.1 (by omega)).2
      omega
    · intro hdone
      -- no entry is left, so nothing is packed
      have hpacked := hfills.packed
      have hnone : entries.drop (calls readdir 0 bufs).2 = [] := by
        rw [hdone]
        exact List.drop_length
      simp only [hnone, List.take_nil, Nat.sub_zero] at hpacked
      have hlen := congrArg List.length hpacked
      rw [Mem.slice_length, List.length_nil] at hlen
      rw [hlen]
      rfl

/-! ## ramfs -/

/-- A ramfs directory enumerates its children, first child first. -/
lemma ramfs_lists {s : Ramfs.Fs} {dir : Ramfs.ShellId}
    (hfits : (s.node (s.shell dir).priv).children.length < 2 ^ 32)
    (hname : ∀ c ∈ (s.node (s.shell dir).priv).children,
      (s.node c).name.length < VFS_NAME_MAX ∧ 0 ∉ (s.node c).name) :
    Lists (ramfsDir s dir) ((s.node (s.shell dir).priv).children.map fun c =>
      ⟨(s.node c).name, dtypeOf (s.node c).type⟩) := by
  constructor
  · intro i e he
    rw [List.getElem?_map, Option.map_eq_some_iff] at he
    obtain ⟨c, hc, rfl⟩ := he
    simp only [ramfsDir, Ramfs.ramfsReaddir, hc, Option.map_some]
  · intro i hi _
    rw [List.length_map] at hi
    simp only [ramfsDir, Ramfs.ramfsReaddir, List.getElem?_eq_none hi, Option.map_none]
  · rw [List.length_map]
    exact hfits
  · intro e he
    obtain ⟨c, hc, rfl⟩ := List.mem_map.mp he
    exact hname c hc

/-- A mounted ramfs with the file `a` and the directory `bb` in its root. -/
def twoEntries : Ramfs.Fs :=
  (Ramfs.ramfsCreate (Ramfs.ramfsCreate Ramfs.ramfsMount 0 [97] .file true true).1 0 [98, 98] .dir
    true true).1

/-- Three calls with room for a record each list the two entries. -/
theorem getdents_listing_two : decode ((calls (ramfsDir twoEntries 0) 0
      [(fun _ => 7, 8), (fun _ => 7, 9), (fun _ => 7, 8)]).1.flatMap Reply.bytes)
    = some [⟨[98, 98], DT_DIR⟩, ⟨[97], DT_REG⟩] := by
  have hlists : Lists (ramfsDir twoEntries 0) [⟨[98, 98], DT_DIR⟩, ⟨[97], DT_REG⟩] :=
    @ramfs_lists twoEntries 0 (by decide) (by decide)
  have henough : LargeEnough (ramfsDir twoEntries 0) [⟨[98, 98], DT_DIR⟩, ⟨[97], DT_REG⟩] 0
      [(fun _ => 7, 8), (fun _ => 7, 9), (fun _ => 7, 8)] := by
    refine ⟨fun e he => ?_, fun e he => ?_, fun e he => ?_, trivial⟩
    · obtain rfl : _ = e := Option.some.inj he
      decide
    · obtain rfl : _ = e := Option.some.inj he
      decide
    · have hnone : (none : Option Dirent) = some e := he
      exact absurd hnone (by simp)
  obtain ⟨-, hdecode, hmin, hend, -⟩ := getdents_listing hlists henough
  have hall : (calls (ramfsDir twoEntries 0) 0
      [(fun _ => 7, 8), (fun _ => 7, 9), (fun _ => 7, 8)]).2 = 2 := by
    simp only [List.length_cons, List.length_nil] at hmin hend
    omega
  rw [hdecode, hall]
  rfl

end MobilePhoneOs.Getdents
