import MobilePhoneOs.Fs.Fat32ChainTheorems
import MobilePhoneOs.Lib.Run

/-!
# FAT32 file data

Reads, hole filling and writes are each shown against the bytes that the chain of the file
stands for, and `file_law` puts them together for every run.
-/

namespace MobilePhoneOs.Fs
namespace Fat32

open Mem Prog Chain
open List (length_nil mem_singleton replicate)
open Nat (mod_lt)

variable {fs : FatFs} {d d' : Dev} {first : ℕ} {C : List ℕ} {ref : ℕ → UInt8}

/-! ## Reads -/

/-- The length of the piece that a loop over the file takes at `p` when it is to stop at `b`. -/
def pieceAt (fs : FatFs) (p b : ℕ) : ℕ := min (clusBytes fs - p % clusBytes fs) (b - p)

/-- Every piece of `[a, b)` stays in the sector it starts in. -/
def InSector (fs : FatFs) (a b : ℕ) : Prop :=
  ∀ p, a ≤ p → p < b → p = a ∨ p % clusBytes fs = 0 → p % 512 + pieceAt fs p b ≤ 512

/-- The same for the pieces of a hole, of which at most a sector is filled. -/
def HoleInSector (fs : FatFs) (a b : ℕ) : Prop :=
  ∀ p, a ≤ p → p < b → p = a ∨ p % clusBytes fs = 0 → p % 512 + min (pieceAt fs p b) 512 ≤ 512

lemma clusBytes_pos (hg : Geom fs) : 0 < clusBytes fs := Nat.mul_pos hg.spc_pos (by decide)

variable {p : ℕ}

lemma pieceAt_pos (hg : Geom fs) {b : ℕ} (h : p < b) : 0 < pieceAt fs p b := by
  have hlt := mod_lt p (clusBytes_pos hg)
  unfold pieceAt
  omega

/-- After a piece the loop is at its end or at the start of a cluster. -/
lemma pieceAt_next (hg : Geom fs) {b : ℕ} (h : p < b) :
    p + pieceAt fs p b = b ∨ (p + pieceAt fs p b) % clusBytes fs = 0 := by
  have hlt := mod_lt p (clusBytes_pos hg)
  unfold pieceAt
  rcases Nat.le_total (clusBytes fs - p % clusBytes fs) (b - p) with hle | hle
  · refine .inr ?_
    rw [Nat.min_eq_left hle]
    have hsum : p + (clusBytes fs - p % clusBytes fs)
        = clusBytes fs * (p / clusBytes fs) + clusBytes fs := by
      have hdm := Nat.div_add_mod p (clusBytes fs)
      omega
    rw [hsum, Nat.mul_add_mod, Nat.mod_self]
  · refine .inl ?_
    rw [Nat.min_eq_right hle]
    omega

/-- The offset in the sector does not depend on the cluster size. -/
lemma coff_mod (fs : FatFs) (p : ℕ) : p % clusBytes fs % 512 = p % 512 :=
  Nat.mod_mod_of_dvd _ (Nat.dvd_mul_left _ _)

/-- Every copy so far stayed within the staging buffer. -/
def CopiesOk (h : Handle) : Prop := ∀ x ∈ h.copies, x.1 + x.2 ≤ 512

/-- What a call that only reads leaves alone. -/
structure Reads (h h' : Handle) : Prop where
  inode : h'.inode = h.inode
  dev : Quiet h.dev h'.dev
  copies : CopiesOk h → CopiesOk h'

variable {h h' : Handle}

lemma Reads.rfl : Reads h h := ⟨Eq.refl _, Quiet.rfl, id⟩

variable {h'' : Handle}

lemma Reads.trans (h₁ : Reads h h') (h₂ : Reads h' h'') : Reads h h'' :=
  ⟨h₂.inode.trans h₁.inode, h₁.dev.trans h₂.dev, h₂.copies ∘ h₁.copies⟩

lemma Reads.of_quiet (hq : Quiet h.dev d) : Reads h { h with dev := d } :=
  ⟨Eq.refl _, hq, id⟩

variable {n : ℕ}

lemma Reads.note (hpn : p + n ≤ 512) : Reads h { h with copies := (p, n) :: h.copies } :=
  ⟨Eq.refl _, Quiet.rfl, fun hc x hx => by
    rcases List.mem_cons.mp hx with rfl | hx
    · exact hpn
    · exact hc x hx⟩

lemma onDev_bind {α β : Type} {x : Prog Stop Dev α} {g : α → Prog Stop Handle β}
    {R : β → Handle → Prop} {E : Stop → Handle → Prop}
    (hx : wp x (fun a d => wp (g a) R E { h with dev := d }) (fun e d => E e { h with dev := d })
      h.dev) : wp (onDev x >>= g) R E h :=
  wp_bind.mpr (wp_zoom.mpr hx)

/-- A volume has fewer than `2 ^ 32` clusters. -/
lemma Owns.length_lt (hg : Geom fs) (ho : Owns fs d first C) : C.length < 2 ^ 32 := by
  have hle := ho.length_le
  have h2 := hg.eoc
  have h3 : FAT_EOC < 2 ^ 32 := by decide
  omega

/-- The cursor and the sector of a position of the file. -/
structure SeekDone (fs : FatFs) (C : List ℕ) (ref : ℕ → UInt8) (pos : ℕ)
    (x : Cursor × (ℕ → UInt8)) : Prop where
  cur : At C x.1
  idx : x.1.idx = pos / clusBytes fs
  sec : ∀ i < 512, x.2 i = ref (pos / 512 * 512 + i)

variable {pos : ℕ}

lemma SeekDone.sectOf {x : Cursor × (ℕ → UInt8)} (hx : SeekDone fs C ref pos x) :
    clusRelLba fs x.1.clus + pos % clusBytes fs / 512 = sectOf fs C (pos / 512) :=
  sectOf_pos (hx.idx ▸ hx.cur)

lemma seekRead_spec (hg : Geom fs) {cur : Cursor}
    (hf : FileOk fs h.dev first C ref) (hcur : At C cur) (hle : cur.idx ≤ pos / clusBytes fs)
    (hpos : pos < C.length * clusBytes fs) :
    wp (seekRead fs cur pos) (fun x h' => SeekDone fs C ref pos x ∧ Reads h h')
      (fun _ h' => Reads h h' ∧ ¬ Calm h.dev) h := by
  have hidx : pos / clusBytes fs < C.length := (Nat.div_lt_iff_lt_mul (clusBytes_pos hg)).mpr hpos
  have hmod : pos / clusBytes fs % 2 ^ 32 = pos / clusBytes fs :=
    Nat.mod_eq_of_lt (hidx.trans (hf.toOwns.length_lt hg))
  unfold seekRead
  rw [hmod]
  refine onDev_bind ((chainSeek_spec hg hf.toOwns hcur hle).mono (fun cur' d₁ h₁ => ?_)
    fun _ _ he => ⟨Reads.of_quiet he.1, he.2 hidx⟩)
  obtain ⟨hcur', hidx', hq⟩ := h₁
  have hk : pos / 512 < C.length * fs.secPerClus := div_lt_sectors.mp hpos
  unfold At at hcur'
  rw [hidx'] at hcur'
  rw [sectOf_pos hcur']
  refine onDev_bind ((secRead_spec _ d₁).mono (fun sec d₂ h₂ => ?_) fun _ _ he => ?_)
  · obtain ⟨_, hq', hsec⟩ := h₂
    refine ⟨⟨by rw [← hidx'] at hcur'; exact hcur', hidx', fun i hi => ?_⟩,
      Reads.of_quiet (hq.trans hq')⟩
    show sec i = _
    rw [hsec i hi, hq.data]
    exact hf.sector hk hi
  · refine ⟨Reads.of_quiet (hq.trans he.1), fun hc => he.2 ?_ (hq.calm hc)⟩
    rw [hq.nsect]
    exact hf.toOwns.sectOf_lt hg hk

/-- What a read answers: bytes of the file from `off` on, all of them when no transfer fails. -/
structure ReadDone (ref : ℕ → UInt8) (off len : ℕ) (h : Handle) (bytes : List UInt8)
    (h' : Handle) : Prop where
  part : ∃ n ≤ len, bytes = slice ref off n
  full : Calm h.dev → bytes = slice ref off len
  reads : Reads h h'

variable {len off : ℕ}

lemma ReadDone.of_reads {bytes : List UInt8} (hr : Reads h h')
    (hd : ReadDone ref off len h' bytes h'') : ReadDone ref off len h bytes h'' :=
  ⟨hd.part, hd.full ∘ hr.dev.calm, hr.trans hd.reads⟩

/-- A loop that has copied everything. -/
lemma ReadDone.of_full {acc : List UInt8} (hacc : acc = slice ref off acc.length)
    (heq : acc.length = len) : ReadDone ref off len h acc h :=
  ⟨⟨acc.length, by omega, hacc⟩, fun _ => by rw [← heq]; exact hacc, Reads.rfl⟩

variable {sec : ℕ → UInt8}

lemma slice_sector (hsec : ∀ i < 512, sec i = ref (pos / 512 * 512 + i))
    (hn : pos % 512 + n ≤ 512) : slice sec (pos % 512) n = slice ref pos n :=
  List.map_congr_left fun i hi => by
    have hi' := List.mem_range.mp hi
    rw [hsec _ (by omega)]
    congr 1
    omega

/-- Sector by sector; the cursor is never beyond the offset. -/
lemma readLoop_spec (hg : Geom fs) {fuel : ℕ} {cur : Cursor} {acc : List UInt8}
    (hf : FileOk fs h.dev first C ref) (hin : InSector fs off (off + len))
    (hlen : off + len ≤ C.length * clusBytes fs) (hacc : acc = slice ref off acc.length)
    (hle : acc.length ≤ len) (hfuel : len ≤ acc.length + fuel)
    (hstart : acc.length = len ∨ acc = [] ∨ (off + acc.length) % clusBytes fs = 0)
    (hcur : acc.length < len → At C cur ∧ cur.idx ≤ (off + acc.length) / clusBytes fs) :
    wp (readLoop fs off len fuel cur acc) (fun bytes h' => ReadDone ref off len h bytes h')
      (fun _ h' => Reads h h' ∧ ¬ Calm h.dev) h := by
  induction fuel generalizing cur acc h with
  | zero => exact .of_full hacc (by omega)
  | succ fuel ih =>
    unfold readLoop
    by_cases hlt : acc.length < len
    case neg =>
      rw [if_neg hlt]
      exact .of_full hacc (by omega)
    obtain ⟨hat, hidx⟩ := hcur hlt
    have hclus := hat.clus_ge hf.toOwns
    have hpos : off + acc.length < off + len := by omega
    rw [if_pos hlt]
    simp only [coff_mod]
    rw [if_neg (by omega)]
    refine wp_tryBind.mpr ((seekRead_spec hg hf hat hidx (by omega)).mono
      (fun x h₁ hx => ?_) fun e h₁ he => ?_)
    · obtain ⟨hx, hr₁⟩ := hx
      -- the piece that is copied lies in its sector
      have hpiece : min (clusBytes fs - (off + acc.length) % clusBytes fs) (len - acc.length)
          = pieceAt fs (off + acc.length) (off + len) := by
        congr 1
        omega
      have hfit := hin (off + acc.length) (by omega) hpos (by
        rcases hstart with h1 | h1 | h1
        · omega
        · exact .inl (by rw [h1]; rfl)
        · exact .inr h1)
      have hchunk_pos := pieceAt_pos hg hpos
      have hnext := pieceAt_next hg hpos
      rw [hpiece, slice_sector hx.sec hfit]
      generalize pieceAt fs (off + acc.length) (off + len) = n at *
      have hlen' : (acc ++ slice ref (off + acc.length) n).length = acc.length + n := by
        rw [List.length_append, slice_length]
      have hr₂ := hr₁.trans (Reads.note (h := h₁) hfit)
      refine wp_bind.mpr (wp_modify.mpr ?_)
      have hacc' : acc ++ slice ref (off + acc.length) n
          = slice ref off (acc ++ slice ref (off + acc.length) n).length := by
        rw [hlen', slice_add, ← hacc]
      refine (ih (hf.quiet hr₂.dev) hacc' (by omega) (by omega) ?_ fun _ => ⟨hx.cur, ?_⟩).mono
        (fun bytes h₂ hd => hd.of_reads hr₂) fun _ h₂ he =>
          ⟨hr₂.trans he.1, fun hc => he.2 (hr₂.dev.calm hc)⟩
      · rw [hlen', ← Nat.add_assoc]
        rcases hnext with h1 | h1
        · exact .inl (by omega)
        · exact .inr (.inr h1)
      · rw [hx.idx]
        exact Nat.div_le_div_right (by omega)
    · unfold orDone
      split_ifs
      · exact he
      · exact ⟨⟨acc.length, hle, hacc⟩, fun hc => absurd hc he.2, he.1⟩

/-- The entry of the file in its directory lies in a cluster of another chain. -/
def DirentOk (fs : FatFs) (d : Dev) (inode : FatInode) (C : List ℕ) : Prop :=
  inode.hasDirent = true → ∃ c r, InRange fs c ∧ c ∉ C ∧ entry fs d c ≠ 0 ∧
    r < fs.secPerClus ∧ inode.deLba = clusRelLba fs c + r

/-- An open file with the bytes `ref`, zero from its size on. -/
structure HandleOk (fs : FatFs) (h : Handle) (C : List ℕ) (ref : ℕ → UInt8) : Prop where
  file : FileOk fs h.dev h.inode.firstClus C ref
  size_le : h.inode.size ≤ C.length * clusBytes fs
  zero : ∀ i, h.inode.size ≤ i → ref i = 0
  copies : CopiesOk h
  dirent : DirentOk fs h.dev h.inode C
  notDir : h.inode.isDir = false

lemma HandleOk.reads (ho : HandleOk fs h C ref) (hr : Reads h h') : HandleOk fs h' C ref := by
  refine ⟨?_, ?_, ?_, hr.copies ho.copies, ?_, ?_⟩ <;> rw [hr.inode]
  · exact ho.file.quiet hr.dev
  · exact ho.size_le
  · exact ho.zero
  · intro hd
    obtain ⟨c, r, h1, h2, h3, h4⟩ := ho.dirent hd
    exact ⟨c, r, h1, h2, by rwa [hr.dev.entry], h4⟩
  · exact ho.notDir

lemma HandleOk.cursor (ho : HandleOk fs h C ref) (hpos : pos < C.length * clusBytes fs) :
    At C ⟨h.inode.firstClus, 0⟩ ∧ 0 ≤ pos / clusBytes fs := by
  refine ⟨ho.file.getElem_zero ?_, Nat.zero_le _⟩
  rintro rfl
  rw [length_nil, Nat.zero_mul] at hpos
  exact Nat.not_lt_zero _ hpos

lemma fatRead_spec (hg : Geom fs) (ho : HandleOk fs h C ref)
    (hin : InSector fs off (off + min len (h.inode.size - off))) :
    wp (fatRead fs off len)
      (fun bytes h' => ReadDone ref off (min len (h.inode.size - off)) h bytes h')
      (fun _ h' => Reads h h' ∧ ¬ Calm h.dev) h := by
  refine wp_bind.mpr (wp_gets.mpr ?_)
  rw [id, ho.notDir, if_neg Bool.false_ne_true]
  have hsize := ho.size_le
  by_cases hempty : off ≥ h.inode.size ∨ len = 0
  · rw [if_pos hempty]
    exact .of_full rfl (by rw [length_nil]; omega)
  · rw [if_neg hempty]
    exact readLoop_spec hg ho.file hin (by omega) rfl (Nat.zero_le _) (by simp) (.inr (.inl rfl))
      fun hlt => ho.cursor (by rw [length_nil] at *; omega)

/-! ## Writes -/

/-- Writing a sector back as it was. -/
lemma Wrote.quiet {s : ℕ} (hw : Wrote [s] sec d d')
    (hsec : ∀ i < 512, sec i = d.data (s * 512 + i)) : Quiet d d' := by
  refine ⟨funext fun a => ?_, hw.nsect, hw.calm⟩
  rw [hw.data]
  split_ifs with ha
  · have hs := mem_singleton.mp ha
    rw [hsec _ (mod_lt _ (by decide))]
    congr 1
    omega
  · rfl

lemma copy_zero {b : ℕ → UInt8} {i : ℕ} (hb : p ≤ i → b i = 0) :
    copy b p n (fun _ => 0) i = b i := by
  unfold copy
  split_ifs with hi
  · exact (hb hi.1).symm
  · rfl

/-- Filling a hole changes nothing in a sector that is zero from there on. -/
lemma holeSector_eq {coff chunk : ℕ}
    (hz : ∀ i < 512, coff % 512 ≤ i → sec i = 0) {i : ℕ} (hi : i < 512) :
    holeSector coff chunk sec i = sec i := by
  have hfirst : copy sec (coff % 512) (min chunk 512) (fun _ => 0) i = sec i := copy_zero (hz i hi)
  unfold holeSector
  split_ifs
  · rw [copy_zero, hfirst]
    intro hle
    rw [hfirst]
    exact hz i hi (by omega)
  · exact hfirst

/-- Filling a hole copies within the buffer and changes no byte of the device. -/
lemma holeLoop_spec (hg : Geom fs) {fuel : ℕ}
    (hf : FileOk fs h.dev h.inode.firstClus C ref) (hz : ∀ i, pos ≤ i → ref i = 0)
    (hin : ∀ p, pos ≤ p → p < off → p = pos ∨ p % clusBytes fs = 0 →
      p % 512 + min (pieceAt fs p off) 512 ≤ 512)
    (hoff : off ≤ C.length * clusBytes fs) :
    wp (holeLoop fs off fuel pos) (fun _ h' => Reads h h') (fun _ _ => True) h := by
  induction fuel generalizing pos h with
  | zero => exact Reads.rfl
  | succ fuel ih =>
    unfold holeLoop
    by_cases hlt : pos < off
    case neg =>
      rw [if_neg hlt]
      exact Reads.rfl
    rw [if_pos hlt]
    have hpos : pos < C.length * clusBytes fs := by omega
    have hne : C ≠ [] := by
      rintro rfl
      rw [length_nil, Nat.zero_mul] at hpos
      exact Nat.not_lt_zero _ hpos
    refine wp_bind.mpr (wp_gets.mpr ?_)
    have hat : At C ⟨h.inode.firstClus, 0⟩ := hf.getElem_zero hne
    refine (seekRead_spec hg hf hat (Nat.zero_le _) hpos).bind (fun x h₁ hx => ?_)
      fun _ _ _ => trivial
    obtain ⟨hx, hr₁⟩ := hx
    have hfit := hin pos (Nat.le_refl _) hlt (.inl rfl)
    have hnext := pieceAt_next hg hlt
    have hcoff := coff_mod fs pos
    have hdef : min (clusBytes fs - pos % clusBytes fs) (off - pos) = pieceAt fs pos off := rfl
    rw [hdef]
    generalize pieceAt fs pos off = n at *
    refine wp_bind.mpr (wp_modify.mpr ?_)
    have hr₂ := hr₁.trans (Reads.note (h := h₁) (p := pos % clusBytes fs % 512) (n := min n 512)
      (by omega))
    generalize ({ h₁ with copies := (pos % clusBytes fs % 512, min n 512) :: h₁.copies } : Handle)
      = h₂ at *
    -- the fill of the rest of the sector stays in the buffer as well
    have hnote : wp (if n < 512 ∧ pos % clusBytes fs + n < 512 then
        noteCopy (pos % clusBytes fs % 512 + n) (512 - pos % clusBytes fs % 512 - n) else pure ())
        (fun _ h₃ => Reads h₂ h₃) (fun _ _ => True) h₂ := by
      split_ifs with hc
      · exact Reads.note (by omega)
      · exact Reads.rfl
    refine hnote.bind (fun _ h₃ hr₃ => ?_) fun _ _ _ => trivial
    have hr := hr₂.trans hr₃
    have hsect := hx.sectOf
    rw [hsect]
    refine onDev_bind ((secWrite_spec _ _ h₃.dev).mono (fun _ d₄ hw => ?_) fun _ _ _ => trivial)
    have hk : pos / 512 < C.length * fs.secPerClus := div_lt_sectors.mp hpos
    have hq : Quiet h₃.dev d₄ := hw.2.quiet fun i hi => by
      rw [holeSector_eq (fun j hj hle => ?_) hi, hx.sec i hi, hr.dev.data, hf.sector hk hi]
      rw [hx.sec j hj]
      exact hz _ (by omega)
    have hr₄ := hr.trans (Reads.of_quiet hq)
    generalize ({ h₃ with dev := d₄ } : Handle) = h₄ at *
    have hf₄ : FileOk fs h₄.dev h₄.inode.firstClus C ref := by
      rw [hr₄.inode]
      exact hf.quiet hr₄.dev
    have hz₄ : ∀ i, pos + n ≤ i → ref i = 0 := fun i hi => hz i (by omega)
    refine (ih hf₄ hz₄ fun p hp hpo hstart => hin p (by omega) hpo ?_).mono
      (fun _ h₅ hr₅ => hr₄.trans hr₅) fun _ _ _ => trivial
    rcases hstart with rfl | hs
    · rcases hnext with h1 | h1
      · omega
      · exact .inr h1
    · exact .inr hs

/-- Replacing a piece of one sector is replacing it in the file. -/
lemma store_sector {ys : List UInt8}
    (hsec : ∀ i < 512, sec i = ref (pos / 512 * 512 + i)) (hfit : pos % 512 + ys.length ≤ 512) :
    (fun i => if i / 512 = pos / 512 then store sec (pos % 512) ys (i % 512) else ref i)
      = store ref pos ys := by
  funext i
  by_cases hi : i / 512 = pos / 512
  · rw [if_pos hi]
    rcases Nat.lt_or_ge i pos with hlt | hge
    · rw [store_of_lt (by omega), store_of_lt hlt, hsec _ (mod_lt _ (by decide))]
      congr 1
      omega
    · rcases Nat.lt_or_ge (i - pos) ys.length with hlt | hge'
      · have h1 : i % 512 = pos % 512 + (i - pos) := by omega
        have h2 : i = pos + (i - pos) := by omega
        rw [h1, store_add hlt]
        exact ((congrArg _ h2).trans (store_add hlt)).symm
      · rw [store_of_ge (by omega), store_of_ge (by omega), hsec _ (mod_lt _ (by decide))]
        congr 1
        omega
  · rw [if_neg hi]
    rcases Nat.lt_or_ge i pos with hlt | hge
    · exact (store_of_lt hlt).symm
    · refine (store_of_ge (Nat.le_of_not_lt fun hlt => hi ?_)).symm
      omega

/-- What a loop that writes to a file leaves alone. -/
structure Writes (fs : FatFs) (h h' : Handle) : Prop where
  inode : h'.inode = h.inode
  calm : Calm h.dev → Calm h'.dev
  copies : CopiesOk h → CopiesOk h'
  entry : ∀ n < fs.totalClusters + 2, entry fs h'.dev n = entry fs h.dev n

lemma Writes.trans (h₁ : Writes fs h h') (h₂ : Writes fs h' h'') :
    Writes fs h h'' :=
  ⟨h₂.inode.trans h₁.inode, h₂.calm ∘ h₁.calm, h₂.copies ∘ h₁.copies,
    fun n hn => (h₂.entry n hn).trans (h₁.entry n hn)⟩

lemma Reads.writes (hr : Reads h h') : Writes fs h h' :=
  ⟨hr.inode, hr.dev.calm, hr.copies, fun n _ => hr.dev.entry n⟩

/-- The end of the loop of a write: `buf` is in the file, or the loop has returned early
because a transfer failed. -/
structure WriteDone (fs : FatFs) (C : List ℕ) (ref : ℕ → UInt8) (off : ℕ) (buf : List UInt8)
    (h : Handle) (r : Option ℕ) (h' : Handle) : Prop where
  file : r = none → FileOk fs h'.dev h'.inode.firstClus C (store ref off buf)
  writes : r = none → Writes fs h h'
  early : r ≠ none → ¬ Calm h.dev

variable {buf : List UInt8}

lemma WriteDone.of_full {done : ℕ} (hdone : done = buf.length)
    (hf : FileOk fs h.dev h.inode.firstClus C (store ref off (buf.take done))) :
    WriteDone fs C ref off buf h none h := by
  rw [hdone, List.take_length] at hf
  exact ⟨fun _ => hf, fun _ => Reads.rfl.writes, fun hc => absurd rfl hc⟩

lemma WriteDone.of_writes {r : Option ℕ}
    (hw : Writes fs h h') (hd : WriteDone fs C ref off buf h' r h'') :
    WriteDone fs C ref off buf h r h'' :=
  ⟨hd.file, fun hr => hw.trans (hd.writes hr), fun hr hc => hd.early hr (hw.calm hc)⟩

/-- `return done ? done : r` after a failed transfer. -/
lemma orDone_spec {done : ℕ} {e : Stop} (hc : ¬ Calm h.dev) :
    wp (orDone done (some done) e) (fun r h' => WriteDone fs C ref off buf h r h')
      (fun _ _ => True) h' := by
  unfold orDone
  split_ifs
  · exact trivial
  · exact ⟨fun hn => absurd hn (by simp), fun hn => absurd hn (by simp), fun _ => hc⟩

section

variable (hg : Geom fs)
include hg

lemma FileOk.piece {x : Cursor × (ℕ → UInt8)} {ys : List UInt8}
    (hf : FileOk fs d first C ref) (hx : SeekDone fs C ref pos x)
    (hpos : pos < C.length * clusBytes fs) (hfit : pos % 512 + ys.length ≤ 512)
    (hw : Wrote [Fat32.sectOf fs C (pos / 512)] (store x.2 (pos % 512) ys) d d') :
    FileOk fs d' first C (store ref pos ys) := by
  rw [← store_sector hx.sec hfit]
  exact hf.patch hg (div_lt_sectors.mp hpos) hw

/-- What has been written is stored, and the cursor is not beyond it. -/
lemma writeLoop_spec {done fuel : ℕ} {cur : Cursor}
    (hf : FileOk fs h.dev h.inode.firstClus C (store ref off (buf.take done)))
    (hin : InSector fs off (off + buf.length)) (hlen : off + buf.length ≤ C.length * clusBytes fs)
    (hle : done ≤ buf.length) (hfuel : buf.length ≤ done + fuel)
    (hstart : done = buf.length ∨ done = 0 ∨ (off + done) % clusBytes fs = 0)
    (hcur : done < buf.length → At C cur ∧ cur.idx ≤ (off + done) / clusBytes fs) :
    wp (writeLoop fs off buf fuel cur done) (fun r h' => WriteDone fs C ref off buf h r h')
      (fun _ _ => True) h := by
  induction fuel generalizing cur done h with
  | zero => exact .of_full (by omega) hf
  | succ fuel ih =>
    unfold writeLoop
    by_cases hlt : done < buf.length
    case neg =>
      rw [if_neg hlt]
      exact .of_full (by omega) hf
    obtain ⟨hat, hidx⟩ := hcur hlt
    have hclus := hat.clus_ge hf.toOwns
    have hpos : off + done < off + buf.length := by omega
    have hposC : off + done < C.length * clusBytes fs := by omega
    rw [if_pos hlt]
    simp only [coff_mod]
    rw [if_neg (by omega)]
    refine wp_tryBind.mpr ((seekRead_spec hg hf hat hidx hposC).mono (fun x h₁ hx => ?_)
      fun e h₁ he => orDone_spec he.2)
    obtain ⟨hx, hr₁⟩ := hx
    have hpiece : min (clusBytes fs - (off + done) % clusBytes fs) (buf.length - done)
        = pieceAt fs (off + done) (off + buf.length) := by
      congr 1
      omega
    have hfit := hin (off + done) (by omega) hpos (by
      rcases hstart with h1 | rfl | h1
      · omega
      · exact .inl rfl
      · exact .inr h1)
    have hchunk_pos := pieceAt_pos hg hpos
    have hnext := pieceAt_next hg hpos
    have hsect := hx.sectOf
    rw [hpiece, hsect]
    generalize pieceAt fs (off + done) (off + buf.length) = n at *
    have hys : ((buf.drop done).take n).length = n := by
      rw [List.length_take, List.length_drop]
      omega
    have hr₂ := hr₁.trans (Reads.note (h := h₁) hfit)
    refine wp_bind.mpr (wp_modify.mpr ?_)
    generalize ({ h₁ with copies := ((off + done) % 512, n) :: h₁.copies } : Handle) = h₂ at *
    have hf₂ : FileOk fs h₂.dev h₂.inode.firstClus C (store ref off (buf.take done)) := by
      rw [hr₂.inode]
      exact hf.quiet hr₂.dev
    have hk := div_lt_sectors.mp hposC
    refine wp_tryBind.mpr (wp_zoom.mpr ((secWrite_spec _ _ h₂.dev).mono (fun _ d₃ hw => ?_)
      fun e d₃ he => orDone_spec fun hc => he (hf₂.toOwns.sectOf_lt hg hk) (hr₂.dev.calm hc)))
    obtain ⟨_, hw⟩ := hw
    have hL : ∀ s ∈ [sectOf fs C ((off + done) / 512)], fs.dataStart ≤ s := fun s hs => by
      rw [mem_singleton.mp hs]
      exact dataStart_le_sectOf _
    have hw₃ : Writes fs h { h₂ with dev := d₃ } :=
      hr₂.writes.trans ⟨rfl, hw.calm, id, fun m hm => hw.entry_of_data hg hL hm⟩
    have hf₃ := hf₂.piece hg hx hposC (by rwa [hys]) hw
    have hdone : (buf.take done).length = done := by
      rw [List.length_take]
      omega
    have happ := store_append ref off (buf.take done) ((buf.drop done).take n)
    rw [hdone, ← List.take_add] at happ
    rw [happ] at hf₃
    refine (ih (h := { h₂ with dev := d₃ }) hf₃ (by omega) (by omega) ?_
      fun _ => ⟨hx.cur, ?_⟩).mono (fun r h₄ hd => hd.of_writes hw₃) fun _ _ _ => trivial
    · rw [← Nat.add_assoc]
      rcases hnext with h1 | h1
      · exact .inl (by omega)
      · exact .inr (.inr h1)
    · rw [hx.idx]
      exact Nat.div_le_div_right (by omega)

/-- A write to a cluster of another chain. -/
lemma FileOk.foreign (hf : FileOk fs d first C ref) {c r : ℕ}
    (hc : InRange fs c) (hmem : c ∉ C) (hr : r < fs.secPerClus)
    (hw : Wrote [clusRelLba fs c + r] sec d d') : FileOk fs d' first C ref := by
  have hL : ∀ s ∈ [clusRelLba fs c + r], fs.dataStart ≤ s := fun s hs => by
    rw [mem_singleton.mp hs]
    unfold clusRelLba
    omega
  refine ⟨hf.toOwns.congr (fun a ha => hw.entry_of_data hg hL (hf.range a ha).2) hw.nsect,
    fun i hi => ?_⟩
  have hdiv : (sectOf fs C (i / 512) * 512 + i % 512) / 512 = sectOf fs C (i / 512) := by omega
  have hm := List.mem_of_getElem? (sectOf_mem hg (div_lt_sectors.mp hi))
  have hne : sectOf fs C (i / 512) ∉ [clusRelLba fs c + r] := fun hs => by
    have heq := (clusRelLba_inj hg (hf.range _ hm).1 hc.1 (mod_lt _ hg.spc_pos) hr
      (mem_singleton.mp hs)).1
    exact hmem (heq ▸ hm)
  rw [hw.data, hdiv, if_neg hne, hf.bytes i hi]

lemma direntSync_spec (ho : HandleOk fs h C ref) :
    wp direntSync (fun _ h' => HandleOk fs h' C ref ∧ h'.inode = h.inode) (fun _ _ => True) h := by
  refine wp_bind.mpr (wp_gets.mpr ?_)
  rw [id]
  split_ifs with hd
  · refine onDev_bind ((secRead_spec _ h.dev).mono (fun sec d₁ h₁ => ?_) fun _ _ _ => trivial)
    have ho₁ := ho.reads (Reads.of_quiet h₁.2.1)
    refine wp_zoom.mpr ((secWrite_spec _ _ d₁).mono (fun _ d₂ h₂ => ?_) fun _ _ _ => trivial)
    obtain ⟨_, hw⟩ := h₂
    obtain ⟨c, r, hc, hmem, hused, hr, hlba⟩ := ho₁.dirent hd
    have hlba' : h.inode.deLba = clusRelLba fs c + r := hlba
    have hL : ∀ s ∈ [h.inode.deLba], fs.dataStart ≤ s := fun s hs => by
      rw [mem_singleton.mp hs, hlba']
      unfold clusRelLba
      omega
    refine ⟨⟨?_, ho₁.size_le, ho₁.zero, ho₁.copies, fun _ => ⟨c, r, hc, hmem, ?_, hr, hlba⟩,
      ho₁.notDir⟩, rfl⟩
    · rw [hlba'] at hw
      exact ho₁.file.foreign hg hc hmem hr hw
    · rw [hw.entry_of_data hg hL hc.2]
      exact hused
  · exact ⟨ho, rfl⟩

/-- The growth of a file before a write. -/
lemma growFor_spec (ho : HandleOk fs h C ref) (need : ℕ) :
    wp (if C.length < need then onChain (chainGrow fs (need - C.length)) else pure ())
      (fun _ h' => ∃ C', HandleOk fs h' C' ref ∧ need ≤ C'.length ∧ h'.inode.size = h.inode.size ∧
        (Calm h.dev → Calm h'.dev)) (fun _ _ => True) h := by
  split_ifs with hlt
  · refine wp_zoom.mpr ((chainGrow_spec hg ho.file fun i hi => ho.zero i (ho.size_le.trans hi)).mono
      (fun _ s hs => ?_) fun _ _ _ => trivial)
    obtain ⟨new, hlen, hgr⟩ := hs
    refine ⟨C ++ new, ⟨hgr.file, ?_, ho.zero, ho.copies, fun hd => ?_, ho.notDir⟩, ?_, rfl, hgr.calm⟩
    · refine ho.size_le.trans (Nat.mul_le_mul_right _ ?_)
      rw [List.length_append]
      exact Nat.le_add_right _ _
    · obtain ⟨c, r, hc, hmem, hused, hr, hlba⟩ := ho.dirent hd
      obtain ⟨hmem', hused'⟩ := hgr.foreign hc hmem hused
      exact ⟨c, r, hc, hmem', hused', hr, hlba⟩
    · rw [List.length_append, hlen]
      omega
  · exact ⟨C, ho, by omega, rfl, id⟩

/-- The number of clusters of a file. -/
lemma have_spec (ho : HandleOk fs h C ref) :
    wp (if h.inode.firstClus = 0 then pure 0 else onDev (chainLen fs h.inode.firstClus))
      (fun n h' => n = C.length ∧ Reads h h') (fun _ _ => True) h := by
  by_cases hne : C = []
  · rw [if_pos (ho.file.head hne), hne]
    exact ⟨rfl, Reads.rfl⟩
  · have hge := (ho.file.range _ (List.mem_of_getElem? (ho.file.getElem_zero hne))).1
    rw [if_neg (by omega)]
    refine wp_zoom.mpr ((chainLenFrom_spec hg (ho.file.linked hne) ho.file.range).mono
      (fun n d₁ h₁ => ?_) fun _ _ _ => trivial)
    exact ⟨h₁.1.trans (Nat.zero_add _), Reads.of_quiet h₁.2⟩

/-- The clusters that a file needs, in the 64-bit and 32-bit arithmetic of the code. -/
lemma need_eq (hn : n ≤ FAT_MAX_FILE) :
    n ≤ (n + clusBytes fs - 1) % 2 ^ 64 / clusBytes fs % 2 ^ 32 * clusBytes fs := by
  have hpos := clusBytes_pos hg
  have hle : clusBytes fs ≤ 128 * 512 := Nat.mul_le_mul_right _ hg.spc_le
  have hmax : FAT_MAX_FILE = 8 * 1024 * 1024 := rfl
  have hsum : (n + clusBytes fs - 1) % 2 ^ 64 = n + clusBytes fs - 1 :=
    Nat.mod_eq_of_lt (by omega)
  have hquot : (n + clusBytes fs - 1) / clusBytes fs ≤ n + clusBytes fs - 1 := Nat.div_le_self _ _
  rw [hsum, Nat.mod_eq_of_lt (by omega : (n + clusBytes fs - 1) / clusBytes fs < 2 ^ 32)]
  have hlt := Nat.lt_div_mul_add (a := n + clusBytes fs - 1) hpos
  omega

lemma holeFor_spec (ho : HandleOk fs h C ref) {size : ℕ}
    (hsize : h.inode.size = size) (hin : HoleInSector fs size off)
    (hoff : off ≤ C.length * clusBytes fs) :
    wp (if size < off then holeLoop fs off (off - size) size else pure ())
      (fun _ h' => Reads h h') (fun _ _ => True) h := by
  split_ifs with hlt
  · exact holeLoop_spec hg ho.file (hsize ▸ ho.zero) hin hoff
  · exact Reads.rfl

/-- `fat_write_range` when no piece leaves its sector and no transfer fails. -/
lemma fatWriteRange_spec (ho : HandleOk fs h C ref)
    (hsum : off + buf.length < 2 ^ 64) (hin : InSector fs off (off + buf.length))
    (hhole : HoleInSector fs h.inode.size off) (hcalm : Calm h.dev) :
    wp (fatWriteRange fs off buf)
      (fun n h' => n = buf.length ∧ h'.inode.size = max h.inode.size (off + buf.length) ∧
        ∃ C', HandleOk fs h' C' (store ref off buf)) (fun _ _ => True) h := by
  unfold fatWriteRange
  rw [Nat.mod_eq_of_lt hsum]
  split_ifs with hmax
  · exact trivial
  have hneed := need_eq hg (Nat.le_of_not_lt hmax)
  refine wp_bind.mpr (wp_gets.mpr ?_)
  generalize (off + buf.length + clusBytes fs - 1) % 2 ^ 64 / clusBytes fs % 2 ^ 32 = need at *
  refine (have_spec hg ho).bind (fun have' h₁ hh₁ => ?_) fun _ _ _ => trivial
  obtain ⟨rfl, hr₁⟩ := hh₁
  have ho₁ := ho.reads hr₁
  refine (growFor_spec hg ho₁ need).bind (fun _ h₂ hh₂ => ?_) fun _ _ _ => trivial
  obtain ⟨C', ho₂, hlen, hsize₂, hcalm₂⟩ := hh₂
  have hsize : h₂.inode.size = h.inode.size := by rw [hsize₂, hr₁.inode]
  have hcap : off + buf.length ≤ C'.length * clusBytes fs :=
    hneed.trans (Nat.mul_le_mul_right _ hlen)
  refine (holeFor_spec hg ho₂ hsize hhole (by omega)).bind (fun _ h₃ hr₃ => ?_) fun _ _ _ => trivial
  have ho₃ := ho₂.reads hr₃
  refine wp_bind.mpr (wp_gets.mpr ?_)
  have hstart : FileOk fs h₃.dev h₃.inode.firstClus C' (store ref off (buf.take 0)) := by
    rw [List.take_zero, store_nil]
    exact ho₃.file
  refine (writeLoop_spec hg hstart hin hcap (Nat.zero_le _) (by omega) (.inr (.inl rfl))
    fun hlt => ho₃.cursor (by omega)).bind (fun r h₄ hd => ?_) fun _ _ _ => trivial
  cases r with
  | some n => exact absurd (hr₃.dev.calm (hcalm₂ (hr₁.dev.calm hcalm))) (hd.early (by simp))
  | none =>
    have hw := hd.writes rfl
    have hsize₄ : h₄.inode.size = h.inode.size := by rw [hw.inode, hr₃.inode, hsize]
    refine wp_bind.mpr (wp_modify.mpr ?_)
    have ho₄ : HandleOk fs { h₄ with inode :=
        { h₄.inode with size := max h₄.inode.size (off + buf.length) } } C' (store ref off buf) := by
      refine ⟨hd.file rfl, ?_, fun i hi => ?_, hw.copies ho₃.copies, fun hdir => ?_, ?_⟩
      · have hle := ho₂.size_le
        show max h₄.inode.size (off + buf.length) ≤ _
        omega
      · have hi' : max h₄.inode.size (off + buf.length) ≤ i := hi
        rw [store_of_ge (by omega)]
        exact ho.zero i (by omega)
      · have hdir' : h₃.inode.hasDirent = true := by rw [← hw.inode]; exact hdir
        obtain ⟨c, r, hc, hmem, hused, hr, hlba⟩ := ho₃.dirent hdir'
        refine ⟨c, r, hc, hmem, by rwa [hw.entry c hc.2], hr, ?_⟩
        rw [hw.inode, hlba]
      · rw [hw.inode]
        exact ho₃.notDir
    refine (direntSync_spec hg ho₄).bind (fun _ h₅ hh₅ => ?_) fun _ _ _ => trivial
    obtain ⟨ho₅, hinode⟩ := hh₅
    refine ⟨rfl, ?_, C', ho₅⟩
    rw [hinode]
    rw [hsize₄]

end

/-! ## Runs -/

/-- What a file is: its bytes, zero where nothing was written, and its size. -/
structure RefFile where
  bytes : ℕ → UInt8
  size : ℕ

def RefFile.write (f : RefFile) (off : ℕ) (buf : List UInt8) : RefFile :=
  ⟨store f.bytes off buf, max f.size (off + buf.length)⟩

def RefFile.read (f : RefFile) (off len : ℕ) : List UInt8 :=
  slice f.bytes off (min len (f.size - off))

/-- An open file and the file that the calls on it should have made. -/
structure FileSys where
  node : Handle
  ref : RefFile

/-- A call on the file with the outcome of its transfers, or calls on the rest of the volume. -/
inductive FileOp
  | write (off : ℕ) (buf : List UInt8) (faults : List (Option ℕ))
  | read (off len : ℕ) (faults : List (Option ℕ))
  | other

def withFaults (h : Handle) (faults : List (Option ℕ)) : Handle :=
  { h with dev := { h.dev with faults := faults } }

/-- Calls on the rest of the volume leave the clusters of the file alone, and its entry in the
directory stays in a cluster of another chain. -/
def Keeps (fs : FatFs) (h h' : Handle) : Prop :=
  h'.dev.nsect = h.dev.nsect ∧ ∀ C, Owns fs h.dev h.inode.firstClus C →
    (∀ c ∈ C, entry fs h'.dev c = entry fs h.dev c ∧
      ∀ s ∈ clusSectors fs c, ∀ i < 512, h'.dev.data (s * 512 + i) = h.dev.data (s * 512 + i)) ∧
    DirentOk fs h'.dev h.inode C

/-- One step: a write that succeeds, a read, or calls on the rest of the volume. -/
def FileStep (fs : FatFs) (s : FileSys) (op : FileOp) (t : FileSys) : Prop :=
  match op with
  | .write off buf faults =>
    ∃ n, fatWriteRange fs off buf (withFaults s.node faults) = (.ok n, t.node) ∧
      t.ref = s.ref.write off (buf.take n)
  | .read off len faults =>
    t.node = (fatRead fs off len (withFaults s.node faults)).2 ∧ t.ref = s.ref
  | .other =>
    t.node.inode = s.node.inode ∧ t.node.copies = s.node.copies ∧ Keeps fs s.node t.node ∧
      t.ref = s.ref

/-- The pieces of the call stay in their sectors; of a write no transfer fails and its range
does not wrap. -/
def FileSound (fs : FatFs) (s : FileSys) (op : FileOp) : Prop :=
  match op with
  | .write off buf faults =>
    off + buf.length < 2 ^ 64 ∧ InSector fs off (off + buf.length) ∧
      HoleInSector fs s.node.inode.size off ∧ ∀ f ∈ faults, f = none
  | .read off len _ => InSector fs off (off + min len (s.node.inode.size - off))
  | .other => True

/-- A file that has just been created. -/
structure NewFile (fs : FatFs) (s : FileSys) : Prop where
  inode : s.node.inode.firstClus = 0 ∧ s.node.inode.size = 0 ∧ s.node.inode.isDir = false
  dirent : DirentOk fs s.node.dev s.node.inode []
  copies : s.node.copies = []
  ref : s.ref = ⟨fun _ => 0, 0⟩

/-- What `fat_read` should answer: the bytes of the file, fewer only when a transfer fails, with
copies that stay in the buffer. -/
structure ReadLaw (fs : FatFs) (s : FileSys) (off len : ℕ) (faults : List (Option ℕ)) : Prop where
  part : ∀ bytes h', fatRead fs off len (withFaults s.node faults) = (.ok bytes, h') →
    bytes <+: s.ref.read off len
  exact : (∀ f ∈ faults, f = none) →
    ∃ h', fatRead fs off len (withFaults s.node faults) = (.ok (s.ref.read off len), h')
  copies : CopiesOk (fatRead fs off len (withFaults s.node faults)).2

/-- The file is the one that the calls should have made. -/
def FileInv (fs : FatFs) (s : FileSys) : Prop :=
  (∃ C, HandleOk fs s.node C s.ref.bytes) ∧ s.node.inode.size = s.ref.size

lemma HandleOk.withFaults (ho : HandleOk fs h C ref) (faults : List (Option ℕ)) :
    HandleOk fs (withFaults h faults) C ref :=
  ⟨⟨ho.file.toOwns.congr (fun _ _ => rfl) rfl, ho.file.bytes⟩, ho.size_le, ho.zero, ho.copies,
    ho.dirent, ho.notDir⟩

variable {s : FileSys}

lemma NewFile.inv (hn : NewFile fs s) : FileInv fs s := by
  obtain ⟨h0, hsize, hdir⟩ := hn.inode
  refine ⟨⟨[], ⟨⟨⟨fun _ => h0, fun hc => absurd rfl hc, by simp, by simp⟩, fun i hi => ?_⟩, ?_, ?_,
    ?_, hn.dirent, hdir⟩⟩, ?_⟩
  · rw [length_nil, Nat.zero_mul] at hi
    exact absurd hi (Nat.not_lt_zero i)
  · rw [hsize]
    exact Nat.zero_le _
  · rw [hn.ref]
    exact fun _ _ => rfl
  · unfold CopiesOk
    rw [hn.copies]
    simp
  · rw [hsize, hn.ref]

lemma HandleOk.keeps (hg : Geom fs) (ho : HandleOk fs h C ref) (hinode : h'.inode = h.inode)
    (hcopies : h'.copies = h.copies) (hk : Keeps fs h h') : HandleOk fs h' C ref := by
  obtain ⟨hnsect, hk⟩ := hk
  obtain ⟨hC, hdirent⟩ := hk C ho.file.toOwns
  refine ⟨⟨?_, fun i hi => ?_⟩, ?_, ?_, ?_, ?_, ?_⟩
  · rw [hinode]
    exact ho.file.toOwns.congr (fun c hc => (hC c hc).1) hnsect
  · have hm := List.mem_of_getElem? (sectOf_mem hg (div_lt_sectors.mp hi))
    have hs : sectOf fs C (i / 512) ∈ clusSectors fs (C.getD (i / 512 / fs.secPerClus) 0) :=
      mem_clusSectors.mpr ⟨_, mod_lt _ hg.spc_pos, rfl⟩
    rw [(hC _ hm).2 _ hs _ (mod_lt _ (by decide)), ho.file.bytes i hi]
  · rw [hinode]
    exact ho.size_le
  · rw [hinode]
    exact ho.zero
  · unfold CopiesOk
    rw [hcopies]
    exact ho.copies
  · rw [hinode]
    exact hdirent
  · rw [hinode]
    exact ho.notDir

/-- A read answers as it should. -/
lemma FileInv.read (hg : Geom fs) (hs : FileInv fs s)
    (faults : List (Option ℕ)) (hin : InSector fs off (off + min len (s.node.inode.size - off))) :
    Reads (withFaults s.node faults) (fatRead fs off len (withFaults s.node faults)).2 ∧
      ReadLaw fs s off len faults := by
  obtain ⟨⟨C, ho⟩, hsize⟩ := hs
  have hspec := fatRead_spec hg (ho.withFaults faults) hin
  unfold wp at hspec
  have hread : s.ref.read off len
      = slice s.ref.bytes off (min len ((withFaults s.node faults).inode.size - off)) := by
    unfold RefFile.read
    rw [← hsize]
    rfl
  cases hc : fatRead fs off len (withFaults s.node faults) with
  | mk r h' =>
    rw [hc] at hspec
    cases r with
    | error e =>
      obtain ⟨hr, hcalm⟩ := hspec
      refine ⟨hr, ⟨fun bytes h'' heq => ?_, fun hf => absurd hf hcalm, ?_⟩⟩
      · rw [hc] at heq
        exact absurd (Prod.mk.inj heq).1 (by simp)
      · rw [hc]
        exact hr.copies ho.copies
    | ok bytes =>
      have hd : ReadDone _ _ _ _ bytes h' := hspec
      refine ⟨hd.reads, ⟨fun bytes' h'' heq => ?_, fun hf => ⟨h', ?_⟩, ?_⟩⟩
      · rw [hc] at heq
        obtain ⟨n, hn, hbytes⟩ := hd.part
        obtain rfl : bytes = bytes' := Except.ok.inj (Prod.mk.inj heq).1
        rw [hread, hbytes, ← slice_take _ _ hn]
        exact List.take_prefix _ _
      · rw [hc, hread, hd.full hf]
      · rw [hc]
        exact hd.reads.copies ho.copies

/-- What one step keeps. -/
lemma file_step (hg : Geom fs) {t : FileSys} {op : FileOp} (hs : FileInv fs s)
    (hsound : FileSound fs s op) (hstep : FileStep fs s op t) : FileInv fs t := by
  cases op with
  | write off buf faults =>
    obtain ⟨hsum, hin, hhole, hcalm⟩ := hsound
    obtain ⟨n, hcall, href⟩ := hstep
    obtain ⟨⟨C, ho⟩, hsize⟩ := hs
    obtain ⟨rfl, hsize', C', ho'⟩ :=
      (fatWriteRange_spec hg (ho.withFaults faults) hsum hin hhole hcalm).ok hcall
    unfold FileInv
    rw [href, List.take_length]
    refine ⟨⟨C', ho'⟩, ?_⟩
    rw [hsize']
    exact congrArg (max · _) hsize
  | read off len faults =>
    obtain ⟨hnode, href⟩ := hstep
    obtain ⟨hr, _⟩ := hs.read hg faults hsound
    obtain ⟨⟨C, ho⟩, hsize⟩ := hs
    unfold FileInv
    rw [hnode, href, hr.inode]
    exact ⟨⟨C, (ho.withFaults faults).reads hr⟩, hsize⟩
  | other =>
    obtain ⟨hinode, hcopies, hk, href⟩ := hstep
    obtain ⟨⟨C, ho⟩, hsize⟩ := hs
    unfold FileInv
    rw [href, hinode]
    exact ⟨⟨C, ho.keeps hg hinode hcopies hk⟩, hsize⟩

/-- What `fat_mount` checks of the geometry. -/
lemma fatMount_spec (d : Dev) :
    wp fatMount (fun fs _ => 0 < fs.secPerClus ∧ fs.secPerClus ≤ 128 ∧ 0 < fs.nfats)
      (fun _ _ => True) d := by
  refine (secRead_spec 0 d).bind (fun bs d₁ _ => ?_) fun _ _ _ => trivial
  simp only
  split_ifs with h1 h2 h3 h4
  · exact trivial
  · exact trivial
  · exact trivial
  · exact trivial
  · push Not at h3
    obtain ⟨hpow, hle, _, hn⟩ := h3
    refine ⟨Nat.pos_of_ne_zero fun h0 => hpow ?_, hle, Nat.pos_of_ne_zero fun h0 => ?_⟩
    · rw [h0]
      rfl
    · exact absurd (hn (by omega)) (by omega)

/-- The law of a file: all copies have stayed in the buffer, and so will those of every read
whose pieces stay in their sectors, which answers the bytes of the file. -/
structure FileLaw (fs : FatFs) (s : FileSys) : Prop where
  copies : CopiesOk s.node
  reads : ∀ off len faults, InSector fs off (off + min len (s.node.inode.size - off)) →
    ReadLaw fs s off len faults

/-- On every geometry that `fat_mount` accepts and whose FAT has room for its clusters, every
run of successful writes to a new file whose pieces stay in their sectors, between reads and any
calls on the rest of the volume, leaves a file that reads as its reference. -/
theorem file_law {d₀ d₁ : Dev} {s₀ s : FileSys} {ops : List FileOp}
    (hmount : fatMount d₀ = (.ok fs, d₁)) (hroom : Room fs) (hnew : NewFile fs s₀)
    (hrun : Run (Guarded (FileSound fs) (FileStep fs)) s₀ ops s) : FileLaw fs s := by
  obtain ⟨hpos, hle, hnfats⟩ := (fatMount_spec d₀).ok hmount
  have hg : Geom fs := { hroom with spc_pos := hpos, spc_le := hle, nfats_pos := hnfats }
  have hinv : FileInv fs s := hrun.invariant hnew.inv fun _ _ _ ht hs => file_step hg ht hs.1 hs.2
  refine ⟨?_, fun off len faults hin => (hinv.read hg faults hin).2⟩
  obtain ⟨⟨C, ho⟩, _⟩ := hinv
  exact ho.copies

/-- With one sector per cluster every piece stays in its sector. -/
lemma inSector_of_one (hone : fs.secPerClus = 1) (a b : ℕ) : InSector fs a b := fun p _ _ _ => by
  have hcb : clusBytes fs = 512 := by rw [clusBytes, hone]
  unfold pieceAt
  rw [hcb]
  omega

lemma InSector.hole {a b : ℕ} (hin : InSector fs a b) : HoleInSector fs a b :=
  fun p h1 h2 h3 => (Nat.add_le_add_left (Nat.min_le_left _ _) _).trans (hin p h1 h2 h3)

/-! ## A small volume -/

/-- A boot sector with one FAT of 64 sectors and 4085 clusters of `spc` sectors, and a FAT in
which the root has cluster 2. -/
def smallVol (spc : ℕ) : Dev where
  data :=
    let bs := store (fun _ => 0) 510 [0x55, 0xAA]
    let bs := put (put (put (put bs 11 2 512) 13 1 spc) 14 2 1) 16 1 1
    put (put (put (put bs 32 4 (65 + 4085 * spc)) 36 4 64) 44 2 2) (512 + 4 * 2) 4 0x0FFFFFFF
  nsect := 65 + 4085 * spc
  faults := []

def smallFs (spc : ℕ) : FatFs := ⟨spc, 1, 1, 64, 2, 65, 4085⟩

/-- A new file whose entry is the first one of the root. -/
def smallFile (spc : ℕ) : FileSys :=
  ⟨⟨smallVol spc, ⟨0, false, 0, true, 65, 0⟩, []⟩, ⟨fun _ => 0, 0⟩⟩

lemma small_room (spc : ℕ) : Room (smallFs spc) :=
  ⟨rfl, (by decide : 4085 + 2 ≤ 128 * 64), (by decide : 4085 + 2 ≤ FAT_EOC)⟩

lemma small_new {spc : ℕ} (hspc : 0 < spc) (hused : entry (smallFs spc) (smallVol spc) 2 ≠ 0) :
    NewFile (smallFs spc) (smallFile spc) := by
  refine ⟨⟨rfl, rfl, rfl⟩, fun _ => ⟨2, 0, ⟨Nat.le_refl 2, (by decide : 2 < 4085 + 2)⟩,
    List.not_mem_nil, hused, hspc, ?_⟩, rfl, rfl⟩
  show 65 = 65 + (2 - 2) * spc + 0
  omega

/-- A write as a step, from the result that the code computes. -/
lemma small_write
    (h : (fatWriteRange fs off buf (withFaults s.node [])).1.toOption = some n) :
    FileStep fs s (.write off buf [])
      ⟨(fatWriteRange fs off buf (withFaults s.node [])).2, s.ref.write off (buf.take n)⟩ :=
  ⟨n, ok_of_toOption h, rfl⟩

/-- A write behind the end of a new file. -/
theorem file_law_hole : ∃ s, Run (Guarded (FileSound (smallFs 1)) (FileStep (smallFs 1)))
    (smallFile 1) [.write 600 [1, 2, 3] []] s ∧ FileLaw (smallFs 1) s := by
  have hwrite : (fatWriteRange (smallFs 1) 600 [1, 2, 3]
      (withFaults (smallFile 1).node [])).1.toOption = some 3 := by decide +kernel
  have hsound : FileSound (smallFs 1) (smallFile 1) (.write 600 [1, 2, 3] []) :=
    ⟨by decide, inSector_of_one rfl _ _, (inSector_of_one rfl _ _).hole, by simp⟩
  have hstep : Guarded (FileSound (smallFs 1)) (FileStep (smallFs 1)) (smallFile 1)
    (.write 600 [1, 2, 3] []) _ := ⟨hsound, small_write hwrite⟩
  have hrun := Run.single hstep
  have hmount : (fatMount (smallVol 1)).1.toOption = some (smallFs 1) := by decide
  exact ⟨_, hrun, file_law (ok_of_toOption hmount) (small_room 1)
    (small_new (by decide) (by decide)) hrun⟩

/-- A new file with two sectors per cluster after a write of one cluster. -/
def wholeCluster : FileSys :=
  ⟨(fatWriteRange (smallFs 2) 0 (replicate 1024 7) (withFaults (smallFile 2).node [])).2,
    (smallFile 2).ref.write 0 ((replicate 1024 7).take 1024)⟩

/-- With two sectors per cluster a write of a whole cluster copies 1024 bytes into the buffer,
and its second half is lost. -/
theorem file_law_two_sectors : ∃ fs d₁ s₀ s, fatMount (smallVol 2) = (.ok fs, d₁) ∧ Room fs ∧
    NewFile fs s₀ ∧ Run (FileStep fs) s₀ [.write 0 (replicate 1024 7) []] s ∧
    ¬ CopiesOk s.node ∧ ¬ ReadLaw fs s 512 1 [] := by
  have hmount : (fatMount (smallVol 2)).1.toOption = some (smallFs 2) := by decide
  have hwrite : (fatWriteRange (smallFs 2) 0 (replicate 1024 7)
      (withFaults (smallFile 2).node [])).1.toOption = some 1024 := by decide +kernel
  have hstep : FileStep (smallFs 2) (smallFile 2) (.write 0 (replicate 1024 7) [])
    wholeCluster := small_write hwrite
  refine ⟨smallFs 2, _, smallFile 2, wholeCluster, ok_of_toOption hmount, small_room 2,
    small_new (by decide) (by decide), Run.single hstep, fun hc => ?_, fun hr => ?_⟩
  · have hcopies : wholeCluster.node.copies = [(0, 1024)] := by decide +kernel
    have h := hc (0, 1024) (by rw [hcopies]; exact List.mem_singleton_self _)
    exact absurd h (by decide)
  · obtain ⟨h', hread⟩ := hr.exact (by simp)
    have hzero : (fatRead (smallFs 2) 512 1 (withFaults wholeCluster.node [])).1.toOption
        = some [0] := by decide +kernel
    have hseven : wholeCluster.ref.read 512 1 = [7] := by decide +kernel
    rw [hread, hseven] at hzero
    have h70 : (some [7] : Option (List UInt8)) = some [0] := hzero
    exact absurd h70 (by decide)

end Fat32
end MobilePhoneOs.Fs
