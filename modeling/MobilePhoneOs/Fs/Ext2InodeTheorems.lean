import MobilePhoneOs.Fs.Ext2MkfsTheorems

/-!
# ext2 inode numbers

`ialloc` starts at inode 11 and `ifree` takes back what is greater than 11, so the first inode
that is handed out is lost. No file that `ext2_create` has made can be removed on a volume that
`ext2_mkfs` has made, since no directory there shows its name.
-/

namespace MobilePhoneOs.Fs
namespace Ext2

open Mem Prog

section
variable {fs : E2Fs} {d d' : Dev} {ino : ℕ}

/-! ## Bits that are set and cleared -/

/-- A bit of a byte that was clear is set and cleared again. -/
lemma byte_set_clear (n : Fin 256) (k : Fin 8) (h : (n : ℕ).testBit k = false) :
    UInt8.ofNat ((UInt8.ofNat (n ||| 1 <<< (k : ℕ))).toNat &&& (255 ^^^ 1 <<< (k : ℕ)))
      = UInt8.ofNat n := by
  have hbit : 1 <<< (k : ℕ) < 2 ^ 8 := by
    rw [Nat.one_shiftLeft]
    exact Nat.pow_lt_pow_right (by decide) k.isLt
  have hlt : (n : ℕ) ||| 1 <<< (k : ℕ) < 2 ^ 8 := Nat.or_lt_two_pow n.isLt hbit
  rw [UInt8.toNat_ofNat_of_lt' hlt]
  congr 1
  apply Nat.eq_of_testBit_eq
  intro i
  rw [show 255 = 2 ^ 8 - 1 from rfl, Nat.testBit_and, Nat.testBit_or, Nat.testBit_xor,
    Nat.testBit_two_pow_sub_one, Nat.one_shiftLeft, Nat.testBit_two_pow]
  by_cases hik : (k : ℕ) = i
  · subst hik
    simp [h]
  · by_cases hi : i < 8
    · simp [hik, hi]
    · have hn : (n : ℕ).testBit i = false := Nat.testBit_lt_two_pow
        (lt_of_lt_of_le n.isLt (Nat.pow_le_pow_right (by decide) (Nat.not_lt.mp hi) : 2 ^ 8 ≤ 2 ^ i))
      simp [hn, hik]

lemma bmClear_bmSet {bm : ℕ → UInt8} {rel : ℕ} (h : bmTest bm rel = false) :
    bmClear (bmSet bm rel) rel = bm := by
  have h7 : rel &&& 7 = rel % 8 := Nat.and_two_pow_sub_one_eq_mod rel 3
  have h3 : rel >>> 3 = rel / 8 := Nat.shiftRight_eq_div_pow rel 3
  rw [bmTest_eq] at h
  have hbyte := byte_set_clear ⟨(bm (rel / 8)).toNat, (bm (rel / 8)).toNat_lt⟩
    ⟨rel % 8, Nat.mod_lt _ (by decide)⟩ h
  rw [UInt8.ofNat_toNat] at hbyte
  unfold bmClear bmSet
  rw [h7, h3, Function.update_self, Function.update_idem, hbyte, Function.update_eq_self]

/-! ## Allocation and release -/

lemma bmClear_congr {bm bm' : ℕ → UInt8} {rel : ℕ} (hrel : rel < E2_BPG)
    (h : ∀ i < E2_BSIZE, bm' i = bm i) : ∀ i < E2_BSIZE, bmClear bm' rel i = bmClear bm rel i := by
  have hbyte : rel >>> 3 < E2_BSIZE := by
    rw [Nat.shiftRight_eq_div_pow]
    exact Nat.div_lt_of_lt_mul hrel
  intro i hi
  unfold bmClear
  rw [h _ hbyte]
  by_cases heq : i = rel >>> 3
  · rw [heq, Function.update_self, Function.update_self]
  · rw [Function.update_of_ne heq, Function.update_of_ne heq, h i hi]

/-- `ifree` puts the bitmap back, unless the inode is the first one. -/
lemma ifree_ialloc (h : ialloc fs d = (.ok ino, d')) (hne : ino ≠ E2_FIRST_INO) :
    E2_FIRST_INO ≤ ino ∧ ∃ d'', ifree fs ino (quiet d') = (.ok (), d'') ∧
      ∀ g < fs.ngroups, ∀ i < E2_BSIZE,
        blkView d'' (fs.grp g).ibmap i = blkView d (fs.grp g).ibmap i := by
  obtain ⟨g, hg, rel, hrel, rfl, hbit, hdev, hfirst, hlt⟩ := ialloc_inv h
  have hipg : E2_IPG = 2048 := rfl
  have h11 : E2_FIRST_INO = 11 := rfl
  have hge : E2_FIRST_INO ≤ g * E2_IPG + rel + 1 := by
    rw [hipg]
    rcases Nat.eq_zero_or_pos g with h0 | h0
    · omega
    · omega
  have hdiv : (g * E2_IPG + rel + 1 - 1) / E2_IPG = g := by
    rw [hipg] at hrel ⊢
    omega
  have hmod : (g * E2_IPG + rel + 1 - 1) % E2_IPG = rel := by
    rw [hipg] at hrel ⊢
    omega
  have hquiet := hdev.trans (.to_quiet d')
  have hread : blkRead (quiet d') (fs.grp g).ibmap
      = (.ok (blkView (quiet d') (fs.grp g).ibmap), quiet d') :=
    blkRead_ok rfl (hquiet.nsect.symm ▸ hlt)
  have hwrite := blkWrite_ok (bmClear (blkView (quiet d') (fs.grp g).ibmap) rel)
    (rfl : (quiet d').faults = []) (hquiet.nsect.symm ▸ hlt : (fs.grp g).ibmap * _ < _)
  have hok : ¬ (g * E2_IPG + rel + 1 ≤ E2_FIRST_INO ∨ g ≥ fs.ngroups) := by omega
  have hifree : ifree fs (g * E2_IPG + rel + 1) (quiet d') = (.ok (), putBlk (quiet d')
      (fs.grp g).ibmap (bmClear (blkView (quiet d') (fs.grp g).ibmap) rel)) := by
    simp only [ifree, hdiv, hmod, if_neg hok, hread, hwrite]
  refine ⟨hge, _, hifree, fun g' hg' i hi => ?_⟩
  have hview : ∀ i < E2_BSIZE, blkView (quiet d') (fs.grp g).ibmap i
      = bmSet (blkView d (fs.grp g).ibmap) rel i := by
    intro i hi
    rw [hquiet.blkView, blkView_putBlk_self hi]
  by_cases hsame : (fs.grp g').ibmap = (fs.grp g).ibmap
  · rw [hsame, blkView_putBlk_self hi,
      bmClear_congr (Nat.lt_trans hrel (by decide)) hview i hi, bmClear_bmSet hbit]
  · rw [sameBlk_putBlk hsame i hi, hquiet.blkView, sameBlk_putBlk hsame i hi]

/-- `ialloc` begins with the bitmap of the first group. -/
lemma ialloc_first (hl : Layout fs) (hfree : ¬ Marked fs d E2_FIRST_INO) :
    ialloc fs d = match blkRead d (fs.grp 0).ibmap with
      | (.error e, d) => (.error e, d)
      | (.ok bm, d) =>
        match blkWrite d (fs.grp 0).ibmap (bmSet bm (E2_FIRST_INO - 1)) with
        | (.error e, d) => (.error e, d)
        | (.ok (), d) => (.ok E2_FIRST_INO, d) := by
  obtain ⟨k, hk⟩ := Nat.exists_eq_succ_of_ne_zero hl.pos.ne'
  have hbit : bmTest (blkView d (fs.grp 0).ibmap) (E2_FIRST_INO - 1) = false :=
    Bool.eq_false_iff.mpr hfree
  rw [ialloc, hk, iallocFrom]
  cases hread : blkRead d (fs.grp 0).ibmap with
  | mk r d₁ =>
    cases r with
    | error e => rfl
    | ok bm =>
      obtain ⟨-, rfl⟩ := blkRead_inv hread
      have hscan : iallocScan (blkView d (fs.grp 0).ibmap) (E2_IPG - 10) 10 = some 10 := by
        show iallocScan (blkView d (fs.grp 0).ibmap) (2037 + 1) 10 = some 10
        rw [iallocScan]
        exact if_pos hbit
      simp only [if_true, show E2_FIRST_INO - 1 = 10 from rfl, hscan]
      rfl

/-- A block is read and written back when the next two transfers succeed. -/
lemma rewrite_ok {b x : ℕ} (f : (ℕ → UInt8) → ℕ → UInt8) (hb : b * E2_SECT_PER_BLK < d.nsect) :
    (∃ d', (match blkRead d b with
      | (.error e, d) => (.error e, d)
      | (.ok bm, d) =>
        match blkWrite d b (f bm) with
        | (.error e, d) => (.error e, d)
        | (.ok (), d) => (.ok x, d)) = ((.ok x, d') : Except Errno ℕ × Dev)) ↔
      ∀ o ∈ d.faults.take 2, o = none := by
  have hin : ¬ b * E2_SECT_PER_BLK ≥ d.nsect := by omega
  obtain ⟨data, nsect, faults⟩ := d
  -- the outcomes of the read and of the write behind it
  rcases faults with _ | ⟨_ | k, _ | ⟨_ | l, rest⟩⟩ <;>
    simp [blkRead, blkWrite, Dev.read, Dev.write, Dev.put, hin]

/-- Inode 11 goes out when it is free and two transfers succeed. -/
lemma ialloc_eq_first (hl : Layout fs) (hsect : 2 * rootBlock < d.nsect) :
    (∃ d', ialloc fs d = (.ok E2_FIRST_INO, d')) ↔
      ¬ Marked fs d E2_FIRST_INO ∧ ∀ o ∈ d.faults.take 2, o = none := by
  have hin : (fs.grp 0).ibmap * E2_SECT_PER_BLK < d.nsect := by
    rw [hl.grp 0 hl.pos]
    have hroot : 2 * 261 < d.nsect := hsect
    show 4 * 2 < d.nsect
    omega
  have hok := rewrite_ok (x := E2_FIRST_INO) (fun bm => bmSet bm (E2_FIRST_INO - 1)) hin
  constructor
  · intro h
    obtain ⟨d', hd'⟩ := h
    have hm : ¬ Marked fs d E2_FIRST_INO := (ialloc_new hl hd').1.free
    rw [ialloc_first hl hm] at hd'
    exact ⟨hm, hok.mp ⟨d', hd'⟩⟩
  · intro h
    rw [ialloc_first hl h.1]
    exact hok.mpr h.2

/-- The release refuses inode 11 only. -/
lemma allocLaw_iff (hl : Layout fs) (hsect : 2 * rootBlock < d.nsect) :
    AllocLaw fs d ↔ Marked fs d E2_FIRST_INO ∨ ∃ o ∈ d.faults.take 2, o ≠ none := by
  have hfirst : (∃ d', ialloc fs d = (.ok E2_FIRST_INO, d')) ↔
      ¬ (Marked fs d E2_FIRST_INO ∨ ∃ o ∈ d.faults.take 2, o ≠ none) := by
    rw [ialloc_eq_first hl hsect]
    push Not
    exact Iff.rfl
  constructor
  · intro hlaw
    by_contra hc
    obtain ⟨d', hd'⟩ := hfirst.mpr hc
    obtain ⟨-, d'', hfree, -⟩ := hlaw _ _ hd'
    rw [ifree, if_pos (.inl (Nat.le_refl _))] at hfree
    cases hfree
  · intro hc ino d' halloc
    refine ifree_ialloc halloc ?_
    rintro rfl
    exact hfirst.mp ⟨d', halloc⟩ hc

/-! ## Names that cannot be removed -/

variable {s s' : Vol}

/-- No directory shows the name of a file, so that none is removed. -/
lemma DirsOk.not_unlinkLaw (h : DirsOk fs s) {i : ℕ} {name : List UInt8} {dir n : Inode}
    (ha : Asked s i name dir) : ¬ UnlinkLaw fs dir name n s.dev := by
  rintro ⟨d', dir', hok, -⟩
  have hsame : SameDev s.dev (quiet s.dev) := .to_quiet s.dev
  have hquiet : DirsOk fs ⟨quiet s.dev, s.held⟩ :=
    h.changed hsame.changed fun m hm _ => .inl hm
  have hstep : VolStep fs ⟨quiet s.dev, s.held⟩ (.unlink i name) ⟨d', s.held.set i dir'⟩ :=
    ⟨dir, dir', ha, hok, rfl⟩
  exact hquiet.unlink hstep

/-- What a mounted volume goes through: the successful operations on names, and whatever else
leaves the directories alone, as reads and writes of files and operations that fail do. -/
inductive FsOp
  | name (op : VolOp)
  | other

def FsStep (fs : E2Fs) (s : Vol) : FsOp → Vol → Prop
  | .name op, s' => VolStep fs s op s'
  | .other, s' =>
    s'.dev.nsect = s.dev.nsect ∧ (∀ b, Meta fs b → Used fs s.dev b → Used fs s'.dev b) ∧
      (∀ ino b, DirAt fs s.dev ino b → DirAt fs s'.dev ino b) ∧
      ∀ n ∈ s'.held, n.isDir = true → n ∈ s.held

lemma DirsOk.fsStep (h : DirsOk fs s) {op : FsOp} (hs : FsStep fs s op s') : DirsOk fs s' := by
  cases op with
  | name op => exact h.step hs
  | other =>
    obtain ⟨hnsect, hmeta, hdirs, hheld⟩ := hs
    refine ⟨h.layout, hnsect.symm ▸ h.nsect, fun b hb => hmeta b hb (h.metadata b hb),
      hdirs _ _ h.root, fun n hn hdir => ?_⟩
    obtain ⟨hrec, hat⟩ := h.held n (hheld n hn hdir) hdir
    exact ⟨hrec, hdirs _ _ hat⟩

/-- On every volume that has been made and used, the inode that is handed out can be taken back
exactly when it is not inode 11, and no file can be removed. -/
theorem ialloc_reversible {d d₁ d₂ : Dev} {km : MountMem} {root : Inode} {ops : List FsOp}
    (hmkfs : mkfs d = (.ok (), d₁)) (hmount : mount km d₁ = (.ok (fs, root), d₂))
    (hrun : Run (FsStep fs) ⟨d₂, [root]⟩ ops s) :
    (AllocLaw fs s.dev ↔ Marked fs s.dev E2_FIRST_INO ∨ ∃ o ∈ s.dev.faults.take 2, o ≠ none) ∧
      ∀ i name dir n, Asked s i name dir → ¬ UnlinkLaw fs dir name n s.dev := by
  have hinv : DirsOk fs s := hrun.invariant (I := DirsOk fs) (fresh_dirsOk hmkfs hmount)
    fun _ _ _ h hs => h.fsStep hs
  exact ⟨allocLaw_iff hinv.layout hinv.nsect, fun i name dir n ha => hinv.not_unlinkLaw ha⟩

/-! ## A file in the root directory of a fresh volume -/

theorem ialloc_reversible_create : ∃ d₁ d₂ fs root s, mkfs blankDev = (.ok (), d₁) ∧
    mount allMem d₁ = (.ok (fs, root), d₂) ∧
      Run (FsStep fs) ⟨d₂, [root]⟩ [.name (.create 0 [97] false)] s ∧
      (AllocLaw fs s.dev ↔ Marked fs s.dev E2_FIRST_INO ∨ ∃ o ∈ s.dev.faults.take 2, o ≠ none) ∧
        ∀ i name dir n, Asked s i name dir → ¬ UnlinkLaw fs dir name n s.dev := by
  obtain ⟨n, d₃, dir', hstep, -⟩ := created_fresh
  have hrun : Run (FsStep freshMount.1) ⟨mountedDev, [freshMount.2]⟩
      [.name (.create 0 [97] false)] ⟨d₃, [dir', n]⟩ := .single hstep
  exact ⟨freshDev, mountedDev, freshMount.1, freshMount.2, _, mkfs_blank, mount_fresh, hrun,
    ialloc_reversible mkfs_blank mount_fresh hrun⟩

/-- The first inode of a fresh volume is not taken back, and the file that gets it is not
removed. -/
theorem ialloc_first_lost : ∃ d₁ d₂ fs root s dir n, mkfs blankDev = (.ok (), d₁) ∧
    mount allMem d₁ = (.ok (fs, root), d₂) ∧
      Run (FsStep fs) ⟨d₂, [root]⟩ [.name (.create 0 [97] false)] s ∧ s.held = [dir, n] ∧
      ¬ AllocLaw fs d₂ ∧ ¬ UnlinkLaw fs dir [97] n s.dev := by
  obtain ⟨n, d₃, dir', hstep, hdir⟩ := created_fresh
  have hfresh := fresh_dirsOk mkfs_blank mount_fresh
  have hlaw : ¬ AllocLaw freshMount.1 mountedDev := by
    rw [allocLaw_iff hfresh.layout hfresh.nsect]
    have hfree : ¬ bmTest (blkView mountedDev (freshMount.1.grp 0).ibmap) 10 = true := by
      decide +kernel
    have hfaults : mountedDev.faults = [] := by decide +kernel
    rw [hfaults]
    exact not_or.mpr ⟨hfree, fun hc => by simp at hc⟩
  exact ⟨freshDev, mountedDev, freshMount.1, freshMount.2, ⟨d₃, [dir', n]⟩, dir', n, mkfs_blank,
    mount_fresh, .single hstep, rfl, hlaw,
    (hfresh.step hstep).not_unlinkLaw (i := 0) ⟨rfl, hdir, by decide, by decide⟩⟩

end

end Ext2
end MobilePhoneOs.Fs
