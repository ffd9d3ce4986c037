import MobilePhoneOs.Fs.Ext2LayoutTheorems

/-!
# ext2 inode records

`ext2_mount` takes volumes with any number of inodes per group, but the records are looked up with
2048 inodes per group. A record is stored and loaded faithfully where the two agree, no other
inode has the same record, and the size fits in 32 bits.
-/

namespace MobilePhoneOs.Fs
namespace Ext2

open Mem Prog

/-! ## The law -/

/-- Where the record of an inode is when a group has `ipg` inodes. -/
def recordOff (fs : E2Fs) (ipg ino : ℕ) : ℕ :=
  (fs.grp ((ino - 1) / ipg)).itable * E2_BSIZE + (ino - 1) % ipg * E2_INODE_SIZE

/-- A number of the volume, for which `grp` has an element. -/
def Numbered (fs : E2Fs) (ipg ino : ℕ) : Prop :=
  1 ≤ ino ∧ ino ≤ fs.ngroups * ipg ∧ (ino - 1) / E2_IPG < E2_NGROUP_MAX

/-- The fields have values of their types. -/
structure Inode.Typed (n : Inode) : Prop where
  links : n.links < 2 ^ 16
  blk : ∀ i < 15, n.blk i < 2 ^ 32
  rest : ∀ i, 15 ≤ i → n.blk i = 0

/-- What `inode_store` of `n` is for, when the superblock says `ipg` inodes per group: the next
load returns `n`, other numbers load as before, and no byte beside the record changes. -/
structure RecordLaw (fs : E2Fs) (ipg : ℕ) (n : Inode) (d d' : Dev) : Prop where
  same : (inodeLoad fs n.ino (quiet d')).1 = .ok n
  others : ∀ ino, Numbered fs ipg ino → ino ≠ n.ino →
    (inodeLoad fs ino (quiet d')).1 = (inodeLoad fs ino (quiet d)).1
  frame : ∀ i, (∀ k < E2_INODE_SIZE, i ≠ recordOff fs ipg n.ino + k) → d'.data i = d.data i

/-! ## Stores and loads -/

section
variable {fs : E2Fs} {ipg ino : ℕ} {n m : Inode} {d d' : Dev}

/-- Records start at multiples of their size. -/
lemma inodeOff_dvd (fs : E2Fs) (ino : ℕ) : 128 ∣ inodeOff fs ino := by
  show 128 ∣ (fs.grp ((ino - 1) / E2_IPG)).itable * 1024 + (ino - 1) % E2_IPG * 128
  omega

lemma recordOff_dvd (fs : E2Fs) (ipg ino : ℕ) : 128 ∣ recordOff fs ipg ino := by
  show 128 ∣ (fs.grp ((ino - 1) / ipg)).itable * 1024 + (ino - 1) % ipg * 128
  omega

/-- A store that succeeds has its sector on the device. -/
lemma inodeStore_lt (h : inodeStore fs n d = (.ok (), d')) :
    inodeOff fs n.ino / 512 < d'.nsect := by
  have hsect : d'.nsect = d.nsect := (inodeStore_inv h).nsect
  by_contra hlt
  have hread : sectRead d (inodeOff fs n.ino / 512) = (.error .eio, d) := by
    rw [sectRead, if_pos (by omega)]
  rw [inodeStore, inodeScatter] at h
  simp only [hread] at h
  cases h

lemma inodeLoad_quiet (hlt : inodeOff fs ino / 512 < d.nsect) :
    (inodeLoad fs ino (quiet d)).1 = .ok (inodeParse ino (recView fs d ino)) :=
  congrArg Prod.fst (inodeLoad_calm (d := quiet d) rfl hlt)

/-- A load without faults sees the record only. -/
lemma inodeLoad_congr (hn : d'.nsect = d.nsect)
    (h : ∀ k < E2_INODE_SIZE, d'.data (inodeOff fs ino + k) = d.data (inodeOff fs ino + k)) :
    (inodeLoad fs ino (quiet d')).1 = (inodeLoad fs ino (quiet d)).1 := by
  by_cases hlt : inodeOff fs ino / 512 < d.nsect
  · rw [inodeLoad_quiet hlt, inodeLoad_quiet (hn ▸ hlt)]
    exact congrArg _ (inodeParse_congr h)
  · have hread : ∀ x : Dev, x.nsect = d.nsect →
        sectRead (quiet x) (inodeOff fs ino / 512) = (.error .eio, quiet x) := by
      intro x hx
      rw [sectRead, if_pos]
      show _ + 1 > x.nsect
      omega
    simp only [inodeLoad, inodeGather, hread d' hn, hread d rfl]

/-- What is loaded after a store, up to the width of the size. -/
lemma load_store (hn : n.Typed) (h : inodeStore fs n d = (.ok (), d')) :
    (inodeLoad fs n.ino (quiet d')).1 = .ok { n with size := n.size % 2 ^ 32 } := by
  have hput := inodeStore_inv h
  have hreads := reads_putRec fs d n
  rw [← hput.recView] at hreads
  rw [inodeLoad_quiet (inodeStore_lt h)]
  generalize hx : inodeParse n.ino (recView fs d' n.ino) = x at hreads
  have hino : x.ino = n.ino := by
    rw [← hx]
    rfl
  have hblk : x.blk = n.blk := by
    funext i
    rcases Nat.lt_or_ge i 15 with hi | hi
    · rw [hreads.blk i hi, Nat.mod_eq_of_lt (hn.blk i hi)]
    · rw [hn.rest i hi, ← hx]
      exact if_neg (Nat.not_lt.mpr hi)
  have hlinks : x.links = n.links := hreads.links.trans (Nat.mod_eq_of_lt hn.links)
  refine congrArg _ ?_
  show Inode.mk x.ino x.isDir x.size x.links x.blk = _
  rw [hino, hreads.isDir, hreads.size, hlinks, hblk]

/-- The bytes away from the record that is looked up stay. -/
lemma store_data (h : inodeStore fs n d = (.ok (), d')) {i : ℕ}
    (hi : i < inodeOff fs n.ino ∨ inodeOff fs n.ino + E2_INODE_SIZE ≤ i) :
    d'.data i = d.data i := by
  rw [(inodeStore_inv h).data]
  show store d.data (inodeOff fs n.ino) (inodeRaw n) i = d.data i
  rcases hi with hi | hi
  · exact store_of_lt hi
  · rw [← inodeRaw_length n] at hi
    exact store_of_ge hi

/-- Multiples of the record size that differ are a record apart. -/
lemma apart {a b k : ℕ} (ha : 128 ∣ a) (hb : 128 ∣ b) (hne : a ≠ b) (hk : k < E2_INODE_SIZE) :
    a + k < b ∨ b + E2_INODE_SIZE ≤ a + k := by
  have h128 : E2_INODE_SIZE = 128 := rfl
  omega

lemma recordLaw (hn : n.Typed) (hsize : n.size < 2 ^ 32)
    (hoff : inodeOff fs n.ino = recordOff fs ipg n.ino)
    (hother : ∀ ino, Numbered fs ipg ino → ino ≠ n.ino → inodeOff fs ino ≠ inodeOff fs n.ino)
    (h : inodeStore fs n d = (.ok (), d')) : RecordLaw fs ipg n d d' := by
  constructor
  · rw [load_store hn h, Nat.mod_eq_of_lt hsize]
  · intro ino hino hne
    refine inodeLoad_congr (inodeStore_inv h).nsect fun k hk => store_data h ?_
    exact apart (inodeOff_dvd fs ino) (inodeOff_dvd fs n.ino) (hother ino hino hne) hk
  · intro i hi
    refine store_data h ?_
    rw [hoff]
    by_contra hin
    obtain ⟨hlo, hhi⟩ := not_or.mp hin
    refine hi (i - recordOff fs ipg n.ino) ?_ ?_
    · omega
    · omega

/-- Some device shows every store. -/
lemma exists_store (fs : E2Fs) (n : Inode) : ∃ d d', inodeStore fs n d = (.ok (), d') ∧
    ∀ ino, (inodeParse ino (recView fs d n.ino)).links ≠ n.links := by
  obtain ⟨v, hv⟩ : ∃ v : UInt8, load (fun _ => v) 26 2 ≠ n.links := by
    by_cases h0 : n.links = 0
    · exact ⟨255, by rw [h0]; decide⟩
    · exact ⟨0, Ne.symm h0⟩
  have hstore : ∃ d', inodeStore fs n ⟨fun _ => v, inodeOff fs n.ino / 512 + 1, []⟩
      = (.ok (), d') := by
    rw [inodeStore, inodeScatter]
    simp only [if_pos (inodeOff_sector fs n.ino)]
    simp only [sectRead, sectWrite, gt_iff_lt, lt_irrefl, if_false, Dev.read, Dev.write]
    exact ⟨_, rfl⟩
  obtain ⟨d', hd'⟩ := hstore
  exact ⟨_, d', hd', fun _ => hv⟩

/-- A store does what it is for on every device exactly when the size fits, the record is where
the superblock puts it and no other inode has the same. -/
theorem inode_record (hn : n.Typed) :
    (∀ d d', inodeStore fs n d = (.ok (), d') → RecordLaw fs ipg n d d') ↔
      n.size < 2 ^ 32 ∧ inodeOff fs n.ino = recordOff fs ipg n.ino ∧
        ∀ ino, Numbered fs ipg ino → ino ≠ n.ino → inodeOff fs ino ≠ inodeOff fs n.ino := by
  refine ⟨fun hlaw => ?_, fun h d d' hstore => recordLaw hn h.1 h.2.1 h.2.2 hstore⟩
  obtain ⟨d, d', hstore, hold⟩ := exists_store fs n
  have hlt := inodeStore_lt hstore
  have hlt₀ : inodeOff fs n.ino / 512 < d.nsect := (inodeStore_inv hstore).nsect ▸ hlt
  have hloaded := load_store hn hstore
  obtain ⟨hsame, hothers, hframe⟩ := hlaw d d' hstore
  have hnew : ∀ ino, (inodeParse ino (recView fs d' n.ino)).links = n.links := by
    rw [inodeLoad_quiet hlt] at hsame
    have hlinks := congrArg Inode.links (Except.ok.inj hsame)
    exact fun _ => hlinks
  refine ⟨?_, ?_, fun ino hino hne heq => ?_⟩
  · rw [hloaded] at hsame
    have hsize : n.size % 2 ^ 32 = n.size := congrArg Inode.size (Except.ok.inj hsame)
    rw [← hsize]
    exact Nat.mod_lt _ (by decide)
  · -- otherwise the bytes that are written lie beside the record
    by_contra hoff
    have hkept : inodeParse n.ino (recView fs d' n.ino)
        = inodeParse n.ino (recView fs d n.ino) := by
      refine inodeParse_congr fun k hk => hframe _ fun j hj heq => ?_
      have := apart (inodeOff_dvd fs n.ino) (recordOff_dvd fs ipg n.ino) hoff hk
      omega
    exact hold n.ino (hkept ▸ hnew n.ino)
  · have hrec : ∀ x, recView fs x ino = recView fs x n.ino := by
      intro x
      unfold recView
      rw [heq]
    have hload := hothers ino hino hne
    rw [← heq] at hlt hlt₀
    rw [inodeLoad_quiet hlt, inodeLoad_quiet hlt₀, hrec, hrec] at hload
    have hlinks := congrArg Inode.links (Except.ok.inj hload)
    rw [hnew ino] at hlinks
    exact hold ino hlinks.symm

/-! ## A volume with 1024 inodes per group -/

/-- A superblock and two group descriptors that `ext2_mount` takes. -/
def smallGroups : Dev where
  data := [(1080, 2, E2_MAGIC), (1044, 4, 1), (1112, 2, E2_INODE_SIZE), (1056, 4, E2_BPG),
    (1100, 4, 1), (1028, 4, 16385), (1064, 4, 1024), (2048, 4, 3), (2052, 4, 4), (2056, 4, 5),
    (2080, 4, 300), (2084, 4, 301), (2088, 4, 302), (5 * E2_BSIZE + E2_INODE_SIZE, 2, 0x41ED)].foldl
      (fun b x => put b x.1 x.2.1 x.2.2) fun _ => 0
  nsect := 32770
  faults := []

def smallMount : E2Fs × Inode :=
  (mount allMem smallGroups).1.toOption.getD
    (⟨0, 0, fun _ => ⟨0, 0, 0⟩⟩, ⟨0, false, 0, 0, fun _ => 0⟩)

/-- An empty file with inode 1500. -/
def smallFile : Inode := ⟨1500, false, 0, 1, fun _ => 0⟩

lemma smallFile_typed : smallFile.Typed :=
  ⟨by decide, fun _ _ => Nat.two_pow_pos 32, fun _ _ => rfl⟩

/-- The geometry of one group with 2048 inodes. -/
def oneGroup : E2Fs := ⟨8193, 1, fun _ => ⟨3, 4, 5⟩⟩

/-- There the file is stored and loaded. -/
theorem inode_record_file : (∀ d d', inodeStore oneGroup smallFile d = (.ok (), d') →
    RecordLaw oneGroup 2048 smallFile d d') ∧ smallFile.links = 1 := by
  refine ⟨(inode_record smallFile_typed).mpr ⟨by decide, rfl, fun ino hino hne => ?_⟩, rfl⟩
  obtain ⟨h1, hle, -⟩ := hino
  show 5 * 1024 + (ino - 1) % 2048 * 128 ≠ 5 * 1024 + 1499 * 128
  change ino ≤ 1 * 2048 at hle
  change ino ≠ 1500 at hne
  omega

/-- The record of inode 1500 is written into the first group, which has 1024 inodes. -/
theorem inode_record_misplaced : ∃ fs root d, mount allMem smallGroups = (.ok (fs, root), d) ∧
    load (smallGroups.view 2) 40 4 = 1024 ∧ Numbered fs 1024 smallFile.ino ∧
      ∃ d', inodeStore fs smallFile d = (.ok (), d') ∧ ¬ RecordLaw fs 1024 smallFile d d' := by
  have hsome : (mount allMem smallGroups).1.toOption.isSome = true := by decide +kernel
  have hmount : mount allMem smallGroups = (.ok smallMount, (mount allMem smallGroups).2) :=
    ok_of_isSome _ hsome
  have hstore : (inodeStore smallMount.1 smallFile (mount allMem smallGroups).2).1.toOption
      = some () := by decide +kernel
  have hnum : Numbered smallMount.1 1024 smallFile.ino := by
    unfold Numbered
    decide +kernel
  refine ⟨smallMount.1, smallMount.2, _, hmount, by decide +kernel, hnum, _, ok_of_toOption hstore, fun hlaw => ?_⟩
  have hoff : recordOff smallMount.1 1024 smallFile.ino = 302 * 1024 + 475 * 128 := by
    decide +kernel
  have hbyte := hlaw.frame (5 * 1024 + 1499 * 128) fun k hk => by
    rw [hoff]
    omega
  exact absurd hbyte (by decide +kernel)

end

end Ext2
end MobilePhoneOs.Fs
