import MobilePhoneOs.Fs.RamfsFile

/-!
# Reads that stay where they are

`f_write` and `f_lseek` leave the offset where it is to be; `f_read` leaves it where it was. So a
sequence of calls keeps to the reference offsets exactly as long as no read finds a byte.
-/

namespace MobilePhoneOs

open Function (update update_self update_of_ne)
namespace OpenFile

open Sys (act setFile)
open RamfsFile (ramfsOps)

variable {σ ν ε : Type} {ops : Ops σ ν ε}

/-! ## One call -/

lemma fRead_file (s : σ) (e : ε) (x : File ν) (len : ℕ) : (fRead ops s e x len).2.1 = x := by
  rw [fRead]
  split
  · rfl
  · rfl

lemma fRead_fs (s : σ) (e : ε) (x : File ν) (len : ℕ) :
    (fRead ops s e x len).1
      = if x.flags &&& O_ACCMODE = O_WRONLY then s
        else (ops.read s e x.vn x.off.toNat len).1 := by
  rw [fRead]
  split
  · rfl
  · rfl

namespace Traced

variable {t u : Traced σ ν}

/-- What a write does is what it is to do at the offset of its file. -/
lemma fWrite_spec (t : Traced σ ν) (x : File ν) (d : Desc) (src : List UInt8) (e : ε) :
    ((fWrite ops t.sys.fs e x src).1, (fWrite ops t.sys.fs e x src).2.1.off)
      = t.spec ops x x.off (.write d src e) := by
  rw [fWrite, spec]
  by_cases hro : x.flags &&& O_ACCMODE = O_RDONLY
  · rw [if_pos hro, if_pos hro]
  rw [if_neg hro, if_neg hro]
  by_cases happ : x.flags &&& O_APPEND ≠ 0
  · simp only [if_pos happ]
    cases ops.getattr t.sys.fs e x.vn with
    | error err => rfl
    | ok size =>
      simp only [Except.map]
      split_ifs
      · rfl
      · rfl
  · simp only [if_neg happ]
    split_ifs
    · rfl
    · rfl

/-- A read with no bytes does what it is to do at the offset of its file, and no other does. -/
lemma fRead_spec (t : Traced σ ν) (x : File ν) (d : Desc) {len : ℕ} (hlen : len < 2 ^ 64) (e : ε) :
    (fRead ops t.sys.fs e x len).1 = (t.spec ops x x.off (.read d len e)).1 ∧
      (x.off = (t.spec ops x x.off (.read d len e)).2 ↔
        (x.flags &&& O_ACCMODE ≠ O_WRONLY → ∀ bytes,
          (ops.read t.sys.fs e x.vn x.off.toNat len).2 = .ok bytes → bytes = [])) := by
  rw [fRead_fs, spec]
  by_cases hwo : x.flags &&& O_ACCMODE = O_WRONLY
  · rw [if_pos hwo, if_pos hwo]
    exact ⟨rfl, fun _ hc => absurd hwo hc, fun _ => rfl⟩
  rw [if_neg hwo, if_neg hwo]
  have hshort := ops.read_le t.sys.fs e x.vn x.off.toNat len
  generalize ops.read t.sys.fs e x.vn x.off.toNat len = r at hshort
  obtain ⟨fs, res⟩ := r
  cases res with
  | error err => exact ⟨rfl, fun _ _ _ hc => absurd hc (by simp), fun _ => rfl⟩
  | ok bytes =>
    refine ⟨rfl, fun h _ bs hbs => ?_, fun h => ?_⟩
    · -- an offset that has not moved has moved by a multiple of 2^64
      obtain rfl := Except.ok.inj hbs
      have hle := hshort bytes rfl
      have hzero : BitVec.ofNat 64 bytes.length = 0#64 := by
        simpa using h.symm
      have hmod := congrArg BitVec.toNat hzero
      rw [BitVec.toNat_ofNat, BitVec.toNat_ofNat, Nat.mod_eq_of_lt (by omega)] at hmod
      exact List.length_eq_zero_iff.mp hmod
    · have hnil := h hwo bytes rfl
      simp [hnil]

/-! ## One event -/

/-- When one file and the offset that it is to have change, the files agree if that one does. -/
lemma agree_update (hag : t.Agree) {f : FileId} {x : File ν} {o : BitVec 64}
    (hfile : u.sys.file = update t.sys.file f x)
    (href : u.ref = update t.ref f o) : u.Agree ↔ x.off = o := by
  constructor
  · intro h
    have hf := h f
    rwa [hfile, href, update_self, update_self] at hf
  · intro h g
    rw [hfile, href]
    by_cases hg : g = f
    · rw [hg, update_self, update_self, h]
    · rw [update_of_ne hg, update_of_ne hg, hag g]

/-- An event that is on no open file, and changes no offset. -/
lemma sequential_idle (hag : t.Agree) {a : Event σ ν ε} (hfs : u.sys.fs = t.nextFs ops a)
    (hfile : u.sys.file = t.sys.file) (href : u.ref = t.ref)
    (hnone : ∀ d len e, a = .read d len e → t.sys.fd d = none) : Sequential ops t a u := by
  refine ⟨hfs, fun d len e f ha hfd => ?_, fun f => ?_⟩
  · rw [hnone d len e ha] at hfd
    exact absurd hfd (by simp)
  · rw [hfile, href, hag f]

/-- `f_read` never moves the offset, so a read is sequential when it is to move it nowhere. -/
lemma sequential_read (hag : t.Agree) {d : Desc} {len : ℕ} (hlen : len < 2 ^ 64) (e : ε)
    (hu : u = ⟨t.sys.act ops (.read d len e), t.nextRef ops (.read d len e)⟩) :
    Sequential ops t (.read d len e) u ↔ t.Still ops (.read d len e) := by
  cases hfd : t.sys.fd d with
  | none =>
    have hact : t.sys.act ops (.read d len e) = t.sys := by
      simp only [act, Sys.on, hfd]
    have htarget : t.target (.read d len e : Event σ ν ε) = none := hfd
    have href : t.nextRef ops (.read d len e) = t.ref := by simp only [nextRef, htarget]
    have hfs : t.nextFs ops (.read d len e) = t.sys.fs := by simp only [nextFs, htarget]
    rw [hact, href] at hu
    constructor
    · intro _ f hf
      rw [hfd] at hf
      exact absurd hf (by simp)
    · intro _
      apply sequential_idle hag
      · rw [hu, hfs]
      · rw [hu]
      · rw [hu]
      · intro d' len' e' ha
        obtain ⟨rfl, -, -⟩ := Event.read.inj ha
        exact hfd
  | some f =>
    obtain ⟨hreadfs, hstill⟩ := @fRead_spec _ _ _ ops t (t.sys.file f) d _ hlen e
    have htarget : t.target (.read d len e : Event σ ν ε) = some f := hfd
    have hfs : t.nextFs ops (.read d len e)
        = (t.spec ops (t.sys.file f) (t.ref f) (.read d len e)).1 := by
      simp only [nextFs, htarget]
    have href : t.nextRef ops (.read d len e)
        = update t.ref f (t.spec ops (t.sys.file f) (t.ref f) (.read d len e)).2 := by
      simp only [nextRef, htarget]
    have hact : t.sys.act ops (.read d len e) = { t.sys with
        fs := (fRead ops t.sys.fs e (t.sys.file f) len).1
        file := update t.sys.file f (t.sys.file f) } := by
      simp only [act, Sys.on, hfd, fRead_file, setFile]
    have hagree := agree_update (u := u) hag (f := f) (by rw [hu, hact]) (by rw [hu, href])
    have hiff : t.Still ops (.read d len e) ↔ u.Agree := by
      rw [hagree, ← hag f, hstill]
      constructor
      · intro h
        exact h f hfd
      · intro h g hg
        rw [hfd] at hg
        obtain rfl := Option.some.inj hg
        exact h
    rw [hiff]
    constructor
    · exact fun h => h.agree
    · intro h
      refine ⟨?_, fun d' len' e' g ha hg hacc => ?_, h⟩
      · rw [hu, hact, hfs, ← hag f]
        exact hreadfs
      · rw [← hag g, fRead, if_neg hacc]

/-- Every event but a read leaves the offsets as they are to be. -/
lemma sequential_of_not_read (hag : t.Agree) {a : Event σ ν ε}
    (ha : ∀ d len e, a ≠ .read d len e) (hu : u = ⟨t.sys.act ops a, t.nextRef ops a⟩) :
    Sequential ops t a u := by
  have hbytes : ∀ d len e f, a = .read d len e → t.sys.fd d = some f →
      (t.sys.file f).flags &&& O_ACCMODE ≠ O_WRONLY →
      (fRead ops t.sys.fs e (t.sys.file f) len).2.2
        = (ops.read t.sys.fs e (t.sys.file f).vn (t.ref f).toNat len).2 :=
    fun d len e f hread => absurd hread (ha d len e)
  subst hu
  cases a with
  | read d len e => exact absurd rfl (ha d len e)
  | write d src e =>
    cases hfd : t.sys.fd d with
    | none =>
      have htarget : t.target (.write d src e : Event σ ν ε) = none := hfd
      apply sequential_idle hag
      · simp only [act, Sys.on, hfd, nextFs, htarget]
      · simp only [act, Sys.on, hfd]
      · simp only [nextRef, htarget]
      · exact fun d' len' e' hread => absurd hread (ha d' len' e')
    | some f =>
      have htarget : t.target (.write d src e : Event σ ν ε) = some f := hfd
      have hspec := @fWrite_spec _ _ _ ops t (t.sys.file f) d src e
      rw [hag f] at hspec
      refine ⟨?_, hbytes, (agree_update (f := f) hag ?_ ?_).mpr (congrArg Prod.snd hspec)⟩
      · simp only [act, Sys.on, hfd, setFile, nextFs, htarget]
        exact congrArg Prod.fst hspec
      · simp only [act, Sys.on, hfd, setFile]
      · simp only [nextRef, htarget]
  | lseek d off whence e =>
    cases hfd : t.sys.fd d with
    | none =>
      have htarget : t.target (.lseek d off whence e : Event σ ν ε) = none := hfd
      apply sequential_idle hag
      · simp only [act, Sys.on, hfd, nextFs, htarget]
      · simp only [act, Sys.on, hfd]
      · simp only [nextRef, htarget]
      · exact fun d' len' e' hread => absurd hread (ha d' len' e')
    | some f =>
      have htarget : t.target (.lseek d off whence e : Event σ ν ε) = some f := hfd
      have hfile : (fLseek ops t.sys.fs e (t.sys.file f) off whence).1.off
          = (t.spec ops (t.sys.file f) (t.ref f) (.lseek d off whence e)).2 := by
        rw [spec, ← hag f]
      refine ⟨?_, hbytes, (agree_update (f := f) hag ?_ ?_).mpr hfile⟩
      · simp only [act, Sys.on, hfd, setFile, nextFs, htarget, spec]
      · simp only [act, Sys.on, hfd, setFile]
      · simp only [nextRef, htarget]
  | openFile d f v flags =>
    have hnew := agree_update (u := ⟨t.sys.act ops (.openFile d f v flags),
      t.nextRef ops (.openFile d f v flags)⟩) (x := ⟨v, 0, flags⟩) (o := 0) hag rfl rfl
    exact ⟨rfl, hbytes, hnew.mpr rfl⟩
  | dup d d' => exact ⟨rfl, hbytes, hag⟩
  | close d => exact ⟨rfl, hbytes, hag⟩
  | other fs => exact ⟨rfl, hbytes, hag⟩

end Traced

open Traced

/-- Any sequence of calls on any open files keeps to the reference offsets exactly as long as its
reads find no byte. -/
theorem calls_sequential {start t : Traced σ ν} {as : List (Event σ ν ε)} (h : start.Agree) :
    Run (Guarded (Still ops) (Step ops)) start as t ↔
      Run (fun t a u => Step ops t a u ∧ Sequential ops t a u) start as t := by
  apply Run.guarded_iff (I := Agree)
  · exact fun t a u _ _ hlaw => hlaw.agree
  · intro t a u hag hstep
    obtain ⟨hen, hu⟩ := hstep
    by_cases hread : ∃ d len e, a = .read d len e
    · obtain ⟨d, len, e, rfl⟩ := hread
      exact sequential_read hag hen e hu
    · have hne : ∀ d len e, a ≠ .read d len e := fun d len e ha => hread ⟨d, len, e, ha⟩
      refine ⟨fun _ => ?_, fun _ => sequential_of_not_read hag hne hu⟩
      cases a with
      | read d len e => exact absurd rfl (hne d len e)
      | _ => trivial
  · exact h

/-! ## A file of ramfs -/

/-- The file `a` of a ramfs, open for reading and writing, with a copy of its descriptor. -/
def opened : Traced Ramfs.Fs Ramfs.ShellId where
  sys := {
    fs := RamfsFile.oneFile
    file := fun _ => ⟨1, 0, 2⟩
    fd := fun d => if d = (0, 3) ∨ d = (1, 3) then some 0 else none }
  ref := fun _ => 0

def Traced.next (t : Traced Ramfs.Fs Ramfs.ShellId) (a : Event Ramfs.Fs Ramfs.ShellId Bool) :
    Traced Ramfs.Fs Ramfs.ShellId :=
  ⟨t.sys.act ramfsOps a, t.nextRef ramfsOps a⟩

lemma opened_agree : opened.Agree := fun _ => rfl

/-- Two writes, one on each descriptor, and a read at the end of the file. -/
def appending : List (Event Ramfs.Fs Ramfs.ShellId Bool) :=
  [.write (0, 3) [65] true, .write (1, 3) [66, 67] true, .read (0, 3) 8 true]

theorem calls_sequential_ramfs :
    Run (fun t a u => Step ramfsOps t a u ∧ Sequential ramfsOps t a u) opened
      appending (appending.foldl Traced.next opened) := by
  rw [← calls_sequential opened_agree]
  have hstill : Still ramfsOps
      ((opened.next (.write (0, 3) [65] true)).next (.write (1, 3) [66, 67] true))
      (.read (0, 3) 8 true) := by
    intro f hf _ bytes hbytes
    obtain rfl : 0 = f := Option.some.inj hf
    exact (Except.ok.inj hbytes).symm
  have hlen : (8 : ℕ) < 2 ^ 64 := by decide
  have henables : Enables (fun t a => Still ramfsOps t a ∧ t.sys.Enabled a) Traced.next
      opened appending :=
    ⟨⟨trivial, trivial⟩, ⟨trivial, trivial⟩, ⟨hstill, hlen⟩, trivial⟩
  exact Run.of_enables (fun _ _ h => ⟨h.1, h.2, rfl⟩) henables

/-- A read of one byte that is asked for again gives the same byte again. -/
theorem read_stays : ∃ t,
    Run (Step ramfsOps) opened
      [.write (0, 3) [65, 66] true, .lseek (0, 3) 0 .set true, .read (0, 3) 1 true] t ∧
    (fRead ramfsOps t.sys.fs true (t.sys.file 0) 1).2.2 = .ok [65] ∧
    ¬ Run (fun t a u => Step ramfsOps t a u ∧ Sequential ramfsOps t a u) opened
      [.write (0, 3) [65, 66] true, .lseek (0, 3) 0 .set true, .read (0, 3) 1 true] t := by
  have hlen : (1 : ℕ) < 2 ^ 64 := by decide
  have henables : Enables (fun t a => Sys.Enabled t.sys a) Traced.next opened
      [.write (0, 3) [65, 66] true, .lseek (0, 3) 0 .set true, .read (0, 3) 1 true] :=
    ⟨trivial, trivial, hlen, trivial⟩
  refine ⟨_, Run.of_enables (fun _ _ h => ⟨h, rfl⟩) henables, rfl, fun hrun => ?_⟩
  have hagree := hrun.invariant opened_agree fun _ _ _ _ hstep => hstep.2.agree
  -- the offset is to be 1
  exact absurd (hagree 0) (by decide)

end OpenFile
end MobilePhoneOs
