import MobilePhoneOs.Fs.OpenFileTheorems

/-!
# A ramfs file is the bytes that were written to it

A write in place, one that grows the buffer and one behind the end of the file all make the
node hold what the reference holds. What a write of no bytes does depends on where it is: at the
start it empties the file, and behind the end it moves the end.
-/

namespace MobilePhoneOs.RamfsFile

open Ramfs OpenFile
open IoOutcome (ret)
open BitVec (ofInt ofNat toNat_ofNat)

/-! ## One node -/

/-- The node holds what it is to hold. -/
structure Agrees (x : RamNode) (b : Bytes) : Prop where
  size : x.len = b.size
  byte : ∀ i, i < b.size → x.data i = b.byte i

@[simp] lemma put_nil (b : Bytes) (off : ℕ) : b.put off [] = b := by
  cases b
  simp [Bytes.put, Mem.store_nil]

/-- A node after a write that ends at `stop`, with its buffer made larger where it has to be. -/
def written (x : RamNode) (off stop : ℕ) (src : List UInt8) : RamNode :=
  let x := if stop > x.cap then grow x stop else x
  let zeroed := if off > x.len then fun i => if x.len ≤ i ∧ i < off then 0 else x.data i else x.data
  { x with data := Mem.store zeroed off src, len := if stop > x.len then stop else x.len }

variable {x : RamNode}

/-- The bytes below the end of the file survive the growth of the buffer. -/
lemma grown_data {stop i : ℕ} (hi : i < x.len) :
    (if stop > x.cap then grow x stop else x).data i = x.data i := by
  split
  · exact if_pos hi
  · rfl

lemma grown_len (x : RamNode) (stop : ℕ) :
    (if stop > x.cap then grow x stop else x).len = x.len := by
  split
  · rfl
  · rfl

lemma written_len (x : RamNode) (off stop : ℕ) (src : List UInt8) :
    (written x off stop src).len = max x.len stop := by
  simp only [written, grown_len]
  split
  · omega
  · omega

variable {off : ℕ}

variable {b : Bytes}

/-- A write of some bytes makes the node hold them. -/
lemma Agrees.written (h : Agrees x b) {src : List UInt8}
    (hne : src ≠ []) : Agrees (written x off (off + src.length) src) (b.put off src) := by
  have hsize : (b.put off src).size = max b.size (off + src.length) := if_neg hne
  constructor
  · rw [written_len, hsize, h.size]
  · intro i hi
    rw [hsize] at hi
    simp only [RamfsFile.written, grown_len, Bytes.put]
    by_cases hin : off ≤ i ∧ i < off + src.length
    · -- a byte of the write
      obtain ⟨j, rfl⟩ := Nat.exists_eq_add_of_le hin.1
      rw [Mem.store_add (by omega), Mem.store_add (by omega)]
    have hout : ∀ d : ℕ → UInt8, Mem.store d off src i = d i := by
      intro d
      rcases Nat.lt_or_ge i off with hlt | hge
      · exact Mem.store_of_lt hlt
      · exact Mem.store_of_ge (by omega)
    rw [hout, hout]
    by_cases hold : i < x.len
    · -- a byte of the old file
      have hnogap : ¬ (x.len ≤ i ∧ i < off) := by omega
      have hdata : (if off + src.length > x.cap then grow x (off + src.length) else x).data i
          = x.data i := grown_data hold
      have hbyte := h.byte i (by rw [← h.size]; exact hold)
      split
      · exact (if_neg hnogap).trans (hdata.trans hbyte)
      · exact hdata.trans hbyte
    · -- a byte of the gap in front of the write
      have hsz := h.size
      have hgap : off > x.len := by omega
      rw [if_pos hgap, if_pos ⟨by omega, by omega⟩, b.zero i (by omega)]

lemma Agrees.truncated (x : RamNode) : Agrees { x with len := 0 } .empty :=
  ⟨rfl, fun _ hi => absurd hi (Nat.not_lt_zero _)⟩

/-- A read returns the overlap. -/
lemma Agrees.slice (h : Agrees x b) {len : ℕ}
    (hlen : len < 2 ^ 63) (hmax : x.len ≤ RAMFS_MAX_FILE) (hoff : off < x.len) :
    Mem.slice x.data off (if add64 off len > x.len then x.len - off else len)
      = b.overlap off len := by
  have hval : RAMFS_MAX_FILE = 262144 := rfl
  have hsum : add64 off len = off + len := Nat.mod_eq_of_lt (by omega)
  have hsize := h.size
  have hmin : (if add64 off len > x.len then x.len - off else len) = min len (b.size - off) := by
    rw [hsum]
    split
    · omega
    · omega
  rw [hmin, Bytes.overlap]
  apply Mem.slice_congr
  intro i hi
  exact h.byte (off + i) (by omega)

/-! ## One call -/

lemma ret_isdir : ret .isdir < 0 := by decide

lemma ret_nospc : ret .nospc < 0 := by decide

lemma ret_nomem : ret .nomem < 0 := by decide

/-- What `ramfs_write` does, by its outcome. -/
lemma ramfsWrite_spec (s : Fs) (v : ShellId) (src : List UInt8) (mem : Bool)
    (hwrap : off + src.length < 2 ^ 64) :
    ((ramfsWrite s v off src mem).1 = s ∧ ret (ramfsWrite s v off src mem).2 < 0 ∧
        ((s.shell v).type = .file → RAMFS_MAX_FILE < off + src.length ∨
          ((s.node (s.shell v).priv).cap < off + src.length ∧ mem = false))) ∨
      ((s.shell v).type = .file ∧ src = [] ∧ off = 0 ∧
        (ramfsWrite s v off src mem).1 = s.setNode (s.shell v).priv
          { s.node (s.shell v).priv with len := 0 } ∧
        ret (ramfsWrite s v off src mem).2 = 0) ∨
      ((s.shell v).type = .file ∧ ¬ (src = [] ∧ off = 0) ∧ off + src.length ≤ RAMFS_MAX_FILE ∧
        ¬ ((s.node (s.shell v).priv).cap < off + src.length ∧ mem = false) ∧
        (ramfsWrite s v off src mem).1 = s.setNode (s.shell v).priv
          (written (s.node (s.shell v).priv) off (off + src.length) src) ∧
        ret (ramfsWrite s v off src mem).2 = src.length) := by
  have hsum : add64 off src.length = off + src.length := Nat.mod_eq_of_lt hwrap
  rw [ramfsWrite]
  simp only [hsum]
  by_cases hfile : (s.shell v).type ≠ .file
  · left
    rw [if_pos hfile]
    exact ⟨rfl, ret_isdir, fun hc => absurd hc hfile⟩
  rw [if_neg hfile]
  have hty := not_not.mp hfile
  by_cases hzero : src.length = 0 ∧ off = 0
  · right; left
    rw [if_pos hzero]
    exact ⟨hty, List.length_eq_zero_iff.mp hzero.1, hzero.2, rfl, rfl⟩
  rw [if_neg hzero]
  by_cases hbig : off + src.length > RAMFS_MAX_FILE
  · left
    rw [if_pos hbig]
    exact ⟨rfl, ret_nospc, fun _ => .inl hbig⟩
  rw [if_neg hbig]
  by_cases hmem : off + src.length > (s.node (s.shell v).priv).cap ∧ mem = false
  · left
    rw [if_pos hmem]
    exact ⟨rfl, ret_nomem, fun _ => .inr hmem⟩
  · right; right
    rw [if_neg hmem]
    refine ⟨hty, fun hc => hzero ⟨by rw [hc.1]; rfl, hc.2⟩, not_lt.mp hbig, hmem, rfl, rfl⟩

/-- A write of no bytes inside the file keeps what it holds. -/
lemma Agrees.written_nil (h : Agrees x b) (hoff : off ≤ x.len) :
    Agrees (RamfsFile.written x off off []) b := by
  constructor
  · rw [written_len, ← h.size]
    omega
  · intro i hi
    have hnogap : ¬ off > x.len := by omega
    simp only [RamfsFile.written, grown_len, if_neg hnogap, Mem.store_nil]
    rw [grown_data (by rw [h.size]; exact hi)]
    exact h.byte i hi

/-- `f_write` on a ramfs file that may be written: the write at its place, and the offset behind
it. -/
lemma fWrite_ramfs (t : State) (f : FileId) (src : List UInt8) (mem : Bool)
    (hacc : (t.sys.file f).flags &&& O_ACCMODE ≠ O_RDONLY) (hoff : t.writeOff f < 2 ^ 64) :
    fWrite ramfsOps t.sys.fs mem (t.sys.file f) src =
      ((ramfsWrite t.sys.fs (t.sys.file f).vn (t.writeOff f) src mem).1,
        { t.sys.file f with
          off := if ret
                (ramfsWrite t.sys.fs (t.sys.file f).vn (t.writeOff f) src mem).2 > 0 then
              ofNat 64 (t.writeOff f) + ofInt 64 (ret
                (ramfsWrite t.sys.fs (t.sys.file f).vn (t.writeOff f) src mem).2)
            else ofNat 64 (t.writeOff f) },
        ret (ramfsWrite t.sys.fs (t.sys.file f).vn (t.writeOff f) src mem).2) := by
  have hnat : (ofNat 64 (t.writeOff f)).toNat = t.writeOff f := by
    rw [toNat_ofNat, Nat.mod_eq_of_lt hoff]
  rw [fWrite, if_neg hacc]
  by_cases happ : (t.sys.file f).flags &&& O_APPEND ≠ 0
  · have hbase : t.writeOff f = ramfsGetattr t.sys.fs (t.sys.file f).vn := if_pos happ
    rw [hbase] at hnat ⊢
    simp only [if_pos happ, ramfsOps, hnat]
    split_ifs
    · rfl
    · rfl
  · have hbase : t.writeOff f = (t.sys.file f).off.toNat := if_neg happ
    rw [hbase]
    simp only [if_neg happ, ramfsOps, BitVec.ofNat_toNat, BitVec.setWidth_eq]
    split_ifs
    · rfl
    · rfl

namespace State

variable {t u : State}

/-! ## The invariant -/

/-- Every file holds what it is to hold, no file is larger than a file can be, and every offset is
one that `f_lseek` gives. -/
structure Inv (t : State) : Prop where
  agrees : ∀ n, Agrees (t.sys.fs.node n) (t.ref n)
  max : ∀ n, (t.sys.fs.node n).len ≤ RAMFS_MAX_FILE
  off : ∀ f, (t.sys.file f).off.toNat < 2 ^ 63

lemma Start.inv (h : t.Start) : t.Inv := by
  refine ⟨fun n => ?_, fun n => ?_, fun f => ?_⟩
  · rw [h.ref n]
    exact ⟨h.empty n, fun _ hi => absurd hi (Nat.not_lt_zero _)⟩
  · rw [h.empty n]
    exact Nat.zero_le _
  · rw [h.off f]
    decide

lemma Inv.holds (h : t.Inv) : t.Holds := by
  refine ⟨fun n => (h.agrees n).size, fun n => (h.agrees n).byte, ?_⟩
  intro f len mem hlen hacc hfile
  have hty : ¬ (t.sys.fs.shell (t.sys.file f).vn).type ≠ .file := not_not.mpr hfile
  rw [fRead, if_neg hacc]
  simp only [ramfsOps, ramfsRead, if_neg hty]
  by_cases hend : (t.sys.file f).off.toNat ≥ (t.sys.fs.node (t.nodeOf f)).len
  · have hsize := (h.agrees (t.nodeOf f)).size
    have hnone : min len ((t.ref (t.nodeOf f)).size - (t.sys.file f).off.toNat) = 0 := by omega
    rw [Bytes.overlap, hnone, Mem.slice_zero]
    rw [nodeOf] at hend
    rw [if_pos hend]
  · have hslice := (h.agrees (t.nodeOf f)).slice hlen (h.max _) (not_le.mp hend)
    rw [nodeOf] at hend hslice
    rw [if_neg hend, hslice]
    rfl

/-- A write goes to a place below 2^63. -/
lemma Inv.writeOff_lt (h : t.Inv) (f : FileId) : t.writeOff f < 2 ^ 63 := by
  have hmax := h.max (t.sys.fs.shell (t.sys.file f).vn).priv
  have hoff := h.off f
  have hval : RAMFS_MAX_FILE = 262144 := rfl
  rw [writeOff, ramfsGetattr]
  split_ifs
  · omega
  · omega
  · omega

variable {n : NodeId}

/-- One node has changed, and what it is to hold. -/
lemma Inv.update (h : t.Inv) {b : Bytes}
    (hfs : u.sys.fs = t.sys.fs.setNode n x) (href : u.ref = Function.update t.ref n b)
    (hx : Agrees x b) (hmax : x.len ≤ RAMFS_MAX_FILE)
    (hoff : ∀ f, (u.sys.file f).off.toNat < 2 ^ 63) : u.Inv := by
  refine ⟨fun m => ?_, fun m => ?_, hoff⟩
  · rw [hfs, href]
    by_cases hm : m = n
    · rw [hm, Fs.setNode_self, Function.update_self]
      exact hx
    · rw [Fs.setNode_of_ne _ _ hm, Function.update_of_ne hm]
      exact h.agrees m
  · rw [hfs]
    by_cases hm : m = n
    · rw [hm, Fs.setNode_self]
      exact hmax
    · rw [Fs.setNode_of_ne _ _ hm]
      exact h.max m

/-- The nodes and what they are to hold have not changed. -/
lemma Inv.same (h : t.Inv) (hnode : u.sys.fs.node = t.sys.fs.node) (href : u.ref = t.ref)
    (hoff : ∀ f, (u.sys.file f).off.toNat < 2 ^ 63) : u.Inv := by
  refine ⟨fun m => ?_, fun m => ?_, hoff⟩
  · rw [hnode, href]
    exact h.agrees m
  · rw [hnode]
    exact h.max m

/-! ## One event -/

/-- The offset behind a write is one that `f_lseek` gives. -/
lemma offset_lt {r : ℤ} (hoff : off < 2 ^ 63)
    (hr : r ≤ 0 ∨ ∃ len : ℕ, r = len ∧ off + len ≤ RAMFS_MAX_FILE) :
    (if r > 0 then ofNat 64 off + ofInt 64 r
      else ofNat 64 off : BitVec 64).toNat < 2 ^ 63 := by
  have hval : RAMFS_MAX_FILE = 262144 := rfl
  have hnat : (ofNat 64 off).toNat = off := by
    rw [toNat_ofNat, Nat.mod_eq_of_lt (by omega)]
  split
  · next hpos =>
    obtain hneg | ⟨len, rfl, hle⟩ := hr
    · omega
    · rw [BitVec.ofInt_natCast, BitVec.toNat_add, hnat, toNat_ofNat]
      omega
  · rw [hnat]
    exact hoff

/-- The offsets after one file has changed. -/
lemma Inv.off_update (h : t.Inv) {f : FileId} {x : File ShellId} (hx : x.off.toNat < 2 ^ 63)
    (g : FileId) : (Function.update t.sys.file f x g).off.toNat < 2 ^ 63 := by
  by_cases hg : g = f
  · rw [hg, Function.update_self]
    exact hx
  · rw [Function.update_of_ne hg]
    exact h.off g

/-- The node is now empty: it holds what it is to hold if it was empty before. -/
lemma Inv.emptied (h : t.Inv)
    (hfs : u.sys.fs = t.sys.fs.setNode n { t.sys.fs.node n with len := 0 }) (href : u.ref = t.ref)
    (hoff : ∀ f, (u.sys.file f).off.toNat < 2 ^ 63) :
    ((t.sys.fs.node n).len = 0 → u.Inv) ∧ (u.Holds → (t.sys.fs.node n).len = 0) := by
  have hag := h.agrees n
  constructor
  · intro hempty
    apply h.update hfs (b := t.ref n)
    · rw [href, Function.update_eq_self]
    · exact ⟨by rw [← hag.size, hempty], hag.byte⟩
    · exact Nat.zero_le _
    · exact hoff
  · intro hholds
    have hlen : (u.sys.fs.node n).len = 0 := by
      rw [hfs]
      exact congrArg RamNode.len (Fs.setNode_self _ _ _)
    rw [hag.size, ← href, ← hholds.size n, hlen]

/-- No byte has been written at `off`: the node holds what it is to hold if `off` is inside it. -/
lemma Inv.moved (h : t.Inv)
    (hfs : u.sys.fs = t.sys.fs.setNode n (RamfsFile.written (t.sys.fs.node n) off off []))
    (href : u.ref = t.ref) (hmax : off ≤ RAMFS_MAX_FILE)
    (hoff : ∀ f, (u.sys.file f).off.toNat < 2 ^ 63) :
    (off ≤ (t.sys.fs.node n).len → u.Inv) ∧ (u.Holds → off ≤ (t.sys.fs.node n).len) := by
  have hag := h.agrees n
  constructor
  · intro hin
    apply h.update hfs (b := t.ref n)
    · rw [href, Function.update_eq_self]
    · exact hag.written_nil hin
    · rw [written_len]
      exact max_le (h.max n) hmax
    · exact hoff
  · intro hholds
    have hsize := hholds.size n
    rw [hfs, Fs.setNode_self, written_len, href, ← hag.size] at hsize
    omega

lemma act_write {d : Desc} {f : FileId} (hfd : t.sys.fd d = some f) (src : List UInt8)
    (mem : Bool) :
    act t.sys (.write d src mem) = { t.sys with
      fs := (fWrite ramfsOps t.sys.fs mem (t.sys.file f) src).1
      file := Function.update t.sys.file f
        (fWrite ramfsOps t.sys.fs mem (t.sys.file f) src).2.1 } := by
  simp only [act, Sys.act, Sys.on, hfd, Sys.setFile]

/-- A write keeps the invariant if it is calm, and the files do not hold what they are to hold
after any other. -/
lemma write_step (h : t.Inv) {d : Desc} {src : List UInt8} {mem : Bool}
    (hlen : src.length < 2 ^ 63)
    (hu : u = ⟨act t.sys (.write d src mem), t.nextRef (.write d src mem)⟩) :
    (t.Calm (.write d src mem) → u.Inv) ∧ (u.Holds → t.Calm (.write d src mem)) := by
  cases hfd : t.sys.fd d with
  | none =>
    have hact : act t.sys (.write d src mem) = t.sys := by
      simp only [act, Sys.act, Sys.on, hfd]
    have href : t.nextRef (.write d src mem) = t.ref := by simp only [nextRef, hfd]
    rw [hact, href] at hu
    constructor
    · intro _
      rw [hu]
      exact h
    · intro _ _ f hf
      rw [hfd] at hf
      exact absurd hf (by simp)
  | some f =>
    have hact := act_write hfd src mem
    have hcalm : (src = [] → (t.sys.file f).flags &&& O_ACCMODE ≠ O_RDONLY →
        (t.sys.fs.shell (t.sys.file f).vn).type = .file →
        (t.writeOff f = 0 ∧ (t.sys.fs.node (t.nodeOf f)).len = 0) ∨
          (t.writeOff f ≠ 0 ∧ t.writeOff f ≤ (t.sys.fs.node (t.nodeOf f)).len) ∨
          RAMFS_MAX_FILE < t.writeOff f ∨
          ((t.sys.fs.node (t.nodeOf f)).cap < t.writeOff f ∧ mem = false)) ↔
        t.Calm (.write d src mem) := by
      constructor
      · intro hc hnil g hg
        rw [hfd] at hg
        obtain rfl := Option.some.inj hg
        exact hc hnil
      · intro hc hnil
        exact hc hnil f hfd
    rw [← hcalm]
    by_cases hacc : (t.sys.file f).flags &&& O_ACCMODE = O_RDONLY
    · -- the call is refused
      have hcall : fWrite ramfsOps t.sys.fs mem (t.sys.file f) src
          = (t.sys.fs, t.sys.file f, -EBADF) := if_pos hacc
      have href : t.nextRef (.write d src mem) = t.ref := by
        simp only [nextRef, hfd, hcall]
        exact if_pos (by decide)
      refine ⟨fun _ => ?_, fun _ _ hc => absurd hacc hc⟩
      apply h.same
      · rw [hu, hact, hcall]
      · rw [hu, href]
      · rw [hu, hact, hcall]
        exact h.off_update (h.off f)
    have hoff := h.writeOff_lt f
    have hcall := fWrite_ramfs t f src mem hacc (by omega)
    have hfiles : ret
          (ramfsWrite t.sys.fs (t.sys.file f).vn (t.writeOff f) src mem).2 ≤ 0 ∨
        (∃ len : ℕ, ret
          (ramfsWrite t.sys.fs (t.sys.file f).vn (t.writeOff f) src mem).2 = len ∧
          t.writeOff f + len ≤ RAMFS_MAX_FILE) →
        ∀ g, (u.sys.file g).off.toNat < 2 ^ 63 := by
      intro hr
      rw [hu, hact, hcall]
      exact h.off_update (offset_lt hoff hr)
    have hfs : u.sys.fs
        = (ramfsWrite t.sys.fs (t.sys.file f).vn (t.writeOff f) src mem).1 := by
      rw [hu, hact, hcall]
    have href : u.ref = if ret
          (ramfsWrite t.sys.fs (t.sys.file f).vn (t.writeOff f) src mem).2 < 0 then t.ref
        else Function.update t.ref (t.nodeOf f)
          ((t.ref (t.nodeOf f)).put (t.writeOff f) src) := by
      rw [hu]
      simp only [nextRef, hfd, hcall]
    have hag := h.agrees (t.nodeOf f)
    have hwrap : t.writeOff f + src.length < 2 ^ 64 := by omega
    obtain ⟨hsame, hneg, hwhy⟩ | ⟨hty, hnil, hzero, hnode, hret⟩
      | ⟨hty, hsome, hmax, hmem, hnode, hret⟩ :=
      ramfsWrite_spec t.sys.fs (t.sys.file f).vn src mem hwrap
    · -- the write fails
      rw [hsame] at hfs
      rw [if_pos hneg] at href
      constructor
      · intro _
        exact h.same (congrArg Fs.node hfs) href (hfiles (.inl hneg.le))
      · intro _ hnil _ hty
        have hlen0 : src.length = 0 := by rw [hnil]; rfl
        have hw := hwhy hty
        rw [hlen0, Nat.add_zero] at hw
        exact .inr (.inr hw)
    · -- the write empties the file
      rw [hnode] at hfs
      rw [if_neg (by omega), hnil, put_nil, Function.update_eq_self] at href
      have hboth := h.emptied hfs href (hfiles (.inl hret.le))
      constructor
      · intro hc
        apply hboth.1
        rcases hc hnil hacc hty with ⟨-, hl⟩ | ⟨hn, -⟩ | hbig | ⟨hcap, -⟩
        · exact hl
        · exact absurd hzero hn
        · omega
        · omega
      · intro hholds _ _ _
        exact .inl ⟨hzero, hboth.2 hholds⟩
    · -- the write is done
      rw [hnode] at hfs
      rw [if_neg (by omega)] at href
      have hoffs := hfiles (.inr ⟨src.length, hret, hmax⟩)
      by_cases hnil : src = []
      · rw [hnil, List.length_nil, Nat.add_zero] at hfs hmax hmem
        rw [hnil, put_nil, Function.update_eq_self] at href
        have hboth := h.moved hfs href hmax hoffs
        constructor
        · intro hc
          apply hboth.1
          rcases hc hnil hacc hty with ⟨hz, -⟩ | ⟨-, hle⟩ | hbig | hc
          · omega
          · exact hle
          · omega
          · exact absurd hc hmem
        · intro hholds _ _ _
          exact .inr (.inl ⟨fun hz => hsome ⟨hnil, hz⟩, hboth.2 hholds⟩)
      · constructor
        · intro _
          apply h.update hfs href (hag.written hnil) _ hoffs
          rw [written_len]
          exact max_le (h.max _) hmax
        · intro _ hc
          exact absurd hc hnil

/-- `f_read` on ramfs changes nothing. -/
lemma act_read (t : State) (d : Desc) (len : ℕ) (mem : Bool) :
    act t.sys (.read d len mem) = t.sys := by
  cases hfd : t.sys.fd d with
  | none => simp only [act, Sys.act, Sys.on, hfd]
  | some f =>
    have hfs : (fRead ramfsOps t.sys.fs mem (t.sys.file f) len).1 = t.sys.fs := by
      rw [fRead_fs]
      split
      · rfl
      · rfl
    simp only [act, Sys.act, Sys.on, hfd, Sys.setFile, fRead_file, hfs, Function.update_eq_self]

/-- `f_lseek` gives an offset below 2^63, or none. -/
lemma fLseek_off_lt (s : Fs) (mem : Bool) {x : File ShellId} (hx : x.off.toNat < 2 ^ 63)
    (off : BitVec 64) (whence : Whence) :
    (fLseek ramfsOps s mem x off whence).1.off.toNat < 2 ^ 63 := by
  have hpos : ∀ pos : BitVec 64, ¬ pos.toInt < 0 → pos.toNat < 2 ^ 63 := by
    intro pos h
    rw [BitVec.toInt_eq_toNat_cond] at h
    split at h
    · omega
    · omega
  rw [fLseek]
  split
  · exact hx
  · exact hx
  · exact hx
  · split
    · exact hx
    · split
      · exact hx
      · next hneg => exact hpos _ hneg

/-- `O_TRUNC` empties the node. -/
lemma ramfsWrite_truncate {s : Fs} {v : ShellId} (hty : (s.shell v).type ≠ .dir) :
    (ramfsWrite s v 0 [] true).1
      = s.setNode (s.shell v).priv { s.node (s.shell v).priv with len := 0 } := by
  have hfile : (s.shell v).type = .file := by
    cases htype : (s.shell v).type with
    | file => rfl
    | dir => exact absurd htype hty
  rw [ramfsWrite, if_neg (not_not.mpr hfile), if_pos ⟨rfl, rfl⟩]

/-- A calm event keeps the invariant, and the files do not hold what they are to hold after any
other. -/
lemma step_spec (h : t.Inv) {a : Event Fs ShellId Bool} (hstep : t.Step a u) :
    (t.Calm a → u.Inv) ∧ (u.Holds → t.Calm a) := by
  obtain ⟨hen, hu⟩ := hstep
  cases a with
  | write d src mem => exact write_step h hen hu
  | read d len mem =>
    rw [act_read] at hu
    refine ⟨fun _ => ?_, fun _ => trivial⟩
    rw [hu]
    exact h
  | lseek d off whence mem =>
    refine ⟨fun _ => ?_, fun _ => trivial⟩
    cases hfd : t.sys.fd d with
    | none =>
      have hact : act t.sys (.lseek d off whence mem) = t.sys := by
        simp only [act, Sys.act, Sys.on, hfd]
      rw [hact] at hu
      rw [hu]
      exact h
    | some f =>
      have hact : act t.sys (.lseek d off whence mem)
          = t.sys.setFile f (fLseek ramfsOps t.sys.fs mem (t.sys.file f) off whence).1 := by
        simp only [act, Sys.act, Sys.on, hfd]
      rw [hact] at hu
      apply h.same
      · rw [hu]
        rfl
      · rw [hu]
        rfl
      · rw [hu]
        exact h.off_update (fLseek_off_lt _ _ (h.off f) _ _)
  | openFile d f v flags =>
    refine ⟨fun _ => ?_, fun _ => trivial⟩
    have hzero : (0 : BitVec 64).toNat < 2 ^ 63 := by decide
    by_cases htrunc : flags &&& O_TRUNC ≠ 0 ∧ (t.sys.fs.shell v).type ≠ .dir
    · have hsys : truncated t.sys v flags
          = { t.sys with fs := (ramfsWrite t.sys.fs v 0 [] true).1 } := if_pos htrunc
      have href : t.nextRef (.openFile d f v flags)
          = Function.update t.ref (t.sys.fs.shell v).priv .empty := if_pos htrunc
      rw [act, hsys, ramfsWrite_truncate htrunc.2, href] at hu
      apply h.update (n := (t.sys.fs.shell v).priv)
        (x := { t.sys.fs.node (t.sys.fs.shell v).priv with len := 0 }) (b := .empty)
      · rw [hu]
        rfl
      · rw [hu]
      · exact .truncated _
      · exact Nat.zero_le _
      · rw [hu]
        exact h.off_update hzero
    · have hsys : truncated t.sys v flags = t.sys := if_neg htrunc
      have href : t.nextRef (.openFile d f v flags) = t.ref := if_neg htrunc
      rw [act, hsys, href] at hu
      apply h.same
      · rw [hu]
        rfl
      · rw [hu]
      · rw [hu]
        exact h.off_update hzero
  | dup d d' =>
    refine ⟨fun _ => ?_, fun _ => trivial⟩
    rw [hu]
    exact h.same rfl rfl h.off
  | close d =>
    refine ⟨fun _ => ?_, fun _ => trivial⟩
    rw [hu]
    exact h.same rfl rfl h.off
  | other fs => exact absurd hen id

end State

/-- Any calls on any files, with any failures of allocation: the files hold what the writes since
the last `O_TRUNC` have put there, and reads return it, exactly as long as no write of no bytes is
at the start of a file with contents or moves the end of a file. -/
theorem ramfs_file_data {start t : State} {as : List (Event Fs ShellId Bool)} (h : start.Start) :
    Run (Guarded State.Calm State.Step) start as t ↔
      Run (fun t a u => t.Step a u ∧ u.Holds) start as t := by
  apply Run.guarded_iff (I := State.Inv)
  · intro t a u hinv hstep hholds
    obtain ⟨hkeep, hcalm⟩ := State.step_spec hinv hstep
    exact hkeep (hcalm hholds)
  · intro t a u hinv hstep
    obtain ⟨hkeep, hcalm⟩ := State.step_spec hinv hstep
    exact ⟨hcalm, fun hc => (hkeep hc).holds⟩
  · exact h.inv

/-! ## A file of two bytes -/

/-- No file is open, and no byte is written. -/
def fresh : State where
  sys := { fs := oneFile, file := fun _ => ⟨1, 0, 2⟩, fd := fun _ => none }
  ref := fun _ => .empty

lemma fresh_start : fresh.Start := by
  refine ⟨fun n => ?_, fun _ => rfl, fun _ => rfl⟩
  match n with
  | 0 => rfl
  | 1 => rfl
  | n + 2 => rfl

def State.next (t : State) (a : Event Fs ShellId Bool) : State := ⟨State.act t.sys a, t.nextRef a⟩

/-- The file is opened for reading and writing, and `AB` is written. -/
def writeAB : List (Event Fs ShellId Bool) := [.openFile (0, 3) 0 1 2, .write (0, 3) [65, 66] true]

theorem ramfs_file_data_two : Run (fun t a u => t.Step a u ∧ u.Holds) fresh writeAB
    (writeAB.foldl State.next fresh) := by
  rw [← ramfs_file_data fresh_start]
  have hshort : (2 : ℕ) < 2 ^ 63 := by decide
  have henables : Enables (fun t a => State.Calm t a ∧ State.Enabled t a) State.next fresh
      writeAB :=
    ⟨⟨trivial, fun d => by simp [fresh]⟩, ⟨fun hc => absurd hc (by decide), hshort⟩, trivial⟩
  exact Run.of_enables (fun _ _ h => ⟨h.1, h.2, rfl⟩) henables

/-- After `AB`, a write of no bytes at the start of the file empties it. -/
theorem ramfs_file_empties : ∃ t, Run State.Step fresh
    (writeAB ++ [.lseek (0, 3) 0 .set true, .write (0, 3) [] true]) t ∧ ¬ t.Holds := by
  have hshort : (2 : ℕ) < 2 ^ 63 := by decide
  have hnone : (0 : ℕ) < 2 ^ 63 := by decide
  have henables : Enables State.Enabled State.next fresh
      (writeAB ++ [.lseek (0, 3) 0 .set true, .write (0, 3) [] true]) :=
    ⟨fun d => by simp [fresh], hshort, trivial, hnone, trivial⟩
  refine ⟨_, Run.of_enables (fun _ _ h => ⟨h, rfl⟩) henables, fun h => ?_⟩
  -- the node is empty, and two bytes have been written
  have hsize := h.size 1
  exact absurd hsize (by decide)

end MobilePhoneOs.RamfsFile
