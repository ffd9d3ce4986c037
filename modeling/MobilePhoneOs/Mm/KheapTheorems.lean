import MobilePhoneOs.Mm.Kheap
import MobilePhoneOs.Mm.PmmTheorems
import Mathlib.Data.List.GetD

/-!
# The kernel heap law

A `Cell` is one chunk of the heap, free or handed out. `Inv` says that the cells share no
byte, that each carries its header, and that the class lists visit exactly the free ones.
A call takes a cell out, writes inside it and puts it back under its new use, so each
branch of the code is a removal and an insertion.
-/

namespace MobilePhoneOs

open Function (update update_self update_of_ne)

open List (mem_cons mem_cons_self mem_map mem_range pairwise_cons)
namespace Mm
namespace Kheap

open Mem Phys

/-! ## Sizes -/

lemma classSize_bounds : ∀ ci < KM_CLASSES, 16 ≤ classSize ci ∧ classSize ci ≤ 2048 := by
  decide

variable {size : ℕ}

/-- A size goes to the first class that has four bytes more, or to the large path. -/
lemma classOf_spec (h : size + 4 < 2 ^ 64) :
    (classOf size < KM_CLASSES ∧ size + 4 ≤ classSize (classOf size)) ∨
      (classOf size = KM_CLASSES ∧ 2048 < size + 4) := by
  have hadd : add64 size 4 = size + 4 := Nat.mod_eq_of_lt h
  by_cases hlt : classOf size < CLASS_SIZE.length
  · left
    have hfit : add64 size 4 ≤ CLASS_SIZE[classOf size] :=
      of_decide_eq_true (@List.findIdx_getElem _ (fun c => add64 size 4 ≤ c) CLASS_SIZE hlt)
    refine ⟨hlt, ?_⟩
    rw [classSize, List.getD_eq_getElem _ _ hlt, ← hadd]
    exact hfit
  · right
    have hle : classOf size ≤ CLASS_SIZE.length := List.findIdx_le_length
    have hlen : classOf size = CLASS_SIZE.length := by omega
    refine ⟨hlen, ?_⟩
    -- the largest class would have taken a smaller size
    by_contra hsmall
    apply hlt
    apply List.findIdx_lt_length_of_exists
    refine ⟨2048, by decide, ?_⟩
    exact decide_eq_true (by omega)

/-- A large size that the arithmetic is right for fills its span, and its canary too. -/
lemma large_spec (hok : SizeOk size) (hcls : classOf size = KM_CLASSES)
    (hpos : 0 < largePages size) (hle : largePages size ≤ KM_LARGE_MAX / PAGE_SIZE) :
    size < KM_LARGE_MAX ∧ HDR_SIZE + size ≤ largePages size * PAGE_SIZE ∧
      (largeCanary size → HDR_SIZE + size + 4 ≤ largePages size * PAGE_SIZE) := by
  obtain ⟨hmax, hmod⟩ := hok.2 hcls hpos hle
  simp only [largePages, add64, HDR_SIZE, PAGE_SIZE, KM_LARGE_MAX] at *
  refine ⟨hmax, by omega, fun hcan => ?_⟩
  have hrest := of_decide_eq_true hcan
  simp only [add64, HDR_SIZE, PAGE_SIZE] at hrest
  omega

/-- A canary of a span is checked exactly where one was written. -/
lemma haveCanary_zero (h : size < KM_LARGE_MAX) :
    haveCanary 0 size = largeCanary size := by
  have hkm : KM_LARGE_MAX = 65536 := rfl
  have hH : HDR_SIZE = 16 := rfl
  have h32 : (size + HDR_SIZE) % 2 ^ 32 = size + HDR_SIZE := Nat.mod_eq_of_lt (by omega)
  have h64 : add64 size HDR_SIZE = size + HDR_SIZE := Nat.mod_eq_of_lt (by omega)
  simp only [haveCanary, largeCanary, h32, h64, ne_eq, not_true_eq_false, if_false]

/-! ## Stores inside a range -/

variable {owned : List ℕ} {a n : ℕ}

lemma covers_sub {b m : ℕ} (h : Covers owned a n) (hlo : a ≤ b)
    (hhi : b + m ≤ a + n) : Covers owned b m := by
  intro i hi
  have := h (b - a + i) (by omega)
  rwa [← Nat.add_assoc, Nat.add_sub_cancel' hlo] at this

lemma covers_mono {owned' : List ℕ} (h : Covers owned a n)
    (hsub : ∀ f ∈ owned, f ∈ owned') : Covers owned' a n :=
  fun i hi => hsub _ (h i hi)

variable {pa : ℕ}

lemma covers_span (hal : pa % PAGE_SIZE = 0)
    (h : ∀ f ∈ Pmm.span pa n, f ∈ owned) : Covers owned pa (n * PAGE_SIZE) := by
  intro i hi
  apply h
  refine mem_map.mpr ⟨i / PAGE_SIZE, ?_, ?_⟩
  · exact mem_range.mpr (Nat.div_lt_of_lt_mul (by rwa [Nat.mul_comm]))
  · simp only [alignDown, PAGE_SIZE] at *
    omega

/-- The change from `p` to `p'` stays within `[lo, hi)`. -/
structure Into (lo hi : ℕ) (p p' : Phys) : Prop where
  owned : p'.owned = p.owned
  stray : p.stray = [] → p'.stray = []
  outside : ∀ x, x < lo ∨ hi ≤ x → p'.mem x = p.mem x

variable {hi lo : ℕ}

lemma Into.refl (p : Phys) : Into lo hi p p := ⟨rfl, id, fun _ _ => rfl⟩

variable {p : Phys}

variable {p' : Phys}

lemma Into.write {bytes : List UInt8} (h : Into lo hi p p')
    (hcov : Covers p.owned lo (hi - lo)) (hlo : lo ≤ a) (hhi : a + bytes.length ≤ hi) :
    Into lo hi p (p'.write a bytes) := by
  have hin : Covers p'.owned a bytes.length := by
    rw [h.owned]
    exact covers_sub hcov hlo (by omega)
  refine ⟨h.owned, fun hs => ?_, fun x hx => ?_⟩
  · rw [Phys.write, if_pos hin]
    exact h.stray hs
  · rw [← h.outside x hx]
    rcases hx with hx | hx
    · exact store_of_lt (by omega)
    · exact store_of_ge (by omega)

lemma Into.st {v : ℕ} (h : Into lo hi p p')
    (hcov : Covers p.owned lo (hi - lo)) (hlo : lo ≤ a) (hhi : a + n ≤ hi) :
    Into lo hi p (p'.st a n v) :=
  h.write hcov hlo (by rwa [leBytes_length])

lemma Into.memset {b : UInt8} (h : Into lo hi p p')
    (hcov : Covers p.owned lo (hi - lo)) (hlo : lo ≤ a) (hhi : a + n ≤ hi) :
    Into lo hi p (p'.memset a b n) :=
  h.write hcov hlo (by rwa [List.length_replicate])

@[simp] lemma st_mem (p : Phys) (a n v : ℕ) : (p.st a n v).mem = put p.mem a n v := rfl

lemma load_memset {q m : ℕ} {b : UInt8} (h : q + m ≤ a ∨ a + n ≤ q) :
    load (p.memset a b n).mem q m = load p.mem q m :=
  load_store_of_disjoint (by rwa [List.length_replicate])

/-! ## Cells -/

/-- What a chunk is used for: on the list of a class, or handed out for a size. -/
inductive Tag
  | free (ci : ℕ)
  | live (size : ℕ)
deriving DecidableEq

/-- One chunk of the heap, named by its body. -/
structure Cell where
  tag : Tag
  body : ℕ
deriving DecidableEq

namespace Cell

/-- The bytes of the body, up to the next chunk or the end of the span. -/
def cap (c : Cell) : ℕ :=
  match c.tag with
  | .free ci => classSize ci
  | .live size =>
    if classOf size < KM_CLASSES then classSize (classOf size)
    else largePages size * PAGE_SIZE - HDR_SIZE

def start (c : Cell) : ℕ := c.body - HDR_SIZE

def stop (c : Cell) : ℕ := c.body + c.cap

/-- The class field of the header of a live chunk. -/
def clsOf (size : ℕ) : ℕ := if classOf size < KM_CLASSES then classOf size + 1 else 0

def isLive (c : Cell) : Bool :=
  match c.tag with
  | .free _ => false
  | .live _ => true

/-- What the header and the canary hold. -/
def Header (mem : ℕ → UInt8) (c : Cell) : Prop :=
  match c.tag with
  | .free ci => ci < KM_CLASSES ∧ load mem c.start 4 = HDR_MAGIC_FREED ∧
      load mem (c.start + 8) 2 = ci + 1
  | .live size => size < KM_LARGE_MAX ∧ size ≤ c.cap ∧ load mem c.start 4 = HDR_MAGIC_ALLOC ∧
      load mem (c.start + 4) 4 = size ∧ load mem (c.start + 8) 2 = clsOf size ∧
      (clsOf size = 0 → load mem (c.start + 10) 2 = largePages size) ∧
      (haveCanary (clsOf size) size →
        size + 4 ≤ c.cap ∧ load mem (c.body + size) 4 = CANARY_WORD)

/-- A cell in order. -/
structure Ok (p : Phys) (c : Cell) : Prop where
  low : HDR_SIZE ≤ c.body
  high : c.stop ≤ 2 ^ 64
  room : 16 ≤ c.cap
  covered : Covers p.owned c.start (c.stop - c.start)
  header : c.Header p.mem

/-- The bytes that the holder of a block may change. -/
def Used (c : Cell) (x : ℕ) : Prop :=
  match c.tag with
  | .free _ => False
  | .live size => c.body ≤ x ∧ x < c.body + size

variable {c : Cell}

/-- A cell stays in order while its header and canary, or list link, are left alone. -/
lemma Ok.congr {p' : Phys} (h : c.Ok p)
    (hcov : Covers p'.owned c.start (c.stop - c.start))
    (hmem : ∀ x, c.start ≤ x → x < c.stop → ¬ c.Used x → p'.mem x = p.mem x) : c.Ok p' := by
  have hlow := h.low
  have hbody : c.body = c.start + HDR_SIZE := by
    show c.body = c.body - HDR_SIZE + HDR_SIZE
    omega
  have hstop : c.stop = c.body + c.cap := rfl
  have hload : ∀ a n, c.start ≤ a → a + n ≤ c.stop →
      (∀ x, a ≤ x → x < a + n → ¬ c.Used x) → load p'.mem a n = load p.mem a n := by
    intro a n hlo hhi hun
    apply load_congr
    intro i hi
    exact hmem _ (by omega) (by omega) (hun _ (by omega) (by omega))
  refine ⟨h.low, h.high, h.room, hcov, ?_⟩
  have hhdr := h.header
  obtain ⟨tag, body⟩ := c
  cases tag with
  | free ci =>
    obtain ⟨h1, h2, h3⟩ := hhdr
    refine ⟨h1, ?_, ?_⟩
    · rw [hload _ _ le_rfl (by simp only [HDR_SIZE] at *; omega) fun _ _ _ hc => hc]
      exact h2
    · rw [hload _ _ (by omega) (by simp only [HDR_SIZE] at *; omega) fun _ _ _ hc => hc]
      exact h3
  | live size =>
    -- the header lies below the body, the canary behind the bytes in use
    have hhead : ∀ a n, a + n ≤ body → ∀ x, a ≤ x → x < a + n → ¬ Used ⟨.live size, body⟩ x := by
      intro a n hle x _ hx hc
      have : body ≤ x := hc.1
      omega
    obtain ⟨h1, h2, h3, h4, h5, h6, h7⟩ := hhdr
    simp only at hbody hstop
    refine ⟨h1, h2, ?_, ?_, ?_, fun hz => ?_, fun hc => ⟨(h7 hc).1, ?_⟩⟩
    · rw [hload _ _ le_rfl (by simp only [HDR_SIZE] at *; omega)
        (hhead _ _ (by simp only [HDR_SIZE] at *; omega))]
      exact h3
    · rw [hload _ _ (by omega) (by simp only [HDR_SIZE] at *; omega)
        (hhead _ _ (by simp only [HDR_SIZE] at *; omega))]
      exact h4
    · rw [hload _ _ (by omega) (by simp only [HDR_SIZE] at *; omega)
        (hhead _ _ (by simp only [HDR_SIZE] at *; omega))]
      exact h5
    · rw [hload _ _ (by omega) (by simp only [HDR_SIZE] at *; omega)
        (hhead _ _ (by simp only [HDR_SIZE] at *; omega))]
      exact h6 hz
    · have hcap := (h7 hc).1
      rw [hload _ _ (by show _ ≤ body + size; omega) (by show body + size + 4 ≤ _; omega) ?_]
      · exact (h7 hc).2
      · intro x hx _ hu
        have : x < body + size := hu.2
        have : body + size ≤ x := hx
        omega

/-- Two cells share no byte. -/
def Disj (c d : Cell) : Prop := Apart c.start c.stop d.start d.stop

lemma Disj.symm {d : Cell} (h : c.Disj d) : d.Disj c := h.elim .inr .inl

instance : Std.Symm Disj := ⟨fun _ _ h => h.symm⟩

lemma Ok.start_lt (h : c.Ok p) : c.start < c.stop := by
  have hroom := h.room
  show c.body - HDR_SIZE < c.body + c.cap
  omega

end Cell

/-! ## The invariant -/

/-- The end mark of a class list. -/
abbrev IsNull (a : ℕ) : Prop := a = 0

/-- The links of the class lists. -/
def link (p : Phys) (a : ℕ) : ℕ := load p.mem a 8

/-- The cells are in order and disjoint, and the class lists visit the free ones. -/
structure Inv (h : Kheap) (fl : ℕ → List ℕ) (cells : List Cell) : Prop where
  clean : h.phys.stray = []
  linked : ∀ ci < KM_CLASSES, Chain.Linked (link h.phys) IsNull (h.freelist ci) (fl ci)
  mem_free : ∀ ci < KM_CLASSES, ∀ b, b ∈ fl ci ↔ ⟨.free ci, b⟩ ∈ cells
  ok : ∀ c ∈ cells, c.Ok h.phys
  disj : cells.Pairwise Cell.Disj

section

variable {h h' : Kheap} {fl : ℕ → List ℕ} {cells : List Cell}

/-- The invariant reads the lists, the headers and the links only. -/
lemma Inv.congr (hi : Inv h fl cells) (hclean : h'.phys.stray = [])
    (hfree : h'.freelist = h.freelist)
    (hcov : ∀ c ∈ cells, Covers h'.phys.owned c.start (c.stop - c.start))
    (hmem : ∀ c ∈ cells, ∀ x, c.start ≤ x → x < c.stop → ¬ c.Used x →
      h'.phys.mem x = h.phys.mem x) : Inv h' fl cells := by
  refine ⟨hclean, fun ci hci => ?_, hi.mem_free, fun c hc => ?_, hi.disj⟩
  · rw [hfree]
    apply (hi.linked ci hci).congr
    intro a ha
    have hc := (hi.mem_free ci hci a).mp ha
    have hok := hi.ok _ hc
    have hroom := hok.room
    apply load_congr
    intro i hlt
    refine hmem _ hc _ ?_ ?_ fun hu => hu
    · show a - HDR_SIZE ≤ a + i
      omega
    · show a + i < a + Cell.cap _
      omega
  · exact (hi.ok c hc).congr (hcov c hc) (hmem c hc)

/-- A change inside a range that no cell meets. -/
lemma Inv.into {k : KheapStats} (hinv : Inv h fl cells)
    (hp : Into lo hi h.phys p') (hap : ∀ c ∈ cells, Apart lo hi c.start c.stop) :
    Inv { h with phys := p', kstats := k } fl cells := by
  refine hinv.congr (hp.stray hinv.clean) rfl (fun c hc => ?_) fun c hc x hlo hhi _ => ?_
  · rw [hp.owned]
    exact (hinv.ok c hc).covered
  · refine hp.outside x ?_
    rcases hap c hc with hap | hap
    · exact .inr (by omega)
    · exact .inl (by omega)

lemma Inv.perm {cells' : List Cell} (hi : Inv h fl cells) (hp : cells'.Perm cells) :
    Inv h fl cells' :=
  ⟨hi.clean, hi.linked, fun ci hci b => by rw [hi.mem_free ci hci b, hp.mem_iff],
    fun c hc => hi.ok c (hp.subset hc),
    (hp.pairwise_iff fun hcd => hcd.symm).mpr hi.disj⟩

variable {body size : ℕ}

/-- A handed-out cell is put in. -/
lemma Inv.addLive (hi : Inv h fl cells) (hok : Cell.Ok h.phys ⟨.live size, body⟩)
    (hd : ∀ d ∈ cells, Cell.Disj ⟨.live size, body⟩ d) :
    Inv h fl (⟨.live size, body⟩ :: cells) := by
  refine ⟨hi.clean, hi.linked, fun ci hci b => ?_, ?_, pairwise_cons.mpr ⟨hd, hi.disj⟩⟩
  · rw [hi.mem_free ci hci b, mem_cons]
    simp
  · exact List.forall_mem_cons.mpr ⟨hok, hi.ok⟩

/-- A handed-out cell is taken out. -/
lemma Inv.removeLive (hi : Inv h fl (⟨.live size, body⟩ :: cells)) :
    Inv h fl cells ∧ ∀ d ∈ cells, Cell.Disj ⟨.live size, body⟩ d := by
  obtain ⟨hd, hdisj⟩ := pairwise_cons.mp hi.disj
  refine ⟨⟨hi.clean, hi.linked, fun ci hci b => ?_, ?_, hdisj⟩, hd⟩
  · rw [hi.mem_free ci hci b, mem_cons]
    simp
  · exact fun c hc => hi.ok c (List.mem_cons_of_mem _ hc)

variable {ci : ℕ}

/-- A chunk written inside its own bytes goes in front of its class list. -/
lemma Inv.push {k : KheapStats} (hi : Inv h fl cells)
    (hci : ci < KM_CLASSES) (hok : Cell.Ok p' ⟨.free ci, body⟩)
    (hp : Into (Cell.start ⟨.free ci, body⟩) (Cell.stop ⟨.free ci, body⟩) h.phys p')
    (hlink : link p' body = h.freelist ci) (hd : ∀ d ∈ cells, Cell.Disj ⟨.free ci, body⟩ d) :
    Inv ⟨p', update h.freelist ci body, k⟩ (update fl ci (body :: fl ci))
      (⟨.free ci, body⟩ :: cells) := by
  have hin := hi.into (k := k) hp hd
  refine ⟨hin.clean, fun cj hcj => ?_, fun cj hcj b => ?_, ?_,
    pairwise_cons.mpr ⟨hd, hi.disj⟩⟩
  · by_cases hj : cj = ci
    · subst hj
      simp only [update_self]
      have hlow := hok.low
      refine Chain.linked_cons.mpr ⟨rfl, ?_, ?_⟩
      · simp only [HDR_SIZE] at hlow
        omega
      · rw [hlink]
        exact hin.linked cj hcj
    · simp only [update_of_ne hj]
      exact hin.linked cj hcj
  · by_cases hj : cj = ci
    · subst hj
      rw [update_self, mem_cons, mem_cons, hi.mem_free cj hcj b]
      simp
    · rw [update_of_ne hj, mem_cons, hi.mem_free cj hcj b]
      simp [hj]
  · exact List.forall_mem_cons.mpr ⟨hok, hin.ok⟩

/-- The head of a class list is taken off. -/
lemma Inv.pop (hi : Inv h fl cells) (hci : ci < KM_CLASSES) (hne : h.freelist ci ≠ 0) :
    ∃ fl' rest, cells.Perm (⟨.free ci, h.freelist ci⟩ :: rest) ∧
      (∀ d ∈ rest, Cell.Disj ⟨.free ci, h.freelist ci⟩ d) ∧
      Inv { h with freelist := update h.freelist ci (link h.phys (h.freelist ci)) }
        fl' rest := by
  have hl := hi.linked ci hci
  generalize hhead : h.freelist ci = body at *
  cases hfl : fl ci with
  | nil =>
    rw [hfl] at hl
    exact absurd (Chain.linked_nil.mp hl) hne
  | cons a tl =>
    rw [hfl] at hl
    obtain ⟨rfl, _, hrest⟩ := Chain.linked_cons.mp hl
    have hnd := hl.nodup
    have hmem : ⟨.free ci, body⟩ ∈ cells :=
      (hi.mem_free ci hci body).mp (by rw [hfl]; exact mem_cons_self)
    have hperm := List.perm_cons_erase hmem
    have hinv := hi.perm hperm.symm
    obtain ⟨hd, hdisj⟩ := pairwise_cons.mp hinv.disj
    have hnot : ⟨.free ci, body⟩ ∉ cells.erase ⟨.free ci, body⟩ := by
      intro hc
      have hlt := (hi.ok _ hmem).start_lt
      rcases hd _ hc with hc | hc <;> omega
    refine ⟨update fl ci tl, _, hperm, hd, ⟨hi.clean, fun cj hcj => ?_,
      fun cj hcj b => ?_, fun c hc => hinv.ok c (List.mem_cons_of_mem _ hc), hdisj⟩⟩
    · by_cases hj : cj = ci
      · subst hj
        simp only [update_self]
        exact hrest
      · simp only [update_of_ne hj]
        exact hi.linked cj hcj
    · have hb := hinv.mem_free cj hcj b
      by_cases hj : cj = ci
      · subst hj
        rw [update_self]
        rw [hfl, mem_cons, mem_cons] at hb
        by_cases hba : b = body
        · subst hba
          exact iff_of_false (List.nodup_cons.mp hnd).1 hnot
        · simpa [hba] using hb
      · rw [update_of_ne hj, hb, mem_cons]
        simp [hj]

lemma Inv.head_lt (hi : Inv h fl cells) (hci : ci < KM_CLASSES) :
    h.freelist ci < 2 ^ 64 := by
  by_cases h0 : h.freelist ci = 0
  · rw [h0]
    exact Nat.two_pow_pos 64
  obtain ⟨_, rest, hperm, _, _⟩ := hi.pop hci h0
  have hok := hi.ok _ (hperm.mem_iff.mpr mem_cons_self)
  have hroom := hok.room
  have hhigh : h.freelist ci + Cell.cap ⟨.free ci, h.freelist ci⟩ ≤ 2 ^ 64 := hok.high
  omega

/-! ## Growing a class -/

/-- The stores that make a chunk of a fresh frame, with the list head as its link. -/
def freshChunk (p : Phys) (hdr ci head : ℕ) : Phys :=
  ((((p.st hdr 4 HDR_MAGIC_FREED).st (hdr + 4) 4 0).st (hdr + 8) 2 (ci + 1)).st
    (hdr + 10) 2 0).st (hdr + HDR_SIZE) 8 head

lemma freshChunk_spec (p : Phys) (hdr : ℕ) (head : ℕ) (hci : ci < KM_CLASSES)
    (hcov : Covers p.owned hdr (HDR_SIZE + classSize ci)) (hhead : head < 2 ^ 64)
    (hhigh : hdr + (HDR_SIZE + classSize ci) ≤ 2 ^ 64) :
    Into hdr (hdr + (HDR_SIZE + classSize ci)) p (freshChunk p hdr ci head) ∧
      Cell.Ok (freshChunk p hdr ci head) ⟨.free ci, hdr + HDR_SIZE⟩ ∧
      link (freshChunk p hdr ci head) (hdr + HDR_SIZE) = head := by
  obtain ⟨hlo, hup⟩ := classSize_bounds ci hci
  have hstart : Cell.start ⟨.free ci, hdr + HDR_SIZE⟩ = hdr := Nat.add_sub_cancel _ _
  have hstop : Cell.stop ⟨.free ci, hdr + HDR_SIZE⟩ = hdr + (HDR_SIZE + classSize ci) :=
    Nat.add_assoc _ _ _
  have hlen : hdr + (HDR_SIZE + classSize ci) - hdr = HDR_SIZE + classSize ci :=
    Nat.add_sub_cancel_left _ _
  have hsize : HDR_SIZE = 16 := rfl
  have hinto : Into hdr (hdr + (HDR_SIZE + classSize ci)) p (freshChunk p hdr ci head) := by
    rw [← hlen] at hcov
    exact (((((Into.refl p).st hcov le_rfl (by omega)).st hcov (by omega) (by omega)).st
      hcov (by omega) (by omega)).st hcov (by omega) (by omega)).st hcov (by omega) (by omega)
  refine ⟨hinto, ⟨Nat.le_add_left _ _, hstop ▸ hhigh, hlo, ?_, hci, ?_, ?_⟩, ?_⟩
  · rw [hinto.owned, hstart, hstop, hlen]
    exact hcov
  · rw [hstart]
    simp (disch := omega) only [freshChunk, st_mem, load_put_of_disjoint, load_put]
    decide
  · rw [hstart]
    simp (disch := omega) only [freshChunk, st_mem, load_put_of_disjoint, load_put]
    simp only [KM_CLASSES] at hci
    omega
  · rw [link, freshChunk, st_mem, load_put]
    exact Nat.mod_eq_of_lt hhead

variable {pa : ℕ}

/-- `grow_slab` adds free cells inside the frame. -/
lemma carve_spec (hci : ci < KM_CLASSES) (n : ℕ) (hi : Inv h fl cells)
    (hcov : Covers h.phys.owned pa (n * (HDR_SIZE + classSize ci)))
    (hhigh : pa + n * (HDR_SIZE + classSize ci) ≤ 2 ^ 64)
    (hap : ∀ c ∈ cells, Apart pa (pa + n * (HDR_SIZE + classSize ci)) c.start c.stop) :
    ∃ fl' new, Inv (carve ci pa n h) fl' (new ++ cells) ∧ (∀ c ∈ new, ∃ cj, c.tag = .free cj) ∧
      (carve ci pa n h).phys.owned = h.phys.owned ∧
      (0 < n → (carve ci pa n h).freelist ci ≠ 0) := by
  induction n generalizing h fl cells with
  | zero => exact ⟨fl, [], hi, by simp, rfl, fun hc => absurd hc (lt_irrefl _)⟩
  | succ n ih =>
    -- the last chunk becomes the head of the list, the others are below it
    set sz := HDR_SIZE + classSize ci with hsz
    set hdr := pa + n * sz with hhdr
    have hsucc : (n + 1) * sz = n * sz + sz := Nat.succ_mul _ _
    rw [hsucc] at hcov hhigh hap
    obtain ⟨hinto, hok, hlink⟩ := freshChunk_spec h.phys hdr (h.freelist ci) hci
      (covers_sub hcov (by omega) (by omega)) (hi.head_lt hci) (by omega)
    have hstart : Cell.start ⟨.free ci, hdr + HDR_SIZE⟩ = hdr := Nat.add_sub_cancel _ _
    have hstop : Cell.stop ⟨.free ci, hdr + HDR_SIZE⟩ = hdr + sz := Nat.add_assoc _ _ _
    have hd : ∀ d ∈ cells, Cell.Disj ⟨.free ci, hdr + HDR_SIZE⟩ d := by
      intro d hdm
      rw [Cell.Disj, hstart, hstop]
      rcases hap d hdm with hc | hc
      · exact .inl (by omega)
      · exact .inr (by omega)
    have hpush := hi.push (k := h.kstats) hci hok (by rwa [hstart, hstop]) hlink hd
    obtain ⟨fl', new, hinv, hnew, howned, hhead⟩ := ih hpush
      (by rw [hinto.owned]; exact covers_sub hcov le_rfl (by omega)) (by omega)
      (List.forall_mem_cons.mpr ⟨by rw [hstart, hstop]; exact .inl (by omega), fun c hc => by
        rcases hap c hc with hc | hc
        · exact .inl (by omega)
        · exact .inr hc⟩)
    refine ⟨fl', new ++ [⟨.free ci, hdr + HDR_SIZE⟩], ?_, ?_, howned.trans hinto.owned, ?_⟩
    · rw [List.append_assoc, List.singleton_append]
      exact hinv
    · intro c hc
      rcases List.mem_append.mp hc with hc | hc
      · exact hnew c hc
      · rw [List.mem_singleton.mp hc]
        exact ⟨ci, rfl⟩
    · intro _
      by_cases hn : 0 < n
      · exact hhead hn
      · obtain rfl : n = 0 := by omega
        show update h.freelist ci (hdr + HDR_SIZE) ci ≠ 0
        rw [update_self]
        exact Nat.succ_ne_zero _

/-! ## Fresh frames -/

/-- Frames the heap does not own meet none of its cells. -/
lemma apart_of_fresh {c : Cell} (hf : Fresh p.owned pa n) (hc : c.Ok p) :
    Apart pa (pa + n * PAGE_SIZE) c.start c.stop := by
  by_contra hmeet
  obtain ⟨h1, h2⟩ := not_or.mp hmeet
  have hlt := hc.start_lt
  have hpos : 0 < n * PAGE_SIZE := Nat.mul_pos hf.pos (by decide)
  -- a common byte
  set x := max pa c.start with hx
  have hspan : alignDown x ∈ Pmm.span pa n := by
    have hin := covers_span (n := n) hf.aligned (fun f hf => hf) (x - pa) (by omega)
    rwa [Nat.add_sub_cancel' (by omega)] at hin
  have howned : alignDown x ∈ p.owned := by
    have hin := hc.covered (x - c.start) (by omega)
    rwa [Nat.add_sub_cancel' (by omega)] at hin
  exact hf.notMem _ hspan howned

lemma Inv.own (frames : List ℕ) (hi : Inv h fl cells) :
    Inv { h with phys := { h.phys with owned := frames ++ h.phys.owned } } fl cells :=
  hi.congr hi.clean rfl
    (fun c hc => covers_mono (hi.ok c hc).covered fun _ hf => List.mem_append_right _ hf)
    fun _ _ _ _ _ _ => rfl

lemma growSlab_spec (hci : ci < KM_CLASSES) (hi : Inv h fl cells)
    (hpa : pa ≠ 0 → Fresh h.phys.owned pa 1) :
    (growSlab h ci pa = (h, false)) ∨
      ∃ h' fl' new, growSlab h ci pa = (h', true) ∧ Inv h' fl' (new ++ cells) ∧
        (∀ c ∈ new, ∃ cj, c.tag = .free cj) ∧ h'.freelist ci ≠ 0 := by
  by_cases h0 : pa = 0
  · exact .inl (by rw [growSlab, if_pos h0])
  right
  have hf := hpa h0
  have hle := hf.le
  have hcount : PAGE_SIZE / (HDR_SIZE + classSize ci) * (HDR_SIZE + classSize ci) ≤ PAGE_SIZE :=
    Nat.div_mul_le_self _ _
  have hpos : 0 < PAGE_SIZE / (HDR_SIZE + classSize ci) := by
    have := (classSize_bounds ci hci).2
    refine Nat.div_pos ?_ ?_ <;> simp only [HDR_SIZE, PAGE_SIZE] <;> omega
  have hcov : Covers (pa :: h.phys.owned) pa PAGE_SIZE := by
    have hone : Covers (pa :: h.phys.owned) pa (1 * PAGE_SIZE) :=
      covers_span hf.aligned (by simp [Pmm.span])
    rwa [Nat.one_mul] at hone
  obtain ⟨fl', new, hinv, hnew, _, hhead⟩ := carve_spec hci
    (PAGE_SIZE / (HDR_SIZE + classSize ci))
    (hi.own [pa]) (covers_sub hcov le_rfl (by omega)) (by omega) (by
      intro c hc
      rcases apart_of_fresh hf (hi.ok c hc) with hap | hap
      · exact .inl (by omega)
      · exact .inr hap)
  exact ⟨_, fl', new, by rw [growSlab, if_neg h0]; rfl, hinv, hnew, hhead hpos⟩

/-! ## Calls -/

/-- The head of a class list becomes a live block. -/
lemma kmallocPop_spec (hi : Inv h fl cells) (hci : ci < KM_CLASSES)
    (hne : h.freelist ci ≠ 0) (hcls : classOf size = ci) (hfit : size + 4 ≤ classSize ci) :
    ∃ h' fl' rest, kmallocPop h ci size = (h', .ret (h.freelist ci)) ∧
      cells.Perm (⟨.free ci, h.freelist ci⟩ :: rest) ∧
      Inv h' fl' (⟨.live size, h.freelist ci⟩ :: rest) := by
  obtain ⟨fl', rest, hperm, hd, hinv⟩ := hi.pop hci hne
  have hok := hi.ok _ (hperm.mem_iff.mpr mem_cons_self)
  obtain ⟨hlo, hup⟩ := classSize_bounds ci hci
  set body := h.freelist ci with hbody
  obtain ⟨_, _, hclsfield⟩ := hok.header
  have hH : HDR_SIZE = 16 := rfl
  have hlow : HDR_SIZE ≤ body := hok.low
  have hstart : Cell.start ⟨.free ci, body⟩ = body - HDR_SIZE := rfl
  have hstop : Cell.stop ⟨.free ci, body⟩ = body + classSize ci := rfl
  have hcap : Cell.cap ⟨.live size, body⟩ = classSize ci := by
    simp only [Cell.cap, hcls, if_pos hci]
  have hstart' : Cell.start ⟨.live size, body⟩ = body - HDR_SIZE := rfl
  have hstop' : Cell.stop ⟨.live size, body⟩ = body + classSize ci := by rw [Cell.stop, hcap]
  have hcov := hok.covered
  have hlt : size < 2 ^ 32 := by omega
  have hkm : KM_LARGE_MAX = 65536 := rfl
  rw [kmallocPop, if_pos (show size < classSize ci by omega), if_pos hlt]
  refine ⟨_, fl', rest, rfl, hperm, ?_⟩
  rw [hstart, hstop] at hcov
  have hinto : Into (body - HDR_SIZE) (body + classSize ci) h.phys
      ((((h.phys.st (body - HDR_SIZE) 4 HDR_MAGIC_ALLOC).st (body - HDR_SIZE + 4) 4 size).st
        (body + size) 4 CANARY_WORD).memset body FILL_BYTE size) :=
    ((((Into.refl h.phys).st hcov le_rfl (by omega)).st hcov (by omega) (by omega)).st
      hcov (by omega) (by omega)).memset hcov (by omega) (by omega)
  refine (hinv.into (k := h.kstats.onAlloc size) hinto hd).addLive ?_ fun d hdm => ?_
  · have hclsOf : Cell.clsOf size = ci + 1 := by rw [Cell.clsOf, hcls, if_pos hci]
    refine ⟨hlow, by rw [hstop', ← hstop]; exact hok.high, by rw [hcap]; exact hlo, ?_,
      by omega, by rw [hcap]; omega, ?_, ?_, ?_, ?_, fun _ => ⟨by rw [hcap]; omega, ?_⟩⟩
    · rw [hstop']
      exact hinto.owned ▸ hcov
    · rw [hstart', load_memset (by omega)]
      simp (disch := omega) only [st_mem, load_put_of_disjoint]
      exact load_put _ _ _ _
    · rw [hstart', load_memset (by omega)]
      simp (disch := omega) only [st_mem, load_put_of_disjoint]
      exact (load_put _ _ _ _).trans (Nat.mod_eq_of_lt (by omega))
    · rw [hstart', load_memset (by omega)]
      simp (disch := omega) only [st_mem, load_put_of_disjoint]
      rw [hclsOf]
      exact hclsfield
    · intro hz
      omega
    · rw [load_memset (by show body + size + 4 ≤ body ∨ body + size ≤ body + size; omega)]
      exact load_put _ _ _ _
  · have := hd d hdm
    rw [Cell.Disj, hstart, hstop] at this
    rw [Cell.Disj, hstop']
    exact this

/-- A large block lies in a fresh span of frames. -/
lemma kmallocLarge_spec {span : ℕ} (hi : Inv h fl cells) (hok : SizeOk size)
    (hcls : classOf size = KM_CLASSES)
    (hspan : span ≠ 0 → Fresh h.phys.owned span (largePages size)) :
    (kmallocLarge h span size = (h, .ret 0)) ∨
      ∃ h' body, kmallocLarge h span size = (h', .ret body) ∧ body ≠ 0 ∧
        Inv h' fl (⟨.live size, body⟩ :: cells) := by
  by_cases hmax : largePages size > KM_LARGE_MAX / PAGE_SIZE
  · exact .inl (by rw [kmallocLarge, if_pos hmax])
  by_cases h0 : span = 0
  · exact .inl (by rw [kmallocLarge, if_neg hmax, if_pos h0])
  right
  have hf := hspan h0
  have hle := hf.le
  obtain ⟨hsize, hroom, hcanary⟩ := large_spec hok hcls hf.pos (by omega)
  have hH : HDR_SIZE = 16 := rfl
  have hkm : KM_LARGE_MAX = 65536 := rfl
  have hnc : ¬ classOf size < KM_CLASSES := by rw [hcls]; exact lt_irrefl _
  have hstart : Cell.start ⟨.live size, span + HDR_SIZE⟩ = span := Nat.add_sub_cancel _ _
  have hcap : Cell.cap ⟨.live size, span + HDR_SIZE⟩ = largePages size * PAGE_SIZE - HDR_SIZE := by
    simp only [Cell.cap, if_neg hnc]
  have hstop : Cell.stop ⟨.live size, span + HDR_SIZE⟩ = span + largePages size * PAGE_SIZE := by
    rw [Cell.stop, hcap]
    show span + HDR_SIZE + _ = _
    omega
  have hclsOf : Cell.clsOf size = 0 := by rw [Cell.clsOf, if_neg hnc]
  have hsame := haveCanary_zero hsize
  have hpages : largePages size < 2 ^ 16 := by
    have : KM_LARGE_MAX / PAGE_SIZE = 16 := by decide
    omega
  have hgrow := hi.own (Pmm.span span (largePages size))
  set p₀ : Phys := { h.phys with owned := Pmm.span span (largePages size) ++ h.phys.owned } with hp₀
  have hcov : Covers p₀.owned span (span + largePages size * PAGE_SIZE - span) := by
    rw [Nat.add_sub_cancel_left]
    exact covers_span hf.aligned fun f hfm => List.mem_append_left _ hfm
  have hap : ∀ c ∈ cells, Apart span (span + largePages size * PAGE_SIZE) c.start c.stop :=
    fun c hc => apart_of_fresh hf (hi.ok c hc)
  have hbig : 2048 < size + 4 := by
    rcases classOf_spec hok.1 with hc | hc
    · exact absurd hc.1 hnc
    · exact hc.2
  set p₁ : Phys := (((p₀.st span 4 HDR_MAGIC_ALLOC).st (span + 4) 4 size).st (span + 8) 2 0).st
    (span + 10) 2 (largePages size) with hp₁
  have hhdr : Into span (span + largePages size * PAGE_SIZE) p₀ p₁ :=
    ((((Into.refl p₀).st hcov le_rfl (by omega)).st hcov (by omega) (by omega)).st
      hcov (by omega) (by omega)).st hcov (by omega) (by omega)
  set p₂ : Phys := if largeCanary size then p₁.st (span + HDR_SIZE + size) 4 CANARY_WORD else p₁
    with hp₂
  -- the canary, if there is room for one, leaves the header alone
  obtain ⟨hinto₂, hload₂, hcan₂⟩ : Into span (span + largePages size * PAGE_SIZE) p₀ p₂ ∧
      (∀ q m, q + m ≤ span + HDR_SIZE → load p₂.mem q m = load p₁.mem q m) ∧
      (largeCanary size → load p₂.mem (span + HDR_SIZE + size) 4 = CANARY_WORD) := by
    by_cases hcan : largeCanary size
    · have hroom4 := hcanary hcan
      rw [hp₂, if_pos hcan]
      refine ⟨hhdr.st hcov (by omega) (by omega), fun q m hq => ?_, fun _ => load_put _ _ _ _⟩
      exact load_put_of_disjoint (.inl (by omega))
    · rw [hp₂, if_neg hcan]
      exact ⟨hhdr, fun _ _ _ => rfl, fun hc => absurd hc hcan⟩
  have hinto := hinto₂.memset (b := FILL_BYTE) (a := span + HDR_SIZE) (n := size)
    hcov (by omega) (by omega)
  refine ⟨{ h with phys := p₂.memset (span + HDR_SIZE) FILL_BYTE size,
                   kstats := h.kstats.onAlloc size }, span + HDR_SIZE, ?_, by omega, ?_⟩
  · rw [kmallocLarge, if_neg hmax, if_neg h0]
  refine (hgrow.into hinto hap).addLive ?_ fun d hdm => ?_
  · refine ⟨Nat.le_add_left _ _, by rw [hstop]; exact hle, by rw [hcap]; omega, ?_, hsize,
      by rw [hcap]; omega, ?_, ?_, ?_, fun _ => ?_, fun hc => ?_⟩
    · rw [hstart, hstop]
      exact hinto.owned ▸ hcov
    · rw [hstart, load_memset (by omega), hload₂ _ _ (by omega)]
      simp (disch := omega) only [hp₁, st_mem, load_put_of_disjoint]
      exact load_put _ _ _ _
    · rw [hstart, load_memset (by omega), hload₂ _ _ (by omega)]
      simp (disch := omega) only [hp₁, st_mem, load_put_of_disjoint]
      exact (load_put _ _ _ _).trans (Nat.mod_eq_of_lt (by omega))
    · rw [hstart, load_memset (by omega), hload₂ _ _ (by omega), hclsOf]
      simp (disch := omega) only [hp₁, st_mem, load_put_of_disjoint]
      exact load_put _ _ _ _
    · rw [hstart, load_memset (by omega), hload₂ _ _ (by omega)]
      exact (load_put _ _ _ _).trans (Nat.mod_eq_of_lt (by omega))
    · rw [hclsOf, hsame] at hc
      have hroom4 := hcanary hc
      refine ⟨by rw [hcap]; omega, ?_⟩
      rw [load_memset (by simp)]
      exact hcan₂ hc
  · rw [Cell.Disj, hstart, hstop]
    exact hap d hdm

lemma filter_isLive_nil {new : List Cell} (h : ∀ c ∈ new, ∃ ci, c.tag = .free ci) :
    new.filter Cell.isLive = [] := by
  apply List.filter_eq_nil_iff.mpr
  intro c hc
  obtain ⟨ci, htag⟩ := h c hc
  simp [Cell.isLive, htag]

/-- `kmalloc` fails, or hands out a cell that was free or fresh. -/
lemma kmalloc_spec (hi : Inv h fl cells) (hok : SizeOk (normSize size))
    (hpa : pa ≠ 0 → Fresh h.phys.owned pa (asked size)) :
    (∃ h', kmalloc h pa size = (h', .ret 0) ∧ Inv h' fl cells) ∨
      ∃ h' fl' body rest, kmalloc h pa size = (h', .ret body) ∧ body ≠ 0 ∧
        Inv h' fl' (⟨.live (normSize size), body⟩ :: rest) ∧
        (rest.filter Cell.isLive).Perm (cells.filter Cell.isLive) := by
  rcases classOf_spec hok.1 with ⟨hlt, hfit⟩ | ⟨hlarge, _⟩
  · have hne : ¬ classOf (normSize size) = KM_CLASSES := by omega
    rw [kmalloc]
    simp only [if_neg hne]
    rw [asked, if_neg hne] at hpa
    by_cases hempty : h.freelist (classOf (normSize size)) = 0
    · rw [if_pos hempty]
      rcases growSlab_spec hlt hi hpa with heq | ⟨g, flg, new, heq, hg, hnew, hgne⟩
      · refine .inl ⟨h, ?_, hi⟩
        rw [heq, if_neg Bool.false_ne_true]
      · obtain ⟨h', fl', rest, hpop, hperm, hinv⟩ := kmallocPop_spec hg hlt hgne rfl hfit
        refine .inr ⟨h', fl', _, rest, ?_, hgne, hinv, ?_⟩
        · rw [heq, if_pos rfl]
          exact hpop
        · have hfilter := (hperm.filter Cell.isLive).symm
          rw [List.filter_append, filter_isLive_nil hnew] at hfilter
          simpa [Cell.isLive] using hfilter
    · rw [if_neg hempty]
      obtain ⟨h', fl', rest, hpop, hperm, hinv⟩ := kmallocPop_spec hi hlt hempty rfl hfit
      refine .inr ⟨h', fl', _, rest, hpop, hempty, hinv, ?_⟩
      simpa [Cell.isLive] using (hperm.filter Cell.isLive).symm
  · rw [kmalloc]
    simp only [if_pos hlarge]
    rw [asked, if_pos hlarge] at hpa
    rcases kmallocLarge_spec hi hok hlarge hpa with heq | ⟨h', body, heq, hne, hinv⟩
    · exact .inl ⟨h, heq, hi⟩
    · exact .inr ⟨h', fl, body, cells, heq, hne, hinv, .refl _⟩

/-- `kfree` of a live cell: back to its class list, or its frames to the PMM. -/
lemma kfree_spec (hi : Inv h fl (⟨.live size, body⟩ :: cells)) :
    ∃ h' fl' new, kfree h body = (h', .ret 0) ∧ Inv h' fl' (new ++ cells) ∧
      ∀ c ∈ new, ∃ ci, c.tag = .free ci := by
  obtain ⟨hrest, hd⟩ := hi.removeLive
  have hok := hi.ok _ mem_cons_self
  obtain ⟨hsize, hfit, hmagic, hreq, hcls, hpages, hcan⟩ := hok.header
  have hlow : HDR_SIZE ≤ body := hok.low
  have hH : HDR_SIZE = 16 := rfl
  have hroom := hok.room
  have hcov := hok.covered
  set start := Cell.start ⟨.live size, body⟩ with hstart
  have hstart' : start = body - HDR_SIZE := rfl
  have hstop : Cell.stop ⟨.live size, body⟩ = body + Cell.cap ⟨.live size, body⟩ := rfl
  have hcheck : ¬ (haveCanary (Cell.clsOf size) size ∧
      load h.phys.mem (body + size) 4 ≠ CANARY_WORD) := fun hc => hc.2 (hcan hc.1).2
  have hmem : Into start (Cell.stop ⟨.live size, body⟩) h.phys
      (h.phys.memset body POISON_BYTE size) :=
    (Into.refl h.phys).memset hcov (by omega) (by omega)
  unfold kfree
  rw [if_neg (by omega)]
  simp only [← hstart', hmagic, hreq, hcls]
  rw [if_neg (by decide), if_neg (by simp), if_neg hcheck]
  by_cases hslab : classOf size < KM_CLASSES
  · have hclsOf : Cell.clsOf size = classOf size + 1 := if_pos hslab
    have hcap : Cell.cap ⟨.live size, body⟩ = classSize (classOf size) := by
      simp only [Cell.cap, if_pos hslab]
    have hfs : Cell.start ⟨.free (classOf size), body⟩ = start := rfl
    have hfe : Cell.stop ⟨.free (classOf size), body⟩ = Cell.stop ⟨.live size, body⟩ := by
      rw [hstop, hcap]
      rfl
    have hpoison : load (h.phys.memset body POISON_BYTE size).mem (start + 8) 2
        = classOf size + 1 := by
      rw [load_memset (by omega), hcls, hclsOf]
    rw [hclsOf, if_pos (Nat.succ_ne_zero _)]
    simp only [Nat.add_sub_cancel]
    have hinto := (hmem.st (v := HDR_MAGIC_FREED) (a := start) (n := 4) hcov le_rfl
      (by omega)).st (v := h.freelist (classOf size)) (a := body) (n := 8) hcov (by omega)
      (by omega)
    have hfree : Cell.Ok (((h.phys.memset body POISON_BYTE size).st start 4 HDR_MAGIC_FREED).st
        body 8 (h.freelist (classOf size))) ⟨.free (classOf size), body⟩ := by
      refine ⟨hlow, hfe ▸ hok.high, (classSize_bounds _ hslab).1, ?_, hslab, ?_, ?_⟩
      · rw [hfs, hfe, hinto.owned]
        exact hcov
      · rw [hfs, st_mem, load_put_of_disjoint (by omega), st_mem, load_put]
        decide
      · rw [hfs, st_mem, load_put_of_disjoint (by omega), st_mem,
          load_put_of_disjoint (by omega)]
        exact hpoison
    refine ⟨_, update fl (classOf size) (body :: fl (classOf size)),
      [⟨.free (classOf size), body⟩], rfl, ?_, ?_⟩
    · refine hrest.push hslab hfree ?_ ?_ fun d hdm => ?_
      · rw [hfs, hfe]
        exact hinto
      · rw [link, st_mem, load_put]
        exact Nat.mod_eq_of_lt (hi.head_lt hslab)
      · rw [Cell.Disj, hfs, hfe]
        exact hd d hdm
    · intro c hc
      exact ⟨classOf size, by rw [List.mem_singleton.mp hc]⟩
  · have hclsOf : Cell.clsOf size = 0 := if_neg hslab
    have hcap : Cell.cap ⟨.live size, body⟩ = largePages size * PAGE_SIZE - HDR_SIZE := by
      simp only [Cell.cap, if_neg hslab]
    rw [hclsOf, if_neg (by simp), hpages hclsOf]
    refine ⟨_, fl, [], rfl, ?_, by simp⟩
    have hin := hrest.into (k := h.kstats) hmem hd
    refine hin.congr (hmem.stray hi.clean) rfl (fun c hc => ?_) fun _ _ _ _ _ _ => rfl
    -- no page of another cell is among the released ones
    intro i hlt
    have howned : alignDown (c.start + i) ∈ h.phys.owned := (hrest.ok c hc).covered i hlt
    refine List.mem_filter.mpr ⟨howned, decide_eq_true fun hspan => ?_⟩
    obtain ⟨j, hj, heq⟩ := mem_map.mp hspan
    have hj' := mem_range.mp hj
    have hpage : j * PAGE_SIZE + PAGE_SIZE ≤ largePages size * PAGE_SIZE := by
      rw [← Nat.succ_mul]
      exact Nat.mul_le_mul_right _ hj'
    have hdown : alignDown (c.start + i) ≤ c.start + i ∧
        c.start + i < alignDown (c.start + i) + PAGE_SIZE := by
      simp only [alignDown, PAGE_SIZE]
      omega
    rcases hd c hc with hap | hap
    · rw [hstop, hcap] at hap
      omega
    · omega

end

/-! ## The frames behind the heap -/

/-- A span of frames from the free list is fresh for every holder of handed-out frames. -/
lemma fresh_of_free {b : Boot} {s : Pmm.Sys} {l : List ℕ}
    (h0 : 0 ∉ Pmm.frames b) (hs : Pmm.Inv b s l) (hn : 0 < n)
    (hfree : ∀ f ∈ Pmm.span pa n, f ∈ l) (hown : ∀ f ∈ owned, f ∈ s.handed) :
    Fresh owned pa n := by
  have hframe : ∀ f ∈ Pmm.span pa n, Pmm.IsFrame f := fun f hf => hs.isFrame h0 (hfree f hf)
  have hfirst : pa ∈ Pmm.span pa n := mem_map.mpr ⟨0, mem_range.mpr hn, by simp⟩
  have hlast : pa + (n - 1) * PAGE_SIZE ∈ Pmm.span pa n :=
    mem_map.mpr ⟨n - 1, mem_range.mpr (by omega), rfl⟩
  have hnd : (l ++ s.handed).Nodup := hs.perm.nodup_iff.mpr (Pmm.frames_nodup b)
  refine ⟨(hframe _ hfirst).aligned, hn, ?_, fun f hf hfo => ?_⟩
  · have hlt := (hframe _ hlast).lt
    have hal := (hframe _ hfirst).aligned
    simp only [PAGE_SIZE] at *
    omega
  · exact (List.nodup_append.mp hnd).2.2 f (hfree f hf) f (hown f hfo) rfl

section

variable {b : Boot} {s s' : Pmm.Sys} {l : List ℕ} (h0 : 0 ∉ Pmm.frames b) (hs : Pmm.Inv b s l)
include h0 hs

/-- `pmm_alloc` answers with a fresh frame. -/
lemma fresh_pmmAlloc (hcall : Pmm.Step b s (.alloc pa) s')
    (hpa : pa ≠ 0) (hown : ∀ f ∈ owned, f ∈ s.handed) : Fresh owned pa 1 := by
  refine fresh_of_free h0 hs Nat.one_pos (fun f hf => ?_) hown
  obtain ⟨heq, _, _⟩ := hcall
  rw [pmmAlloc] at heq
  cases l with
  | nil =>
    rw [if_pos (Chain.linked_nil.mp hs.linked)] at heq
    exact absurd (Prod.mk.inj heq).2 hpa
  | cons a l =>
    obtain ⟨ha, hne, _⟩ := Chain.linked_cons.mp hs.linked
    have hal : isAligned a = true :=
      Pmm.isAligned_iff.mpr (hs.isFrame h0 mem_cons_self).aligned
    rw [ha, if_neg hne, hal, if_neg (by decide)] at heq
    obtain ⟨_, rfl⟩ := Prod.mk.inj heq
    obtain rfl : f = pa := by simpa [Pmm.span] using hf
    exact mem_cons_self

/-- `pmm_alloc_contig` answers with fresh frames. -/
lemma fresh_pmmAllocContig (hcall : Pmm.Step b s (.allocContig n pa) s')
    (hpa : pa ≠ 0) (hown : ∀ f ∈ owned, f ∈ s.handed) : Fresh owned pa n := by
  obtain ⟨heq, _⟩ := hcall
  have hn : 0 < n := by
    rcases Nat.eq_zero_or_pos n with rfl | hn
    · rw [pmmAllocContig, if_pos rfl] at heq
      simp only [Option.some.injEq, Prod.mk.injEq] at heq
      exact absurd heq.2.2 hpa
    · exact hn
  obtain ⟨mem', p', r, hres, hcase⟩ :=
    Pmm.pmmAllocContig_spec n hs.linked (fun f hf => hs.isFrame h0 hf) hs.count.ge
  rw [hres] at heq
  obtain ⟨_, _, rfl⟩ : s'.mem = mem' ∧ s'.pmm = p' ∧ pa = r := by simpa using heq
  rcases hcase with ⟨hzero, _, _⟩ | htaken
  · exact absurd hzero hpa
  · obtain ⟨pre, run, rest, rfl, _, hperm, _⟩ := htaken.list
    refine fresh_of_free h0 hs hn (fun f hf => ?_) hown
    have := hperm.mem_iff.mpr hf
    simp [this]

end

/-- In every run of the frame allocator its answers are what the heap relies on, and what the
heap then owns is handed out. -/
theorem pmm_answers {b : Boot} (h0 : 0 ∉ Pmm.frames b) {mem : Mem} {ops : List Pmm.Op}
    {s s' : Pmm.Sys} (hrun : Run (Pmm.Step b) (Pmm.Sys.init b mem) ops s)
    (hown : ∀ f ∈ owned, f ∈ s.handed)
    (hcall : n = 1 ∧ Pmm.Step b s (.alloc pa) s' ∨ Pmm.Step b s (.allocContig n pa) s')
    (hpa : pa ≠ 0) : Fresh owned pa n ∧ ∀ f ∈ Pmm.span pa n ++ owned, f ∈ s'.handed := by
  obtain ⟨l, hs⟩ := hrun.invariant (I := fun s => ∃ l, Pmm.Inv b s l) (Pmm.inv_init b mem h0)
    fun _ _ _ hs hstep => Pmm.inv_step h0 hs hstep
  have hmem : s'.handed = Pmm.span pa n ++ s.handed →
      ∀ f ∈ Pmm.span pa n ++ owned, f ∈ s'.handed := fun heq f hf => by
    rw [heq]
    exact List.mem_append.mpr ((List.mem_append.mp hf).imp_right (hown f))
  rcases hcall with ⟨rfl, hcall⟩ | hcall
  · refine ⟨fresh_pmmAlloc h0 hs hcall hpa hown, hmem ?_⟩
    rw [hcall.2.2, if_neg hpa]
    simp [Pmm.span]
  · refine ⟨fresh_pmmAllocContig h0 hs hcall hpa hown, hmem ?_⟩
    rw [hcall.2, if_neg hpa]

/-- A second frame, while the heap owns the first. -/
theorem pmm_answers_second : Fresh [8192] 4096 1 := by
  let b : Boot := ⟨4096, 8192, 16384, 16384⟩
  have hcall : ∀ s pa, (pmmAlloc s.mem s.pmm).2 = pa → Pmm.Step b s (.alloc pa)
      ⟨s.mem, (pmmAlloc s.mem s.pmm).1, if pa = 0 then s.handed else pa :: s.handed⟩ :=
    fun s pa h => ⟨h ▸ rfl, rfl, rfl⟩
  have hrun : Run (Pmm.Step b) (Pmm.Sys.init b fun _ => 0) _ _ :=
    .snoc .nil (hcall _ 8192 (by decide))
  exact (pmm_answers (by decide) hrun (by simp [Pmm.Sys.init])
    (.inl ⟨rfl, hcall _ 4096 (by decide)⟩) (by decide)).1

/-! ## Runs -/

/-- The cell of a block that a caller holds. -/
def Block.cell (b : Block) : Cell := ⟨.live (normSize b.size), b.body⟩

/-- The live cells are those of the blocks that callers hold. -/
structure SysInv (s : Sys) (fl : ℕ → List ℕ) (cells : List Cell) : Prop where
  inv : Inv s.heap fl cells
  live : (cells.filter Cell.isLive).Perm (s.live.map Block.cell)
  running : s.halted = false

section

variable {s s' : Sys} {fl : ℕ → List ℕ} {cells : List Cell}

lemma sysInv_init (mem : ℕ → UInt8) : SysInv (Sys.init mem) (fun _ => []) [] :=
  ⟨⟨rfl, fun _ _ => Chain.linked_nil.mpr rfl, fun _ _ _ => by simp, by simp, List.Pairwise.nil⟩,
    List.Perm.refl _, rfl⟩

lemma le_normSize (size : ℕ) : size ≤ normSize size := by
  unfold normSize
  split_ifs <;> omega

lemma SysInv.cell_mem (hs : SysInv s fl cells) {b : Block} (hb : b ∈ s.live) : b.cell ∈ cells :=
  (List.mem_filter.mp (hs.live.mem_iff.mpr (List.mem_map_of_mem hb))).1

lemma sysInv_kmalloc (hs : SysInv s fl cells) {size : ℕ} {out : Outcome}
    (hok : SizeOk size) (h : Step s (.kmalloc size pa out) s') :
    ∃ fl' cells', SysInv s' fl' cells' := by
  obtain ⟨_, _, hpa, hcall, hlive, hhalt⟩ := h
  have hok' : SizeOk (normSize size) := by
    unfold normSize
    split_ifs
    · decide
    · exact hok
  rcases kmalloc_spec hs.inv hok' hpa with ⟨h', heq, hinv⟩ |
    ⟨h', fl', body, rest, heq, hne, hinv, hrest⟩
  · obtain ⟨hh, rfl⟩ := Prod.mk.inj (hcall.trans heq)
    refine ⟨fl, cells, by rw [hh]; exact hinv, ?_, hhalt⟩
    rw [hlive]
    exact hs.live
  · obtain ⟨hh, rfl⟩ := Prod.mk.inj (hcall.trans heq)
    refine ⟨fl', _, by rw [hh]; exact hinv, ?_, hhalt⟩
    simp only [hlive, if_neg hne, List.map_cons]
    rw [List.filter_cons_of_pos rfl]
    exact (hrest.trans hs.live).cons _

lemma sysInv_kfree (hs : SysInv s fl cells) {body : ℕ} {out : Outcome}
    (h : Step s (.kfree body out) s') : ∃ fl' cells', SysInv s' fl' cells' := by
  obtain ⟨_, b, hb, rfl, hcall, hlive, hhalt⟩ := h
  have hperm := List.perm_cons_erase (hs.cell_mem hb)
  obtain ⟨h', fl', new, heq, hinv, hnew⟩ := kfree_spec (hs.inv.perm hperm.symm)
  obtain ⟨hh, rfl⟩ := Prod.mk.inj (hcall.trans heq)
  refine ⟨fl', _, by rw [hh]; exact hinv, ?_, hhalt⟩
  rw [List.filter_append, filter_isLive_nil hnew, List.nil_append, hlive]
  have hcells : (b.cell :: (cells.erase b.cell).filter Cell.isLive).Perm
      (b.cell :: (s.live.erase b).map Block.cell) := by
    have hf := hperm.symm.filter Cell.isLive
    rw [List.filter_cons_of_pos rfl] at hf
    exact (hf.trans hs.live).trans ((List.perm_cons_erase hb).map Block.cell)
  exact hcells.cons_inv

lemma sysInv_other (hs : SysInv s fl cells) (h : Step s .other s') : SysInv s' fl cells := by
  obtain ⟨_, mem, hmem, rfl⟩ := h
  refine ⟨hs.inv.congr hs.inv.clean rfl (fun c hc => (hs.inv.ok c hc).covered) ?_, hs.live,
    hs.running⟩
  intro c hc x hlo hhi hun
  have hpage : alignDown x ∈ s.heap.phys.owned := by
    have := (hs.inv.ok c hc).covered (x - c.start) (by omega)
    rwa [Nat.add_sub_cancel' hlo] at this
  refine hmem x hpage fun b hb => ?_
  by_contra hin
  have hbc := hs.cell_mem hb
  have hle := le_normSize b.size
  by_cases hsame : c = b.cell
  · -- the byte would be one the holder may use
    subst hsame
    exact hun ⟨by show b.body ≤ x; omega, by show x < b.body + normSize b.size; omega⟩
  · have hd := hs.inv.disj.forall hc hbc hsame
    have hfit : normSize b.size ≤ b.cell.cap := (hs.inv.ok _ hbc).header.2.1
    have hstart : b.cell.start = b.body - HDR_SIZE := rfl
    have hstop : b.cell.stop = b.body + b.cell.cap := rfl
    rcases hd with hd | hd <;> omega

lemma sysInv_step (hs : ∃ fl cells, SysInv s fl cells) {op : Op}
    (h : Guarded SizesOk Step s op s') : ∃ fl cells, SysInv s' fl cells := by
  obtain ⟨fl, cells, hs⟩ := hs
  obtain ⟨hok, h⟩ := h
  cases op with
  | kmalloc size pa out => exact sysInv_kmalloc hs hok h
  | kfree body out => exact sysInv_kfree hs h
  | other => exact ⟨fl, cells, sysInv_other hs h⟩

/-- The chunk of a block lies within its cell. -/
lemma SysInv.stop_le (hs : SysInv s fl cells) {b : Block} (hb : b ∈ s.live) :
    b.body + b.size ≤ b.stop ∧ b.stop ≤ b.cell.stop := by
  obtain ⟨hsize, hfit, _, _, _, _, hcan⟩ := (hs.inv.ok _ (hs.cell_mem hb)).header
  have hle := le_normSize b.size
  have hstop : b.cell.stop = b.body + b.cell.cap := rfl
  by_cases hslab : classOf (normSize b.size) < KM_CLASSES
  · have hcap : b.cell.cap = classSize (classOf (normSize b.size)) := by
      simp only [Block.cell, Cell.cap, if_pos hslab]
    rw [Block.stop, if_pos hslab]
    omega
  · rw [Block.stop, if_neg hslab]
    refine ⟨by omega, ?_⟩
    split_ifs with hc
    · have hroom : normSize b.size + 4 ≤ b.cell.cap := by
        refine (hcan ?_).1
        rw [Cell.clsOf, if_neg hslab, haveCanary_zero hsize]
        exact hc
      omega
    · omega

lemma SysInv.law (hs : SysInv s fl cells) : Law s := by
  have hsub : ∀ b ∈ s.live, b.stop ≤ b.cell.stop := fun b hb => (hs.stop_le hb).2
  refine ⟨hs.running, hs.inv.clean, fun b hb => ⟨(hs.stop_le hb).1, ?_⟩, ?_, fun ci hci => ?_⟩
  · have hcov := (hs.inv.ok _ (hs.cell_mem hb)).covered
    have hle := hsub b hb
    refine covers_sub hcov le_rfl ?_
    show b.start + (b.stop - b.start) ≤ b.start + (b.cell.stop - b.start)
    omega
  · have hpair : (s.live.map Block.cell).Pairwise Cell.Disj :=
      (hs.live.pairwise_iff fun hcd => hcd.symm).mp (hs.inv.disj.filter _)
    refine (List.pairwise_map.mp hpair).imp_of_mem fun {b c} hb hc hd => ?_
    have h1 := hsub b hb
    have h2 := hsub c hc
    rcases hd with hd | hd
    · exact .inl (h1.trans hd)
    · exact .inr (h2.trans hd)
  · refine ⟨fl ci, hs.inv.linked ci hci, (hs.inv.linked ci hci).nodup, fun b hb f hf => ?_⟩
    have hfc := (hs.inv.mem_free ci hci f).mp hf
    have hne : b.cell ≠ ⟨.free ci, f⟩ := by
      intro hc
      exact absurd (congrArg Cell.isLive hc) (by simp [Block.cell, Cell.isLive])
    have h1 := hsub b hb
    rcases hs.inv.disj.forall (hs.cell_mem hb) hfc hne with hd | hd
    · exact .inl (h1.trans hd)
    · exact .inr hd

end

/-- The heap law holds along every run whose sizes neither overflow the size arithmetic nor
put a canary on a page boundary. -/
theorem kheap_law (mem : ℕ → UInt8) (ops : List Op) (s : Sys)
    (hrun : Run (Guarded SizesOk Step) (Sys.init mem) ops s) : Law s := by
  obtain ⟨fl, cells, hs⟩ := hrun.invariant (I := fun s => ∃ fl cells, SysInv s fl cells)
    ⟨_, _, sysInv_init mem⟩ fun _ _ _ hs h => sysInv_step hs h
  exact hs.law

/-- A span of two pages is handed out. -/
lemma step_kmallocLarge {s : Sys} (size pa : ℕ) (hs : s.halted = false) (hsz : size < 2 ^ 64)
    (hcls : classOf (normSize size) = KM_CLASSES) (hpages : largePages (normSize size) = 2)
    (hpa : pa ≠ 0) (hfresh : Fresh s.heap.phys.owned pa 2) :
    Step s (.kmalloc size pa (.ret (pa + HDR_SIZE)))
      ⟨(kmallocLarge s.heap pa (normSize size)).1, ⟨pa + HDR_SIZE, size⟩ :: s.live, false⟩ := by
  refine ⟨hs, hsz, fun _ => ?_, ?_, (if_neg (by omega)).symm, rfl⟩
  · rw [asked, if_pos hcls, hpages]
    exact hfresh
  · rw [kmalloc]
    simp only [if_pos hcls]
    rw [kmallocLarge, hpages, if_neg (by decide), if_neg hpa]

/-- A live block can be given back. -/
lemma step_kfree {s : Sys} {fl : ℕ → List ℕ} {cells : List Cell} (hs : SysInv s fl cells) {b : Block}
    (hb : b ∈ s.live) : ∃ h, Step s (.kfree b.body (.ret 0)) ⟨h, s.live.erase b, false⟩ := by
  obtain ⟨h, _, _, hfree, -⟩ :=
    kfree_spec (hs.inv.perm (List.perm_cons_erase (hs.cell_mem hb)).symm)
  exact ⟨h, hs.running, b, hb, rfl, hfree.symm, rfl, rfl⟩

/-- Two blocks are live at the same time, and one of them is freed. -/
theorem kheap_law_two_blocks :
    ∃ s, Run (Guarded SizesOk Step) (Sys.init fun _ => 0)
      [.kmalloc 5000 0x40100000 (.ret 0x40100010), .kmalloc 5000 0x40102000 (.ret 0x40102010),
        .kfree 0x40100010 (.ret 0)] s ∧ Law s := by
  have hok : ∀ s pa out, SizesOk s (.kmalloc 5000 pa out) := fun _ _ _ => show SizeOk 5000 by decide
  have hfirst := step_kmallocLarge (s := Sys.init fun _ => 0) 5000 0x40100000 rfl (by decide)
    (by decide) (by decide) (by decide) ⟨by decide, by decide, by decide, fun _ _ => List.not_mem_nil⟩
  have hone : Run (Guarded SizesOk Step) _ _ _ := Run.single ⟨hok _ _ _, hfirst⟩
  have hsecond := step_kmallocLarge (s := ⟨(kmallocLarge (Sys.init fun _ => 0).heap 0x40100000
    (normSize 5000)).1, [⟨0x40100010, 5000⟩], false⟩) 5000 0x40102000 rfl (by decide) (by decide)
    (by decide) (by decide) ⟨by decide, by decide, by decide, by decide⟩
  have hrun := hone.guarded hsecond (hok _ _ _)
  obtain ⟨fl, cells, hinv⟩ := hrun.invariant (I := fun s => ∃ fl cells, SysInv s fl cells)
    ⟨_, _, sysInv_init _⟩ fun _ _ _ hs h => sysInv_step hs h
  obtain ⟨h, hfree⟩ := step_kfree hinv (b := ⟨0x40100010, 5000⟩) (by decide)
  exact ⟨_, hrun.guarded hfree trivial, kheap_law _ _ _ (hrun.guarded hfree trivial)⟩

lemma write_stray_ne {bytes : List UInt8} (h : p.stray ≠ []) :
    (p.write a bytes).stray ≠ [] := by
  simp only [Phys.write]
  split_ifs
  · exact h
  · exact List.cons_ne_nil _ _

/-- The canary of a block of 8176 bytes, whose span of two pages the body ends exactly, is
stored in the page behind the span. -/
theorem kheap_law_page_multiple :
    ¬ ∀ mem ops s, Run Step (Sys.init mem) ops s → Law s := by
  intro hlaw
  have hstep := step_kmallocLarge (s := Sys.init fun _ => 0) 8176 0x40100000 rfl (by decide)
    (by decide) (by decide) (by decide) ⟨by decide, by decide, by decide, fun _ _ => List.not_mem_nil⟩
  have hin := (hlaw _ _ _ (Run.single hstep)).inside
  rw [show normSize 8176 = 8176 from rfl, kmallocLarge, if_neg (by decide),
    if_neg (by decide)] at hin
  simp only [if_pos (show largeCanary 8176 = true by decide)] at hin
  refine write_stray_ne ?_ hin
  rw [Phys.st, Phys.write, if_neg]
  · exact List.cons_ne_nil _ _
  · intro hcov
    have h0 := hcov 0 (by decide)
    revert h0
    decide

end Kheap
end Mm
end MobilePhoneOs
