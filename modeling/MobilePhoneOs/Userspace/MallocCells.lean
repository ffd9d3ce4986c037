import MobilePhoneOs.Userspace.Malloc
import Mathlib.Data.List.Perm.Subperm

/-!
# The blocks of the libc heap

A `Cell` is one block of the arena. `Inv` says that the cells lie in the window, share no
byte and carry their size in the header, and that the list visits the free ones. Taking a
cell off the list, cutting one from a chunk and putting one back each keep it.
-/

namespace MobilePhoneOs

open List (append_assoc mem_append_left mem_append_right mem_cons mem_cons_of_mem mem_cons_self
  mem_map pairwise_cons perm_middle)
namespace Malloc

open Mem Mm
open Kheap (Into Apart)
open Phys (Covers)
open Nat (mod_eq_of_lt)

/-! ## Sizes -/

variable {n : ℕ}

lemma ALIGN8_eq (h : n + 7 < 2 ^ 64) : ALIGN8 n = (n + 7) / 8 * 8 := by
  rw [ALIGN8, add64, mod_eq_of_lt h]

lemma ALIGN8_mod (n : ℕ) : ALIGN8 n % 8 = 0 := Nat.mul_mod_left _ _

lemma ALIGN8_lt (n : ℕ) : ALIGN8 n < 2 ^ 64 := by
  simp only [ALIGN8, add64]
  omega

/-- The rounding of a size near the top of the range wraps to nothing. -/
lemma ALIGN8_wrap (hn : n < 2 ^ 64) (h : 2 ^ 64 ≤ n + 7) : ALIGN8 n = 0 := by
  simp only [ALIGN8, add64]
  omega

variable {need : ℕ}

lemma chunkOf_of_lt (h8 : need % 8 = 0) (h : need + HDR < 2 ^ 63) :
    chunkOf need = max 4096 (need + HDR) := by
  have hH : HDR = 16 := rfl
  have hadd : add64 need HDR = need + HDR := mod_eq_of_lt (by omega)
  simp only [chunkOf, hadd]
  split_ifs with hsmall
  · omega
  · rw [ALIGN8_eq (by omega)]
    omega

/-- A size with the sign bit gets the smallest chunk. -/
lemma chunkOf_of_ge (h64 : need < 2 ^ 64) (h : 2 ^ 63 ≤ need + HDR) :
    chunkOf need = 4096 := by
  have hH : HDR = 16 := rfl
  apply if_pos
  show (need + HDR) % 2 ^ 64 < 4096 ∨ (need + HDR) % 2 ^ 64 ≥ 2 ^ 63
  omega

lemma chunkOf_bounds (h8 : need % 8 = 0) (h64 : need < 2 ^ 64) :
    4096 ≤ chunkOf need ∧ chunkOf need < 2 ^ 63 ∧ chunkOf need % 8 = 0 := by
  have hH : HDR = 16 := rfl
  rcases Nat.lt_or_ge (need + HDR) (2 ^ 63) with h | h
  · rw [chunkOf_of_lt h8 h]
    omega
  · rw [chunkOf_of_ge h64 h]
    decide

/-! ## The brk window -/

/-- The pages of the window are the ones mapped, up to the top that libc knows. -/
structure Window (h : Heap) : Prop where
  low : USER_CODE_BASE ≤ h.brkFloor
  floor : h.brkFloor ≤ h.brk
  high : h.brk ≤ USER_VA_LIMIT
  aligned : h.brk % PAGE_SIZE = 0
  floorAligned : h.brkFloor % PAGE_SIZE = 0
  pages : ∀ f, f ∈ h.phys.owned ↔ f % PAGE_SIZE = 0 ∧ h.brkFloor ≤ f ∧ f < h.brk
  top : (h.heapTop = 0 ∧ h.heapEnd = 0) ∨ (h.heapTop ≠ 0 ∧ h.heapEnd = h.brk)

section

variable {h : Heap}

variable {a : ℕ}

/-- A byte of the window is mapped. -/
lemma Window.mem_owned (w : Window h) :
    alignDown a ∈ h.phys.owned ↔ h.brkFloor ≤ a ∧ a < h.brk := by
  have hal := w.aligned
  have hfl := w.floorAligned
  rw [w.pages]
  simp only [alignDown, PAGE_SIZE] at *
  omega

lemma Window.covers (w : Window h) {n : ℕ} (hlo : h.brkFloor ≤ a) (hhi : a + n ≤ h.brk) :
    Covers h.phys.owned a n :=
  fun i hi => w.mem_owned.mpr ⟨by omega, by omega⟩

/-- The window depends on the pages, the top and what libc knows of it. -/
lemma Window.congr {h' : Heap} (w : Window h) (hown : h'.phys.owned = h.phys.owned)
    (hbrk : h'.brk = h.brk ∧ h'.brkFloor = h.brkFloor) (htop : h'.heapTop = h.heapTop)
    (hend : h'.heapEnd = h.heapEnd) : Window h' := by
  obtain ⟨hbrk, hfloor⟩ := hbrk
  obtain ⟨h1, h2, h3, h4, h5, h6, h7⟩ := w
  constructor
  all_goals simp only [hown, hbrk, hfloor, htop, hend]; assumption

lemma Window.pos_of_floor_le (w : Window h) (ha : h.brkFloor ≤ a) : 0 < a := by
  have hlow := w.low
  simp only [USER_CODE_BASE] at hlow
  omega

lemma covers_page {owned : List ℕ} {va : ℕ} (hal : va % PAGE_SIZE = 0) :
    Covers (va :: owned) va PAGE_SIZE := by
  intro i hi
  apply mem_cons.mpr
  left
  simp only [alignDown, PAGE_SIZE] at *
  omega

/-- The growth loop maps the pages that can be had, in order, and writes nothing else. -/
lemma mapPages_spec (n room : ℕ) : ∀ (phys : Phys) {va : ℕ}, va % PAGE_SIZE = 0 →
    (∀ f, f ∈ (mapPages phys va n room).owned ↔ f ∈ phys.owned ∨
      (f % PAGE_SIZE = 0 ∧ va ≤ f ∧ f < va + min n room * PAGE_SIZE)) ∧
    (phys.stray = [] → (mapPages phys va n room).stray = []) ∧
    ∀ x < va, (mapPages phys va n room).mem x = phys.mem x := by
  induction n generalizing room with
  | zero =>
    intro phys va _
    rw [mapPages]
    · refine ⟨fun f => (or_iff_left ?_).symm, id, fun _ _ => rfl⟩
      simp only [Nat.zero_min, Nat.zero_mul]
      omega
    · simp
  | succ n ih =>
    intro phys va hal
    cases room with
    | zero =>
      rw [mapPages]
      · refine ⟨fun f => (or_iff_left ?_).symm, id, fun _ _ => rfl⟩
        simp only [Nat.min_zero, Nat.zero_mul]
        omega
      · simp
    | succ room =>
      rw [mapPages]
      set phys' : Phys := { phys with owned := va :: phys.owned } with hphys'
      have hnext : (va + PAGE_SIZE) % PAGE_SIZE = 0 := by
        rw [Nat.add_mod_right]
        exact hal
      obtain ⟨hown, hstray, hmem⟩ := ih room (phys'.memset va 0 PAGE_SIZE) hnext
      have hpage : Covers phys'.owned va (List.replicate PAGE_SIZE (0 : UInt8)).length := by
        rw [List.length_replicate]
        exact covers_page hal
      refine ⟨fun f => ?_, fun hs => ?_, fun x hx => ?_⟩
      · rw [hown f]
        have hmin : min (n + 1) (room + 1) = min n room + 1 := by omega
        have hmul : (min n room + 1) * PAGE_SIZE = min n room * PAGE_SIZE + PAGE_SIZE :=
          Nat.succ_mul _ _
        have hcons : f ∈ (phys'.memset va 0 PAGE_SIZE).owned ↔ f = va ∨ f ∈ phys.owned :=
          mem_cons
        rw [hcons, hmin, hmul, or_comm (a := f = va), or_assoc]
        -- the first page, or one of those behind it
        apply or_congr_right
        simp only [PAGE_SIZE] at *
        omega
      · apply hstray
        show (phys'.write va _).stray = []
        rw [Phys.write, if_pos hpage]
        exact hs
      · rw [hmem x (by omega)]
        exact store_of_lt hx

/-- The state behind the first question for the top. -/
def opened (h : Heap) : Heap :=
  { h with heapTop := if h.heapTop = 0 then h.brk else h.heapTop, heapEnd := h.brk }

/-- The state behind a growth that was not refused. -/
def grown (h : Heap) (room chunk : ℕ) : Heap :=
  { opened h with
    phys := mapPages h.phys h.brk (pagesOf chunk) room
    brk := h.brk + pagesOf chunk * PAGE_SIZE
    heapEnd := h.brk + pagesOf chunk * PAGE_SIZE }

lemma Window.brk_pos (w : Window h) : 0 < h.brk := w.pos_of_floor_le w.floor

lemma Window.opened (w : Window h) : Window (opened h) := by
  have hpos := w.brk_pos
  refine ⟨w.low, w.floor, w.high, w.aligned, w.floorAligned, w.pages, .inr ⟨?_, rfl⟩⟩
  show (if h.heapTop = 0 then h.brk else h.heapTop) ≠ 0
  split_ifs with h0
  · omega
  · exact h0

lemma Window.opened_eq (w : Window h) (hne : h.heapEnd ≠ 0) : Malloc.opened h = h := by
  rcases w.top with ⟨_, hz⟩ | ⟨ht, he⟩
  · exact absurd hz hne
  · rw [Malloc.opened, if_neg ht, ← he]

/-- A growth that `sys_brk` does not refuse. -/
lemma sysBrk_grow (w : Window h) {chunk : ℕ} (room : ℕ) (hpos : 0 < chunk)
    (hle : h.brk + chunk ≤ PH14_BRK_LIMIT) :
    sysBrk h.toProc room (add64 h.brk chunk) =
      ({ h.toProc with
          phys := mapPages h.phys h.brk (pagesOf chunk) room
          brk := h.brk + pagesOf chunk * PAGE_SIZE }, h.brk + pagesOf chunk * PAGE_SIZE) := by
  have hal := w.aligned
  have hfloor := w.floor
  have hadd : add64 h.brk chunk = h.brk + chunk :=
    mod_eq_of_lt (by simp only [PH14_BRK_LIMIT] at hle; omega)
  have hwant : alignUp (h.brk + chunk) = h.brk + pagesOf chunk * PAGE_SIZE := by
    simp only [alignUp, add64, pagesOf, PAGE_SIZE, PH14_BRK_LIMIT] at *
    omega
  have hpages : pagesOf (pagesOf chunk * PAGE_SIZE) = pagesOf chunk := by
    simp only [pagesOf, PAGE_SIZE]
    omega
  have hmore : h.brk + pagesOf chunk * PAGE_SIZE > h.brk := by
    simp only [pagesOf, PAGE_SIZE]
    omega
  rw [hadd, sysBrk, if_neg (by omega), if_neg (by omega)]
  simp only [hwant]
  rw [if_pos hmore, Nat.add_sub_cancel_left, hpages]

lemma sysBrk_refuse (w : Window h) {chunk : ℕ} (room : ℕ) (hmax : chunk < 2 ^ 63)
    (hgt : h.brk + chunk > PH14_BRK_LIMIT) :
    sysBrk h.toProc room (add64 h.brk chunk) = (h.toProc, h.brk) := by
  have hhigh := w.high
  have hadd : add64 h.brk chunk = h.brk + chunk :=
    mod_eq_of_lt (by simp only [USER_VA_LIMIT] at hhigh; omega)
  rw [hadd, sysBrk, if_neg (by omega), if_pos (.inr hgt)]

/-- The part of `malloc` behind the search: the kernel refuses, or a chunk is carved. -/
lemma mallocGrow_eq (w : Window h) {need : ℕ} (room : ℕ) (h8 : need % 8 = 0)
    (h64 : need < 2 ^ 64) :
    mallocGrow h room need =
      if h.brk + chunkOf need > PH14_BRK_LIMIT then (opened h, some 0)
      else carve (grown h room (chunkOf need)) h.brk (chunkOf need) need := by
  obtain ⟨hlo, hhi, _⟩ := chunkOf_bounds h8 h64
  have hbrk := w.brk_pos
  have hquery : (if h.heapEnd = 0 then morecore h room 0 else (h, h.heapEnd))
      = (opened h, h.brk) := by
    rcases w.top with ⟨ht, he⟩ | ⟨ht, he⟩
    · have hsys : (sysBrk h.toProc room 0).2 = h.brk := rfl
      rw [if_pos he, morecore]
      simp only [hsys, ht, true_and, if_true, opened]
    · rw [if_neg (by omega), w.opened_eq (by omega), he]
  have hmore : morecore (opened h) room (chunkOf need) =
      if h.brk + chunkOf need > PH14_BRK_LIMIT then (opened h, 0)
      else (grown h room (chunkOf need), h.brk) := by
    have hne : (opened h).heapTop ≠ 0 := by
      rcases w.opened.top with hc | hc
      · exact absurd hc.2 hbrk.ne'
      · exact hc.1
    have hend : (opened h).heapEnd = h.brk := rfl
    have hproc : (opened h).toProc = h.toProc := rfl
    rw [morecore]
    simp only [hne, false_and, if_false, hend, hproc]
    by_cases hgt : h.brk + chunkOf need > PH14_BRK_LIMIT
    · rw [sysBrk_refuse w room hhi hgt, if_pos hgt, if_pos rfl]
      rfl
    · have hgrow := sysBrk_grow w room (by omega : 0 < chunkOf need) (by omega)
      have hneq : h.brk + pagesOf (chunkOf need) * PAGE_SIZE ≠ h.brk := by
        simp only [pagesOf, PAGE_SIZE]
        omega
      rw [hgrow, if_neg hgt, if_neg hneq]
      rfl
  rw [mallocGrow, hquery]
  simp only [if_neg hbrk.ne']
  by_cases hgt : h.brk + chunkOf need > PH14_BRK_LIMIT
  · rw [if_pos hgt] at hmore ⊢
    simp only [hmore, if_true]
  · rw [if_neg hgt] at hmore ⊢
    simp only [hmore, if_neg hbrk.ne']

end

/-! ## Cells -/

/-- One block of the arena: its header, the bytes of its payload and, when it is handed out,
the bytes asked for. -/
structure Cell where
  start : ℕ
  cap : ℕ
  size : ℕ
deriving DecidableEq

namespace Cell

def stop (c : Cell) : ℕ := c.start + HDR + c.cap

/-- The block as the program knows it. -/
def block (c : Cell) : Block := ⟨c.start + HDR, c.size⟩

@[simp] lemma block_start (c : Cell) : c.block.start = c.start := Nat.add_sub_cancel _ _

/-- Two cells share no byte. -/
def Disj (c d : Cell) : Prop := Apart c.start c.stop d.start d.stop

lemma Disj.symm {c d : Cell} (h : c.Disj d) : d.Disj c := h.elim .inr .inl

instance : Std.Symm Disj := ⟨fun _ _ h => h.symm⟩

lemma start_lt (c : Cell) : c.start + HDR ≤ c.stop := Nat.le_add_right _ _

/-- A cell inside `[lo, hi)` with an even size. -/
structure Placed (lo hi : ℕ) (c : Cell) : Prop where
  even : c.cap % 2 = 0
  low : lo ≤ c.start
  high : c.stop ≤ hi

end Cell

/-- The cells lie in the window and share no byte; the headers say their sizes and which are
in use; the list visits the free ones. -/
structure Inv (h : Heap) (lv fl : List Cell) : Prop where
  window : Window h
  clean : h.phys.stray = []
  linked : Chain.Linked (next h.phys) (· = 0) h.freelist (fl.map Cell.start)
  placed : ∀ c ∈ lv ++ fl, c.Placed h.brkFloor h.brk
  live : ∀ c ∈ lv, load h.phys.mem c.start 8 = c.cap + 1 ∧ c.size ≤ c.cap
  free : ∀ c ∈ fl, load h.phys.mem c.start 8 = c.cap
  disj : (lv ++ fl).Pairwise Cell.Disj

lemma capOf_used {mem : ℕ → UInt8} {a : ℕ} (h2 : n % 2 = 0) (h : load mem a 8 = n + 1) :
    capOf mem a = n := by
  rw [capOf, h]
  omega

lemma capOf_free {mem : ℕ → UInt8} {a : ℕ} (h2 : n % 2 = 0) (h : load mem a 8 = n) :
    capOf mem a = n := by
  rw [capOf, h]
  omega

section

variable {h h' : Heap} {lv fl : List Cell} {c : Cell}

lemma Inv.covers (hi : Inv h lv fl) (hc : c ∈ lv ++ fl) :
    Covers h.phys.owned c.start (c.stop - c.start) := by
  have hp := hi.placed c hc
  have hlt := c.start_lt
  exact hi.window.covers hp.low (by have := hp.high; omega)

lemma Inv.capOf_live (hi : Inv h lv fl) (hc : c ∈ lv) : capOf h.phys.mem c.start = c.cap :=
  capOf_used (hi.placed c (mem_append_left _ hc)).even (hi.live c hc).1

lemma Inv.capOf_free (hi : Inv h lv fl) (hc : c ∈ fl) : capOf h.phys.mem c.start = c.cap :=
  Malloc.capOf_free (hi.placed c (mem_append_right _ hc)).even (hi.free c hc)

/-- A cell is a proper range, so none is disjoint from itself. -/
lemma Cell.ne_of_disj {d : Cell} (h : c.Disj d) : c.start ≠ d.start := by
  intro heq
  have hc := c.start_lt
  have hd := d.start_lt
  have hH : HDR = 16 := rfl
  rcases h with h | h <;> omega

variable {p : Phys}

/-- The invariant reads the headers only. -/
lemma Inv.congr (hi : Inv h lv fl) (hown : p.owned = h.phys.owned)
    (hclean : p.stray = [])
    (hmem : ∀ c ∈ lv ++ fl, ∀ x, c.start ≤ x → x < c.start + HDR → p.mem x = h.phys.mem x) :
    Inv { h with phys := p } lv fl := by
  have hword : ∀ c ∈ lv ++ fl, load p.mem c.start 8 = load h.phys.mem c.start 8 := by
    intro c hc
    apply load_congr
    intro i hlt
    exact hmem c hc _ (by omega) (by simp only [HDR]; omega)
  refine ⟨hi.window.congr hown ⟨rfl, rfl⟩ rfl rfl, hclean, ?_, hi.placed, fun c hc => ?_,
    fun c hc => ?_, hi.disj⟩
  · apply hi.linked.congr
    intro a ha
    obtain ⟨c, hc, rfl⟩ := mem_map.mp ha
    apply load_congr
    intro i hlt
    exact hmem c (mem_append_right _ hc) _ (by omega) (by simp only [HDR]; omega)
  · rw [← (hi.live c hc).1]
    exact ⟨hword c (mem_append_left _ hc), (hi.live c hc).2⟩
  · exact (hword c (mem_append_right _ hc)).trans (hi.free c hc)

/-- A change inside a range that meets no cell. -/
lemma Inv.into (hi : Inv h lv fl) {lo hi' : ℕ} (hp : Into lo hi' h.phys p)
    (hap : ∀ c ∈ lv ++ fl, Apart lo hi' c.start c.stop) : Inv { h with phys := p } lv fl := by
  refine hi.congr hp.owned (hp.stray hi.clean) fun c hc x hlo hhi => hp.outside x ?_
  have hlt := c.start_lt
  rcases hap c hc with h | h <;> omega

lemma Inv.perm {lv' : List Cell} (hi : Inv h lv fl) (hp : lv'.Perm lv) : Inv h lv' fl := by
  have happ : (lv' ++ fl).Perm (lv ++ fl) := hp.append_right fl
  exact ⟨hi.window, hi.clean, hi.linked, fun c hc => hi.placed c (happ.subset hc),
    fun c hc => hi.live c (hp.subset hc), hi.free,
    (happ.pairwise_iff fun hcd => hcd.symm).mpr hi.disj⟩

/-- A handed-out cell is put in. -/
lemma Inv.addLive (hi : Inv h lv fl) (hp : c.Placed h.brkFloor h.brk)
    (hhdr : load h.phys.mem c.start 8 = c.cap + 1)
    (hsize : c.size ≤ c.cap) (hd : ∀ d ∈ lv ++ fl, c.Disj d) : Inv h (c :: lv) fl :=
  ⟨hi.window, hi.clean, hi.linked, List.forall_mem_cons.mpr ⟨hp, hi.placed⟩,
    List.forall_mem_cons.mpr ⟨⟨hhdr, hsize⟩, hi.live⟩, hi.free,
    pairwise_cons.mpr ⟨hd, hi.disj⟩⟩

/-- A handed-out cell is taken out. -/
lemma Inv.removeLive (hi : Inv h (c :: lv) fl) :
    Inv h lv fl ∧ ∀ d ∈ lv ++ fl, c.Disj d := by
  obtain ⟨hd, hdisj⟩ := pairwise_cons.mp hi.disj
  exact ⟨⟨hi.window, hi.clean, hi.linked, fun d hdm => hi.placed d (mem_cons_of_mem _ hdm),
    fun d hdm => hi.live d (mem_cons_of_mem _ hdm), hi.free, hdisj⟩, hd⟩

/-- A cell written inside its own bytes goes in front of the list. -/
lemma Inv.push (hi : Inv h lv fl) (hp : c.Placed h.brkFloor h.brk)
    (hin : Into c.start c.stop h.phys p) (hhdr : load p.mem c.start 8 = c.cap)
    (hlink : next p c.start = h.freelist)
    (hd : ∀ d ∈ lv ++ fl, c.Disj d) :
    Inv { h with phys := p, freelist := c.start } lv (c :: fl) := by
  have hi' := hi.into hin hd
  have hperm : (lv ++ c :: fl).Perm (c :: (lv ++ fl)) := perm_middle
  refine ⟨hi'.window.congr rfl ⟨rfl, rfl⟩ rfl rfl, hi'.clean, ?_, fun d hdm => ?_, hi'.live,
    List.forall_mem_cons.mpr ⟨hhdr, hi'.free⟩, ?_⟩
  · refine Chain.linked_cons.mpr ⟨rfl, (hi.window.pos_of_floor_le hp.low).ne', ?_⟩
    rw [hlink]
    exact hi'.linked
  · rcases mem_cons.mp (hperm.subset hdm) with rfl | hdm
    · exact hp
    · exact hi'.placed d hdm
  · exact (hperm.pairwise_iff fun hcd => hcd.symm).mpr (pairwise_cons.mpr ⟨hd, hi.disj⟩)

end

/-! ## The search -/

/-- The link through which the search comes to the block behind `pre`. -/
def linkTo (prev : Option ℕ) (pre : List Cell) : Option ℕ := (pre.map Cell.start).getLast?.or prev

lemma linkTo_cons (prev : Option ℕ) (c : Cell) (pre : List Cell) :
    linkTo prev (c :: pre) = linkTo (some c.start) pre := by
  rw [linkTo, linkTo, List.map_cons, List.getLast?_cons]
  cases (pre.map Cell.start).getLast? <;> rfl

/-- The search ends at the first block that is large enough, or with the list. -/
lemma firstFit_spec {p : Phys} (need : ℕ) : ∀ {fl : List Cell} {fuel b : ℕ}
    (prev : Option ℕ), fl.length < fuel → Chain.Linked (next p) (· = 0) b (fl.map Cell.start) →
    (∀ c ∈ fl, load p.mem c.start 8 = c.cap) →
    (firstFit p.mem need fuel prev b = .exhausted ∧ ∀ c ∈ fl, c.cap < need) ∨
      ∃ pre c post, fl = pre ++ c :: post ∧ need ≤ c.cap ∧
        firstFit p.mem need fuel prev b = .fit (linkTo prev pre) c.start := by
  intro fl
  induction fl with
  | nil =>
    intro fuel b prev hlen hl _
    obtain ⟨fuel, rfl⟩ : ∃ k, fuel = k + 1 := ⟨fuel - 1, by omega⟩
    left
    rw [firstFit, if_pos (Chain.linked_nil.mp hl)]
    exact ⟨rfl, by simp⟩
  | cons c fl ih =>
    intro fuel b prev hlen hl hhdr
    obtain ⟨fuel, rfl⟩ : ∃ k, fuel = k + 1 := ⟨fuel - 1, by omega⟩
    obtain ⟨rfl, hne, hrest⟩ := Chain.linked_cons.mp hl
    have hcap := hhdr c mem_cons_self
    rw [firstFit, if_neg hne, hcap]
    by_cases hfit : c.cap ≥ need
    · rw [if_pos hfit]
      exact .inr ⟨[], c, fl, rfl, hfit, rfl⟩
    rw [if_neg hfit]
    rcases ih (some c.start) (Nat.lt_of_succ_lt_succ hlen) hrest
      fun d hd => hhdr d (mem_cons_of_mem _ hd) with ⟨heq, hall⟩ | ⟨pre, d, post, hfl, hd, heq⟩
    · exact .inl ⟨heq, List.forall_mem_cons.mpr ⟨by omega, hall⟩⟩
    · refine .inr ⟨c :: pre, d, post, by rw [hfl, List.cons_append], hd, ?_⟩
      rw [linkTo_cons]
      exact heq

section

variable {h : Heap} {lv fl : List Cell} {c : Cell}

/-- The list is shorter than the mapped memory. -/
lemma Inv.length_lt (hi : Inv h lv fl) : fl.length < h.walkLimit := by
  have hnd := hi.linked.nodup
  have hsub : fl.map Cell.start ⊆
      h.phys.owned.flatMap fun f => (List.range PAGE_SIZE).map fun i => f + i := by
    intro a ha
    obtain ⟨c, hc, rfl⟩ := mem_map.mp ha
    have hcov := hi.covers (mem_append_right _ hc) 0
      (by have := c.start_lt; simp only [HDR] at this; omega)
    refine List.mem_flatMap.mpr ⟨_, hcov, mem_map.mpr ⟨c.start % PAGE_SIZE, ?_, ?_⟩⟩
    · exact List.mem_range.mpr (Nat.mod_lt _ (by decide))
    · simp only [alignDown, PAGE_SIZE]
      omega
  have hle := (hnd.subperm hsub).length_le
  rw [List.length_map, List.length_flatMap] at hle
  simp only [List.length_map, List.length_range, List.map_const', List.sum_replicate_nat] at hle
  rw [Heap.walkLimit]
  omega

/-- The bytes of the cells in `l` are the same. -/
def Kept (l : List Cell) (p p' : Phys) : Prop :=
  ∀ d ∈ l, ∀ x, d.start ≤ x → x < d.stop → p'.mem x = p.mem x

/-- A cell leaves the list. -/
lemma Inv.drop {pre post : List Cell} (hi : Inv h lv (pre ++ c :: post)) :
    (∀ d ∈ lv ++ (pre ++ post), d.Placed h.brkFloor h.brk) ∧
      (∀ d ∈ pre ++ post, load h.phys.mem d.start 8 = d.cap) ∧
      (∀ d ∈ lv ++ (pre ++ post), c.Disj d) ∧ (lv ++ (pre ++ post)).Pairwise Cell.Disj := by
  have hperm : (lv ++ (pre ++ c :: post)).Perm (c :: (lv ++ (pre ++ post))) := by
    rw [← append_assoc, ← append_assoc]
    exact perm_middle
  obtain ⟨hd, hdisj⟩ := pairwise_cons.mp
    ((hperm.pairwise_iff fun hcd => Cell.Disj.symm hcd).mp hi.disj)
  refine ⟨fun d hdm => ?_, fun d hdm => ?_, hd, hdisj⟩
  · exact hi.placed d (hperm.symm.subset (mem_cons_of_mem _ hdm))
  · exact hi.free d (perm_middle.symm.subset (mem_cons_of_mem _ hdm))

lemma next_lt (p : Phys) (b : ℕ) : next p b < 2 ^ 64 := by
  have hlt := leNat_lt (slice p.mem (b + 8) 8)
  rw [slice_length] at hlt
  exact hlt

/-- The cell behind `pre` is taken off the list. -/
lemma Inv.unlink {pre post : List Cell} (hi : Inv h lv (pre ++ c :: post)) {g : Heap}
    (hg : g = h.setLink (linkTo none pre) (next h.phys c.start)) :
    Inv g lv (pre ++ post) ∧ g.brk = h.brk ∧ g.brkFloor = h.brkFloor ∧
      Kept (c :: lv) h.phys g.phys := by
  obtain ⟨hplaced, hfree, hd, hdisj⟩ := hi.drop
  have hlk := hi.linked
  rcases List.eq_nil_or_concat pre with rfl | ⟨pre, d, rfl⟩
  · obtain ⟨_, _, hrest⟩ := Chain.linked_cons.mp hlk
    obtain rfl : g = { h with freelist := next h.phys c.start } := hg
    exact ⟨⟨hi.window.congr rfl ⟨rfl, rfl⟩ rfl rfl, hi.clean, hrest, hplaced, hi.live, hfree,
      hdisj⟩, rfl, rfl, fun _ _ _ _ _ => rfl⟩
  -- the block in front of it adopts its link
  rw [List.concat_eq_append] at *
  have hlink : linkTo none (pre ++ [d]) = some d.start := by
    rw [linkTo, List.map_append, List.map_singleton, List.getLast?_concat]
    rfl
  rw [hlink] at hg
  obtain rfl : g = { h with phys := h.phys.st (d.start + 8) 8 (next h.phys c.start) } := hg
  have hdm : d ∈ lv ++ (pre ++ [d] ++ post) := by simp
  have hH : HDR = 16 := rfl
  have hdlt := d.start_lt
  have hperm : (lv ++ (pre ++ [d] ++ post)).Perm (d :: (lv ++ (pre ++ post))) := by
    rw [append_assoc pre, List.singleton_append, ← append_assoc, ← append_assoc]
    exact perm_middle
  obtain ⟨hdd, _⟩ := pairwise_cons.mp
    ((hperm.pairwise_iff fun hcd => Cell.Disj.symm hcd).mp hdisj)
  have hdh := hplaced d hdm
  have hcov : Covers h.phys.owned d.start (d.stop - d.start) :=
    hi.window.covers hdh.low (by have := hdh.high; omega)
  have hin : Into d.start d.stop h.phys (h.phys.st (d.start + 8) 8 (next h.phys c.start)) :=
    (Into.refl _).st hcov (by omega) (by omega)
  have hother : ∀ e : Cell, e.Disj d → ∀ x, e.start ≤ x → x < e.stop →
      (h.phys.st (d.start + 8) 8 (next h.phys c.start)).mem x = h.phys.mem x := by
    intro e he x hlo hhi
    apply hin.outside
    rcases he with he | he <;> omega
  have hword : ∀ e : Cell, e.Disj d →
      load (h.phys.st (d.start + 8) 8 (next h.phys c.start)).mem e.start 8
          = load h.phys.mem e.start 8 ∧
        next (h.phys.st (d.start + 8) 8 (next h.phys c.start)) e.start = next h.phys e.start := by
    intro e he
    have helt := e.start_lt
    refine ⟨load_congr fun i hlt => ?_, load_congr fun i hlt => ?_⟩
    · exact hother e he _ (by omega) (by omega)
    · exact hother e he _ (by omega) (by omega)
  have hself : load (h.phys.st (d.start + 8) 8 (next h.phys c.start)).mem d.start 8
      = load h.phys.mem d.start 8 := load_put_of_disjoint (.inl le_rfl)
  have hmem : ∀ e ∈ lv ++ (pre ++ [d] ++ post), e = d ∨ e.Disj d := by
    intro e he
    rcases mem_cons.mp (hperm.subset he) with hed | he
    · exact .inl hed
    · exact .inr (hdd e he).symm
  have hsize : ∀ e ∈ lv ++ (pre ++ [d] ++ post),
      load (h.phys.st (d.start + 8) 8 (next h.phys c.start)).mem e.start 8
        = load h.phys.mem e.start 8 := by
    intro e he
    rcases hmem e he with rfl | he
    · exact hself
    · exact (hword e he).1
  refine ⟨⟨hi.window.congr rfl ⟨rfl, rfl⟩ rfl rfl, hin.stray hi.clean, ?_, hplaced,
    fun e he => ?_, fun e he => ?_, hdisj⟩, rfl, rfl, fun e he => hother e ?_⟩
  · have hlist : (pre ++ [d] ++ c :: post).map Cell.start
        = pre.map Cell.start ++ d.start :: ([c.start] ++ post.map Cell.start) := by simp
    have hlist' : (pre ++ [d] ++ post).map Cell.start
        = pre.map Cell.start ++ d.start :: post.map Cell.start := by simp
    rw [hlist] at hlk
    obtain ⟨_, _, _, hbehind⟩ := Chain.linked_append.mp hlk
    obtain ⟨rfl, _, hbehind⟩ := Chain.linked_cons.mp hbehind
    obtain ⟨hnext, _, _⟩ := Chain.linked_cons.mp hbehind
    have hun := hlk.unlink (t := next h.phys c.start) ⟨hnext, rfl⟩
    rw [← hlist'] at hun
    refine hun.congr fun a ha => ?_
    obtain ⟨e, he, rfl⟩ := mem_map.mp ha
    by_cases hed : e.start = d.start
    · rw [hed, Function.update_self]
      exact (load_put _ _ _ _).trans (mod_eq_of_lt (next_lt _ _))
    · rw [Function.update_of_ne hed]
      rcases hmem e (mem_append_right _ he) with rfl | he
      · exact absurd rfl hed
      · exact (hword e he).2
  · rw [hsize e (mem_append_left _ he)]
    exact hi.live e he
  · rw [hsize e (mem_append_right _ he)]
    exact hfree e he
  · rcases mem_cons.mp he with rfl | he
    · exact hd d hdm
    · exact (hdd e (mem_append_left _ he)).symm

end

/-! ## Taking, carving and giving back -/

section

variable {h : Heap} {lv fl : List Cell} {c : Cell}

lemma Inv.stop_le (hi : Inv h lv fl) (hc : c ∈ lv ++ fl) : c.stop ≤ USER_VA_LIMIT :=
  (hi.placed c hc).high.trans hi.window.high

/-- The head of the list is a word. -/
lemma Inv.head_lt (hi : Inv h lv fl) : h.freelist < 2 ^ 64 := by
  have hl := hi.linked
  cases fl with
  | nil =>
    rw [Chain.linked_nil.mp hl]
    exact Nat.two_pow_pos 64
  | cons c fl =>
    obtain ⟨heq, _, _⟩ := Chain.linked_cons.mp hl
    have hle := hi.stop_le (mem_append_right lv mem_cons_self)
    have hlt := c.start_lt
    rw [heq]
    simp only [USER_VA_LIMIT] at hle
    omega

variable {l : List Cell} {p q : Phys}

lemma Kept.trans {r : Phys} (hpq : Kept l p q) (hqr : Kept l q r) :
    Kept l p r :=
  fun d hd x hlo hhi => (hqr d hd x hlo hhi).trans (hpq d hd x hlo hhi)

lemma Kept.mono {l' : List Cell} (hk : Kept l p q) (hsub : ∀ d ∈ l', d ∈ l) :
    Kept l' p q :=
  fun d hd => hk d (hsub d hd)

lemma Kept.of_into {lo hi : ℕ} (hin : Into lo hi p q)
    (hap : ∀ d ∈ l, Apart lo hi d.start d.stop) : Kept l p q := by
  intro d hd x hlo hhi
  apply hin.outside
  rcases hap d hd with h | h <;> omega

/-- A cell written inside its own bytes is marked and handed out. -/
lemma Inv.use (hi : Inv h lv fl) (hp : c.Placed h.brkFloor h.brk)
    (hin : Into c.start c.stop h.phys p) (hhdr : load p.mem c.start 8 = c.cap)
    (hsize : c.size ≤ c.cap) (hd : ∀ d ∈ lv ++ fl, c.Disj d) :
    Inv { h with phys := setUsed p c.start } (c :: lv) fl ∧
      Kept lv h.phys (setUsed p c.start) := by
  have hH : HDR = 16 := rfl
  have hlt := c.start_lt
  have hcov : Covers h.phys.owned c.start (c.stop - c.start) :=
    hi.window.covers hp.low (by have := hp.high; omega)
  have hin' : Into c.start c.stop h.phys (setUsed p c.start) :=
    hin.st hcov le_rfl (by omega)
  have hcap : capOf p.mem c.start = c.cap := Malloc.capOf_free hp.even hhdr
  have hword : load (setUsed p c.start).mem c.start 8 = c.cap + 1 := by
    have hhigh := hp.high.trans hi.window.high
    have hstop : c.stop = c.start + HDR + c.cap := rfl
    rw [setUsed, hcap]
    refine (load_put _ _ _ _).trans (mod_eq_of_lt ?_)
    simp only [USER_VA_LIMIT] at hhigh
    omega
  exact ⟨(hi.into hin' hd).addLive hp hword hsize hd,
    Kept.of_into hin' fun d hdm => hd d (mem_append_left _ hdm)⟩

variable {size : ℕ}

/-- A block that was found is handed out whole. -/
lemma Inv.take {pre post : List Cell} (hi : Inv h lv (pre ++ c :: post)) {g : Heap}
    (hg : g = h.setLink (linkTo none pre) (next h.phys c.start))
    (hsize : size ≤ c.cap) :
    Inv { g with phys := setUsed g.phys c.start } (⟨c.start, c.cap, size⟩ :: lv) (pre ++ post) ∧
      Kept lv h.phys (setUsed g.phys c.start) := by
  obtain ⟨hi', hbrk, hfloor, hkept⟩ := hi.unlink hg
  obtain ⟨_, _, hd, _⟩ := hi.drop
  have hmem : c ∈ pre ++ c :: post := mem_append_right _ mem_cons_self
  have hp := hi.placed c (mem_append_right _ hmem)
  have hlt := c.start_lt
  have hhdr : load g.phys.mem c.start 8 = c.cap := by
    rw [← hi.free c hmem]
    apply load_congr
    intro i hlt'
    exact hkept c mem_cons_self _ (by omega) (by simp only [HDR] at hlt; omega)
  obtain ⟨huse, hkept'⟩ := hi'.use (c := ⟨c.start, c.cap, size⟩)
    (by rw [hbrk, hfloor]; exact ⟨hp.even, hp.low, hp.high⟩) (Into.refl _) hhdr hsize hd
  exact ⟨huse, (hkept.mono fun d hdm => mem_cons_of_mem _ hdm).trans hkept'⟩

/-- A chunk of the window that meets no cell becomes a block, with or without a tail. -/
lemma carve_spec (hi : Inv h lv fl) {base chunk need : ℕ} (h8 : need % 8 = 0)
    (hc8 : chunk % 8 = 0) (hroom : need + HDR ≤ chunk) (hlo : h.brkFloor ≤ base)
    (hhi : base + chunk ≤ h.brk) (hap : ∀ d ∈ lv ++ fl, Apart base (base + chunk) d.start d.stop)
    (hsize : size ≤ need) :
    ∃ g cap fl', carve h base chunk need = (g, some (base + HDR)) ∧
      Inv g (⟨base, cap, size⟩ :: lv) fl' ∧ (∀ d ∈ fl, d ∈ fl') ∧ Kept lv h.phys g.phys := by
  have hH : HDR = 16 := rfl
  have hhigh := hi.window.high
  simp only [USER_VA_LIMIT] at hhigh
  have hcov : Covers h.phys.owned base (base + chunk - base) :=
    hi.window.covers hlo (by omega)
  set p₂ : Phys := (h.phys.st base 8 (chunk - HDR)).st (base + 8) 8 0 with hp₂
  have hin₂ : Into base (base + chunk) h.phys p₂ :=
    ((Into.refl _).st hcov le_rfl (by omega)).st hcov (by omega) (by omega)
  have hbig : add64 (add64 need HDR) 16 = need + HDR + 16 := by
    simp only [add64]
    omega
  by_cases hsplit : chunk - HDR > add64 (add64 need HDR) 16
  · -- the tail goes on the list first
    have htail : add64 (add64 base HDR) need = base + HDR + need := by
      simp only [add64]
      omega
    have hrest : sub64 (sub64 (chunk - HDR) need) HDR = chunk - HDR - need - HDR := by
      simp only [sub64]
      omega
    rw [hbig] at hsplit
    set t : Cell := ⟨base + HDR + need, chunk - HDR - need - HDR, 0⟩ with ht
    have htstop : t.stop = base + chunk := by
      simp only [ht, Cell.stop]
      omega
    have hi₂ := hi.into hin₂ hap
    have hin₄ : Into t.start t.stop p₂ ((p₂.st t.start 8 t.cap).st (t.start + 8) 8 h.freelist) := by
      have hcov' : Covers p₂.owned t.start (t.stop - t.start) := by
        rw [hin₂.owned, htstop]
        exact hi.window.covers (by simp only [ht]; omega) (by simp only [ht]; omega)
      refine ((Into.refl _).st hcov' le_rfl ?_).st hcov' (by omega) ?_
      · rw [htstop]
        simp only [ht]
        omega
      · rw [htstop]
        simp only [ht]
        omega
    set p₄ : Phys := (p₂.st t.start 8 t.cap).st (t.start + 8) 8 h.freelist with hp₄
    have htd : ∀ d ∈ lv ++ fl, t.Disj d := by
      intro d hdm
      rw [Cell.Disj, htstop]
      rcases hap d hdm with h | h
      · exact .inl h
      · exact .inr (by simp only [ht]; omega)
    have hpush := hi₂.push (c := t) (p := p₄)
      ⟨by simp only [ht]; omega, by simp only [ht]; omega, by rw [htstop]; exact hhi⟩ hin₄
      (by
        rw [hp₄, Kheap.st_mem, load_put_of_disjoint (by omega)]
        refine (load_put _ _ _ _).trans (mod_eq_of_lt ?_)
        simp only [ht]
        omega)
      ((load_put _ _ _ _).trans (mod_eq_of_lt hi.head_lt)) htd
    -- then the front is handed out
    have hin₅ : Into base (base + HDR + need) p₄ (p₄.st base 8 need) := by
      have hcov' : Covers p₄.owned base (base + HDR + need - base) := by
        rw [hin₄.owned, hin₂.owned]
        exact hi.window.covers hlo (by omega)
      exact (Into.refl _).st hcov' le_rfl (by omega)
    obtain ⟨huse, hkept⟩ := hpush.use (c := ⟨base, need, size⟩) (p := p₄.st base 8 need)
      ⟨by show need % 2 = 0; omega, hlo, by simp only [Cell.stop]; omega⟩ hin₅
      ((load_put _ _ _ _).trans (mod_eq_of_lt (by omega))) hsize (by
        intro d hdm
        rcases List.mem_append.mp hdm with hdm | hdm
        · rcases hap d (mem_append_left _ hdm) with h | h
          · exact .inl (by simp only [Cell.stop]; omega)
          · exact .inr h
        · rcases mem_cons.mp hdm with rfl | hdm
          · exact .inl (by simp only [Cell.stop, ht]; omega)
          · rcases hap d (mem_append_right _ hdm) with h | h
            · exact .inl (by simp only [Cell.stop]; omega)
            · exact .inr h)
    refine ⟨_, need, t :: fl, ?_, huse, fun d hdm => mem_cons_of_mem _ hdm, ?_⟩
    · rw [carve, hbig, if_pos hsplit, htail, hrest]
    · have hlv : ∀ d ∈ lv, d ∈ lv ++ fl := fun d hdm => mem_append_left _ hdm
      exact ((Kept.of_into hin₂ fun d hdm => hap d (hlv d hdm)).trans
        (Kept.of_into hin₄ fun d hdm => htd d (hlv d hdm))).trans hkept
  · have hstop : Cell.stop ⟨base, chunk - HDR, size⟩ = base + chunk := by
      simp only [Cell.stop]
      omega
    obtain ⟨huse, hkept⟩ := hi.use (c := ⟨base, chunk - HDR, size⟩) (p := p₂)
      ⟨by show (chunk - HDR) % 2 = 0; omega, hlo, by rw [hstop]; exact hhi⟩
      (by rw [hstop]; exact hin₂)
      (by
        rw [hp₂, Kheap.st_mem, load_put_of_disjoint (.inl le_rfl)]
        refine (load_put _ _ _ _).trans (mod_eq_of_lt ?_)
        omega)
      (by simp only; omega) (by
        intro d hdm
        rw [Cell.Disj, hstop]
        exact hap d hdm)
    refine ⟨_, chunk - HDR, fl, ?_, huse, fun d hdm => hdm, hkept⟩
    rw [carve, if_neg hsplit]

/-- `free` puts a block in front of the list. -/
lemma free_spec (hi : Inv h (c :: lv) fl) :
    Inv (free h (c.start + HDR)) lv (c :: fl) ∧ Kept lv h.phys (free h (c.start + HDR)).phys := by
  have hH : HDR = 16 := rfl
  have hcap := hi.capOf_live mem_cons_self
  have hmem : c ∈ c :: lv ++ fl := mem_cons_self
  have hcov := hi.covers hmem
  have hp := hi.placed c hmem
  have hle := hi.stop_le hmem
  have hstop : c.stop = c.start + HDR + c.cap := rfl
  simp only [USER_VA_LIMIT] at hle
  obtain ⟨hi', hd⟩ := hi.removeLive
  have hin : Into c.start c.stop h.phys
      ((h.phys.st c.start 8 c.cap).st (c.start + 8) 8 h.freelist) :=
    ((Into.refl _).st hcov le_rfl (by omega)).st hcov (by omega) (by omega)
  have heq : free h (c.start + HDR) =
      { h with
        phys := (h.phys.st c.start 8 c.cap).st (c.start + 8) 8 h.freelist
        freelist := c.start } := by
    rw [free, if_neg (by omega)]
    simp only [Nat.add_sub_cancel, hcap]
  rw [heq]
  refine ⟨hi'.push hp hin ?_ ?_ hd, Kept.of_into hin fun d hdm => hd d (mem_append_left _ hdm)⟩
  · rw [Kheap.st_mem, load_put_of_disjoint (by omega)]
    exact (load_put _ _ _ _).trans (mod_eq_of_lt (by omega))
  · exact (load_put _ _ _ _).trans (mod_eq_of_lt hi.head_lt)

lemma Inv.payload (hi : Inv h (c :: lv) fl)
    (hin : Into (c.start + HDR) c.stop h.phys p) : Inv { h with phys := p } (c :: lv) fl := by
  refine hi.congr hin.owned (hin.stray hi.clean) fun d hdm x hlo hhi => hin.outside x ?_
  have hdlt := d.start_lt
  rcases mem_cons.mp hdm with rfl | hdm
  · exact .inl hhi
  · rcases hi.removeLive.2 d hdm with h | h <;> omega

/-- A block in use may be known under any size that it has room for. -/
lemma Inv.resize (hi : Inv h (c :: lv) fl) (hsize : size ≤ c.cap) :
    Inv h (⟨c.start, c.cap, size⟩ :: lv) fl := by
  have hp := hi.placed c mem_cons_self
  have hl := hi.live c mem_cons_self
  obtain ⟨hi', hd⟩ := hi.removeLive
  exact hi'.addLive ⟨hp.even, hp.low, hp.high⟩ hl.1 hsize hd

end

end Malloc
end MobilePhoneOs
