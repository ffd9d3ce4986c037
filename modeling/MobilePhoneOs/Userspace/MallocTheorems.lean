import MobilePhoneOs.Userspace.MallocCells

/-!
# The libc heap law

A request that is served gets a block with room for it, and the invariant stays. The law
breaks in exactly two ways: a size that wraps gets a block that is too small, and a growth
that stopped part-way leaves a block that is not mapped. Both leave a block whose header
shows the damage, so the condition is exact.
-/

namespace MobilePhoneOs

open List (mem_append_left mem_append_right mem_cons_self mem_map)
open Nat (add_sub_cancel mod_eq_of_lt succ_ne_zero)
namespace Malloc

open Mem Mm
open Kheap (Into Apart)
open Phys (Covers)

/-! ## Requests -/

section

variable {h : Heap} {lv fl : List Cell}

lemma Inv.fits_iff (hi : Inv h lv fl) {need : ℕ} : Fits h need ↔ ∃ c ∈ fl, need ≤ c.cap := by
  constructor
  · rintro ⟨l, hl, b, hb, hle⟩
    obtain rfl := hl.unique hi.linked
    obtain ⟨c, hc, rfl⟩ := mem_map.mp hb
    rw [hi.free c hc] at hle
    exact ⟨c, hc, hle⟩
  · rintro ⟨c, hc, hle⟩
    refine ⟨_, hi.linked, c.start, List.mem_map_of_mem hc, ?_⟩
    rw [hi.free c hc]
    exact hle

variable {n : ℕ}

/-- The search finds a block on the list, or the arena has to grow. -/
lemma malloc_cases (hi : Inv h lv fl) (hn : n ≠ 0) (room : ℕ) :
    (∃ pre c post g, fl = pre ++ c :: post ∧ ALIGN8 n ≤ c.cap ∧
        malloc h room n = (g, some (c.start + HDR)) ∧
        (∀ size ≤ c.cap, Inv g (⟨c.start, c.cap, size⟩ :: lv) (pre ++ post)) ∧
        Kept lv h.phys g.phys) ∨
      (¬ Fits h (ALIGN8 n) ∧ malloc h room n = mallocGrow h room (ALIGN8 n)) := by
  rcases firstFit_spec (ALIGN8 n) none hi.length_lt hi.linked hi.free with
    ⟨heq, hall⟩ | ⟨pre, c, post, rfl, hle, heq⟩
  · right
    constructor
    · rw [hi.fits_iff]
      rintro ⟨c, hc, hle⟩
      exact absurd (hall c hc) (by omega)
    · rw [malloc, if_neg hn, heq]
  · left
    refine ⟨pre, c, post, _, rfl, hle, ?_, fun size hsize => (hi.take rfl hsize).1,
      (hi.take rfl (Nat.zero_le _)).2⟩
    rw [malloc, if_neg hn, heq]

lemma Inv.opened (hi : Inv h lv fl) : Inv (opened h) lv fl :=
  ⟨hi.window.opened, hi.clean, hi.linked, hi.placed, hi.live, hi.free, hi.disj⟩

variable {room : ℕ}

/-- A growth that the kernel maps in full extends the window. -/
lemma Inv.grown (hi : Inv h lv fl) {chunk : ℕ} (hle : h.brk + chunk ≤ PH14_BRK_LIMIT)
    (hfull : pagesOf chunk ≤ room) :
    Inv (grown h room chunk) lv fl ∧ Kept (lv ++ fl) h.phys (grown h room chunk).phys := by
  have hal := hi.window.aligned
  obtain ⟨hown, hstray, hmem⟩ := mapPages_spec (pagesOf chunk) room h.phys hal
  rw [Nat.min_eq_left hfull] at hown
  have hkept : Kept (lv ++ fl) h.phys (mapPages h.phys h.brk (pagesOf chunk) room) := by
    intro c hc x _ hhi
    exact hmem x (hhi.trans_le (hi.placed c hc).high)
  have hfloor := hi.window.floor
  have hword : ∀ c ∈ lv ++ fl,
      load (mapPages h.phys h.brk (pagesOf chunk) room).mem c.start 8
          = load h.phys.mem c.start 8 ∧
        next (mapPages h.phys h.brk (pagesOf chunk) room) c.start = next h.phys c.start := by
    intro c hc
    have hlt := c.start_lt
    simp only [HDR] at hlt
    constructor
    · exact load_congr fun i hi' => hkept c hc _ (by omega) (by omega)
    · exact load_congr fun i hi' => hkept c hc _ (by omega) (by omega)
  refine ⟨⟨⟨hi.window.low, ?_, ?_, ?_, hi.window.floorAligned, ?_, .inr ⟨?_, rfl⟩⟩,
    hstray hi.clean, ?_, fun c hc => ?_, fun c hc => ?_, fun c hc => ?_, hi.disj⟩, hkept⟩
  · exact hfloor.trans (Nat.le_add_right _ _)
  · show h.brk + pagesOf chunk * PAGE_SIZE ≤ USER_VA_LIMIT
    simp only [pagesOf, PAGE_SIZE, PH14_BRK_LIMIT, USER_VA_LIMIT] at *
    omega
  · show (h.brk + pagesOf chunk * PAGE_SIZE) % PAGE_SIZE = 0
    rw [Nat.add_mul_mod_self_right]
    exact hal
  · intro f
    show f ∈ (mapPages h.phys h.brk (pagesOf chunk) room).owned ↔
      f % PAGE_SIZE = 0 ∧ h.brkFloor ≤ f ∧ f < h.brk + pagesOf chunk * PAGE_SIZE
    rw [hown f, hi.window.pages f]
    omega
  · have htop := hi.window.opened.top
    rcases htop with hc | hc
    · exact absurd hc.2 hi.window.brk_pos.ne'
    · exact hc.1
  · apply hi.linked.congr
    intro a ha
    obtain ⟨c, hc, rfl⟩ := mem_map.mp ha
    exact (hword c (mem_append_right _ hc)).2
  · have hp := hi.placed c hc
    exact ⟨hp.even, hp.low, hp.high.trans (Nat.le_add_right _ _)⟩
  · rw [← (hi.live c hc).1]
    exact ⟨(hword c (mem_append_left _ hc)).1, (hi.live c hc).2⟩
  · exact (hword c (mem_append_right _ hc)).1.trans (hi.free c hc)

/-- A request that is served gets `NULL`, or a block with room for it. -/
lemma malloc_spec (hi : Inv h lv fl) (hs : Served h n room) :
    (∃ g, malloc h room (n % 2 ^ 64) = (g, some 0) ∧ Inv g lv fl) ∨
      ∃ g c fl', malloc h room (n % 2 ^ 64) = (g, some (c.start + HDR)) ∧ c.size = n ∧
        Inv g (c :: lv) fl' ∧ (∀ d ∈ fl, d.start ≠ c.start → d ∈ fl') ∧
        Kept lv h.phys g.phys := by
  have hH : HDR = 16 := rfl
  by_cases h0 : n % 2 ^ 64 = 0
  · refine .inl ⟨h, ?_, hi⟩
    rw [malloc, if_pos h0]
  have h8 := ALIGN8_mod (n % 2 ^ 64)
  rcases malloc_cases hi h0 room with
    ⟨pre, c, post, g, rfl, hle, heq, hinv, hkept⟩ | ⟨hnofit, heq⟩
  · have hfit : Fits h (ALIGN8 (n % 2 ^ 64)) :=
      hi.fits_iff.mpr ⟨c, mem_append_right _ mem_cons_self, hle⟩
    obtain hz | ⟨hno, _⟩ | ⟨hmax, _⟩ := hs
    · exact absurd hz h0
    · exact absurd hfit hno
    have hmod : n % 2 ^ 64 = n := mod_eq_of_lt (by omega)
    rw [hmod, ALIGN8_eq (by omega)] at hle
    refine .inr ⟨g, ⟨c.start, c.cap, n⟩, _, heq, rfl, hinv n (by omega), fun d hd hne => ?_, hkept⟩
    rcases List.mem_cons.mp (List.perm_middle.subset hd) with rfl | hd
    · exact absurd rfl hne
    · exact hd
  rw [heq, mallocGrow_eq hi.window room h8 (ALIGN8_lt _)]
  by_cases href : h.brk + chunkOf (ALIGN8 (n % 2 ^ 64)) > PH14_BRK_LIMIT
  · exact .inl ⟨opened h, by rw [if_pos href], hi.opened⟩
  rw [if_neg href]
  obtain hz | ⟨_, hr⟩ | ⟨hmax, hfit | hfull⟩ := hs
  · exact absurd hz h0
  · exact absurd hr href
  · exact absurd hfit hnofit
  have hmod : n % 2 ^ 64 = n := mod_eq_of_lt (by omega)
  rw [hmod] at h8 hfull href ⊢
  have hneed := ALIGN8_eq (n := n) (by omega)
  obtain ⟨hlo, hhi, hc8⟩ := chunkOf_bounds h8 (ALIGN8_lt n)
  have hchunk := chunkOf_of_lt h8 (by omega)
  obtain ⟨hgrown, hkept⟩ := hi.grown (by omega) hfull
  have hpages : h.brk + chunkOf (ALIGN8 n) ≤ (Malloc.grown h room (chunkOf (ALIGN8 n))).brk := by
    show _ ≤ h.brk + pagesOf (chunkOf (ALIGN8 n)) * PAGE_SIZE
    simp only [pagesOf, PAGE_SIZE]
    omega
  obtain ⟨g, cap, fl', heq', hinv, hsub, hkept'⟩ := carve_spec hgrown h8 hc8
    (by omega) hi.window.floor hpages
    (fun d hd => .inr (hi.placed d hd).high) (by omega : n ≤ ALIGN8 n)
  exact .inr ⟨g, ⟨h.brk, cap, n⟩, fl', heq', rfl, hinv, fun d hd _ => hsub d hd,
    (hkept.mono fun d hd => mem_append_left _ hd).trans hkept'⟩

/-! ## Requests that go wrong -/

/-- The block at `a` is too small for `n` bytes, or not mapped as far as its header says. -/
def Short (h : Heap) (a n : ℕ) : Prop :=
  capOf h.phys.mem a < n ∨ ¬ Covers h.phys.owned a (HDR + capOf h.phys.mem a)

lemma Short.congr {g g' : Heap} {a : ℕ} (hs : Short g a n) (hown : g'.phys.owned = g.phys.owned)
    (hload : load g'.phys.mem a 8 = load g.phys.mem a 8) : Short g' a n := by
  have hcap : capOf g'.phys.mem a = capOf g.phys.mem a := by rw [capOf, hload, capOf]
  rw [Short, hown, hcap]
  exact hs

lemma capOf_setUsed {p : Phys} {b v : ℕ} (h2 : v % 2 = 0) (hv : v < 2 ^ 64) :
    capOf (setUsed (p.st b 8 v) b).mem b = v := by
  have hfirst : capOf (p.st b 8 v).mem b = v :=
    Malloc.capOf_free h2 ((load_put _ _ _ _).trans (mod_eq_of_lt hv))
  rw [setUsed, hfirst]
  exact capOf_used h2 ((load_put _ _ _ _).trans (mod_eq_of_lt (by omega)))

/-- The header that carving leaves, whatever wraps. -/
lemma carve_header (h : Heap) (base : ℕ) {chunk need : ℕ} (h8 : need % 8 = 0) (h64 : need < 2 ^ 64)
    (hc8 : chunk % 8 = 0) (hlo : 4096 ≤ chunk) (hhi : chunk < 2 ^ 63) :
    (carve h base chunk need).2 = some (base + HDR) ∧
      (carve h base chunk need).1.phys.owned = h.phys.owned ∧
      ((capOf (carve h base chunk need).1.phys.mem base = need ∧
          chunk - HDR > add64 (add64 need HDR) 16) ∨
        (capOf (carve h base chunk need).1.phys.mem base = chunk - HDR ∧
          ¬ chunk - HDR > add64 (add64 need HDR) 16)) := by
  have hH : HDR = 16 := rfl
  by_cases hsplit : chunk - HDR > add64 (add64 need HDR) 16
  · rw [carve, if_pos hsplit]
    refine ⟨rfl, rfl, .inl ⟨?_, hsplit⟩⟩
    exact capOf_setUsed (by omega) h64
  · rw [carve, if_neg hsplit]
    refine ⟨rfl, rfl, .inr ⟨?_, hsplit⟩⟩
    have hword : load ((h.phys.st base 8 (chunk - HDR)).st (base + 8) 8 0).mem base 8
        = chunk - HDR := by
      rw [Kheap.st_mem, load_put_of_disjoint (.inl le_rfl)]
      refine (load_put _ _ _ _).trans (mod_eq_of_lt ?_)
      omega
    have hcap := Malloc.capOf_free (by omega) hword
    rw [setUsed, hcap]
    refine capOf_used (by omega) ((load_put _ _ _ _).trans (mod_eq_of_lt ?_))
    omega

/-- Only the pages that the kernel could map are there. -/
lemma grown_covers (w : Window h) {chunk : ℕ} (hn : 0 < n)
    (hc : Covers (grown h room chunk).phys.owned h.brk n) :
    n ≤ min (pagesOf chunk) room * PAGE_SIZE := by
  have hal := w.aligned
  obtain ⟨hown, _, _⟩ := mapPages_spec (pagesOf chunk) room h.phys hal
  have hlast := (hown _).mp (hc (n - 1) (by omega))
  rcases hlast with hold | ⟨_, _, hlt⟩
  · have hwin := w.mem_owned.mp hold
    omega
  · simp only [alignDown, PAGE_SIZE] at *
    omega

/-- A request that is not served gets a block that is short. -/
lemma malloc_short (hi : Inv h lv fl) (hs : ¬ Served h n room) :
    ∃ g a, malloc h room (n % 2 ^ 64) = (g, some (a + HDR)) ∧ Short g a n ∧
      ∀ d ∈ lv, Apart a (a + HDR) d.start d.stop := by
  have hH : HDR = 16 := rfl
  obtain ⟨h0, hs⟩ := not_or.mp hs
  obtain ⟨href, hs⟩ := not_or.mp hs
  have h8 := ALIGN8_mod (n % 2 ^ 64)
  rcases malloc_cases hi h0 room with
    ⟨pre, c, post, g, rfl, hle, heq, hinv, hkept⟩ | ⟨hnofit, heq⟩
  · have hmem : c ∈ pre ++ c :: post := mem_append_right _ mem_cons_self
    have hbig : ¬ n ≤ 2 ^ 63 - 24 := fun hn => hs ⟨hn, .inl (hi.fits_iff.mpr ⟨c, hmem, hle⟩)⟩
    have hg := hinv 0 (Nat.zero_le _)
    have hcap : capOf g.phys.mem c.start = c.cap :=
      hg.capOf_live (c := ⟨c.start, c.cap, 0⟩) mem_cons_self
    have hstop := hi.stop_le (mem_append_right _ hmem)
    refine ⟨g, c.start, heq, .inl ?_, fun d hd => ?_⟩
    · rw [hcap]
      simp only [Cell.stop, USER_VA_LIMIT] at hstop
      omega
    · have hlt := c.start_lt
      rcases hi.drop.2.2.1 d (mem_append_left _ hd) with h | h
      · exact .inl (by omega)
      · exact .inr h
  have hgo : ¬ h.brk + chunkOf (ALIGN8 (n % 2 ^ 64)) > PH14_BRK_LIMIT :=
    fun hgt => href ⟨hnofit, hgt⟩
  rw [heq, mallocGrow_eq hi.window room h8 (ALIGN8_lt _), if_neg hgo]
  obtain ⟨hlo, hhi, hc8⟩ := chunkOf_bounds h8 (ALIGN8_lt (n % 2 ^ 64))
  obtain ⟨hret, hown, hcap⟩ :=
    carve_header (grown h room (chunkOf (ALIGN8 (n % 2 ^ 64)))) h.brk h8 (ALIGN8_lt _) hc8 hlo hhi
  generalize carve (grown h room (chunkOf (ALIGN8 (n % 2 ^ 64)))) h.brk
    (chunkOf (ALIGN8 (n % 2 ^ 64))) (ALIGN8 (n % 2 ^ 64)) = out at *
  obtain ⟨g, r⟩ := out
  obtain rfl : r = some (h.brk + HDR) := hret
  simp only at hown hcap
  refine ⟨g, h.brk, rfl, ?_, fun d hd => .inr (hi.placed d (mem_append_left _ hd)).high⟩
  have hcov : Covers g.phys.owned h.brk (HDR + capOf g.phys.mem h.brk) →
      HDR + capOf g.phys.mem h.brk ≤
        min (pagesOf (chunkOf (ALIGN8 (n % 2 ^ 64)))) room * PAGE_SIZE := by
    intro hc
    rw [hown] at hc
    exact grown_covers hi.window (by omega) hc
  have h64 := ALIGN8_lt (n % 2 ^ 64)
  by_cases hbig : n ≤ 2 ^ 63 - 24
  · -- the growth stopped part-way
    right
    intro hc
    have hbytes := hcov hc
    have hroom : ¬ pagesOf (chunkOf (ALIGN8 (n % 2 ^ 64))) ≤ room := fun hr => hs ⟨hbig, .inr hr⟩
    rw [Nat.min_eq_right (by omega)] at hbytes
    have hid : n % 2 ^ 64 = n := mod_eq_of_lt (by omega)
    rw [hid] at h8 h64 hlo hc8 hcap hroom
    have hneed := ALIGN8_eq (n := n) (by omega)
    have hchunk := chunkOf_of_lt h8 (by omega)
    simp only [pagesOf, PAGE_SIZE] at hroom hbytes
    rcases hcap with ⟨hcap, hsplit⟩ | ⟨hcap, _⟩
    · omega
    · omega
  · -- the size wraps
    rcases Nat.lt_or_ge n (2 ^ 64) with hlt | hge
    · have hid : n % 2 ^ 64 = n := mod_eq_of_lt hlt
      rw [hid] at h8 h64 hcap hcov
      rcases Nat.lt_or_ge (n + 7) (2 ^ 64) with hok | hwrap
      · have hneed := ALIGN8_eq hok
        have hchunk := chunkOf_of_ge h64 (by omega)
        have hpage : pagesOf (chunkOf (ALIGN8 n)) = 1 := by
          rw [hchunk]
          rfl
        rcases hcap with ⟨hcap, _⟩ | ⟨hcap, _⟩
        · right
          intro hc
          have hbytes := hcov hc
          rw [hpage] at hbytes
          simp only [PAGE_SIZE] at hbytes
          omega
        · left
          omega
      · have hneed := ALIGN8_wrap hlt hwrap
        have hchunk : chunkOf (ALIGN8 n) = 4096 := by
          rw [hneed]
          rfl
        left
        rcases hcap with ⟨hcap, _⟩ | ⟨hcap, _⟩ <;> omega
    · left
      rcases hcap with ⟨hcap, _⟩ | ⟨hcap, _⟩ <;> omega

end

/-! ## The law over runs -/

/-- The blocks that the program holds are the live cells, and those it has given back are on
the list. -/
structure Held (s : Sys) (lv fl : List Cell) : Prop where
  live : s.live.Perm (lv.map Cell.block)
  freed : ∀ f ∈ s.freed, f ∈ fl.map Cell.start
  running : s.halted = false

/-- The state of a process in which nothing has gone wrong. -/
def Sound (s : Sys) : Prop := ∃ lv fl, Inv s.heap lv fl ∧ Held s lv fl

/-- The call returned `NULL`, or a new cell for `n` bytes. -/
def Gets (lv fl : List Cell) (n : ℕ) (out : Heap × Option ℕ) : Prop :=
  (out.2 = some 0 ∧ Inv out.1 lv fl) ∨
    ∃ c fl', out.2 = some (c.start + HDR) ∧ c.size = n ∧ Inv out.1 (c :: lv) fl' ∧
      ∀ d ∈ fl, d.start ≠ c.start → d ∈ fl'

section

variable {s s' : Sys} {lv fl : List Cell}

lemma sound_start (h : Start s) : Sound s := by
  obtain ⟨hfree, htop, hend⟩ := h.vars
  obtain ⟨hown, hstray⟩ := h.window
  obtain ⟨hlive, hfreed, hhalt⟩ := h.ghosts
  have hfloor := h.floor
  refine ⟨[], [], ⟨⟨?_, hfloor.le, h.high, h.aligned, ?_, fun f => ?_, .inl ⟨htop, hend⟩⟩, hstray,
    Chain.linked_nil.mpr hfree, by simp, by simp, by simp, List.Pairwise.nil⟩,
    ⟨by rw [hlive]; rfl, by rw [hfreed]; simp, hhalt⟩⟩
  · rw [hfloor]
    exact h.low
  · rw [hfloor]
    exact h.aligned
  · rw [hown, hfloor]
    refine iff_of_false (by simp) ?_
    omega

lemma Sound.law (hs : Sound s) : Law s := by
  obtain ⟨lv, fl, hi, hh⟩ := hs
  have hstop : ∀ c ∈ lv ++ fl, stop s.heap.phys.mem c.start = c.stop := by
    intro c hc
    rcases List.mem_append.mp hc with hc | hc
    · rw [stop, hi.capOf_live hc, Cell.stop]
    · rw [stop, hi.capOf_free hc, Cell.stop]
  have hcov : ∀ c ∈ lv ++ fl, Covers s.heap.phys.owned c.start (HDR + c.cap) := by
    intro c hc
    have hc' := hi.covers hc
    have hlen : c.stop - c.start = HDR + c.cap := by
      simp only [Cell.stop]
      omega
    rwa [hlen] at hc'
  refine ⟨hh.running, hi.clean, fun b hb => ?_, fl.map Cell.start, hi.linked, hi.linked.nodup,
    fun f hf => ?_, hh.freed, ?_⟩
  · obtain ⟨c, hc, rfl⟩ := mem_map.mp (hh.live.subset hb)
    rw [Cell.block_start, hi.capOf_live hc]
    exact ⟨(hi.live c hc).2, hcov c (mem_append_left _ hc)⟩
  · obtain ⟨c, hc, rfl⟩ := mem_map.mp hf
    rw [hi.capOf_free hc]
    exact hcov c (mem_append_right _ hc)
  · have hstarts : (s.live.map Block.start ++ fl.map Cell.start).Perm
        ((lv ++ fl).map Cell.start) := by
      rw [List.map_append]
      refine List.Perm.append_right _ ?_
      have hmap := hh.live.map Block.start
      have hfun : Block.start ∘ Cell.block = Cell.start := funext Cell.block_start
      rwa [List.map_map, hfun] at hmap
    refine (hstarts.pairwise_iff fun hac => hac.elim .inr .inl).mpr ?_
    rw [List.pairwise_map]
    refine hi.disj.imp_of_mem fun {c d} hc hd hcd => ?_
    rw [hstop c hc, hstop d hd]
    exact hcd

/-- The cell of a block that the program holds, put in front. -/
lemma Held.split (hh : Held s lv fl) {b : Block} (hb : b ∈ s.live) :
    ∃ c lv', c.block = b ∧ lv.Perm (c :: lv') ∧ (s.live.erase b).Perm (lv'.map Cell.block) := by
  obtain ⟨c, hc, rfl⟩ := mem_map.mp (hh.live.subset hb)
  have hperm := List.perm_cons_erase hc
  refine ⟨c, lv.erase c, rfl, hperm, ?_⟩
  have hall := (hh.live.trans (hperm.map _)).erase c.block
  rwa [List.map_cons, List.erase_cons_head] at hall

variable {n : ℕ}

lemma held_handOut (hh : Held s lv fl) {out : Heap × Option ℕ} (hg : Gets lv fl n out) :
    Sound (s.handOut n out) := by
  obtain ⟨g, r⟩ := out
  rcases hg with ⟨hr, hi⟩ | ⟨c, fl', hr, hsize, hi, hsub⟩
  · obtain rfl : r = some 0 := hr
    exact ⟨lv, fl, hi, ⟨hh.live, hh.freed, hh.running⟩⟩
  · obtain rfl : r = some (c.start + HDR) := hr
    have hne : c.start + HDR ≠ 0 := succ_ne_zero _
    have hout : s.handOut n (g, some (c.start + HDR)) =
        { s with
          heap := g
          live := c.block :: s.live
          freed := s.freed.filter (· ≠ c.start) } := by
      simp only [Sys.handOut, if_neg hne, add_sub_cancel, Cell.block, hsize]
    rw [hout]
    refine ⟨c :: lv, fl', hi, ⟨hh.live.cons _, fun f hf => ?_, hh.running⟩⟩
    obtain ⟨hf, hfc⟩ := List.mem_filter.mp hf
    obtain ⟨d, hd, rfl⟩ := mem_map.mp (hh.freed f hf)
    exact List.mem_map_of_mem (hsub d hd (of_decide_eq_true hfc))

lemma not_law_handOut {a : ℕ} {out : Heap × Option ℕ} (hret : out.2 = some (a + HDR))
    (hshort : Short out.1 a n) : ¬ Law (s.handOut n out) := by
  obtain ⟨g, r⟩ := out
  obtain rfl : r = some (a + HDR) := hret
  intro hlaw
  have hne : a + HDR ≠ 0 := succ_ne_zero _
  have hlive : (⟨a + HDR, n⟩ : Block) ∈ (s.handOut n (g, some (a + HDR))).live := by
    exact mem_cons_self
  have hheap : (s.handOut n (g, some (a + HDR))).heap = g := by
    simp only [Sys.handOut, if_neg hne]
  have hroom := hlaw.room _ hlive
  rw [hheap] at hroom
  have hstart : Block.start ⟨a + HDR, n⟩ = a := add_sub_cancel _ _
  rw [hstart] at hroom
  rcases hshort with hcap | hcov
  · exact absurd hroom.1 (Nat.not_le.mpr hcap)
  · exact hcov hroom.2

/-! ### Each call -/

variable {h : Heap} {room : ℕ}

lemma malloc_gets (hi : Inv h lv fl) (hs : Served h n room) :
    Gets lv fl n (malloc h room (n % 2 ^ 64)) := by
  rcases malloc_spec hi hs with ⟨g, heq, hg⟩ | ⟨g, c, fl', heq, hsize, hg, hsub, _⟩
  · rw [heq]
    exact .inl ⟨rfl, hg⟩
  · rw [heq]
    exact .inr ⟨c, fl', rfl, hsize, hg, hsub⟩

lemma calloc_gets (hi : Inv h lv fl) {nm sz : ℕ}
    (hs : Served h (nm * sz) room) : Gets lv fl (nm * sz) (calloc h room nm sz) := by
  rcases malloc_spec hi hs with ⟨g, heq, hg⟩ | ⟨g, c, fl', heq, hsize, hg, hsub, _⟩
  · rw [calloc]
    simp only [heq, if_true]
    exact .inl ⟨rfl, hg⟩
  · have hne : c.start + HDR ≠ 0 := succ_ne_zero _
    rw [calloc]
    simp only [heq, if_neg hne]
    have hcov := hg.covers (c := c) mem_cons_self
    have hcap := (hg.live c mem_cons_self).2
    have hstop : c.stop = c.start + HDR + c.cap := rfl
    refine .inr ⟨c, fl', rfl, hsize, hg.payload ?_, hsub⟩
    refine (Into.refl _).memset ?_ le_rfl (by omega)
    exact Kheap.covers_sub hcov (by omega) (by omega)

lemma calloc_short (hi : Inv h lv fl) {nm sz : ℕ}
    (hs : ¬ Served h (nm * sz) room) :
    ∃ a, (calloc h room nm sz).2 = some (a + HDR) ∧ Short (calloc h room nm sz).1 a (nm * sz) := by
  obtain ⟨g, a, heq, hshort, _⟩ := malloc_short hi hs
  have hne : a + HDR ≠ 0 := succ_ne_zero _
  refine ⟨a, ?_⟩
  rw [calloc]
  simp only [heq, if_neg hne, true_and]
  exact hshort.congr rfl (Kheap.load_memset (.inl (by simp only [HDR]; omega)))

/-- `realloc` with a block that is too small: the old bytes are copied to a new block. -/
lemma realloc_moves {d : Cell} (hi : Inv h (d :: lv) fl)
    (hn : n < 2 ^ 64) (hlt : d.cap < n) (hs : Served h n room) :
    ((realloc h room (d.start + HDR) n).2 = some 0 ∧
        Inv (realloc h room (d.start + HDR) n).1 (d :: lv) fl) ∨
      ∃ c fl', (realloc h room (d.start + HDR) n).2 = some (c.start + HDR) ∧
        c.start ≠ d.start ∧ c.size = n ∧
        Inv (realloc h room (d.start + HDR) n).1 (c :: lv) (d :: fl') ∧
        (∀ e ∈ fl, e.start ≠ c.start → e ∈ fl') ∧
        ∀ i < d.cap, (realloc h room (d.start + HDR) n).1.phys.mem (c.start + HDR + i)
          = h.phys.mem (d.start + HDR + i) := by
  have hne : d.start + HDR ≠ 0 := succ_ne_zero _
  have hn0 : n ≠ 0 := by omega
  have hold : capOf h.phys.mem d.start = d.cap := hi.capOf_live mem_cons_self
  have hmod : n % 2 ^ 64 = n := mod_eq_of_lt hn
  have hmalloc := malloc_spec hi hs
  rw [hmod] at hmalloc
  rw [realloc, if_neg hne, if_neg hn0]
  simp only [add_sub_cancel, hold]
  rw [if_neg (by omega)]
  rcases hmalloc with ⟨g, heq, hg⟩ | ⟨g, c, fl', heq, hsize, hg, hsub, hkept⟩
  · rw [heq]
    exact .inl ⟨rfl, hg⟩
  · rw [heq]
    have hnc : c.start + HDR ≠ 0 := succ_ne_zero _
    simp only [if_neg hnc]
    have hcov := hg.covers (c := c) mem_cons_self
    have hcap := (hg.live c mem_cons_self).2
    have hstop : c.stop = c.start + HDR + c.cap := rfl
    have hlen : (slice g.phys.mem (d.start + HDR) d.cap).length = d.cap := slice_length _ _ _
    have hcd : c.Disj d := hg.removeLive.2 d (mem_append_left _ mem_cons_self)
    -- the copy stays in the payload of the new block
    have hin : Into (c.start + HDR) c.stop g.phys
        (g.phys.write (c.start + HDR) (slice g.phys.mem (d.start + HDR) d.cap)) := by
      refine (Into.refl _).write ?_ le_rfl (by omega)
      exact Kheap.covers_sub hcov (by omega) (by omega)
    have hcopy := (hg.payload hin).perm (List.Perm.swap c d lv).symm.symm
    obtain ⟨hfree, hkept'⟩ := free_spec hcopy
    refine .inr ⟨c, fl', rfl, Cell.ne_of_disj hcd, hsize, hfree, hsub, fun i hi' => ?_⟩
    rw [hkept' c mem_cons_self _ (by omega) (by omega)]
    show store g.phys.mem (c.start + HDR) _ (c.start + HDR + i) = _
    rw [store_add (by omega), slice_getElem]
    have hdstop : d.stop = d.start + HDR + d.cap := rfl
    exact hkept d mem_cons_self _ (by omega) (by omega)

/-- A `realloc` that moves to a short block. -/
lemma realloc_short {d : Cell} (hi : Inv h (d :: lv) fl)
    (hn : n < 2 ^ 64) (hlt : d.cap < n) (hs : ¬ Served h n room) :
    ∃ a, a ≠ d.start ∧ (realloc h room (d.start + HDR) n).2 = some (a + HDR) ∧
      Short (realloc h room (d.start + HDR) n).1 a n := by
  have hne : d.start + HDR ≠ 0 := succ_ne_zero _
  have hn0 : n ≠ 0 := by omega
  have hold : capOf h.phys.mem d.start = d.cap := hi.capOf_live mem_cons_self
  obtain ⟨g, a, heq, hshort, hap⟩ := malloc_short hi hs
  have had : a + HDR ≤ d.start ∨ d.stop ≤ a := hap d mem_cons_self
  have hdlt := d.start_lt
  have hH : HDR = 16 := rfl
  have hna : a + HDR ≠ 0 := succ_ne_zero _
  rw [mod_eq_of_lt hn] at heq
  refine ⟨a, by omega, ?_⟩
  rw [realloc, if_neg hne, if_neg hn0]
  simp only [add_sub_cancel, hold]
  rw [if_neg (by omega), heq]
  simp only [if_neg hna, true_and]
  -- neither the copy nor the stores of `free` touch the header at `a`
  rw [free, if_neg hne]
  refine hshort.congr rfl ?_
  rw [Kheap.st_mem, load_put_of_disjoint (by omega), Kheap.st_mem, load_put_of_disjoint (by omega)]
  exact load_store_of_disjoint (.inl (by omega))

end

/-! ### Steps -/

section

variable {s s' : Sys} {op : Op}

/-- A block that the program holds is a live cell. -/
lemma Sound.cell (hs : Sound s) {b : Block} (hb : b ∈ s.live) :
    ∃ d lv fl, d.block = b ∧ Inv s.heap (d :: lv) fl ∧ Held s (d :: lv) fl ∧
      (s.live.erase b).Perm (lv.map Cell.block) := by
  obtain ⟨lv, fl, hi, hh⟩ := hs
  obtain ⟨d, lv', hblock, hperm, herase⟩ := hh.split hb
  exact ⟨d, lv', fl, hblock, hi.perm hperm.symm,
    ⟨hh.live.trans (hperm.map _), hh.freed, hh.running⟩, herase⟩

lemma Held.giveBack {d : Cell} {lv fl : List Cell} (hh : Held s (d :: lv) fl)
    (herase : (s.live.erase d.block).Perm (lv.map Cell.block)) (h : Heap) :
    Held (s.giveBack d.block h) lv (d :: fl) := by
  refine ⟨herase, List.forall_mem_cons.mpr ⟨?_, fun f hf => ?_⟩, hh.running⟩
  · rw [Cell.block_start]
    exact mem_cons_self
  · exact List.mem_cons_of_mem _ (hh.freed f hf)

lemma sound_free (hs : Sound s) {b : Block} (hb : b ∈ s.live) :
    Sound (s.giveBack b (free s.heap b.ptr)) := by
  obtain ⟨d, lv, fl, rfl, hi, hh, herase⟩ := hs.cell hb
  exact ⟨lv, d :: fl, (free_spec hi).1, hh.giveBack herase _⟩

/-- Stores in the payloads, or outside the window. -/
lemma sound_other (hs : Sound s) {mem : ℕ → UInt8}
    (hmem : ∀ a, alignDown a ∈ s.heap.phys.owned →
      (∀ b ∈ s.live, a < b.ptr ∨ b.ptr + b.size ≤ a) → mem a = s.heap.phys.mem a) :
    Sound { s with heap := { s.heap with phys := { s.heap.phys with mem := mem } } } := by
  obtain ⟨lv, fl, hi, hh⟩ := hs
  refine ⟨lv, fl, hi.congr rfl hi.clean fun c hc x hlo hhi => hmem x ?_ fun b hb => ?_,
    ⟨hh.live, hh.freed, hh.running⟩⟩
  · have hp := hi.placed c hc
    have hlt := c.start_lt
    exact hi.window.mem_owned.mpr ⟨hp.low.trans hlo, by have := hp.high; omega⟩
  · -- a header is in no payload
    obtain ⟨d, hd, rfl⟩ := mem_map.mp (hh.live.subset hb)
    show x < d.start + HDR ∨ d.start + HDR + d.size ≤ x
    have hsize := (hi.live d hd).2
    have hstop : d.stop = d.start + HDR + d.cap := rfl
    have hlt := c.start_lt
    by_cases hcd : c = d
    · rw [← hcd]
      exact .inl hhi
    · have hdisj : c.Disj d := hi.disj.forall hc (mem_append_left _ hd) hcd
      rcases hdisj with h | h <;> omega

/-- A `realloc` in place, to nothing or by a copy. -/
lemma sound_realloc (hs : Sound s) {b : Block} (hb : b ∈ s.live) {n room : ℕ} (hn : n < 2 ^ 64)
    (hc : capOf s.heap.phys.mem b.start ≥ n ∨ Served s.heap n room) :
    Sound (s.resize b n (realloc s.heap room b.ptr n)) ∧
      ∀ np, (realloc s.heap room b.ptr n).2 = some np → np ≠ 0 → ∀ i < min b.size n,
        (s.resize b n (realloc s.heap room b.ptr n)).heap.phys.mem (np + i)
          = s.heap.phys.mem (b.ptr + i) := by
  obtain ⟨d, lv, fl, rfl, hi, hh, herase⟩ := hs.cell hb
  have hcap : capOf s.heap.phys.mem d.start = d.cap := hi.capOf_live mem_cons_self
  have hsize : d.block.size ≤ d.cap := (hi.live d mem_cons_self).2
  have hne : d.start + HDR ≠ 0 := succ_ne_zero _
  have hptr : d.block.ptr = d.start + HDR := rfl
  rw [Cell.block_start, hcap] at hc
  rw [hptr]
  by_cases hn0 : n = 0
  · have heq : realloc s.heap room (d.start + HDR) n = (free s.heap (d.start + HDR), some 0) := by
      rw [realloc, if_neg hne, if_pos hn0]
    rw [heq]
    refine ⟨?_, fun np hnp hz => absurd (Option.some.inj hnp).symm hz⟩
    simp only [Sys.resize, if_pos hn0]
    exact sound_free hs hb
  by_cases hfit : d.cap ≥ n
  · have heq : realloc s.heap room (d.start + HDR) n = (s.heap, some (d.start + HDR)) := by
      rw [realloc, if_neg hne, if_neg hn0]
      simp only [add_sub_cancel, hcap, if_pos hfit]
    rw [heq]
    have hres : s.resize d.block n (s.heap, some (d.start + HDR)) =
        { s with live := ⟨d.start + HDR, n⟩ :: s.live.erase d.block } := by
      simp only [Sys.resize, if_neg hn0, if_neg hne, hptr, if_true]
    rw [hres]
    refine ⟨⟨⟨d.start, d.cap, n⟩ :: lv, fl, hi.resize hfit, ⟨herase.cons _, hh.freed, hh.running⟩⟩,
      fun np hnp _ i _ => ?_⟩
    obtain rfl := Option.some.inj hnp
    rfl
  have hserved : Served s.heap n room := hc.resolve_left hfit
  rcases realloc_moves hi hn (by omega) hserved with
    ⟨hret, hinv⟩ | ⟨c, fl', hret, hcd, hcsize, hinv, hsub, hbytes⟩
  · generalize realloc s.heap room (d.start + HDR) n = out at *
    obtain ⟨g, r⟩ := out
    obtain rfl : r = some 0 := hret
    refine ⟨?_, fun np hnp hz => absurd (Option.some.inj hnp).symm hz⟩
    simp only [Sys.resize, if_neg hn0, if_true]
    exact ⟨d :: lv, fl, hinv, ⟨hh.live, hh.freed, hh.running⟩⟩
  · generalize realloc s.heap room (d.start + HDR) n = out at *
    obtain ⟨g, r⟩ := out
    obtain rfl : r = some (c.start + HDR) := hret
    have hnc : c.start + HDR ≠ 0 := succ_ne_zero _
    have hncd : c.start + HDR ≠ d.block.ptr := by
      rw [hptr]
      omega
    have hres : s.resize d.block n (g, some (c.start + HDR)) =
        (s.giveBack d.block g).handOut n (g, some (c.start + HDR)) := by
      simp only [Sys.resize, if_neg hn0, if_neg hnc, if_neg hncd]
    have hheap : ((s.giveBack d.block g).handOut n (g, some (c.start + HDR))).heap = g := by
      simp only [Sys.handOut, if_neg hnc]
    rw [hres]
    constructor
    · refine held_handOut (hh.giveBack herase g) (.inr ⟨c, d :: fl', rfl, hcsize, hinv, ?_⟩)
      intro e he hec
      rcases List.mem_cons.mp he with rfl | he
      · exact mem_cons_self
      · exact List.mem_cons_of_mem _ (hsub e he hec)
    · intro np hnp _ i hi'
      obtain rfl := Option.some.inj hnp
      rw [hheap]
      exact hbytes i (by omega)

/-- A step that meets the condition obeys the law. -/
lemma Sound.step (hs : Sound s) (hstep : Step s op s') (hc : Clean s op) :
    Sound s' ∧ Lawful s op s' := by
  obtain ⟨_, _, hstep⟩ := hstep
  obtain ⟨lv, fl, hi, hh⟩ := id hs
  cases op with
  | malloc n room =>
    obtain ⟨hn, rfl⟩ := hstep
    have hgets := malloc_gets hi hc
    rw [mod_eq_of_lt hn] at hgets
    have hsound := held_handOut hh hgets
    exact ⟨hsound, hsound.law, trivial⟩
  | calloc nm sz room =>
    obtain ⟨_, _, rfl⟩ := hstep
    have hsound := held_handOut hh (calloc_gets hi hc)
    exact ⟨hsound, hsound.law, trivial⟩
  | realloc p n room =>
    obtain ⟨hn, ⟨rfl, rfl⟩ | ⟨b, hb, rfl, rfl⟩⟩ := hstep
    · have hserved : Served s.heap n room := hc.resolve_left fun h => h.1 rfl
      have hgets := malloc_gets hi hserved
      rw [mod_eq_of_lt hn] at hgets
      have hsound := held_handOut hh hgets
      refine ⟨hsound, hsound.law, fun b hb hb0 => ?_⟩
      -- no block is at the null pointer
      obtain ⟨c, _, rfl⟩ := mem_map.mp (hh.live.subset hb)
      exact absurd hb0 (succ_ne_zero _)
    · obtain ⟨hsound, hbytes⟩ := sound_realloc hs hb hn (hc.imp And.right id)
      refine ⟨hsound, hsound.law, fun b' hb' hptr np hnp hnz i hi' => ?_⟩
      -- the bytes up to the size of any block at that pointer
      have hsame : b' = b := by
        obtain ⟨c', hc', rfl⟩ := mem_map.mp (hh.live.subset hb')
        obtain ⟨c, hcm, rfl⟩ := mem_map.mp (hh.live.subset hb)
        have hstart : c'.start = c.start := Nat.add_right_cancel hptr
        by_contra hne
        have hcc : c' ≠ c := fun h => hne (by rw [h])
        exact Cell.ne_of_disj (hi.disj.forall (mem_append_left _ hc')
          (mem_append_left _ hcm) hcc) hstart
      rw [hsame] at hi'
      exact hbytes np hnp hnz i hi'
  | free p =>
    rcases hstep with ⟨rfl, rfl⟩ | ⟨b, hb, rfl, rfl⟩
    · have hnull : free s.heap 0 = s.heap := if_pos rfl
      rw [hnull]
      exact ⟨hs, hs.law, trivial⟩
    · have hsound := sound_free hs hb
      exact ⟨hsound, hsound.law, trivial⟩
  | other =>
    obtain ⟨mem, hmem, rfl⟩ := hstep
    have hsound := sound_other hs hmem
    exact ⟨hsound, hsound.law, trivial⟩

/-- A step that does not meet the condition breaks the law. -/
lemma Sound.not_law (hs : Sound s) (hstep : Step s op s') (hc : ¬ Clean s op) : ¬ Law s' := by
  obtain ⟨_, _, hstep⟩ := hstep
  obtain ⟨lv, fl, hi, hh⟩ := id hs
  cases op with
  | malloc n room =>
    obtain ⟨hn, rfl⟩ := hstep
    obtain ⟨g, a, heq, hshort, _⟩ := malloc_short hi hc
    rw [mod_eq_of_lt hn] at heq
    rw [heq]
    exact not_law_handOut rfl hshort
  | calloc nm sz room =>
    obtain ⟨_, _, rfl⟩ := hstep
    obtain ⟨a, hret, hshort⟩ := calloc_short hi hc
    exact not_law_handOut hret hshort
  | realloc p n room =>
    obtain ⟨hfit, hserved⟩ := not_or.mp hc
    obtain ⟨hn, ⟨rfl, rfl⟩ | ⟨b, hb, rfl, rfl⟩⟩ := hstep
    · obtain ⟨g, a, heq, hshort, _⟩ := malloc_short hi hserved
      rw [mod_eq_of_lt hn] at heq
      have hreal : realloc s.heap room 0 n = (g, some (a + HDR)) := heq
      rw [hreal]
      exact not_law_handOut rfl hshort
    · obtain ⟨d, lv, fl, rfl, hi, _, _⟩ := hs.cell hb
      have hcap : capOf s.heap.phys.mem d.start = d.cap := hi.capOf_live mem_cons_self
      have hptr : d.block.ptr = d.start + HDR := rfl
      have hlt : d.cap < n := by
        by_contra hge
        refine hfit ⟨succ_ne_zero _, ?_⟩
        rw [hptr, add_sub_cancel, hcap]
        omega
      obtain ⟨a, had, hret, hshort⟩ := realloc_short hi hn hlt hserved
      rw [hptr]
      have hres : s.resize d.block n (realloc s.heap room (d.start + HDR) n) =
          (s.giveBack d.block (realloc s.heap room (d.start + HDR) n).1).handOut n
            (realloc s.heap room (d.start + HDR) n) := by
        have hnd : a + HDR ≠ d.block.ptr := by
          rw [hptr]
          omega
        have hn0 : n ≠ 0 := by omega
        have hna : a + HDR ≠ 0 := succ_ne_zero _
        simp only [Sys.resize, hret, hn0, hna, hnd, if_false]
      rw [hres]
      exact not_law_handOut hret hshort
  | free p => exact absurd trivial hc
  | other => exact absurd trivial hc

lemma Sound.lawful_iff (hs : Sound s) (hstep : Step s op s') : Lawful s op s' ↔ Clean s op := by
  constructor
  · intro hlaw
    by_contra hc
    exact hs.not_law hstep hc hlaw.1
  · intro hc
    exact (hs.step hstep hc).2

end

/-- The heap law holds along a run exactly when every request that needs a block is for at
most 2^63 - 24 bytes and is served from the list or by a growth that is mapped in full. -/
theorem blocks_mapped_disjoint {s t : Sys} {ops : List Op} (hstart : Start s) :
    Run (Guarded Clean Step) s ops t ↔
      Run (fun s op u => Step s op u ∧ Lawful s op u) s ops t := by
  refine Run.guarded_iff (I := Sound) (fun s op u hs hstep hlaw => ?_)
    (fun s op u hs hstep => hs.lawful_iff hstep) (sound_start hstart)
  exact (hs.step hstep ((hs.lawful_iff hstep).mp hlaw)).1

/-! ### A process with nothing mapped -/

/-- A process loaded at the lowest address, with its memory cleared. -/
def fresh : Sys :=
  ⟨⟨⟨⟨fun _ => 0, [], []⟩, USER_CODE_BASE, USER_CODE_BASE⟩, 0, 0, 0⟩, [], [], false⟩

lemma start_fresh : Start fresh := by
  constructor <;> decide

/-- A request that one page serves, and one that takes four. -/
theorem blocks_mapped_disjoint_two :
    ∃ t, Run (fun s op u => Step s op u ∧ Lawful s op u) fresh
      [.malloc 24 1, .calloc 5000 3 4] t := by
  have hfirst : Clean fresh (.malloc 24 1) := .inr (.inr ⟨by decide, .inr (by decide)⟩)
  have hstep : Step fresh (.malloc 24 1) (fresh.handOut 24 (malloc fresh.heap 1 24)) :=
    ⟨rfl, rfl, by decide, rfl⟩
  have hlaw := ((sound_start start_fresh).step hstep hfirst).1.law
  have hnext : Clean (fresh.handOut 24 (malloc fresh.heap 1 24)) (.calloc 5000 3 4) :=
    .inr (.inr ⟨by decide, .inr (by decide)⟩)
  exact ⟨_, (blocks_mapped_disjoint start_fresh).mp ((Run.nil.snoc ⟨hfirst, hstep⟩).snoc
    ⟨hnext, hlaw.running, hlaw.inside, by decide, by decide, rfl⟩)⟩

/-- A request for 2^64 - 1 bytes is rounded to none and gets a block. -/
theorem malloc_size_wraps :
    ¬ ∀ (s t u : Sys) (ops : List Op) (op : Op), Start s →
      Run (fun s op u => Step s op u ∧ Lawful s op u) s ops t → Step t op u → Lawful t op u := by
  intro hall
  have hstep : Step fresh (.malloc (2 ^ 64 - 1) 1)
      (fresh.handOut (2 ^ 64 - 1) (malloc fresh.heap 1 (2 ^ 64 - 1))) :=
    ⟨rfl, rfl, by decide, rfl⟩
  have hlaw := hall _ _ _ _ _ start_fresh .nil hstep
  obtain h0 | ⟨_, href⟩ | ⟨hmax, _⟩ := ((sound_start start_fresh).lawful_iff hstep).mp hlaw
  · exact absurd h0 (by decide)
  · exact absurd href (by unfold Refused; decide)
  · exact absurd hmax (by decide)

end Malloc
end MobilePhoneOs
