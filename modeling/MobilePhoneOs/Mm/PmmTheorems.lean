import MobilePhoneOs.Mm.Pmm
import Mathlib.Data.List.Chain
import Mathlib.Tactic.Linarith

/-!
# The frame allocator law

`Inv` is the law as an invariant: the free list is a chain, and free and handed-out
frames are a permutation of the frames that were threaded. Each call has one lemma over
the chain; `pmm_alloc_contig` is followed node by node with `RunOk`, which says which
part of the list the current run is.
-/

namespace MobilePhoneOs

open List (mem_cons_self length_append append_assoc nodup_append)
namespace Mm
namespace Pmm

open Chain
open Sys (init)

/-- The end mark of the free list. -/
abbrev IsNull (a : ℕ) : Prop := a = 0

/-! ## Frame addresses -/

/-- A page-aligned address that is not the null pointer. -/
structure IsFrame (pa : ℕ) : Prop where
  pos : 0 < pa
  lt : pa < 2 ^ 64
  aligned : pa % PAGE_SIZE = 0

variable {pa : ℕ}

lemma alignDown_of_aligned (h : pa % PAGE_SIZE = 0) : alignDown pa = pa :=
  Nat.div_mul_cancel (Nat.dvd_of_mod_eq_zero h)

lemma isAligned_iff : isAligned pa = true ↔ pa % PAGE_SIZE = 0 := by
  simp [isAligned]

variable {n q : ℕ}

/-- The address one page above a frame, when it wraps, is no frame. -/
lemma add64_eq (hlast : q + n * PAGE_SIZE < 2 ^ 64)
    (hal : q % PAGE_SIZE = 0) (hpa : 0 < pa) (h : pa = add64 q ((n + 1) * PAGE_SIZE)) :
    pa = q + (n + 1) * PAGE_SIZE := by
  simp only [add64, PAGE_SIZE] at *
  omega

lemma sub64_eq (hq : q < 2 ^ 64) (hlast : n * PAGE_SIZE < q)
    (hal : q % PAGE_SIZE = 0) (h : pa = sub64 q ((n + 1) * PAGE_SIZE)) :
    pa + (n + 1) * PAGE_SIZE = q := by
  simp only [sub64, PAGE_SIZE] at *
  omega

@[simp] lemma span_length (pa n : ℕ) : (span pa n).length = n := by simp [span]

lemma span_succ (pa n : ℕ) : span pa (n + 1) = span pa n ++ [pa + n * PAGE_SIZE] := by
  simp [span, List.range_succ]

lemma span_mem {i : ℕ} (h : i < n) : pa + i * PAGE_SIZE ∈ span pa n :=
  List.mem_map.mpr ⟨i, List.mem_range.mpr h, rfl⟩

/-- The span below `q` in descending order, `q` first. -/
def spanDown (q n : ℕ) : List ℕ := (List.range n).map fun i => q - i * PAGE_SIZE

@[simp] lemma spanDown_length (q n : ℕ) : (spanDown q n).length = n := by simp [spanDown]

lemma spanDown_succ (q n : ℕ) : spanDown q (n + 1) = spanDown q n ++ [q - n * PAGE_SIZE] := by
  simp [spanDown, List.range_succ]

lemma spanDown_mem {i : ℕ} (h : i < n) : q - i * PAGE_SIZE ∈ spanDown q n :=
  List.mem_map.mpr ⟨i, List.mem_range.mpr h, rfl⟩

/-- A descending run read backwards is the span from its low end. -/
lemma spanDown_reverse (q n : ℕ) (h : n * PAGE_SIZE ≤ q) :
    (spanDown q (n + 1)).reverse = span (q - n * PAGE_SIZE) (n + 1) := by
  refine List.ext_getElem (by simp) fun i hi _ => ?_
  have hin : i < n + 1 := by simpa using hi
  simp only [spanDown, span, List.getElem_reverse, List.length_map, List.length_range,
    List.getElem_map, List.getElem_range]
  simp only [PAGE_SIZE] at *
  omega

/-! ## The scan of `pmm_alloc_contig` -/

/-- The last node of a list prefix, 0 for the empty prefix. -/
def lastOr (pre : List ℕ) : ℕ := pre.getLastD 0

@[simp] lemma lastOr_concat (pre : List ℕ) (a : ℕ) : lastOr (pre ++ [a]) = a := by
  simp [lastOr]

/-- The shape that the direction gives the current run. -/
def Shape : Dir → ℕ → List ℕ → Prop
  | .unknown, start, run => run = [start]
  | .up, start, run => run = span start run.length ∧ 2 ≤ run.length
  | .down, start, run => run = spanDown start run.length ∧ 2 ≤ run.length

/-- After the scan of `pre ++ run`, the current run is `run`. -/
structure RunOk (s : Scan) (pre run : List ℕ) : Prop where
  length : s.run = run.length
  shape : Shape s.dir s.runStart run
  prev : s.runPrev = lastOr pre

lemma runOk_restart (s : Scan) (pre : List ℕ) (pa : ℕ) (hprev : s.prev = lastOr pre) :
    RunOk (s.restart pa) pre [pa] := ⟨rfl, rfl, hprev⟩

variable {s : Scan} {pre run : List ℕ}

/-- The node is one page above, or below, a run of one node. -/
lemma visit_second (hs : RunOk s pre run)
    (hd : s.dir = .unknown) (hst : IsFrame s.runStart) (hpa : IsFrame pa) :
    (pa = add64 s.runStart PAGE_SIZE → RunOk { s with dir := .up, run := 2 } pre (run ++ [pa])) ∧
      (pa = sub64 s.runStart PAGE_SIZE →
        RunOk { s with dir := .down, run := 2 } pre (run ++ [pa])) := by
  obtain ⟨_, hrun, hprev⟩ := hs
  rw [hd] at hrun
  have hlt := hst.lt
  have hpos := hst.pos
  have hlen : (run ++ [pa]).length = 2 := by rw [hrun]; rfl
  constructor
  · intro hup
    have heq : pa = s.runStart + (0 + 1) * PAGE_SIZE :=
      add64_eq (by omega) hst.aligned hpa.pos (by rwa [Nat.zero_add, Nat.one_mul])
    refine ⟨hlen.symm, ⟨?_, hlen.ge⟩, hprev⟩
    rw [hlen, hrun, span_succ, span_succ, heq, Nat.zero_mul, Nat.zero_add]
    rfl
  · intro hdown
    have heq : pa + (0 + 1) * PAGE_SIZE = s.runStart :=
      sub64_eq hlt (by omega) hst.aligned (by rwa [Nat.zero_add, Nat.one_mul])
    refine ⟨hlen.symm, ⟨?_, hlen.ge⟩, hprev⟩
    rw [hlen, hrun, spanDown_succ, spanDown_succ, ← heq, Nat.add_sub_cancel, Nat.zero_mul]
    rfl

/-- The node is one page above the last node of an ascending run. -/
lemma visit_up (hs : RunOk s pre run) (hd : s.dir = .up)
    (hfr : ∀ a ∈ run, IsFrame a) (hpa : IsFrame pa)
    (hup : pa = add64 s.runStart (s.run * PAGE_SIZE)) :
    RunOk { s with run := s.run + 1 } pre (run ++ [pa]) := by
  obtain ⟨hrunlen, hshape, hprev⟩ := hs
  rw [hd] at hshape
  obtain ⟨hrun, hlen⟩ := hshape
  obtain ⟨n, hn⟩ := Nat.exists_eq_add_of_lt hlen
  have hlast : IsFrame (s.runStart + (1 + n) * PAGE_SIZE) := by
    apply hfr
    rw [hrun]
    exact span_mem (by omega)
  have hfirst : IsFrame (s.runStart + 0 * PAGE_SIZE) := by
    apply hfr
    rw [hrun]
    exact span_mem (by omega)
  rw [Nat.zero_mul, Nat.add_zero] at hfirst
  have hcount : s.run = 1 + n + 1 := hrunlen.trans hn
  have heq : pa = s.runStart + (1 + n + 1) * PAGE_SIZE :=
    add64_eq hlast.lt hfirst.aligned hpa.pos (by rw [← hcount]; exact hup)
  have hlen' : (run ++ [pa]).length = run.length + 1 := length_append
  refine ⟨by rw [hlen', ← hrunlen], ?_, hprev⟩
  rw [hd]
  refine ⟨?_, by rw [hlen']; exact Nat.le_succ_of_le hlen⟩
  rw [hlen', span_succ, ← hrun, ← hrunlen, hcount, heq]

/-- The node is one page below the last node of a descending run. -/
lemma visit_down (hs : RunOk s pre run)
    (hd : s.dir = .down) (hfr : ∀ a ∈ run, IsFrame a)
    (hdown : pa = sub64 s.runStart (s.run * PAGE_SIZE)) :
    RunOk { s with run := s.run + 1 } pre (run ++ [pa]) := by
  obtain ⟨hrunlen, hshape, hprev⟩ := hs
  rw [hd] at hshape
  obtain ⟨hrun, hlen⟩ := hshape
  obtain ⟨n, hn⟩ := Nat.exists_eq_add_of_lt hlen
  have hlast : IsFrame (s.runStart - (1 + n) * PAGE_SIZE) := by
    apply hfr
    rw [hrun]
    exact spanDown_mem (by omega)
  have hfirst : IsFrame (s.runStart - 0 * PAGE_SIZE) := by
    apply hfr
    rw [hrun]
    exact spanDown_mem (by omega)
  rw [Nat.zero_mul, Nat.sub_zero] at hfirst
  have hpos := hlast.pos
  have hcount : s.run = 1 + n + 1 := hrunlen.trans hn
  have heq : pa + (1 + n + 1) * PAGE_SIZE = s.runStart :=
    sub64_eq hfirst.lt (by omega) hfirst.aligned (by rw [← hcount]; exact hdown)
  have hlen' : (run ++ [pa]).length = run.length + 1 := length_append
  refine ⟨by rw [hlen', ← hrunlen], ?_, hprev⟩
  rw [hd]
  refine ⟨?_, by rw [hlen']; exact Nat.le_succ_of_le hlen⟩
  have hlow : s.runStart - (1 + n + 1) * PAGE_SIZE = pa := by rw [← heq, Nat.add_sub_cancel]
  rw [hlen', spanDown_succ, ← hrun, ← hrunlen, hcount, hlow]

/-- One visit either extends the run by the node or starts a new run at it. -/
lemma visit_spec
    (hs : (s.run = 0 ∧ pre = [] ∧ run = []) ∨ RunOk s pre run)
    (hprev : s.prev = lastOr (pre ++ run)) (hfr : ∀ a ∈ run, IsFrame a) (hpa : IsFrame pa) :
    ∃ pre' run', pre' ++ run' = pre ++ run ++ [pa] ∧ RunOk (s.visit pa) pre' run' := by
  have hrestart : RunOk (s.restart pa) (pre ++ run) [pa] := runOk_restart s _ pa hprev
  rcases hs with ⟨h0, rfl, rfl⟩ | hs
  · refine ⟨[], [pa], rfl, ?_⟩
    rw [Scan.visit, if_pos h0]
    exact hrestart
  have hne : s.run ≠ 0 := by
    have hshape := hs.shape
    rw [hs.length]
    cases hd : s.dir <;> rw [hd] at hshape <;> simp only [Shape] at hshape
    · rw [hshape]; simp
    · omega
    · omega
  -- the node joins the run or starts a new one
  have hjoin : ∀ {s' : Scan}, RunOk s' pre (run ++ [pa]) →
      ∃ pre' run', pre' ++ run' = pre ++ run ++ [pa] ∧ RunOk s' pre' run' :=
    fun h => ⟨pre, run ++ [pa], (append_assoc ..).symm, h⟩
  have hnew : ∃ pre' run', pre' ++ run' = pre ++ run ++ [pa] ∧ RunOk (s.restart pa) pre' run' :=
    ⟨pre ++ run, [pa], rfl, hrestart⟩
  rw [Scan.visit, if_neg hne]
  cases hd : s.dir with
  | unknown =>
    have hrun : run = [s.runStart] := by have := hs.shape; rwa [hd] at this
    have hst : IsFrame s.runStart := hfr _ (by rw [hrun]; exact mem_cons_self)
    obtain ⟨habove, hbelow⟩ := visit_second hs hd hst hpa
    simp only
    split_ifs with hup hdown
    · exact hjoin (habove hup)
    · exact hjoin (hbelow hdown)
    · exact hnew
  | up =>
    simp only
    split_ifs with hup
    · have hnext := visit_up hs hd hfr hpa hup
      rw [hd] at hnext
      exact hjoin hnext
    · exact hnew
  | down =>
    simp only
    split_ifs with hdown
    · have hnext := visit_down hs hd hfr hdown
      rw [hd] at hnext
      exact hjoin hnext
    · exact hnew

/-- The low address of a finished run starts a span that is the run. -/
lemma low_spec (hs : RunOk s pre run)
    (hfr : ∀ a ∈ run, IsFrame a) :
    run.Perm (span (s.low run.length) run.length) ∧ s.low run.length ∈ run := by
  have hsub : ∀ n, n * PAGE_SIZE < s.runStart → s.runStart < 2 ^ 64 →
      sub64 s.runStart (n * PAGE_SIZE) = s.runStart - n * PAGE_SIZE := by
    intro n h1 h2
    simp only [sub64, PAGE_SIZE] at *
    omega
  cases hd : s.dir with
  | unknown =>
    have hrun : run = [s.runStart] := by have := hs.shape; rwa [hd] at this
    have hst : IsFrame s.runStart := hfr _ (by rw [hrun]; exact mem_cons_self)
    have hlow : s.low run.length = s.runStart := by
      have := hsub 0 (by have := hst.pos; omega) hst.lt
      simp only [Scan.low, hd, hrun]
      simpa using this
    rw [hlow, hrun]
    simp [span]
  | up =>
    obtain ⟨hrun, hlen⟩ : run = span s.runStart run.length ∧ 2 ≤ run.length := by
      have := hs.shape; rwa [hd] at this
    have hlow : s.low run.length = s.runStart := by simp [Scan.low, hd]
    rw [hlow, ← hrun]
    refine ⟨List.Perm.refl _, ?_⟩
    have hfirst : s.runStart + 0 * PAGE_SIZE ∈ span s.runStart run.length := span_mem (by omega)
    rwa [Nat.zero_mul, Nat.add_zero, ← hrun] at hfirst
  | down =>
    obtain ⟨hrun, hlen⟩ : run = spanDown s.runStart run.length ∧ 2 ≤ run.length := by
      have := hs.shape; rwa [hd] at this
    obtain ⟨n, hn⟩ : ∃ n, run.length = n + 1 := ⟨run.length - 1, by omega⟩
    have hmem : s.runStart - n * PAGE_SIZE ∈ run := by
      rw [hrun]
      exact spanDown_mem (by omega)
    have hfirst : s.runStart - 0 * PAGE_SIZE ∈ run := by
      rw [hrun]
      exact spanDown_mem (by omega)
    rw [Nat.zero_mul, Nat.sub_zero] at hfirst
    have hpos := (hfr _ hmem).pos
    have hlow : s.low run.length = s.runStart - n * PAGE_SIZE := by
      have := hsub n (by omega) (hfr _ hfirst).lt
      simpa [Scan.low, hd, hn] using this
    rw [hlow, hn, ← spanDown_reverse _ _ (by omega), ← hn, ← hrun]
    exact ⟨(List.reverse_perm run).symm, hmem⟩

/-! ## What the scan passes by -/

/-- One page above, or below. -/
def PageUp (a b : ℕ) : Prop := b = a + PAGE_SIZE

def PageDown (a b : ℕ) : Prop := a = b + PAGE_SIZE

/-- The nodes of a list are adjacent frames, in ascending or in descending order. -/
def Adjacent (t : List ℕ) : Prop := t.IsChain PageUp ∨ t.IsChain PageDown

/-- A run that does not go on with `pa` ends in a node that `pa` is not adjacent to. -/
lemma visit_run (hs : RunOk s pre run)
    (hfr : ∀ a ∈ run, IsFrame a) (hpa : IsFrame pa) (hnew : pa ∉ run) :
    (s.visit pa).run = s.run + 1 ∨
      ((s.visit pa).run = 1 ∧ ∀ q ∈ run.getLast?, ¬ PageUp q pa ∧ ¬ PageDown q pa) := by
  have hlt := hpa.lt
  have hlen := hs.length
  have hshape := hs.shape
  -- an address that has not wrapped is the one that the scan computes
  have hadd : ∀ q x, pa = q + x → pa = add64 q x := by
    intro q x h
    simp only [add64]
    omega
  have hsub : ∀ q x, q < 2 ^ 64 → q = pa + x → pa = sub64 q x := by
    intro q x hq h
    simp only [sub64]
    omega
  cases hd : s.dir with
  | unknown =>
    rw [hd] at hshape
    have hone : s.run = 1 := by rw [hlen, hshape]; rfl
    have hstart : IsFrame s.runStart := hfr _ (by rw [hshape]; exact mem_cons_self)
    rw [Scan.visit, if_neg (by omega), hd]
    by_cases hup : pa = add64 s.runStart PAGE_SIZE
    · left
      rw [if_pos hup, hone]
    by_cases hdown : pa = sub64 s.runStart PAGE_SIZE
    · left
      rw [if_neg hup, if_pos hdown, hone]
    right
    rw [if_neg hup, if_neg hdown]
    refine ⟨rfl, fun q hq => ?_⟩
    rw [hshape] at hq
    obtain rfl := Option.some.inj hq
    exact ⟨fun h => hup (hadd _ _ h), fun h => hdown (hsub _ _ hstart.lt h)⟩
  | up =>
    rw [hd] at hshape
    obtain ⟨hrun, htwo⟩ := hshape
    obtain ⟨n, hn⟩ : ∃ n, run.length = n + 2 := ⟨run.length - 2, by omega⟩
    rw [Scan.visit, if_neg (by omega), hd]
    by_cases hup : pa = add64 s.runStart (s.run * PAGE_SIZE)
    · left
      rw [if_pos hup]
    right
    rw [if_neg hup]
    refine ⟨rfl, fun q hq => ?_⟩
    rw [hn, span_succ, span_succ] at hrun
    rw [hrun, List.getLast?_concat] at hq
    have hlast : q = s.runStart + (n + 1) * PAGE_SIZE := (Option.some.inj hq).symm
    constructor
    · intro h
      apply hup
      apply hadd
      have hlong : (n + 2) * PAGE_SIZE = (n + 1) * PAGE_SIZE + PAGE_SIZE := Nat.succ_mul _ _
      rw [hlen, hn, hlong, ← Nat.add_assoc, ← hlast]
      exact h
    · intro h
      -- the node before the last one
      apply hnew
      have hpenult : pa = s.runStart + n * PAGE_SIZE := by
        have hq : q = pa + PAGE_SIZE := h
        have hsplit : (n + 1) * PAGE_SIZE = n * PAGE_SIZE + PAGE_SIZE := Nat.succ_mul _ _
        omega
      rw [hrun, hpenult]
      simp
  | down =>
    rw [hd] at hshape
    obtain ⟨hrun, htwo⟩ := hshape
    obtain ⟨n, hn⟩ : ∃ n, run.length = n + 2 := ⟨run.length - 2, by omega⟩
    have hstart : IsFrame s.runStart := by
      apply hfr
      rw [hrun, hn, spanDown, List.range_succ_eq_map]
      simp
    have hend : IsFrame (s.runStart - (n + 1) * PAGE_SIZE) := by
      apply hfr
      rw [hrun, hn, spanDown_succ]
      exact List.mem_append_right _ mem_cons_self
    have hendpos := hend.pos
    rw [Scan.visit, if_neg (by omega), hd]
    by_cases hdown : pa = sub64 s.runStart (s.run * PAGE_SIZE)
    · left
      rw [if_pos hdown]
    right
    rw [if_neg hdown]
    refine ⟨rfl, fun q hq => ?_⟩
    rw [hn, spanDown_succ, spanDown_succ] at hrun
    rw [hrun, List.getLast?_concat] at hq
    have hlast : q = s.runStart - (n + 1) * PAGE_SIZE := (Option.some.inj hq).symm
    have hsplit : (n + 1) * PAGE_SIZE = n * PAGE_SIZE + PAGE_SIZE := Nat.succ_mul _ _
    constructor
    · intro h
      apply hnew
      have hpenult : pa = s.runStart - n * PAGE_SIZE := by
        have hq : pa = q + PAGE_SIZE := h
        omega
      rw [hrun, hpenult]
      simp
    · intro h
      apply hdown
      apply hsub _ _ hstart.lt
      have hq : q = pa + PAGE_SIZE := h
      have hlong : (n + 2) * PAGE_SIZE = (n + 1) * PAGE_SIZE + PAGE_SIZE := Nat.succ_mul _ _
      rw [hlen, hn]
      omega

/-- The scan has passed by no run of `npages` adjacent frames, and no run of adjacent frames that
ends where it stands is longer than the current one. -/
structure Missed (npages : ℕ) (seen : List ℕ) (n : ℕ) : Prop where
  short : ∀ t, t <:+: seen → Adjacent t → t.length < npages
  longest : ∀ t, t <:+ seen → Adjacent t → t.length ≤ n

variable {t : List ℕ}

lemma Adjacent.init (h : Adjacent (t ++ [pa])) : Adjacent t := by
  rcases h with h | h
  · exact .inl h.left_of_append
  · exact .inr h.left_of_append

/-- The last node of a run that goes on with `pa` is adjacent to it. -/
lemma Adjacent.last (h : Adjacent (t ++ [pa])) (hq : q ∈ t.getLast?) :
    PageUp q pa ∨ PageDown q pa := by
  rcases h with h | h
  · exact .inl ((List.isChain_append.mp h).2.2 q hq pa rfl)
  · exact .inr ((List.isChain_append.mp h).2.2 q hq pa rfl)

/-- Suffixes of one list end in the same node. -/
lemma getLast?_suffix {seen : List ℕ} (h : t <:+ seen) (hne : t ≠ []) :
    t.getLast? = seen.getLast? := by
  obtain ⟨u, rfl⟩ := h
  exact (List.getLast?_append_of_ne_nil u hne).symm

/-- A visit that does not finish a run misses none. -/
lemma Missed.visit {npages n' : ℕ} {seen : List ℕ} (h : Missed npages seen n)
    (hn : n' = n + 1 ∨
      (n' = 1 ∧ ∀ q ∈ seen.getLast?, ¬ PageUp q pa ∧ ¬ PageDown q pa))
    (hlt : n' < npages) : Missed npages (seen ++ [pa]) n' := by
  have hlong : ∀ t, t <:+ seen ++ [pa] → Adjacent t → t.length ≤ n' := by
    intro t ht hadj
    rcases List.suffix_concat_iff.mp ht with rfl | ⟨u, rfl, hu⟩
    · exact Nat.zero_le _
    rw [length_append, List.length_singleton]
    rcases hn with rfl | ⟨rfl, hapart⟩
    · have hle := h.longest u hu hadj.init
      omega
    · -- the scan has started again: nothing before `pa` goes on with it
      have hempty : u = [] := by
        by_contra hne
        have hq : u.getLast hne ∈ u.getLast? := List.getLast?_eq_some_getLast hne
        have hend : u.getLast hne ∈ seen.getLast? := by rwa [← getLast?_suffix hu hne]
        rcases hadj.last hq with hup | hdown
        · exact (hapart _ hend).1 hup
        · exact (hapart _ hend).2 hdown
      rw [hempty]
      exact le_rfl
  refine ⟨fun t ht hadj => ?_, hlong⟩
  rcases List.infix_concat_iff.mp ht with hsuf | hinf
  · exact lt_of_le_of_lt (hlong t hsuf hadj) hlt
  · exact h.short t hinf hadj

/-- What a finished contiguous allocation did to the free list. -/
structure Taken (mem : Mem) (p : Pmm) (npages : ℕ) (l : List ℕ) (mem' : Mem) (p' : Pmm)
    (r : ℕ) : Prop where
  /-- the span was a run of the list, and the others keep their order -/
  list : ∃ pre run rest, l = pre ++ run ++ rest ∧ run.length = npages ∧
    run.Perm (span r npages) ∧ Linked mem' IsNull p'.freeHead (pre ++ rest)
  pos : r ≠ 0
  count : p'.freeFrames = p.freeFrames - npages
  frame : ∀ a, a ∉ l → mem' a = mem a

lemma lastOr_eq_zero (h : ∀ a ∈ pre, IsFrame a) (h0 : lastOr pre = 0) :
    pre = [] := by
  rcases List.eq_nil_or_concat pre with rfl | ⟨pre, a, rfl⟩
  · rfl
  · rw [List.concat_eq_append, lastOr_concat] at h0
    have := (h a (by simp)).pos
    omega

/-- What a node adds to the current run, by the nodes that the scan has seen. -/
lemma visit_grows
    (hs : (s.run = 0 ∧ pre = [] ∧ run = []) ∨ RunOk s pre run)
    (hfr : ∀ a ∈ run, IsFrame a) (hpa : IsFrame pa) (hnew : pa ∉ run) :
    (s.visit pa).run = run.length + 1 ∨ ((s.visit pa).run = 1 ∧
      ∀ q ∈ (pre ++ run).getLast?, ¬ PageUp q pa ∧ ¬ PageDown q pa) := by
  rcases hs with ⟨h0, rfl, rfl⟩ | hs
  · left
    rw [Scan.visit, if_pos h0]
    rfl
  · have hne : run ≠ [] := by
      rintro rfl
      have hshape := hs.shape
      cases hd : s.dir <;> rw [hd] at hshape <;> simp [Shape] at hshape
    rw [List.getLast?_append_of_ne_nil pre hne, ← hs.length]
    exact visit_run hs hfr hpa hnew

/-- The loop finishes within the length of the list; either it changes nothing and there is no run
of `npages` adjacent frames, or it unlinks one. -/
lemma contigLoop_spec {npages : ℕ} (fuel : ℕ) (mem : Mem) (p : Pmm) (s : Scan)
    (pre run rest : List ℕ) (pa : ℕ)
    (hl : Linked mem IsNull p.freeHead (pre ++ run ++ rest))
    (hfr : ∀ a ∈ pre ++ run ++ rest, IsFrame a)
    (hseg : Seg mem p.freeHead (pre ++ run) pa) (hfuel : rest.length ≤ fuel)
    (hs : (s.run = 0 ∧ pre = [] ∧ run = []) ∨ RunOk s pre run)
    (hprev : s.prev = lastOr (pre ++ run)) (hmiss : Missed npages (pre ++ run) run.length)
    (hshort : run.length < npages) :
    ∃ mem' p' r, contigLoop npages fuel mem p s pa = some (mem', p', r) ∧
      ((r = 0 ∧ mem' = mem ∧ p' = p ∧
          ∀ t, t <:+: pre ++ run ++ rest → Adjacent t → t.length < npages) ∨
        Taken mem p npages (pre ++ run ++ rest) mem' p' r) := by
  have hpa : Linked mem IsNull pa rest := by
    obtain ⟨_, m, hm, hrest⟩ := linked_append.mp hl
    exact (hseg.end_unique hm) ▸ hrest
  induction fuel generalizing s pre run rest pa with
  | zero =>
    obtain rfl : rest = [] := List.length_eq_zero_iff.mp (by omega)
    have h0 : IsNull pa := linked_nil.mp hpa
    rw [List.append_nil]
    exact ⟨mem, p, 0, by rw [contigLoop, if_pos h0], .inl ⟨rfl, rfl, rfl, hmiss.short⟩⟩
  | succ fuel ih =>
    cases rest with
    | nil =>
      have h0 : IsNull pa := linked_nil.mp hpa
      rw [List.append_nil]
      exact ⟨mem, p, 0, by rw [contigLoop, if_pos h0], .inl ⟨rfl, rfl, rfl, hmiss.short⟩⟩
    | cons a rest =>
      obtain ⟨rfl, ha, hrest⟩ := linked_cons.mp hpa
      rw [contigLoop, if_neg ha]
      have hpaf : IsFrame pa := hfr pa (by simp)
      have hrunf : ∀ b ∈ run, IsFrame b := fun b hb => hfr b (by simp [hb])
      obtain ⟨pre', run', hsplit, hvisit⟩ := visit_spec hs hprev hrunf hpaf
      have hnew : pa ∉ run := by
        intro hc
        exact (nodup_append.mp hl.nodup).2.2 pa (List.mem_append_right _ hc) pa
          mem_cons_self rfl
      have hgrows := visit_grows hs hrunf hpaf hnew
      have hall : pre ++ run ++ pa :: rest = pre' ++ run' ++ rest := by
        rw [hsplit]; simp
      have hseg' : Seg mem p.freeHead (pre' ++ run') (mem pa) := by
        rw [hsplit, seg_concat]
        exact ⟨hseg, rfl⟩
      rw [hall] at hl hfr ⊢
      by_cases hdone : (s.visit pa).run = npages
      · -- the run is complete and is unlinked
        rw [if_pos hdone]
        have hlen : run'.length = npages := by rw [← hvisit.length, hdone]
        have hrunf' : ∀ b ∈ run', IsFrame b := fun b hb => hfr b (by simp [hb])
        obtain ⟨hperm, hlow⟩ := low_spec hvisit hrunf'
        rw [hlen] at hperm hlow
        have hpos := (hrunf' _ hlow).pos
        have hpref : ∀ b ∈ pre', IsFrame b := fun b hb => hfr b (by simp [hb])
        obtain ⟨m, hm, hmrun⟩ := seg_append.mp hseg'
        by_cases hp0 : (s.visit pa).runPrev = 0
        · rw [if_neg (not_not.mpr hp0)]
          obtain rfl : pre' = [] := lastOr_eq_zero hpref (hvisit.prev ▸ hp0)
          refine ⟨_, _, _, rfl, .inr ⟨⟨[], run', rest, rfl, hlen, hperm, ?_⟩, by omega, rfl,
            fun _ _ => rfl⟩⟩
          exact hrest
        · rw [if_pos hp0]
          rcases List.eq_nil_or_concat pre' with rfl | ⟨pre₀, q, rfl⟩
          · exact absurd hvisit.prev hp0
          have hq : (s.visit pa).runPrev = q := by
            rw [hvisit.prev, List.concat_eq_append, lastOr_concat]
          rw [hq]
          rw [List.concat_eq_append] at hl hm ⊢
          refine ⟨_, _, _, rfl, .inr ⟨⟨pre₀ ++ [q], run', rest, rfl, hlen, hperm, ?_⟩, by omega,
            rfl, fun b hb => ?_⟩⟩
          · have hl' : Linked mem IsNull p.freeHead (pre₀ ++ q :: (run' ++ rest)) := by
              simpa using hl
            have hrunseg : Seg mem (mem q) run' (mem pa) := by
              rw [(seg_concat.mp hm).2]
              exact hmrun
            simpa using hl'.unlink hrunseg
          · exact Function.update_of_ne (by rintro rfl; exact hb (by simp)) _ _
      · rw [if_neg hdone]
        rw [hvisit.length] at hgrows hdone
        have hshort' : run'.length < npages := by omega
        refine ih { s.visit pa with prev := pa } pre' run' rest (mem pa) hl hfr hseg' ?_ ?_ ?_ ?_
          hshort' hrest
        · simpa using hfuel
        · exact .inr ⟨hvisit.length, hvisit.shape, hvisit.prev⟩
        · rw [hsplit, lastOr_concat]
        · rw [hsplit]
          exact hmiss.visit hgrows hshort'

/-- `pmm_alloc_contig` on a well-formed list. -/
lemma pmmAllocContig_spec {mem : Mem} {p : Pmm} {l : List ℕ} (npages : ℕ)
    (hl : Linked mem IsNull p.freeHead l) (hfr : ∀ a ∈ l, IsFrame a)
    (hcount : l.length ≤ p.freeFrames) :
    ∃ mem' p' r, pmmAllocContig mem p npages = some (mem', p', r) ∧
      ((r = 0 ∧ mem' = mem ∧ p' = p ∧
          (0 < npages → ∀ t, t <:+: l → Adjacent t → t.length < npages)) ∨
        Taken mem p npages l mem' p' r) := by
  rw [pmmAllocContig]
  split_ifs with h0
  · exact ⟨mem, p, 0, rfl, .inl ⟨rfl, rfl, rfl, fun hc => absurd h0 hc.ne'⟩⟩
  have hnone : Missed npages [] 0 := by
    constructor
    · intro t ht _
      rw [List.infix_nil.mp ht]
      exact Nat.pos_of_ne_zero h0
    · intro t ht _
      rw [List.suffix_nil.mp ht]
      exact le_rfl
  obtain ⟨mem', p', r, heq, hres⟩ := contigLoop_spec p.freeFrames mem p ⟨0, 0, 0, 0, .unknown⟩
    [] [] l p.freeHead hl hfr rfl hcount (.inl ⟨rfl, rfl, rfl⟩) rfl hnone (Nat.pos_of_ne_zero h0)
  refine ⟨mem', p', r, heq, hres.imp (fun hzero => ?_) id⟩
  exact ⟨hzero.1, hzero.2.1, hzero.2.2.1, fun _ => hzero.2.2.2⟩

/-- `l` is the free list, and the statistics have counted it. -/
structure FreeList (mem : Mem) (p : Pmm) (l : List ℕ) : Prop where
  linked : Linked mem IsNull p.freeHead l
  frame : ∀ a ∈ l, IsFrame a
  count : l.length ≤ p.freeFrames

/-- `pmm_alloc_contig` answers with the low address of `npages` adjacent frames that are a run of
the free list, and takes exactly these off it; or with 0, and then it changes nothing and no
`npages` nodes in a row are adjacent frames in ascending or in descending order. -/
theorem pmmAllocContig_correct {mem : Mem} {p : Pmm} {l : List ℕ} (h : FreeList mem p l)
    {npages : ℕ} (hn : 0 < npages) :
    ∃ mem' p' r, pmmAllocContig mem p npages = some (mem', p', r) ∧
      (r ≠ 0 → (∃ pre run rest, l = pre ++ run ++ rest ∧ run.Perm (span r npages) ∧
          FreeList mem' p' (pre ++ rest)) ∧ ∀ a, a ∉ l → mem' a = mem a) ∧
      (r = 0 → mem' = mem ∧ p' = p ∧ ∀ t, t <:+: l → t.length = npages → ¬ Adjacent t) := by
  obtain ⟨mem', p', r, heq, hres⟩ := pmmAllocContig_spec npages h.linked h.frame h.count
  refine ⟨mem', p', r, heq, fun hr => ?_, fun hr => ?_⟩
  · have htaken := hres.resolve_left fun hzero => hr hzero.1
    obtain ⟨pre, run, rest, hsplit, hlen, hperm, hlinked⟩ := htaken.list
    refine ⟨⟨pre, run, rest, hsplit, hperm, hlinked, fun a ha => ?_, ?_⟩, htaken.frame⟩
    · apply h.frame
      rw [hsplit, append_assoc, List.mem_append, List.mem_append]
      exact (List.mem_append.mp ha).imp_right .inr
    · have hcount := h.count
      rw [hsplit, length_append, length_append, hlen] at hcount
      rw [htaken.count, length_append]
      omega
  · obtain ⟨-, hmem, hp, hnone⟩ := hres.resolve_right fun htaken => htaken.pos hr
    refine ⟨hmem, hp, fun t ht hlen hadj => ?_⟩
    have hlt := hnone hn t ht hadj
    omega

/-- A list of three frames, the first one apart from the others. -/
def threeFrames : Mem := fun a => if a = 12288 then 4096 else if a = 4096 then 8192 else 0

/-- The two frames that are a run are taken, and the first one stays. -/
theorem pmmAllocContig_three : ∃ mem' p' r,
    pmmAllocContig threeFrames ⟨12288, 3, 0, 3⟩ 2 = some (mem', p', r) ∧
      ∃ pre run rest, [12288, 4096, 8192] = pre ++ run ++ rest ∧ run.Perm (span r 2) ∧
        FreeList mem' p' (pre ++ rest) := by
  have hframe : ∀ a ∈ [12288, 4096, 8192], IsFrame a := by
    intro a ha
    simp only [List.mem_cons, List.not_mem_nil, or_false] at ha
    rcases ha with rfl | rfl | rfl
    all_goals exact ⟨by decide, by decide, by decide⟩
  have hlist : FreeList threeFrames ⟨12288, 3, 0, 3⟩ [12288, 4096, 8192] :=
    ⟨⟨fun a ha => (hframe a ha).pos.ne', 0, rfl, rfl, rfl, rfl, rfl⟩, hframe, le_rfl⟩
  obtain ⟨mem', p', r, heq, htaken, -⟩ := @pmmAllocContig_correct _ _ _ hlist 2 (by decide)
  have hlow : (pmmAllocContig threeFrames ⟨12288, 3, 0, 3⟩ 2).map (fun x => x.2.2) = some 4096 :=
    rfl
  rw [heq] at hlow
  have hr : r = 4096 := Option.some.inj hlow
  exact ⟨mem', p', r, heq, (htaken (by omega)).1⟩

/-! ## Boot -/

/-- RAM never reaches the last page of the address space. -/
lemma ramEnd_lt (b : Boot) : b.ramEnd + PAGE_SIZE < 2 ^ 64 := by
  have h : add64 b.ramBase b.ramSize < 2 ^ 64 := Nat.mod_lt _ (by norm_num)
  simp only [Boot.ramEnd]
  generalize add64 b.ramBase b.ramSize = top at h
  by_cases htop : top > TOP_GUARD
  · rw [if_pos htop]
    simp only [sub64, TOP_GUARD, PAGE_SIZE] at *
    omega
  · rw [if_neg htop]
    simp only [TOP_GUARD, PAGE_SIZE] at *
    omega

lemma alignUp_aligned (x : ℕ) : alignUp x % PAGE_SIZE = 0 := Nat.mul_mod_left _ _

/-- The threaded frames lie between the start of the loop and the end of RAM. -/
lemma mem_framesFrom {b : Boot} {fuel f : ℕ} (hal : pa % PAGE_SIZE = 0)
    (h : f ∈ framesFrom b fuel pa) :
    pa ≤ f ∧ f < b.ramEnd ∧ f % PAGE_SIZE = 0 ∧ ¬ b.inImage f := by
  induction fuel generalizing pa with
  | zero => simp [framesFrom] at h
  | succ fuel ih =>
    rw [framesFrom] at h
    split_ifs at h with hlt himg
    · have hnext : add64 pa PAGE_SIZE = pa + PAGE_SIZE :=
        Nat.mod_eq_of_lt (by have := ramEnd_lt b; omega)
      rw [List.nil_append, hnext] at h
      have := ih (by simp only [PAGE_SIZE] at *; omega) h
      exact ⟨by omega, this.2⟩
    · have hnext : add64 pa PAGE_SIZE = pa + PAGE_SIZE :=
        Nat.mod_eq_of_lt (by have := ramEnd_lt b; omega)
      rw [hnext, List.singleton_append, List.mem_cons] at h
      rcases h with rfl | h
      · exact ⟨le_rfl, hlt, hal, himg⟩
      · have := ih (by simp only [PAGE_SIZE] at *; omega) h
        exact ⟨by omega, this.2⟩
    · simp at h

lemma framesFrom_nodup (b : Boot) (fuel pa : ℕ) (hal : pa % PAGE_SIZE = 0) :
    (framesFrom b fuel pa).Nodup := by
  induction fuel generalizing pa with
  | zero => exact List.nodup_nil
  | succ fuel ih =>
    rw [framesFrom]
    split_ifs with hlt himg
    all_goals try exact List.nodup_nil
    all_goals
      have hnext : add64 pa PAGE_SIZE = pa + PAGE_SIZE :=
        Nat.mod_eq_of_lt (by have := ramEnd_lt b; omega)
      have hal' : (pa + PAGE_SIZE) % PAGE_SIZE = 0 := by rw [Nat.add_mod_right, hal]
      rw [hnext]
    · exact ih _ hal'
    · refine List.nodup_cons.mpr ⟨fun hmem => ?_, ih _ hal'⟩
      have := (mem_framesFrom hal' hmem).1
      simp only [PAGE_SIZE] at this
      omega

/-- No frame is threaded twice. -/
lemma frames_nodup (b : Boot) : (frames b).Nodup := by
  rw [frames]
  split_ifs
  · exact List.nodup_nil
  · exact framesFrom_nodup b _ _ (alignUp_aligned _)

/-- The loop threads its frames in front of what is on the list already. -/
lemma pmmInitLoop_spec (b : Boot) (fuel pa : ℕ) (mem : Mem) (p : Pmm) (l : List ℕ)
    (hal : pa % PAGE_SIZE = 0) (hl : Linked mem IsNull p.freeHead l) (hlt : ∀ f ∈ l, f < pa)
    (h0 : 0 ∉ framesFrom b fuel pa) :
    Linked (pmmInitLoop b fuel pa (mem, p)).1 IsNull (pmmInitLoop b fuel pa (mem, p)).2.freeHead
        ((framesFrom b fuel pa).reverse ++ l) ∧
      (pmmInitLoop b fuel pa (mem, p)).2.freeFrames
        = p.freeFrames + (framesFrom b fuel pa).length := by
  induction fuel generalizing pa mem p l with
  | zero => exact ⟨hl, rfl⟩
  | succ fuel ih =>
    rw [framesFrom] at h0 ⊢
    rw [pmmInitLoop]
    by_cases hend : pa < b.ramEnd
    · have hnext : add64 pa PAGE_SIZE = pa + PAGE_SIZE :=
        Nat.mod_eq_of_lt (by have := ramEnd_lt b; omega)
      have hal' : (pa + PAGE_SIZE) % PAGE_SIZE = 0 := by rw [Nat.add_mod_right, hal]
      rw [if_pos hend, hnext] at h0 ⊢
      rw [if_pos hend]
      have hstep : pa < pa + PAGE_SIZE := Nat.lt_add_of_pos_right (by decide)
      have hlt' : ∀ f ∈ l, f < pa + PAGE_SIZE := fun f hf => (hlt f hf).trans hstep
      by_cases himg : b.inImage pa
      · simp only [if_pos himg, List.nil_append] at h0 ⊢
        exact ih (pa + PAGE_SIZE) mem { p with reservedFrames := p.reservedFrames + 1 } l hal' hl
          hlt' h0
      · simp only [if_neg himg, List.singleton_append, List.mem_cons, not_or] at h0 ⊢
        have hnew : Linked (Function.update mem pa p.freeHead) IsNull pa (pa :: l) :=
          hl.push (fun hz => h0.1 hz.symm) (fun hc => absurd (hlt pa hc) (lt_irrefl _))
        obtain ⟨h1, h2⟩ := ih (pa + PAGE_SIZE) _ { p with
          freeHead := pa, totalFrames := p.totalFrames + 1, freeFrames := p.freeFrames + 1 }
          (pa :: l) hal' hnew (List.forall_mem_cons.mpr ⟨hstep, hlt'⟩) h0.2
        refine ⟨?_, ?_⟩
        · simpa using h1
        · rw [h2, List.length_cons]
          show p.freeFrames + 1 + _ = p.freeFrames + _
          omega
    · rw [if_neg hend] at h0 ⊢
      rw [if_neg hend]
      exact ⟨hl, rfl⟩

/-! ## The invariant -/

/-- The frames put on the list are frames unless page 0 is among them. -/
lemma isFrame_of_mem {b : Boot} (h0 : 0 ∉ frames b) {f : ℕ} (hf : f ∈ frames b) : IsFrame f := by
  have hne : f ≠ 0 := fun hc => h0 (hc ▸ hf)
  rw [frames] at hf
  split_ifs at hf
  · simp at hf
  · obtain ⟨_, hlt, hal, _⟩ := mem_framesFrom (alignUp_aligned _) hf
    have := ramEnd_lt b
    exact ⟨by omega, by omega, hal⟩

/-- The free list is a chain of exactly the frames that are not handed out. -/
structure Inv (b : Boot) (s : Sys) (l : List ℕ) : Prop where
  linked : Linked s.mem IsNull s.pmm.freeHead l
  perm : (l ++ s.handed).Perm (frames b)
  count : s.pmm.freeFrames = l.length

lemma inv_init (b : Boot) (mem : Mem) (h0 : 0 ∉ frames b) : ∃ l, Inv b (init b mem) l := by
  by_cases hsz : b.ramSize = 0
  · refine ⟨[], ⟨?_, ?_, ?_⟩⟩
    · rw [init, pmmInit, if_pos hsz]
      exact linked_nil.mpr rfl
    · simp [init, frames, hsz]
    · simp [init, pmmInit, hsz]
  · rw [frames, if_neg hsz] at h0
    obtain ⟨h1, h2⟩ := pmmInitLoop_spec b (b.ramEnd / PAGE_SIZE + 1) (alignUp b.ramBase) mem
      ⟨0, 0, 0, 0⟩ [] (alignUp_aligned _) (linked_nil.mpr rfl) (by simp) h0
    refine ⟨(framesFrom b (b.ramEnd / PAGE_SIZE + 1) (alignUp b.ramBase)).reverse, ⟨?_, ?_, ?_⟩⟩
    · rw [init, pmmInit, if_neg hsz]
      simpa using h1
    · rw [init, frames, if_neg hsz, List.append_nil]
      exact List.reverse_perm _
    · rw [init, pmmInit, if_neg hsz]
      simpa using h2

section

variable {b : Boot} {s s' : Sys} {l : List ℕ}

lemma Inv.isFrame (hs : Inv b s l) (h0 : 0 ∉ frames b) {f : ℕ} (hf : f ∈ l) : IsFrame f :=
  isFrame_of_mem h0 (hs.perm.subset (List.mem_append_left _ hf))

section

variable (h0 : 0 ∉ frames b) (hs : Inv b s l)
include h0 hs

lemma inv_alloc (h : Step b s (.alloc pa) s') :
    ∃ l', Inv b s' l' := by
  obtain ⟨hcall, hmem, hh⟩ := h
  rw [pmmAlloc] at hcall
  cases l with
  | nil =>
    have hnull : IsNull s.pmm.freeHead := linked_nil.mp hs.linked
    rw [if_pos hnull] at hcall
    obtain ⟨hp, rfl⟩ := Prod.mk.inj hcall
    refine ⟨[], ⟨?_, ?_, ?_⟩⟩
    · rw [hmem, hp]; exact hs.linked
    · rw [hh, if_pos rfl]; exact hs.perm
    · rw [hp]; exact hs.count
  | cons a l =>
    obtain ⟨ha, hne, hrest⟩ := linked_cons.mp hs.linked
    have hfr := hs.isFrame h0 (mem_cons_self (a := a) (l := l))
    have hal : isAligned a = true := isAligned_iff.mpr hfr.aligned
    rw [ha, if_neg hne, hal, if_neg (by decide)] at hcall
    obtain ⟨hp, rfl⟩ := Prod.mk.inj hcall
    have hcount := hs.count
    refine ⟨l, ⟨?_, ?_, ?_⟩⟩
    · rw [hmem, hp]; exact hrest
    · rw [hh, if_neg hne]
      exact List.perm_middle.trans hs.perm
    · rw [hp]
      simp only [List.length_cons] at hcount
      show s.pmm.freeFrames - 1 = l.length
      omega

lemma inv_allocContig
    (h : Step b s (.allocContig n pa) s') : ∃ l', Inv b s' l' := by
  obtain ⟨hcall, hh⟩ := h
  obtain ⟨mem', p', r, heq, hres⟩ :=
    pmmAllocContig_spec n hs.linked (fun f hf => hs.isFrame h0 hf) hs.count.ge
  rw [heq] at hcall
  obtain ⟨hm, hp, hr⟩ : s'.mem = mem' ∧ s'.pmm = p' ∧ pa = r := by simpa using hcall
  rcases hres with ⟨rfl, rfl, rfl, -⟩ | htaken
  · refine ⟨l, ⟨?_, ?_, ?_⟩⟩
    · rw [hm, hp]; exact hs.linked
    · rw [hh, if_pos hr]; exact hs.perm
    · rw [hp]; exact hs.count
  · obtain ⟨pre, run, rest, rfl, hlen, hperm, hlinked⟩ := htaken.list
    have hcount := hs.count
    refine ⟨pre ++ rest, ⟨?_, ?_, ?_⟩⟩
    · rw [hm, hp]; exact hlinked
    · rw [hh, hr, if_neg htaken.pos]
      refine List.Perm.trans ?_ hs.perm
      have hback : (pre ++ rest ++ (span r n ++ s.handed)).Perm
          (pre ++ rest ++ (run ++ s.handed)) := (hperm.symm.append_right _).append_left _
      refine hback.trans ?_
      simp only [append_assoc]
      refine List.Perm.append_left _ ?_
      rw [← append_assoc, ← append_assoc]
      exact List.perm_append_comm.append_right _
    · rw [hp, htaken.count, hcount]
      simp only [length_append]
      omega

lemma inv_free (h : Step b s (.free pa) s') :
    ∃ l', Inv b s' l' := by
  obtain ⟨hmem, hcall, hh⟩ := h
  have hfr : IsFrame pa := isFrame_of_mem h0 (hs.perm.subset (List.mem_append_right _ hmem))
  have hpos := hfr.pos
  have hnd : (l ++ s.handed).Nodup := hs.perm.nodup_iff.mpr (frames_nodup b)
  have hnl : pa ∉ l := fun hc => (nodup_append.mp hnd).2.2 pa hc pa hmem rfl
  rw [pmmFree, if_neg (by rw [isAligned_iff.mpr hfr.aligned]; simp; omega)] at hcall
  obtain ⟨hm, hp⟩ := Prod.mk.inj hcall
  refine ⟨pa :: l, ⟨?_, ?_, ?_⟩⟩
  · rw [hm, hp]
    exact hs.linked.push (by omega) hnl
  · rw [hh]
    exact (List.perm_middle.symm.trans ((List.perm_cons_erase hmem).symm.append_left l)).trans
      hs.perm
  · rw [hp, List.length_cons, ← hs.count]

lemma inv_poke {addr v : ℕ}
    (h : Step b s (.poke addr v) s') : ∃ l', Inv b s' l' := by
  obtain ⟨hown, rfl⟩ := h
  have hnl : addr ∉ l := by
    intro hc
    have hal : alignDown addr = addr := alignDown_of_aligned (hs.isFrame h0 hc).aligned
    rw [hal] at hown
    rcases hown with hh | hnf
    · have hnd : (l ++ s.handed).Nodup := hs.perm.nodup_iff.mpr (frames_nodup b)
      exact (nodup_append.mp hnd).2.2 addr hc addr hh rfl
    · exact hnf (hs.perm.subset (List.mem_append_left _ hc))
  exact ⟨l, ⟨hs.linked.update_of_notMem hnl, hs.perm, hs.count⟩⟩

end

lemma inv_step (h0 : 0 ∉ frames b) (hs : ∃ l, Inv b s l) {op : Op} (h : Step b s op s') :
    ∃ l, Inv b s' l := by
  obtain ⟨l, hs⟩ := hs
  cases op with
  | alloc pa => exact inv_alloc h0 hs h
  | allocContig npages pa => exact inv_allocContig h0 hs h
  | free pa => exact inv_free h0 hs h
  | poke addr v => exact inv_poke h0 hs h

lemma Inv.law (hs : Inv b s l) : Law b s := by
  have hnd : (l ++ s.handed).Nodup := hs.perm.nodup_iff.mpr (frames_nodup b)
  obtain ⟨hl, _, hdisj⟩ := nodup_append.mp hnd
  exact ⟨l, hs.linked, hl, fun f hf hh => hdisj f hf f hh rfl, hs.perm, hs.count⟩

end

/-- Page 0 is threaded when RAM starts there and the image does not cover it. -/
lemma zero_mem_frames (b : Boot) :
    0 ∈ frames b ↔
      b.ramSize ≠ 0 ∧ alignUp b.ramBase = 0 ∧ 0 < b.ramEnd ∧ ¬ b.inImage 0 := by
  by_cases hsz : b.ramSize = 0
  · simp [frames, hsz]
  rw [frames, if_neg hsz]
  constructor
  · intro h
    obtain ⟨hle, hlt, _, himg⟩ := mem_framesFrom (alignUp_aligned _) h
    exact ⟨hsz, by omega, hlt, himg⟩
  · rintro ⟨_, hal, hlt, himg⟩
    rw [framesFrom, hal, if_pos hlt, if_neg himg]
    exact List.mem_append_left _ mem_cons_self

/-- The law holds along every run exactly when `pmm_init` does not thread page 0, whose
address is the end mark of the list. -/
theorem pmm_law (b : Boot) (mem : Mem) :
    (∀ ops s, Run (Step b) (init b mem) ops s → Law b s) ↔
      ¬ (b.ramSize ≠ 0 ∧ alignUp b.ramBase = 0 ∧ 0 < b.ramEnd ∧ ¬ b.inImage 0) := by
  rw [← zero_mem_frames]
  constructor
  · intro hlaw h0
    obtain ⟨l, hl, _, _, hperm, _⟩ := hlaw [] _ .nil
    have hmem : 0 ∈ l := by simpa [init] using hperm.mem_iff.mpr h0
    exact hl.not_stop hmem rfl
  · intro h0 ops s hrun
    obtain ⟨l, hl⟩ := hrun.invariant (I := fun s => ∃ l, Inv b s l) (inv_init b mem h0)
      fun _ _ _ hs hstep => inv_step h0 hs hstep
    exact hl.law

/-- RAM at page 0 with one more page above it: the list ends at page 1 while both pages are
counted. -/
theorem pmm_law_page_zero :
    ¬ ∀ mem ops s, Run (Step ⟨0, 8192, 0x40080000, 0x40100000⟩)
      (init ⟨0, 8192, 0x40080000, 0x40100000⟩ mem) ops s →
      Law ⟨0, 8192, 0x40080000, 0x40100000⟩ s := by
  intro h
  obtain ⟨l, hl, _, _, hperm, hcount⟩ := h (fun _ => 0) [] _ .nil
  have hmem : 0 ∈ l := by
    have h0 : 0 ∈ frames ⟨0, 8192, 0x40080000, 0x40100000⟩ := by decide
    simpa [init] using hperm.mem_iff.mpr h0
  exact hl.not_stop hmem rfl

end Pmm
end Mm
end MobilePhoneOs
