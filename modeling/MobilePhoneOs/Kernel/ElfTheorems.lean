import MobilePhoneOs.Kernel.Elf
import MobilePhoneOs.Kernel.UaccessTheorems
import MobilePhoneOs.Mm.SpaceTheorems
import Mathlib.Data.List.TakeWhile

/-!
# What the loader makes of an image

A page that does not lie wholly behind the file data of its segment is filled within its own
frame: file bytes where there are some, zeros up to the end of the segment, and in the padding
whatever the frame held. Pages compose to segments and segments to images.
-/

namespace MobilePhoneOs

open Mem (leBytes copy)

open List (append_assoc append_nil length_singleton map_cons mem_append mem_append_left mem_cons
  mem_cons_self mem_map mem_singleton)
namespace Elf

open Mm Mm.Vmm
open Prod (snd)

/-! ## Filling a page -/

/-- What a byte of a page becomes, with `old` the frame before. -/
def pageByte (img : Image) (ph : Phdr) (va : ℕ) (old : ℕ → ℕ) (j : ℕ) : ℕ :=
  if ph.vaddr ≤ va + j ∧ va + j < ph.vaddr + ph.filesz then
    (img.at (ph.offset + (va + j - ph.vaddr))).toNat
  else if ph.vaddr + ph.filesz ≤ va + j ∧ va + j < memEnd ph then 0
  else old j

/-- A page of a segment that lies in the window. -/
structure PageOk (ph : Phdr) (va : ℕ) : Prop where
  aligned : va % PAGE_SIZE = 0
  first : alignDown ph.vaddr ≤ va
  low : USER_CODE_BASE ≤ va
  high : va + PAGE_SIZE ≤ Uaccess.USER_VA_LIMIT

/-- The frame `fr` was filled and nothing else written. -/
structure FilledPage (img : Image) (ph : Phdr) (va fr : ℕ) (st st' : Load) : Prop where
  sys : st'.sys = { st.sys with ram := ⟨st'.sys.ram.mem, st.sys.ram.free⟩ }
  content : ∀ j < PAGE_SIZE, st'.sys.ram.mem (fr + j)
    = pageByte img ph va (fun j => st.sys.ram.mem (fr + j)) j
  outside : ∀ a, alignDown a ≠ fr → st'.sys.ram.mem a = st.sys.ram.mem a
  writes : ∃ new, st'.writes = st.writes ++ new ∧
    ∀ w ∈ new, ∀ i < w.2, alignDown (add64 w.1 i) = fr
  reads : ∃ new, st'.reads = st.reads ++ new ∧
    ∀ r ∈ new, r.1 + r.2 ≤ ph.offset + ph.filesz

variable {dst n : ℕ}

lemma memset_mem (st : Load) (h : dst + n ≤ 2 ^ 64) :
    (st.memset dst n).sys.ram.mem = copy st.sys.ram.mem dst n fun _ => 0 := by
  funext a
  show (if a < 2 ^ 64 ∧ sub64 a dst < n then 0 else st.sys.ram.mem a) = _
  rw [copy]
  have hiff : (a < 2 ^ 64 ∧ sub64 a dst < n) ↔ dst ≤ a ∧ a < dst + n := by
    rw [sub64]
    omega
  simp only [hiff]

variable {fr : ℕ}

/-- A part of a page that is written, with the file's bytes or zeros. -/
lemma FilledPage.inFrame {i : ℕ} (hfr : IsTable fr) (hlo : fr ≤ dst)
    (hhi : dst + n ≤ fr + PAGE_SIZE) (hi : i < n) : alignDown (add64 dst i) = fr := by
  have hlt := hfr.lt
  have hadd : add64 dst i = dst + i := by
    rw [add64]
    simp only [PAGE_SIZE] at hhi
    omega
  rw [hadd]
  exact alignDown_page hfr.aligned (by omega) (by omega)

/-- Some bytes of the frame are overwritten. -/
structure Wrote (fr dst n : ℕ) (src : ℕ → ℕ) (st st' : Load) : Prop where
  sys : st'.sys = { st.sys with ram := ⟨copy st.sys.ram.mem dst n src, st.sys.ram.free⟩ }
  writes : ∃ new, st'.writes = st.writes ++ new ∧
    ∀ w ∈ new, ∀ i < w.2, alignDown (add64 w.1 i) = fr

lemma copy_none (b : Mem) (p : ℕ) (src : ℕ → ℕ) : copy b p 0 src = b := by
  funext a
  rw [copy, if_neg (by omega)]

lemma Wrote.none (hn : n = 0) (src : ℕ → ℕ) (st : Load) :
    Wrote fr dst n src st st := by
  refine ⟨?_, [], (append_nil _).symm, by simp⟩
  rw [hn, copy_none]

lemma Wrote.one (hfr : IsTable fr) (hlo : fr ≤ dst) (hhi : dst + n ≤ fr + PAGE_SIZE) :
    ∀ w ∈ [(dst, n)], ∀ i < w.2, alignDown (add64 w.1 i) = fr := by
  intro w hw i hi
  obtain rfl := mem_singleton.mp hw
  exact FilledPage.inFrame hfr hlo hhi hi

variable {lo : ℕ}

/-- The data of the file, up to its byte `last`. -/
lemma wrote_file (img : Image) {src off hi last : ℕ} (hfr : IsTable fr) (hlo : fr ≤ dst)
    (hhi : dst + (hi - lo) ≤ fr + PAGE_SIZE) (hsrc : hi > lo → src = off)
    (hlast : hi > lo → off + (hi - lo) ≤ last) (st : Load) :
    let st' := if hi > lo then st.memcpy img dst src (hi - lo) else st
    Wrote fr dst (hi - lo) (fun i => (img.at (off + i)).toNat) st st' ∧
      ∃ new, st'.reads = st.reads ++ new ∧ ∀ r ∈ new, r.1 + r.2 ≤ last := by
  intro st'
  by_cases hgt : hi > lo
  · have hst : st' = st.memcpy img dst src (hi - lo) := if_pos hgt
    rw [hst, hsrc hgt]
    refine ⟨⟨rfl, [(dst, hi - lo)], rfl, Wrote.one hfr hlo hhi⟩, [(off, hi - lo)], rfl, ?_⟩
    intro r hr
    obtain rfl := mem_singleton.mp hr
    exact hlast hgt
  · have hst : st' = st := if_neg hgt
    rw [hst]
    exact ⟨Wrote.none (by omega) _ _, [], (append_nil _).symm, by simp⟩

/-- The zeros behind them. -/
lemma wrote_zeros {hi : ℕ} (hfr : IsTable fr) (hlo : fr ≤ dst)
    (hhi : dst + (hi - lo) ≤ fr + PAGE_SIZE) (st : Load) :
    let st' := if hi > lo then st.memset dst (hi - lo) else st
    Wrote fr dst (hi - lo) (fun _ => 0) st st' ∧ st'.reads = st.reads := by
  intro st'
  have hflt := hfr.lt
  by_cases hgt : hi > lo
  · have hst : st' = st.memset dst (hi - lo) := if_pos hgt
    rw [hst]
    refine ⟨⟨?_, [(dst, hi - lo)], rfl, Wrote.one hfr hlo hhi⟩, rfl⟩
    have hmem := @memset_mem dst (hi - lo) st (by simp only [PAGE_SIZE] at hhi; omega)
    rw [← hmem]
    rfl
  · have hst : st' = st := if_neg hgt
    rw [hst]
    exact ⟨Wrote.none (by omega) _ _, rfl⟩

/-- The bounds of the file data and of the segment in a page. -/
structure PageBounds (ph : Phdr) (va lo hiF hiM : ℕ) : Prop where
  low : va ≤ lo ∧ ph.vaddr ≤ lo ∧ (lo = va ∨ lo = ph.vaddr)
  file : va ≤ hiF ∧ lo ≤ hiF ∧ hiF ≤ va + PAGE_SIZE ∧ hiF ≤ ph.vaddr + ph.filesz ∧
    (hiF = va + PAGE_SIZE ∨ hiF = ph.vaddr + ph.filesz)
  mem : hiM ≤ va + PAGE_SIZE ∧ hiM ≤ memEnd ph ∧ (hiM = va + PAGE_SIZE ∨ hiM = memEnd ph)

variable {ph : Phdr} {va : ℕ}

lemma pageBounds (h : PageOk ph va) (hnear : va ≤ ph.vaddr + ph.filesz) :
    PageBounds ph va (if va > ph.vaddr then va else ph.vaddr)
      (if va + PAGE_SIZE < ph.vaddr + ph.filesz then va + PAGE_SIZE else ph.vaddr + ph.filesz)
      (if va + PAGE_SIZE < memEnd ph then va + PAGE_SIZE else memEnd ph) := by
  have hstart : ph.vaddr < va + PAGE_SIZE := by
    have hfirst := h.first
    simp only [alignDown, PAGE_SIZE] at *
    omega
  refine ⟨?_, ?_, ?_⟩
  · split <;> omega
  · split <;> split <;> omega
  · split <;> omega

/-- The bytes of a frame after both were written. -/
lemma PageBounds.content {hiF hiM : ℕ} (b : PageBounds ph va lo hiF hiM)
    (img : Image) (m : Mem) {j : ℕ} (hj : j < PAGE_SIZE) :
    copy (copy m (fr + (lo - va)) (hiF - lo)
        (fun i => (img.at (ph.offset + (lo - ph.vaddr) + i)).toNat)) (fr + (hiF - va)) (hiM - hiF)
        (fun _ => 0) (fr + j) =
      pageByte img ph va (fun j => m (fr + j)) j := by
  obtain ⟨hlo, hF, hM⟩ := b
  rw [pageByte]
  by_cases hfile : ph.vaddr ≤ va + j ∧ va + j < ph.vaddr + ph.filesz
  · have hat : fr + j = fr + (lo - va) + (va + j - lo) := by omega
    have hoff : ph.offset + (lo - ph.vaddr) + (va + j - lo) = ph.offset + (va + j - ph.vaddr) := by
      omega
    rw [if_pos hfile, Mem.copy_of_lt (by omega), hat, Mem.copy_add (by omega), hoff]
  · rw [if_neg hfile]
    by_cases hclear : ph.vaddr + ph.filesz ≤ va + j ∧ va + j < memEnd ph
    · have hat : fr + j = fr + (hiF - va) + (va + j - hiF) := by omega
      rw [if_pos hclear, hat, Mem.copy_add (by omega)]
    · rw [if_neg hclear, copy, if_neg (by omega), copy, if_neg (by omega)]

/-- A byte of another frame. -/
lemma copy_outside {a : ℕ} (hfr : IsTable fr) (hlo : fr ≤ dst)
    (hhi : dst + n ≤ fr + PAGE_SIZE) (ha : alignDown a ≠ fr) (m : Mem) (src : ℕ → ℕ) :
    copy m dst n src a = m a := by
  rw [copy, if_neg]
  intro hin
  exact ha (alignDown_page hfr.aligned (by omega) (by omega))

/-- A page gets its part of the file, and zeros up to its end in memory. -/
lemma fillPage_spec (img : Image) (h : PageOk ph va)
    (ht : TamePage ph va) (hfr : IsTable fr) (st : Load) :
    FilledPage img ph va fr st (fillPage img ph va fr st) := by
  have hend : fileEnd ph = ph.vaddr + ph.filesz := Nat.mod_eq_of_lt ht.data
  have hva : va + PAGE_SIZE ≤ 0x40000000000 := h.high
  have hflt := hfr.lt
  have b := pageBounds h ht.near
  rw [fillPage]
  simp only [hend]
  generalize (if va > ph.vaddr then va else ph.vaddr) = lo at b ⊢
  generalize (if va + PAGE_SIZE < ph.vaddr + ph.filesz then va + PAGE_SIZE
    else ph.vaddr + ph.filesz) = hiF at b ⊢
  generalize (if va + PAGE_SIZE < memEnd ph then va + PAGE_SIZE else memEnd ph) = hiM at b ⊢
  have hlow := b.low
  have hfile := b.file
  have hmem := b.mem
  have hoff := ht.offset
  have hdst : add64 fr (sub64 hiF va) = fr + (hiF - va) := by
    rw [add64, sub64]
    omega
  have hsrc : hiF > lo → add64 ph.offset (lo - ph.vaddr) = ph.offset + (lo - ph.vaddr) := by
    intro hgt
    rw [add64]
    omega
  have hinF : fr + (lo - va) + (hiF - lo) ≤ fr + PAGE_SIZE := by omega
  have hinM : fr + (hiF - va) + (hiM - hiF) ≤ fr + PAGE_SIZE := by omega
  rw [hdst]
  obtain ⟨hdata, newr, hr1, hnewr⟩ := wrote_file img hfr (Nat.le_add_right _ _) hinF hsrc
    (fun hgt => show _ ≤ ph.offset + ph.filesz by omega) st
  generalize (if hiF > lo then st.memcpy img (fr + (lo - va)) (add64 ph.offset (lo - ph.vaddr))
    (hiF - lo) else st) = st1 at *
  obtain ⟨hzeros, hr2⟩ := wrote_zeros hfr (Nat.le_add_right _ _) hinM st1
  generalize (if hiM > hiF then st1.memset (fr + (hiF - va)) (hiM - hiF) else st1) = st2 at *
  obtain ⟨new1, hw1, hnew1⟩ := hdata.writes
  obtain ⟨new2, hw2, hnew2⟩ := hzeros.writes
  refine ⟨?_, fun j hj => ?_, fun a ha => ?_, ⟨new1 ++ new2, ?_, fun w hw => ?_⟩,
    newr, by rw [hr2, hr1], hnewr⟩
  · rw [hzeros.sys, hdata.sys]
  · rw [hzeros.sys, hdata.sys]
    exact b.content img st.sys.ram.mem hj
  · rw [hzeros.sys, hdata.sys]
    dsimp only
    rw [copy_outside hfr (Nat.le_add_right _ _) hinM ha,
      copy_outside hfr (Nat.le_add_right _ _) hinF ha]
  · rw [hw2, hw1, append_assoc]
  · rcases mem_append.mp hw with hw | hw
    · exact hnew1 w hw
    · exact hnew2 w hw

/-! ## A page -/

lemma PageOk.user (h : PageOk ph va) : UserVa va := by
  have hbase : USER_CODE_BASE = 0x10000000000 := rfl
  have hlim : Uaccess.USER_VA_LIMIT = 0x40000000000 := rfl
  have hlow := h.low
  have hhigh := h.high
  exact ⟨by omega, by omega⟩

/-- The page `va` has been entered with the frame `fr` and filled. -/
structure LoadedPage (img : Image) (ph : Phdr) (va fr : ℕ) (fs : List ℕ) (st st' : Load) :
    Prop where
  entered : Entered st.sys st'.sys va fr (segFlags ph) fs
  content : ∀ j < PAGE_SIZE, st'.sys.ram.mem (fr + j)
    = pageByte img ph va (fun j => st.sys.ram.mem (fr + j)) j
  same : ∀ a, alignDown a ∉ st'.sys.held → alignDown a ≠ fr →
    st'.sys.ram.mem a = st.sys.ram.mem a
  writes : ∃ new, st'.writes = st.writes ++ new ∧
    ∀ w ∈ new, ∀ i < w.2, alignDown (add64 w.1 i) = fr
  reads : ∃ new, st'.reads = st.reads ++ new ∧ ∀ r ∈ new, r.1 + r.2 ≤ ph.offset + ph.filesz

/-- What the calls did that load pages: pages were mapped in the window, and no frame was
lost. -/
structure Progress (s s' : Sys) : Prop where
  space : Space s'
  root : s'.root = s.root
  held : ∀ f ∈ s.held, f ∈ s'.held
  maps : ∀ page, s'.maps page = s.maps page ∨ (s.maps page = none ∧
    USER_CODE_BASE ≤ page * PAGE_SIZE ∧ (page + 1) * PAGE_SIZE ≤ Uaccess.USER_VA_LIMIT)
  frames : ∀ f ∈ s.ram.free, f ∈ s'.ram.free ∨ f ∈ s'.held ∨
    ∃ page fl, s'.maps page = some (f, fl)

variable {s : Sys}

lemma progress_refl (hs : Space s) : Progress s s :=
  ⟨hs, rfl, fun _ h => h, fun _ => .inl rfl, fun _ h => .inl h⟩

lemma Progress.trans {s1 s2 : Sys} (h : Progress s s1) (h' : Progress s1 s2) :
    Progress s s2 := by
  refine ⟨h'.space, h'.root.trans h.root, fun f hf => h'.held f (h.held f hf), fun page => ?_,
    fun f hf => ?_⟩
  · rcases h'.maps page with heq' | ⟨hnone', hwin'⟩
    · rcases h.maps page with heq | ⟨hnone, hwin⟩
      · exact .inl (heq'.trans heq)
      · exact .inr ⟨hnone, hwin⟩
    · rcases h.maps page with heq | ⟨hnone, hwin⟩
      · exact .inr ⟨heq ▸ hnone', hwin'⟩
      · exact .inr ⟨hnone, hwin⟩
  · rcases h.frames f hf with hfree | hheld | ⟨page, fl, hmap⟩
    · exact h'.frames f hfree
    · exact .inr (.inl (h'.held f hheld))
    · rcases h'.maps page with heq | ⟨hnone, -⟩
      · exact .inr (.inr ⟨page, fl, heq.trans hmap⟩)
      · rw [hmap] at hnone
        exact absurd hnone (by simp)

variable {fs : List ℕ}

/-- A page that was entered, and what became of the frames. -/
lemma progress_of_entered {s' : Sys} {flags : ℕ}
    (h : PageOk ph va) (hin : Entered s s' va fr flags fs) (hfree : s.ram.free = fr :: fs) :
    Progress s s' := by
  refine ⟨hin.space, hin.root, fun f hf => ?_, fun page => ?_, fun f hf => ?_⟩
  · rw [hin.held]
    exact mem_append_left _ hf
  · rw [hin.maps]
    by_cases hpage : page = va / PAGE_SIZE
    · have hal := h.aligned
      have hlow := h.low
      have hhigh := h.high
      have hva : va / PAGE_SIZE * PAGE_SIZE = va := Nat.div_mul_cancel (Nat.dvd_of_mod_eq_zero hal)
      rw [hpage, Nat.succ_mul, hva]
      exact .inr ⟨hin.empty, hlow, hhigh⟩
    · exact .inl (Function.update_of_ne hpage _ _)
  · rw [hfree] at hf
    rcases mem_cons.mp hf with rfl | hf
    · refine .inr (.inr ⟨va / PAGE_SIZE, flags, ?_⟩)
      rw [hin.maps, Function.update_self]
    · rw [← List.take_append_drop (tablesFor (present s.ram.mem s.root) [va]) fs] at hf
      rw [hin.free, hin.held]
      rcases mem_append.mp hf with hf | hf
      · exact .inr (.inl (List.mem_append_right _ hf))
      · exact .inl hf

lemma progress_of_refused {s' : Sys} (h : Refused s s' va fr fs)
    (hfree : s.ram.free = fr :: fs) : Progress s s' := by
  refine ⟨h.space, h.root, fun f hf => ?_, fun page => .inl (by rw [h.maps]), fun f hf => ?_⟩
  · rcases h.why with ⟨-, -, hheld⟩ | ⟨-, -, -, hheld⟩
    · rwa [hheld]
    · rw [hheld]
      exact mem_append_left _ hf
  · rw [hfree] at hf
    rcases h.why with ⟨-, hfree', -⟩ | ⟨-, -, hfree', hheld⟩
    · rw [hfree']
      exact .inl hf
    · rw [hfree', hheld]
      rcases mem_cons.mp hf with rfl | hf
      · exact .inl mem_cons_self
      · exact .inr (.inl (List.mem_append_right _ hf))

variable {st : Load}

lemma loadPage_spec (img : Image) (h : PageOk ph va)
    (ht : Fits st.sys [va] → TamePage ph va) (hs : Space st.sys) :
    ((loadPage img ph va st).2 = 0 ∧ Fits st.sys [va] ∧ ∃ fr fs, st.sys.ram.free = fr :: fs ∧
        LoadedPage img ph va fr fs st (loadPage img ph va st).1) ∨
      ((loadPage img ph va st).2 ≠ 0 ∧ Progress st.sys (loadPage img ph va st).1.sys ∧
        (loadPage img ph va st).1.reads = st.reads) := by
  rw [loadPage]
  cases hfree : st.sys.ram.free with
  | nil =>
    rw [alloc_nil hfree]
    exact .inr ⟨show ELF_ERR_NOMEM ≠ 0 by decide, progress_refl hs, rfl⟩
  | cons fr fs =>
    have hfr : IsTable fr := hs.free_isTable (by rw [hfree]; exact mem_cons_self)
    have hpos := hfr.pos
    have halloc : st.sys.alloc.2 = fr := by rw [alloc_cons hfree]
    simp only [halloc, if_neg (show ¬ fr = 0 by omega)]
    rcases hs.enter hfree (segFlags ph) h.user h.aligned with ⟨hres, hin⟩ | ⟨hres, hout⟩
    · have hmem := hs.enter_mem hfree (segFlags ph) h.user h.aligned
      have hfits : Fits st.sys [va] := by
        refine ⟨by simpa using hin.empty, by simp, ?_⟩
        have hroom := hin.room
        rw [hfree, length_singleton, List.length_cons]
        omega
      rw [if_neg (not_not.mpr hres)]
      generalize (st.sys.alloc.1.mapAt va fr (segFlags ph)).1 = s1 at hin hmem ⊢
      have hfill := fillPage_spec img h (ht hfits) hfr { st with sys := s1 }
      generalize fillPage img ph va fr { st with sys := s1 } = st' at hfill ⊢
      obtain ⟨hsys, hcontent, houtside, hwrites, hreads⟩ := hfill
      have hentered := hin.write hfree st'.sys.ram.mem houtside
      rw [← hsys] at hentered
      refine .inl ⟨rfl, hfits, fr, fs, rfl, hentered, fun j hj => ?_, fun a ha hne => ?_, hwrites,
        hreads⟩
      · rw [hcontent j hj]
        have hold : s1.ram.mem (fr + j) = st.sys.ram.mem (fr + j) := by
          apply hmem
          rw [alignDown_page hfr.aligned (by omega) (by omega)]
          exact hin.frame.2.1
        simp only [pageByte, hold]
      · rw [houtside a hne]
        apply hmem
        rwa [hsys] at ha
    · rw [if_pos hres]
      exact .inr ⟨show ELF_ERR_OVERLAP ≠ 0 by decide, progress_of_refused hout hfree, rfl⟩

/-! ## Pages one after another -/

/-- The pages `l` have been loaded into the space `s`. -/
structure Filled (img : Image) (s : Sys) (st : Load) (l : List (Phdr × ℕ)) : Prop where
  space : Space st.sys
  root : st.sys.root = s.root
  fits : Fits s (l.map snd)
  free : st.sys.ram.free
    = s.ram.free.drop (l.length + tablesFor (present s.ram.mem s.root) (l.map snd))
  later : ∀ vas, (∀ va ∈ vas, UserVa va) →
    tablesFor (present s.ram.mem s.root) (l.map snd ++ vas)
      = tablesFor (present s.ram.mem s.root) (l.map snd)
        + tablesFor (present st.sys.ram.mem st.sys.root) vas
  others : ∀ page, (∀ x ∈ l, page ≠ x.2 / PAGE_SIZE) → st.sys.maps page = s.maps page
  pages : ∀ k ph va, l[k]? = some (ph, va) →
    st.sys.maps (va / PAGE_SIZE) = some (frameFor s (l.map snd) k, segFlags ph) ∧
      ∀ j < PAGE_SIZE, st.sys.ram.mem (frameFor s (l.map snd) k + j)
        = pageByte img ph va (fun j => s.ram.mem (frameFor s (l.map snd) k + j)) j
  rest : ∀ a, alignDown a ∈ st.sys.ram.free → st.sys.ram.mem a = s.ram.mem a
  writes : ∀ w ∈ st.writes, ∀ i < w.2,
    alignDown (add64 w.1 i) ∈ s.ram.free ∧ alignDown (add64 w.1 i) ∉ st.sys.ram.free

variable {img : Image}

lemma filled_nil (hs : Space st.sys) (hw : st.writes = []) :
    Filled img st.sys st [] := by
  refine ⟨hs, rfl, ⟨by simp, by simp, Nat.zero_le _⟩, rfl, fun vas _ => ?_, fun _ _ => rfl, by simp,
    fun _ _ => rfl, by simp [hw]⟩
  show tablesFor _ vas = 0 + _
  rw [Nat.zero_add]

lemma frameFor_append {vas vas' : List ℕ} {k : ℕ} (hk : k ≤ vas.length) :
    frameFor s (vas ++ vas') k = frameFor s vas k := by
  rw [frameFor, frameFor, List.take_append_of_le_length hk]

section

variable {img : Image} {s : Sys} {st : Load} {l : List (Phdr × ℕ)} {va : ℕ} (h : Filled img s st l)
include h

/-- A page that is not mapped is none of those that were loaded. -/
lemma Filled.fresh (hempty : st.sys.maps (va / PAGE_SIZE) = none) :
    ∀ x ∈ l, va / PAGE_SIZE ≠ x.2 / PAGE_SIZE := by
  intro x hx hc
  obtain ⟨k, hk⟩ := List.getElem?_of_mem hx
  have hsome := (h.pages k x.1 x.2 hk).1
  rw [← hc, hempty] at hsome
  exact absurd hsome (by simp)

/-- What fits behind pages that have been loaded fits behind them from the start. -/
lemma Filled.fits_snoc (hva : UserVa va) (hf : Fits st.sys [va]) :
    Fits s (l.map snd ++ [va]) := by
  obtain ⟨hnone, hnd, hlen⟩ := h.fits
  obtain ⟨hnone', -, hlen'⟩ := hf
  have hempty := hnone' va (List.mem_singleton_self va)
  have hnew := h.fresh hempty
  refine ⟨fun va' hva' => ?_, ?_, ?_⟩
  · rcases mem_append.mp hva' with hva' | hva'
    · exact hnone va' hva'
    · rw [mem_singleton.mp hva', ← h.others _ hnew]
      exact hempty
  · rw [List.map_append, List.nodup_append]
    refine ⟨hnd, List.nodup_singleton _, fun x hx y hy hc => ?_⟩
    obtain ⟨va', hva', rfl⟩ := mem_map.mp hx
    obtain ⟨z, hz, rfl⟩ := mem_map.mp hva'
    rw [List.map_singleton, mem_singleton] at hy
    exact hnew z hz (hy.symm.trans hc.symm)
  · rw [h.later [va] fun va' hva' => mem_singleton.mp hva' ▸ hva]
    rw [h.free, List.length_drop, length_singleton] at hlen'
    rw [List.length_append, length_singleton]
    rw [List.length_map] at hlen ⊢
    omega

end

variable {l : List (Phdr × ℕ)}

/-- One page more. -/
lemma Filled.snoc {st' : Load} (h : Filled img s st l) (hva : UserVa va)
    (hf : Fits st.sys [va]) (hfree : st.sys.ram.free = fr :: fs)
    (hl : LoadedPage img ph va fr fs st st') :
    Filled img s st' (l ++ [(ph, va)]) := by
  have hmap : (l ++ [(ph, va)]).map snd = l.map snd ++ [va] := by simp
  have hlen : (l.map snd).length = l.length := List.length_map _
  have hin := hl.entered
  have hnew := h.fresh hin.empty
  have htables := h.later [va] fun va' hva' => mem_singleton.mp hva' ▸ hva
  have hdrop := h.free
  rw [hfree] at hdrop
  have hframe : frameFor s (l.map snd ++ [va]) l.length = fr := by
    rw [frameFor_append (Nat.le_of_eq hlen.symm), frameFor,
      List.take_of_length_le (Nat.le_of_eq hlen)]
    have hget := congrArg (fun x => x.getD 0 0) hdrop
    rw [List.getD_eq_getElem?_getD, List.getD_eq_getElem?_getD, List.getElem?_drop] at hget
    rw [List.getD_eq_getElem?_getD]
    exact hget.symm
  have hsub : ∀ f ∈ st'.sys.ram.free, f ∈ st.sys.ram.free := (hin.left hfree).1
  refine ⟨hin.space, hin.root.trans h.root, ?_, ?_, fun vas hvas => ?_, fun page hpage => ?_,
    fun k ph' va' hk => ?_, fun a ha => ?_, fun w hw i hi => ?_⟩
  · rw [hmap]
    exact h.fits_snoc hva hf
  · rw [hmap, htables, hin.free, List.length_append, length_singleton]
    have hfs : fs = s.ram.free.drop
        (l.length + tablesFor (present s.ram.mem s.root) (l.map snd) + 1) := by
      rw [← List.drop_drop, ← hdrop, List.drop_one, List.tail_cons]
    rw [hfs, List.drop_drop]
    congr 1
    omega
  · rw [hmap, append_assoc, List.singleton_append, htables]
    rw [h.later (va :: vas) fun va' hva' => ?_, hin.later vas hvas, Nat.add_assoc]
    rcases mem_cons.mp hva' with rfl | hva'
    · exact hva
    · exact hvas va' hva'
  · rw [hin.maps, Function.update_of_ne (hpage (ph, va) (by simp))]
    exact h.others page fun x hx => hpage x (mem_append_left _ hx)
  · rw [hmap]
    rcases Nat.lt_or_ge k l.length with hlt | hge
    · -- a page from before: its frame is neither a table nor the new one
      rw [List.getElem?_append_left hlt] at hk
      rw [frameFor_append (by omega)]
      obtain ⟨hold, hcontent⟩ := h.pages k ph' va' hk
      have hne : va' / PAGE_SIZE ≠ va / PAGE_SIZE :=
        fun hc => hnew (ph', va') (List.mem_of_getElem? hk) hc.symm
      obtain ⟨htab, hheld, hnf⟩ := h.space.pages _ _ hold
      rw [hin.maps, Function.update_of_ne hne]
      refine ⟨hold, fun j hj => ?_⟩
      rw [← hcontent j hj]
      have hdown := alignDown_page htab.aligned (Nat.le_add_right (frameFor s (l.map snd) k) j)
        (Nat.add_lt_add_left hj _)
      apply hl.same
      · rw [hdown, hin.held, mem_append, not_or]
        refine ⟨hheld, fun hc => hnf ?_⟩
        rw [hfree]
        exact List.mem_cons_of_mem _ (List.mem_of_mem_take hc)
      · rw [hdown]
        rintro rfl
        rw [hfree] at hnf
        exact hnf mem_cons_self
    · have hk0 : k = l.length := by
        have hlt := (List.getElem?_eq_some_iff.mp hk).1
        rw [List.length_append, length_singleton] at hlt
        omega
      rw [hk0, List.getElem?_append_right (Nat.le_refl _), Nat.sub_self] at hk
      obtain ⟨rfl, rfl⟩ : ph = ph' ∧ va = va' := by simpa using hk
      rw [hk0, hframe, hin.maps, Function.update_self]
      refine ⟨rfl, fun j hj => ?_⟩
      have hfr := hin.frame.1.aligned
      have hold : st.sys.ram.mem (fr + j) = s.ram.mem (fr + j) := by
        apply h.rest
        rw [alignDown_page hfr (by omega) (by omega), hfree]
        exact mem_cons_self
      rw [hl.content j hj]
      simp only [pageByte, hold]
  · rw [← h.rest a (hsub _ ha)]
    apply hl.same
    · exact fun hc => hin.space.freeOk.unused _ ha hc
    · rintro rfl
      exact hin.frame.2.2 ha
  · obtain ⟨new, hnew', hin'⟩ := hl.writes
    rw [hnew'] at hw
    rcases mem_append.mp hw with hw | hw
    · obtain ⟨hmem, hnf⟩ := h.writes w hw i hi
      exact ⟨hmem, fun hc => hnf (hsub _ hc)⟩
    · rw [hin' w hw i hi]
      refine ⟨?_, hin.frame.2.2⟩
      have hmem : fr ∈ fr :: fs := mem_cons_self
      rw [hdrop] at hmem
      exact List.mem_of_mem_drop hmem

/-! ## Segments -/

/-- All ranges that were read lie in the image. -/
def ReadsIn (img : Image) (st : Load) : Prop := ∀ r ∈ st.reads, r.1 + r.2 ≤ img.len

lemma ReadsIn.append {st' : Load} {new : List (ℕ × ℕ)} (h : ReadsIn img st)
    (heq : st'.reads = st.reads ++ new) (hnew : ∀ r ∈ new, r.1 + r.2 ≤ img.len) :
    ReadsIn img st' := by
  intro r hr
  rw [heq] at hr
  rcases mem_append.mp hr with hr | hr
  · exact h r hr
  · exact hnew r hr

/-- The pages of `p` that a load comes to are tame. -/
def TameAll (s : Sys) (p : List (Phdr × ℕ)) : Prop :=
  ∀ k ph va, p[k]? = some (ph, va) → Fits s ((p.take (k + 1)).map snd) → TamePage ph va

lemma loadPages_cons (img : Image) (ph : Phdr) (va : ℕ) (vas : List ℕ) (st : Load) :
    loadPages img ph (va :: vas) st = if (loadPage img ph va st).2 ≠ 0 then loadPage img ph va st
      else loadPages img ph vas (loadPage img ph va st).1 := rfl

variable {p : List (Phdr × ℕ)}

lemma loadPages_spec {rest : List (Phdr × ℕ)}
    (ht : TameAll s p) (hseg : add64 ph.offset ph.filesz ≤ img.len) {vas : List ℕ}
    (hok : ∀ va ∈ vas, PageOk ph va) (h : Filled img s st l)
    (hp : p = l ++ (vas.map fun va => (ph, va)) ++ rest) :
    Progress st.sys (loadPages img ph vas st).1.sys ∧
      (ReadsIn img st → ReadsIn img (loadPages img ph vas st).1) ∧
      ((loadPages img ph vas st).2 = 0 →
        Filled img s (loadPages img ph vas st).1 (l ++ vas.map fun va => (ph, va))) := by
  induction vas generalizing l st with
  | nil =>
    refine ⟨progress_refl h.space, fun hr => hr, fun _ => ?_⟩
    rw [List.map_nil, append_nil]
    exact h
  | cons va vas ih =>
    have hva := hok va mem_cons_self
    have htame : Fits st.sys [va] → TamePage ph va := by
      intro hf
      refine ht l.length ph va ?_ ?_
      · rw [hp, append_assoc, List.getElem?_append_right (Nat.le_refl _), Nat.sub_self]
        rfl
      · have htake : p.take (l.length + 1) = l ++ [(ph, va)] := by
          rw [hp, append_assoc, List.take_length_add_append]
          rfl
        rw [htake, List.map_append, List.map_singleton]
        exact h.fits_snoc hva.user hf
    rw [loadPages_cons]
    rcases loadPage_spec img hva htame h.space with
      ⟨hres, hf, fr, fs, hfree, hl⟩ | ⟨hres, hprog, hreads⟩
    · rw [if_neg (not_not.mpr hres)]
      have hsnoc := h.snoc hva.user hf hfree hl
      have hp' : p = (l ++ [(ph, va)]) ++ (vas.map fun va => (ph, va)) ++ rest := by
        rw [hp, map_cons, append_assoc, append_assoc, append_assoc]
        rfl
      obtain ⟨hprog, hreads, hfill⟩ :=
        ih (fun va' hva' => hok va' (List.mem_cons_of_mem _ hva')) hsnoc hp'
      refine ⟨(progress_of_entered hva hl.entered hfree).trans hprog, fun hr => hreads ?_,
        fun hz => ?_⟩
      · obtain ⟨new, hnew, hin⟩ := hl.reads
        have hoff := (htame hf).offset
        rw [add64, Nat.mod_eq_of_lt hoff] at hseg
        exact hr.append hnew fun r hr => (hin r hr).trans hseg
      · have hdone := hfill hz
        rwa [append_assoc, List.singleton_append] at hdone
    · rw [if_pos hres]
      refine ⟨hprog, fun hr => ?_, fun hz => absurd hz hres⟩
      rw [ReadsIn, hreads]
      exact hr

/-- Where the pages of a segment that ends in the window end. -/
lemma segEnd_spec (h : memEnd ph ≤ Uaccess.USER_VA_LIMIT) :
    alignUp (memEnd ph) % PAGE_SIZE = 0 ∧ memEnd ph ≤ alignUp (memEnd ph) ∧
      alignUp (memEnd ph) < memEnd ph + PAGE_SIZE ∧
      alignUp (memEnd ph) ≤ Uaccess.USER_VA_LIMIT := by
  have hlim : Uaccess.USER_VA_LIMIT = 0x40000000000 := rfl
  simp only [alignUp, add64, PAGE_SIZE, hlim] at *
  omega

/-- The pages of a segment that passes the checks. -/
lemma mem_segPages (h : SegmentOk img ph) :
    va ∈ segPages ph ↔
      va % PAGE_SIZE = 0 ∧ alignDown ph.vaddr ≤ va ∧ va < alignUp (memEnd ph) := by
  obtain ⟨hal, hle, -, -⟩ := segEnd_spec h.2.2
  have hdown : alignDown ph.vaddr % PAGE_SIZE = 0 := Nat.mul_mod_left _ _
  rw [segPages, pagesFrom_eq hdown hal, mem_pages]
  generalize alignDown ph.vaddr = lo at *
  generalize alignUp (memEnd ph) = hi at *
  simp only [PAGE_SIZE] at *
  constructor
  · rintro ⟨i, hi, rfl⟩
    omega
  · rintro ⟨hva, hge, hlt⟩
    exact ⟨va / 4096 - lo / 4096, by omega, by omega⟩

lemma segPages_ok (h : SegmentOk img ph)
    (hva : va ∈ segPages ph) : PageOk ph va := by
  obtain ⟨hal, hge, hlt⟩ := (mem_segPages h).mp hva
  obtain ⟨hal', -, -, hlim⟩ := segEnd_spec h.2.2
  have hlow := h.2.1
  have hbase : USER_CODE_BASE = 0x10000000000 := rfl
  have hdown : USER_CODE_BASE ≤ alignDown ph.vaddr := by
    simp only [alignDown, PAGE_SIZE]
    omega
  refine ⟨hal, hge, hdown.trans hge, le_trans ?_ hlim⟩
  simp only [PAGE_SIZE] at *
  omega

lemma loadSegment_spec {rest : List (Phdr × ℕ)}
    (ht : TameAll s p) (h : Filled img s st l)
    (hp : SegmentOk img ph → p = l ++ ((segPages ph).map fun va => (ph, va)) ++ rest) :
    Progress st.sys (loadSegment img ph st).1.sys ∧
      (ReadsIn img st → ReadsIn img (loadSegment img ph st).1) ∧
      ((loadSegment img ph st).2 = 0 → SegmentOk img ph ∧
        Filled img s (loadSegment img ph st).1 (l ++ (segPages ph).map fun va => (ph, va))) := by
  have hrefuse : ELF_ERR_SEG ≠ 0 := by decide
  rw [loadSegment]
  split
  · exact ⟨progress_refl h.space, fun hr => hr, fun hz => absurd hz hrefuse⟩
  split
  · exact ⟨progress_refl h.space, fun hr => hr, fun hz => absurd hz hrefuse⟩
  · rename_i hfile hwin
    have hok : SegmentOk img ph := ⟨by omega, by omega, by omega⟩
    obtain ⟨hprog, hreads, hfill⟩ :=
      loadPages_spec ht hok.1 (fun va hva => segPages_ok hok hva) h (hp hok)
    exact ⟨hprog, hreads, fun hz => ⟨hok, hfill hz⟩⟩

/-! ## Images -/

/-- The program header `i` lies in the image when `get_phdr` takes it to do so. -/
def HeaderIn (img : Image) (i : ℕ) : Prop :=
  add64 (phdrOff (ehdr img) i) PHDR_ENT_SIZE ≤ img.len →
    phdrOff (ehdr img) i + PHDR_ENT_SIZE ≤ img.len

lemma ReadsIn.header {i : ℕ} (h : ReadsIn img st)
    (hi : HeaderIn img i) (hle : add64 (phdrOff (ehdr img) i) PHDR_ENT_SIZE ≤ img.len) :
    ReadsIn img (st.read (phdrOff (ehdr img) i) PHDR_ENT_SIZE) := by
  refine h.append rfl fun r hr => ?_
  rw [mem_singleton.mp hr]
  exact hi hle

lemma rejectDynamic_spec {is : List ℕ} (st : Load) :
    (rejectDynamic img (ehdr img) is st).1.sys = st.sys ∧
      (rejectDynamic img (ehdr img) is st).1.writes = st.writes ∧
      ((∀ i ∈ is, HeaderIn img i) → ReadsIn img st →
        ReadsIn img (rejectDynamic img (ehdr img) is st).1) ∧
      ((rejectDynamic img (ehdr img) is st).2 = 0 →
        ∀ i ∈ is, (phdrAt img (phdrOff (ehdr img) i)).type ≠ PT_INTERP) := by
  induction is generalizing st with
  | nil => exact ⟨rfl, rfl, fun _ hr => hr, fun _ => by simp⟩
  | cons i is ih =>
    rw [rejectDynamic, getPhdr]
    by_cases hle : add64 (phdrOff (ehdr img) i) PHDR_ENT_SIZE > img.len
    · simp only [if_pos hle]
      exact ⟨trivial, trivial, fun _ hr => hr,
        fun hz => absurd hz (show ELF_ERR_HEADER ≠ 0 by decide)⟩
    · simp only [if_neg hle]
      by_cases hty : (phdrAt img (phdrOff (ehdr img) i)).type = PT_INTERP
      · simp only [if_pos hty]
        exact ⟨rfl, rfl, fun hin hr => hr.header (hin i mem_cons_self) (Nat.not_lt.mp hle),
          fun hz => absurd hz (show ELF_ERR_DYNAMIC ≠ 0 by decide)⟩
      · simp only [if_neg hty]
        obtain ⟨hsys, hwrites, hreads, hnone⟩ :=
          ih (st.read (phdrOff (ehdr img) i) PHDR_ENT_SIZE)
        refine ⟨hsys, hwrites, fun hin hr => ?_, fun hz i' hi' => ?_⟩
        · exact hreads (fun i' hi' => hin i' (List.mem_cons_of_mem _ hi'))
            (hr.header (hin i mem_cons_self) (Nat.not_lt.mp hle))
        · rcases mem_cons.mp hi' with rfl | hi'
          · exact hty
          · exact hnone hz i' hi'

/-- The segments among the headers `is` that are loaded. -/
def segmentsOf (img : Image) (is : List ℕ) : List Phdr :=
  (is.map fun i => phdrAt img (phdrOff (ehdr img) i)).filter fun ph =>
    decide (ph.type = PT_LOAD ∧ ph.memsz ≠ 0)

/-- The pages of the segments up to the first one that is rejected. -/
def planOf (img : Image) (phs : List Phdr) : List (Phdr × ℕ) :=
  (phs.takeWhile fun ph => decide (SegmentOk img ph)).flatMap fun ph =>
    (segPages ph).map fun va => (ph, va)

lemma planOf_cons {phs : List Phdr} (h : SegmentOk img ph) :
    planOf img (ph :: phs) = ((segPages ph).map fun va => (ph, va)) ++ planOf img phs := by
  have htake := List.takeWhile_cons_of_pos (p := fun ph => decide (SegmentOk img ph)) (l := phs)
    (decide_eq_true h)
  rw [planOf, htake, List.flatMap_cons, planOf]

/-- What was written before the headers are read goes on. -/
lemma Filled.read (off n : ℕ)
    (h : Filled img s st l) : Filled img s (st.read off n) l :=
  ⟨h.space, h.root, h.fits, h.free, h.later, h.others, h.pages, h.rest, h.writes⟩

lemma loadSegments_spec (ht : TameAll s p)
    {is : List ℕ} {brk : ℕ} (h : Filled img s st l)
    (hp : p = l ++ planOf img (segmentsOf img is)) :
    Progress st.sys (loadSegments img (ehdr img) is brk st).1.sys ∧
      ((∀ i ∈ is, HeaderIn img i) → ReadsIn img st →
        ReadsIn img (loadSegments img (ehdr img) is brk st).1) ∧
      ∀ b, (loadSegments img (ehdr img) is brk st).2 = .ok b →
        (∀ ph ∈ segmentsOf img is, SegmentOk img ph) ∧
          Filled img s (loadSegments img (ehdr img) is brk st).1 p := by
  induction is generalizing brk l st with
  | nil =>
    refine ⟨progress_refl h.space, fun _ hr => hr, fun _ _ => ⟨by simp [segmentsOf], ?_⟩⟩
    rw [hp]
    show Filled img s st (l ++ [])
    rwa [append_nil]
  | cons i is ih =>
    rw [loadSegments, getPhdr]
    by_cases hle : add64 (phdrOff (ehdr img) i) PHDR_ENT_SIZE > img.len
    · simp only [if_pos hle]
      exact ⟨progress_refl h.space, fun _ hr => hr, fun _ hb => absurd hb (by simp)⟩
    · simp only [if_neg hle]
      have hread := h.read (phdrOff (ehdr img) i) PHDR_ENT_SIZE
      have hhead : (∀ i' ∈ i :: is, HeaderIn img i') → ReadsIn img st →
          ReadsIn img (st.read (phdrOff (ehdr img) i) PHDR_ENT_SIZE) :=
        fun hin hr => hr.header (hin i mem_cons_self) (Nat.not_lt.mp hle)
      have htail : (∀ i' ∈ i :: is, HeaderIn img i') → ∀ i' ∈ is, HeaderIn img i' :=
        fun hin i' hi' => hin i' (List.mem_cons_of_mem _ hi')
      generalize hph : phdrAt img (phdrOff (ehdr img) i) = ph
      have hsys : (st.read (phdrOff (ehdr img) i) PHDR_ENT_SIZE).sys = st.sys := rfl
      generalize st.read (phdrOff (ehdr img) i) PHDR_ENT_SIZE = st1 at hread hhead hsys ⊢
      rw [← hsys]
      by_cases hskip : ph.type ≠ PT_LOAD ∨ ph.memsz = 0
      · have hseg : segmentsOf img (i :: is) = segmentsOf img is := by
          rw [segmentsOf, map_cons, hph, List.filter_cons_of_neg (by simp; tauto)]
          rfl
        simp only [if_pos hskip]
        rw [hseg] at hp ⊢
        obtain ⟨hprog, hreads, hfill⟩ := @ih _ _ brk hread hp
        exact ⟨hprog, fun hin hr => hreads (htail hin) (hhead hin hr), hfill⟩
      · have hseg : segmentsOf img (i :: is) = ph :: segmentsOf img is := by
          rw [segmentsOf, map_cons, hph, List.filter_cons_of_pos (by simp; tauto)]
          rfl
        simp only [if_neg hskip]
        rw [hseg] at hp ⊢
        obtain ⟨hprog, hreads, hfill⟩ := @loadSegment_spec ph s _ img _ p
          (planOf img (segmentsOf img is)) ht hread
          fun hok => by rw [hp, planOf_cons hok, append_assoc]
        by_cases hres : (loadSegment img ph st1).2 ≠ 0
        · simp only [if_pos hres]
          exact ⟨hprog, fun hin hr => hreads (hhead hin hr), fun _ hb => absurd hb (by simp)⟩
        · simp only [if_neg hres]
          obtain ⟨hok, hfill⟩ := hfill (not_not.mp hres)
          rw [planOf_cons hok, ← append_assoc] at hp
          obtain ⟨hprog', hreads', hfill'⟩ := ih hfill hp
          refine ⟨hprog.trans hprog', fun hin hr => hreads' (htail hin) (hreads (hhead hin hr)),
            fun b hb => ?_⟩
          obtain ⟨hoks, hdone⟩ := hfill' b hb
          exact ⟨List.forall_mem_cons.mpr ⟨hok, hoks⟩, hdone⟩

/-- The load once the file header has been read. -/
def opened (s : Sys) : Load := ⟨s, [(0, 64)], []⟩

lemma opened_reads (h : 64 ≤ img.len) : ReadsIn img (opened s) := by
  intro r hr
  rw [mem_singleton.mp hr]
  exact h

lemma elfLoad_rejected (h : ¬ HeaderOk img) (s : Sys) :
    (elfLoad img s).1.sys = s ∧ ReadsIn img (elfLoad img s).1 ∧
      ∃ e, (elfLoad img s).2 = .error e := by
  rw [elfLoad]
  split
  · exact ⟨rfl, by simp [ReadsIn], _, rfl⟩
  have hread : ReadsIn img (opened s) := opened_reads (by omega)
  simp only
  split
  · exact ⟨rfl, hread, _, rfl⟩
  split
  · exact ⟨rfl, hread, _, rfl⟩
  split
  · exact ⟨rfl, hread, _, rfl⟩
  · rename_i hlen hid hty hoff
    simp only [not_or, ne_eq, not_not, gt_iff_lt, not_lt] at hty
    exact absurd ⟨Nat.not_lt.mp hlen, not_not.mp hid, hty.1, hty.2.1, hty.2.2.1, hty.2.2.2.1,
      hty.2.2.2.2, Nat.not_lt.mp hoff⟩ h

lemma elfLoad_opened (h : HeaderOk img) (s : Sys) : elfLoad img s =
    (let (st, r) := rejectDynamic img (ehdr img) (List.range (ehdr img).phnum) (opened s)
      if r ≠ 0 then (st, .error r)
      else
        match loadSegments img (ehdr img) (List.range (ehdr img).phnum) 0 st with
        | (st, .error e) => (st, .error e)
        | (st, .ok brk) =>
          if (ehdr img).entry < USER_CODE_BASE ∨ (ehdr img).entry ≥ Uaccess.USER_VA_LIMIT then
            (st, .error ELF_ERR_SEG)
          else (st, .ok ((ehdr img).entry, brk))) := by
  obtain ⟨hlen, hid, hty, hmach, hent, hnum, hmax, hoff⟩ := h
  rw [elfLoad, if_neg (Nat.not_lt.mpr hlen)]
  rw [if_neg (not_not.mpr hid), if_neg (by simp only [not_or]; omega),
    if_neg (Nat.not_lt.mpr hoff)]
  rfl

/-- What an image that passes the checks of the file header is made into. -/
lemma elfLoad_spec (hok : HeaderOk img) (hs : Space s)
    (ht : (∀ ph ∈ phdrs img, ph.type ≠ PT_INTERP) → Tame img s) :
    Progress s (elfLoad img s).1.sys ∧
      ((∀ i ∈ List.range (ehdr img).phnum, HeaderIn img i) → ReadsIn img (elfLoad img s).1) ∧
      ∀ x, (elfLoad img s).2 = .ok x → (∀ ph ∈ segments img, SegmentOk img ph) ∧
        Filled img s (elfLoad img s).1 (plan img) := by
  have hread0 : ReadsIn img (opened s) := opened_reads hok.1
  rw [elfLoad_opened hok]
  have hrej := @rejectDynamic_spec img (List.range (ehdr img).phnum) (opened s)
  generalize rejectDynamic img (ehdr img) (List.range (ehdr img).phnum) (opened s) = rej at hrej ⊢
  obtain ⟨st, r⟩ := rej
  obtain ⟨hsys, hwrites, hreads, hnone⟩ := hrej
  simp only at hsys hwrites hreads hnone ⊢
  have hsys' : st.sys = s := hsys
  by_cases hr : r ≠ 0
  · rw [if_pos hr]
    exact ⟨hsys'.symm ▸ progress_refl hs, fun hin => hreads hin hread0,
      fun _ hx => absurd hx (by simp)⟩
  · rw [if_neg hr]
    have htame : TameAll s (plan img) := by
      refine ht fun ph hph => ?_
      obtain ⟨i, hi, rfl⟩ := mem_map.mp hph
      exact hnone (not_not.mp hr) i hi
    have hnil : Filled img s st [] := by
      have hst := @filled_nil st img (hsys'.symm ▸ hs) hwrites
      rwa [hsys'] at hst
    have hseg := @loadSegments_spec s st img [] (plan img) htame (List.range (ehdr img).phnum) 0
      hnil rfl
    rw [hsys'] at hseg
    generalize loadSegments img (ehdr img) (List.range (ehdr img).phnum) 0 st = out at hseg ⊢
    obtain ⟨st', x⟩ := out
    obtain ⟨hprog, hreads', hfill⟩ := hseg
    have hin' : (∀ i ∈ List.range (ehdr img).phnum, HeaderIn img i) → ReadsIn img st' :=
      fun hin => hreads' hin (hreads hin hread0)
    cases x with
    | error e => exact ⟨hprog, hin', fun _ hx => absurd hx (by simp)⟩
    | ok brk =>
      simp only
      split
      · exact ⟨hprog, hin', fun _ hx => absurd hx (by simp)⟩
      · exact ⟨hprog, hin', fun _ _ => hfill brk rfl⟩

/-! ## The image law -/

section

variable {img : Image} {s : Sys} {st : Load}

lemma mem_plan (hok : ∀ ph ∈ segments img, SegmentOk img ph) :
    (ph, va) ∈ plan img ↔ ph ∈ segments img ∧ va ∈ segPages ph := by
  have htake : ((segments img).takeWhile fun ph => decide (SegmentOk img ph)) = segments img :=
    List.takeWhile_eq_self_iff.mpr fun ph hph => decide_eq_true (hok ph hph)
  rw [plan, htake, List.mem_flatMap]
  constructor
  · rintro ⟨ph', hph', hmem⟩
    obtain ⟨va', hva', heq⟩ := mem_map.mp hmem
    obtain ⟨rfl, rfl⟩ := Prod.mk.injEq .. ▸ heq
    exact ⟨hph', hva'⟩
  · rintro ⟨hph, hva⟩
    exact ⟨ph, hph, mem_map.mpr ⟨va, hva, rfl⟩⟩

lemma pageByte_eq_iff {j : ℕ} {old : ℕ → ℕ} :
    pageByte img ph va old j = wantedByte img ph (va + j)
      ↔ (Padding ph (va + j) → old j = 0) := by
  rw [pageByte, wantedByte, Padding]
  by_cases hfile : ph.vaddr ≤ va + j ∧ va + j < ph.vaddr + ph.filesz
  · rw [if_pos hfile, if_pos hfile]
    exact ⟨fun _ hpad => by omega, fun _ => rfl⟩
  · rw [if_neg hfile, if_neg hfile]
    by_cases hclear : ph.vaddr + ph.filesz ≤ va + j ∧ va + j < memEnd ph
    · rw [if_pos hclear]
      exact ⟨fun _ hpad => by omega, fun _ => rfl⟩
    · rw [if_neg hclear]
      exact ⟨fun h _ => h, fun h => h (by omega)⟩

/-- What an address of a page that was loaded leads to. -/
lemma Filled.probe (h : Filled img s st (plan img))
    (hok : ∀ ph ∈ segments img, SegmentOk img ph) {k : ℕ}
    (hk : (plan img)[k]? = some (ph, va)) {j : ℕ} (hj : j < PAGE_SIZE) :
    st.sys.probe (va + j)
        = some (frameFor s ((plan img).map snd) k + j, shownFlags (segFlags ph)) ∧
      st.sys.byte (va + j) = some (pageByte img ph va
        (fun j => s.ram.mem (frameFor s ((plan img).map snd) k + j)) j) := by
  obtain ⟨hph, hva⟩ := (mem_plan hok).mp (List.mem_of_getElem? hk)
  have hpage := segPages_ok (hok ph hph) hva
  have hal := hpage.aligned
  have huser : UserVa (va + j) := by
    obtain ⟨hpos, hlt⟩ := hpage.user
    have hhigh := hpage.high
    have hlim : Uaccess.USER_VA_LIMIT = 0x40000000000 := rfl
    exact ⟨by omega, by omega⟩
  have hdiv : (va + j) / PAGE_SIZE = va / PAGE_SIZE := by
    simp only [PAGE_SIZE] at *
    omega
  have hmod : (va + j) % PAGE_SIZE = j := by
    simp only [PAGE_SIZE] at *
    omega
  obtain ⟨hmap, hcontent⟩ := h.pages k ph va hk
  rw [← hdiv] at hmap
  refine ⟨?_, ?_⟩
  · rw [h.space.probe huser, expected, hmap, hmod]
    rfl
  · rw [h.space.byte huser hmap, hmod, hcontent j hj]

lemma segFlags_spec (ph : Phdr) : shownFlags (segFlags ph) &&& VM_USER ≠ 0 ∧
    shownFlags (segFlags ph) &&& VM_READ ≠ 0 ∧
    (shownFlags (segFlags ph) &&& VM_WRITE ≠ 0 ↔ ph.flags &&& PF_W ≠ 0) ∧
      (shownFlags (segFlags ph) &&& VM_EXEC ≠ 0 ↔ ph.flags &&& PF_X ≠ 0) := by
  rw [segFlags]
  generalize ph.flags &&& PF_W = w
  generalize ph.flags &&& PF_X = x
  by_cases hw : w = 0 <;> by_cases hx : x = 0
  all_goals
    simp only [ne_eq, hw, hx, not_true_eq_false, not_false_eq_true, if_true, if_false, iff_true,
      iff_false]
    decide

/-- A load that came to its end leaves what it should behind exactly when the padding was zero
before. -/
lemma Filled.imageLaw_iff (h : Filled img s st (plan img)) (hs : Space s)
    (hok : ∀ ph ∈ segments img, SegmentOk img ph) : ImageLaw img s st ↔ PaddingZero img s := by
  have hplan : ∀ ph ∈ segments img, ∀ a, InPages ph a → ∃ k va j : ℕ, j < PAGE_SIZE ∧ a = va + j ∧
      (plan img)[k]? = some (ph, va) := by
    rintro ph hph a ⟨hlo, hhi⟩
    have hmem : (ph, alignDown a) ∈ plan img := by
      refine (mem_plan hok).mpr ⟨hph, (mem_segPages (hok ph hph)).mpr ?_⟩
      generalize alignUp (memEnd ph) = hi at *
      simp only [alignDown, PAGE_SIZE] at *
      omega
    obtain ⟨k, hk⟩ := List.getElem?_of_mem hmem
    refine ⟨k, alignDown a, a % PAGE_SIZE, Nat.mod_lt _ (by decide), ?_, hk⟩
    rw [alignDown, Nat.mul_comm, Nat.div_add_mod]
  constructor
  · intro hlaw k ph va hk j hj
    obtain ⟨hph, hva⟩ := (mem_plan hok).mp (List.mem_of_getElem? hk)
    obtain ⟨hal, hge, hlt⟩ := (mem_segPages (hok ph hph)).mp hva
    obtain ⟨hal', -, -, -⟩ := segEnd_spec (hok ph hph).2.2
    have hin : InPages ph (va + j) := by
      rw [InPages]
      generalize alignUp (memEnd ph) = hi at *
      simp only [alignDown, PAGE_SIZE] at *
      omega
    have hbyte := hlaw.bytes ph hph (va + j) hin
    rw [(h.probe hok hk hj).2] at hbyte
    exact pageByte_eq_iff.mp (Option.some.inj hbyte)
  · intro hzero
    refine ⟨fun ph hph a ha => ?_, fun ph hph a ha => ?_, fun a huser ha => ?_, h.writes⟩
    · obtain ⟨k, va, j, hj, rfl, hk⟩ := hplan ph hph a ha
      rw [(h.probe hok hk hj).2]
      exact congrArg some (pageByte_eq_iff.mpr fun hpad => hzero k ph va hk j hj hpad)
    · obtain ⟨k, va, j, hj, rfl, hk⟩ := hplan ph hph a ha
      exact ⟨_, _, (h.probe hok hk hj).1, segFlags_spec ph⟩
    · rw [h.space.probe huser, hs.probe huser, expected, expected, h.others _ fun x hx hc => ?_]
      obtain ⟨hph, hva⟩ := (mem_plan hok).mp hx
      obtain ⟨hal, hge, hlt⟩ := (mem_segPages (hok x.1 hph)).mp hva
      obtain ⟨hal', -, -, -⟩ := segEnd_spec (hok x.1 hph).2.2
      apply ha x.1 hph
      rw [InPages]
      generalize alignUp (memEnd x.1) = hi at *
      simp only [alignDown, PAGE_SIZE] at *
      omega

end

/-! ## Small images -/

/-- The image with the bytes `l`. -/
def ofList (l : List UInt8) (h : l.length < 2 ^ 64) : Image := ⟨fun i => l.getD i 0, l.length, h⟩

/-- The header of a file with its program headers at `phoff`. -/
def fileHeader (phoff phnum : ℕ) : List UInt8 :=
  ELF_IDENT ++ leBytes 10 1 ++ leBytes 2 ET_EXEC ++ leBytes 2 EM_AARCH64 ++
    leBytes 4 1 ++ leBytes 8 USER_CODE_BASE ++ leBytes 8 phoff ++ leBytes 14 0 ++
    leBytes 2 PHDR_ENT_SIZE ++ leBytes 2 phnum ++ leBytes 6 0

/-- The header of a segment of `size` bytes. -/
def segmentHeader (offset vaddr size : ℕ) : List UInt8 :=
  leBytes 4 PT_LOAD ++ leBytes 4 PF_X ++ leBytes 8 offset ++ leBytes 8 vaddr ++
    leBytes 8 vaddr ++ leBytes 8 size ++ leBytes 8 size ++ leBytes 8 PAGE_SIZE

/-- A file with one segment that does not start at a page. -/
def small : Image :=
  ofList (fileHeader 64 1 ++ segmentHeader 120 (USER_CODE_BASE + 16) 4 ++ [1, 2, 3, 4])
    (by decide +kernel)

/-- An empty space whose first free frame was in use before. -/
def usedSpace : Sys :=
  { emptySpace 8 with
    ram := ⟨fun a => if alignDown a = 0x50001000 then 7 else (emptySpace 8).ram.mem a,
      (emptySpace 8).ram.free⟩ }

lemma space_usedSpace : Space usedSpace := by
  have hs : Space (emptySpace 8) := space_emptySpace (by decide) (by decide)
  refine hs.congr (fun a ha => ?_) hs.freeOk fun page m hm => (hs.pages page m hm).2.2
  have hroot : alignDown a = 0x50000000 := mem_singleton.mp ha
  exact if_neg (by omega)

lemma small_paddingZero : PaddingZero small (emptySpace 8) := by
  have hlen : (plan small).length = 1 := by decide +kernel
  have hframe : frameFor (emptySpace 8) ((plan small).map snd) 0 = 0x50001000 := by
    decide
  intro k ph va hk j hj _
  obtain rfl : k = 0 := by
    have hlt := (List.getElem?_eq_some_iff.mp hk).1
    omega
  rw [hframe]
  have hmem : (emptySpace 8).ram.mem = (((⟨fun _ => 0, []⟩ : Ram).zeroPage 0x50000000).set
      (0x50000000 + 8 * index 0 0) (tableDesc 0x40200000)).mem := rfl
  have hslot : index 0 0 < 512 := by decide
  rw [hmem, set_mem_of_ne _ _ (by omega)]
  exact if_neg (by simp only [PAGE_SIZE]; omega)

lemma small_tame (s : Sys) : Tame small s := by
  have hall : ((plan small).all fun x => decide (x.1.offset + x.1.filesz < 2 ^ 64 ∧
      x.1.vaddr + x.1.filesz < 2 ^ 64 ∧ x.2 ≤ x.1.vaddr + x.1.filesz)) = true := by
    decide +kernel
  intro k ph va hk _
  have hx := List.all_eq_true.mp hall _ (List.mem_of_getElem? hk)
  obtain ⟨hoff, hdata, hnear⟩ := of_decide_eq_true hx
  exact ⟨hoff, hdata, hnear⟩

/-- When the pages that a load comes to are tame, an image that is accepted is laid out as it
should be exactly when the frames hold zeros in the padding. -/
theorem elfLoad_imageLaw_iff (img : Image) (s : Sys) (hs : Space s) (ht : Tame img s)
    (entry brk : ℕ) (hok : (elfLoad img s).2 = .ok (entry, brk)) :
    ImageLaw img s (elfLoad img s).1 ↔ PaddingZero img s := by
  have hheader : HeaderOk img := by
    by_contra hc
    obtain ⟨-, -, e, he⟩ := elfLoad_rejected hc s
    rw [he] at hok
    exact absurd hok (by simp)
  obtain ⟨hsegs, hfill⟩ := (elfLoad_spec hheader hs fun _ => ht).2.2 _ hok
  exact hfill.imageLaw_iff hs hsegs

theorem elfLoad_imageLaw_small :
    ImageLaw small (emptySpace 8) (elfLoad small (emptySpace 8)).1 :=
  (elfLoad_imageLaw_iff small (emptySpace 8) (space_emptySpace (by decide) (by decide))
    (small_tame _) USER_CODE_BASE (USER_CODE_BASE + PAGE_SIZE) (by decide +kernel)).mpr
    small_paddingZero

/-- What a frame held before shows in front of a segment that does not start at a page. -/
theorem elfLoad_leaves_old_bytes :
    Space usedSpace ∧
      (elfLoad small usedSpace).2 = .ok (USER_CODE_BASE, USER_CODE_BASE + PAGE_SIZE) ∧
      ¬ ImageLaw small usedSpace (elfLoad small usedSpace).1 := by
  refine ⟨space_usedSpace, by decide +kernel, fun hlaw => ?_⟩
  obtain ⟨ph, hph, hin, hwant⟩ : ∃ ph ∈ segments small, InPages ph USER_CODE_BASE ∧
      wantedByte small ph USER_CODE_BASE = 0 := by decide
  have hold : (elfLoad small usedSpace).1.sys.byte USER_CODE_BASE = some 7 := by decide +kernel
  have hbyte := hlaw.bytes ph hph USER_CODE_BASE hin
  rw [hold, hwant] at hbyte
  exact absurd hbyte (by decide)

/-! ## Hostile images -/

section

variable {img : Image}

/-- The headers of an image that passes the checks, when the first one lies in the image. -/
lemma headerIn_of_tame (hok : HeaderOk img) (ht : HeadersTame img)
    (hfirst : (ehdr img).phoff + PHDR_ENT_SIZE ≤ img.len) :
    ∀ i ∈ List.range (ehdr img).phnum, HeaderIn img i := by
  intro i hi
  have hi := List.mem_range.mp hi
  have hend := ht.2 hfirst
  have hent := hok.2.2.2.2.1
  have hsize : PHDR_ENT_SIZE = 56 := rfl
  rw [HeaderIn, phdrOff, hent]
  simp only [add64, hsize] at *
  omega

/-- A first header outside the image ends the load. -/
lemma elfLoad_outside (hok : HeaderOk img) (s : Sys)
    (hwrap : (ehdr img).phoff + PHDR_ENT_SIZE < 2 ^ 64)
    (hout : img.len < (ehdr img).phoff + PHDR_ENT_SIZE) :
    elfLoad img s = (opened s, .error ELF_ERR_HEADER) := by
  obtain ⟨n, hn⟩ := Nat.exists_eq_succ_of_ne_zero hok.2.2.2.2.2.1
  have hoff : phdrOff (ehdr img) 0 = (ehdr img).phoff := by
    rw [phdrOff, Nat.zero_mul, add64]
    omega
  have hgt : add64 (ehdr img).phoff PHDR_ENT_SIZE > img.len := by
    rw [add64, Nat.mod_eq_of_lt hwrap]
    exact hout
  have hget : getPhdr img (ehdr img) 0 (opened s) = (opened s, none) := by
    rw [getPhdr, hoff, if_pos hgt]
  rw [elfLoad_opened hok, hn, List.range_succ_eq_map, rejectDynamic, hget]
  rfl

variable {r : ℕ × ℕ} {st : Load}

/-- Nothing that was read is forgotten. -/
lemma fillPage_keeps
    (h : r ∈ st.reads) : r ∈ (fillPage img ph va fr st).reads := by
  have hcopy : ∀ (c : Prop) [Decidable c] (dst off n : ℕ),
      r ∈ (if c then st.memcpy img dst off n else st).reads := by
    intro c _ dst off n
    split
    · exact mem_append_left _ h
    · exact h
  have hset : ∀ (c : Prop) [Decidable c] (st : Load) (dst n : ℕ), r ∈ st.reads →
      r ∈ (if c then st.memset dst n else st).reads := by
    intro c _ st dst n h
    split
    · exact h
    · exact h
  exact hset _ _ _ _ (hcopy _ _ _ _)

lemma loadPages_keeps {vas : List ℕ}
    (h : r ∈ st.reads) : r ∈ (loadPages img ph vas st).1.reads := by
  induction vas generalizing st with
  | nil => exact h
  | cons va vas ih =>
    have hpage : r ∈ (loadPage img ph va st).1.reads := by
      rw [loadPage]
      simp only
      split
      · exact h
      split
      · exact h
      · exact fillPage_keeps h
    rw [loadPages_cons]
    split
    · exact hpage
    · exact ih hpage

lemma loadSegment_keeps (h : r ∈ st.reads) :
    r ∈ (loadSegment img ph st).1.reads := by
  rw [loadSegment]
  split
  · exact h
  split
  · exact h
  · exact loadPages_keeps h

lemma loadSegments_keeps {eh : Ehdr} {is : List ℕ} {brk : ℕ}
    (h : r ∈ st.reads) : r ∈ (loadSegments img eh is brk st).1.reads := by
  induction is generalizing brk st with
  | nil => exact h
  | cons i is ih =>
    rw [loadSegments, getPhdr]
    by_cases hle : add64 (phdrOff eh i) PHDR_ENT_SIZE > img.len
    · simp only [if_pos hle]
      exact h
    · simp only [if_neg hle]
      have hread : r ∈ (st.read (phdrOff eh i) PHDR_ENT_SIZE).reads := mem_append_left _ h
      generalize st.read (phdrOff eh i) PHDR_ENT_SIZE = st1 at hread ⊢
      generalize phdrAt img (phdrOff eh i) = ph
      have hseg : r ∈ (loadSegment img ph st1).1.reads := loadSegment_keeps hread
      generalize loadSegment img ph st1 = out at hseg ⊢
      split
      · exact ih hread
      split
      · exact hseg
      · exact ih hseg

lemma rejectDynamic_keeps {eh : Ehdr} {is : List ℕ}
    (h : r ∈ st.reads) : r ∈ (rejectDynamic img eh is st).1.reads := by
  induction is generalizing st with
  | nil => exact h
  | cons i is ih =>
    rw [rejectDynamic, getPhdr]
    by_cases hle : add64 (phdrOff eh i) PHDR_ENT_SIZE > img.len
    · simp only [if_pos hle]
      exact h
    · simp only [if_neg hle]
      have hread : r ∈ (st.read (phdrOff eh i) PHDR_ENT_SIZE).reads := mem_append_left _ h
      split
      · exact hread
      · exact ih hread

/-- A first header that goes around the end of the addresses is read all the same. -/
lemma elfLoad_wrapped (hok : HeaderOk img) (s : Sys)
    (hwrap : 2 ^ 64 ≤ (ehdr img).phoff + PHDR_ENT_SIZE) :
    ((ehdr img).phoff, PHDR_ENT_SIZE) ∈ (elfLoad img s).1.reads := by
  obtain ⟨n, hn⟩ := Nat.exists_eq_succ_of_ne_zero hok.2.2.2.2.2.1
  have hlen := hok.1
  have hlt : (ehdr img).phoff < 2 ^ 64 := by
    have hbound := Mem.leNat_lt (Mem.slice img.at 32 8)
    rw [Mem.slice_length] at hbound
    exact hbound
  have hsize : PHDR_ENT_SIZE = 56 := rfl
  have hoff : phdrOff (ehdr img) 0 = (ehdr img).phoff := by
    rw [phdrOff, Nat.zero_mul, add64]
    omega
  have hle : ¬ add64 (ehdr img).phoff PHDR_ENT_SIZE > img.len := by
    rw [add64]
    omega
  have hhead : ((ehdr img).phoff, PHDR_ENT_SIZE)
      ∈ ((opened s).read (ehdr img).phoff PHDR_ENT_SIZE).reads := by
    exact List.mem_append_right _ (List.mem_singleton_self _)
  have hrej : ((ehdr img).phoff, PHDR_ENT_SIZE)
      ∈ (rejectDynamic img (ehdr img) (List.range (ehdr img).phnum) (opened s)).1.reads := by
    rw [hn, List.range_succ_eq_map, rejectDynamic, getPhdr, hoff]
    simp only [if_neg hle]
    split
    · exact hhead
    · exact rejectDynamic_keeps hhead
  rw [elfLoad_opened hok]
  generalize rejectDynamic img (ehdr img) (List.range (ehdr img).phnum) (opened s) = rej at hrej ⊢
  obtain ⟨st, e⟩ := rej
  simp only
  split
  · exact hrej
  have hseg : ((ehdr img).phoff, PHDR_ENT_SIZE)
      ∈ (loadSegments img (ehdr img) (List.range (ehdr img).phnum) 0 st).1.reads :=
    loadSegments_keeps hrej
  generalize loadSegments img (ehdr img) (List.range (ehdr img).phnum) 0 st = out at hseg ⊢
  obtain ⟨st', x⟩ := out
  cases x with
  | error e => exact hseg
  | ok brk =>
    simp only
    split
    · exact hseg
    · exact hseg

lemma not_hostileLaw_of_wrap (hok : HeaderOk img)
    (hwrap : 2 ^ 64 ≤ (ehdr img).phoff + PHDR_ENT_SIZE) : ¬ HostileLaw img s (elfLoad img s) := by
  intro hlaw
  have hin := hlaw.reads _ (elfLoad_wrapped hok s hwrap)
  have hlen := img.len_lt
  omega

/-- What was done in the window keeps the law. -/
lemma Progress.hostileLaw {out : Load × Except ℤ (ℕ × ℕ)} (hs : Space s)
    (h : Progress s out.1.sys) (hr : ReadsIn img out.1) : HostileLaw img s out := by
  refine ⟨hr, fun a huser hne => ?_, fun e _ => ⟨h.space, h.root, h.frames⟩⟩
  rw [h.space.probe huser, hs.probe huser, expected, expected] at hne
  rcases h.maps (a / PAGE_SIZE) with heq | ⟨-, hlow, hhigh⟩
  · rw [heq] at hne
    exact absurd rfl hne
  · generalize USER_CODE_BASE = lo at *
    generalize Uaccess.USER_VA_LIMIT = hi at *
    simp only [PAGE_SIZE] at *
    omega

end

/-- Loading any image that is harmless is safe, and an image whose first program header goes
around the end of the addresses is not. -/
theorem elfLoad_hostile (img : Image) (s : Sys) (hs : Space s) :
    (Harmless img s → HostileLaw img s (elfLoad img s)) ∧
      (HeaderOk img → 2 ^ 64 ≤ (ehdr img).phoff + PHDR_ENT_SIZE →
        ¬ HostileLaw img s (elfLoad img s)) := by
  refine ⟨fun hharm => ?_, fun hok hwrap => not_hostileLaw_of_wrap hok hwrap⟩
  by_cases hok : HeaderOk img
  · obtain ⟨hheads, htame⟩ := hharm hok
    rcases Nat.lt_or_ge img.len ((ehdr img).phoff + PHDR_ENT_SIZE) with hout | hin
    · rw [elfLoad_outside hok s hheads.1 hout]
      exact Progress.hostileLaw hs (progress_refl hs) (opened_reads hok.1)
    · obtain ⟨hprog, hreads, -⟩ := elfLoad_spec hok hs htame
      exact hprog.hostileLaw hs (hreads (headerIn_of_tame hok hheads hin))
  · obtain ⟨hsys, hreads, -⟩ := elfLoad_rejected hok s
    exact Progress.hostileLaw hs (hsys.symm ▸ progress_refl hs) hreads

theorem elfLoad_hostile_small :
    HostileLaw small (emptySpace 8) (elfLoad small (emptySpace 8)) :=
  (elfLoad_hostile small (emptySpace 8) (space_emptySpace (by decide) (by decide))).1
    fun _ => ⟨⟨by decide, fun _ => by decide⟩, fun _ => small_tame _⟩

/-- A file header whose program header would start 56 bytes before the end of the addresses. -/
def wrapping : Image := ofList (fileHeader (2 ^ 64 - 56) 1) (by decide)

theorem elfLoad_reads_before_image :
    Space (emptySpace 8) ∧ ¬ HostileLaw wrapping (emptySpace 8) (elfLoad wrapping (emptySpace 8)) :=
  ⟨space_emptySpace (by decide) (by decide),
    not_hostileLaw_of_wrap (by decide) (by decide)⟩

end Elf
end MobilePhoneOs
