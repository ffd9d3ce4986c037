import MobilePhoneOs.Kernel.Mmap
import MobilePhoneOs.Mm.SpaceTheorems

/-!
# When `sys_mmap` is atomic

The pages are mapped one after another and a map that fails undoes nothing of the maps before
it, so a failed call leaves no trace only when it stops at its first page, and then only when
no frame became a table.
-/

namespace MobilePhoneOs

open List (append_assoc getElem_mem length_cons mem_append mem_reverse)
namespace Mmap

open Mm Mm.Vmm

/-! ## Giving frames back -/

lemma releaseAll_free (l : List ℕ) (s : Sys) :
    (l.foldl Sys.release s).ram.free = l.reverse ++ s.ram.free := by
  induction l generalizing s with
  | nil => rfl
  | cons f l ih => rw [List.foldl_cons, ih, release_free, List.reverse_cons, append_assoc]; rfl

lemma releaseAll_eq (l : List ℕ) (s : Sys) :
    l.foldl Sys.release s = { s with ram := ⟨s.ram.mem, l.reverse ++ s.ram.free⟩ } := by
  induction l generalizing s with
  | nil => rfl
  | cons f l ih =>
    rw [List.foldl_cons, ih, List.reverse_cons, append_assoc]
    rfl

/-- Frames that a caller holds: distinct, and neither tables nor free nor mapped. -/
structure Held (s : Sys) (fs : List ℕ) : Prop where
  nodup : fs.Nodup
  frame : ∀ f ∈ fs, IsTable f ∧ f ∉ s.held ∧ f ∉ s.ram.free
  unmapped : ∀ page m, s.maps page = some m → m.1 ∉ fs

lemma Held.release {s : Sys} {fs : List ℕ} (hf : Held s fs) (hs : Space s) :
    Space (fs.foldl Sys.release s) := by
  have hok := hs.freeOk
  rw [releaseAll_eq]
  refine hs.congr (fun _ _ => rfl) ⟨?_, fun f hfm => ?_, fun f hfm => ?_⟩ fun page m hm hc => ?_
  · refine List.nodup_append.mpr ⟨List.nodup_reverse.mpr hf.nodup, hok.nodup, ?_⟩
    intro f hf' g hg hfg
    exact (hf.frame f (mem_reverse.mp hf')).2.2 (hfg ▸ hg)
  · rcases mem_append.mp hfm with hfm | hfm
    · exact (hf.frame f (mem_reverse.mp hfm)).2.1
    · exact hok.unused f hfm
  · rcases mem_append.mp hfm with hfm | hfm
    · exact (hf.frame f (mem_reverse.mp hfm)).1
    · exact hok.frame f hfm
  · rcases mem_append.mp hc with hc | hc
    · exact hf.unmapped page m hm (mem_reverse.mp hc)
    · exact (hs.pages page m hm).2.2 hc

/-! ## Taking the frames -/

/-- `frames` were taken from the front of the free list and cleared. -/
structure Taken (s s' : Sys) (frames : List ℕ) : Prop where
  space : Space s'
  root : s'.root = s.root
  held : s'.held = s.held
  maps : s'.maps = s.maps
  free : s.ram.free = frames ++ s'.ram.free
  cleared : ∀ f ∈ frames, ∀ j < PAGE_SIZE, s'.ram.mem (f + j) = 0
  kept : ∀ a, alignDown a ∉ s.ram.free → s'.ram.mem a = s.ram.mem a

lemma Taken.frames_held {s s' : Sys} {frames : List ℕ} (hs : Space s) (h : Taken s s' frames) :
    Held s' frames := by
  have hok := hs.freeOk
  have hnd := hok.nodup
  rw [h.free] at hnd
  obtain ⟨hframes, -, hdisj⟩ := List.nodup_append.mp hnd
  have hsub : ∀ f ∈ frames, f ∈ s.ram.free := fun f hf => by
    rw [h.free]
    exact List.mem_append_left _ hf
  refine ⟨hframes, fun f hf => ⟨hok.frame f (hsub f hf), ?_, fun hc => hdisj f hf f hc rfl⟩,
    fun page m hm hc => ?_⟩
  · rw [h.held]
    exact hok.unused f (hsub f hf)
  · rw [h.maps] at hm
    exact (hs.pages page m hm).2.2 (hsub _ hc)

/-- All frames are taken, or those that were taken go back. -/
lemma takeFrames_spec (n : ℕ) {s : Sys} (acc : List ℕ) (hs : Space s) :
    (n ≤ s.ram.free.length → ∃ s' frames, takeFrames n s acc = (s', some (acc ++ frames)) ∧
        frames.length = n ∧ Taken s s' frames) ∧
      (s.ram.free.length < n → ∃ s', takeFrames n s acc = (s', none) ∧
        s'.root = s.root ∧ s'.held = s.held ∧ s'.maps = s.maps ∧
        s'.ram.free = acc ++ s.ram.free ∧
        ∀ a, alignDown a ∉ s.ram.free → s'.ram.mem a = s.ram.mem a) := by
  induction n generalizing s acc with
  | zero =>
    refine ⟨fun _ => ⟨s, [], ?_, rfl, hs, rfl, rfl, rfl, rfl, ?_, fun _ _ => rfl⟩, fun h => ?_⟩
    · rw [List.append_nil]
      rfl
    · exact fun f hf => absurd hf (by simp)
    · exact absurd h (Nat.not_lt_zero _)
  | succ n ih =>
    rw [takeFrames]
    cases hfree : s.ram.free with
    | nil =>
      rw [alloc_nil hfree]
      refine ⟨fun h => absurd h (by simp), fun _ => ⟨_, rfl, ?_⟩⟩
      rw [releaseAll_eq, List.reverse_reverse, hfree]
      exact ⟨rfl, rfl, rfl, rfl, fun _ _ => rfl⟩
    | cons f fs =>
      obtain ⟨hs1, hf, hheld, hfs, -⟩ := hs.alloc hfree
      have hpos := hf.pos
      rw [alloc_cons hfree]
      simp only [if_neg (show ¬ f = 0 by omega)]
      have hs2 := hs1.zero hf hheld
      obtain ⟨hok, hshort⟩ := ih (acc ++ [f]) hs2
      have hout : ∀ a, alignDown a ≠ f → (Sys.zero ({ s with ram := { s.ram with free := fs } }) f).ram.mem a
          = s.ram.mem a := fun a ha => zeroPage_mem_of_ne hf.aligned ha
      generalize hs2' : Sys.zero ({ s with ram := { s.ram with free := fs } }) f = s2 at *
      have hfree2 : s2.ram.free = fs := by rw [← hs2']; rfl
      have hroot2 : s2.root = s.root := by rw [← hs2']; rfl
      have hheld2 : s2.held = s.held := by rw [← hs2']; rfl
      have hmaps2 : s2.maps = s.maps := by rw [← hs2']; rfl
      have hzero : ∀ j < PAGE_SIZE, s2.ram.mem (f + j) = 0 := fun j hj => by
        rw [← hs2']
        exact zeroPage_mem (by omega) (by omega)
      -- a cell that was in use is neither in `f` nor in a frame of the rest
      have hkept : ∀ {s' : Sys}, (∀ a, alignDown a ∉ s2.ram.free → s'.ram.mem a = s2.ram.mem a) →
          ∀ a, alignDown a ∉ f :: fs → s'.ram.mem a = s.ram.mem a := by
        intro s' hk a ha
        rw [List.mem_cons, not_or] at ha
        rw [hk a (hfree2 ▸ ha.2), hout a ha.1]
      constructor
      · intro hn
        rw [length_cons] at hn
        obtain ⟨s', frames, hrun, hlen, ht⟩ := hok (by rw [hfree2]; omega)
        refine ⟨s', f :: frames, ?_, by rw [length_cons, hlen], ht.space,
          ht.root.trans hroot2, ht.held.trans hheld2, ht.maps.trans hmaps2, ?_, fun g hg j hj => ?_,
          fun a ha => hkept ht.kept a (hfree ▸ ha)⟩
        · rw [hrun, append_assoc]
          rfl
        · rw [hfree, List.cons_append, ← ht.free, hfree2]
        · rcases List.mem_cons.mp hg with rfl | hg
          · have hdown : alignDown (g + j) = g :=
              alignDown_page hf.aligned (by omega) (by omega)
            rw [ht.kept _ (by rw [hdown, hfree2]; exact hfs)]
            exact hzero j hj
          · exact ht.cleared g hg j hj
      · intro hn
        rw [length_cons] at hn
        obtain ⟨s', hrun, hroot, hheld', hmaps, hback, hk⟩ := hshort (by rw [hfree2]; omega)
        refine ⟨s', hrun, hroot.trans hroot2, hheld'.trans hheld2, hmaps.trans hmaps2, ?_,
          fun a ha => hkept hk a ha⟩
        rw [hback, hfree2, append_assoc]
        rfl

/-! ## Mapping the frames -/

/-- How the loop of maps ends: all pages are entered, or it stopped at the first page, which
was taken or found too few frames for its tables, or it stopped later. -/
inductive Ended (s s' : Sys) (lo : ℕ) (fs : List ℕ) (ok : Bool) : Prop
  | all (hok : ok = true) (hnone : ∀ i < fs.length, s.maps (lo / PAGE_SIZE + i) = none)
      (hroom : tablesFor (present s.ram.mem s.root) (pages lo fs.length) ≤ s.ram.free.length)
      (hmaps : ∀ i (h : i < fs.length), s'.maps (lo / PAGE_SIZE + i) = some (fs[i], anonFlags))
  | taken (hok : ok = false) (hlen : 0 < fs.length) (hsome : s.maps (lo / PAGE_SIZE) ≠ none)
      (hmaps : s'.maps = s.maps) (hfree : s'.ram.free = fs.reverse ++ s.ram.free)
  | starved (hok : ok = false) (hlen : 0 < fs.length) (hnone : s.maps (lo / PAGE_SIZE) = none)
      (hroom : s.ram.free.length < tablesFor (present s.ram.mem s.root) [lo])
      (hmaps : s'.maps = s.maps) (hfree : s'.ram.free = fs.reverse)
  | later (hok : ok = false) (hnone : s.maps (lo / PAGE_SIZE) = none)
      (hfirst : s'.maps (lo / PAGE_SIZE) ≠ none)
      (hroom : tablesFor (present s.ram.mem s.root) [lo] ≤ s.ram.free.length)
      (hnot : (∃ i < fs.length, s.maps (lo / PAGE_SIZE + i) ≠ none) ∨
        s.ram.free.length < tablesFor (present s.ram.mem s.root) (pages lo fs.length))

/-- The frames behind the one that was mapped. -/
lemma Held.tail {s s2 : Sys} {f page : ℕ} {fs : List ℕ} (hf : Held s (f :: fs))
    (hheld : ∀ g ∈ s2.held, g ∈ s.held ∨ g ∈ s.ram.free)
    (hfree : ∀ g ∈ s2.ram.free, g ∈ s.ram.free)
    (hmaps : s2.maps = Function.update s.maps page (some (f, anonFlags))) : Held s2 fs := by
  obtain ⟨hnot, hnd⟩ := List.nodup_cons.mp hf.nodup
  refine ⟨hnd, fun g hg => ?_, fun page' m hm hc => ?_⟩
  · obtain ⟨htab, hnheld, hnfree⟩ := hf.frame g (List.mem_cons_of_mem _ hg)
    refine ⟨htab, fun hc => ?_, fun hc => hnfree (hfree g hc)⟩
    rcases hheld g hc with hc | hc
    · exact hnheld hc
    · exact hnfree hc
  · rw [hmaps, Function.update_apply] at hm
    split at hm
    · obtain rfl := Option.some.inj hm
      exact hnot hc
    · exact hf.unmapped page' m hm (List.mem_cons_of_mem _ hc)

lemma mapFrames_spec (fs : List ℕ) {s : Sys} {lo : ℕ} (hs : Space s) (hf : Held s fs)
    (hlo : lo % PAGE_SIZE = 0) (hlow : 2 ^ 39 ≤ lo)
    (hhigh : lo + fs.length * PAGE_SIZE ≤ 2 ^ 48) :
    Space (mapFrames s lo fs).1 ∧
      (∀ page, page < lo / PAGE_SIZE ∨ lo / PAGE_SIZE + fs.length ≤ page →
        (mapFrames s lo fs).1.maps page = s.maps page) ∧
      (∀ a, alignDown a ∉ s.held → alignDown a ∉ s.ram.free →
        (mapFrames s lo fs).1.ram.mem a = s.ram.mem a) ∧
      Ended s (mapFrames s lo fs).1 lo fs (mapFrames s lo fs).2 := by
  induction fs generalizing s lo with
  | nil =>
    refine ⟨hs, fun _ _ => rfl, fun _ _ _ => rfl, .all rfl ?_ (Nat.zero_le _) ?_⟩
    · exact fun i hi => absurd hi (Nat.not_lt_zero i)
    · exact fun i hi => absurd hi (Nat.not_lt_zero i)
  | cons f fs ih =>
    rw [length_cons] at hhigh
    have huser : UserVa lo := ⟨hlow, by simp only [PAGE_SIZE] at *; omega⟩
    obtain ⟨htab, hnheld, hnfree⟩ := hf.frame f List.mem_cons_self
    obtain ⟨hs2, hmapped, hout⟩ := hs.mapAt anonFlags huser hlo htab hnheld hnfree
    have hroot2 : (s.mapAt lo f anonFlags).1.root = s.root := rfl
    rw [mapFrames]
    generalize hcall : s.mapAt lo f anonFlags = out at *
    obtain ⟨s2, rc⟩ := out
    have hpage := page_succ lo
    cases hmapped with
    | entered hres hnone hroom hfree2 hheld2 hmaps2 hthere =>
      simp only [if_neg (not_not.mpr hres)]
      have hheldsub : ∀ g ∈ s2.held, g ∈ s.held ∨ g ∈ s.ram.free := by
        intro g hg
        rw [hheld2] at hg
        rcases mem_append.mp hg with hg | hg
        · exact .inl hg
        · exact .inr (List.mem_of_mem_take hg)
      have hfreesub : ∀ g ∈ s2.ram.free, g ∈ s.ram.free := by
        intro g hg
        rw [hfree2] at hg
        exact List.mem_of_mem_drop hg
      obtain ⟨hspace, hothers, hkept, hend⟩ := @ih s2 (lo + PAGE_SIZE) hs2
        (hf.tail hheldsub hfreesub hmaps2) (by simp only [PAGE_SIZE] at *; omega) (by omega)
        (by simp only [PAGE_SIZE] at *; omega)
      generalize mapFrames s2 (lo + PAGE_SIZE) fs = last at *
      have hfirst : last.1.maps (lo / PAGE_SIZE) = some (f, anonFlags) := by
        rw [hothers _ (by rw [hpage]; omega), hmaps2, Function.update_self]
      have hrest : ∀ i, s2.maps (lo / PAGE_SIZE + 1 + i) = s.maps (lo / PAGE_SIZE + (i + 1)) := by
        intro i
        rw [hmaps2, Function.update_of_ne (by omega), Nat.add_assoc, Nat.add_comm 1 i]
      have htables : tablesFor (present s.ram.mem s.root) (pages lo (fs.length + 1))
          = tablesFor (present s.ram.mem s.root) [lo]
            + tablesFor (present s2.ram.mem s2.root) (pages (lo + PAGE_SIZE) fs.length) := by
        rw [pages_succ]
        refine tablesFor_entered hroot2 (fun va hva => ?_) hthere
        obtain ⟨i, hi, rfl⟩ := mem_pages.mp hva
        exact ⟨by omega, by simp only [PAGE_SIZE] at *; omega⟩
      have hlen2 : s2.ram.free.length
          = s.ram.free.length - tablesFor (present s.ram.mem s.root) [lo] := by
        rw [hfree2, List.length_drop]
      refine ⟨hspace, fun page hp => ?_, fun a ha hfa => ?_, ?_⟩
      · rw [length_cons] at hp
        rw [hothers page (by rw [hpage]; omega), hmaps2, Function.update_of_ne (by omega)]
      · have hin : ∀ g, g ∈ s2.held ∨ g ∈ s2.ram.free → alignDown a ≠ g := by
          rintro g hg rfl
          rcases hg with hg | hg
          · rcases hheldsub _ hg with hg | hg
            · exact ha hg
            · exact hfa hg
          · exact hfa (hfreesub _ hg)
        rw [hkept a (fun hc => hin _ (.inl hc) rfl) fun hc => hin _ (.inr hc) rfl]
        exact hout a fun hc => hin _ (.inl hc) rfl
      · -- the rest may fail at its first page or later, both are later for the whole
        have hlate : last.2 = false → (∃ i < fs.length, s2.maps (lo / PAGE_SIZE + 1 + i) ≠ none) ∨
            s2.ram.free.length
              < tablesFor (present s2.ram.mem s2.root) (pages (lo + PAGE_SIZE) fs.length) →
            Ended s last.1 lo (f :: fs) last.2 := by
          intro hfail hwhy
          refine .later hfail hnone (by rw [hfirst]; exact Option.some_ne_none _) hroom ?_
          rcases hwhy with ⟨i, hi, hsome⟩ | hshort
          · exact .inl ⟨i + 1, by rw [length_cons]; omega, by rw [← hrest]; exact hsome⟩
          · refine .inr ?_
            rw [length_cons, htables]
            omega
        cases hend with
        | all hok hnone2 hroom2 hmaps3 =>
          refine .all hok (fun i hi => ?_) ?_ fun i hi => ?_
          · cases i with
            | zero => exact hnone
            | succ i =>
              rw [length_cons] at hi
              rw [← hrest, ← hpage]
              exact hnone2 i (by omega)
          · rw [length_cons, htables]
            omega
          · cases i with
            | zero => exact hfirst
            | succ i =>
              rw [length_cons] at hi
              have hi' := hmaps3 i (by omega)
              rwa [hpage, Nat.add_assoc, Nat.add_comm 1 i] at hi'
        | taken hfail hlen hsome _ _ =>
          exact hlate hfail (.inl ⟨0, hlen, by rw [← hpage]; exact hsome⟩)
        | starved hfail hlen hnone2 hroom2 _ _ =>
          obtain ⟨k, hk⟩ := Nat.exists_eq_add_of_lt hlen
          refine hlate hfail (.inr ?_)
          rw [hk, pages_succ, tablesFor_cons]
          omega
        | later hfail _ _ _ hnot =>
          rw [hpage] at hnot
          exact hlate hfail hnot
    | taken hres hsome hfree2 hheld2 hmaps2 =>
      simp only [if_pos hres]
      have hback : Held s2 (f :: fs) := by
        refine ⟨hf.nodup, ?_, ?_⟩
        · rw [hheld2, hfree2]
          exact hf.frame
        · rw [hmaps2]
          exact hf.unmapped
      refine ⟨hback.release hs2, fun page _ => ?_, fun a ha _ => ?_, .taken rfl (Nat.succ_pos _) hsome ?_ ?_⟩
      · rw [releaseAll_eq, hmaps2]
      · rw [releaseAll_eq]
        exact hout a (by rw [hheld2]; exact ha)
      · rw [releaseAll_eq, hmaps2]
      · rw [releaseAll_free, hfree2]
    | starved hres hnone hroom hfree2 hheld2 hmaps2 =>
      simp only [if_pos hres]
      have hback : Held s2 (f :: fs) := by
        refine ⟨hf.nodup, fun g hg => ?_, ?_⟩
        · obtain ⟨htab', hnheld', hnfree'⟩ := hf.frame g hg
          rw [hheld2, hfree2]
          refine ⟨htab', fun hc => ?_, by simp⟩
          rcases mem_append.mp hc with hc | hc
          · exact hnheld' hc
          · exact hnfree' hc
        · rw [hmaps2]
          exact hf.unmapped
      refine ⟨hback.release hs2, fun page _ => ?_, fun a ha hfa => ?_,
        .starved rfl (Nat.succ_pos _) hnone hroom ?_ ?_⟩
      · rw [releaseAll_eq, hmaps2]
      · rw [releaseAll_eq]
        refine hout a fun hc => ?_
        rw [hheld2] at hc
        rcases mem_append.mp hc with hc | hc
        · exact ha hc
        · exact hfa hc
      · rw [releaseAll_eq, hmaps2]
      · rw [releaseAll_free, hfree2, List.append_nil]

/-! ## The call -/

section

variable {s s' s1 s2 : Sys} {va n : ℕ} {frames : List ℕ}

lemma probe_none_iff (hs : Space s) {a : ℕ} (ha : UserVa a) :
    s.probe a = none ↔ s.maps (a / PAGE_SIZE) = none := by
  rw [hs.probe ha, expected, Option.map_eq_none_iff]

/-- The same maps and the same free frames. -/
lemma undone_of (hs : Space s) (hs' : Space s') (hmaps : s'.maps = s.maps)
    (hfree : ∀ f, f ∈ s'.ram.free ↔ f ∈ s.ram.free) : Undone s s' := by
  refine ⟨fun a ha => ?_, hfree⟩
  rw [hs.probe ha, hs'.probe ha, expected, expected, hmaps]

lemma undone_refl (hs : Space s) : Undone s s := undone_of hs hs rfl fun _ => Iff.rfl

/-- A call that ran out of frames for the pages. -/
lemma undone_of_short (hs : Space s) (hroot : s'.root = s.root) (hheld : s'.held = s.held)
    (hmaps : s'.maps = s.maps) (hfree : s'.ram.free = s.ram.free)
    (hmem : ∀ a, alignDown a ∉ s.ram.free → s'.ram.mem a = s.ram.mem a) : Undone s s' := by
  have hspace : Space { s with ram := ⟨s'.ram.mem, s.ram.free⟩ } := hs.congr
    (fun a ha => hmem a fun hc => hs.freeOk.unused _ hc ha) hs.freeOk
    fun page m hm => (hs.pages page m hm).2.2
  have hs' : s' = { s with ram := ⟨s'.ram.mem, s.ram.free⟩ } := by
    obtain ⟨⟨mem, free⟩, root, held, maps⟩ := s'
    simp only at hroot hheld hmaps hfree
    rw [hroot, hheld, hmaps, hfree]
  rw [hs']
  exact undone_of hs hspace rfl fun _ => Iff.rfl

/-- The tables that are missing are the same after the frames have been taken. -/
lemma Taken.tables (hs : Space s) (h : Taken s s1 frames) {vas : List ℕ}
    (hvas : ∀ va ∈ vas, UserVa va) :
    tablesFor (present s1.ram.mem s1.root) vas = tablesFor (present s.ram.mem s.root) vas :=
  tablesFor_congr fun va hva _ hp => hs.present_congr s1 h.root
    (fun a ha => h.kept a fun hc => hs.freeOk.unused _ hc ha) (hvas va hva) hp

/-- All frames were mapped. -/
lemma done_of (hs : Space s) (ht : Taken s s1 frames) (hs2 : Space s2)
    (hal : va % PAGE_SIZE = 0) (hlow : 2 ^ 39 ≤ va)
    (hhigh : va + frames.length * PAGE_SIZE ≤ 2 ^ 48)
    (hnone : ∀ i < frames.length, s.maps (va / PAGE_SIZE + i) = none)
    (hmaps : ∀ i (h : i < frames.length),
      s2.maps (va / PAGE_SIZE + i) = some (frames[i], anonFlags))
    (hothers : ∀ page, page < va / PAGE_SIZE ∨ va / PAGE_SIZE + frames.length ≤ page →
      s2.maps page = s.maps page)
    (hkept : ∀ a, alignDown a ∉ s1.held → alignDown a ∉ s1.ram.free →
      s2.ram.mem a = s1.ram.mem a) : Done s s2 va frames.length := by
  have hheld := ht.frames_held hs
  have hin : ∀ a, va ≤ a → a < va + frames.length * PAGE_SIZE →
      UserVa a ∧ ∃ i < frames.length, a / PAGE_SIZE = va / PAGE_SIZE + i := by
    intro a hlo hhi
    refine ⟨⟨by omega, by omega⟩, a / PAGE_SIZE - va / PAGE_SIZE, ?_, ?_⟩
    all_goals
      simp only [PAGE_SIZE] at *
      omega
  have hoff : ∀ {f : ℕ} (a : ℕ), IsTable f → alignDown (f + a % PAGE_SIZE) = f := by
    intro f a hf
    have hlt : a % PAGE_SIZE < PAGE_SIZE := Nat.mod_lt _ (by decide)
    exact alignDown_page hf.aligned (by omega) (by omega)
  have hprobe : ∀ a, va ≤ a → a < va + frames.length * PAGE_SIZE → ∃ i,
      ∃ h : i < frames.length, a / PAGE_SIZE = va / PAGE_SIZE + i ∧
        s2.maps (a / PAGE_SIZE) = some (frames[i], anonFlags) ∧
        s2.probe a = some (frames[i] + a % PAGE_SIZE, anonFlags) := by
    intro a hlo hhi
    obtain ⟨huser, i, hi, hpage⟩ := hin a hlo hhi
    have hm : s2.maps (a / PAGE_SIZE) = some (frames[i], anonFlags) := by rw [hpage]; exact hmaps i hi
    refine ⟨i, hi, hpage, hm, ?_⟩
    have hshown : shownFlags anonFlags = anonFlags := by decide
    rw [hs2.probe huser, expected, hm, Option.map_some, hshown]
  refine ⟨fun a hlo hhi => ?_, fun a hlo hhi => ?_, fun a a' hlo hhi hlo' hhi' m m' hm hm' heq => ?_,
    fun a ha hout => ?_⟩
  · obtain ⟨huser, i, hi, hpage⟩ := hin a hlo hhi
    rw [probe_none_iff hs huser, hpage]
    exact hnone i hi
  · obtain ⟨i, hi, -, hm, hp⟩ := hprobe a hlo hhi
    obtain ⟨htab, hnheld, hnfree⟩ := hheld.frame _ (getElem_mem hi)
    refine ⟨_, hp, ?_, ?_⟩
    · rw [hoff a htab, ht.free]
      exact List.mem_append_left _ (getElem_mem hi)
    · have hcell : s2.ram.mem (frames[i] + a % PAGE_SIZE) = 0 := by
        rw [hkept _ (by rwa [hoff a htab]) (by rwa [hoff a htab])]
        exact ht.cleared _ (getElem_mem hi) _ (Nat.mod_lt _ (by decide))
      rw [hs2.byte (hin a hlo hhi).1 hm, hcell]
  · obtain ⟨i, hi, hpage, -, hp⟩ := hprobe a hlo hhi
    obtain ⟨i', hi', hpage', -, hp'⟩ := hprobe a' hlo' hhi'
    obtain rfl := Option.some.inj (hm.symm.trans hp)
    obtain rfl := Option.some.inj (hm'.symm.trans hp')
    have htab := (hheld.frame _ (getElem_mem hi)).1
    have htab' := (hheld.frame _ (getElem_mem hi')).1
    -- the frames are equal, so are the indices and then the offsets
    have hframe : frames[i] = frames[i'] := by
      rw [← hoff a htab, ← hoff a' htab']
      exact congrArg alignDown heq
    have hidx : i = i' := (List.Nodup.getElem_inj_iff hheld.nodup).mp hframe
    have hmod : a % PAGE_SIZE = a' % PAGE_SIZE := by
      omega
    have hdiv : a / PAGE_SIZE = a' / PAGE_SIZE := by rw [hpage, hpage', hidx]
    rw [← Nat.div_add_mod a PAGE_SIZE, ← Nat.div_add_mod a' PAGE_SIZE, hmod, hdiv]
  · have hpage : a / PAGE_SIZE < va / PAGE_SIZE ∨
        va / PAGE_SIZE + frames.length ≤ a / PAGE_SIZE := by
      simp only [PAGE_SIZE] at *
      omega
    have hsame := hothers _ hpage
    have hprobe' : s2.probe a = s.probe a := by
      rw [hs2.probe ha, hs.probe ha, expected, expected, hsame]
    refine ⟨hprobe', ?_⟩
    cases hm : s.maps (a / PAGE_SIZE) with
    | none =>
      have hnone' := (probe_none_iff hs ha).mpr hm
      rw [Sys.byte, Sys.byte, hprobe', hnone']
      rfl
    | some m =>
      obtain ⟨htab, hnheld, hnfree⟩ := hs.pages _ _ hm
      rw [hs.byte ha hm, hs2.byte ha (hsame.trans hm)]
      rw [ht.free, mem_append, not_or] at hnfree
      rw [hkept _ (by rw [hoff a htab, ht.held]; exact hnheld) (by rw [hoff a htab]; exact hnfree.2),
        ht.kept _ (by rw [hoff a htab, ht.free, mem_append, not_or]; exact hnfree)]

end

/-- The pages of a call that is not refused. -/
structure Window (p : Proc) (len : ℕ) : Prop where
  aligned : mmapBase p % PAGE_SIZE = 0
  low : 2 ^ 39 ≤ mmapBase p
  high : mmapBase p + npages len * PAGE_SIZE ≤ 2 ^ 48
  pos : 0 < npages len

lemma window_of {p : Proc} {len : ℕ} (hal : p.mmapNext % PAGE_SIZE = 0) (hpos : len ≠ 0)
    (hwin : ¬ npages len * PAGE_SIZE > USER_SHM_BASE - mmapBase p) : Window p len := by
  have hbase : mmapBase p % PAGE_SIZE = 0 ∧ USER_MMAP_BASE ≤ mmapBase p ∧
      mmapBase p < USER_SHM_BASE := by
    rw [mmapBase]
    split
    · exact ⟨by decide, le_rfl, by decide⟩
    · exact ⟨hal, by omega, by omega⟩
  obtain ⟨haligned, hlow, hhigh⟩ := hbase
  rw [USER_MMAP_BASE] at hlow
  rw [USER_SHM_BASE] at hhigh hwin
  refine ⟨haligned, by omega, by omega, ?_⟩
  simp only [npages, PAGE_SIZE]
  omega

namespace Window

variable {p : Proc} {len : ℕ}

lemma row (w : Window p len) : pagesFrom (mmapBase p) (mmapBase p + npages len * PAGE_SIZE)
    = pages (mmapBase p) (npages len) := by
  rw [pagesFrom_eq w.aligned (by rw [Nat.add_mul_mod_self_right]; exact w.aligned),
    Nat.add_mul_div_right _ _ (show 0 < PAGE_SIZE by decide), Nat.add_sub_cancel_left]

lemma page (i : ℕ) : (mmapBase p + i * PAGE_SIZE) / PAGE_SIZE = mmapBase p / PAGE_SIZE + i :=
  Nat.add_mul_div_right _ _ (show 0 < PAGE_SIZE by decide)

lemma user (w : Window p len) {i : ℕ} (hi : i < npages len) :
    UserVa (mmapBase p + i * PAGE_SIZE) := by
  have hlow := w.low
  have hhigh := w.high
  simp only [PAGE_SIZE] at *
  exact ⟨by omega, by omega⟩

lemma first (w : Window p len) : UserVa (mmapBase p) := by
  have huser := w.user w.pos
  rwa [Nat.zero_mul, Nat.add_zero] at huser

end Window

/-- The call runs out of frames for its pages, finds its first page taken or no frame for the
tables of that page, or has room for everything. -/
def Served (s : Sys) (va n : ℕ) : Prop :=
  s.ram.free.length < n ∨ s.maps (va / PAGE_SIZE) ≠ none ∨
    (s.ram.free.length = n ∧ tablesFor (present s.ram.mem s.root) [va] ≠ 0) ∨
    ((∀ i < n, s.maps (va / PAGE_SIZE + i) = none) ∧
      n + tablesFor (present s.ram.mem s.root) (pages va n) ≤ s.ram.free.length)

/-- What the condition says of a call that is not refused. -/
lemma clean_iff {p : Proc} {len : ℕ} (hs : Space p.sys) (w : Window p len)
    (hlen : ¬ (len = 0 ∨ len > MMAP_PAGES_MAX * PAGE_SIZE))
    (hwin : ¬ npages len * PAGE_SIZE > USER_SHM_BASE - mmapBase p) :
    Clean p len ↔ Served p.sys (mmapBase p) (npages len) := by
  obtain ⟨hpos, hmax⟩ := not_or.mp hlen
  have hall : (∀ a ∈ pages (mmapBase p) (npages len), p.sys.probe a = none) ↔
      ∀ i < npages len, p.sys.maps (mmapBase p / PAGE_SIZE + i) = none := by
    constructor
    · intro h i hi
      rw [← Window.page]
      exact (probe_none_iff hs (w.user hi)).mp (h _ (mem_pages.mpr ⟨i, hi, rfl⟩))
    · intro h a ha
      obtain ⟨i, hi, rfl⟩ := mem_pages.mp ha
      rw [probe_none_iff hs (w.user hi), Window.page]
      exact h i hi
  unfold Clean Served
  dsimp only
  rw [w.row, hall, Ne, probe_none_iff hs w.first, or_iff_right hpos, or_iff_right hmax,
    or_iff_right hwin]

section Mapped

variable {p : Proc} {len : ℕ}

lemma Taken.pages_eq (hs : Space p.sys) (w : Window p len) (ht : Taken p.sys s1 frames) :
    tablesFor (present s1.ram.mem s1.root) (pages (mmapBase p) (npages len))
      = tablesFor (present p.sys.ram.mem p.sys.root) (pages (mmapBase p) (npages len)) := by
  refine ht.tables hs fun va hva => ?_
  obtain ⟨i, hi, rfl⟩ := mem_pages.mp hva
  exact w.user hi

lemma Taken.first_eq (hs : Space p.sys) (w : Window p len) (ht : Taken p.sys s1 frames) :
    tablesFor (present s1.ram.mem s1.root) [mmapBase p]
      = tablesFor (present p.sys.ram.mem p.sys.root) [mmapBase p] := by
  refine ht.tables hs fun va hva => ?_
  obtain rfl := List.mem_singleton.mp hva
  exact w.first

lemma Taken.count (ht : Taken p.sys s1 frames) :
    p.sys.ram.free.length = frames.length + s1.ram.free.length := by
  rw [ht.free, List.length_append]

/-- A call whose maps failed has left nothing behind exactly when it stopped at its first page,
before a frame became a table. -/
lemma undone_iff (hs : Space p.sys) (w : Window p len) (ht : Taken p.sys s1 frames)
    (hlen : frames.length = npages len) (hs2 : Space s2)
    (hend : Ended s1 s2 (mmapBase p) frames false) :
    Undone p.sys s2 ↔ Served p.sys (mmapBase p) (npages len) := by
  have hcount := ht.count
  have htables := ht.pages_eq hs w
  have hle : tablesFor (present p.sys.ram.mem p.sys.root) [mmapBase p]
      ≤ tablesFor (present p.sys.ram.mem p.sys.root) (pages (mmapBase p) (npages len)) := by
    obtain ⟨k, hk⟩ := Nat.exists_eq_add_of_lt w.pos
    rw [hk, pages_succ, tablesFor_cons _ _ (pages _ _)]
    omega
  cases hend with
  | all hok => exact absurd hok Bool.false_ne_true
  | taken _ _ hsome hmaps hfree =>
    rw [ht.maps] at hsome hmaps
    refine iff_of_true (undone_of hs hs2 hmaps fun f => ?_) (.inr (.inl hsome))
    rw [hfree, ht.free, mem_append, mem_append, mem_reverse]
  | starved _ _ hnone hfew hmaps hfree =>
    rw [ht.maps] at hnone hmaps
    rw [ht.first_eq hs w] at hfew
    cases hleft : s1.ram.free with
    | nil =>
      rw [hleft, List.length_nil] at hcount hfew
      refine iff_of_true (undone_of hs hs2 hmaps fun f => ?_)
        (.inr (.inr (.inl ⟨by omega, by omega⟩)))
      rw [hfree, ht.free, hleft, List.append_nil, mem_reverse]
    | cons g gs =>
      -- a frame that was left became a table
      have hg : g ∈ s1.ram.free := by rw [hleft]; exact List.mem_cons_self
      have hgn : g ∉ frames := fun hc => ((ht.frames_held hs).frame g hc).2.2 hg
      have hpos1 : 0 < s1.ram.free.length := by rw [hleft]; exact Nat.succ_pos _
      apply iff_of_false
      · intro hu
        have hback := (hu.free g).mpr (by rw [ht.free]; exact List.mem_append_right _ hg)
        rw [hfree, mem_reverse] at hback
        exact hgn hback
      · rintro (h | h | ⟨h, -⟩ | ⟨-, h⟩)
        · omega
        · exact h hnone
        · omega
        · omega
  | later _ hnone hfirst hfits hnot =>
    rw [ht.maps] at hnone hnot
    rw [ht.first_eq hs w] at hfits
    rw [hlen, htables] at hnot
    apply iff_of_false
    · intro hu
      have hsame := hu.probes (mmapBase p) w.first
      rw [(probe_none_iff hs w.first).mpr hnone, probe_none_iff hs2 w.first] at hsame
      exact hfirst hsame
    · rintro (h | h | ⟨h, h'⟩ | ⟨hfree, hroom'⟩)
      · omega
      · exact h hnone
      · omega
      · rcases hnot with ⟨i, hi, hsome⟩ | hfew
        · exact hsome (hfree i hi)
        · omega

end Mapped

/-- A call of `sys_mmap` does all it was asked for or nothing, exactly when it is refused,
stops at its first page before a frame became a table, or has room for everything. -/
theorem sysMmap_atomic_iff (p : Proc) (hs : Space p.sys) (hal : p.mmapNext % PAGE_SIZE = 0)
    (hint len : ℕ) :
    Atomic p (sysMmap p hint len).1 len (sysMmap p hint len).2 ↔ Clean p len := by
  have hroot : ¬ p.sys.root = 0 := by
    obtain ⟨kids, hinv⟩ := hs.tables
    have := hinv.root.pos
    omega
  have hinval : (-EINVAL : ℤ) < 0 := by decide
  have hnomem : (-ENOMEM : ℤ) < 0 := by decide
  have hrefl : ∀ {q : Proc} {e : ℤ}, q.sys = p.sys → e < 0 → Atomic p q len e := by
    intro q e hq he
    refine .inl ⟨he, ?_⟩
    rw [hq]
    exact undone_refl hs
  rw [sysMmap, if_neg hroot]
  by_cases hlen : len = 0 ∨ len > MMAP_PAGES_MAX * PAGE_SIZE
  · rw [if_pos hlen]
    refine iff_of_true (hrefl rfl hinval) ?_
    rcases hlen with hlen | hlen
    · exact .inl hlen
    · exact .inr (.inl hlen)
  rw [if_neg hlen]
  by_cases hwin : npages len * PAGE_SIZE > USER_SHM_BASE - mmapBase p
  · simp only [if_pos hwin]
    exact iff_of_true (hrefl rfl hnomem) (.inr (.inr (.inl hwin)))
  simp only [if_neg hwin]
  have w := window_of hal (not_or.mp hlen).1 hwin
  rw [clean_iff hs w hlen hwin]
  obtain ⟨htake, hshort⟩ := takeFrames_spec (npages len) [] hs
  by_cases hroom : p.sys.ram.free.length < npages len
  · obtain ⟨s', hrun, hroot', hheld', hmaps', hfree', hmem'⟩ := hshort hroom
    rw [hrun]
    exact iff_of_true (.inl ⟨hnomem, undone_of_short hs hroot' hheld' hmaps' hfree' hmem'⟩)
      (.inl hroom)
  obtain ⟨s1, frames, hrun, hflen, ht⟩ := htake (by omega)
  rw [hrun, List.nil_append]
  obtain ⟨hspace, hothers, hkept, hend⟩ := mapFrames_spec frames ht.space (ht.frames_held hs)
    w.aligned w.low (by rw [hflen]; exact w.high)
  simp only
  generalize mapFrames s1 (mmapBase p) frames = last at *
  obtain ⟨s2, ok⟩ := last
  cases ok with
  | false =>
    -- the error is not the address of the window
    have hres : ¬ (-ENOMEM : ℤ) = (mmapBase p : ℤ) := by omega
    rw [← undone_iff hs w ht hflen hspace hend]
    exact ⟨fun h => h.elim And.right fun hdone => absurd hdone.1 hres, fun hu => .inl ⟨hnomem, hu⟩⟩
  | true =>
    cases hend with
    | all _ hnone hfits hmaps =>
      have hcount := ht.count
      rw [ht.maps] at hnone hothers
      rw [hflen, ht.pages_eq hs w] at hfits
      refine iff_of_true (.inr ⟨rfl, ?_⟩) (.inr (.inr (.inr ⟨?_, by omega⟩)))
      · rw [← hflen]
        exact done_of hs ht hspace w.aligned w.low (by rw [hflen]; exact w.high) hnone hmaps hothers
          hkept
      · rw [← hflen]
        exact hnone
    | taken hok | starved hok | later hok => exact absurd hok.symm Bool.false_ne_true

/-- A process with `n - 1` free frames whose window starts with the last page of a level-3
table. -/
def lastPage (n : ℕ) : Proc := ⟨emptySpace n, USER_MMAP_BASE + 0x1FF000⟩

/-- Two pages, two tables of level 3 for them and two above. -/
theorem sysMmap_atomic_two_pages :
    Atomic (lastPage 7) (sysMmap (lastPage 7) 0 8192).1 8192 (sysMmap (lastPage 7) 0 8192).2 := by
  refine (sysMmap_atomic_iff (lastPage 7) (space_emptySpace (by decide) (by decide)) (by decide)
    0 8192).mpr (.inr (.inr (.inr (.inr (.inr (.inr ⟨?_, ?_⟩))))))
  · decide
  · decide

/-- The second table of level 3 is one too many, and the first page stays mapped. -/
theorem sysMmap_keeps_first_page :
    ¬ ∀ p : Proc, Space p.sys → p.mmapNext % PAGE_SIZE = 0 → ∀ hint len,
      Atomic p (sysMmap p hint len).1 len (sysMmap p hint len).2 := by
  intro hall
  have hres : (sysMmap (lastPage 6) 0 8192).2 = -ENOMEM := by decide
  rcases hall (lastPage 6) (space_emptySpace (by decide) (by decide)) (by decide) 0 8192 with
    ⟨-, hu⟩ | ⟨hva, -⟩
  · have hprobe := hu.probes (USER_MMAP_BASE + 0x1FF000) ⟨by decide, by decide⟩
    revert hprobe
    decide
  · rw [hres] at hva
    exact absurd hva (by decide)

end Mmap
end MobilePhoneOs
