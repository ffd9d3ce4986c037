import MobilePhoneOs.Mm.Space

/-!
# What the calls do to an address space

One lemma for each call: the space stays one, and what changed. A page that is mapped takes
its tables from the front of the free list, as many as are missing on its path.
-/

namespace MobilePhoneOs.Mm.Vmm

open List (map_cons mem_append mem_cons mem_cons_of_mem mem_cons_self mem_map mem_range)
open Function (comp_apply update update_apply)

/-! ## Counting tables -/

variable {va : ℕ}

variable {p : List (Fin 512)}

lemma mem_steps :
    p ∈ steps va ↔ p <+: path va 3 ∧ p ≠ [] ∧ p ≠ path va 3 := by
  have hlen := path_length va 3
  constructor
  · intro h
    obtain ⟨j, hj, rfl⟩ := mem_map.mp h
    have hj := mem_range.mp hj
    have htake : ((path va 3).take (j + 1)).length = j + 1 := by
      rw [List.length_take, hlen]
      omega
    refine ⟨List.take_prefix _ _, ?_, ?_⟩
    · intro hc
      rw [hc] at htake
      simp at htake
    · intro hc
      rw [hc, hlen] at htake
      omega
  · rintro ⟨hp, hnil, hne⟩
    have hpos : 0 < p.length := List.length_pos_of_ne_nil hnil
    have hlt : p.length < 4 := by
      have hle := hp.length_le
      have hlen' : p.length ≠ 4 := fun hc => hne (hp.eq_of_length (hc.trans hlen.symm))
      omega
    refine mem_map.mpr ⟨p.length - 1, mem_range.mpr (by omega), ?_⟩
    rw [Nat.sub_add_cancel hpos]
    exact (List.prefix_iff_eq_take.mp hp).symm

variable {n : ℕ}

/-- The tables in memory are the nodes of the tree. -/
lemma present_eq {mem : Mem} {f : ℕ} {kids : Fin 512 → Tree n}
    (hlen : p.length ≤ n)
    (hslot : ∀ i, p.head? = some i → Slot mem (mem (f + 8 * i)) (kids i)) :
    present mem f p = (Radix.node f kids).isNode p := by
  induction p generalizing n f with
  | nil => rfl
  | cons i p ih =>
    have hi := hslot i rfl
    rw [present, Radix.isNode_node]
    cases hkid : kids i with
    | absent =>
      rw [hkid, slot_absent] at hi
      simp [hi]
    | leaf l => simp at hlen
    | node g kk =>
      rw [hkid] at hi
      obtain ⟨hd, hg, hslots⟩ := hi
      obtain ⟨hv, ht, hptr⟩ := tableDesc_spec hg
      rw [hd, hptr, ih (by simpa using hlen) fun j _ => hslots j]
      simp [hv, ht]

section

variable {s : Sys} {kids : Fin 512 → Tree 3}

lemma Inv.present (hs : Inv s kids) (hva : UserVa va)
    (hp : p ∈ steps va) :
    present s.ram.mem s.root p = (Radix.node s.root kids).isNode p := by
  obtain ⟨hpre, hnil, hne⟩ := mem_steps.mp hp
  obtain ⟨i, p, rfl⟩ := List.exists_cons_of_ne_nil hnil
  have hhead : i = ix 0 va := (List.cons_prefix_cons.mp hpre).1
  refine present_eq ?_ fun j hj => hs.slots j ?_
  · have hle := hpre.length_le
    have hlen := path_length va 3
    have hlt : (i :: p).length ≠ 4 := fun hc => hne (hpre.eq_of_length (hc.trans hlen.symm))
    omega
  · obtain rfl : i = j := by simpa using hj
    rw [hhead]
    exact ix_ne_zero hva

lemma Inv.missing (hs : Inv s kids) (hva : UserVa va) :
    (Radix.node s.root kids).missing (path va 3)
      = tablesFor (Vmm.present s.ram.mem s.root) [va] := by
  have hroot : (!(Radix.node s.root kids).isNode ((path va 3).take 0)) = false := rfl
  rw [Radix.missing_eq _ (path_length va 3), tablesFor, tablesFor, List.range_succ_eq_map]
  rw [List.filter_cons_of_neg (by rw [hroot]; exact Bool.false_ne_true)]
  rw [List.filter_map, List.length_map, steps, List.filter_map, List.length_map]
  refine congrArg List.length ?_
  refine List.filter_congr fun j hj => ?_
  have hmem : (path va 3).take (j + 1) ∈ steps va := mem_map.mpr ⟨j, hj, rfl⟩
  simp only [comp_apply, hs.present hva hmem]

end

lemma tablesFor_congr {there there' : List (Fin 512) → Bool} {vas : List ℕ}
    (h : ∀ va ∈ vas, ∀ p ∈ steps va, there p = there' p) :
    tablesFor there vas = tablesFor there' vas := by
  induction vas generalizing there there' with
  | nil => rfl
  | cons va vas ih =>
    have hhead : (steps va).filter (fun p => !there p) = (steps va).filter fun p => !there' p :=
      List.filter_congr fun p hp => by rw [h va mem_cons_self p hp]
    rw [tablesFor, tablesFor, hhead, ih fun va' hva' p hp => ?_]
    rw [h va' (mem_cons_of_mem _ hva') p hp]

lemma tablesFor_cons (there : List (Fin 512) → Bool) (va : ℕ) (vas : List ℕ) :
    tablesFor there (va :: vas)
      = tablesFor there [va] + tablesFor (fun p => there p || decide (p ∈ steps va)) vas := by
  rw [tablesFor, tablesFor, tablesFor, Nat.add_zero]

/-! ## The calls -/

@[simp] lemma release_maps (s : Sys) (pa : ℕ) : (s.release pa).maps = s.maps := rfl
@[simp] lemma release_free (s : Sys) (pa : ℕ) :
    (s.release pa).ram.free = pa :: s.ram.free := rfl

variable {s : Sys}

lemma alloc_nil (h : s.ram.free = []) : s.alloc = (s, 0) := by
  rw [Sys.alloc, Ram.pmmAlloc, h]

variable {fs : List ℕ}

lemma alloc_cons {f : ℕ} (h : s.ram.free = f :: fs) :
    s.alloc = ({ s with ram := { s.ram with free := fs } }, f) := by
  rw [Sys.alloc, Ram.pmmAlloc, h]

section

variable {s : Sys}

variable {va : ℕ}

lemma Space.probe (hs : Space s) (hva : UserVa va) : s.probe va = expected s va := by
  obtain ⟨kids, hinv⟩ := hs.tables
  exact hinv.probe hva

variable {f : ℕ}

section

variable (hs : Space s)
include hs

lemma Space.free_isTable (hf : f ∈ s.ram.free) : IsTable f := by
  obtain ⟨kids, hinv⟩ := hs.tables
  exact hinv.free.frame f hf

/-- A byte of a mapped page lies in the page's frame. -/
lemma Space.byte {pa flags : ℕ} (hva : UserVa va)
    (hmap : s.maps (va / PAGE_SIZE) = some (pa, flags)) :
    s.byte va = some (s.ram.mem (pa + va % PAGE_SIZE)) := by
  rw [Sys.byte, hs.probe hva, expected, hmap]
  rfl

/-- Memory outside the tables and the free list may be anything that keeps to its frames. -/
lemma Space.congr {mem : Mem} {free : List ℕ}
    (hmem : ∀ a, alignDown a ∈ s.held → mem a = s.ram.mem a) (hfree : FreeOk s.held free)
    (hpages : ∀ page m, s.maps page = some m → m.1 ∉ free) :
    Space { s with ram := ⟨mem, free⟩ } := by
  obtain ⟨kids, hinv⟩ := hs.tables
  refine ⟨⟨kids, inv_other hinv ⟨hmem, hfree, rfl, rfl, rfl⟩⟩, fun page m hm => ?_⟩
  obtain ⟨htab, hheld, -⟩ := hs.pages page m hm
  exact ⟨htab, hheld, hpages page m hm⟩

lemma Space.freeOk : FreeOk s.held s.ram.free := by
  obtain ⟨kids, hinv⟩ := hs.tables
  exact hinv.free

/-- A frame that was taken is nobody's. -/
lemma Space.alloc (h : s.ram.free = f :: fs) :
    Space { s with ram := { s.ram with free := fs } } ∧ IsTable f ∧ f ∉ s.held ∧ f ∉ fs ∧
      ∀ page m, s.maps page = some m → m.1 ≠ f := by
  have hok := hs.freeOk
  have hmem : ∀ g ∈ fs, g ∈ s.ram.free := fun g hg => by rw [h]; exact mem_cons_of_mem _ hg
  have hf : f ∈ s.ram.free := by rw [h]; exact mem_cons_self
  have hnd := hok.nodup
  rw [h, List.nodup_cons] at hnd
  refine ⟨hs.congr (fun _ _ => rfl) ⟨hnd.2, fun g hg => hok.unused g (hmem g hg),
    fun g hg => hok.frame g (hmem g hg)⟩ fun page m hm hc => ?_, hok.frame f hf,
    hok.unused f hf, hnd.1, fun page m hm hc => ?_⟩
  · exact (hs.pages page m hm).2.2 (hmem _ hc)
  · exact (hs.pages page m hm).2.2 (hc ▸ hf)

/-- A frame that nobody uses is given back. -/
lemma Space.release (hf : IsTable f) (hheld : f ∉ s.held)
    (hfree : f ∉ s.ram.free) (hpages : ∀ page m, s.maps page = some m → m.1 ≠ f) :
    Space (s.release f) := by
  have hok := hs.freeOk
  refine hs.congr (fun _ _ => rfl) ⟨List.nodup_cons.mpr ⟨hfree, hok.nodup⟩, fun g hg => ?_,
    fun g hg => ?_⟩ fun page m hm hc => ?_
  · rcases mem_cons.mp hg with rfl | hg
    · exact hheld
    · exact hok.unused g hg
  · rcases mem_cons.mp hg with rfl | hg
    · exact hf
    · exact hok.frame g hg
  · rcases mem_cons.mp hc with hc | hc
    · exact hpages page m hm hc
    · exact (hs.pages page m hm).2.2 hc

/-- A page that is no table may be cleared. -/
lemma Space.zero (hf : IsTable f) (hheld : f ∉ s.held) :
    Space (s.zero f) := by
  refine hs.congr (fun a ha => ?_) hs.freeOk fun page m hm => (hs.pages page m hm).2.2
  exact zeroPage_mem_of_ne hf.aligned fun hc => hheld (hc ▸ ha)

/-- A map of a page of the user window to a frame that nobody uses. -/
lemma Space.mapAt {pa : ℕ} (flags : ℕ) (hva : UserVa va)
    (hval : va % PAGE_SIZE = 0) (hpa : IsTable pa) (hheld : pa ∉ s.held)
    (hfree : pa ∉ s.ram.free) :
    Space (s.mapAt va pa flags).1 ∧
      Mapped s (s.mapAt va pa flags).1 va pa flags (s.mapAt va pa flags).2 ∧
      ∀ a, alignDown a ∉ (s.mapAt va pa flags).1.held →
        (s.mapAt va pa flags).1.ram.mem a = s.ram.mem a := by
  obtain ⟨kids, hinv⟩ := hs.tables
  obtain ⟨kids', new, hnew, hafter, hgrown, hempty, hout⟩ :=
    hinv.map flags hva hval hpa.aligned hpa.lt
  have htake : s.ram.free.take (s.ram.free.length
      - (vmmMapAt s.ram s.root va pa flags).1.free.length) = new := by
    rw [hnew, List.length_append, Nat.add_sub_cancel]
    exact List.take_left' rfl
  have hs' : (s.mapAt va pa flags).1 = ⟨(vmmMapAt s.ram s.root va pa flags).1, s.root,
      s.held ++ new, if (vmmMapAt s.ram s.root va pa flags).2 = 0
        then update s.maps (va / PAGE_SIZE) (some (pa, flags)) else s.maps⟩ := by
    rw [← htake]
    rfl
  have he : (s.mapAt va pa flags).2 = (vmmMapAt s.ram s.root va pa flags).2 := rfl
  rw [hs', he]
  refine ⟨⟨⟨kids', hafter⟩, fun page m hm => ?_⟩, ?_, hout⟩
  · -- the new page is in use, and so is every other
    have hcases : m = (pa, flags) ∨ s.maps page = some m := by
      simp only at hm
      split at hm
      · rw [update_apply] at hm
        split at hm
        · exact .inl (Option.some.inj hm).symm
        · exact .inr hm
      · exact .inr hm
    have hfresh : IsTable m.1 ∧ m.1 ∉ s.held ∧ m.1 ∉ s.ram.free := by
      rcases hcases with rfl | hold
      · exact ⟨hpa, hheld, hfree⟩
      · exact hs.pages page m hold
    obtain ⟨htab, hnheld, hnfree⟩ := hfresh
    rw [hnew, mem_append, not_or] at hnfree
    refine ⟨htab, fun hc => ?_, hnfree.2⟩
    rcases mem_append.mp hc with hc | hc
    · exact hnheld hc
    · exact hnfree.1 hc
  · have hmiss := hinv.missing hva
    have hlook := hinv.maps va hva
    rcases hgrown with ⟨hres, hlen, hnode⟩ | ⟨hres, htaken, hnil, -⟩ | ⟨hres, hlen, hnil⟩
    · rw [hmiss] at hlen
      refine .entered hres (hempty hres) ?_ ?_ ?_ (if_pos hres) fun va' hva' p hp => ?_
      · rw [hnew, List.length_append]
        omega
      · rw [hnew, ← hlen, List.drop_left]
      · rw [hnew, ← hlen, List.take_left]
      · have hthere := hafter.present hva' hp
        rw [hinv.present hva' hp, hthere, Bool.eq_iff_iff, hnode, Bool.or_eq_true,
          decide_eq_true_eq, mem_steps]
        have hnonnil := (mem_steps.mp hp).2.1
        tauto
    · refine .taken hres (hlook ▸ htaken) ?_ ?_ (if_neg hres)
      · rw [hnew, hnil, List.nil_append]
      · rw [hnil, List.append_nil]
    · rw [hmiss] at hlen
      rw [hnil, List.append_nil] at hnew
      refine .starved hres ?_ ?_ hnil ?_ (if_neg hres)
      · by_contra hc
        have hzero := Radix.missing_of_lookup (hlook ▸ hc)
        omega
      · rw [hnew]
        exact hlen
      · rw [hnew]

/-- An unmap of a page of the user window. -/
lemma Space.unmapAt (hva : UserVa va) :
    Space (s.unmapAt va).1 ∧ (s.unmapAt va).1.ram.free = s.ram.free ∧
      (s.unmapAt va).1.maps = update s.maps (va / PAGE_SIZE) none ∧
      ∀ a, alignDown a ∉ s.held → (s.unmapAt va).1.ram.mem a = s.ram.mem a := by
  obtain ⟨kids, hinv⟩ := hs.tables
  obtain ⟨kids', hfree, hafter, hres, hout⟩ := hinv.unmap hva
  have hmaps : (s.unmapAt va).1.maps = update s.maps (va / PAGE_SIZE) none := by
    show (if (vmmUnmapAt s.ram s.root va).2 = 0 then _ else s.maps) = _
    split
    · rfl
    · rename_i hne
      rw [hres, not_not] at hne
      rw [← hne, Function.update_eq_self]
  refine ⟨⟨⟨kids', hafter⟩, fun page m hm => ?_⟩, hfree, hmaps, hout⟩
  have hfree' : (s.unmapAt va).1.ram.free = s.ram.free := hfree
  rw [hmaps, update_apply] at hm
  split at hm
  · exact absurd hm (by simp)
  · rw [hfree']
    exact hs.pages page m hm

end

end

/-! ## Ranges of pages -/

/-- The pages of a range in a row. -/
def pages (lo n : ℕ) : List ℕ := (List.range n).map fun i => lo + i * PAGE_SIZE

@[simp] lemma pages_length (lo n : ℕ) : (pages lo n).length = n := by simp [pages]

lemma pages_succ (lo n : ℕ) : pages lo (n + 1) = lo :: pages (lo + PAGE_SIZE) n := by
  rw [pages, List.range_succ_eq_map, map_cons, List.map_map, Nat.zero_mul, Nat.add_zero, pages]
  refine congrArg _ (List.map_congr_left fun i _ => ?_)
  simp only [comp_apply, Nat.succ_mul]
  omega

lemma mem_pages {lo : ℕ} : va ∈ pages lo n ↔ ∃ i < n, va = lo + i * PAGE_SIZE := by
  simp [pages, eq_comm]

/-- A loop over whole pages. -/
lemma pagesFrom_eq {lo hi : ℕ} (hlo : lo % PAGE_SIZE = 0) (hhi : hi % PAGE_SIZE = 0) :
    pagesFrom lo hi = pages lo (hi / PAGE_SIZE - lo / PAGE_SIZE) := by
  have hcount : (hi - lo + (PAGE_SIZE - 1)) / PAGE_SIZE = hi / PAGE_SIZE - lo / PAGE_SIZE := by
    simp only [PAGE_SIZE] at *
    omega
  rw [pagesFrom, hcount, pages]

/-- Tables are found by the words of the tables. -/
lemma Space.present_congr (hs : Space s) (s' : Sys) (hroot : s'.root = s.root)
    (hmem : ∀ a, alignDown a ∈ s.held → s'.ram.mem a = s.ram.mem a) (hva : UserVa va) (hp : p ∈ steps va) :
    present s'.ram.mem s'.root p = present s.ram.mem s.root p := by
  obtain ⟨kids, hinv⟩ := hs.tables
  have hinv' : Inv { s with ram := ⟨s'.ram.mem, s.ram.free⟩ } kids :=
    inv_other hinv ⟨hmem, hinv.free, rfl, rfl, rfl⟩
  rw [hroot, hinv.present hva hp]
  exact hinv'.present hva hp

/-- The room for the pages behind one that was entered. -/
lemma tablesFor_entered {s' : Sys} {vas : List ℕ} (hroot : s'.root = s.root)
    (hvas : ∀ va' ∈ vas, UserVa va')
    (hthere : ∀ va', UserVa va' → ∀ p ∈ steps va', present s'.ram.mem s.root p
      = (present s.ram.mem s.root p || decide (p ∈ steps va))) :
    tablesFor (present s.ram.mem s.root) (va :: vas)
      = tablesFor (present s.ram.mem s.root) [va] + tablesFor (present s'.ram.mem s'.root) vas := by
  rw [tablesFor_cons, hroot]
  congr 1
  exact tablesFor_congr fun va' hva' p hp => (hthere va' (hvas va' hva') p hp).symm

/-! ## A page with a frame of its own

Most callers take a frame, map it and give it back when the map fails. -/

/-- The page at `va` was entered with the frame `pa`, the tables missing on its path came from
`fs`. -/
structure Entered (s s' : Sys) (va pa flags : ℕ) (fs : List ℕ) : Prop where
  space : Space s'
  root : s'.root = s.root
  maps : s'.maps = update s.maps (va / PAGE_SIZE) (some (pa, flags))
  empty : s.maps (va / PAGE_SIZE) = none
  room : tablesFor (present s.ram.mem s.root) [va] ≤ fs.length
  free : s'.ram.free = fs.drop (tablesFor (present s.ram.mem s.root) [va])
  held : s'.held = s.held ++ fs.take (tablesFor (present s.ram.mem s.root) [va])
  later : ∀ vas, (∀ va' ∈ vas, UserVa va') → tablesFor (present s.ram.mem s.root) (va :: vas)
    = tablesFor (present s.ram.mem s.root) [va] + tablesFor (present s'.ram.mem s'.root) vas
  kept : ∀ a, alignDown a ∉ s.held → alignDown a ∉ s.ram.free → s'.ram.mem a = s.ram.mem a
  frame : IsTable pa ∧ pa ∉ s'.held ∧ pa ∉ s'.ram.free

/-- The page at `va` was not entered and the frame `pa` given back: the page was taken, or the
frames in `fs` were too few for its tables. -/
structure Refused (s s' : Sys) (va pa : ℕ) (fs : List ℕ) : Prop where
  space : Space s'
  root : s'.root = s.root
  maps : s'.maps = s.maps
  kept : ∀ a, alignDown a ∉ s.held → alignDown a ∉ s.ram.free → s'.ram.mem a = s.ram.mem a
  why : (s.maps (va / PAGE_SIZE) ≠ none ∧ s'.ram.free = pa :: fs ∧ s'.held = s.held) ∨
    (s.maps (va / PAGE_SIZE) = none ∧ fs.length < tablesFor (present s.ram.mem s.root) [va] ∧
      s'.ram.free = [pa] ∧ s'.held = s.held ++ fs)

section

variable (hs : Space s) {pa : ℕ} (hfree : s.ram.free = pa :: fs) (flags : ℕ) (hva : UserVa va)
  (hval : va % PAGE_SIZE = 0)
include hs hfree flags hva hval

/-- A frame from the front of the free list for the page at `va`. -/
lemma Space.enter :
    ((s.alloc.1.mapAt va pa flags).2 = 0 ∧
        Entered s (s.alloc.1.mapAt va pa flags).1 va pa flags fs) ∨
      ((s.alloc.1.mapAt va pa flags).2 ≠ 0 ∧
        Refused s ((s.alloc.1.mapAt va pa flags).1.release pa) va pa fs) := by
  obtain ⟨hs1, hpa, hheld, hfs, hnew⟩ := hs.alloc hfree
  rw [alloc_cons hfree]
  generalize hs1' : ({ s with ram := { s.ram with free := fs } } : Sys) = s1 at hs1 ⊢
  have hmem1 : s1.ram.mem = s.ram.mem := by rw [← hs1']
  have hfree1 : s1.ram.free = fs := by rw [← hs1']
  have hroot1 : s1.root = s.root := by rw [← hs1']
  have hheld1 : s1.held = s.held := by rw [← hs1']
  have hmaps1 : s1.maps = s.maps := by rw [← hs1']
  obtain ⟨hspace, hmapped, hout⟩ := hs1.mapAt flags hva hval hpa (hheld1 ▸ hheld) (hfree1 ▸ hfs)
  have hroot : (s1.mapAt va pa flags).1.root = s.root := hroot1
  generalize hs2 : (s1.mapAt va pa flags).1 = s2 at *
  -- memory in use is neither in a table of the space nor in one of the new ones
  have hkept : ∀ l, s2.held = s.held ++ l → (∀ f ∈ l, f ∈ fs) → ∀ a, alignDown a ∉ s.held →
      alignDown a ∉ s.ram.free → s2.ram.mem a = s.ram.mem a := by
    intro l hl hsub a ha hfa
    rw [← hmem1]
    apply hout
    rw [hl, mem_append, not_or]
    refine ⟨ha, fun hc => hfa ?_⟩
    rw [hfree]
    exact mem_cons_of_mem _ (hsub _ hc)
  cases hmapped with
  | entered hres hnone hroom hfree2 hheld2 hmaps2 hthere =>
    rw [hmem1, hroot1] at hroom hfree2 hheld2 hthere
    rw [hmaps1] at hnone hmaps2
    rw [hfree1] at hroom hfree2 hheld2
    rw [hheld1] at hheld2
    refine .inl ⟨hres, hspace, hroot, hmaps2, hnone, hroom, hfree2, hheld2, fun vas hvas => ?_,
      hkept _ hheld2 fun f hf => List.mem_of_mem_take hf, hpa, fun hc => ?_, fun hc => ?_⟩
    · exact tablesFor_entered hroot hvas hthere
    · rw [hheld2] at hc
      rcases mem_append.mp hc with hc | hc
      · exact hheld hc
      · exact hfs (List.mem_of_mem_take hc)
    · rw [hfree2] at hc
      exact hfs (List.mem_of_mem_drop hc)
  | taken hres hsome hfree2 hheld2 hmaps2 =>
    rw [hmaps1] at hsome hmaps2
    rw [hfree1] at hfree2
    rw [hheld1] at hheld2
    have hpages : ∀ page m, s2.maps page = some m → m.1 ≠ pa := by
      rw [hmaps2]
      exact hnew
    refine .inr ⟨hres, hspace.release hpa (hheld2 ▸ hheld) (hfree2 ▸ hfs) hpages, hroot, hmaps2,
      ?_, .inl ⟨hsome, ?_, hheld2⟩⟩
    · exact hkept [] (by rw [hheld2, List.append_nil]) fun f hf => absurd hf (by simp)
    · rw [release_free, hfree2]
  | starved hres hnone hroom hfree2 hheld2 hmaps2 =>
    rw [hmem1, hroot1, hfree1] at hroom
    rw [hmaps1] at hnone hmaps2
    rw [hheld1, hfree1] at hheld2
    have hpages : ∀ page m, s2.maps page = some m → m.1 ≠ pa := by
      rw [hmaps2]
      exact hnew
    refine .inr ⟨hres, hspace.release hpa (fun hc => ?_) (by simp [hfree2]) hpages, hroot, hmaps2,
      ?_, .inr ⟨hnone, hroom, ?_, hheld2⟩⟩
    · rw [hheld2] at hc
      rcases mem_append.mp hc with hc | hc
      · exact hheld hc
      · exact hfs hc
    · exact hkept fs hheld2 fun f hf => hf
    · rw [release_free, hfree2]

/-- Only tables are written when a page is entered; the frame that it gets is as it was. -/
lemma Space.enter_mem :
    ∀ a, alignDown a ∉ (s.alloc.1.mapAt va pa flags).1.held →
      (s.alloc.1.mapAt va pa flags).1.ram.mem a = s.ram.mem a := by
  obtain ⟨hs1, hpa, hheld, hfs, -⟩ := hs.alloc hfree
  rw [alloc_cons hfree]
  exact (hs1.mapAt flags hva hval hpa hheld hfs).2.2

end

/-- The new page may be written. -/
lemma Entered.write {s' : Sys} {pa flags : ℕ}
    (h : Entered s s' va pa flags fs) (hfree : s.ram.free = pa :: fs) (mem : Mem)
    (hmem : ∀ a, alignDown a ≠ pa → mem a = s'.ram.mem a) :
    Entered s { s' with ram := ⟨mem, s'.ram.free⟩ } va pa flags fs := by
  have htab : ∀ a, alignDown a ∈ s'.held → mem a = s'.ram.mem a :=
    fun a ha => hmem a fun hc => h.frame.2.1 (hc ▸ ha)
  refine ⟨h.space.congr htab h.space.freeOk fun page m hm => (h.space.pages page m hm).2.2, h.root,
    h.maps, h.empty, h.room, h.free, h.held, fun vas hvas => ?_, fun a ha hfa => ?_, h.frame⟩
  · rw [h.later vas hvas]
    refine congrArg _ (tablesFor_congr fun va' hva' p hp => ?_)
    exact (h.space.present_congr { s' with ram := ⟨mem, s'.ram.free⟩ } rfl htab
      (hvas va' hva') hp).symm
  · rw [← h.kept a ha hfa]
    refine hmem a fun hc => hfa ?_
    rw [hfree, hc]
    exact mem_cons_self

/-! ## Ranges with frames of their own -/

/-- A law about what the pages of a range hold. -/
def PageLaw (holds : ℕ → (ℕ → ℕ) → Prop) : Prop :=
  ∀ i c c', (∀ j < PAGE_SIZE, c j = c' j) → holds i c → holds i c'

/-- The `n` pages from `lo` on have been mapped to frames of their own, which hold what they
should. -/
structure Grew (s s' : Sys) (lo n flags : ℕ) (holds : ℕ → (ℕ → ℕ) → Prop) : Prop where
  pages : ∀ i < n, ∃ pa, s'.maps (lo / PAGE_SIZE + i) = some (pa, flags) ∧
    pa ∈ s.ram.free ∧ holds i fun j => s'.ram.mem (pa + j)
  own : ∀ i < n, ∀ i' < n, ∀ m m', s'.maps (lo / PAGE_SIZE + i) = some m →
    s'.maps (lo / PAGE_SIZE + i') = some m' → m'.1 = m.1 → i' = i
  count : s'.ram.free.length + s'.held.length + n = s.ram.free.length + s.held.length

/-- What mapping a range does in any case: pages outside the range stay, and so does memory
that was in use. -/
structure Around (s s' : Sys) (lo n : ℕ) : Prop where
  space : Space s'
  root : s'.root = s.root
  others : ∀ page, page < lo / PAGE_SIZE ∨ lo / PAGE_SIZE + n ≤ page → s'.maps page = s.maps page
  kept : ∀ a, alignDown a ∉ s.held → alignDown a ∉ s.ram.free → s'.ram.mem a = s.ram.mem a

section

variable {s s3 s' : Sys} {lo pa n flags : ℕ} {fs : List ℕ} {holds : ℕ → (ℕ → ℕ) → Prop}

lemma page_succ (lo : ℕ) : (lo + PAGE_SIZE) / PAGE_SIZE = lo / PAGE_SIZE + 1 := by
  simp only [PAGE_SIZE]
  omega

section

variable (h : Entered s s3 lo pa flags fs) (hfree : s.ram.free = pa :: fs)
include h hfree

/-- The frames that are left after a page was entered. -/
lemma Entered.left :
    (∀ f ∈ s3.ram.free, f ∈ s.ram.free) ∧ (∀ f ∈ s3.held, f ∈ s.held ∨ f ∈ s.ram.free) ∧
      s3.ram.free.length + s3.held.length + 1 = s.ram.free.length + s.held.length := by
  refine ⟨fun f hf => ?_, fun f hf => ?_, ?_⟩
  · rw [h.free] at hf
    rw [hfree]
    exact mem_cons_of_mem _ (List.mem_of_mem_drop hf)
  · rw [h.held] at hf
    rcases mem_append.mp hf with hf | hf
    · exact .inl hf
    · rw [hfree]
      exact .inr (mem_cons_of_mem _ (List.mem_of_mem_take hf))
  · rw [h.free, h.held, hfree, List.length_append, List.length_drop, List.length_take,
      List.length_cons]
    omega

/-- A page in front of a range that was left alone outside. -/
lemma Around.cons (ha : Around s3 s' (lo + PAGE_SIZE) n) : Around s s' lo (n + 1) := by
  obtain ⟨hsub, hheld, -⟩ := h.left hfree
  refine ⟨ha.space, ha.root.trans h.root, fun page hp => ?_, fun a hnheld hnfree => ?_⟩
  · rw [ha.others page (by rw [page_succ]; omega), h.maps, Function.update_of_ne (by omega)]
  · rw [ha.kept a (fun hc => ?_) fun hc => hnfree (hsub _ hc), h.kept a hnheld hnfree]
    rcases hheld _ hc with hc | hc
    · exact hnheld hc
    · exact hnfree hc

/-- A page in front of the pages that were mapped. -/
lemma Grew.cons (hlaw : PageLaw holds) (hfirst : holds 0 fun j => s3.ram.mem (pa + j))
    (ha : Around s3 s' (lo + PAGE_SIZE) n)
    (hg : Grew s3 s' (lo + PAGE_SIZE) n flags fun i => holds (i + 1)) :
    Grew s s' lo (n + 1) flags holds := by
  obtain ⟨hsub, -, hcount⟩ := h.left hfree
  obtain ⟨hpa, hnheld, hnfree⟩ := h.frame
  have hhead : s'.maps (lo / PAGE_SIZE) = some (pa, flags) := by
    rw [ha.others _ (by rw [page_succ]; omega), h.maps, Function.update_self]
  have htail : ∀ i < n, ∃ pa', s'.maps (lo / PAGE_SIZE + (i + 1)) = some (pa', flags) ∧
      pa' ∈ s3.ram.free ∧ holds (i + 1) fun j => s'.ram.mem (pa' + j) := by
    intro i hi
    have hi' := hg.pages i hi
    rwa [page_succ, Nat.add_assoc, Nat.add_comm 1 i] at hi'
  refine ⟨fun i hi => ?_, fun i hi i' hi' m m' hm hm' heq => ?_, ?_⟩
  · cases i with
    | zero =>
      refine ⟨pa, hhead, by rw [hfree]; exact mem_cons_self, hlaw _ _ _ ?_ hfirst⟩
      intro j hj
      have hdown : alignDown (pa + j) = pa := alignDown_page hpa.aligned (by omega) (by omega)
      exact (ha.kept (pa + j) (by rwa [hdown]) (by rwa [hdown])).symm
    | succ i =>
      obtain ⟨pa', hmap, hmem, hcontent⟩ := htail i (by omega)
      exact ⟨pa', hmap, hsub _ hmem, hcontent⟩
  · -- the frame of the new page is in none of the lists that the others come from
    have hapart : ∀ i < n, ∀ m, s'.maps (lo / PAGE_SIZE + (i + 1)) = some m → m.1 ≠ pa := by
      intro i hi m hm hc
      obtain ⟨pa', hmap, hmem, -⟩ := htail i hi
      obtain rfl := Option.some.inj (hm.symm.trans hmap)
      exact hnfree (hc ▸ hmem)
    cases i with
    | zero =>
      obtain rfl := Option.some.inj (hm.symm.trans hhead)
      cases i' with
      | zero => rfl
      | succ i' => exact absurd heq (hapart i' (by omega) m' hm')
    | succ i =>
      cases i' with
      | zero =>
        obtain rfl := Option.some.inj (hm'.symm.trans hhead)
        exact absurd heq.symm (hapart i (by omega) m hm)
      | succ i' =>
        have hown := hg.own i (by omega) i' (by omega) m m'
        rw [page_succ, Nat.add_assoc, Nat.add_comm 1 i, Nat.add_assoc, Nat.add_comm 1 i'] at hown
        rw [hown hm hm' heq]
  · have hrest := hg.count
    omega

end

end

/-! ## An empty space -/

/-- A space without pages whose root came from `n` free frames in a row. -/
def emptySpace (n : ℕ) : Sys :=
  let r : Ram := ⟨fun _ => 0, (List.range n).map fun i => 0x50000000 + i * PAGE_SIZE⟩
  ⟨(vmmRootAlloc r 0x40200000).1, 0x50000000, [0x50000000], fun _ => none⟩

lemma freeOk_row (hn : n ≤ 65536) :
    FreeOk [] ((List.range n).map fun i => 0x50000000 + i * PAGE_SIZE) := by
  refine ⟨?_, by simp, fun f hf => ?_⟩
  · refine List.Nodup.map (fun i j hij => ?_) List.nodup_range
    simp only [PAGE_SIZE] at hij
    omega
  · obtain ⟨i, hi, rfl⟩ := mem_map.mp hf
    have hi := mem_range.mp hi
    refine ⟨by omega, ?_, ?_⟩
    all_goals
      simp only [PAGE_SIZE]
      omega

lemma space_emptySpace (hpos : 0 < n) (hn : n ≤ 65536) : Space (emptySpace n) := by
  have hfree := freeOk_row hn
  obtain ⟨n, rfl⟩ := Nat.exists_eq_add_of_lt hpos
  rw [Nat.zero_add] at hfree ⊢
  have hroot : vmmRootAlloc ⟨fun _ => 0, (List.range (n + 1)).map fun i =>
      0x50000000 + i * PAGE_SIZE⟩ 0x40200000 = ((emptySpace (n + 1)).ram, 0x50000000) := by
    rw [emptySpace]
    simp only [List.range_succ_eq_map, map_cons]
    rfl
  exact ⟨⟨_, inv_rootAlloc hfree hroot (by decide)⟩, fun _ _ hm => absurd hm (by simp [emptySpace])⟩

lemma emptySpace_free (n : ℕ) : (emptySpace (n + 1)).ram.free.length = n := by
  rw [emptySpace]
  simp only [List.range_succ_eq_map, map_cons]
  show ((List.map Nat.succ (List.range n)).map fun i => 0x50000000 + i * PAGE_SIZE).length = n
  simp

end MobilePhoneOs.Mm.Vmm
