import MobilePhoneOs.Kernel.Shm

/-!
# When shared-memory objects live exactly as long as their mappings

Attaching and detaching one slot are the two primitives; `fork` and process exit are loops over
them. Each primitive keeps the count, the page tables and the ledger of frames, as long as no
object is attached while it is still being filled.
-/

namespace MobilePhoneOs

open List (mem_range mem_cons nodup_cons foldl_cons)

open Function (update update_self update_apply update_of_ne update_eq_self)
namespace Ipc
namespace Shm

open Phase (held)

/-! ## Mapping an object -/

/-- The pages from `lo` to `hi` of a range are mapped to the frames of the object, and nothing
else has changed. -/
structure Mapped (o : ShmObj) (va lo hi : ℕ) (m m' : PageMap) : Prop where
  free : ∀ k, lo ≤ k → k < hi → m (page va k) = none
  shown : ∀ k, lo ≤ k → k < hi → m' (page va k) = some (o.pages k)
  inj : ∀ k j, lo ≤ k → k < hi → lo ≤ j → j < hi → page va k = page va j → k = j
  rest : ∀ v, (∀ k, lo ≤ k → k < hi → page va k ≠ v) → m' v = m v

/-- What is mapped is the front of the object. -/
lemma mapPages_spec (o : ShmObj) (va room left done : ℕ) (m : PageMap) :
    done ≤ (mapPages o va room left done m).2 ∧ (mapPages o va room left done m).2 ≤ done + left ∧
      Mapped o va done (mapPages o va room left done m).2 m (mapPages o va room left done m).1 := by
  have hempty : ∀ m : PageMap, Mapped o va done done m m := fun m =>
    ⟨fun k hk hk' => absurd hk (Nat.not_le.mpr hk'), fun k hk hk' => absurd hk (Nat.not_le.mpr hk'),
      fun k _ hk hk' => absurd hk (Nat.not_le.mpr hk'), fun _ _ => rfl⟩
  induction left generalizing done m with
  | zero => exact ⟨le_rfl, le_rfl, hempty m⟩
  | succ left ih =>
    rw [mapPages]
    split_ifs with hstop
    · exact ⟨le_rfl, Nat.le_add_right _ _, hempty m⟩
    rw [not_or, Option.not_isSome_iff_eq_none] at hstop
    set m₁ := update m (page va done) (some (o.pages done)) with hm₁
    obtain ⟨hlo, hhi, hrest⟩ := ih (done + 1) m₁ fun m =>
      ⟨fun k hk hk' => absurd hk (Nat.not_le.mpr hk'), fun k hk hk' => absurd hk (Nat.not_le.mpr hk'),
        fun k _ hk hk' => absurd hk (Nat.not_le.mpr hk'), fun _ _ => rfl⟩
    generalize mapPages o va room left (done + 1) m₁ = r at hlo hhi hrest
    -- the pages after `done` are not the one just mapped
    have hnew : ∀ k, done + 1 ≤ k → k < r.2 → page va k ≠ page va done := by
      intro k hk hk' heq
      have hnone := hrest.free k hk hk'
      rw [heq, hm₁, update_self] at hnone
      cases hnone
    refine ⟨by omega, by omega, ⟨fun k hk hk' => ?_, fun k hk hk' => ?_, fun k j hk hk' hj hj' heq => ?_,
      fun v hv => ?_⟩⟩
    · rcases Nat.eq_or_lt_of_le hk with rfl | hlt
      · exact hstop.2
      · have hnone := hrest.free k hlt hk'
        rwa [hm₁, update_of_ne (hnew k hlt hk')] at hnone
    · rcases Nat.eq_or_lt_of_le hk with rfl | hlt
      · rw [hrest.rest _ fun k hk hk' => hnew k hk hk', hm₁, update_self]
      · exact hrest.shown k hlt hk'
    · rcases Nat.eq_or_lt_of_le hk with rfl | hlt
      · rcases Nat.eq_or_lt_of_le hj with rfl | hjlt
        · rfl
        · exact absurd heq.symm (hnew j hjlt hj')
      · rcases Nat.eq_or_lt_of_le hj with rfl | hjlt
        · exact absurd heq (hnew k hlt hk')
        · exact hrest.inj k j hlt hk' hjlt hj' heq
    · rw [hrest.rest v fun k hk hk' => hv k (by omega) hk', hm₁,
        update_of_ne (hv done le_rfl (by omega)).symm]

lemma unmapPages_spec (va : ℕ) (pgs : List ℕ) (m : PageMap) (v : ℕ) :
    unmapPages va pgs m v = if ∃ k ∈ pgs, page va k = v then none else m v := by
  induction pgs generalizing m with
  | nil => simp [unmapPages]
  | cons k pgs ih =>
    have hcons : unmapPages va (k :: pgs) m
        = unmapPages va pgs (update m (page va k) none) := rfl
    rw [hcons, ih]
    by_cases hk : page va k = v
    · subst hk
      simp
    · rw [update_of_ne (Ne.symm hk)]
      simp [hk]

/-- `shm_map_range` maps the whole object or nothing. -/
lemma shmMapRange_spec (o : ShmObj) (va room : ℕ) (m : PageMap) :
    (shmMapRange o va room m).2 = true ∧ Mapped o va 0 o.npages m (shmMapRange o va room m).1 ∨
      (shmMapRange o va room m).2 = false ∧ (shmMapRange o va room m).1 = m := by
  obtain ⟨_, _, hmapped⟩ := mapPages_spec o va room o.npages 0 m
  unfold shmMapRange
  generalize mapPages o va room o.npages 0 m = r at hmapped
  dsimp only
  split_ifs with hall
  · rw [hall] at hmapped
    exact .inl ⟨rfl, hmapped⟩
  · refine .inr ⟨rfl, funext fun v => ?_⟩
    show unmapPages va (List.range r.2).reverse r.1 v = m v
    rw [unmapPages_spec]
    split_ifs with hv
    · obtain ⟨k, hk, rfl⟩ := hv
      rw [List.mem_reverse, mem_range] at hk
      exact (hmapped.free k (Nat.zero_le k) hk).symm
    · refine hmapped.rest v fun k _ hk heq => hv ⟨k, ?_, heq⟩
      rw [List.mem_reverse, mem_range]
      exact hk

lemma shmUnmapRange_spec (o : ShmObj) (va : ℕ) (m : PageMap) (v : ℕ) :
    shmUnmapRange o va m v = if ∃ k < o.npages, page va k = v then none else m v := by
  simp [shmUnmapRange, unmapPages_spec]

/-! ## Giving frames back -/

/-- Different entries of an array hold different frames. -/
def Distinct (pages : ℕ → ℕ) : Prop := ∀ k j, pages k ≠ 0 → pages k = pages j → k = j

variable {pages : ℕ → ℕ}

lemma Distinct.clear (h : Distinct pages) (k : ℕ) :
    Distinct (update pages k 0) := by
  intro i j hi heq
  have hik : i ≠ k := by
    rintro rfl
    exact hi (update_self ..)
  rw [update_of_ne hik] at hi heq
  have hjk : j ≠ k := by
    rintro rfl
    rw [update_self] at heq
    exact hi heq
  rw [update_of_ne hjk] at heq
  exact h i j hi heq

/-- The loop moves the frames from the array to the list. -/
structure Returned (pgs : List ℕ) (pages : ℕ → ℕ) (free : List ℕ) (pages' : ℕ → ℕ)
    (free' : List ℕ) : Prop where
  clear : ∀ k, pages' k = if k ∈ pgs then 0 else pages k
  mem : ∀ f, f ∈ free' ↔ f ∈ free ∨ f ≠ 0 ∧ ∃ k ∈ pgs, pages k = f
  nodup : free'.Nodup

/-- Each page goes back to the free list once. -/
lemma freePages_spec (pgs : List ℕ) {free : List ℕ} (hd : Distinct pages)
    (hfree : ∀ k, pages k ∉ free) (hpos : 0 ∉ free) (hnodup : free.Nodup) :
    Returned pgs pages free (freePages pgs pages free).1 (freePages pgs pages free).2 := by
  induction pgs generalizing pages free with
  | nil => exact ⟨fun _ => by simp [freePages], fun _ => by simp [freePages], hnodup⟩
  | cons k pgs ih =>
    by_cases hk : pages k = 0
    · have hcons : freePages (k :: pgs) pages free = freePages pgs pages free := by
        rw [freePages, foldl_cons]
        simp only [hk, ne_eq, not_true_eq_false, if_false]
        rfl
      obtain ⟨hpages, hmem, hnd⟩ := ih hd hfree hpos hnodup
      rw [hcons]
      refine ⟨fun j => ?_, fun f => ?_, hnd⟩
      · rw [hpages j]
        rcases eq_or_ne j k with rfl | hjk
        · simp [hk]
        · simp [hjk]
      · rw [hmem f]
        rw [List.exists_mem_cons_iff, hk]
        refine or_congr_right (and_congr_right fun hf => ?_)
        rw [or_iff_right (Ne.symm hf)]
    · have hcons : freePages (k :: pgs) pages free
          = freePages pgs (update pages k 0) (pages k :: free) := by
        rw [freePages, foldl_cons]
        simp only [hk, ne_eq, not_false_eq_true, if_true]
        rfl
      have hfree' : ∀ j, update pages k 0 j ∉ pages k :: free := by
        intro j hj
        rcases eq_or_ne j k with rfl | hjk
        · rw [update_self, mem_cons] at hj
          rcases hj with hj | hj
          · exact hk hj.symm
          · exact hpos hj
        · rw [update_of_ne hjk, mem_cons] at hj
          rcases hj with hj | hj
          · exact hjk (hd k j hk hj.symm).symm
          · exact hfree j hj
      have hpos' : 0 ∉ pages k :: free := by
        rw [mem_cons, not_or]
        exact ⟨Ne.symm hk, hpos⟩
      obtain ⟨hpages, hmem, hnd⟩ := ih (hd.clear k) hfree' hpos'
        (nodup_cons.mpr ⟨hfree k, hnodup⟩)
      rw [hcons]
      refine ⟨fun j => ?_, fun f => ?_, hnd⟩
      · rw [hpages j]
        rcases eq_or_ne j k with rfl | hjk
        · simp
        · simp [hjk]
      · rw [hmem f, mem_cons, List.exists_mem_cons_iff]
        refine ⟨fun h => ?_, fun h => ?_⟩
        · rcases h with (rfl | hf) | ⟨hf, j, hj, heq⟩
          · exact .inr ⟨hk, .inl rfl⟩
          · exact .inl hf
          · rcases eq_or_ne j k with rfl | hjk
            · rw [update_self] at heq
              exact absurd heq.symm hf
            · rw [update_of_ne hjk] at heq
              exact .inr ⟨hf, .inr ⟨j, hj, heq⟩⟩
        · rcases h with hf | ⟨hf, rfl | ⟨j, hj, heq⟩⟩
          · exact .inl (.inr hf)
          · exact .inl (.inl rfl)
          · rcases eq_or_ne j k with rfl | hjk
            · exact .inl (.inl heq.symm)
            · refine .inr ⟨hf, j, hj, ?_⟩
              rwa [update_of_ne hjk]

/-- In `shm_create` no stored page is 0, so its loop is the same. -/
lemma undoPages_eq {pgs : List ℕ} (hpgs : pgs.Nodup) (free : List ℕ)
    (h : ∀ k ∈ pgs, pages k ≠ 0) : undoPages pgs pages free = freePages pgs pages free := by
  induction pgs generalizing pages free with
  | nil => rfl
  | cons k pgs ih =>
    obtain ⟨hk, hnodup⟩ := nodup_cons.mp hpgs
    have hundo : undoPages (k :: pgs) pages free
        = undoPages pgs (update pages k 0) (pages k :: free) := rfl
    have hfree : freePages (k :: pgs) pages free
        = freePages pgs (update pages k 0) (pages k :: free) := by
      rw [freePages, foldl_cons]
      simp only [ne_eq, h k List.mem_cons_self, not_false_eq_true, if_true]
      rfl
    rw [hundo, hfree]
    refine ih hnodup _ fun j hj => ?_
    have hjk : j ≠ k := by
      rintro rfl
      exact hk hj
    rw [update_of_ne hjk]
    exact h j (List.mem_cons_of_mem k hj)

/-! ## One address space -/

/-- The page map of a process holds the objects that its slots name, page by page and nothing
else. -/
structure Space (objs : ℕ → ShmObj) (slot : Fin PROC_SHM_MAX → Slot) (m : PageMap) : Prop where
  mapped : ∀ i, (slot i).va ≠ 0 → ∀ k < (slot i).npages,
    m (page (slot i).va k) = some ((objs (slot i).id).pages k)
  owned : ∀ v f, m v = some f →
    ∃ i, (slot i).va ≠ 0 ∧ ∃ k < (slot i).npages, page (slot i).va k = v
  apart : ∀ i j a b, (slot i).va ≠ 0 → (slot j).va ≠ 0 → a < (slot i).npages →
    b < (slot j).npages → page (slot i).va a = page (slot j).va b → i = j ∧ a = b

namespace Space

variable {objs objs' : ℕ → ShmObj} {slot : Fin PROC_SHM_MAX → Slot} {m m' : PageMap}
  {i : Fin PROC_SHM_MAX} {x : Slot}

lemma congr (h : Space objs slot m)
    (hobjs : ∀ i, (slot i).va ≠ 0 → (objs' (slot i).id).pages = (objs (slot i).id).pages) :
    Space objs' slot m := by
  refine ⟨fun i hi k hk => ?_, h.owned, h.apart⟩
  rw [hobjs i hi]
  exact h.mapped i hi k hk

lemma empty (objs : ℕ → ShmObj) : Space objs (fun _ => Slot.zero) fun _ => none :=
  ⟨fun _ hi => absurd rfl hi, nofun, fun _ _ _ _ hi => absurd rfl hi⟩

/-- A free slot takes a range that was not mapped. -/
lemma add (h : Space objs slot m) (hi : (slot i).va = 0) (hx : x.va ≠ 0)
    (hm : Mapped (objs x.id) x.va 0 x.npages m m') : Space objs (update slot i x) m' := by
  have hold : ∀ j, j ≠ i → (slot j).va ≠ 0 → ∀ a < (slot j).npages, ∀ b < x.npages,
      page x.va b ≠ page (slot j).va a := by
    intro j _ hj a ha b hb heq
    have hnone := hm.free b (Nat.zero_le b) hb
    rw [heq, h.mapped j hj a ha] at hnone
    cases hnone
  refine ⟨fun j hj k hk => ?_, fun v f hv => ?_, fun j j' a b hj hj' ha hb heq => ?_⟩
  · rcases eq_or_ne j i with rfl | hji
    · rw [update_self] at hk ⊢
      exact hm.shown k (Nat.zero_le k) hk
    · rw [update_of_ne hji] at hj hk ⊢
      rw [hm.rest _ fun b _ hb => hold j hji hj k hk b hb]
      exact h.mapped j hj k hk
  · by_cases hnew : ∃ b < x.npages, page x.va b = v
    · obtain ⟨b, hb, rfl⟩ := hnew
      refine ⟨i, ?_, b, ?_, ?_⟩
      · rwa [update_self]
      · rwa [update_self]
      · rw [update_self]
    · rw [hm.rest v fun b _ hb hbv => hnew ⟨b, hb, hbv⟩] at hv
      obtain ⟨j, hj, k, hk, hkv⟩ := h.owned v f hv
      have hji : j ≠ i := by
        rintro rfl
        exact hj hi
      refine ⟨j, ?_, k, ?_, ?_⟩
      · rwa [update_of_ne hji]
      · rwa [update_of_ne hji]
      · rwa [update_of_ne hji]
  · rcases eq_or_ne j i with rfl | hji
    · rw [update_self] at ha heq
      rcases eq_or_ne j' j with rfl | hj'i
      · rw [update_self] at hb heq
        exact ⟨rfl, hm.inj a b (Nat.zero_le a) ha (Nat.zero_le b) hb heq⟩
      · rw [update_of_ne hj'i] at hj' hb heq
        exact absurd heq (hold j' hj'i hj' b hb a ha)
    · rw [update_of_ne hji] at hj ha heq
      rcases eq_or_ne j' i with rfl | hj'i
      · rw [update_self] at hb heq
        exact absurd heq.symm (hold j hji hj a ha b hb)
      · rw [update_of_ne hj'i] at hj' hb heq
        exact h.apart j j' a b hj hj' ha hb heq

/-- A slot gives its range up. -/
lemma remove (h : Space objs slot m) (hi : (slot i).va ≠ 0)
    (hm : ∀ v, m' v = if ∃ k < (slot i).npages, page (slot i).va k = v then none else m v) :
    Space objs (update slot i Slot.zero) m' := by
  refine ⟨fun j hj k hk => ?_, fun v f hv => ?_, fun j j' a b hj hj' ha hb heq => ?_⟩
  · rcases eq_or_ne j i with rfl | hji
    · rw [update_self] at hj
      exact absurd rfl hj
    · rw [update_of_ne hji] at hj hk ⊢
      rw [hm, if_neg]
      · exact h.mapped j hj k hk
      · rintro ⟨b, hb, heq⟩
        exact hji (h.apart i j b k hi hj hb hk heq).1.symm
  · rw [hm] at hv
    split_ifs at hv with hmine
    obtain ⟨j, hj, k, hk, hkv⟩ := h.owned v f hv
    have hji : j ≠ i := by
      rintro rfl
      exact hmine ⟨k, hk, hkv⟩
    refine ⟨j, ?_, k, ?_, ?_⟩
    · rwa [update_of_ne hji]
    · rwa [update_of_ne hji]
    · rwa [update_of_ne hji]
  · have hji : j ≠ i := by
      rintro rfl
      rw [update_self] at hj
      exact hj rfl
    have hj'i : j' ≠ i := by
      rintro rfl
      rw [update_self] at hj'
      exact hj' rfl
    rw [update_of_ne hji] at hj ha heq
    rw [update_of_ne hj'i] at hj' hb heq
    exact h.apart j j' a b hj hj' ha hb heq

end Space

/-! ## The system -/

namespace Sys

lemma naming_update (id : ℕ) (h : Fin PROC_SHM_MAX → Slot) (i : Fin PROC_SHM_MAX) (x : Slot) :
    naming id (update h i x) + (if (h i).va ≠ 0 ∧ (h i).id = id then 1 else 0)
      = naming id h + if x.va ≠ 0 ∧ x.id = id then 1 else 0 :=
  sum_update_add Finset.univ (fun x : Slot => if x.va ≠ 0 ∧ x.id = id then 1 else 0) h
    (Finset.mem_univ i) x

variable {n : ℕ}

lemma slots_setSlot (s : Sys) {p : ProcId} (hp : p < n) (i : Fin PROC_SHM_MAX) (x : Slot)
    (id : ℕ) :
    slots n (s.setSlot p i x) id
        + (if (s.slot p i).va ≠ 0 ∧ (s.slot p i).id = id then 1 else 0)
      = slots n s id + if x.va ≠ 0 ∧ x.id = id then 1 else 0 := by
  have hsum := sum_update_add (Finset.range n) (naming id) s.slot (Finset.mem_range.mpr hp)
    (update (s.slot p) i x)
  have hone := naming_update id (s.slot p) i x
  have hnew : slots n (s.setSlot p i x) id = ∑ q ∈ Finset.range n,
    naming id (update s.slot p (update (s.slot p) i x) q) := rfl
  have hold : slots n s id = ∑ q ∈ Finset.range n, naming id (s.slot q) := rfl
  omega

lemma slots_pos {s : Sys} {p : ProcId} (hp : p < n) {i : Fin PROC_SHM_MAX}
    (hi : (s.slot p i).va ≠ 0) : 0 < slots n s (s.slot p i).id := by
  have hsum := slots_setSlot s hp i Slot.zero (s.slot p i).id
  rw [if_pos ⟨hi, rfl⟩, if_neg (fun h => h.1 rfl)] at hsum
  omega

/-- How far an object is: which of its pages have a frame. -/
structure ObjOk (s : Sys) (id : ℕ) : Prop where
  npages : (s.objs id).npages ≤ SHM_PAGE_MAX
  unused : (s.objs id).used = false → (s.objs id).attaches = 0 ∧ ∀ k, (s.objs id).pages k = 0
  filling : ∀ t pg, (s.phase t).fills = some (id, pg) → (s.objs id).used = true ∧
    (s.objs id).attaches = 0 ∧ pg < (s.objs id).npages ∧ ∀ k, (s.objs id).pages k ≠ 0 ↔ k < pg
  full : (s.objs id).used = true → ¬ s.Filling id →
    ∀ k, (s.objs id).pages k ≠ 0 ↔ k < (s.objs id).npages

lemma ObjOk.congr {s s' : Sys} {id : ℕ} (h : ObjOk s id) (hobj : s'.objs id = s.objs id)
    (hphase : s'.phase = s.phase) : ObjOk s' id := by
  obtain ⟨hnpages, hunused, hfilling, hfull⟩ := h
  refine ⟨?_, ?_, ?_, ?_⟩
  · rwa [hobj]
  · rwa [hobj]
  · rwa [hobj, hphase]
  · unfold Filling
    rwa [hobj, hphase]

lemma frame_congr {s s' : Sys} (hpages : ∀ id, (s'.objs id).pages = (s.objs id).pages)
    (hphase : s'.phase = s.phase) : s'.frame = s.frame := by
  funext a
  cases a with
  | obj id pg => exact congrFun (hpages id) pg
  | hand t => exact congrArg held (congrFun hphase t)

lemma setSlot_slot (s : Sys) (p : ProcId) (i : Fin PROC_SHM_MAX) (x : Slot) (q : ProcId)
    (j : Fin PROC_SHM_MAX) :
    (s.setSlot p i x).slot q j = if q = p ∧ j = i then x else s.slot q j := by
  show update s.slot p _ q j = _
  rcases eq_or_ne q p with rfl | hqp
  · rw [update_self, update_apply]
    simp
  · rw [update_of_ne hqp, if_neg fun h => hqp h.1]

structure Inv (n : ℕ) (s : Sys) : Prop where
  obj : ∀ id, ObjOk s id
  one : ∀ t u id k k', (s.phase t).fills = some (id, k) → (s.phase u).fills = some (id, k') → t = u
  count : ∀ id, (s.objs id).attaches = slots n s id
  slot : ∀ p i, (s.slot p i).va ≠ 0 → p < n ∧ s.status p ≠ .absent ∧
    (s.objs (s.slot p i).id).used = true ∧ ¬ s.Filling (s.slot p i).id ∧
    (s.slot p i).npages = (s.objs (s.slot p i).id).npages
  space : ∀ p, Space s.objs (s.slot p) (s.maps p)
  ledger : FreeOk s.frame s.free
  distinct : ∀ a b, s.frame a ≠ 0 → s.frame a = s.frame b → a = b

namespace Inv

variable {n : ℕ} {s : Sys} {p : ProcId} {i : Fin PROC_SHM_MAX} {x : Slot}

lemma attached (h : Inv n s) (hi : (s.slot p i).va ≠ 0) :
    (s.objs (s.slot p i).id).attaches ≠ 0 := by
  rw [h.count]
  exact (slots_pos (h.slot p i hi).1 hi).ne'

end Inv

/-! ### Attaching -/

/-- The system after `o` is mapped at the slot `x`. -/
def withSlot (s : Sys) (p : ProcId) (i : Fin PROC_SHM_MAX) (x : Slot) (m : PageMap) : Sys :=
  ((s.setMap p m).setSlot p i x).setObj x.id
    { s.objs x.id with attaches := (s.objs x.id).attaches + 1 }

section

variable (s : Sys) (p : ProcId) (i : Fin PROC_SHM_MAX) (x : Slot)
include s p i x

lemma attachAt_cases (room : ℕ) :
    s.attachAt p i x room = (s, false) ∨ ∃ m,
      Mapped (s.objs x.id) x.va 0 (s.objs x.id).npages (s.maps p) m ∧
        s.attachAt p i x room = (s.withSlot p i x m, true) := by
  unfold attachAt
  rcases shmMapRange_spec (s.objs x.id) x.va room (s.maps p) with ⟨hok, hm⟩ | ⟨hfail, hm⟩
  · refine .inr ⟨_, hm, ?_⟩
    rw [if_pos hok]
    rfl
  · refine .inl ?_
    rw [if_neg (by rw [hfail]; exact Bool.false_ne_true), hm, setMap, update_eq_self]

lemma withSlot_objs (m : PageMap)
    (id : ℕ) : (s.withSlot p i x m).objs id = if id = x.id then
      { s.objs x.id with attaches := (s.objs x.id).attaches + 1 } else s.objs id :=
  update_apply ..

lemma withSlot_slot (m : PageMap)
    (q : ProcId) (j : Fin PROC_SHM_MAX) :
    (s.withSlot p i x m).slot q j = if q = p ∧ j = i then x else s.slot q j :=
  setSlot_slot (s.setMap p m) p i x q j

lemma withSlot_pages (m : PageMap)
    (id : ℕ) : ((s.withSlot p i x m).objs id).pages = (s.objs id).pages := by
  rw [withSlot_objs]
  split_ifs with hid
  · rw [hid]
  · rfl

end

namespace Inv

/-- What an attach needs: a free slot of a process that exists, and an object that nobody is
filling. -/
structure Fits (n : ℕ) (s : Sys) (p : ProcId) (i : Fin PROC_SHM_MAX) (x : Slot) : Prop where
  proc : p < n ∧ s.status p ≠ .absent
  slot : (s.slot p i).va = 0
  va : x.va ≠ 0
  used : (s.objs x.id).used = true
  full : ¬ s.Filling x.id
  npages : x.npages = (s.objs x.id).npages

variable {n : ℕ} {s : Sys} {p : ProcId} {i : Fin PROC_SHM_MAX} {x : Slot}

lemma withSlot (h : Inv n s) (hx : Fits n s p i x) {m : PageMap}
    (hm : Mapped (s.objs x.id) x.va 0 (s.objs x.id).npages (s.maps p) m) :
    Inv n (s.withSlot p i x m) := by
  have hobjs := withSlot_objs s p i x m
  have hslot := withSlot_slot s p i x m
  have hpages := withSlot_pages s p i x m
  have hframe : (s.withSlot p i x m).frame = s.frame := frame_congr hpages rfl
  have hkept : ∀ id, ((s.withSlot p i x m).objs id).used = (s.objs id).used ∧
      ((s.withSlot p i x m).objs id).npages = (s.objs id).npages := by
    intro id
    rw [hobjs]
    split_ifs with hid
    · rw [hid]
      exact ⟨rfl, rfl⟩
    · exact ⟨rfl, rfl⟩
  refine ⟨fun id => ?_, h.one, fun id => ?_, fun q j hq => ?_, fun q => ?_, ?_, ?_⟩
  · rcases eq_or_ne id x.id with rfl | hid
    · have hold := h.obj x.id
      refine ⟨?_, fun hfree => ?_, fun t pg ht => absurd ⟨t, pg, ht⟩ hx.full, fun _ _ => ?_⟩
      · rw [(hkept x.id).2]
        exact hold.npages
      · rw [(hkept x.id).1, hx.used] at hfree
        cases hfree
      · rw [hpages, (hkept x.id).2]
        exact hold.full hx.used hx.full
    · refine (h.obj id).congr ?_ rfl
      rw [hobjs, if_neg hid]
  · have hsum := slots_setSlot (s.setMap p m) hx.proc.1 i x id
    have hfree : ((s.setMap p m).slot p i).va = 0 := hx.slot
    rw [if_neg (fun hc => hc.1 hfree), Nat.add_zero] at hsum
    have hcount : (s.objs id).attaches = slots n (s.setMap p m) id := h.count id
    have hnew : slots n (s.withSlot p i x m) id = slots n ((s.setMap p m).setSlot p i x) id := rfl
    rw [hobjs, hnew, hsum, ← hcount]
    rcases eq_or_ne id x.id with rfl | hid
    · rw [if_pos rfl, if_pos ⟨hx.va, rfl⟩]
    · rw [if_neg hid, if_neg (fun hc => hid hc.2.symm), Nat.add_zero]
  · rw [hslot] at hq ⊢
    rw [(hkept _).1, (hkept _).2]
    split_ifs with hqj
    · rw [hqj.1]
      exact ⟨hx.proc.1, hx.proc.2, hx.used, hx.full, hx.npages⟩
    · rw [if_neg hqj] at hq
      exact h.slot q j hq
  · rcases eq_or_ne q p with rfl | hqp
    · have hspace : Space s.objs (update (s.slot q) i x) m := by
        refine (h.space q).add hx.slot hx.va ?_
        rw [hx.npages]
        exact hm
      have hslots : (s.withSlot q i x m).slot q = update (s.slot q) i x :=
        update_self ..
      have hmaps : (s.withSlot q i x m).maps q = m := update_self ..
      rw [hslots, hmaps]
      exact hspace.congr fun _ _ => hpages _
    · have hslots : (s.withSlot p i x m).slot q = s.slot q := update_of_ne hqp ..
      have hmaps : (s.withSlot p i x m).maps q = s.maps q := update_of_ne hqp ..
      rw [hslots, hmaps]
      exact (h.space q).congr fun _ _ => hpages _
  · rw [hframe]
    exact h.ledger
  · rw [hframe]
    exact h.distinct

lemma attachAt (h : Inv n s) (hx : Fits n s p i x) (room : ℕ) :
    Inv n (s.attachAt p i x room).1 := by
  rcases attachAt_cases s p i x room with heq | ⟨m, hm, heq⟩
  · rw [heq]
    exact h
  · rw [heq]
    exact h.withSlot hx hm

end Inv

/-! ### Detaching -/

variable {free : List ℕ}

/-- Owners that give frames back keep the ledger. -/
lemma FreeOk.release {own : Owner → ℕ} (h : FreeOk own free)
    (own' : Owner → ℕ) (free' : List ℕ)
    (hd : ∀ a b, own a ≠ 0 → own a = own b → a = b) (hown : ∀ a, own' a = own a ∨ own' a = 0)
    (hfree : ∀ f ∈ free', f ∈ free ∨ f ≠ 0 ∧ ∃ a, own a = f ∧ own' a = 0)
    (hnodup : free'.Nodup) :
    FreeOk own' free' ∧ ∀ a b, own' a ≠ 0 → own' a = own' b → a = b := by
  have hpos : 0 ∉ free' := by
    intro hzero
    rcases hfree 0 hzero with hold | ⟨hne, _⟩
    · exact h.pos hold
    · exact hne rfl
  have hkept : ∀ a, own' a ≠ 0 → own' a = own a := fun a ha => (hown a).resolve_right ha
  refine ⟨⟨hnodup, hpos, fun a ha => ?_⟩, fun a b ha heq => ?_⟩
  · have hne : own' a ≠ 0 := by
      intro hzero
      rw [hzero] at ha
      exact hpos ha
    rcases hfree _ ha with hold | ⟨_, b, hb, hzero⟩
    · rw [hkept a hne] at hold
      exact h.apart a hold
    · rw [hkept a hne] at hb
      have hba : a = b := hd a b (by rw [← hkept a hne]; exact hne) hb.symm
      rw [hba] at hne
      exact hne hzero
  · have hb : own' b ≠ 0 := by rwa [← heq]
    rw [hkept a ha, hkept b hb] at heq
    rw [hkept a ha] at ha
    exact hd a b ha heq

/-- So does an owner that hands its frame to another one. -/
lemma FreeOk.move {own : Owner → ℕ} {a b : Owner} (h : FreeOk own free)
    (own' : Owner → ℕ) (hd : ∀ a b, own a ≠ 0 → own a = own b → a = b)
    (ha : own' a = own b)
    (hb : own' b = 0) (hrest : ∀ c, c ≠ a → c ≠ b → own' c = own c) :
    FreeOk own' free ∧ ∀ c d, own' c ≠ 0 → own' c = own' d → c = d := by
  -- an owner of a frame had it before, or it is `a` and `b` had it
  have hfrom : ∀ c, own' c ≠ 0 → c = a ∧ own' c = own b ∨ c ≠ b ∧ c ≠ a ∧ own' c = own c := by
    intro c hc
    rcases eq_or_ne c a with rfl | hca
    · exact .inl ⟨rfl, ha⟩
    · have hcb : c ≠ b := by
        rintro rfl
        exact hc hb
      exact .inr ⟨hcb, hca, hrest c hca hcb⟩
  refine ⟨⟨h.nodup, h.pos, fun c hc => ?_⟩, fun c d hc heq => ?_⟩
  · by_cases hzero : own' c = 0
    · rw [hzero] at hc
      exact h.pos hc
    rcases hfrom c hzero with ⟨_, hfr⟩ | ⟨_, _, hfr⟩
    · rw [hfr] at hc
      exact h.apart b hc
    · rw [hfr] at hc
      exact h.apart c hc
  · have hne : own' d ≠ 0 := by rwa [← heq]
    rcases hfrom c hc with ⟨rfl, hfr⟩ | ⟨hcb, _, hfr⟩
    · rcases hfrom d hne with ⟨rfl, _⟩ | ⟨hdb, _, hfr'⟩
      · rfl
      · rw [hfr, hfr'] at heq
        rw [hfr] at hc
        exact absurd (hd b d hc heq).symm hdb
    · rcases hfrom d hne with ⟨rfl, hfr'⟩ | ⟨_, _, hfr'⟩
      · rw [hfr, hfr'] at heq
        rw [hfr] at hc
        exact absurd (hd c b hc heq) hcb
      · rw [hfr, hfr'] at heq
        rw [hfr] at hc
        exact hd c d hc heq

/-- The system after the slot `i` is dropped, its object is `o` and the free list is `free`. -/
def dropSlot (s : Sys) (p : ProcId) (i : Fin PROC_SHM_MAX) (o : ShmObj) (free : List ℕ) : Sys :=
  (((s.setMap p (shmUnmapRange (s.objs (s.slot p i).id) (s.slot p i).va (s.maps p))).setSlot p i
    Slot.zero).setObj (s.slot p i).id o).setFree free

/-- What `shm_do_detach` leaves of an object and of the free list: one mapping less, or nothing
if it was the last one. -/
inductive Detached (o : ShmObj) (free : List ℕ) : ShmObj → List ℕ → Prop
  | kept (hmore : o.attaches - 1 ≠ 0) :
    Detached o free { o with attaches := o.attaches - 1 } free
  | freed (hlast : o.attaches - 1 = 0) (pages : ℕ → ℕ) (free' : List ℕ)
    (hback : Returned (List.range SHM_PAGE_MAX) o.pages free pages free') :
    Detached o free ⟨false, 0, pages, 0⟩ free'

namespace Inv

variable {n : ℕ} {s : Sys} {p : ProcId} {i : Fin PROC_SHM_MAX} {x : Slot}

lemma distinct_pages (h : Inv n s) (id : ℕ) : Distinct (s.objs id).pages := by
  intro k j hk heq
  have hkj := h.distinct (.obj id k) (.obj id j) hk heq
  injection hkj

lemma doDetach_cases (h : Inv n s) (hi : (s.slot p i).va ≠ 0) :
    ∃ o free, Detached (s.objs (s.slot p i).id) s.free o free ∧
      s.shmDoDetach p i = s.dropSlot p i o free := by
  unfold Sys.shmDoDetach
  rw [if_neg hi]
  dsimp only
  split_ifs with hlast
  · refine ⟨_, _, .freed hlast _ _ (freePages_spec _ (h.distinct_pages _)
      (fun k => h.ledger.apart (.obj _ k)) h.ledger.pos h.ledger.nodup), ?_⟩
    rw [hlast]
    rfl
  · exact ⟨_, _, .kept hlast, rfl⟩

/-- The last mapping takes the object with it. -/
lemma dropSlot (h : Inv n s) (hi : (s.slot p i).va ≠ 0) {o : ShmObj} {free : List ℕ}
    (hd : Detached (s.objs (s.slot p i).id) s.free o free) : Inv n (s.dropSlot p i o free) := by
  obtain ⟨hp, _, hused, hfull, hnpages⟩ := h.slot p i hi
  set id := (s.slot p i).id with hid
  have hobjs : ∀ j, (s.dropSlot p i o free).objs j = if j = id then o else s.objs j :=
    fun j => update_apply ..
  have hslot : ∀ q j, (s.dropSlot p i o free).slot q j
      = if q = p ∧ j = i then Slot.zero else s.slot q j := by
    intro q j
    exact setSlot_slot (s.setMap p _) p i Slot.zero q j
  have hpages := (h.obj id).full hused hfull
  -- one slot less names the object
  have hcount : ∀ j, slots n (s.dropSlot p i o free) j + (if id = j then 1 else 0)
      = slots n s j := by
    intro j
    have hsum := slots_setSlot
      (s.setMap p (shmUnmapRange (s.objs (s.slot p i).id) (s.slot p i).va (s.maps p))) hp i
      Slot.zero j
    rw [if_neg (fun hc : Slot.zero.va ≠ 0 ∧ _ => hc.1 rfl), Nat.add_zero] at hsum
    refine Eq.trans ?_ hsum
    congr 1
    refine if_congr ?_ rfl rfl
    exact ⟨fun hj => ⟨hi, hj⟩, fun hj => hj.2⟩
  have hattaches : o.attaches = (s.objs id).attaches - 1 := by
    cases hd with
    | kept => rfl
    | freed hlast => exact hlast.symm
  -- another slot that names it keeps it alive
  have hother : ∀ q j, ((s.dropSlot p i o free).slot q j).va ≠ 0 →
      ((s.dropSlot p i o free).slot q j).id = id →
      o = { s.objs id with attaches := (s.objs id).attaches - 1 } := by
    intro q j hq hqid
    cases hd with
    | kept => rfl
    | freed hlast =>
      have hlt : q < n := by
        rw [hslot] at hq
        split_ifs at hq with hqj
        · exact absurd rfl hq
        · exact (h.slot q j hq).1
      have hpos := slots_pos (n := n) hlt hq
      have hone := hcount id
      rw [hqid] at hpos
      rw [if_pos rfl, ← h.count id] at hone
      omega
  have hsame : ∀ j, (j = id → o = { s.objs id with attaches := (s.objs id).attaches - 1 }) →
      ((s.dropSlot p i o free).objs j).pages = (s.objs j).pages ∧
      ((s.dropSlot p i o free).objs j).used = (s.objs j).used ∧
      ((s.dropSlot p i o free).objs j).npages = (s.objs j).npages := by
    intro j hj
    rw [hobjs]
    split_ifs with hjid
    · rw [hj hjid, hjid]
      exact ⟨rfl, rfl, rfl⟩
    · exact ⟨rfl, rfl, rfl⟩
  have hgone : o.used = false → ∀ k, o.pages k = 0 := by
    intro hunused k
    cases hd with
    | kept => cases hused.symm.trans hunused
    | freed hlast pages _ hback =>
      refine (hback.clear k).trans ?_
      split_ifs with hk
      · rfl
      · by_contra hne
        have hlt := (hpages k).mp hne
        have hle := (h.obj id).npages
        rw [mem_range] at hk
        omega
  have hledger : FreeOk (s.dropSlot p i o free).frame free ∧ ∀ a b,
      (s.dropSlot p i o free).frame a ≠ 0 →
        (s.dropSlot p i o free).frame a = (s.dropSlot p i o free).frame b → a = b := by
    cases hd with
    | kept hmore =>
      have hframe : (s.dropSlot p i
          { s.objs id with attaches := (s.objs id).attaches - 1 } s.free).frame = s.frame :=
        frame_congr (fun j => (hsame j fun _ => rfl).1) rfl
      rw [hframe]
      exact ⟨h.ledger, h.distinct⟩
    | freed hlast pages _ hback =>
      refine h.ledger.release _ _ h.distinct (fun a => ?_) (fun f hf => ?_) hback.nodup
      · cases a with
        | obj j k =>
          show ((s.dropSlot p i ⟨false, 0, pages, 0⟩ free).objs j).pages k = _ ∨
            ((s.dropSlot p i ⟨false, 0, pages, 0⟩ free).objs j).pages k = 0
          rw [hobjs]
          split_ifs with hj
          · exact .inr (hgone rfl k)
          · exact .inl rfl
        | hand t => exact .inl rfl
      · rcases (hback.mem f).mp hf with hold | ⟨hne, k, _, hk⟩
        · exact .inl hold
        · refine .inr ⟨hne, .obj id k, hk, ?_⟩
          show ((s.dropSlot p i ⟨false, 0, pages, 0⟩ free).objs id).pages k = 0
          rw [hobjs, if_pos rfl]
          exact hgone rfl k
  refine ⟨fun j => ?_, h.one, fun j => ?_, fun q j hq => ?_, fun q => ?_, hledger.1, hledger.2⟩
  · by_cases hj : j = id
    · subst hj
      have hobj : (s.dropSlot p i o free).objs (s.slot p i).id = o := by
        rw [hobjs, if_pos hid]
      refine ⟨?_, ?_, fun t pg ht => absurd ⟨t, pg, ht⟩ hfull, ?_⟩
      · rw [hobj]
        cases hd with
        | kept => exact (h.obj _).npages
        | freed => exact Nat.zero_le _
      · rw [hobj]
        intro hunused
        refine ⟨?_, hgone hunused⟩
        cases hd with
        | kept => cases hused.symm.trans hunused
        | freed => rfl
      · rw [hobj]
        intro huse _
        cases hd with
        | kept => exact hpages
        | freed => cases huse
    · refine (h.obj j).congr ?_ rfl
      rw [hobjs, if_neg hj]
  · have hj := hcount j
    rw [← h.count j] at hj
    rw [hobjs]
    split_ifs with hjid
    · subst hjid
      rw [if_pos hid] at hj
      omega
    · rw [if_neg (Ne.symm hjid)] at hj
      exact hj.symm
  · have hne := hother q j hq
    rw [hslot] at hq hne ⊢
    split_ifs at hq with hqj
    · exact absurd rfl hq
    rw [if_neg hqj] at hne ⊢
    obtain ⟨hqn, hstatus, huse, hnot, hnp⟩ := h.slot q j hq
    obtain ⟨_, hu, hn⟩ := hsame (s.slot q j).id hne
    exact ⟨hqn, hstatus, hu.trans huse, hnot, hnp.trans hn.symm⟩
  · have hspace : Space s.objs ((s.dropSlot p i o free).slot q) ((s.dropSlot p i o free).maps q) := by
      rcases eq_or_ne q p with rfl | hqp
      · have hslots : (s.dropSlot q i o free).slot q = update (s.slot q) i Slot.zero :=
          update_self ..
        have hmaps : (s.dropSlot q i o free).maps q
            = shmUnmapRange (s.objs id) (s.slot q i).va (s.maps q) := update_self ..
        rw [hslots, hmaps]
        refine (h.space q).remove hi fun v => ?_
        rw [shmUnmapRange_spec, hnpages]
      · have hslots : (s.dropSlot p i o free).slot q = s.slot q := update_of_ne hqp ..
        have hmaps : (s.dropSlot p i o free).maps q = s.maps q := update_of_ne hqp ..
        rw [hslots, hmaps]
        exact h.space q
    exact hspace.congr fun j hj => (hsame _ (hother q j hj)).1

lemma doDetach (h : Inv n s) (p : ProcId) (i : Fin PROC_SHM_MAX) : Inv n (s.shmDoDetach p i) := by
  by_cases hi : (s.slot p i).va = 0
  · unfold Sys.shmDoDetach
    rw [if_pos hi]
    exact h
  · obtain ⟨o, free, hd, heq⟩ := h.doDetach_cases hi
    rw [heq]
    exact h.dropSlot hi hd

lemma congr {s' : Sys} (h : Inv n s) (hobjs : s'.objs = s.objs) (hphase : s'.phase = s.phase)
    (hslot : s'.slot = s.slot) (hmaps : s'.maps = s.maps) (hstatus : s'.status = s.status)
    (hfree : s'.free = s.free) : Inv n s' := by
  have hframe : s'.frame = s.frame := frame_congr (fun _ => by rw [hobjs]) hphase
  refine ⟨fun id => (h.obj id).congr (by rw [hobjs]) hphase, ?_, fun id => ?_, ?_, ?_, ?_, ?_⟩
  · rw [hphase]
    exact h.one
  · unfold slots
    rw [hobjs, hslot]
    exact h.count id
  · unfold Filling
    rw [hobjs, hslot, hstatus, hphase]
    exact h.slot
  · rw [hobjs, hslot, hmaps]
    exact h.space
  · rw [hframe, hfree]
    exact h.ledger
  · rw [hframe]
    exact h.distinct

/-- A process may be in any stage of its life but gone. -/
lemma setStatus {x : Status} (h : Inv n s) (p : ProcId) (hx : x ≠ .absent) :
    Inv n (s.setStatus p x) := by
  refine ⟨fun id => (h.obj id).congr rfl rfl, h.one, h.count, fun q j hq => ?_, h.space, ?_, ?_⟩
  · obtain ⟨hqn, hstatus, hrest⟩ := h.slot q j hq
    refine ⟨hqn, ?_, hrest⟩
    show update s.status p x q ≠ .absent
    rcases eq_or_ne q p with rfl | hqp
    · rw [update_self]
      exact hx
    · rw [update_of_ne hqp]
      exact hstatus
  · have hframe : (s.setStatus p x).frame = s.frame := frame_congr (fun _ => rfl) rfl
    rw [hframe]
    exact h.ledger
  · have hframe : (s.setStatus p x).frame = s.frame := frame_congr (fun _ => rfl) rfl
    rw [hframe]
    exact h.distinct

/-- A process without mappings goes. -/
lemma dropProc (h : Inv n s) (hempty : ∀ i, (s.slot p i).va = 0) : Inv n (s.dropProc p) := by
  have hframe : (s.dropProc p).frame = s.frame := frame_congr (fun _ => rfl) rfl
  have hslot : ∀ q, q ≠ p → (s.dropProc p).slot q = s.slot q :=
    fun q hq => update_of_ne hq ..
  have hgone : (s.dropProc p).slot p = fun _ => Slot.zero := update_self ..
  refine ⟨fun id => (h.obj id).congr rfl rfl, h.one, fun id => ?_, fun q j hq => ?_, fun q => ?_,
    ?_, ?_⟩
  · refine (h.count id).trans (Finset.sum_congr rfl fun q _ => ?_)
    rcases eq_or_ne q p with rfl | hqp
    · rw [hgone]
      refine (Finset.sum_eq_zero fun j _ => ?_).trans (Finset.sum_eq_zero fun j _ => ?_).symm
      · rw [if_neg fun hc => hc.1 (hempty j)]
      · rw [if_neg fun hc => hc.1 rfl]
    · rw [hslot q hqp]
  · have hqp : q ≠ p := by
      rintro rfl
      rw [hgone] at hq
      exact hq rfl
    rw [hslot q hqp] at hq ⊢
    obtain ⟨hqn, hstatus, hrest⟩ := h.slot q j hq
    refine ⟨hqn, ?_, hrest⟩
    show update s.status p .absent q ≠ .absent
    rwa [update_of_ne hqp]
  · rcases eq_or_ne q p with rfl | hqp
    · have hmaps : (s.dropProc q).maps q = fun _ => none := update_self ..
      rw [hgone, hmaps]
      exact Space.empty _
    · have hmaps : (s.dropProc p).maps q = s.maps q := update_of_ne hqp ..
      rw [hslot q hqp, hmaps]
      exact h.space q
  · rw [hframe]
    exact h.ledger
  · rw [hframe]
    exact h.distinct

end Inv

/-! ### Loops over the slots -/

lemma shmDoDetach_va (s : Sys) (p : ProcId) (i : Fin PROC_SHM_MAX) (q : ProcId)
    (j : Fin PROC_SHM_MAX) :
    ((s.shmDoDetach p i).slot q j).va = if q = p ∧ j = i then 0 else (s.slot q j).va := by
  have hset : ∀ m : PageMap, ((((s.setMap p m).setSlot p i Slot.zero).slot q j).va)
      = if q = p ∧ j = i then 0 else (s.slot q j).va := by
    intro m
    rw [setSlot_slot]
    split_ifs
    · rfl
    · rfl
  unfold shmDoDetach
  by_cases hva : (s.slot p i).va = 0
  · rw [if_pos hva]
    split_ifs with hqj
    · rw [hqj.1, hqj.2]
      exact hva
    · rfl
  · rw [if_neg hva]
    by_cases hlast : (s.objs (s.slot p i).id).attaches - 1 = 0
    · rw [if_pos hlast]
      exact hset _
    · rw [if_neg hlast]
      exact hset _

/-- What happens to the objects in a loop that detaches, or that attaches what is attached
already: they live on, or they die with their last mapping. -/
structure Evolves (s₀ s : Sys) : Prop where
  phase : s.phase = s₀.phase
  filling : ∀ id, s₀.Filling id → s.objs id = s₀.objs id
  fate : ∀ id, (s₀.objs id).used = true → ¬ s₀.Filling id →
    (s.objs id).pages = (s₀.objs id).pages ∧ (s.objs id).used = true ∧
        ((s.objs id).attaches = 0 ↔ (s₀.objs id).attaches = 0) ∨
      (s₀.objs id).attaches ≠ 0 ∧ (s.objs id).used = false ∧ (s.objs id).attaches = 0 ∧
        ∀ k, (s₀.objs id).pages k ≠ 0 → (s₀.objs id).pages k ∈ s.free

namespace Evolves

variable {n : ℕ} {s₀ s : Sys} {p : ProcId} {i : Fin PROC_SHM_MAX} {x : Slot}

lemma refl (s : Sys) : Evolves s s :=
  ⟨rfl, fun _ _ => rfl, fun _ hused _ => .inl ⟨rfl, hused, Iff.rfl⟩⟩

lemma filling_iff (h : Evolves s₀ s) (id : ℕ) : s.Filling id ↔ s₀.Filling id := by
  unfold Filling
  rw [h.phase]

lemma detach (h : Evolves s₀ s) (hinv : Inv n s) (p : ProcId) (i : Fin PROC_SHM_MAX) :
    Evolves s₀ (s.shmDoDetach p i) := by
  by_cases hi : (s.slot p i).va = 0
  · unfold shmDoDetach
    rw [if_pos hi]
    exact h
  obtain ⟨o, free, hd, heq⟩ := hinv.doDetach_cases hi
  obtain ⟨_, _, hused, hfull, _⟩ := hinv.slot p i hi
  have hattached := hinv.attached hi
  rw [heq]
  set id := (s.slot p i).id with hid
  have hobjs : ∀ j, (s.dropSlot p i o free).objs j = if j = id then o else s.objs j :=
    fun j => update_apply ..
  have hgrows : ∀ f ∈ s.free, f ∈ free := by
    intro f hf
    cases hd with
    | kept => exact hf
    | freed _ pages _ hback => exact (hback.mem f).mpr (.inl hf)
  refine ⟨h.phase, fun j hj => ?_, fun j huse hnot => ?_⟩
  · rw [hobjs, if_neg]
    · exact h.filling j hj
    · rintro rfl
      exact hfull ((h.filling_iff id).mpr hj)
  · rcases eq_or_ne j id with rfl | hjid
    · rw [hobjs, if_pos rfl]
      rcases h.fate id huse hnot with ⟨hpages, _, hiff⟩ | ⟨_, hunused, _⟩
      · have hold : (s₀.objs id).attaches ≠ 0 := fun hzero => hattached (hiff.mpr hzero)
        cases hd with
        | kept hmore => exact .inl ⟨hpages, hused, fun hzero => absurd hzero hmore,
            fun hzero => absurd hzero hold⟩
        | freed _ pages _ hback =>
          refine .inr ⟨hold, rfl, rfl, fun k hk => ?_⟩
          rw [← hpages] at hk ⊢
          have hlt := ((hinv.obj id).full hused hfull k).mp hk
          have hle := (hinv.obj id).npages
          exact (hback.mem _).mpr (.inr ⟨hk, k, mem_range.mpr (by omega), rfl⟩)
      · cases hused.symm.trans hunused
    · rw [hobjs, if_neg hjid]
      rcases h.fate j huse hnot with hlive | ⟨hatt, hunused, hzero, hfree⟩
      · exact .inl hlive
      · exact .inr ⟨hatt, hunused, hzero, fun k hk => hgrows _ (hfree k hk)⟩

lemma attach (h : Evolves s₀ s) (hused : (s.objs x.id).used = true) (hfull : ¬ s.Filling x.id)
    (hattached : (s.objs x.id).attaches ≠ 0) (room : ℕ) :
    Evolves s₀ (s.attachAt p i x room).1 := by
  rcases attachAt_cases s p i x room with heq | ⟨m, _, heq⟩
  · rw [heq]
    exact h
  rw [heq]
  have hobjs := withSlot_objs s p i x m
  refine ⟨h.phase, fun j hj => ?_, fun j huse hnot => ?_⟩
  · rw [hobjs, if_neg]
    · exact h.filling j hj
    · rintro rfl
      exact hfull ((h.filling_iff _).mpr hj)
  · rw [hobjs]
    split_ifs with hj
    · subst hj
      rcases h.fate _ huse hnot with ⟨hpages, _, hiff⟩ | ⟨_, hunused, _⟩
      · exact .inl ⟨hpages, hused, nofun, fun hzero => absurd (hiff.mpr hzero) hattached⟩
      · cases hused.symm.trans hunused
    · exact h.fate j huse hnot

end Evolves

namespace Inv

variable {n : ℕ} {s₀ s : Sys} {p child : ProcId}

/-- `shm_do_detach` of some slots of a process. -/
lemma detach_foldl (h : Inv n s) (he : Evolves s₀ s) (is : List (Fin PROC_SHM_MAX)) :
    Inv n (is.foldl (fun s i => s.shmDoDetach p i) s) ∧
      Evolves s₀ (is.foldl (fun s i => s.shmDoDetach p i) s) ∧
      ∀ j, ((is.foldl (fun s i => s.shmDoDetach p i) s).slot p j).va
        = if j ∈ is then 0 else (s.slot p j).va := by
  induction is generalizing s with
  | nil => exact ⟨h, he, fun _ => by simp⟩
  | cons i is ih =>
    rw [foldl_cons]
    obtain ⟨hinv, hev, hva⟩ := ih (h.doDetach p i) (he.detach h p i)
    refine ⟨hinv, hev, fun j => ?_⟩
    rw [hva j, shmDoDetach_va]
    simp only [true_and, mem_cons]
    split_ifs <;> first | rfl | tauto

lemma detachAll (h : Inv n s) (he : Evolves s₀ s) (p : ProcId) :
    Inv n (s.detachAll p) ∧ Evolves s₀ (s.detachAll p) ∧
      ∀ j, ((s.detachAll p).slot p j).va = 0 := by
  obtain ⟨hinv, hev, hva⟩ := h.detach_foldl (p := p) he (List.finRange PROC_SHM_MAX)
  unfold Sys.detachAll
  refine ⟨hinv, hev, fun j => ?_⟩
  have hj := hva j
  rw [if_pos (List.mem_finRange j)] at hj
  exact hj

/-- The loop of `ipc_proc_fork` over slots that the child does not use yet. -/
lemma forkLoop (h : Inv n s) (he : Evolves s₀ s) (hchild : child < n ∧ s.status child ≠ .absent)
    (parent : ProcId) (room : Fin PROC_SHM_MAX → ℕ) {is : List (Fin PROC_SHM_MAX)}
    (hnodup : is.Nodup) (hfree : ∀ i ∈ is, (s.slot child i).va = 0) :
    Inv n (Sys.forkLoop child parent room is s).1 ∧
      Evolves s₀ (Sys.forkLoop child parent room is s).1 := by
  induction is generalizing s with
  | nil => exact ⟨h, he⟩
  | cons i is ih =>
    obtain ⟨hi, hnodup⟩ := nodup_cons.mp hnodup
    rw [Sys.forkLoop]
    dsimp only
    split_ifs with hskip hok
    · exact ih h he hchild hnodup fun j hj => hfree j (List.mem_cons_of_mem i hj)
    · rw [not_or] at hskip
      obtain ⟨_, _, hused, hfull, hnpages⟩ := h.slot parent i hskip.1
      have hfits : Fits n s child i (s.slot parent i) :=
        ⟨hchild, hfree i List.mem_cons_self, hskip.1, hused, hfull, hnpages⟩
      have hinv := h.attachAt hfits (room i)
      have hev := he.attach (p := child) (i := i) hused hfull (h.attached hskip.1) (room i)
      rcases attachAt_cases s child i (s.slot parent i) (room i) with heq | ⟨m, _, heq⟩
      · rw [heq] at hok
        cases hok
      · rw [heq] at hinv hev ⊢
        refine ih hinv hev hchild hnodup fun j hj => ?_
        rw [withSlot_slot, if_neg]
        · exact hfree j (List.mem_cons_of_mem i hj)
        · rintro ⟨_, rfl⟩
          exact hi hj
    · rw [not_or] at hskip
      obtain ⟨_, _, hused, hfull, hnpages⟩ := h.slot parent i hskip.1
      have hfits : Fits n s child i (s.slot parent i) :=
        ⟨hchild, hfree i List.mem_cons_self, hskip.1, hused, hfull, hnpages⟩
      exact ⟨h.attachAt hfits (room i),
        he.attach (p := child) (i := i) hused hfull (h.attached hskip.1) (room i)⟩

/-! ### Creating -/

variable {t : Task}

/-- A section of `shm_create` that leaves every other task and every slot alone. -/
lemma creating (h : Inv n s) {s' : Sys} {id : ℕ}
    (hobjs : ∀ j, j ≠ id → s'.objs j = s.objs j)
    (hphase : ∀ u, u ≠ t → s'.phase u = s.phase u) (hslot : s'.slot = s.slot)
    (hmaps : s'.maps = s.maps) (hstatus : s'.status = s.status)
    (hbefore : ∀ j k, (s.phase t).fills = some (j, k) → j = id)
    (hafter : ∀ j k, (s'.phase t).fills = some (j, k) → j = id)
    (halone : ∀ u k, u ≠ t → (s.phase u).fills ≠ some (id, k))
    (hnone : ∀ p i, (s.slot p i).va ≠ 0 → (s.slot p i).id ≠ id)
    (hattaches : (s'.objs id).attaches = (s.objs id).attaches) (hobj : ObjOk s' id)
    (hledger : FreeOk s'.frame s'.free)
    (hdistinct : ∀ a b, s'.frame a ≠ 0 → s'.frame a = s'.frame b → a = b) : Inv n s' := by
  have hfills : ∀ u j k, j ≠ id →
      ((s'.phase u).fills = some (j, k) ↔ (s.phase u).fills = some (j, k)) := by
    intro u j k hj
    rcases eq_or_ne u t with rfl | hu
    · exact ⟨fun hf => absurd (hafter j k hf) hj, fun hf => absurd (hbefore j k hf) hj⟩
    · rw [hphase u hu]
  have hfilling : ∀ j, j ≠ id → (s'.Filling j ↔ s.Filling j) := fun j hj =>
    exists_congr fun u => exists_congr fun k => hfills u j k hj
  refine ⟨fun j => ?_, fun u v j k k' hu hv => ?_, fun j => ?_, fun p i hi => ?_, fun p => ?_,
    hledger, hdistinct⟩
  · rcases eq_or_ne j id with rfl | hj
    · exact hobj
    · obtain ⟨hnpages, hunused, hfill, hfull⟩ := h.obj j
      refine ⟨?_, ?_, fun u k hu => ?_, ?_⟩
      · rwa [hobjs j hj]
      · rwa [hobjs j hj]
      · rw [hobjs j hj]
        exact hfill u k ((hfills u j k hj).mp hu)
      · rw [hobjs j hj, hfilling j hj]
        exact hfull
  · rcases eq_or_ne j id with rfl | hj
    · have honly : ∀ w k, (s'.phase w).fills = some (j, k) → w = t := by
        intro w k hw
        by_contra hwt
        rw [hphase w hwt] at hw
        exact halone w k hwt hw
      rw [honly u k hu, honly v k' hv]
    · exact h.one u v j k k' ((hfills u j k hj).mp hu) ((hfills v j k' hj).mp hv)
  · have hslots : slots n s' j = slots n s j := by
      unfold slots
      rw [hslot]
    rw [hslots]
    rcases eq_or_ne j id with rfl | hj
    · rw [hattaches]
      exact h.count j
    · rw [hobjs j hj]
      exact h.count j
  · rw [hslot] at hi ⊢
    obtain ⟨hp, hlive, hused, hfull, hnpages⟩ := h.slot p i hi
    have hne := hnone p i hi
    rw [hstatus, hobjs _ hne, hfilling _ hne]
    exact ⟨hp, hlive, hused, hfull, hnpages⟩
  · rw [hslot, hmaps]
    exact (h.space p).congr fun i hi => by rw [hobjs _ (hnone p i hi)]

/-- No slot names an object that somebody is filling, or one that is not in use. -/
lemma not_named (h : Inv n s) {id : ℕ} (hid : (s.objs id).used = false ∨ s.Filling id) (p : ProcId)
    (i : Fin PROC_SHM_MAX) (hi : (s.slot p i).va ≠ 0) : (s.slot p i).id ≠ id := by
  rintro rfl
  obtain ⟨_, _, hused, hfull, _⟩ := h.slot p i hi
  rcases hid with hfree | hfill
  · cases hused.symm.trans hfree
  · exact hfull hfill

lemma phase_self (s : Sys) (t : Task) (x : Phase) : (s.setPhase t x).phase t = x :=
  update_self ..

lemma phase_ne (s : Sys) {u : Task} (x : Phase) (h : u ≠ t) :
    (s.setPhase t x).phase u = s.phase u := update_of_ne h ..

lemma create (h : Inv n s) {npages : ℕ} (ht : s.phase t = .idle) :
    Inv n (s.shmCreate t npages) := by
  unfold shmCreate
  split_ifs with hsize
  · exact h
  rw [not_or] at hsize
  cases hfind : (List.range SHM_OBJS_MAX).find? fun id => !(s.objs id).used with
  | none => exact h
  | some id =>
    have hunused : (s.objs id).used = false := by simpa using List.find?_some hfind
    obtain ⟨hzero, hpages⟩ := (h.obj id).unused hunused
    have hself : ((s.setObj id ⟨true, npages, fun _ => 0, 0⟩).setPhase t (.filling id 0)).objs id
        = ⟨true, npages, fun _ => 0, 0⟩ := update_self ..
    have hphase := phase_self (s.setObj id ⟨true, npages, fun _ => 0, 0⟩) t (.filling id 0)
    have halone : ∀ u k, (s.phase u).fills ≠ some (id, k) := by
      intro u k hu
      cases hunused.symm.trans ((h.obj id).filling u k hu).1
    have hframe : ((s.setObj id ⟨true, npages, fun _ => 0, 0⟩).setPhase t (.filling id 0)).frame
        = s.frame := by
      funext a
      cases a with
      | obj j k =>
        show (update s.objs id _ j).pages k = _
        rcases eq_or_ne j id with rfl | hj
        · rw [update_self]
          exact (hpages k).symm
        · rw [update_of_ne hj]
          rfl
      | hand u =>
        show held _ = held (s.phase u)
        rcases eq_or_ne u t with rfl | hu
        · rw [hphase, ht]
          rfl
        · rw [phase_ne _ _ hu]
          rfl
    refine h.creating (t := t) (fun j hj => update_of_ne hj ..)
      (fun u hu => phase_ne _ _ hu) rfl rfl rfl ?_ ?_ (fun u k _ => halone u k)
      (h.not_named (.inl hunused)) ?_ ⟨?_, ?_, fun u pg hu => ?_, ?_⟩ ?_ ?_
    · rw [ht]
      exact nofun
    · rw [hphase]
      rintro j k ⟨⟩
      rfl
    · rw [hself]
      exact hzero.symm
    · rw [hself]
      exact Nat.not_lt.mp hsize.2
    · rw [hself]
      exact nofun
    · rw [hself]
      rcases eq_or_ne u t with rfl | hut
      · rw [hphase] at hu
        cases hu
        refine ⟨rfl, rfl, Nat.pos_of_ne_zero hsize.1, fun k => ?_⟩
        simp
      · rw [phase_ne _ _ hut] at hu
        exact absurd hu (halone u pg)
    · exact fun _ hfull => absurd ⟨t, 0, by rw [hphase]; rfl⟩ hfull
    · rw [hframe]
      exact h.ledger
    · rw [hframe]
      exact h.distinct

/-- The task takes the answer of the PMM in its hand. -/
lemma alloc (h : Inv n s) {id pg : ℕ} (ht : s.phase t = .filling id pg) {fr : ℕ}
    {free : List ℕ} (hfr : fr = 0 ∧ free = s.free ∨ s.free = fr :: free) :
    Inv n ((s.setFree free).setPhase t (.gotten id pg fr)) := by
  have hphase := phase_self (s.setFree free) t (.gotten id pg fr)
  have hfills : ∀ u, (((s.setFree free).setPhase t (.gotten id pg fr)).phase u).fills
      = (s.phase u).fills := by
    intro u
    rcases eq_or_ne u t with rfl | hu
    · rw [hphase, ht]
      rfl
    · rw [phase_ne _ _ hu]
      rfl
  have hmine : (s.phase t).fills = some (id, pg) := by
    rw [ht]
    rfl
  have hfilling : ∀ j, ((s.setFree free).setPhase t (.gotten id pg fr)).Filling j ↔ s.Filling j :=
    fun j => exists_congr fun u => exists_congr fun k => by rw [hfills]
  have hframe : ∀ a, ((s.setFree free).setPhase t (.gotten id pg fr)).frame a
      = if a = .hand t then fr else s.frame a := by
    intro a
    cases a with
    | obj j k =>
      rw [if_neg nofun]
      rfl
    | hand u =>
      show held _ = _
      rcases eq_or_ne u t with rfl | hu
      · rw [hphase, if_pos rfl]
        rfl
      · rw [phase_ne _ _ hu, if_neg fun heq => hu (Owner.hand.inj heq)]
        rfl
  -- a frame that was on the list was in nobody's hands
  have hnew : fr ≠ 0 → fr ∈ s.free ∧ fr ∉ free := by
    intro hne
    rcases hfr with ⟨hzero, _⟩ | hcons
    · exact absurd hzero hne
    · have hnodup := h.ledger.nodup
      rw [hcons] at hnodup ⊢
      exact ⟨List.mem_cons_self, (nodup_cons.mp hnodup).1⟩
  have hsub : ∀ f ∈ free, f ∈ s.free := by
    intro f hf
    rcases hfr with ⟨_, heq⟩ | hcons
    · rwa [heq] at hf
    · rw [hcons]
      exact List.mem_cons_of_mem fr hf
  have hpos : 0 ∉ free := fun hzero => h.ledger.pos (hsub 0 hzero)
  obtain ⟨hnpages, hunused, hfill, hfull⟩ := h.obj id
  refine h.creating (t := t) (fun j (_ : j ≠ id) => rfl) (fun u hu => phase_ne _ _ hu) rfl rfl rfl
    ?_ ?_ (fun u k hu hf => hu (h.one u t id k pg hf hmine)) (h.not_named (.inr ⟨t, pg, hmine⟩)) rfl
    ⟨hnpages, hunused, fun u k hu => hfill u k ((hfills u).symm.trans hu), fun huse hnot =>
      hfull huse fun hf => hnot ((hfilling id).mpr hf)⟩ ⟨?_, hpos, fun a ha => ?_⟩
    fun a b ha heq => ?_
  · rw [hmine]
    rintro j k ⟨⟩
    rfl
  · rw [hfills, hmine]
    rintro j k ⟨⟩
    rfl
  · rcases hfr with ⟨_, heq⟩ | hcons
    · rw [heq]
      exact h.ledger.nodup
    · have hnodup := h.ledger.nodup
      rw [hcons] at hnodup
      exact (nodup_cons.mp hnodup).2
  · rw [hframe] at ha
    split_ifs at ha with hhand
    · by_cases hne : fr = 0
      · rw [hne] at ha
        exact hpos ha
      · exact (hnew hne).2 ha
    · exact h.ledger.apart a (hsub _ ha)
  · rw [hframe] at ha heq
    rw [hframe] at heq
    split_ifs at ha heq with ha' hb' hb'
    · rw [ha', hb']
    · exact absurd (heq ▸ (hnew ha).1) (h.ledger.apart b)
    · refine absurd ?_ (h.ledger.apart a)
      rw [heq]
      exact (hnew (heq ▸ ha)).1
    · exact h.distinct a b ha heq

/-- The frame in the hand of a task goes into the array, or the undo loop has run. -/
lemma store (h : Inv n s) {id pg fr : ℕ} (ht : s.phase t = .gotten id pg fr) :
    Inv n (s.storePage t id pg fr) := by
  have hmine : (s.phase t).fills = some (id, pg) := by
    rw [ht]
    rfl
  have hheld : s.frame (.hand t) = fr := congrArg held ht
  obtain ⟨hused, hzero, hlt, hpages⟩ := (h.obj id).filling t pg hmine
  have hnpages := (h.obj id).npages
  have halone : ∀ u k, u ≠ t → (s.phase u).fills ≠ some (id, k) :=
    fun u k hu hf => hu (h.one u t id k pg hf hmine)
  have hnone := h.not_named (.inr ⟨t, pg, hmine⟩)
  have hbefore : ∀ j k, (s.phase t).fills = some (j, k) → j = id := by
    rw [hmine]
    rintro j k ⟨⟩
    rfl
  unfold storePage
  by_cases hfr : fr = 0
  · rw [if_pos hfr]
    have hback : Returned (List.range pg) (s.objs id).pages s.free
        (undoPages (List.range pg) (s.objs id).pages s.free).1
        (undoPages (List.range pg) (s.objs id).pages s.free).2 := by
      rw [undoPages_eq List.nodup_range _ fun k hk => (hpages k).mpr (mem_range.mp hk)]
      exact freePages_spec _ (h.distinct_pages id) (fun k => h.ledger.apart (.obj id k))
        h.ledger.pos h.ledger.nodup
    generalize undoPages (List.range pg) (s.objs id).pages s.free = r at hback
    have hclear : ∀ k, r.1 k = 0 := by
      intro k
      rw [hback.clear]
      split_ifs with hk
      · rfl
      · by_contra hne
        rw [mem_range] at hk
        exact hk ((hpages k).mp hne)
    set s' := ((s.setObj id { s.objs id with pages := r.1, used := false }).setFree r.2).setPhase t
      .idle
    have hphase : s'.phase t = .idle := phase_self _ t .idle
    have hself : s'.objs id = { s.objs id with pages := r.1, used := false } :=
      update_self ..
    have hobjs : ∀ j, j ≠ id → s'.objs j = s.objs j := fun j hj => update_of_ne hj ..
    have hnobody : ∀ u k, (s'.phase u).fills ≠ some (id, k) := by
      intro u k hu
      rcases eq_or_ne u t with rfl | hut
      · rw [hphase] at hu
        cases hu
      · have hother : s'.phase u = s.phase u := phase_ne _ _ hut
        rw [hother] at hu
        exact halone u k hut hu
    have hledger := h.ledger.release s'.frame r.2 h.distinct (fun a => ?_)
      (fun f hf => ?_) hback.nodup
    · refine h.creating (t := t) hobjs (fun u hu => phase_ne _ _ hu) rfl rfl rfl hbefore
        (fun j k hj => ?_) halone hnone ?_ ⟨?_, ?_, fun u k hu => absurd hu (hnobody u k), ?_⟩
        hledger.1 hledger.2
      · rw [hphase] at hj
        cases hj
      · rw [hself]
      · rw [hself]
        exact hnpages
      · rw [hself]
        exact fun _ => ⟨hzero, hclear⟩
      · rw [hself]
        exact nofun
    · cases a with
      | obj j k =>
        rcases eq_or_ne j id with rfl | hj
        · refine .inr ?_
          show (s'.objs j).pages k = 0
          rw [hself]
          exact hclear k
        · refine .inl ?_
          show (s'.objs j).pages k = (s.objs j).pages k
          rw [hobjs j hj]
      | hand u =>
        rcases eq_or_ne u t with rfl | hu
        · exact .inr (congrArg held hphase)
        · exact .inl (congrArg held (phase_ne _ _ hu))
    · rcases (hback.mem f).mp hf with hold | ⟨hne, k, _, hk⟩
      · exact .inl hold
      · refine .inr ⟨hne, .obj id k, hk, ?_⟩
        show (s'.objs id).pages k = 0
        rw [hself]
        exact hclear k
  · rw [if_neg hfr]
    -- the task goes on with the next page, if there is one
    obtain ⟨x, hx⟩ : ∃ x : Phase, x = if pg + 1 < (s.objs id).npages then .filling id (pg + 1)
        else .idle := ⟨_, rfl⟩
    have hempty : x.held = 0 := by
      rw [hx]
      split_ifs <;> rfl
    have hfills : ∀ j k, x.fills = some (j, k) →
        j = id ∧ k = pg + 1 ∧ pg + 1 < (s.objs id).npages := by
      intro j k hj
      rw [hx] at hj
      split_ifs at hj with hmore
      · cases hj
        exact ⟨rfl, rfl, hmore⟩
      · cases hj
    rw [← hx]
    set s' := (s.setObj id { s.objs id with
      pages := update (s.objs id).pages pg fr }).setPhase t x
    have hphase : s'.phase t = x := phase_self _ t x
    have hself : s'.objs id = { s.objs id with
        pages := update (s.objs id).pages pg fr } := update_self ..
    have hobjs : ∀ j, j ≠ id → s'.objs j = s.objs j := fun j hj => update_of_ne hj ..
    have hstored : ∀ k, update (s.objs id).pages pg fr k ≠ 0 ↔ k < pg + 1 := by
      intro k
      rcases eq_or_ne k pg with rfl | hk
      · rw [update_self]
        exact ⟨fun _ => Nat.lt_succ_self k, fun _ => hfr⟩
      · rw [update_of_ne hk, hpages]
        omega
    have hframe : ∀ a, s'.frame a = if a = .obj id pg then fr
        else if a = .hand t then 0 else s.frame a := by
      intro a
      cases a with
      | obj j k =>
        rw [if_neg (c := Owner.obj j k = .hand t) nofun]
        show (s'.objs j).pages k = _
        rcases eq_or_ne j id with rfl | hj
        · rw [hself]
          rcases eq_or_ne k pg with rfl | hk
          · rw [if_pos rfl]
            exact update_self ..
          · rw [if_neg fun heq => hk (Owner.obj.inj heq).2]
            exact update_of_ne hk ..
        · rw [hobjs j hj, if_neg fun heq => hj (Owner.obj.inj heq).1]
          rfl
      | hand u =>
        rw [if_neg (c := Owner.hand u = .obj id pg) nofun]
        show held (s'.phase u) = _
        rcases eq_or_ne u t with rfl | hu
        · rw [hphase, if_pos rfl]
          exact hempty
        · rw [if_neg fun heq => hu (Owner.hand.inj heq)]
          exact congrArg held (phase_ne _ _ hu)
    have hin : ∀ u k, (s'.phase u).fills = some (id, k) → u = t ∧ k = pg + 1 ∧
        pg + 1 < (s.objs id).npages := by
      intro u k hu
      rcases eq_or_ne u t with rfl | hut
      · rw [hphase] at hu
        exact ⟨rfl, (hfills id k hu).2⟩
      · have hother : s'.phase u = s.phase u := phase_ne _ _ hut
        rw [hother] at hu
        exact absurd hu (halone u k hut)
    have hmove := h.ledger.move s'.frame h.distinct (a := .obj id pg) (b := .hand t)
      (by rw [hframe, if_pos rfl, hheld]) (by rw [hframe, if_neg nofun, if_pos rfl])
      fun c hca hcb => by rw [hframe, if_neg hca, if_neg hcb]
    refine h.creating (t := t) hobjs (fun u hu => phase_ne _ _ hu) rfl rfl rfl hbefore
      (fun j k hj => ?_) halone hnone ?_ ⟨?_, ?_, fun u k hu => ?_, fun _ hfull => ?_⟩
      hmove.1 hmove.2
    · rw [hphase] at hj
      exact (hfills j k hj).1
    · rw [hself]
    · rw [hself]
      exact hnpages
    · rw [hself]
      intro hbad
      cases hused.symm.trans hbad
    · obtain ⟨_, rfl, hmore⟩ := hin u k hu
      rw [hself]
      exact ⟨hused, hzero, hmore, hstored⟩
    · have hlast : ¬ pg + 1 < (s.objs id).npages := by
        intro hmore
        refine hfull ⟨t, pg + 1, ?_⟩
        rw [hphase, hx, if_pos hmore]
        rfl
      rw [hself]
      intro k
      refine (hstored k).trans ?_
      have hlen : (s.objs id).npages = pg + 1 := by omega
      rw [hlen]

/-- A process that is not there has no mapping. -/
lemma slot_of_absent (h : Inv n s) (hp : s.status p = .absent) (i : Fin PROC_SHM_MAX) :
    (s.slot p i).va = 0 := by
  by_contra hi
  exact (h.slot p i hi).2.1 hp

lemma ipcProcFork (h : Inv n s) (he : Evolves s₀ s) (hchild : child < n ∧ s.status child ≠ .absent)
    (parent : ProcId) (hempty : ∀ i, (s.slot child i).va = 0) (room : Fin PROC_SHM_MAX → ℕ) :
    Inv n (s.ipcProcFork child parent room).1 ∧ Evolves s₀ (s.ipcProcFork child parent room).1 ∧
      ((s.ipcProcFork child parent room).2 = false →
        ∀ i, ((s.ipcProcFork child parent room).1.slot child i).va = 0) := by
  obtain ⟨hinv, hev⟩ := h.forkLoop he hchild parent room
    (List.nodup_finRange PROC_SHM_MAX) fun i _ => hempty i
  unfold Sys.ipcProcFork
  generalize Sys.forkLoop child parent room (List.finRange PROC_SHM_MAX) s = r at hinv hev
  dsimp only
  split_ifs with hok
  · refine ⟨hinv, hev, fun hbad => ?_⟩
    cases hok.symm.trans hbad
  · obtain ⟨hinv', hev', hva⟩ := hinv.detachAll hev child
    generalize r.1.detachAll child = s' at hinv' hev' hva
    exact ⟨hinv', hev', fun _ => hva⟩

end Inv

/-! ## One section -/

/-- An object is attached only when nobody is filling it, and at an address below 2^64; and a
child that is not launched has no mappings. -/
def Ok (s : Sys) : Event → Prop
  | .attach _ id hint _ => ¬ s.Filling id ∧ (hint = 0 → USER_SHM_BASE + s.nextOff < 2 ^ 64)
  | .abandon p => ∀ i, (s.slot p i).va = 0
  | _ => True

lemma attachVa_spec (s : Sys) (o : ShmObj) (hint : ℕ) :
    (∃ v, (s.attachVa o hint).1 = { s with nextOff := v }) ∧
      ((hint = 0 → USER_SHM_BASE + s.nextOff < 2 ^ 64) → ∀ va, (s.attachVa o hint).2 = .ok va →
        va ≠ 0) := by
  unfold attachVa
  dsimp only
  by_cases hhint : hint = 0
  · rw [if_neg (not_not.mpr hhint)]
    refine ⟨⟨(s.nextOff + o.npages * Mm.PAGE_SIZE) % 2 ^ 64, ?_⟩, fun hok va hva => ?_⟩
    · split_ifs <;> rfl
    · split_ifs at hva
      cases hva
      have hbase : 0 < USER_SHM_BASE := by decide
      rw [Nat.mod_eq_of_lt (hok hhint)]
      omega
  · rw [if_pos hhint]
    refine ⟨⟨s.nextOff, ?_⟩, fun _ va hva => ?_⟩
    · split_ifs <;> rfl
    · split_ifs at hva
      cases hva
      exact hhint

/-- `shm_attach` leaves the objects and the mappings, or it attaches at a free slot. -/
lemma shmAttach_cases {s : Sys} (p : ProcId) {id hint : ℕ} (room : ℕ)
    (hp : p < n ∧ s.status p ≠ .absent) (hok : Ok s (.attach p id hint room)) :
    ∃ v, (s.shmAttach p id hint room).1 = { s with nextOff := v } ∨
      ∃ i x, x.id = id ∧ Inv.Fits n { s with nextOff := v } p i x ∧
        (s.shmAttach p id hint room).1 = (({ s with nextOff := v } : Sys).attachAt p i x room).1 := by
  unfold shmAttach
  split_ifs with hid hused
  · exact ⟨s.nextOff, .inl rfl⟩
  · exact ⟨s.nextOff, .inl rfl⟩
  rw [Bool.not_eq_false] at hused
  cases hfind : (List.finRange PROC_SHM_MAX).find? fun i => (s.slot p i).va = 0 with
  | none => exact ⟨s.nextOff, .inl rfl⟩
  | some i =>
    have hslot : (s.slot p i).va = 0 := by simpa using List.find?_some hfind
    obtain ⟨⟨v, hv⟩, hva⟩ := attachVa_spec s (s.objs id) hint
    dsimp only
    generalize s.attachVa (s.objs id) hint = r at hv hva
    obtain ⟨s', out⟩ := r
    subst hv
    refine ⟨v, ?_⟩
    cases out with
    | error e => exact .inl rfl
    | ok va =>
      exact .inr ⟨i, ⟨va, (s.objs id).npages, id⟩, rfl, ⟨hp, hslot, hva hok.2 va rfl, hused, hok.1,
        rfl⟩, rfl⟩

/-- The frames of an object go back to the PMM in a step if and only if its last mapping goes. -/
def Freed (s s' : Sys) : Prop :=
  ∀ id k, (s.objs id).pages k ≠ 0 → ¬ s.Filling id →
    ((s.objs id).pages k ∈ s'.free ↔ (s.objs id).attaches ≠ 0 ∧ (s'.objs id).attaches = 0)

/-- A step of no task that is filling an object leaves the object and its frames. -/
def Untouched (s : Sys) (e : Event) (s' : Sys) : Prop :=
  ∀ t id pg, (s.phase t).fills = some (id, pg) → e.creator ≠ some t →
    s'.objs id = s.objs id ∧ ∀ k, (s.objs id).pages k ∉ s'.free

/-- What a step leaves behind. -/
structure Sound (n : ℕ) (s : Sys) (e : Event) (s' : Sys) : Prop where
  inv : Inv n s'
  freed : Freed s s'
  untouched : Untouched s e s'

namespace Inv

variable {n : ℕ} {s s' : Sys} {e : Event} {p : ProcId}

lemma used_of_page (h : Inv n s) {id k : ℕ} (hk : (s.objs id).pages k ≠ 0) :
    (s.objs id).used = true := by
  by_contra hunused
  rw [Bool.not_eq_true] at hunused
  exact hk (((h.obj id).unused hunused).2 k)

/-- A step after which the frames are where they were. -/
lemma sound_of_kept (h : Inv n s) (h' : Inv n s')
    (hkept : ∀ id, (s.objs id).used = true → ¬ s.Filling id →
      (s'.objs id).pages = (s.objs id).pages ∧
        ((s'.objs id).attaches = 0 → (s.objs id).attaches = 0))
    (hfill : ∀ t id pg, (s.phase t).fills = some (id, pg) → e.creator ≠ some t →
      s'.objs id = s.objs id) : Sound n s e s' := by
  have hnot : ∀ id, (s'.objs id).pages = (s.objs id).pages → ∀ k, (s.objs id).pages k ∉ s'.free := by
    intro id hpages k
    rw [← hpages]
    exact h'.ledger.apart (.obj id k)
  refine ⟨h', fun id k hk hfull => ?_, fun t id pg ht he => ⟨hfill t id pg ht he, ?_⟩⟩
  · obtain ⟨hpages, hatt⟩ := hkept id (h.used_of_page hk) hfull
    exact ⟨fun hmem => absurd hmem (hnot id hpages k), fun ⟨hne, hzero⟩ => absurd (hatt hzero) hne⟩
  · exact hnot id (by rw [hfill t id pg ht he])

/-- A step that ends in a loop over slots. -/
lemma sound_of_evolves (h : Inv n s) {s₁ : Sys} (hev : Evolves s s₁) (h' : Inv n s')
    (hobjs : s'.objs = s₁.objs) (hfree : s'.free = s₁.free) : Sound n s e s' := by
  have hnot : ∀ id, (s₁.objs id).pages = (s.objs id).pages → ∀ k, (s.objs id).pages k ∉ s'.free := by
    intro id hpages k
    rw [← hpages, ← hobjs]
    exact h'.ledger.apart (.obj id k)
  refine ⟨h', fun id k hk hfull => ?_, fun t id pg ht _ => ?_⟩
  · rw [hobjs]
    rcases hev.fate id (h.used_of_page hk) hfull with ⟨hpages, _, hiff⟩ | ⟨hatt, _, hzero, hback⟩
    · exact ⟨fun hmem => absurd hmem (hnot id hpages k),
        fun ⟨hne, hzero⟩ => absurd (hiff.mp hzero) hne⟩
    · rw [hfree]
      exact ⟨fun _ => ⟨hatt, hzero⟩, fun _ => hback k hk⟩
  · have hsame := hev.filling id ⟨t, pg, ht⟩
    refine ⟨by rw [hobjs, hsame], hnot id (by rw [hsame])⟩

lemma sound_create {t : Task} {npages : ℕ} (h : Inv n s) (ht : s.phase t = .idle) :
    Sound n s (.create t npages) (s.shmCreate t npages) := by
  have hkept : ∀ id, (s.objs id).used = true → (s.shmCreate t npages).objs id = s.objs id := by
    intro id hid
    unfold shmCreate
    split_ifs
    · rfl
    cases hfind : (List.range SHM_OBJS_MAX).find? fun id => !(s.objs id).used with
    | none => rfl
    | some j =>
      have hunused : (s.objs j).used = false := by simpa using List.find?_some hfind
      refine update_of_ne ?_ ..
      rintro rfl
      cases hid.symm.trans hunused
  refine h.sound_of_kept (h.create ht) (fun id hid _ => ?_) fun u id pg hu _ => ?_
  · rw [hkept id hid]
    exact ⟨rfl, fun hzero => hzero⟩
  · exact hkept id ((h.obj id).filling u pg hu).1

lemma sound_store {t : Task} {id pg fr : ℕ} (h : Inv n s) (ht : s.phase t = .gotten id pg fr) :
    Sound n s (.store t id pg fr) (s.storePage t id pg fr) := by
  have hmine : (s.phase t).fills = some (id, pg) := by
    rw [ht]
    rfl
  have hkept : ∀ j, j ≠ id → (s.storePage t id pg fr).objs j = s.objs j := by
    intro j hj
    unfold storePage
    split_ifs <;> exact update_of_ne hj ..
  refine h.sound_of_kept (h.store ht) (fun j _ hfull => ?_) fun u j k hu he => ?_
  · rw [hkept j]
    · exact ⟨rfl, fun hzero => hzero⟩
    · rintro rfl
      exact hfull ⟨t, pg, hmine⟩
  · refine hkept j ?_
    rintro rfl
    exact he (congrArg some (h.one t u j pg k hmine hu))

lemma sound_attach {id hint room : ℕ} (h : Inv n s) (hp : p < n ∧ s.status p ≠ .absent)
    (hok : Ok s (.attach p id hint room)) :
    Sound n s (.attach p id hint room) (s.shmAttach p id hint room).1 := by
  obtain ⟨v, heq | ⟨i, x, hx, hfits, heq⟩⟩ := shmAttach_cases p room hp hok
  · rw [heq]
    have hsame : Inv n { s with nextOff := v } := h.congr rfl rfl rfl rfl rfl rfl
    exact h.sound_of_kept hsame (fun _ _ _ => ⟨rfl, fun hzero => hzero⟩) fun _ _ _ _ _ => rfl
  · rw [heq]
    have hsame : Inv n { s with nextOff := v } := h.congr rfl rfl rfl rfl rfl rfl
    have hobjs : ∀ j, (({ s with nextOff := v } : Sys).attachAt p i x room).1.objs j = s.objs j ∨
        j = x.id ∧ (({ s with nextOff := v } : Sys).attachAt p i x room).1.objs j
          = { s.objs j with attaches := (s.objs j).attaches + 1 } := by
      intro j
      rcases attachAt_cases { s with nextOff := v } p i x room with hstop | ⟨m, _, hgo⟩
      · rw [hstop]
        exact .inl rfl
      · rw [hgo, withSlot_objs]
        split_ifs with hj
        · rw [hj]
          exact .inr ⟨rfl, rfl⟩
        · exact .inl rfl
    refine h.sound_of_kept (hsame.attachAt hfits room) (fun j _ _ => ?_) fun t j k hj _ => ?_
    · rcases hobjs j with hj | ⟨_, hj⟩
      · rw [hj]
        exact ⟨rfl, fun hzero => hzero⟩
      · rw [hj]
        exact ⟨rfl, nofun⟩
    · refine (hobjs j).resolve_right fun ⟨hjx, _⟩ => hok.1 ⟨t, k, ?_⟩
      rw [hj, hjx, hx]

/-- Every section that meets the condition keeps the invariant, frees the frames of an object
exactly with its last mapping, and leaves alone what another task is filling. -/
lemma step (h : Inv n s) (hen : s.Enabled n e) (hok : Ok s e) : Sound n s e (s.act e) := by
  cases e with
  | spawn q =>
    exact h.sound_of_kept (h.setStatus q nofun) (fun _ _ _ => ⟨rfl, fun hzero => hzero⟩)
      fun _ _ _ _ _ => rfl
  | launch q =>
    exact h.sound_of_kept (h.setStatus q nofun) (fun _ _ _ => ⟨rfl, fun hzero => hzero⟩)
      fun _ _ _ _ _ => rfl
  | create t npages => exact h.sound_create hen
  | alloc t id pg =>
    have hinv : Inv n (s.act (.alloc t id pg)) := by
      simp only [act]
      split
      · exact h.alloc hen (.inl ⟨rfl, rfl⟩)
      · next fr free hcons => exact h.alloc hen (.inr hcons)
    have hobjs : (s.act (.alloc t id pg)).objs = s.objs := by
      simp only [act]
      split <;> rfl
    refine h.sound_of_kept hinv (fun _ _ _ => ?_) fun _ _ _ _ _ => ?_
    · rw [hobjs]
      exact ⟨rfl, fun hzero => hzero⟩
    · rw [hobjs]
  | store t id pg fr => exact h.sound_store hen
  | attach q id hint room =>
    refine h.sound_attach ⟨hen.2, ?_⟩ hok
    rw [hen.1]
    exact nofun
  | detach q va =>
    have hcases : (∃ i, s.act (.detach q va) = s.shmDoDetach q i) ∨ s.act (.detach q va) = s := by
      simp only [act, shmDetach]
      split_ifs
      · exact .inr rfl
      · split
        · exact .inr rfl
        · exact .inl ⟨_, rfl⟩
    rcases hcases with ⟨i, heq⟩ | heq
    · rw [heq]
      exact h.sound_of_evolves ((Evolves.refl s).detach h q i) (h.doDetach q i) rfl rfl
    · rw [heq]
      exact h.sound_of_evolves (Evolves.refl s) h rfl rfl
  | fork child parent room =>
    obtain ⟨habsent, hlt, _⟩ := hen
    have hforked : (s.setStatus child .forked).status child = .forked := update_self ..
    have hstart : Inv n (s.setStatus child .forked) := h.setStatus child nofun
    have hev : Evolves s (s.setStatus child .forked) :=
      ⟨rfl, fun _ _ => rfl, fun _ hused _ => .inl ⟨rfl, hused, Iff.rfl⟩⟩
    obtain ⟨hinv, hev', hempty⟩ := hstart.ipcProcFork hev
      ⟨hlt, by rw [hforked]; exact nofun⟩ parent (h.slot_of_absent habsent) room
    simp only [act]
    generalize (s.setStatus child .forked).ipcProcFork child parent room = r at hinv hev' hempty
    split_ifs with hr
    · exact h.sound_of_evolves hev' hinv rfl rfl
    · rw [Bool.not_eq_true] at hr
      exact h.sound_of_evolves hev' (hinv.dropProc (hempty hr)) rfl rfl
  | abandon q =>
    exact h.sound_of_kept (h.dropProc hok) (fun _ _ _ => ⟨rfl, fun hzero => hzero⟩)
      fun _ _ _ _ _ => rfl
  | exit q =>
    obtain ⟨hinv, hev, hempty⟩ := h.detachAll (Evolves.refl s) q
    simp only [act]
    generalize s.detachAll q = r at hinv hev hempty ⊢
    exact h.sound_of_evolves hev (hinv.dropProc hempty) rfl rfl
  | other free =>
    have hframe : (s.setFree free).frame = s.frame := frame_congr (fun _ => rfl) rfl
    have hinv : Inv n (s.setFree free) := by
      refine ⟨fun id => (h.obj id).congr rfl rfl, h.one, h.count, h.slot, h.space, ?_, ?_⟩
      · rw [hframe]
        exact hen
      · rw [hframe]
        exact h.distinct
    exact h.sound_of_kept hinv (fun _ _ _ => ⟨rfl, fun hzero => hzero⟩) fun _ _ _ _ _ => rfl

end Inv

/-! ## Shared-memory objects -/

structure Law (n : ℕ) (s : Sys) : Prop where
  /-- the attach count is the number of mapping slots that name the object -/
  count : ∀ id, (s.objs id).attaches = slots n s id
  /-- a mapped frame is a frame in use of the object that a slot names, at that slot -/
  mapped : ∀ p v f, s.maps p v = some f → f ≠ 0 ∧ f ∉ s.free ∧
    ∃ i k, (s.slot p i).va ≠ 0 ∧ k < (s.objs (s.slot p i).id).npages ∧
      page (s.slot p i).va k = v ∧ (s.objs (s.slot p i).id).pages k = f
  /-- a slot maps its whole object -/
  whole : ∀ p i, (s.slot p i).va ≠ 0 → ∀ k < (s.objs (s.slot p i).id).npages,
    s.maps p (page (s.slot p i).va k) = some ((s.objs (s.slot p i).id).pages k)
  /-- no frame belongs to two objects -/
  apart : ∀ id j k l, (s.objs id).pages k ≠ 0 → (s.objs id).pages k = (s.objs j).pages l →
    id = j ∧ k = l
  /-- an object that somebody is filling is not attached anywhere -/
  filling : ∀ id, s.Filling id →
    (s.objs id).attaches = 0 ∧ ∀ p i, (s.slot p i).va ≠ 0 → (s.slot p i).id ≠ id

lemma Inv.law {s : Sys} (h : Inv n s) : s.Law n where
  count := h.count
  mapped := by
    intro p v f hv
    obtain ⟨i, hi, k, hk, rfl⟩ := (h.space p).owned v f hv
    obtain ⟨_, _, hused, hfull, hnpages⟩ := h.slot p i hi
    have hf := (h.space p).mapped i hi k hk
    rw [hv, Option.some.injEq] at hf
    rw [hnpages] at hk
    have hne : f ≠ 0 := by
      rw [hf]
      exact ((h.obj _).full hused hfull k).mpr hk
    refine ⟨hne, ?_, i, k, hi, hk, rfl, hf.symm⟩
    rw [hf]
    exact h.ledger.apart (.obj _ k)
  whole := by
    intro p i hi k hk
    obtain ⟨_, _, _, _, hnpages⟩ := h.slot p i hi
    rw [← hnpages] at hk
    exact (h.space p).mapped i hi k hk
  apart := by
    intro id j k l hk heq
    have hsame := h.distinct (.obj id k) (.obj j l) hk heq
    injection hsame with hid hkl
    exact ⟨hid, hkl⟩
  filling := by
    intro id hfill
    obtain ⟨t, pg, ht⟩ := hfill
    exact ⟨((h.obj id).filling t pg ht).2.1, h.not_named (.inr ⟨t, pg, ht⟩)⟩

lemma inv_init (hnodup : free.Nodup) (hpos : 0 ∉ free) :
    Inv n (init free) := by
  have hframe : ∀ a, (init free).frame a = 0 := by
    intro a
    cases a <;> rfl
  refine ⟨fun id => ⟨Nat.zero_le _, fun _ => ⟨rfl, fun _ => rfl⟩, nofun, nofun⟩, nofun, fun id => ?_,
    fun p i hi => absurd rfl hi, fun p => Space.empty _, ⟨hnodup, hpos, fun a => ?_⟩,
    fun a b ha => absurd (hframe a) ha⟩
  · refine (Finset.sum_eq_zero fun p _ => Finset.sum_eq_zero fun i _ => ?_).symm
    exact if_neg fun hc => hc.1 rfl
  · rw [hframe]
    exact hpos

lemma Inv.run {start s : Sys} {es : List Event} (h : Inv n start)
    (hrun : Run (Guarded Ok (Step n)) start es s) : Inv n s := by
  refine hrun.invariant h ?_
  rintro s e s' hs ⟨hok, hen, rfl⟩
  exact (hs.step hen hok).inv

/-- **Shared memory.** In every run whose sections meet the condition, the attach counts, the
page tables and the frames agree; and a further such section frees the frames of an object
exactly when its last mapping goes, and leaves alone what another task is filling. -/
theorem shm_lifetime {n : ℕ} {free : List ℕ} {es : List Event} {s : Sys} (hnodup : free.Nodup)
    (hpos : 0 ∉ free) (hrun : Run (Guarded Ok (Step n)) (init free) es s) :
    s.Law n ∧ ∀ e s', Guarded Ok (Step n) s e s' → Freed s s' ∧ Untouched s e s' := by
  have hinv : Inv n s := (inv_init hnodup hpos).run hrun
  refine ⟨hinv.law, ?_⟩
  rintro e s' ⟨hok, hen, rfl⟩
  have hsound := hinv.step hen hok
  exact ⟨hsound.freed, hsound.untouched⟩

/-- A process attaches an object of two pages that a task has only begun to fill. -/
def early : List Event := [.spawn 0, .create 5 2, .attach 0 0 0 9]

/-- Its page table has frame 0. -/
theorem shm_lifetime_early :
    ∃ s, Run (Step 1) (init [4096, 8192]) early s ∧
      s.maps 0 (USER_SHM_BASE / Mm.PAGE_SIZE) = some 0 ∧ (s.objs 0).attaches = 1 ∧
      s.phase 5 = .filling 0 0 ∧ ¬ s.Law 1 := by
  have hrun : Run (Step 1) (init [4096, 8192]) early (early.foldl act (init [4096, 8192])) := by
    refine Run.of_enables (fun _ _ h => ⟨h, rfl⟩) ⟨⟨rfl, Nat.one_pos⟩, rfl, ⟨rfl, Nat.one_pos⟩, trivial⟩
  have hmap : (early.foldl act (init [4096, 8192])).maps 0 (USER_SHM_BASE / Mm.PAGE_SIZE)
      = some 0 := by
    decide
  refine ⟨_, hrun, hmap, ?_, ?_, fun hlaw => ?_⟩
  · decide
  · decide
  · exact (hlaw.mapped _ _ _ hmap).1 rfl

/-- A task fills an object of one page; -/
def filled : List Event := [.create 5 1, .alloc 5 0 0, .store 5 0 0 4096]

/-- a process attaches it and forks, and both processes exit. -/
def shared : List Event :=
  [.spawn 0, .attach 0 0 0 9, .fork 1 0 fun _ => 9, .launch 1, .exit 0, .exit 1]

/-- The theorem on this run: the frame is back. -/
theorem shm_lifetime_shared :
    (shared.foldl act (filled.foldl act (init [4096, 8192]))).Law 2 ∧
      (shared.foldl act (filled.foldl act (init [4096, 8192]))).free = [4096, 8192] := by
  have hfilled : Enables (fun s e => Ok s e ∧ s.Enabled 2 e) act (init [4096, 8192]) filled :=
    ⟨⟨trivial, rfl⟩, ⟨trivial, rfl⟩, ⟨trivial, rfl⟩, trivial⟩
  have hrun : Run (Guarded Ok (Step 2)) (init [4096, 8192]) filled
      (filled.foldl act (init [4096, 8192])) :=
    Run.of_enables (fun _ _ h => ⟨h.1, h.2, rfl⟩) hfilled
  have hnodup : [4096, 8192].Nodup := by decide
  have hpos : 0 ∉ [4096, 8192] := by decide
  have hinv := (inv_init (n := 2) hnodup hpos).run hrun
  have hfull : ¬ (filled.foldl act (init [4096, 8192])).Filling 0 := by
    rintro ⟨t, pg, ht⟩
    obtain ⟨_, _, hlt, hpages⟩ := (hinv.obj 0).filling t pg ht
    have hone : ((filled.foldl act (init [4096, 8192])).objs 0).npages = 1 := by decide
    have hzero : ((filled.foldl act (init [4096, 8192])).objs 0).pages 0 ≠ 0 := by decide
    have hpg := (hpages 0).mp hzero
    omega
  have hshared : Enables (fun s e => Ok s e ∧ s.Enabled 2 e) act
      (filled.foldl act (init [4096, 8192])) shared := by
    refine ⟨⟨trivial, ?_, ?_⟩, ⟨⟨hfull, ?_⟩, ?_, ?_⟩, ⟨trivial, ?_, ?_, ?_⟩, ⟨trivial, ?launch⟩,
      ⟨trivial, ?_, ?_⟩, ⟨trivial, ?_, ?_⟩, trivial⟩
    case launch =>
      show Sys.status _ _ = _
      decide
    all_goals decide
  have hall : Run (Guarded Ok (Step 2)) (init [4096, 8192]) (filled ++ shared)
      (shared.foldl act (filled.foldl act (init [4096, 8192]))) :=
    Run.append_of_enables (fun _ _ h => ⟨h.1, h.2, rfl⟩) hrun hshared
  exact ⟨(shm_lifetime hnodup hpos hall).1, by decide +kernel⟩

end Sys

end Shm
end Ipc
end MobilePhoneOs
