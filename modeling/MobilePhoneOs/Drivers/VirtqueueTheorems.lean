import Mathlib.Data.List.Perm.Subperm
import MobilePhoneOs.Drivers.Virtqueue

/-!
# Every descriptor is accounted for

The queue is looked at through its layout: a pop moves the head of the free list into the hands of
a call, a chain is built in descriptors that the call holds, a submit puts the chain in flight, and
`virtq_free_chain` moves it back. What a step does to the layout decides whether the descriptors
stay accounted for.
-/

namespace MobilePhoneOs.Virtio

open Function (update update_self update_of_ne)
open List (append_assoc length_append length_cons mem_append mem_append_right mem_cons
  mem_cons_self mem_pair mem_singleton mem_singleton_self nodup_cons nodup_nil not_mem_nil)
open Sys (act)
open MobilePhoneOs.Ring (dist queued queued_pop queued_push)

/-! ## Chains -/

namespace IsChain

variable {desc desc' : ℕ → VringDesc} {h : ℕ} {l l' : List ℕ}

lemma head_mem (hl : IsChain desc h l) : h ∈ l := by
  cases hl with
  | last hend => exact mem_singleton_self _
  | cons hnext hrest => exact mem_cons_self

/-- The device reads the descriptors of the chain only. -/
lemma congr (hl : IsChain desc h l) (hsame : ∀ d ∈ l, desc' d = desc d) : IsChain desc' h l := by
  induction hl with
  | last hend =>
    apply IsChain.last
    rw [hsame _ (mem_singleton_self _)]
    exact hend
  | @cons h l hnext hrest ih =>
    have hhead := hsame h mem_cons_self
    apply IsChain.cons
    · rw [hhead]
      exact hnext
    · rw [hhead]
      exact ih fun d hd => hsame d (List.mem_cons_of_mem _ hd)

/-- The head decides the chain. -/
lemma unique (hl : IsChain desc h l) (hl' : IsChain desc h l') : l = l' := by
  induction hl generalizing l' with
  | last hend =>
    cases hl' with
    | last hend' => rfl
    | cons hnext hrest =>
      rw [hend] at hnext
      cases hnext
  | cons hnext hrest ih =>
    cases hl' with
    | last hend =>
      rw [hend] at hnext
      cases hnext
    | cons hnext' hrest' => rw [ih hrest']

lemma pair {d : ℕ} (hhead : (desc h).hasNext = true) (hlink : (desc h).next = d)
    (hlast : (desc d).hasNext = false) : IsChain desc h [h, d] := by
  apply IsChain.cons hhead
  rw [hlink]
  exact IsChain.last hlast

end IsChain

/-- Different numbers below a bound are at most that many. -/
lemma length_le_of_nodup {l : List ℕ} {n : ℕ} (hnd : l.Nodup) (hlt : ∀ d ∈ l, d < n) :
    l.length ≤ n := by
  have hsub : l.Subperm (List.range n) :=
    hnd.subperm fun d hd => List.mem_range.mpr (hlt d hd)
  have hle := hsub.length_le
  rw [List.length_range] at hle
  exact hle

/-! ## The functions of the queue on its free list -/

/-- The free list of the queue. -/
def FreeList (q : Virtq) (F : List ℕ) : Prop :=
  Chain.Linked (fun i => (q.desc i).next) (VQ_NUM ≤ ·) q.free_head F ∧ q.free_count = F.length

namespace FreeList

variable {q : Virtq} {F : List ℕ}

lemma lt (h : FreeList q F) {d : ℕ} (hd : d ∈ F) : d < VQ_NUM := Nat.lt_of_not_le (h.1.not_stop hd)

/-- A pop takes the head of the list, and fails when there is none. -/
lemma pop (h : FreeList q F) :
    (F = [] ∧ q.virtqPopDesc = (VQ_NONE, q)) ∨
    ∃ d F', F = d :: F' ∧ d < VQ_NUM ∧
      q.virtqPopDesc =
        (d, { q with free_head := (q.desc d).next, free_count := q.free_count - 1 }) ∧
      FreeList q.virtqPopDesc.2 F' := by
  obtain ⟨hlink, hcount⟩ := h
  unfold Virtq.virtqPopDesc
  cases F with
  | nil => exact .inl ⟨rfl, if_pos hcount⟩
  | cons d F' =>
    obtain ⟨hhead, hd, hrest⟩ := Chain.linked_cons.mp hlink
    rw [length_cons] at hcount
    rw [if_neg (by omega), hhead]
    refine .inr ⟨d, F', rfl, Nat.lt_of_not_le hd, rfl, hrest, ?_⟩
    show q.free_count - 1 = F'.length
    omega

/-- A free descriptor is put in front of the list. -/
lemma giveBack (h : FreeList q F) {d : ℕ} (hd : d < VQ_NUM) (hmem : d ∉ F)
    (hroom : F.length + 1 < U16) : FreeList (q.giveBack d) (d :: F) := by
  obtain ⟨hlink, hcount⟩ := h
  constructor
  · have hpush := hlink.push (Nat.not_le_of_lt hd) hmem
    apply hpush.congr
    intro e _
    show (update q.desc d _ e).next = update (fun i => (q.desc i).next) d q.free_head e
    by_cases hed : e = d
    · rw [hed, update_self, update_self]
    · rw [update_of_ne hed, update_of_ne hed]
  · show (q.free_count + 1) % U16 = F.length + 1
    rw [hcount]
    exact Nat.mod_eq_of_lt hroom

/-- The loop of `virtq_free_chain` ends behind the chain and puts it in front of the list. -/
lemma freeLoop {h : ℕ} {l : List ℕ} (hchain : IsChain q.desc h l) (fuel : ℕ)
    (hfuel : l.length ≤ fuel) (hfree : FreeList q F) (hnd : (l ++ F).Nodup)
    (hlt : ∀ d ∈ l, d < VQ_NUM) (hroom : l.length + F.length < U16) :
    ∃ q', q.freeLoop fuel h = some q' ∧ FreeList q' (l.reverse ++ F) ∧
      (∀ d ∉ l, q'.desc d = q.desc d) ∧
      q' = { q with desc := q'.desc, free_head := q'.free_head, free_count := q'.free_count } := by
  induction l generalizing q F fuel h with
  | nil => cases hchain
  | cons a l ih =>
    obtain _ | fuel := fuel
    · cases hfuel
    obtain ⟨hnot, hnd⟩ := nodup_cons.mp hnd
    have ha := hlt a mem_cons_self
    rw [length_cons] at hfuel hroom
    have hother : ∀ d, d ≠ a → (q.giveBack a).desc d = q.desc d := fun d hd => update_of_ne hd _ _
    cases hchain with
    | last hend =>
      refine ⟨q.giveBack a, ?_, hfree.giveBack ha hnot (by omega), ?_, rfl⟩
      · rw [Virtq.freeLoop, hend]
        rfl
      · exact fun d hd => hother d (List.ne_of_not_mem_cons hd)
    | cons hnext hrest =>
      rw [List.append_eq, mem_append, not_or] at hnot
      -- the rest of the chain is not touched by giving its head back
      have hrest' : IsChain (q.giveBack a).desc (q.desc a).next l :=
        hrest.congr fun d hd => hother d (ne_of_mem_of_not_mem hd hnot.1)
      have hfree' := hfree.giveBack ha hnot.2 (by omega)
      have hnd' : (l ++ a :: F).Nodup := by
        apply List.perm_middle.nodup_iff.mpr
        apply nodup_cons.mpr
        rw [mem_append]
        exact ⟨not_or.mpr hnot, hnd⟩
      obtain ⟨q', hloop, hlist, hsame, hshape⟩ := ih hrest' fuel (Nat.le_of_succ_le_succ hfuel) hfree' hnd'
        (fun d hd => hlt d (List.mem_cons_of_mem _ hd)) (by rw [length_cons]; omega)
      refine ⟨q', ?_, ?_, ?_, hshape⟩
      · rw [Virtq.freeLoop, if_pos hnext]
        exact hloop
      · rw [List.reverse_cons, append_assoc]
        exact hlist
      · intro d hd
        rw [hsame d (List.not_mem_of_not_mem_cons hd), hother d (List.ne_of_not_mem_cons hd)]

end FreeList

/-! ## What a step does to the layout -/

namespace Layout.Accounted

variable {L : Layout} {F : List ℕ} {d : ℕ} {p q : Place} {t : Task}

lemma at_one (h : L.Accounted F) (hp : L.At F d p) (hq : L.At F d q) : p = q :=
  (h.once d (h.bound d p hp)).unique hp hq

/-- A descriptor of a layout with the same places. -/
lemma of_at (h : L.Accounted F) (L' : Layout) {F' : List ℕ}
    (hat : ∀ d p, L'.At F' d p ↔ L.At F d p)
    (hlink : Chain.Linked (fun i => (L'.desc i).next) (VQ_NUM ≤ ·) L'.free_head F')
    (hcount : L'.free_count = F'.length) (hheld : ∀ t, (L'.held t).Nodup)
    (hchains : ∀ h ∈ L'.flight, ∃ l, IsChain L'.desc h l ∧ l.Nodup) (hflight : L'.flight.Nodup) :
    L'.Accounted F' where
  linked := hlink
  count := hcount
  once := by
    intro d hd
    obtain ⟨p, hp, hone⟩ := h.once d hd
    exact ⟨p, (hat d p).mpr hp, fun p' hp' => hone p' ((hat d p').mp hp')⟩
  bound := fun d p hp => h.bound d p ((hat d p).mp hp)
  held_nodup := hheld
  chains := hchains
  flight_nodup := hflight

/-- The heads in flight change hands. -/
lemma perm (h : L.Accounted F) {flight : List ℕ} (hperm : flight.Perm L.flight) :
    { L with flight := flight }.Accounted F := by
  apply h.of_at { L with flight := flight } _ h.linked h.count h.held_nodup _ (hperm.nodup_iff.mpr h.flight_nodup)
  · intro d p
    cases p with
    | free => exact Iff.rfl
    | held t => exact Iff.rfl
    | flight a => exact and_congr_left fun _ => hperm.mem_iff
  · exact fun a ha => h.chains a (hperm.mem_iff.mp ha)

/-- The head of the free list comes into the hands of a call. -/
lemma pop (h : L.Accounted (d :: F)) (t : Task) :
    { L with
      free_head := (L.desc d).next
      free_count := L.free_count - 1
      held := update L.held t (L.held t ++ [d]) }.Accounted F := by
  have hfree : L.At (d :: F) d .free := mem_cons_self
  have hd := h.bound d _ hfree
  have hnd := h.linked.nodup
  obtain ⟨hnot, -⟩ := nodup_cons.mp hnd
  have hheld : ∀ u, d ∉ L.held u := by
    intro u hu
    cases h.at_one hfree (q := .held u) hu
  have hat : ∀ e p, e ≠ d → (({ L with
      free_head := (L.desc d).next
      free_count := L.free_count - 1
      held := update L.held t (L.held t ++ [d]) } : Layout).At F e p ↔ L.At (d :: F) e p) := by
    intro e p he
    cases p with
    | free => exact (mem_cons.trans (or_iff_right he)).symm
    | held u =>
      show e ∈ update L.held t (L.held t ++ [d]) u ↔ e ∈ L.held u
      by_cases hu : u = t
      · rw [hu, update_self, mem_append, mem_singleton]
        exact or_iff_left he
      · rw [update_of_ne hu]
    | flight a => exact Iff.rfl
  constructor
  · exact (Chain.linked_cons.mp h.linked).2.2
  · rw [h.count]
    rfl
  · intro e helt
    by_cases he : e = d
    · refine ⟨.held t, ?_, ?_⟩
      · show e ∈ update L.held t (L.held t ++ [d]) t
        rw [update_self, he]
        exact mem_append_right _ (mem_singleton_self _)
      · intro p hp
        rw [he] at hp
        cases p with
        | free => exact absurd hp hnot
        | held u =>
          by_cases hu : u = t
          · rw [hu]
          · change d ∈ update L.held t (L.held t ++ [d]) u at hp
            rw [update_of_ne hu] at hp
            exact absurd hp (hheld u)
        | flight a => cases h.at_one hfree (q := .flight a) hp
    · obtain ⟨p, hp, hone⟩ := h.once e helt
      exact ⟨p, (hat e p he).mpr hp, fun p' hp' => hone p' ((hat e p' he).mp hp')⟩
  · intro e p hp
    by_cases he : e = d
    · rw [he]
      exact hd
    · exact h.bound e p ((hat e p he).mp hp)
  · intro u
    show (update L.held t (L.held t ++ [d]) u).Nodup
    by_cases hu : u = t
    · rw [hu, update_self]
      exact List.nodup_append.mpr ⟨h.held_nodup t, List.nodup_singleton _, fun a ha b hb heq =>
        hheld t (mem_singleton.mp hb ▸ heq ▸ ha)⟩
    · rw [update_of_ne hu]
      exact h.held_nodup u
  · exact h.chains
  · exact h.flight_nodup

section

variable (h : L.Accounted F)
include h

/-- A call writes the descriptors in its hands. -/
lemma write (desc : ℕ → VringDesc)
    (hsame : ∀ d, d ∉ L.held t → desc d = L.desc d) : { L with desc := desc }.Accounted F := by
  have hchain : ∀ a ∈ L.flight, ∀ l, IsChain L.desc a l → IsChain desc a l := by
    intro a ha l hl
    apply hl.congr
    intro e he
    apply hsame
    intro hheld
    cases h.at_one (p := .held t) (q := .flight a) hheld ⟨ha, l, hl, he⟩
  apply h.of_at { L with desc := desc } _ _ h.count h.held_nodup _ h.flight_nodup
  · intro e p
    cases p with
    | free => exact Iff.rfl
    | held u => exact Iff.rfl
    | flight a =>
      apply and_congr_right
      intro ha
      constructor
      · intro hin
        obtain ⟨l, hl, he⟩ := hin
        obtain ⟨l', hl', -⟩ := h.chains a ha
        exact ⟨l', hl', (hl.unique (hchain a ha l' hl')) ▸ he⟩
      · intro hin
        obtain ⟨l, hl, he⟩ := hin
        exact ⟨l, hchain a ha l hl, he⟩
  · apply h.linked.congr
    intro e he
    show (desc e).next = (L.desc e).next
    rw [hsame e]
    intro hheld
    cases h.at_one (p := .held t) (q := .free) hheld he
  · intro a ha
    obtain ⟨l, hl, hnd⟩ := h.chains a ha
    exact ⟨l, hchain a ha l hl, hnd⟩

variable {a : ℕ}

/-- The chain that a call has built in all that it holds is put in flight. -/
lemma submit (hchain : IsChain L.desc a (L.held t)) :
    { L with held := update L.held t [], flight := L.flight ++ [a] }.Accounted F := by
  have hnew : a ∉ L.flight := by
    intro ha
    obtain ⟨l, hl, -⟩ := h.chains a ha
    cases h.at_one (p := .held t) (q := .flight a) hchain.head_mem ⟨ha, l, hl, hl.head_mem⟩
  have hother : ∀ u e, u ≠ t → (e ∈ update L.held t [] u ↔ e ∈ L.held u) := by
    intro u e hu
    rw [update_of_ne hu]
  -- what the call held is in the new chain, the rest is where it was
  have hat : ∀ e p, e ∉ L.held t → (({ L with
      held := update L.held t [], flight := L.flight ++ [a] } : Layout).At F e p ↔ L.At F e p) := by
    intro e p he
    cases p with
    | free => exact Iff.rfl
    | held u =>
      by_cases hu : u = t
      · show e ∈ update L.held t [] u ↔ e ∈ L.held u
        rw [hu, update_self]
        exact iff_of_false not_mem_nil he
      · exact hother u e hu
    | flight b =>
      show (b ∈ L.flight ++ [a] ∧ _) ↔ (b ∈ L.flight ∧ _)
      rw [mem_append, mem_singleton]
      constructor
      · intro hin
        obtain ⟨hb, l, hl, hmem⟩ := hin
        refine ⟨hb.resolve_right fun hba => he ?_, l, hl, hmem⟩
        rw [hba] at hl
        rw [hchain.unique hl]
        exact hmem
      · exact fun hin => ⟨.inl hin.1, hin.2⟩
  constructor
  · exact h.linked
  · exact h.count
  · intro e helt
    by_cases he : e ∈ L.held t
    · refine ⟨.flight a, ⟨mem_append_right _ (mem_singleton_self _), _, hchain, he⟩, ?_⟩
      intro p hp
      cases p with
      | free => cases h.at_one (p := .held t) (q := .free) he hp
      | held u =>
        by_cases hu : u = t
        · change e ∈ update L.held t [] u at hp
          rw [hu, update_self] at hp
          cases hp
        · have hp' := (hother u e hu).mp hp
          cases h.at_one (p := .held t) (q := .held u) he hp'
          exact absurd rfl hu
      | flight b =>
        obtain ⟨hb, l, hl, hmem⟩ := hp
        cases mem_append.mp hb with
        | inl hb => cases h.at_one (p := .held t) (q := .flight b) he ⟨hb, l, hl, hmem⟩
        | inr hb => rw [mem_singleton.mp hb]
    · obtain ⟨p, hp, hone⟩ := h.once e helt
      exact ⟨p, (hat e p he).mpr hp, fun p' hp' => hone p' ((hat e p' he).mp hp')⟩
  · intro e p hp
    by_cases he : e ∈ L.held t
    · exact h.bound e (.held t) he
    · exact h.bound e p ((hat e p he).mp hp)
  · intro u
    show (update L.held t [] u).Nodup
    by_cases hu : u = t
    · rw [hu, update_self]
      exact nodup_nil
    · rw [update_of_ne hu]
      exact h.held_nodup u
  · intro b hb
    cases mem_append.mp hb with
    | inl hb => exact h.chains b hb
    | inr hb =>
      rw [mem_singleton.mp hb]
      exact ⟨_, hchain, h.held_nodup t⟩
  · exact List.nodup_append.mpr ⟨h.flight_nodup, List.nodup_singleton _, fun b hb c hc heq =>
      hnew (mem_singleton.mp hc ▸ heq ▸ hb)⟩

/-- A chain in flight goes back to the free list. -/
lemma free {l flight : List ℕ} {desc : ℕ → VringDesc}
    {free_head free_count : ℕ} (hperm : L.flight.Perm (a :: flight)) (hchain : IsChain L.desc a l)
    (hsame : ∀ d ∉ l, desc d = L.desc d)
    (hlink : Chain.Linked (fun i => (desc i).next) (VQ_NUM ≤ ·) free_head (l.reverse ++ F))
    (hcount : free_count = (l.reverse ++ F).length) :
    Layout.Accounted ⟨desc, free_head, free_count, L.held, flight⟩ (l.reverse ++ F) := by
  have ha : a ∈ L.flight := hperm.mem_iff.mpr mem_cons_self
  obtain ⟨hnot, hnd⟩ := nodup_cons.mp (hperm.nodup_iff.mp h.flight_nodup)
  have hsub : ∀ b ∈ flight, b ∈ L.flight ∧ b ≠ a := fun b hb =>
    ⟨hperm.mem_iff.mpr (List.mem_cons_of_mem _ hb), ne_of_mem_of_not_mem hb hnot⟩
  have hin : ∀ e ∈ l, L.At F e (.flight a) := fun e he => ⟨ha, l, hchain, he⟩
  -- the other chains are apart from the one that is freed
  have hkeep : ∀ b ∈ flight, ∀ m, IsChain L.desc b m → IsChain desc b m := by
    intro b hb m hm
    apply hm.congr
    intro e he
    apply hsame
    intro hel
    have hab := h.at_one (q := .flight b) (hin e hel) ⟨(hsub b hb).1, m, hm, he⟩
    exact (hsub b hb).2 (Place.flight.inj hab).symm
  have hat : ∀ e p, e ∉ l →
      (Layout.At ⟨desc, free_head, free_count, L.held, flight⟩ (l.reverse ++ F) e p ↔ L.At F e p) := by
    intro e p he
    cases p with
    | free =>
      show e ∈ l.reverse ++ F ↔ e ∈ F
      rw [mem_append, List.mem_reverse]
      exact or_iff_right he
    | held u => exact Iff.rfl
    | flight b =>
      constructor
      · intro hp
        obtain ⟨hb, m, hm, hmem⟩ := hp
        obtain ⟨m', hm', -⟩ := h.chains b (hsub b hb).1
        rw [hm.unique (hkeep b hb m' hm')] at hmem
        exact ⟨(hsub b hb).1, m', hm', hmem⟩
      · intro hp
        obtain ⟨hb, m, hm, hmem⟩ := hp
        have hba : b ≠ a := by
          intro hba
          rw [hba] at hm
          rw [hm.unique hchain] at hmem
          exact he hmem
        have hb' := (mem_cons.mp (hperm.mem_iff.mp hb)).resolve_left hba
        exact ⟨hb', m, hkeep b hb' m hm, hmem⟩
  constructor
  · exact hlink
  · exact hcount
  · intro e helt
    by_cases he : e ∈ l
    · refine ⟨.free, List.mem_append_left _ (List.mem_reverse.mpr he), ?_⟩
      intro p hp
      cases p with
      | free => rfl
      | held u => cases h.at_one (q := .held u) (hin e he) hp
      | flight b =>
        obtain ⟨hb, m, hm, hmem⟩ := hp
        obtain ⟨m', hm', -⟩ := h.chains b (hsub b hb).1
        rw [hm.unique (hkeep b hb m' hm')] at hmem
        have hab := h.at_one (q := .flight b) (hin e he) ⟨(hsub b hb).1, m', hm', hmem⟩
        exact absurd (Place.flight.inj hab).symm (hsub b hb).2
    · obtain ⟨p, hp, hone⟩ := h.once e helt
      exact ⟨p, (hat e p he).mpr hp, fun p' hp' => hone p' ((hat e p' he).mp hp')⟩
  · intro e p hp
    by_cases he : e ∈ l
    · exact h.bound e _ (hin e he)
    · exact h.bound e p ((hat e p he).mp hp)
  · exact h.held_nodup
  · intro b hb
    obtain ⟨m, hm, hmnd⟩ := h.chains b (hsub b hb).1
    exact ⟨m, hkeep b hb m hm, hmnd⟩
  · exact hnd

/-- A descriptor that a call lets go without freeing it or putting it in flight is lost. -/
lemma lost (L' : Layout) (hdesc : L'.desc = L.desc)
    (hhead : L'.free_head = L.free_head) (hheld : L'.held = update L.held t [])
    (hflight : ∀ b ∈ L'.flight, b ∈ L.flight ∨ ∃ l, IsChain L.desc b l ∧ d ∉ l) (hd : d ∈ L.held t) :
    ¬ ∃ F', L'.Accounted F' := by
  intro hacc
  obtain ⟨F', h'⟩ := hacc
  have hlink := h'.linked
  rw [hdesc, hhead] at hlink
  obtain ⟨p, hp, -⟩ := h'.once d (h.bound d (.held t) hd)
  cases p with
  | free =>
    rw [hlink.unique h.linked] at hp
    cases h.at_one (p := .held t) (q := .free) hd hp
  | held u =>
    change d ∈ L'.held u at hp
    rw [hheld] at hp
    by_cases hu : u = t
    · rw [hu, update_self] at hp
      cases hp
    · rw [update_of_ne hu] at hp
      cases h.at_one (p := .held t) (q := .held u) hd hp
      exact hu rfl
  | flight b =>
    obtain ⟨hb, l, hl, hmem⟩ := hp
    rw [hdesc] at hl
    cases hflight b hb with
    | inl hold => cases h.at_one (p := .held t) (q := .flight b) hd ⟨hold, l, hl, hmem⟩
    | inr hnew =>
      obtain ⟨l', hl', hmem'⟩ := hnew
      rw [hl.unique hl'] at hmem
      exact hmem' hmem

/-- Every head in flight is a descriptor of its own, so there are at most as many. -/
lemma flight_lt (ha : a ∈ L.flight) : a < VQ_NUM := by
  obtain ⟨l, hl, -⟩ := h.chains a ha
  exact h.bound a (.flight a) ⟨ha, l, hl, hl.head_mem⟩

lemma flight_length : L.flight.length ≤ VQ_NUM :=
  length_le_of_nodup h.flight_nodup fun _ ha => h.flight_lt ha

/-- What a call holds is not in flight. -/
lemma held_not_flight (hd : d ∈ L.held t) : d ∉ L.flight := by
  intro ha
  obtain ⟨l, hl, -⟩ := h.chains d ha
  cases h.at_one (p := .held t) (q := .flight d) hd ⟨ha, l, hl, hl.head_mem⟩

end

end Layout.Accounted

/-! ## What holds in every run -/

/-- The head was submitted for the owner that the callback will look for. -/
def Sys.Fits (s : Sys) (h : ℕ) (o : Owner) : Prop :=
  match s.role with
  | .blk => o = .active
  | .rx => ∃ i < VNET_RX_BUFFERS, o = .slot i ∧ s.slots i = h
  | .tx => o = .vnet

/-- A call in progress. -/
structure CallOk (s : Sys) (c : Call) : Prop where
  role : c.job.role = s.role
  length : c.popped.length ≤ c.job.count
  built : c.filled = true → VQ_NONE ∉ c.popped ∧ ∃ h d rest, c.popped = h :: d :: rest ∧
    rest.length + 2 = c.job.count ∧ IsChain s.q.desc h [h, d]
  slot : ∀ i, c.job = .vnet_post_rx i → i < VNET_RX_BUFFERS ∧
    s.slots i = if c.filled then c.popped.headD VQ_NONE else VNET_SLOT_FREE

structure Inv (s : Sys) : Prop where
  conserved : s.Conserved
  avail_lt : s.seen < U16 ∧ s.q.avail_idx < U16
  used_lt : s.q.last_used < U16 ∧ s.q.used_idx < U16
  call : ∀ t c, s.calls t = some c → CallOk s c
  single : s.role = .rx → ∀ t u, s.calls t ≠ none → s.calls u ≠ none → t = u
  out : ∀ h, s.outstanding h ≠ none ↔ h ∈ s.flight ∧ s.drain.head ≠ some h
  drain : ∀ h, s.drain.head = some h → s.q.last_used ≠ s.q.used_idx ∧ s.front = h
  owner : ∀ h o, s.outstanding h = some o → s.q.owner h = some o ∧ s.Fits h o
  called : ∀ h i, s.drain = .called h (some (.slot i)) → s.slots i = h
  slots : s.role = .rx → ∀ i < VNET_RX_BUFFERS, s.slots i ≠ VNET_SLOT_FREE →
    s.outstanding (s.slots i) = some (.slot i) ∨ s.drain = .called (s.slots i) (some (.slot i)) ∨
      ∃ t c, s.calls t = some c ∧ c.filled = true ∧ c.job = .vnet_post_rx i ∧
        c.popped.headD VQ_NONE = s.slots i

lemma num_dvd : VQ_NUM ∣ U16 := by decide

lemma num_lt : VQ_NUM < U16 := by decide

/-- The first element goes behind the second list. Over variables, since the kernel runs the ring
when it has to compare lists that start with one. -/
lemma perm_hand_over (a : ℕ) (rest hands used : List ℕ) :
    (rest ++ (hands ++ [a]) ++ used).Perm (a :: rest ++ hands ++ used) := by
  simp only [append_assoc, List.cons_append, List.nil_append]
  rw [← append_assoc]
  apply List.perm_middle.trans
  rw [append_assoc]

variable {hands : List ℕ}

/-- A head that is given back leaves the hands for the end of the used list. -/
lemma perm_hand_back {a : ℕ} (ha : a ∈ hands) (avail used : List ℕ) :
    (avail ++ hands.erase a ++ (used ++ [a])).Perm (avail ++ hands ++ used) := by
  simp only [append_assoc]
  apply List.Perm.append_left
  have herase := (List.perm_cons_erase ha).symm
  refine List.Perm.trans ?_ (herase.append_right _)
  rw [List.cons_append, ← append_assoc]
  exact List.perm_append_comm

/-- The device takes a head out of the available ring. -/
lemma take_perm {ring : ℕ → ℕ} {seen idx : ℕ} {used : List ℕ} (hseen : seen < U16)
    (hidx : idx < U16) (hne : seen ≠ idx) :
    (queued VQ_NUM U16 ring ((seen + 1) % U16) idx ++ (hands ++ [ring (seen % VQ_NUM)]) ++
      used).Perm (queued VQ_NUM U16 ring seen idx ++ hands ++ used) := by
  rw [queued_pop num_dvd hseen hidx hne]
  exact perm_hand_over _ _ _ _

/-- The device puts a head into the used ring. -/
lemma give_perm {ring : ℕ → ℕ} {last idx a : ℕ} (hlast : last < U16)
    (hidx : idx < U16) (hroom : dist U16 last idx < VQ_NUM) (ha : a ∈ hands)
    (avail : List ℕ) :
    (avail ++ hands.erase a ++ queued VQ_NUM U16 (update ring (idx % VQ_NUM) a) last
      ((idx + 1) % U16)).Perm (avail ++ hands ++ queued VQ_NUM U16 ring last idx) := by
  rw [queued_push num_dvd hlast hidx hroom num_lt]
  exact perm_hand_back ha _ _

namespace Sys

variable {s : Sys} {t : Task} {c : Call}

lemma held_setCall (c : Option Call) :
    (s.setCall t c).held = update s.held t (c.elim [] Call.descs) := by
  funext u
  show (update s.calls t c u).elim [] Call.descs = _
  by_cases hu : u = t
  · rw [hu, update_self, update_self]
  · rw [update_of_ne hu, update_of_ne hu]
    rfl

lemma held_eq (hc : s.calls t = some c) : s.held t = c.descs := by
  unfold held
  rw [hc]
  rfl

end Sys

lemma descs_eq {c : Call} (h : VQ_NONE ∉ c.popped) : c.descs = c.popped :=
  List.filter_eq_self.mpr fun _ hd => decide_eq_true (ne_of_mem_of_not_mem hd h)

/-- Two descriptors, the first of which leads to the second. -/
lemma pair_chain (q : Virtq) {h d : ℕ} (hne : h ≠ d) {a b : VringDesc} (ha : a.flags &&& VRING_DESC_F_NEXT ≠ 0)
    (hlink : a.next = d) (hb : b.flags &&& VRING_DESC_F_NEXT = 0) :
    IsChain ((q.setDesc h a).setDesc d b).desc h [h, d] ∧
      ∀ e ∉ [h, d], ((q.setDesc h a).setDesc d b).desc e = q.desc e := by
  have hhead : update (update q.desc h a) d b h = a := by
    rw [update_of_ne hne, update_self]
  constructor
  · apply IsChain.pair
    · show VringDesc.hasNext (update (update q.desc h a) d b h) = true
      rw [hhead]
      exact decide_eq_true ha
    · show VringDesc.next (update (update q.desc h a) d b h) = d
      rw [hhead]
      exact hlink
    · show VringDesc.hasNext (update (update q.desc h a) d b d) = false
      rw [update_self]
      exact decide_eq_false (not_not_intro hb)
  · intro e he
    simp only [mem_cons, not_mem_nil, or_false, not_or] at he
    show update (update q.desc h a) d b e = q.desc e
    rw [update_of_ne he.2, update_of_ne he.1]

/-- The chain that is written into descriptors, all different; the status descriptor of the disk
is not in it, as nothing leads there. -/
lemma build_chain (q : Virtq) (job : Job) (popped : List ℕ) (hlen : popped.length = job.count)
    (hnd : popped.Nodup) :
    (∃ h d rest, popped = h :: d :: rest ∧ rest.length + 2 = job.count ∧
      IsChain (job.build q popped).desc h [h, d]) ∧
    (∀ d ∉ popped, (job.build q popped).desc d = q.desc d) ∧
    job.build q popped = { q with desc := (job.build q popped).desc } := by
  cases job with
  | vblk_rw write nsect =>
    obtain ⟨h, d, e, rfl⟩ := List.length_eq_three.mp hlen
    simp only [nodup_cons, mem_cons, not_mem_nil, or_false, not_or,
      nodup_nil, not_false_eq_true, and_true] at hnd
    obtain ⟨⟨hd, he⟩, hde⟩ := hnd
    have hdata : (if write then (0 : BitVec 16) else VRING_DESC_F_WRITE) &&& VRING_DESC_F_NEXT = 0 := by
      cases write <;> rfl
    obtain ⟨hchain, hother⟩ := pair_chain q hd
      (a := ⟨some (.st_hdr, 0), 16, VRING_DESC_F_NEXT, d⟩)
      (b := ⟨some (.st_data, 0), nsect * BLK_SECTOR_SIZE, if write then 0 else VRING_DESC_F_WRITE, e⟩)
      (show VRING_DESC_F_NEXT &&& VRING_DESC_F_NEXT ≠ 0 by decide) rfl hdata
    refine ⟨⟨h, d, [e], rfl, rfl, ?_⟩, ?_, rfl⟩
    · apply hchain.congr
      intro a ha
      apply update_of_ne
      intro hae
      rw [hae, mem_pair] at ha
      exact ha.elim (fun h => he h.symm) (fun h => hde h.symm)
    · intro a ha
      rw [mem_cons, mem_cons, mem_singleton, not_or, not_or] at ha
      refine (update_of_ne ha.2.2 _ _).trans (hother a ?_)
      rw [mem_pair]
      exact not_or.mpr ⟨ha.1, ha.2.1⟩
  | vnet_post_rx i =>
    obtain ⟨h, d, rfl⟩ := List.length_eq_two.mp hlen
    obtain ⟨hchain, hother⟩ := pair_chain q (show h ≠ d by simpa using hnd)
      (a := ⟨some (.slot i, 0), VNET_HDR_LEN, VRING_DESC_F_WRITE ||| VRING_DESC_F_NEXT, d⟩)
      (b := ⟨some (.slot i, VNET_HDR_LEN), VNET_FRAME_LEN, VRING_DESC_F_WRITE, 0⟩)
      (show (VRING_DESC_F_WRITE ||| VRING_DESC_F_NEXT) &&& VRING_DESC_F_NEXT ≠ 0 by decide) rfl
      (show VRING_DESC_F_WRITE &&& VRING_DESC_F_NEXT = 0 by decide)
    exact ⟨⟨h, d, [], rfl, rfl, hchain⟩, hother, rfl⟩
  | virtio_net_send len =>
    obtain ⟨h, d, rfl⟩ := List.length_eq_two.mp hlen
    obtain ⟨hchain, hother⟩ := pair_chain q (show h ≠ d by simpa using hnd)
      (a := ⟨some (.tx_buf, 0), VNET_HDR_LEN, VRING_DESC_F_NEXT, d⟩)
      (b := ⟨some (.tx_buf, VNET_HDR_LEN), len, 0, 0⟩)
      (show VRING_DESC_F_NEXT &&& VRING_DESC_F_NEXT ≠ 0 by decide) rfl
      (show (0 : BitVec 16) &&& VRING_DESC_F_NEXT = 0 by decide)
    exact ⟨⟨h, d, [], rfl, rfl, hchain⟩, hother, rfl⟩

section Steps

variable {s : Sys} {t : Task} {c : Call}

lemma CallOk.frame {s' : Sys} (h : CallOk s c) (hrole : s'.role = s.role)
    (hdesc : c.filled = true → ∀ d ∈ c.popped, s'.q.desc d = s.q.desc d)
    (hslot : ∀ i, c.job = .vnet_post_rx i → s'.slots i = s.slots i) : CallOk s' c where
  role := h.role.trans hrole.symm
  length := h.length
  built := by
    intro hfilled
    obtain ⟨hall, a, d, rest, hpopped, hrest, hchain⟩ := h.built hfilled
    refine ⟨hall, a, d, rest, hpopped, hrest, hchain.congr fun e he => hdesc hfilled e ?_⟩
    rw [hpopped]
    cases mem_pair.mp he with
    | inl he => exact he ▸ mem_cons_self
    | inr he => exact he ▸ List.mem_cons_of_mem _ mem_cons_self
  slot := by
    intro i hi
    obtain ⟨hlt, hslots⟩ := h.slot i hi
    exact ⟨hlt, (hslot i hi).trans hslots⟩

namespace Inv

section

variable (h : Inv s)
include h

variable {a : ℕ}

lemma flight_lt (ha : a ∈ s.flight) : a < VQ_NUM := by
  obtain ⟨F, hacc⟩ := h.conserved
  exact hacc.flight_lt ha

/-- The descriptors of a call with all its descriptors are not in flight. -/
lemma not_flight (hc : s.calls t = some c) (hall : VQ_NONE ∉ c.popped) {d : ℕ}
    (hd : d ∈ c.popped) : d ∉ s.flight ∧ d < VQ_NUM := by
  obtain ⟨F, hacc⟩ := h.conserved
  have hheld : d ∈ s.layout.held t := by
    show d ∈ s.held t
    rw [Sys.held_eq hc, descs_eq hall]
    exact hd
  exact ⟨hacc.held_not_flight hheld, hacc.bound d (.held t) hheld⟩

/-- A call begins with no descriptor in hand. -/
lemma begin {job : Job} (hidle : s.calls t = none) (hrole : job.role = s.role)
    (hstarts : s.Starts job) : Inv (s.act (.begin t job)) where
  conserved := by
    have hheld : (s.act (.begin t job)).held = s.held := by
      show (s.setCall t (some ⟨job, [], false⟩)).held = s.held
      rw [Sys.held_setCall]
      funext u
      by_cases hu : u = t
      · rw [hu, update_self]
        unfold Sys.held
        rw [hidle]
        rfl
      · rw [update_of_ne hu]
    have hlayout : (s.act (.begin t job)).layout = s.layout := by
      unfold Sys.layout
      rw [hheld]
      rfl
    unfold Sys.Conserved
    rw [hlayout]
    exact h.conserved
  avail_lt := h.avail_lt
  used_lt := h.used_lt
  call := by
    intro u c hc
    change update s.calls t _ u = some c at hc
    by_cases hu : u = t
    · rw [hu, update_self] at hc
      obtain rfl := Option.some.inj hc
      refine ⟨hrole, Nat.zero_le _, nofun, ?_⟩
      intro i hi
      change job = .vnet_post_rx i at hi
      rw [hi] at hstarts
      exact ⟨hstarts.1, hstarts.2.1⟩
    · rw [update_of_ne hu] at hc
      exact (h.call u c hc).frame rfl (fun _ _ _ => rfl) fun _ _ => rfl
  single := by
    intro hrx u v hu hv
    change s.role = .rx at hrx
    -- only the refill builds chains of the receive queue, and it has none under way
    have hnone : ∀ w, s.calls w = none := by
      cases job with
      | vblk_rw write nsect => rw [hrx] at hrole; cases hrole
      | vnet_post_rx i => exact hstarts.2.2
      | virtio_net_send len => rw [hrx] at hrole; cases hrole
    have hat : ∀ w, (s.act (.begin t job)).calls w ≠ none → w = t := by
      intro w hw
      by_contra hne
      apply hw
      exact (update_of_ne hne _ _).trans (hnone w)
    rw [hat u hu, hat v hv]
  out := h.out
  drain := h.drain
  owner := h.owner
  called := h.called
  slots := by
    intro hrx i hi hslot
    obtain hout | hcalled | ⟨u, c, hc, hfilled, hhead⟩ := h.slots hrx i hi hslot
    · exact .inl hout
    · exact .inr (.inl hcalled)
    · refine .inr (.inr ⟨u, c, ?_, hfilled, hhead⟩)
      have hu : u ≠ t := by
        intro hu
        rw [hu, hidle] at hc
        cases hc
      exact (update_of_ne hu _ _).trans hc

section

variable (hc : s.calls t = some c)
include hc

/-- A call that was under way goes on, or ends. -/
lemma single_update (c' : Option Call) (hrx : s.role = .rx)
    (u v : Task) (hu : update s.calls t c' u ≠ none) (hv : update s.calls t c' v ≠ none) : u = v := by
  have hat : ∀ w, update s.calls t c' w ≠ none → s.calls w ≠ none := by
    intro w hw
    by_cases hwt : w = t
    · rw [hwt, hc]
      exact nofun
    · rw [update_of_ne hwt] at hw
      exact hw
  exact h.single hrx u v (hat u hu) (hat v hv)

/-- A slot that is armed belongs to a head in flight or to a call that has filled its chain, which
is another one than a call that has not. -/
lemma slots_update (hfilled : c.filled = false)
    (c' : Option Call) (hrx : s.role = .rx) (i : ℕ) (hi : i < VNET_RX_BUFFERS)
    (hslot : s.slots i ≠ VNET_SLOT_FREE) :
    s.outstanding (s.slots i) = some (.slot i) ∨ s.drain = .called (s.slots i) (some (.slot i)) ∨
      ∃ u d, update s.calls t c' u = some d ∧ d.filled = true ∧ d.job = .vnet_post_rx i ∧
        d.popped.headD VQ_NONE = s.slots i := by
  obtain hout | hcalled | ⟨u, d, hd, hf, hhead⟩ := h.slots hrx i hi hslot
  · exact .inl hout
  · exact .inr (.inl hcalled)
  · refine .inr (.inr ⟨u, d, ?_, hf, hhead⟩)
    have hu : u ≠ t := by
      intro hu
      rw [hu, hc] at hd
      rw [← Option.some.inj hd, hfilled] at hf
      cases hf
    exact (update_of_ne hu _ _).trans hd

lemma not_filled (hlt : c.popped.length < c.job.count) :
    c.filled = false := by
  cases hfilled : c.filled with
  | false => rfl
  | true =>
    obtain ⟨-, a, d, rest, hpopped, hrest, -⟩ := (h.call t c hc).built hfilled
    rw [hpopped, length_cons, length_cons] at hlt
    omega

/-- A call gets one more result of `virtq_pop_desc`. -/
lemma popped (hlt : c.popped.length < c.job.count)
    {r free_head free_count : ℕ}
    (hcons : Sys.Conserved { s.setCall t (some { c with popped := c.popped ++ [r] }) with
      q := { s.q with free_head := free_head, free_count := free_count } }) :
    Inv { s.setCall t (some { c with popped := c.popped ++ [r] }) with
      q := { s.q with free_head := free_head, free_count := free_count } } where
  conserved := hcons
  avail_lt := h.avail_lt
  used_lt := h.used_lt
  call := by
    intro u c' hc'
    change update s.calls t _ u = some c' at hc'
    by_cases hu : u = t
    · rw [hu, update_self] at hc'
      obtain rfl := Option.some.inj hc'
      have hok := h.call t c hc
      have hfilled := h.not_filled hc hlt
      refine ⟨hok.role, ?_, ?_, ?_⟩
      · rw [length_append, List.length_singleton]
        exact hlt
      · intro hf
        exact absurd hf (by rw [hfilled]; exact Bool.false_ne_true)
      · intro i hi
        have hslot := hok.slot i hi
        rw [hfilled] at hslot
        rw [hfilled]
        exact hslot
    · rw [update_of_ne hu] at hc'
      exact (h.call u c' hc').frame rfl (fun _ _ _ => rfl) fun _ _ => rfl
  single := h.single_update hc _
  out := h.out
  drain := h.drain
  owner := h.owner
  called := h.called
  slots := h.slots_update hc (h.not_filled hc hlt) _

/-- The head of the free list comes into the hands of a call. -/
lemma pop (hlt : c.popped.length < c.job.count) :
    Inv (s.act (.pop t)) := by
  obtain ⟨F, hacc⟩ := h.conserved
  have hfree : FreeList s.q F := ⟨hacc.linked, hacc.count⟩
  have hact : s.act (.pop t) = { s.setCall t
      (some { c with popped := c.popped ++ [s.q.virtqPopDesc.1] }) with q := s.q.virtqPopDesc.2 } := by
    rw [act, hc]
  have hheld : ∀ r, (s.setCall t (some { c with popped := c.popped ++ [r] })).held =
      update s.held t (c.descs ++ [r].filter (· ≠ VQ_NONE)) := by
    intro r
    rw [Sys.held_setCall]
    exact congrArg (update s.held t) (List.filter_append _ _)
  rw [hact]
  obtain ⟨-, hpop⟩ | ⟨d, F', rfl, hd, hpop, -⟩ := hfree.pop
  · rw [hpop]
    apply h.popped hc hlt
    refine ⟨F, ?_⟩
    have hsame : Sys.layout { s.setCall t (some { c with popped := c.popped ++ [VQ_NONE] }) with
        q := { s.q with free_head := s.q.free_head, free_count := s.q.free_count } } = s.layout := by
      have hnone : c.descs ++ [VQ_NONE].filter (· ≠ VQ_NONE) = c.descs := List.append_nil _
      show Layout.mk _ _ _ (s.setCall t (some { c with popped := c.popped ++ [VQ_NONE] })).held _ = _
      rw [hheld, hnone, ← Sys.held_eq hc, Function.update_eq_self]
      rfl
    rw [hsame]
    exact hacc
  · rw [hpop]
    apply h.popped hc hlt
    refine ⟨F', ?_⟩
    have hsome : c.descs ++ [d].filter (· ≠ VQ_NONE) = s.held t ++ [d] := by
      have hne : d ≠ VQ_NONE := by
        unfold VQ_NUM at hd
        unfold VQ_NONE
        omega
      have hkept : [d].filter (· ≠ VQ_NONE) = [d] := by simp [hne]
      rw [Sys.held_eq hc, hkept]
    have hlayout := hacc.pop t
    show Layout.Accounted (Layout.mk _ _ _
      (s.setCall t (some { c with popped := c.popped ++ [d] })).held _) F'
    rw [hheld, hsome]
    exact hlayout

/-- A call that lacks a descriptor gives up: nothing is lost exactly if it has not got any. -/
lemma giveUp (hfilled : c.filled = false)
    (hdescs : c.descs = []) : Inv (s.setCall t none) where
  conserved := by
    have hlayout : (s.setCall t none).layout = s.layout := by
      unfold Sys.layout
      rw [Sys.held_setCall]
      show Layout.mk _ _ _ (update s.held t []) _ = _
      rw [← hdescs, ← Sys.held_eq hc, Function.update_eq_self]
      rfl
    unfold Sys.Conserved
    rw [hlayout]
    exact h.conserved
  avail_lt := h.avail_lt
  used_lt := h.used_lt
  call := by
    intro u c' hc'
    change update s.calls t none u = some c' at hc'
    by_cases hu : u = t
    · rw [hu, update_self] at hc'
      cases hc'
    · rw [update_of_ne hu] at hc'
      exact (h.call u c' hc').frame rfl (fun _ _ _ => rfl) fun _ _ => rfl
  single := h.single_update hc _
  out := h.out
  drain := h.drain
  owner := h.owner
  called := h.called
  slots := h.slots_update hc hfilled _

end

lemma front_mem (hne : s.q.last_used ≠ s.q.used_idx) : s.front ∈ s.flight := by
  apply mem_append_right
  rw [queued_pop num_dvd h.used_lt.1 h.used_lt.2 hne]
  exact mem_cons_self

/-- The head in the hands of the drain is in flight still. -/
lemma drain_mem (ha : s.drain.head = some a) : a ∈ s.flight := by
  obtain ⟨hne, hfront⟩ := h.drain a ha
  rw [← hfront]
  exact h.front_mem hne

lemma out_mem {o : Owner} (ha : s.outstanding a = some o) :
    a ∈ s.flight ∧ s.drain.head ≠ some a := by
  apply (h.out a).mp
  rw [ha]
  exact nofun

end

variable {a : ℕ}

lemma num_ne (ha : a < VQ_NUM) : a ≠ VNET_SLOT_FREE := by
  unfold VQ_NUM at ha
  unfold VNET_SLOT_FREE
  omega

/-- What `fill` does to the slots. -/
def filledSlots (s : Sys) (c : Call) : ℕ → ℕ :=
  match c.job with
  | .vnet_post_rx i => update s.slots i (c.popped.headD VQ_NONE)
  | _ => s.slots

variable {i : ℕ}

lemma filledSlots_of_ne (hi : c.job ≠ .vnet_post_rx i) : filledSlots s c i = s.slots i := by
  unfold filledSlots
  cases hjob : c.job with
  | vblk_rw write nsect => rfl
  | vnet_post_rx j =>
    apply update_of_ne
    intro hij
    rw [hij] at hi
    exact hi hjob
  | virtio_net_send len => rfl

lemma filledSlots_self (hi : c.job = .vnet_post_rx i) :
    filledSlots s c i = c.popped.headD VQ_NONE := by
  unfold filledSlots
  rw [hi]
  exact update_self _ _ _

section

variable (h : Inv s) (hc : s.calls t = some c)
include h hc

/-- Chaining what a call holds moves no descriptor. -/
lemma fill (hlen : c.popped.length = c.job.count)
    (hfilled : c.filled = false) (hall : VQ_NONE ∉ c.popped) : Inv (s.act (.fill t)) := by
  obtain ⟨F, hacc⟩ := h.conserved
  have hheld : s.held t = c.popped := (Sys.held_eq hc).trans (descs_eq hall)
  have hnd : c.popped.Nodup := by
    rw [← hheld]
    exact hacc.held_nodup t
  obtain ⟨⟨a, d, rest, hpopped, hrest, hchain⟩, hsame, hshape⟩ := build_chain s.q c.job c.popped hlen hnd
  generalize (c.job.build s.q c.popped).desc = desc at hchain hsame hshape
  have hact : s.act (.fill t) = { s.setCall t (some { c with filled := true }) with
      q := { s.q with desc := desc }, slots := filledSlots s c } := by
    rw [act, hc]
    simp only [if_neg hall, hshape]
    rfl
  -- the slot that is armed was free
  have hslot : ∀ i, s.slots i ≠ VNET_SLOT_FREE → filledSlots s c i = s.slots i := by
    intro i hi
    apply filledSlots_of_ne
    intro hjob
    have hs := ((h.call t c hc).slot i hjob).2
    rw [hfilled] at hs
    exact hi hs
  rw [hact]
  constructor
  · refine ⟨F, ?_⟩
    have hwrite := hacc.write (t := t) desc fun e he => by
      apply hsame
      rw [← hheld]
      exact he
    show Layout.Accounted (Layout.mk _ _ _
      (s.setCall t (some { c with filled := true })).held _) F
    rw [Sys.held_setCall]
    show Layout.Accounted (Layout.mk _ _ _ (update s.held t c.descs) _) F
    rw [← Sys.held_eq hc, Function.update_eq_self]
    exact hwrite
  · exact h.avail_lt
  · exact h.used_lt
  · intro u c' hc'
    change update s.calls t _ u = some c' at hc'
    by_cases hu : u = t
    · rw [hu, update_self] at hc'
      obtain rfl := Option.some.inj hc'
      have hok := h.call t c hc
      refine ⟨hok.role, hok.length, fun _ => ⟨hall, a, d, rest, hpopped, hrest, hchain⟩, ?_⟩
      intro i hi
      change c.job = .vnet_post_rx i at hi
      refine ⟨(hok.slot i hi).1, ?_⟩
      show filledSlots s c i = _
      rw [filledSlots_self hi]
      rfl
    · rw [update_of_ne hu] at hc'
      apply CallOk.frame (h.call u c' hc')
      · rfl
      · intro hf e he
        apply hsame
        intro hmem
        have hother : e ∈ s.held u := by
          rw [Sys.held_eq hc', descs_eq ((h.call u c' hc').built hf).1]
          exact he
        rw [← hheld] at hmem
        have htu := hacc.at_one (p := .held u) (q := .held t) hother hmem
        exact hu (Place.held.inj htu)
      · intro i hi
        -- the receive queue has no other call
        have hrx : s.role = .rx := by
          rw [← (h.call u c' hc').role, hi]
          rfl
        exact absurd (h.single hrx u t (by rw [hc']; exact nofun) (by rw [hc]; exact nofun)) hu
  · exact h.single_update hc _
  · exact h.out
  · exact h.drain
  · intro b o hb
    obtain ⟨hown, hfits⟩ := h.owner b o hb
    refine ⟨hown, ?_⟩
    have hlt := h.flight_lt (h.out_mem hb).1
    show Sys.Fits { s with slots := filledSlots s c } b o
    unfold Sys.Fits at *
    cases hrole : s.role with
    | blk => rw [hrole] at hfits; exact hfits
    | tx => rw [hrole] at hfits; exact hfits
    | rx =>
      rw [hrole] at hfits
      obtain ⟨i, hi, ho, hs⟩ := hfits
      exact ⟨i, hi, ho, (hslot i (by rw [hs]; exact num_ne hlt)).trans hs⟩
  · intro b i hb
    have hs := h.called b i hb
    have hlt := h.flight_lt (h.drain_mem (a := b) (by rw [show s.drain = _ from hb]; rfl))
    exact (hslot i (by rw [hs]; exact num_ne hlt)).trans hs
  · intro hrx i hi hs
    change filledSlots s c i ≠ _ at hs
    show s.outstanding (filledSlots s c i) = _ ∨ s.drain = .called (filledSlots s c i) _ ∨
      ∃ u e, update s.calls t (some { c with filled := true }) u = some e ∧ e.filled = true ∧
        e.job = .vnet_post_rx i ∧ e.popped.headD VQ_NONE = filledSlots s c i
    by_cases hjob : c.job = .vnet_post_rx i
    · rw [filledSlots_self hjob]
      exact .inr (.inr ⟨t, _, update_self _ _ _, rfl, hjob, rfl⟩)
    · rw [filledSlots_of_ne hjob] at hs ⊢
      exact h.slots_update hc hfilled _ hrx i hi hs

section

variable (hfilled : c.filled = true)
include hfilled

/-- A chain of the NIC has all the descriptors that its call holds. -/
lemma whole_chain (hrole : c.job.role ≠ .blk) : ∃ a d, c.popped = [a, d] ∧ s.held t = [a, d] ∧
      IsChain s.q.desc a [a, d] := by
  obtain ⟨hall, a, d, rest, hpopped, hrest, hchain⟩ := (h.call t c hc).built hfilled
  have hcount : c.job.count = 2 := by
    cases hjob : c.job with
    | vblk_rw write nsect => rw [hjob] at hrole; exact absurd rfl hrole
    | vnet_post_rx i => rfl
    | virtio_net_send len => rfl
  have hnil : rest = [] := List.length_eq_zero_iff.mp (by omega)
  rw [hnil] at hpopped
  exact ⟨a, d, hpopped, (Sys.held_eq hc).trans ((descs_eq hall).trans hpopped), hchain⟩

/-- What a call is about to submit is not in flight, so the available ring has room. -/
lemma room :
    c.popped.headD VQ_NONE ∉ s.flight ∧ dist U16 s.seen s.q.avail_idx < VQ_NUM := by
  obtain ⟨F, hacc⟩ := h.conserved
  obtain ⟨hall, a, d, rest, hpopped, -⟩ := (h.call t c hc).built hfilled
  obtain ⟨hnot, hlt⟩ := h.not_flight hc hall (d := a) (by rw [hpopped]; exact mem_cons_self)
  rw [hpopped]
  refine ⟨hnot, ?_⟩
  have hlen : (a :: s.flight).length ≤ VQ_NUM := by
    apply length_le_of_nodup (nodup_cons.mpr ⟨hnot, hacc.flight_nodup⟩)
    intro e he
    cases mem_cons.mp he with
    | inl he => rw [he]; exact hlt
    | inr he => exact hacc.flight_lt he
  unfold Sys.flight at hlen
  rw [length_cons, length_append, length_append, Ring.queued_length] at hlen
  omega

lemma submit_law :
    SubmitLaw s (c.popped.headD VQ_NONE) := by
  obtain ⟨hnot, hroom⟩ := h.room hc hfilled
  constructor
  · by_contra hout
    exact hnot ((h.out _).mp hout).1
  · intro k hk
    rw [← Ring.cell_eq num_dvd h.avail_lt.1 h.avail_lt.2]
    exact Ring.cell_ne hk (by omega)

/-- All that a call holds is put in flight, as one chain. -/
lemma submit (hrole : c.job.role ≠ .blk) : Inv (s.act (.submit t)) := by
  obtain ⟨F, hacc⟩ := h.conserved
  obtain ⟨hnot, hroom⟩ := h.room hc hfilled
  obtain ⟨a, d, hpopped, hheld, hchain⟩ := h.whole_chain hc hfilled hrole
  have hok := h.call t c hc
  have hact : s.act (.submit t) = { s.setCall t none with
      q := s.q.virtqSubmit a c.job.owner
      tx_busy := if c.job.role = .tx then true else s.tx_busy
      outstanding := update s.outstanding a (some c.job.owner) } := by
    rw [act, hc]
    simp only [hpopped, List.headD_cons]
  rw [hpopped, List.headD_cons] at hnot
  have hflight : (s.act (.submit t)).flight.Perm (s.flight ++ [a]) := by
    rw [hact]
    show (queued VQ_NUM U16 (update s.q.avail_ring (s.q.avail_idx % VQ_NUM) a) s.seen
      ((s.q.avail_idx + 1) % U16) ++ s.hands ++ _).Perm _
    rw [queued_push num_dvd h.avail_lt.1 h.avail_lt.2 hroom num_lt]
    unfold Sys.flight
    simp only [append_assoc]
    apply List.Perm.append_left
    rw [← append_assoc s.hands]
    exact List.perm_append_comm
  have hmem : ∀ b, b ≠ a → (b ∈ (s.act (.submit t)).flight ↔ b ∈ s.flight) := by
    intro b hb
    rw [hflight.mem_iff, mem_append, mem_singleton]
    exact or_iff_left hb
  have hdrain : s.drain.head ≠ some a := fun ha => hnot (h.drain_mem ha)
  constructor
  · refine ⟨F, ?_⟩
    have hsub := hacc.submit (t := t) (a := a) (by rw [show s.layout.held t = _ from hheld]; exact hchain)
    have hperm := hsub.perm hflight
    unfold Sys.layout
    have hheld' : (s.act (.submit t)).held = update s.held t [] := by
      rw [hact]
      exact Sys.held_setCall none
    rw [hheld', hact]
    rw [hact] at hperm
    exact hperm
  · rw [hact]
    exact ⟨h.avail_lt.1, Nat.mod_lt _ (by decide)⟩
  · rw [hact]
    exact h.used_lt
  · rw [hact]
    intro u c' hc'
    change update s.calls t none u = some c' at hc'
    by_cases hu : u = t
    · rw [hu, update_self] at hc'
      cases hc'
    · rw [update_of_ne hu] at hc'
      exact (h.call u c' hc').frame rfl (fun _ _ _ => rfl) fun _ _ => rfl
  · rw [hact]
    exact h.single_update hc _
  · intro b
    by_cases hb : b = a
    · rw [hb]
      apply iff_of_true
      · rw [hact]
        show update s.outstanding a (some c.job.owner) a ≠ none
        rw [update_self]
        exact nofun
      · refine ⟨hflight.mem_iff.mpr (mem_append_right _ (mem_singleton_self _)), ?_⟩
        rw [hact]
        exact hdrain
    · rw [hmem b hb, hact]
      show update s.outstanding a (some c.job.owner) b ≠ none ↔ _
      rw [update_of_ne hb]
      exact h.out b
  · rw [hact]
    exact h.drain
  · rw [hact]
    intro b o hb
    change update s.outstanding a (some c.job.owner) b = some o at hb
    show update s.q.owner a (some c.job.owner) b = some o ∧ s.Fits b o
    by_cases hba : b = a
    · rw [hba, update_self] at hb
      rw [hba, update_self]
      refine ⟨hb, ?_⟩
      rw [← Option.some.inj hb]
      unfold Sys.Fits
      rw [← hok.role]
      cases hjob : c.job with
      | vblk_rw write nsect => rfl
      | vnet_post_rx i =>
        obtain ⟨hi, hs⟩ := hok.slot i hjob
        rw [hfilled, hpopped] at hs
        exact ⟨i, hi, rfl, hs⟩
      | virtio_net_send len => rfl
    · rw [update_of_ne hba] at hb ⊢
      exact h.owner b o hb
  · rw [hact]
    exact h.called
  · rw [hact]
    intro hrx i hi hs
    show update s.outstanding a (some c.job.owner) (s.slots i) = _ ∨ s.drain = _ ∨
      ∃ u e, update s.calls t none u = some e ∧ _
    obtain hout | hcalled | ⟨u, e, he, hf, hjob, hhead⟩ := h.slots hrx i hi hs
    · left
      rw [update_of_ne _]
      · exact hout
      · intro heq
        exact hnot (heq ▸ (h.out_mem hout).1)
    · exact .inr (.inl hcalled)
    · by_cases hu : u = t
      · left
        rw [hu, hc] at he
        rw [← Option.some.inj he] at hjob hhead
        rw [hpopped] at hhead
        rw [← hhead, hjob]
        exact update_self _ _ _
      · exact .inr (.inr ⟨u, e, (update_of_ne hu _ _).trans he, hf, hjob, hhead⟩)

end

end

/-- The heads in flight change hands between the rings and the device. -/
lemma moved (h : Inv s) {q : Virtq} {seen : ℕ} {hands : List ℕ}
    (hq : q = { s.q with used_ring := q.used_ring, used_idx := q.used_idx })
    (hperm : Sys.flight { s with q := q, seen := seen, hands := hands } |>.Perm s.flight)
    (hseen : seen < U16) (hidx : q.used_idx < U16)
    (hdrain : ∀ a, s.drain.head = some a → s.q.last_used ≠ q.used_idx ∧
      q.used_ring (s.q.last_used % VQ_NUM) = a) :
    Inv { s with q := q, seen := seen, hands := hands } := by
  obtain ⟨F, hacc⟩ := h.conserved
  constructor
  · refine ⟨F, ?_⟩
    have hmove := hacc.perm hperm
    rw [hq] at hmove ⊢
    exact hmove
  · rw [hq]
    exact ⟨hseen, h.avail_lt.2⟩
  · rw [hq]
    exact ⟨h.used_lt.1, hidx⟩
  · intro u c hc
    apply CallOk.frame (h.call u c hc)
    · rfl
    · intro _ e _
      rw [hq]
    · exact fun _ _ => rfl
  · exact h.single
  · intro b
    rw [hperm.mem_iff]
    exact h.out b
  · intro b hb
    rw [hq]
    exact hdrain b hb
  · intro b o hb
    rw [hq]
    exact h.owner b o hb
  · exact h.called
  · exact h.slots

lemma take (h : Inv s) (hne : s.seen ≠ s.q.avail_idx) : Inv (s.act .take) :=
  h.moved (q := s.q) rfl (take_perm h.avail_lt.1 h.avail_lt.2 hne) (Nat.mod_lt _ (by decide))
    h.used_lt.2 h.drain

lemma give (h : Inv s) (ha : a ∈ s.hands) : Inv (s.act (.give a)) := by
  obtain ⟨F, hacc⟩ := h.conserved
  -- the head itself is not in the used ring, so the ring has room for it
  have hroom : dist U16 s.q.last_used s.q.used_idx < VQ_NUM := by
    have hlen := hacc.flight_length
    have hpos := List.length_pos_of_mem ha
    change s.flight.length ≤ VQ_NUM at hlen
    unfold Sys.flight at hlen
    rw [length_append, length_append, Ring.queued_length, Ring.queued_length] at hlen
    omega
  have hpush := queued_push (b := s.q.used_ring) num_dvd h.used_lt.1 h.used_lt.2 hroom num_lt a
  refine h.moved (q := { s.q with
    used_ring := update s.q.used_ring (s.q.used_idx % VQ_NUM) a
    used_idx := (s.q.used_idx + 1) % U16 }) rfl
    (give_perm h.used_lt.1 h.used_lt.2 hroom ha _) h.avail_lt.1 (Nat.mod_lt _ (by decide)) ?_
  intro b hb
  obtain ⟨hne, hfront⟩ := h.drain b hb
  have hne' : s.q.last_used ≠ (s.q.used_idx + 1) % U16 := by
    intro heq
    rw [← heq, Ring.queued_self] at hpush
    exact List.append_ne_nil_of_right_ne_nil _ (List.cons_ne_nil _ _) hpush.symm
  refine ⟨hne', ?_⟩
  rw [queued_pop num_dvd h.used_lt.1 (Nat.mod_lt _ (by decide)) hne',
    queued_pop num_dvd h.used_lt.1 h.used_lt.2 hne, List.cons_append] at hpush
  exact (List.cons.inj hpush).1.trans hfront

/-- The callback finds the owner that the head was submitted with. -/
lemma complete_law (h : Inv s) (hidle : s.drain = .idle) (hne : s.q.last_used ≠ s.q.used_idx) :
    s.outstanding s.front ≠ none ∧ s.found s.front = s.outstanding s.front := by
  have hmem := h.front_mem hne
  have hout : s.outstanding s.front ≠ none := by
    apply (h.out _).mpr
    rw [hidle]
    exact ⟨hmem, nofun⟩
  refine ⟨hout, ?_⟩
  obtain ⟨o, ho⟩ := Option.ne_none_iff_exists'.mp hout
  obtain ⟨hown, hfits⟩ := h.owner s.front o ho
  rw [ho]
  unfold Sys.Fits at hfits
  unfold Sys.found
  cases hrole : s.role with
  | blk =>
    rw [hrole] at hfits
    rw [hfits] at hown ⊢
    exact if_pos hown
  | tx =>
    rw [hrole] at hfits
    rw [hfits]
  | rx =>
    rw [hrole] at hfits
    obtain ⟨i, hi, rfl, hs⟩ := hfits
    cases hfind : (List.range VNET_RX_BUFFERS).find? fun j => s.slots j = s.front with
    | none =>
      have hnone := List.find?_eq_none.mp hfind i (List.mem_range.mpr hi)
      exact absurd (decide_eq_true hs) hnone
    | some j =>
      -- no other slot has this head
      have hj : s.slots j = s.front := by simpa using List.find?_some hfind
      have hjlt := List.mem_range.mp (List.mem_of_find?_eq_some hfind)
      have harmed : s.slots j ≠ VNET_SLOT_FREE := by
        rw [hj]
        exact num_ne (h.flight_lt hmem)
      obtain hslot | hcalled | ⟨u, c, hc, hf, -, hhead⟩ := h.slots hrole j hjlt harmed
      · rw [hj, ho] at hslot
        exact hslot.symm
      · rw [hidle] at hcalled
        cases hcalled
      · rw [hj] at hhead
        exact absurd (hhead ▸ hmem) (h.room hc hf).1

lemma found_slot (h : s.found a = some (.slot i)) : s.slots i = a := by
  unfold Sys.found at h
  cases hrole : s.role with
  | blk =>
    rw [hrole] at h
    dsimp only at h
    split at h
    · cases h
    · cases h
  | tx =>
    rw [hrole] at h
    cases h
  | rx =>
    rw [hrole] at h
    obtain ⟨j, hfind, hj⟩ := Option.map_eq_some_iff.mp h
    rw [← Owner.slot.inj hj]
    simpa using List.find?_some hfind

/-- What the device has used stays in flight until it is freed. -/
lemma complete (h : Inv s) (hidle : s.drain = .idle) (hne : s.q.last_used ≠ s.q.used_idx) :
    Inv (s.act .complete) := by
  obtain ⟨-, hfound⟩ := h.complete_law hidle hne
  have hout : ∀ b, b ≠ s.front → (s.act .complete).outstanding b = s.outstanding b := fun b hb =>
    update_of_ne hb _ _
  have hfront : (s.act .complete).outstanding s.front = none := update_self _ _ _
  constructor
  · exact h.conserved
  · exact h.avail_lt
  · exact h.used_lt
  · exact fun u c hc => (h.call u c hc).frame rfl (fun _ _ _ => rfl) fun _ _ => rfl
  · exact h.single
  · intro b
    by_cases hb : b = s.front
    · rw [hb, hfront]
      exact iff_of_false (fun hn => hn rfl) fun hn => hn.2 rfl
    · rw [hout b hb]
      have hold := h.out b
      rw [hidle] at hold
      rw [hold]
      apply and_congr_right
      intro _
      exact iff_of_true nofun fun heq => hb (Option.some.inj heq).symm
  · intro b hb
    exact ⟨hne, Option.some.inj hb⟩
  · intro b o hb
    by_cases hbf : b = s.front
    · rw [hbf, hfront] at hb
      cases hb
    · rw [hout b hbf] at hb
      exact h.owner b o hb
  · intro b i hb
    obtain ⟨rfl, hi⟩ := Drain.called.inj hb
    exact found_slot hi
  · intro hrx i hi hs
    show (s.act .complete).outstanding (s.slots i) = _ ∨
      Drain.called s.front (s.found s.front) = .called (s.slots i) _ ∨ _
    obtain hslot | hcalled | hcall := h.slots hrx i hi hs
    · by_cases hb : s.slots i = s.front
      · rw [hb] at hslot ⊢
        rw [hfound, hslot]
        exact .inr (.inl rfl)
      · rw [hout _ hb]
        exact .inl hslot
    · rw [hidle] at hcalled
      cases hcalled
    · exact .inr (.inr hcall)

lemma completed_slots (o : Option Owner) (i : ℕ) : (s.completed o).slots i =
    if o = some (.slot i) then VNET_SLOT_FREE else s.slots i := by
  cases o with
  | none => rfl
  | some o =>
    cases o with
    | active => rfl
    | vnet => rfl
    | slot j =>
      show update s.slots j VNET_SLOT_FREE i = _
      by_cases hj : i = j
      · rw [hj, update_self, if_pos rfl]
      · rw [update_of_ne hj, if_neg]
        intro heq
        exact hj (Owner.slot.inj (Option.some.inj heq)).symm

/-- The completion routine moves no descriptor. -/
lemma ret (h : Inv s) {o : Option Owner} (hdrain : s.drain = .called a o) :
    Inv (s.act .ret) := by
  have hmem : a ∈ s.flight := h.drain_mem (by rw [hdrain]; rfl)
  have hlt := h.flight_lt hmem
  have hshape : s.act .ret = { s with
      done := (s.completed o).done
      slots := (s.completed o).slots
      tx_busy := (s.completed o).tx_busy
      drain := .returned a } := by
    rw [act, hdrain]
    cases o with
    | none => rfl
    | some o => cases o <;> rfl
  -- the slot of the callback has its head until now
  have hslot : ∀ i, (o = some (.slot i) → s.slots i ≠ a) → (s.completed o).slots i = s.slots i := by
    intro i hi
    rw [completed_slots]
    apply if_neg
    intro ho
    rw [ho] at hdrain
    exact hi ho (h.called a i hdrain)
  have hhead : some a = s.drain.head := by
    rw [hdrain]
    rfl
  rw [hshape]
  constructor
  · exact h.conserved
  · exact h.avail_lt
  · exact h.used_lt
  · intro u c hc
    apply CallOk.frame (h.call u c hc)
    · rfl
    · exact fun _ _ _ => rfl
    · intro i hi
      apply hslot
      intro _ hs
      have hcs := ((h.call u c hc).slot i hi).2
      rw [hs] at hcs
      cases hf : c.filled with
      | false =>
        rw [hf] at hcs
        exact num_ne hlt hcs
      | true =>
        rw [hf, if_pos rfl] at hcs
        rw [hcs] at hmem
        exact (h.room hc hf).1 hmem
  · exact h.single
  · intro b
    show _ ↔ b ∈ s.flight ∧ some a ≠ some b
    rw [hhead]
    exact h.out b
  · intro b hb
    exact h.drain b (hhead ▸ hb)
  · intro b o' hb
    obtain ⟨hown, hfits⟩ := h.owner b o' hb
    refine ⟨hown, ?_⟩
    have hba : b ≠ a := by
      intro hba
      have hne := (h.out_mem hb).2
      rw [← hhead, hba] at hne
      exact hne rfl
    unfold Sys.Fits at *
    cases hrole : s.role with
    | blk => rw [hrole] at hfits; exact hfits
    | tx => rw [hrole] at hfits; exact hfits
    | rx =>
      rw [hrole] at hfits
      obtain ⟨i, hi, ho, hs⟩ := hfits
      exact ⟨i, hi, ho, (hslot i fun _ => hs ▸ hba).trans hs⟩
  · exact fun b i hb => nomatch hb
  · intro hrx i hi hs
    by_cases ho : o = some (.slot i)
    · rw [completed_slots, if_pos ho] at hs
      exact absurd rfl hs
    · rw [completed_slots, if_neg ho] at hs ⊢
      obtain hout | hcalled | hcall := h.slots hrx i hi hs
      · exact .inl hout
      · rw [hdrain] at hcalled
        exact absurd (Drain.called.inj hcalled).2 ho
      · exact .inr (.inr hcall)

/-- The loop of `virtq_free_chain` ends, and the descriptors of the chain are free again. -/
lemma free_chain (h : Inv s) (ha : a ∈ s.flight) : ∃ q l F desc free_head free_count,
    s.q.virtqFreeChain a = some q ∧ s.layout.Accounted F ∧ IsChain s.q.desc a l ∧
    q = { s.q with
      desc := desc, free_head := free_head, free_count := free_count
      owner := update s.q.owner a none } ∧
    FreeList q (l.reverse ++ F) ∧ ∀ d ∉ l, desc d = s.q.desc d := by
  obtain ⟨F, hacc⟩ := h.conserved
  obtain ⟨l, hchain, hnd⟩ := hacc.chains a ha
  have hin : ∀ d ∈ l, s.layout.At F d (.flight a) := fun d hd => ⟨ha, l, hchain, hd⟩
  have hlt : ∀ d ∈ l, d < VQ_NUM := fun d hd => hacc.bound d _ (hin d hd)
  have hall : (l ++ F).Nodup := by
    apply List.nodup_append.mpr
    refine ⟨hnd, hacc.linked.nodup, ?_⟩
    intro d hd e he hde
    rw [hde] at hd
    cases hacc.at_one (q := .free) (hin e hd) he
  have hlen : (l ++ F).length ≤ VQ_NUM := by
    apply length_le_of_nodup hall
    intro d hd
    cases mem_append.mp hd with
    | inl hd => exact hlt d hd
    | inr hd => exact hacc.bound d .free hd
  rw [length_append] at hlen
  have hroom := num_lt
  obtain ⟨q, hloop, hfree, hsame, hshape⟩ := FreeList.freeLoop hchain VQ_NUM (by omega)
    ⟨hacc.linked, hacc.count⟩ hall hlt (by omega)
  refine ⟨{ q with owner := update q.owner a none }, l, F, q.desc, q.free_head, q.free_count, ?_, hacc,
    hchain, ?_, hfree, hsame⟩
  · unfold Virtq.virtqFreeChain
    rw [hloop]
    rfl
  · rw [hshape]

/-- A chain in flight goes back to the free list. -/
lemma free (h : Inv s) (hdrain : s.drain = .returned a) : Inv (s.act .free) := by
  have hmem : a ∈ s.flight := h.drain_mem (by rw [hdrain]; rfl)
  obtain ⟨hne, hfront⟩ := h.drain a (by rw [hdrain]; rfl)
  obtain ⟨q, l, F, desc, free_head, free_count, hq, hacc, hchain, hshape, hfree, hsame⟩ :=
    h.free_chain hmem
  have hact : s.act .free = { s with
      q := { s.q with
        desc := desc, free_head := free_head, free_count := free_count
        owner := update s.q.owner a none, last_used := (s.q.last_used + 1) % U16 }
      drain := .idle } := by
    rw [act, hdrain]
    simp only [hq, hshape]
  have hfront' : s.q.used_ring (s.q.last_used % VQ_NUM) = a := hfront
  have hperm : s.flight.Perm (a :: (s.act .free).flight) := by
    rw [hact]
    unfold Sys.flight
    rw [queued_pop num_dvd h.used_lt.1 h.used_lt.2 hne, hfront']
    exact List.perm_middle
  have hnot : a ∉ (s.act .free).flight :=
    (nodup_cons.mp (hperm.nodup_iff.mp hacc.flight_nodup)).1
  have hmem' : ∀ b, b ∈ (s.act .free).flight ↔ b ∈ s.flight ∧ b ≠ a := by
    intro b
    rw [hperm.mem_iff, mem_cons]
    constructor
    · exact fun hb => ⟨.inr hb, ne_of_mem_of_not_mem hb hnot⟩
    · exact fun hb => hb.1.resolve_left hb.2
  rw [hact] at hperm hmem' ⊢
  constructor
  · rw [hshape] at hfree
    exact ⟨_, hacc.free hperm hchain hsame hfree.1 hfree.2⟩
  · exact h.avail_lt
  · exact ⟨Nat.mod_lt _ (by decide), h.used_lt.2⟩
  · intro u c hc
    apply CallOk.frame (h.call u c hc)
    · rfl
    · intro hf d hd
      apply hsame
      intro hdl
      apply ((h.not_flight hc ((h.call u c hc).built hf).1 hd)).1
      have hheld : s.layout.At F d (.held u) := by
        have hcall : s.calls u = some c := hc
        show d ∈ s.held u
        rw [Sys.held_eq hcall, descs_eq ((h.call u c hc).built hf).1]
        exact hd
      cases hacc.at_one (q := .flight a) hheld ⟨hmem, l, hchain, hdl⟩
    · exact fun _ _ => rfl
  · exact h.single
  · intro b
    rw [hmem' b]
    rw [h.out b, hdrain]
    constructor
    · exact fun hb => ⟨⟨hb.1, fun hba => hb.2 (congrArg some hba.symm)⟩, nofun⟩
    · exact fun hb => ⟨hb.1.1, fun hab => hb.1.2 (Option.some.inj hab).symm⟩
  · exact fun b hb => nomatch hb
  · intro b o hb
    obtain ⟨hown, hfits⟩ := h.owner b o hb
    have hba : b ≠ a := by
      intro hba
      have hne := (h.out_mem hb).2
      rw [hdrain, hba] at hne
      exact hne rfl
    exact ⟨(update_of_ne hba _ _).trans hown, hfits⟩
  · exact fun b i hb => nomatch hb
  · intro hrx i hi hs
    obtain hout | hcalled | hcall := h.slots hrx i hi hs
    · exact .inl hout
    · rw [hdrain] at hcalled
      cases hcalled
    · exact .inr (.inr hcall)

end Inv

/-! ## The law and the condition -/

section

variable {e : Event} {s' : Sys} (h : Inv s) (hs : Step s e s')
include h hs

/-- A step under the condition keeps the invariant. -/
lemma Inv.step (hclean : Clean s e) :
    Inv s' := by
  obtain ⟨hen, rfl⟩ := hs
  cases e with
  | begin t job => exact h.begin hen.1 hen.2.1 hen.2.2
  | pop t =>
    obtain ⟨c, hc, hlt⟩ := hen
    exact h.pop hc hlt
  | fill t =>
    obtain ⟨c, hc, hlen, hfilled⟩ := hen
    by_cases hall : VQ_NONE ∈ c.popped
    · have hact : s.act (.fill t) = s.setCall t none := by
        rw [act, hc]
        exact if_pos hall
      rw [hact]
      exact h.giveUp hc hfilled (hclean c hc hall)
    · exact h.fill hc hlen hfilled hall
  | submit t =>
    obtain ⟨c, hc, hfilled⟩ := hen
    exact h.submit hc hfilled (hclean c hc)
  | take => exact h.take hen
  | give a => exact h.give hen
  | complete => exact h.complete hen.1 hen.2
  | ret =>
    obtain ⟨a, o, hdrain⟩ := hen
    exact h.ret hdrain
  | free =>
    obtain ⟨a, hdrain⟩ := hen
    exact h.free hdrain

/-- A step that is accounted for meets the condition. -/
lemma Inv.clean (hcons : s'.Conserved) :
    Clean s e := by
  obtain ⟨hen, rfl⟩ := hs
  obtain ⟨F, hacc⟩ := h.conserved
  cases e with
  | fill t =>
    intro c hc hall
    by_contra hdescs
    obtain ⟨d, hd⟩ := List.exists_mem_of_ne_nil _ hdescs
    have hact : s.act (.fill t) = s.setCall t none := by
      rw [act, hc]
      exact if_pos hall
    rw [hact] at hcons
    refine hacc.lost (s.setCall t none).layout (t := t) (d := d) rfl rfl (Sys.held_setCall none)
      (fun b hb => .inl hb) ?_ hcons
    · rw [show s.layout.held t = c.descs from Sys.held_eq hc]
      exact hd
  | submit t =>
    intro c hc hblk
    obtain ⟨c', hc', hfilled⟩ := hen
    obtain rfl := Option.some.inj (hc.symm.trans hc')
    obtain ⟨hall, a, d, rest, hpopped, hrest, hchain⟩ := (h.call t c hc).built hfilled
    have hcount : c.job.count = 3 := by
      cases hjob : c.job with
      | vblk_rw write nsect => rfl
      | vnet_post_rx i => rw [hjob] at hblk; cases hblk
      | virtio_net_send len => rw [hjob] at hblk; cases hblk
    obtain ⟨e, rfl⟩ := List.length_eq_one_iff.mp (show rest.length = 1 by omega)
    have hheld : s.layout.held t = [a, d, e] := (Sys.held_eq hc).trans ((descs_eq hall).trans hpopped)
    have hnd := hacc.held_nodup t
    rw [hheld] at hnd
    obtain ⟨-, hroom⟩ := h.room hc hfilled
    have hact : s.act (.submit t) = { s.setCall t none with
        q := s.q.virtqSubmit a c.job.owner
        tx_busy := if c.job.role = .tx then true else s.tx_busy
        outstanding := update s.outstanding a (some c.job.owner) } := by
      rw [act, hc]
      simp only [hpopped, List.headD_cons]
    -- the status descriptor is neither in the chain nor anywhere else
    refine hacc.lost (s.act (.submit t)).layout (t := t) (d := e) ?_ ?_ ?_ ?_ ?_ hcons
    · rw [hact]
      rfl
    · rw [hact]
      rfl
    · rw [hact]
      exact Sys.held_setCall none
    · rw [hact]
      intro b hb
      change b ∈ queued VQ_NUM U16 (update s.q.avail_ring (s.q.avail_idx % VQ_NUM) a) s.seen
        ((s.q.avail_idx + 1) % U16) ++ s.hands ++ _ at hb
      rw [queued_push num_dvd h.avail_lt.1 h.avail_lt.2 hroom num_lt] at hb
      simp only [mem_append, mem_singleton] at hb
      obtain ((hq | hb) | hhands) | hused := hb
      · exact .inl (List.mem_append_left _ (List.mem_append_left _ hq))
      · right
        rw [hb]
        refine ⟨[a, d], hchain, ?_⟩
        simp only [nodup_cons, mem_cons, not_mem_nil, or_false, not_or] at hnd
        rw [mem_pair, not_or]
        exact ⟨fun hea => hnd.1.2 hea.symm, fun hed => hnd.2.1 hed.symm⟩
      · exact .inl (List.mem_append_left _ (mem_append_right _ hhands))
      · exact .inl (mem_append_right _ hused)
    · rw [hheld]
      simp
  | begin t job => trivial
  | pop t => trivial
  | take => trivial
  | give a => trivial
  | complete => trivial
  | ret => trivial
  | free => trivial

lemma lawful_iff :
    Lawful s e s' ↔ Clean s e := by
  constructor
  · exact fun hlaw => h.clean hs hlaw.1
  · intro hclean
    refine ⟨(h.step hs hclean).conserved, ?_⟩
    obtain ⟨hen, -⟩ := hs
    cases e with
    | submit t =>
      intro c hc
      obtain ⟨c', hc', hfilled⟩ := hen
      obtain rfl := Option.some.inj (hc.symm.trans hc')
      exact h.submit_law hc hfilled
    | complete => exact h.complete_law hen.1 hen.2
    | begin t job => trivial
    | pop t => trivial
    | fill t => trivial
    | take => trivial
    | give a => trivial
    | ret => trivial
    | free => trivial

end

end Steps

/-! ## Runs -/

/-- Descriptors that each lead to the next one. -/
lemma linked_range (n k a : ℕ) (h : a + k = n) :
    Chain.Linked (fun i : ℕ => i + 1) (n ≤ ·) a (List.range' a k) := by
  induction k generalizing a with
  | zero => exact Chain.linked_nil.mpr (by omega)
  | succ k ih =>
    rw [List.range'_succ]
    exact Chain.linked_cons.mpr ⟨rfl, by omega, ih (a + 1) (by omega)⟩

lemma flight_start (role : Role) : (start role).layout.flight = [] := by
  show queued VQ_NUM U16 _ 0 0 ++ [] ++ queued VQ_NUM U16 _ 0 0 = []
  rw [Ring.queued_self, Ring.queued_self]
  rfl

lemma not_flight_start (role : Role) (a : ℕ) : a ∉ (start role).layout.flight := by
  rw [flight_start]
  exact not_mem_nil

lemma Inv.start (role : Role) : Inv (start role) where
  conserved := by
    refine ⟨List.range' 0 VQ_NUM, linked_range VQ_NUM VQ_NUM 0 (Nat.zero_add _), ?_, ?_, ?_, ?_, ?_, ?_⟩
    · exact List.length_range'.symm
    · intro d hd
      have hfree : (Virtio.start role).layout.At (List.range' 0 VQ_NUM) d .free :=
        List.mem_range'_1.mpr ⟨Nat.zero_le d, by omega⟩
      refine ⟨.free, hfree, ?_⟩
      intro p hp
      cases p with
      | free => rfl
      | held t => cases hp
      | flight a => exact absurd hp.1 (not_flight_start role a)
    · intro d p hp
      cases p with
      | free =>
        have hd := (List.mem_range'_1.mp hp).2
        omega
      | held t => cases hp
      | flight a => exact absurd hp.1 (not_flight_start role a)
    · exact fun _ => nodup_nil
    · exact fun a ha => absurd ha (not_flight_start role a)
    · rw [flight_start]
      exact nodup_nil
  avail_lt := ⟨Nat.two_pow_pos 16, Nat.two_pow_pos 16⟩
  used_lt := ⟨Nat.two_pow_pos 16, Nat.two_pow_pos 16⟩
  call := fun _ _ hc => nomatch hc
  single := fun _ _ _ ht => absurd rfl ht
  out := fun a => iff_of_false (fun hn => hn rfl) fun hn => not_flight_start role a hn.1
  drain := fun _ ha => nomatch ha
  owner := fun _ _ ho => nomatch ho
  called := fun _ _ hd => nomatch hd
  slots := fun _ _ _ hs => absurd rfl hs

/-- At the start every descriptor is accounted for, and the runs in which this stays so, with each
head completed once with its own owner and no slot overwritten, are those whose steps all meet the
condition. -/
theorem virtq_conserved (role : Role) (es : List Event) (t : Sys) : (start role).Conserved ∧
    (Run (Guarded Clean Step) (start role) es t ↔
      Run (fun s e u => Step s e u ∧ Lawful s e u) (start role) es t) := by
  refine ⟨(Inv.start role).conserved, ?_⟩
  apply Run.guarded_iff (I := Inv)
  · intro s e u h hs hlaw
    exact h.step hs ((lawful_iff h hs).mp hlaw)
  · exact fun _ _ _ h hs => lawful_iff h hs
  · exact Inv.start role

/-- One read of a sector, up to the submit. -/
def oneRead : List Event :=
  [.begin 0 (.vblk_rw false 1), .pop 0, .pop 0, .pop 0, .fill 0]

/-- The first request of the disk loses its status descriptor. -/
theorem vblk_loses_descriptor :
    ¬ ∀ role es t, Run Step (start role) es t → t.Conserved := by
  intro hall
  have henables : Enables (fun s e => Clean s e ∧ s.Enabled e) act (start .blk) oneRead := by
    refine ⟨⟨trivial, rfl, rfl, rfl⟩, ⟨trivial, _, rfl, by decide⟩, ⟨trivial, _, rfl, by decide⟩,
      ⟨trivial, _, rfl, by decide⟩, ⟨?_, _, rfl, rfl, rfl⟩, trivial⟩
    intro c hc hnone
    rw [← Option.some.inj hc] at hnone
    exact absurd hnone (by decide)
  have hrun : Run (Guarded Clean Step) (start .blk) oneRead (oneRead.foldl act (start .blk)) :=
    Run.of_enables (fun _ _ h => ⟨h.1, h.2, rfl⟩) henables
  have hinv : Inv (oneRead.foldl act (start .blk)) :=
    hrun.invariant (Inv.start .blk) fun _ _ _ h hs => h.step hs.2 hs.1
  have hsubmit : Step (oneRead.foldl act (start .blk)) (.submit 0) _ := ⟨⟨_, rfl, rfl⟩, rfl⟩
  have hcons := hall _ _ _ ((hrun.mono fun _ _ _ h => h.2).snoc hsubmit)
  exact hinv.clean hsubmit hcons _ rfl rfl

end MobilePhoneOs.Virtio
