import MobilePhoneOs.Drivers.VirtioBlk
import MobilePhoneOs.Drivers.VirtqueueTheorems

/-!
# Whose request it is

The disk is idle or has one request in flight. Each request costs a descriptor for good, and its
status byte is in no buffer of its chain, so no call succeeds; what the calls lack is told by the
number of the requests and by who started last.
-/

namespace MobilePhoneOs.Virtio.Blk

open Function (update update_self update_of_ne)
open Vblk (act pops)

variable {s : Vblk}

/-! ## The two states of the disk -/

/-- Nothing is in flight; every request so far has cost a descriptor. -/
structure Idle (s : Vblk) : Prop where
  flight : s.flight = []
  done : s.done = true
  free : ∃ F, FreeList s.q F ∧ F.length + s.sent = VQ_NUM
  completed : 0 < s.sent → s.completed + 1 = s.sent

/-- The last request is in flight, header and data in its chain and the status byte untouched. -/
structure Busy (s : Vblk) (h d : ℕ) : Prop where
  flight : s.flight = [h]
  done : s.done = false
  owner : s.q.owner h = some .active
  id : s.ids h + 1 = s.sent
  chain : IsChain s.q.desc h [h, d]
  hdr : (s.q.desc h).addr = some (.st_hdr, 0)
  data : (s.q.desc d).addr = some (.st_data, 0)
  status : s.mem .st_status 0 = 0xff
  free : ∃ F, FreeList s.q F ∧ F.length + s.sent + 2 = VQ_NUM ∧ (h :: d :: F).Nodup
  lt : h < VQ_NUM ∧ d < VQ_NUM

structure Inv (s : Vblk) : Prop where
  avail_lt : s.seen < U16 ∧ s.q.avail_idx < U16
  used_lt : s.q.last_used < U16 ∧ s.q.used_idx < U16
  ok : s.ok = false
  calls : ∀ t w, s.calls t = some w → w.id < s.sent
  state : Idle s ∨ ∃ h d, Busy s h d

lemma Busy.not_idle {h d : ℕ} (hb : Busy s h d) : s.flight ≠ [] := by
  rw [hb.flight]
  exact List.cons_ne_nil _ _

/-- The device has no way to the status byte. -/
lemma Busy.not_writable {h d : ℕ} (hb : Busy s h d) (i : ℕ) : ¬ s.Writable h .st_status i := by
  intro hw
  obtain ⟨l, hl, e, he, -, off, haddr, -⟩ := hw
  rw [hl.unique hb.chain] at he
  cases List.mem_pair.mp he with
  | inl he =>
    rw [he, hb.hdr] at haddr
    cases haddr
  | inr he =>
    rw [he, hb.data] at haddr
    cases haddr

/-- A queue is empty when its indices meet, and only then. -/
lemma queued_eq_nil {ring : ℕ → ℕ} {lo hi : ℕ} (hlo : lo < U16) (hhi : hi < U16) :
    Ring.queued VQ_NUM U16 ring lo hi = [] ↔ lo = hi := by
  constructor
  · intro hnil
    by_contra hne
    rw [Ring.queued_pop num_dvd hlo hhi hne] at hnil
    exact List.cons_ne_nil _ _ hnil
  · intro heq
    rw [heq, Ring.queued_self]

/-! ## The start of a call -/

/-- Three descriptors, if there are three, and `VQ_NONE` among the results otherwise. -/
lemma pops_spec {q : Virtq} {F : List ℕ} (h : FreeList q F) :
    (F.length < 3 ∧ ((pops q).1.1 = VQ_NONE ∨ (pops q).1.2.1 = VQ_NONE ∨ (pops q).1.2.2 = VQ_NONE)) ∨
    ∃ a b c F' free_head free_count, F = a :: b :: c :: F' ∧
      pops q = ((a, b, c), { q with free_head := free_head, free_count := free_count }) ∧
      FreeList { q with free_head := free_head, free_count := free_count } F' := by
  unfold pops
  dsimp only
  obtain ⟨rfl, hpop⟩ | ⟨a, F₁, rfl, -, hpop, hfree⟩ := h.pop
  · rw [hpop]
    exact .inl ⟨by decide, .inl rfl⟩
  rw [hpop] at hfree ⊢
  obtain ⟨rfl, hpop₁⟩ | ⟨b, F₂, rfl, -, hpop₁, hfree₁⟩ := hfree.pop
  · rw [hpop₁]
    exact .inl ⟨by simp, .inr (.inl rfl)⟩
  rw [hpop₁] at hfree₁ ⊢
  obtain ⟨rfl, hpop₂⟩ | ⟨c, F₃, rfl, -, hpop₂, hfree₂⟩ := hfree₁.pop
  · rw [hpop₂]
    exact .inl ⟨by simp, .inr (.inr rfl)⟩
  rw [hpop₂] at hfree₂ ⊢
  exact .inr ⟨a, b, c, F₃, _, _, rfl, rfl, hfree₂⟩

lemma vblkChain_addr (q : Virtq) {a b c : ℕ} (hab : a ≠ b) (hac : a ≠ c) (hbc : b ≠ c)
    (write : Bool) (nsect : ℕ) :
    ((q.vblkChain write nsect a b c).desc a).addr = some (.st_hdr, 0) ∧
      ((q.vblkChain write nsect a b c).desc b).addr = some (.st_data, 0) := by
  unfold Virtq.vblkChain Virtq.setDesc
  simp only [update_of_ne hac, update_of_ne hab, update_of_ne hbc, update_self, and_self]

section

variable (h : Inv s)
include h

/-- The request that `vblk_rw` submits, with three descriptors. -/
lemma start_busy (hidle : Idle s) (t : Task) (r : Req) (now : BitVec 64)
    {a b c free_head free_count : ℕ} {F : List ℕ} (hfree : FreeList s.q (a :: b :: c :: F))
    (hlen : (a :: b :: c :: F).length + s.sent = VQ_NUM)
    (hpops : pops s.q = ((a, b, c), { s.q with free_head := free_head, free_count := free_count }))
    (hrest : FreeList { s.q with free_head := free_head, free_count := free_count } F) :
    (s.start t r now).2 = .sleeps ∧ Inv (s.start t r now).1 := by
  have hnd := hfree.1.nodup
  have hlt : ∀ e ∈ a :: b :: c :: F, e < VQ_NUM := fun e he => hfree.lt he
  have hnone : ∀ e ∈ a :: b :: c :: F, e ≠ VQ_NONE := by
    intro e he
    have := hlt e he
    unfold VQ_NUM at this
    unfold VQ_NONE
    omega
  have hall : ¬ (a = VQ_NONE ∨ b = VQ_NONE ∨ c = VQ_NONE) := by
    simp only [List.mem_cons, forall_eq_or_imp] at hnone
    exact fun hor => hor.elim hnone.1 fun hor => hor.elim hnone.2.1 hnone.2.2.1
  let q : Virtq := { s.q with free_head := free_head, free_count := free_count }
  have hthree : [a, b, c].Nodup := hnd.sublist (by simp)
  obtain ⟨⟨h', d, rest, hpopped, -, hchain⟩, hsame, hshape⟩ :=
    build_chain q (.vblk_rw r.write r.nsect) [a, b, c] rfl hthree
  obtain ⟨rfl, htail⟩ := List.cons.inj hpopped
  obtain ⟨rfl, -⟩ := List.cons.inj htail
  -- the chain ends at the data, whose flags have no `VRING_DESC_F_NEXT`: `c` is in none
  change ∀ e ∉ [a, b, c], (q.vblkChain r.write r.nsect a b c).desc e = s.q.desc e at hsame
  have hstart : s.start t r now = ({ s.setCall t
      (some ⟨r, now + BitVec.ofNat 64 VBLK_TIMEOUT_TICKS, s.sent⟩) with
        mem := Vblk.stage s.mem r
        done := false
        ok := false
        q := (q.vblkChain r.write r.nsect a b c).virtqSubmit a .active
        sent := s.sent + 1
        ids := update s.ids a s.sent }, .sleeps) := by
    unfold Vblk.start
    rw [if_neg (by rw [hidle.done]; exact Bool.noConfusion)]
    simp only [hpops, if_neg hall]
    rfl
  rw [hstart]
  refine ⟨rfl, ?_⟩
  have hne : a ≠ b ∧ a ≠ c ∧ b ≠ c := by
    simp only [List.nodup_cons, List.mem_cons, List.not_mem_nil, or_false, not_or] at hthree
    exact ⟨hthree.1.1, hthree.1.2, hthree.2.1⟩
  have havail : s.seen = s.q.avail_idx ∧ s.hands = [] ∧ s.q.last_used = s.q.used_idx := by
    have hflight := hidle.flight
    unfold Vblk.flight at hflight
    rw [List.append_eq_nil_iff, List.append_eq_nil_iff, queued_eq_nil h.avail_lt.1 h.avail_lt.2,
      queued_eq_nil h.used_lt.1 h.used_lt.2] at hflight
    exact ⟨hflight.1.1, hflight.1.2, hflight.2⟩
  constructor
  · exact ⟨h.avail_lt.1, Nat.mod_lt _ (by decide)⟩
  · exact h.used_lt
  · rfl
  · intro u w hw
    change update s.calls t _ u = some w at hw
    by_cases hu : u = t
    · rw [hu, update_self] at hw
      rw [← Option.some.inj hw]
      exact Nat.lt_succ_self _
    · rw [update_of_ne hu] at hw
      exact Nat.lt_succ_of_lt (h.calls u w hw)
  · refine .inr ⟨a, b, ?_⟩
    constructor
    · show Ring.queued VQ_NUM U16 (update s.q.avail_ring (s.q.avail_idx % VQ_NUM) a) s.seen
        ((s.q.avail_idx + 1) % U16) ++ s.hands ++
          Ring.queued VQ_NUM U16 s.q.used_ring s.q.last_used s.q.used_idx = [a]
      rw [Ring.queued_push num_dvd h.avail_lt.1 h.avail_lt.2 _ num_lt, havail.1, havail.2.1,
        havail.2.2, Ring.queued_self, Ring.queued_self]
      · rfl
      · rw [havail.1, Ring.dist_self]
        exact Nat.two_pow_pos 7
    · rfl
    · exact update_self _ _ _
    · show update s.ids a s.sent a + 1 = s.sent + 1
      rw [update_self]
    · exact hchain
    · exact (vblkChain_addr q hne.1 hne.2.1 hne.2.2 r.write r.nsect).1
    · exact (vblkChain_addr q hne.1 hne.2.1 hne.2.2 r.write r.nsect).2
    · rfl
    · refine ⟨F, ⟨?_, hrest.2⟩, ?_, ?_⟩
      · apply hrest.1.congr
        intro e he
        show ((q.vblkChain r.write r.nsect a b c).desc e).next = (s.q.desc e).next
        rw [hsame e]
        intro hmem
        have happ : ([a, b, c] ++ F).Nodup := hnd
        exact (List.nodup_append.mp happ).2.2 e hmem e he rfl
      · show F.length + (s.sent + 1) + 2 = VQ_NUM
        simp only [List.length_cons] at hlen
        omega
      · exact hnd.sublist (by simp)
    · exact ⟨hlt a List.mem_cons_self, hlt b (List.mem_cons_of_mem _ List.mem_cons_self)⟩

/-- A call on an idle disk is accepted exactly while there are descriptors. -/
lemma start_iff (hidle : Idle s) (t : Task) (r : Req) (now : BitVec 64) :
    ((s.start t r now).2 = .sleeps ↔ s.sent < REQ_MAX) ∧
      (s.sent < REQ_MAX → Inv (s.start t r now).1) := by
  obtain ⟨F, hfree, hlen⟩ := hidle.free
  obtain ⟨hshort, hnone⟩ | ⟨a, b, c, F', free_head, free_count, rfl, hpops, hrest⟩ := pops_spec hfree
  · have hfull : ¬ s.sent < REQ_MAX := by
      unfold REQ_MAX
      omega
    refine ⟨iff_of_false ?_ hfull, fun hlt => absurd hlt hfull⟩
    unfold Vblk.start
    rw [if_neg (by rw [hidle.done]; exact Bool.noConfusion)]
    simp only [if_pos hnone]
    exact nofun
  · obtain ⟨hsleeps, hinv⟩ := start_busy h hidle t r now hfree hlen hpops hrest
    refine ⟨iff_of_true hsleeps ?_, fun _ => hinv⟩
    simp only [List.length_cons] at hlen
    unfold REQ_MAX
    omega

/-! ## The other steps -/

lemma Inv.done_iff : s.done = true ↔ Idle s := by
  constructor
  · intro hdone
    obtain hidle | ⟨a, d, hb⟩ := h.state
    · exact hidle
    · rw [hb.done] at hdone
      cases hdone
  · exact Idle.done

/-- A step that leaves the request alone. -/
lemma Inv.setCall (t : Task) : Inv (s.setCall t none) where
  avail_lt := h.avail_lt
  used_lt := h.used_lt
  ok := h.ok
  calls := by
    intro u w hw
    change update s.calls t none u = some w at hw
    by_cases hu : u = t
    · rw [hu, update_self] at hw
      cases hw
    · rw [update_of_ne hu] at hw
      exact h.calls u w hw
  state := by
    obtain hidle | ⟨a, d, hb⟩ := h.state
    · exact .inl ⟨hidle.flight, hidle.done, hidle.free, hidle.completed⟩
    · exact .inr ⟨a, d, hb.flight, hb.done, hb.owner, hb.id, hb.chain, hb.hdr, hb.data, hb.status,
        hb.free, hb.lt⟩

lemma Inv.check (t : Task) (w : Wait) (now : BitVec 64) : Inv (s.check t w now).1 := by
  unfold Vblk.check
  split
  · exact h.setCall t
  · split
    · exact h.setCall t
    · exact h

/-- The request in flight moves between the rings and the device. -/
lemma Inv.moved {q : Virtq} {seen : ℕ} {hands : List ℕ}
    (hq : q = { s.q with used_ring := q.used_ring, used_idx := q.used_idx })
    (hperm : Vblk.flight { s with q := q, seen := seen, hands := hands } |>.Perm s.flight)
    (hseen : seen < U16) (hidx : q.used_idx < U16) (hne : s.flight ≠ []) :
    Inv { s with q := q, seen := seen, hands := hands } := by
  obtain hidle | ⟨a, d, hb⟩ := h.state
  · exact absurd hidle.flight hne
  rw [hb.flight, List.perm_singleton] at hperm
  constructor
  · rw [hq]
    exact ⟨hseen, h.avail_lt.2⟩
  · rw [hq]
    exact ⟨h.used_lt.1, hidx⟩
  · exact h.ok
  · exact h.calls
  · refine .inr ⟨a, d, hperm, hb.done, ?_, hb.id, ?_, ?_, ?_, hb.status, ?_, hb.lt⟩
    all_goals rw [hq]
    · exact hb.owner
    · exact hb.chain
    · exact hb.hdr
    · exact hb.data
    · exact hb.free

lemma Inv.take (hne : s.seen ≠ s.q.avail_idx) : Inv (s.act .take).1 := by
  refine h.moved (q := s.q) rfl (take_perm h.avail_lt.1 h.avail_lt.2 hne) (Nat.mod_lt _ (by decide))
    h.used_lt.2 ?_
  unfold Vblk.flight
  rw [Ring.queued_pop num_dvd h.avail_lt.1 h.avail_lt.2 hne, List.cons_append, List.cons_append]
  exact List.cons_ne_nil _ _

lemma Inv.give {a : ℕ} (ha : a ∈ s.hands) : Inv (s.act (.give a)).1 := by
  have hmem : a ∈ s.flight := List.mem_append_left _ (List.mem_append_right _ ha)
  obtain hidle | ⟨b, d, hb⟩ := h.state
  · rw [hidle.flight] at hmem
    cases hmem
  have hlen := congrArg List.length hb.flight
  unfold Vblk.flight at hlen
  rw [List.length_append, List.length_append, Ring.queued_length, Ring.queued_length,
    List.length_singleton] at hlen
  have hroom : Ring.dist U16 s.q.last_used s.q.used_idx < VQ_NUM := by
    unfold VQ_NUM
    omega
  exact h.moved (q := { s.q with
    used_ring := update s.q.used_ring (s.q.used_idx % VQ_NUM) a
    used_idx := (s.q.used_idx + 1) % U16 }) rfl
    (give_perm h.used_lt.1 h.used_lt.2 hroom ha _) h.avail_lt.1 (Nat.mod_lt _ (by decide))
    hb.not_idle

lemma Inv.dma {mem : Staging} {disk : ℕ → UInt8} {a : ℕ} (ha : a ∈ s.hands)
    (hwrites : ∀ b i, mem b i ≠ s.mem b i → s.Writable a b i) : Inv { s with mem := mem, disk := disk } := by
  have hmem : a ∈ s.flight := List.mem_append_left _ (List.mem_append_right _ ha)
  refine ⟨h.avail_lt, h.used_lt, h.ok, h.calls, ?_⟩
  obtain hidle | ⟨b, d, hb⟩ := h.state
  · exact .inl ⟨hidle.flight, hidle.done, hidle.free, hidle.completed⟩
  · rw [hb.flight, List.mem_singleton] at hmem
    -- the status byte is in no buffer of the chain
    have hstatus : mem .st_status 0 = s.mem .st_status 0 := by
      by_contra hne
      have hw := hwrites .st_status 0 hne
      rw [hmem] at hw
      exact hb.not_writable 0 hw
    exact .inr ⟨b, d, hb.flight, hb.done, hb.owner, hb.id, hb.chain, hb.hdr, hb.data,
      hstatus.trans hb.status, hb.free, hb.lt⟩

/-- A drain completes the request with the status that it was staged with. -/
lemma Inv.drain (hne : s.q.last_used ≠ s.q.used_idx) : Inv s.drain := by
  have hpop := Ring.queued_pop (b := s.q.used_ring) num_dvd h.used_lt.1 h.used_lt.2 hne
  obtain hidle | ⟨a, d, hb⟩ := h.state
  · have hnil := hidle.flight
    unfold Vblk.flight at hnil
    rw [hpop] at hnil
    exact absurd (List.append_eq_nil_iff.mp hnil).2 (List.cons_ne_nil _ _)
  have hflight := hb.flight
  unfold Vblk.flight at hflight
  rw [hpop, List.append_eq_singleton_iff] at hflight
  obtain ⟨hbefore, hlast⟩ | ⟨-, hnil⟩ := hflight
  swap
  · cases hnil
  obtain ⟨hhead, hrest⟩ := List.cons.inj hlast
  obtain ⟨F, hfree, hlen, hnd⟩ := hb.free
  have hlt : ∀ e ∈ [a, d], e < VQ_NUM := by
    intro e he
    cases List.mem_pair.mp he with
    | inl he => rw [he]; exact hb.lt.1
    | inr he => rw [he]; exact hb.lt.2
  obtain ⟨q, hloop, hfree', -, hshape⟩ := FreeList.freeLoop hb.chain VQ_NUM
    (show 2 ≤ VQ_NUM by decide) hfree hnd hlt (show 2 + F.length < U16 by have := num_lt; omega)
  have hdrain : s.drain = { s with
      ok := false
      done := true
      completed := s.ids a
      q := { q with
        owner := update q.owner a none
        last_used := (q.last_used + 1) % U16 } } := by
    unfold Vblk.drain
    simp only [hhead]
    have hcomplete : s.complete a = { s with ok := false, done := true, completed := s.ids a } := by
      unfold Vblk.complete
      rw [if_pos hb.owner, hb.status]
      rfl
    have hchain : s.q.virtqFreeChain a = some { q with owner := update q.owner a none } := by
      unfold Virtq.virtqFreeChain
      rw [hloop]
      rfl
    rw [hcomplete]
    simp only [hchain]
  rw [hdrain, hshape]
  constructor
  · exact h.avail_lt
  · exact ⟨Nat.mod_lt _ (by decide), h.used_lt.2⟩
  · rfl
  · exact h.calls
  · refine .inl ⟨?_, rfl, ⟨d :: a :: F, ?_, ?_⟩, fun _ => hb.id⟩
    · show Ring.queued VQ_NUM U16 s.q.avail_ring s.seen s.q.avail_idx ++ s.hands ++
        Ring.queued VQ_NUM U16 s.q.used_ring ((s.q.last_used + 1) % U16) s.q.used_idx = []
      rw [hbefore, hrest]
      rfl
    · exact hfree'
    · show F.length + 1 + 1 + s.sent = VQ_NUM
      omega

/-! ## The law and the condition -/

/-- No call succeeds. -/
lemma Inv.not_success {t : Task} {w : Wait} {now : BitVec 64} {buf : ℕ → UInt8} :
    (s.check t w now).2 ≠ .success buf := by
  unfold Vblk.check
  rw [h.ok]
  split
  · exact nofun
  · split <;> exact nofun

end

/-- A step under the condition keeps the invariant. -/
lemma Inv.step {a : Event × Out} {s' : Vblk} (h : Inv s) (hs : Step s a s') (hclean : Clean s a) :
    Inv s' := by
  obtain ⟨e, out⟩ := a
  obtain ⟨hen, hact⟩ := hs
  have hs' : s' = (s.act e).1 := by rw [hact]
  rw [hs']
  cases e with
  | start t r now =>
    show Inv (if s.Valid r then s.start t r now else (s, .refused)).1
    split
    · rename_i hvalid
      obtain hidle | ⟨b, d, hb⟩ := h.state
      · exact (start_iff h hidle t r now).2 (hclean hvalid hidle.flight)
      · unfold Vblk.start
        rw [if_pos hb.done]
        exact h
    · exact h
  | check t now =>
    rw [act]
    cases hw : s.calls t with
    | none => exact h
    | some w => exact h.check t w now
  | drain => exact h.drain hen
  | take => exact h.take hen
  | dma mem disk =>
    obtain ⟨b, hb, hwrites⟩ := hen
    exact h.dma hb hwrites
  | give b => exact h.give hen

lemma lawful_iff {a : Event × Out} {s' : Vblk} (h : Inv s) (hs : Step s a s') :
    Lawful s a ↔ Clean s a := by
  obtain ⟨e, out⟩ := a
  obtain ⟨hen, hact⟩ := hs
  have hout : out = (s.act e).2 := by rw [hact]
  cases e with
  | start t r now =>
    apply forall_congr'
    intro hvalid
    apply forall_congr'
    intro hflight
    have hidle : Idle s := by
      obtain hidle | ⟨b, d, hb⟩ := h.state
      · exact hidle
      · exact absurd hflight hb.not_idle
    rw [hout, ← (start_iff h hidle t r now).1]
    show (if s.Valid r then s.start t r now else (s, .refused)).2 = .sleeps ↔ _
    rw [if_pos hvalid]
  | check t now =>
    apply forall_congr'
    intro w
    apply forall_congr'
    intro hw
    have hsuccess : ∀ buf, out ≠ .success buf := by
      intro buf
      rw [hout]
      rw [act, hw]
      exact h.not_success
    -- on an idle disk the last request is the one that set `done`
    have hdone : s.done = true → (s.completed = w.id ↔ w.id + 1 = s.sent) := by
      intro hdone
      have hlt := h.calls t w hw
      have hlast := (h.done_iff.mp hdone).completed (Nat.zero_lt_of_lt hlt)
      omega
    constructor
    · exact fun hlaw hd => (hdone hd).mp (hlaw.1 hd)
    · exact fun hclean => ⟨fun hd => (hdone hd).mpr (hclean hd), fun buf hb => absurd hb (hsuccess buf)⟩
  | drain => exact Iff.rfl
  | take => exact Iff.rfl
  | dma mem disk => exact Iff.rfl
  | give b => exact Iff.rfl

/-! ## Runs -/

lemma Inv.attached (capacity : ℕ) (mem : Staging) (disk : ℕ → UInt8) :
    Inv (attached capacity mem disk) where
  avail_lt := ⟨Nat.two_pow_pos 16, Nat.two_pow_pos 16⟩
  used_lt := ⟨Nat.two_pow_pos 16, Nat.two_pow_pos 16⟩
  ok := rfl
  calls := fun _ _ hw => nomatch hw
  state := by
    refine .inl ⟨?_, rfl, ⟨List.range' 0 VQ_NUM, ⟨?_, List.length_range'.symm⟩, ?_⟩, ?_⟩
    · exact flight_start .blk
    · exact linked_range VQ_NUM VQ_NUM 0 (Nat.zero_add _)
    · show (List.range' 0 VQ_NUM).length + 0 = VQ_NUM
      rw [Nat.add_zero, List.length_range']
    · exact fun hpos => absurd hpos (Nat.lt_irrefl 0)

/-- The runs in which every call that ends by `done` ends by its own request, success means that
its own sectors were transferred, and an idle disk accepts every valid call, are those whose steps
all meet the condition. -/
theorem vblk_isolation (capacity : ℕ) (mem : Staging) (disk : ℕ → UInt8)
    (as : List (Event × Out)) (t : Vblk) :
    Run (Guarded Clean Step) (attached capacity mem disk) as t ↔
      Run (fun s a u => Step s a u ∧ Lawful s a) (attached capacity mem disk) as t := by
  apply Run.guarded_iff (I := Inv)
  · intro s a u h hs hlaw
    exact h.step hs ((lawful_iff h hs).mp hlaw)
  · exact fun _ _ _ h hs => lawful_iff h hs
  · exact Inv.attached capacity mem disk

/-- A read of the first sector. -/
def firstSector : Req := ⟨false, 0, 1, fun _ => 0⟩

/-- The request of task 0 is done when task 1 starts before task 0 wakes; task 0 then returns when
the request of task 1 is done. -/
def takeover : List Event :=
  [.start 0 firstSector 0, .take, .give 0, .drain, .start 1 firstSector 0, .take, .give 1, .drain]

/-- Events that are enabled one after another make a run. -/
lemma exists_run {s₀ s : Vblk} {as : List (Event × Out)} (hrun : Run Step s₀ as s) {es : List Event}
    (h : Enables Vblk.Enabled (fun s e => (s.act e).1) s es) :
    ∃ as', Run Step s₀ as' (es.foldl (fun s e => (s.act e).1) s) := by
  induction es generalizing s as with
  | nil => exact ⟨as, hrun⟩
  | cons e es ih =>
    have hstep : Step s (e, (s.act e).2) (s.act e).1 := ⟨h.1, rfl⟩
    exact ih (hrun.snoc hstep) h.2

/-- A call takes the status of another one for its own. -/
theorem vblk_takeover : ¬ ∀ as s a u, Run Step (attached 8 (fun _ _ => 0) fun _ => 0) as s →
    Step s a u → Lawful s a := by
  intro hall
  have henables : Enables Vblk.Enabled (fun s e => (s.act e).1)
      (attached 8 (fun _ _ => 0) fun _ => 0) takeover := by
    refine ⟨rfl, ?_, ?_, ?_, ?_, ?_, ?_, ?_, trivial⟩
    · exact Nat.zero_ne_one
    · show (0 : ℕ) ∈ Vblk.hands _
      decide
    · show Virtq.last_used _ ≠ Virtq.used_idx _
      decide
    · rfl
    · show Vblk.seen _ ≠ Virtq.avail_idx _
      decide
    · show (1 : ℕ) ∈ Vblk.hands _
      decide
    · show Virtq.last_used _ ≠ Virtq.used_idx _
      decide
  obtain ⟨as, hrun⟩ := exists_run .nil henables
  have hdone : (takeover.foldl (fun s e => (s.act e).1)
      (attached 8 (fun _ _ => 0) fun _ => 0)).done = true := by decide
  have hcompleted : (takeover.foldl (fun s e => (s.act e).1)
      (attached 8 (fun _ _ => 0) fun _ => 0)).completed = 1 := by decide
  have hdrained : (takeover.foldl (fun s e => (s.act e).1)
      (attached 8 (fun _ _ => 0) fun _ => 0)).q.last_used = (takeover.foldl (fun s e => (s.act e).1)
      (attached 8 (fun _ _ => 0) fun _ => 0)).q.used_idx := by decide
  generalize hs : takeover.foldl (fun s e => (s.act e).1)
    (attached 8 (fun _ _ => 0) fun _ => 0) = s at hrun hdone hcompleted hdrained
  have hcall : s.calls 0 = some ⟨firstSector, BitVec.ofNat 64 VBLK_TIMEOUT_TICKS, 0⟩ := by
    rw [← hs]
    rfl
  have hen : s.Enabled (.check 0 0) := by
    refine ⟨?_, hdrained⟩
    rw [hcall]
    exact nofun
  have hlaw := hall _ s (.check 0 0, (s.act (.check 0 0)).2) _ hrun ⟨hen, rfl⟩
  have hid := (hlaw _ hcall).1 hdone
  rw [hcompleted] at hid
  cases hid

end MobilePhoneOs.Virtio.Blk
