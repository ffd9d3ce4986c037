import MobilePhoneOs.Net.Arp

/-!
# Address resolution keeps its frames

The cache holds what was learned last, one entry for an address. There is one slot for a frame
that waits, whatever its destination: a frame for another destination takes the slot from the
frame that is in it, and that frame is neither sent nor given up.
-/

namespace MobilePhoneOs.Net

open List (length_append mem_append mem_singleton)

variable {s : Arp} {log : ArpLog} {p q : Arp × ArpLog} {a : ArpEvent × List LinkOut}

/-! ## The cache -/

/-- No two entries are of one address. -/
def Unique (s : Arp) : Prop :=
  ∀ i j, (s.cache i).valid = true → (s.cache j).valid = true →
    (s.cache i).ip = (s.cache j).ip → i = j

/-- The entries have what was learned last. -/
def Fresh (s : Arp) (log : ArpLog) : Prop :=
  ∀ i, (s.cache i).valid = true → log.latest (s.cache i).ip = some (s.cache i).hw

variable {ip : UInt32}

lemma hit_iff {i : Fin ARP_TABLE_MAX} :
    s.hit ip i = true ↔ (s.cache i).valid = true ∧ (s.cache i).ip = ip := by
  unfold Arp.hit
  rw [Bool.and_eq_true, decide_eq_true_iff]

/-- An entry of the address can only be in the place that `cache_put` takes. -/
lemma Unique.slot (h : Unique s) {i : Fin ARP_TABLE_MAX} (hi : s.hit ip i = true) :
    i = s.slot ip := by
  unfold Arp.slot
  cases hfind : (List.finRange ARP_TABLE_MAX).find? (s.hit ip) with
  | none => exact absurd hi (List.find?_eq_none.mp hfind i (List.mem_finRange i))
  | some j =>
    have hj := List.find?_some hfind
    rw [hit_iff] at hi hj
    exact h i j hi.1 hj.1 (hi.2.trans hj.2.symm)

lemma cachePut_cache (ip : UInt32) (hw : Hw) (now : UInt64) (i : Fin ARP_TABLE_MAX) :
    (s.cachePut ip hw now).cache i = if i = s.slot ip then ⟨true, ip, hw, now⟩ else s.cache i :=
  Function.update_apply _ _ _ _

lemma Unique.cachePut (h : Unique s) (ip : UInt32) (hw : Hw) (now : UInt64) :
    Unique (s.cachePut ip hw now) := by
  intro i j hi hj hij
  rw [cachePut_cache] at hi hj hij
  rw [cachePut_cache] at hij
  by_cases hislot : i = s.slot ip
  · by_cases hjslot : j = s.slot ip
    · rw [hislot, hjslot]
    · rw [if_pos hislot, if_neg hjslot] at hij
      rw [if_neg hjslot] at hj
      exact absurd (h.slot (hit_iff.mpr ⟨hj, hij.symm⟩)) hjslot
  · rw [if_neg hislot] at hi hij
    by_cases hjslot : j = s.slot ip
    · rw [if_pos hjslot] at hij
      exact absurd (h.slot (hit_iff.mpr ⟨hi, hij⟩)) hislot
    · rw [if_neg hjslot] at hj hij
      exact h i j hi hj hij

lemma latest_cons (ip ip' : UInt32) (hw : Hw) :
    ArpLog.latest { log with learned := (ip, hw) :: log.learned } ip' =
      if ip = ip' then some hw else log.latest ip' := by
  unfold ArpLog.latest
  rw [List.find?_cons]
  by_cases heq : ip = ip'
  · simp [heq]
  · simp [heq]

lemma Fresh.cachePut (h : Fresh s log) (hu : Unique s) (ip : UInt32) (hw : Hw) (now : UInt64) :
    Fresh (s.cachePut ip hw now) { log with learned := (ip, hw) :: log.learned } := by
  intro i hi
  rw [cachePut_cache] at hi ⊢
  rw [latest_cons]
  by_cases hslot : i = s.slot ip
  · rw [if_pos hslot, if_pos rfl]
  · rw [if_neg hslot] at hi ⊢
    have hne : ip ≠ (s.cache i).ip := by
      intro heq
      exact hslot (hu.slot (hit_iff.mpr ⟨hi, heq.symm⟩))
    rw [if_neg hne]
    exact h i hi

lemma Fresh.lookup (h : Fresh s log) {hw : Hw} (hl : s.lookup ip = some hw) :
    log.latest ip = some hw := by
  obtain ⟨i, hfind, hhw⟩ := Option.map_eq_some_iff.mp hl
  obtain ⟨hvalid, hip⟩ := hit_iff.mp (List.find?_some hfind)
  rw [← hip, ← hhw]
  exact h i hvalid

/-! ## The slot -/

/-- What holds of the queued frames whatever happens. -/
structure Queue (p : Arp × ArpLog) : Prop where
  once : (p.2.sent.map Prod.fst).Nodup
  own : ∀ so ∈ p.2.sent, ∃ f hw, p.2.queued[so.1]? = some f ∧ (f.ip, hw) ∈ p.2.learned ∧
    so.2 = ⟨f.nif, hw, ETHERTYPE_IPV4, f.buf⟩
  -- the frame in the slot is the last one, and nothing has become of it
  slot : p.1.pending.used = true → p.2.queued[p.2.last]? =
    some ⟨p.1.pending.ip, p.1.pending.nif, p.1.pending.frame⟩
  waits : p.1.pending.used = true → p.2.last ∉ p.2.sent.map Prod.fst ∧ p.2.last ∉ p.2.expired
  old : ∀ n, n ∈ p.2.sent.map Prod.fst ∨ n ∈ p.2.expired → n < p.2.queued.length

/-- Every queued frame went out, was given up or is in the slot. -/
def Kept (p : Arp × ArpLog) : Prop :=
  ∀ n < p.2.queued.length, n ∈ p.2.sent.map Prod.fst ∨ n ∈ p.2.expired ∨
    (p.1.pending.used = true ∧ n = p.2.last)

structure ArpInv (p : Arp × ArpLog) : Prop where
  unique : Unique p.1
  fresh : Fresh p.1 p.2
  queue : Queue p

lemma ArpInv.law_iff (h : ArpInv p) : ArpLaw p ↔ Kept p := by
  constructor
  · exact fun hlaw => hlaw.kept
  · intro hkept
    exact ⟨h.unique, fun _ _ hl => h.fresh.lookup hl, h.queue.once, h.queue.own, hkept⟩

lemma Queue.last_lt (h : Queue p) (hused : p.1.pending.used = true) :
    p.2.last < p.2.queued.length :=
  (List.getElem?_eq_some_iff.mp (h.slot hused)).1

/-- A frame that is not accepted leaves all as it was. -/
lemma sendIp_of_not_queues {dst_ip : UInt32} {buf : List UInt8} (h : ¬ s.Queues dst_ip buf)
    (nif : ℕ) (link : ℤ) : (s.sendIp nif dst_ip buf link).2.1 = s := by
  unfold Arp.sendIp
  by_cases hlong : buf.length > ETH_MTU
  · rw [if_pos hlong]
  · rw [if_neg hlong]
    cases hl : s.lookup dst_ip with
    | some hw => rfl
    | none =>
      by_cases hsame : s.pending.used = true ∧ s.pending.ip = dst_ip
      · rw [if_pos hsame]
      · exact absurd ⟨Nat.le_of_not_gt hlong, hl, hsame⟩ h

lemma sendIp_of_queues {dst_ip : UInt32} {buf : List UInt8} (h : s.Queues dst_ip buf)
    (nif : ℕ) (link : ℤ) : (s.sendIp nif dst_ip buf link).2.1 =
      { s with pending := ⟨true, dst_ip, nif, buf, 0, 0⟩ } := by
  obtain ⟨hlen, hl, hother⟩ := h
  unfold Arp.sendIp
  rw [if_neg (Nat.not_lt.mpr hlen), hl]
  rw [if_neg hother]

/-- A frame takes the slot. -/
lemma Queue.push (h : Queue (s, log)) (ip : UInt32) (nif : ℕ) (buf : List UInt8) :
    Queue ({ s with pending := ⟨true, ip, nif, buf, 0, 0⟩ },
      { log with queued := log.queued ++ [⟨ip, nif, buf⟩] }) ∧
    (Kept (s, log) → (Kept ({ s with pending := ⟨true, ip, nif, buf, 0, 0⟩ },
      { log with queued := log.queued ++ [⟨ip, nif, buf⟩] }) ↔ s.pending.used = false)) := by
  have hlast : ArpLog.last { log with queued := log.queued ++ [⟨ip, nif, buf⟩] } =
      log.queued.length := by
    unfold ArpLog.last
    rw [length_append, List.length_singleton, Nat.add_sub_cancel]
  constructor
  · refine ⟨h.once, ?_, ?_, ?_, ?_⟩
    · intro so hso
      obtain ⟨f, hw, hf, hrest⟩ := h.own so hso
      have hlt := (List.getElem?_eq_some_iff.mp hf).1
      exact ⟨f, hw, (List.getElem?_append_left hlt).trans hf, hrest⟩
    · intro _
      rw [hlast]
      exact List.getElem?_concat_length
    · intro _
      rw [hlast]
      exact ⟨fun hin => Nat.lt_irrefl _ (h.old _ (.inl hin)),
        fun hin => Nat.lt_irrefl _ (h.old _ (.inr hin))⟩
    · intro n hn
      have hlt : n < log.queued.length := h.old n hn
      rw [length_append]
      omega
  · intro hkept
    constructor
    · intro hkept'
      by_contra hfree
      have hused : s.pending.used = true := Bool.not_eq_false _ ▸ hfree
      -- the frame that was in the slot is lost
      have hlt : log.last < log.queued.length := h.last_lt hused
      have hlt' : log.last < (log.queued ++ [(⟨ip, nif, buf⟩ : Queued)]).length := by
        rw [length_append]
        omega
      have hfate := hkept' log.last hlt'
      obtain ⟨hsent, hexpired⟩ := h.waits hused
      cases hfate with
      | inl hin => exact hsent hin
      | inr hrest =>
        cases hrest with
        | inl hin => exact hexpired hin
        | inr hnow =>
          rw [hlast] at hnow
          exact absurd hnow.2 (Nat.ne_of_lt hlt)
    · intro hfree n hn
      rw [hlast]
      by_cases hnew : n = log.queued.length
      · exact .inr (.inr ⟨rfl, hnew⟩)
      · have hlt : n < log.queued.length := by
          rw [length_append, List.length_singleton] at hn
          omega
        cases hkept n hlt with
        | inl hin => exact .inl hin
        | inr hrest =>
          cases hrest with
          | inl hin => exact .inr (.inl hin)
          | inr hnow =>
            rw [show s.pending.used = false from hfree] at hnow
            exact absurd hnow.1 Bool.false_ne_true

/-- The frame in the slot goes out to an address just learned for its destination. -/
lemma Queue.release (h : Queue (s, log)) (ip : UInt32) (hw : Hw) :
    let r := s.release ip hw
    let log' := { log with
      learned := (ip, hw) :: log.learned
      sent := log.sent ++ r.2.map fun o => (log.last, o) }
    Queue (r.1, log') ∧ (Kept (s, log) → Kept (r.1, log')) := by
  have hown : ∀ so ∈ log.sent, ∃ f hw', log.queued[so.1]? = some f ∧
      (f.ip, hw') ∈ (ip, hw) :: log.learned ∧ so.2 = ⟨f.nif, hw', ETHERTYPE_IPV4, f.buf⟩ := by
    intro so hso
    obtain ⟨f, hw', hf, hlearned, hcall⟩ := h.own so hso
    exact ⟨f, hw', hf, List.mem_cons_of_mem _ hlearned, hcall⟩
  unfold Arp.release
  by_cases hmatch : s.pending.used = true ∧ s.pending.ip = ip
  · rw [if_pos hmatch]
    obtain ⟨hsent, hexpired⟩ := h.waits hmatch.1
    have hslot := h.slot hmatch.1
    constructor
    · refine ⟨?_, ?_, fun hused => absurd hused Bool.false_ne_true,
        fun hused => absurd hused Bool.false_ne_true, ?_⟩
      · rw [List.map_append, List.nodup_append]
        refine ⟨h.once, List.nodup_singleton _, ?_⟩
        intro n hn m hm heq
        rw [heq, mem_singleton.mp hm] at hn
        exact hsent hn
      · intro so hso
        cases mem_append.mp hso with
        | inl hin => exact hown so hin
        | inr hin =>
          rw [mem_singleton.mp hin]
          refine ⟨_, hw, hslot, ?_, rfl⟩
          rw [hmatch.2]
          exact List.mem_cons_self
      · intro n hn
        cases hn with
        | inl hin =>
          rw [List.map_append] at hin
          cases mem_append.mp hin with
          | inl hold => exact h.old n (.inl hold)
          | inr hnew =>
            rw [mem_singleton.mp hnew]
            exact h.last_lt hmatch.1
        | inr hin => exact h.old n (.inr hin)
    · intro hkept n hn
      have hmem : ∀ m, m ∈ log.sent.map Prod.fst ∨ m = log.last →
          m ∈ (log.sent ++ [(log.last, (⟨s.pending.nif, hw, ETHERTYPE_IPV4, s.pending.frame⟩ :
            LinkOut))]).map Prod.fst := by
        intro m hm
        rw [List.map_append, mem_append]
        exact hm.imp_right fun heq => mem_singleton.mpr heq
      cases hkept n hn with
      | inl hin => exact .inl (hmem n (.inl hin))
      | inr hrest =>
        cases hrest with
        | inl hin => exact .inr (.inl hin)
        | inr hnow => exact .inl (hmem n (.inr hnow.2))
  · rw [if_neg hmatch]
    dsimp only
    rw [List.map_nil, List.append_nil]
    exact ⟨⟨h.once, hown, h.slot, h.waits, h.old⟩, id⟩

/-- A tick leaves the frame in the slot, or gives it up. -/
lemma tick_cases (s : Arp) (now : UInt64) :
    ((s.tick now).1.pending.used = s.pending.used ∧ (s.tick now).1.pending.ip = s.pending.ip ∧
      (s.tick now).1.pending.nif = s.pending.nif ∧
        (s.tick now).1.pending.frame = s.pending.frame) ∨
      s.pending.used = true ∧ (s.tick now).1.pending.used = false := by
  unfold Arp.tick
  cases hused : s.pending.used with
  | false => exact .inl ⟨hused, rfl, rfl, rfl⟩
  | true =>
    rw [if_neg (by decide)]
    by_cases hlate : now - s.pending.sent_ms ≥ 1000
    · rw [if_pos hlate]
      by_cases htries : s.pending.tries + 1 > 3
      · rw [if_pos htries]
        exact .inr ⟨rfl, rfl⟩
      · rw [if_neg htries]
        exact .inl ⟨hused, rfl, rfl, rfl⟩
    · rw [if_neg hlate]
      exact .inl ⟨hused, rfl, rfl, rfl⟩

/-- A frame is given up after the third request, and only then. -/
lemma Queue.tick (h : Queue (s, log)) (now : UInt64) :
    let t := (s.tick now).1
    let log' := log.next s (s.tick now).2 t (.tick now)
    Queue (t, log') ∧ (Kept (s, log) → Kept (t, log')) := by
  intro t log'
  rcases tick_cases s now with ⟨hused, hip, hnif, hframe⟩ | ⟨hused, hfree⟩
  · have hlog : log' = log := if_neg fun hc => hc.2 (hused.trans hc.1)
    rw [hlog]
    refine ⟨⟨h.once, h.own, ?_, ?_, h.old⟩, ?_⟩
    · rw [hused, hip, hnif, hframe]
      exact h.slot
    · rw [hused]
      exact h.waits
    · intro hkept n hn
      rw [hused]
      exact hkept n hn
  · have hlog : log' = { log with expired := log.expired ++ [log.last] } :=
      if_pos ⟨hused, by rw [hfree]; exact Bool.false_ne_true⟩
    rw [hlog]
    constructor
    · refine ⟨h.once, h.own, fun hc => ?_, fun hc => ?_, ?_⟩
      · exact absurd (hfree.symm.trans hc) Bool.false_ne_true
      · exact absurd (hfree.symm.trans hc) Bool.false_ne_true
      · intro n hn
        cases hn with
        | inl hin => exact h.old n (.inl hin)
        | inr hin =>
          cases mem_append.mp hin with
          | inl hold => exact h.old n (.inr hold)
          | inr hnew =>
            rw [mem_singleton.mp hnew]
            exact h.last_lt hused
    · intro hkept n hn
      cases hkept n hn with
      | inl hin => exact .inl hin
      | inr hrest =>
        right
        left
        apply mem_append.mpr
        exact hrest.imp_right fun hnow => mem_singleton.mpr hnow.2

/-! ## Runs -/

/-- The IPv4 frame that `arp_input` sends is the one from the slot. -/
lemma input_sent {pkt : List UInt8} {hw : Hw}
    (hsender : Arp.sender pkt = some (ip, hw)) (nif : ℕ) (now : UInt64) :
    (s.input pkt nif now).1 = ((s.cachePut ip hw now).release ip hw).1 ∧
      (s.input pkt nif now).2.filter (fun o => o.ethertype = ETHERTYPE_IPV4) =
        ((s.cachePut ip hw now).release ip hw).2 := by
  have hreply : ∀ t : Arp, (t.reply pkt nif ip hw).filter
      (fun o => o.ethertype = ETHERTYPE_IPV4) = [] := by
    intro t
    unfold Arp.reply
    split
    · rfl
    · rfl
  have hrelease : ∀ t : Arp, (t.release ip hw).2.filter
      (fun o => o.ethertype = ETHERTYPE_IPV4) = (t.release ip hw).2 := by
    intro t
    unfold Arp.release
    split
    · rfl
    · rfl
  unfold Arp.input
  rw [hsender]
  refine ⟨rfl, ?_⟩
  rw [List.filter_append, hreply, hrelease, List.append_nil]

lemma next_input (outs : List LinkOut) (t : Arp) (pkt : List UInt8) (nif : ℕ) (now : UInt64) :
    log.next s outs t (.input pkt nif now) = { log with
      learned := (Arp.sender pkt).toList ++ log.learned
      sent := log.sent ++
        (outs.filter fun o => o.ethertype = ETHERTYPE_IPV4).map fun o => (log.last, o) } := rfl

/-- One step: the law holds after it exactly under the condition. -/
lemma ArpStep.spec (h : ArpInv p) (hkept : Kept p) (hs : ArpStep p a q) :
    ArpInv q ∧ (Kept q ↔ SlotFree p a.1) := by
  obtain ⟨s, log⟩ := p
  obtain ⟨t, log'⟩ := q
  obtain ⟨e, outs⟩ := a
  obtain ⟨hact, hlog⟩ := hs
  have ht : t = (s.act e).1 := by rw [hact]
  have houts : outs = (s.act e).2 := by rw [hact]
  have hlog : log' = log.next s outs t e := hlog
  cases e with
  | send nif dst_ip buf link =>
    have ht : t = (s.sendIp nif dst_ip buf link).2.1 := ht
    show _ ∧ (_ ↔ (s.Queues dst_ip buf → s.pending.used = false))
    by_cases hq : s.Queues dst_ip buf
    · have hlog : log' = { log with queued := log.queued ++ [⟨dst_ip, nif, buf⟩] } :=
        hlog.trans (if_pos hq)
      rw [sendIp_of_queues hq] at ht
      rw [ht, hlog]
      obtain ⟨hqueue, hiff⟩ := h.queue.push dst_ip nif buf
      refine ⟨⟨h.unique, h.fresh, hqueue⟩, (hiff hkept).trans ?_⟩
      exact ⟨fun hu _ => hu, fun hu => hu hq⟩
    · have hlog : log' = log := hlog.trans (if_neg hq)
      rw [sendIp_of_not_queues hq] at ht
      rw [ht, hlog]
      exact ⟨h, iff_of_true hkept fun hc => absurd hc hq⟩
  | input pkt nif now =>
    have ht : t = (s.input pkt nif now).1 := ht
    have houts : outs = (s.input pkt nif now).2 := houts
    cases hsender : Arp.sender pkt with
    | none =>
      have hinput : s.input pkt nif now = (s, []) := by
        unfold Arp.input
        rw [hsender]
      have hlog : log' = log := by
        rw [hlog, houts, hinput, next_input, hsender, List.filter_nil, List.map_nil,
          List.append_nil]
        rfl
      rw [hinput] at ht
      rw [ht, hlog]
      exact ⟨h, iff_of_true hkept trivial⟩
    | some l =>
      obtain ⟨ip, hw⟩ := l
      obtain ⟨hstate, hsent⟩ := input_sent (s := s) hsender nif now
      have hlog : log' = { log with
          learned := (ip, hw) :: log.learned
          sent := log.sent ++
            ((s.cachePut ip hw now).release ip hw).2.map fun o => (log.last, o) } := by
        rw [hlog, houts, next_input, hsent, hsender]
        rfl
      rw [hstate] at ht
      rw [ht, hlog]
      have hqueue : Queue (s.cachePut ip hw now, log) :=
        ⟨h.queue.once, h.queue.own, h.queue.slot, h.queue.waits, h.queue.old⟩
      obtain ⟨hqueue', hkept'⟩ := hqueue.release ip hw
      have hcache : ((s.cachePut ip hw now).release ip hw).1.cache =
          (s.cachePut ip hw now).cache := by
        unfold Arp.release
        split
        · rfl
        · rfl
      refine ⟨⟨?_, ?_, hqueue'⟩, iff_of_true (hkept' hkept) trivial⟩
      · unfold Unique
        rw [hcache]
        exact h.unique.cachePut ip hw now
      · unfold Fresh
        rw [hcache]
        exact h.fresh.cachePut h.unique ip hw now
  | tick now =>
    have ht : t = (s.tick now).1 := ht
    obtain ⟨hqueue, hkept'⟩ := h.queue.tick now
    have hcache : (s.tick now).1.cache = s.cache := by
      unfold Arp.tick
      split
      · rfl
      · split
        · split
          · rfl
          · rfl
        · rfl
    have hlearned : ∀ t' outs', (log.next s outs' t' (.tick now)).learned = log.learned := by
      intro t' outs'
      show (if _ then _ else log).learned = log.learned
      split
      · rfl
      · rfl
    rw [hlog, ht, houts]
    refine ⟨⟨?_, ?_, hqueue⟩, iff_of_true (hkept' hkept) trivial⟩
    · unfold Unique
      rw [hcache]
      exact h.unique
    · unfold Fresh ArpLog.latest
      rw [hcache, hlearned]
      exact h.fresh
  | bind nif n =>
    rw [ht, hlog]
    refine ⟨⟨h.unique, h.fresh, ?_⟩, iff_of_true hkept trivial⟩
    exact ⟨h.queue.once, h.queue.own, h.queue.slot, h.queue.waits, h.queue.old⟩

/-- The log before anything has happened. -/
def ArpLog.empty : ArpLog := ⟨[], [], [], []⟩

lemma arpInv_boot (nifs : ℕ → ArpNetif) : ArpInv (Arp.boot nifs, .empty) := by
  refine ⟨fun i j hi => absurd hi Bool.false_ne_true, fun i hi => absurd hi Bool.false_ne_true, ?_⟩
  refine ⟨List.nodup_nil, fun so hso => absurd hso List.not_mem_nil,
    fun hused => absurd hused Bool.false_ne_true, fun hused => absurd hused Bool.false_ne_true, ?_⟩
  intro n hn
  exact absurd hn (not_or.mpr ⟨List.not_mem_nil, List.not_mem_nil⟩)

/-! ## Calls that overlap -/

/-- A call that no other overlaps is one step. -/
lemma run_eventCode (s : Arp) (e : ArpEvent) : (eventCode e).run s = ((s.act e).2, (s.act e).1) := by
  cases e with
  | send nif dst_ip buf link =>
    simp only [eventCode, sendIpCode, Arp.act, Arp.sendIp]
    by_cases hlong : buf.length > ETH_MTU
    · rw [if_pos hlong, if_pos hlong]
      rfl
    · rw [if_neg hlong, if_neg hlong, Code.run_read]
      cases s.lookup dst_ip with
      | some hw => rfl
      | none =>
        dsimp only
        rw [Code.run_read]
        split_ifs
        · rfl
        · rfl
  | input pkt nif now =>
    simp only [eventCode, arpInputCode, Arp.act, Arp.input]
    split
    · rfl
    · next ip hw _ =>
      simp only [Code.run_read, Code.run_write]
      show Code.run (if (s.cachePut ip hw now).pending.used ∧ (s.cachePut ip hw now).pending.ip = ip
        then _ else _) (s.cachePut ip hw now) = _
      unfold Arp.release
      split_ifs
      · rfl
      · rfl
  | tick now =>
    simp only [eventCode, tickCode, Arp.act, Arp.tick, Code.run_read]
    split
    · rfl
    · rw [Code.run_read]
      split_ifs with hlate htries
      · rw [Code.run_read, Code.run_write, if_pos htries]
        rfl
      · rw [Code.run_read, Code.run_write, if_neg htries]
        rfl
      · rfl
  | bind nif n => rfl

lemma run_arp (c : Code Arp (List LinkOut)) (p : Arp × ArpLog) :
    (c.zoom Prod.fst fun s q => (s, q.2)).run p = ((c.run p.1).1, ((c.run p.1).2, p.2)) := by
  refine Code.run_zoom (fun s q => ?_) (fun s s' q => ?_) (fun q => ?_) c p
  all_goals rfl

lemma step_of_whole {x : ArpEvent × List LinkOut}
    (h : Calls.Whole loggedCode ArpBegins p x q) : ArpStep p x q := by
  have hrun := h.2
  rw [loggedCode, Code.run_read, Code.run_bind, run_arp, run_eventCode] at hrun
  obtain ⟨houts, hq⟩ := Prod.mk.inj hrun
  have houts : (p.1.act x.1).2 = x.2 := houts
  rw [ArpStep, ← hq, ← houts]
  exact ⟨rfl, rfl⟩

/-- In every run in which no call overlaps another and a frame is queued only when the slot is
free, the cache has what was learned last, and every queued frame goes out once to the address of
its own destination, is given up or waits; and a further call that no other overlaps keeps this
exactly if it meets the condition. -/
theorem arp_resolution {nifs : ℕ → ArpNetif} {labels : List (Calls.Label ArpEvent (List LinkOut))}
    {c : Calls (Arp × ArpLog) ArpEvent (List LinkOut)}
    (hrun : Run (Guarded (Calls.Serial SlotFree) (Calls.Step loggedCode ArpBegins))
      ⟨(Arp.boot nifs, .empty), []⟩ labels c) (hidle : c.running = []) :
    ArpLaw c.shared ∧ ∀ a q, ArpStep c.shared a q → (ArpLaw q ↔ SlotFree c.shared a.1) := by
  obtain ⟨p, hwhole, hrest⟩ := Calls.whole_of_serial hrun
  obtain rfl := hrest.idle hidle
  have hinv : ArpInv c.shared ∧ Kept c.shared := by
    refine hwhole.invariant (I := fun p => ArpInv p ∧ Kept p)
      ⟨arpInv_boot nifs, fun n hn => absurd hn (Nat.not_lt_zero n)⟩ fun p x q hp hstep => ?_
    obtain ⟨hinv, hiff⟩ := (step_of_whole hstep.2).spec hp.1 hp.2
    exact ⟨hinv, hiff.mpr hstep.1⟩
  refine ⟨hinv.1.law_iff.mpr hinv.2, fun a q hstep => ?_⟩
  obtain ⟨hnext, hiff⟩ := hstep.spec hinv.1 hinv.2
  exact hnext.law_iff.trans hiff

/-- The state and the log after a step. -/
def arpAct (p : Arp × ArpLog) (e : ArpEvent) : Arp × ArpLog :=
  ((p.1.act e).1, p.2.next p.1 (p.1.act e).2 (p.1.act e).1 e)

lemma arpAct_step (p : Arp × ArpLog) (e : ArpEvent) : ArpStep p (e, (p.1.act e).2) (arpAct p e) :=
  ⟨rfl, rfl⟩

/-- A frame waits for an address, which a reply brings. -/
def resolved : List (ArpEvent × List LinkOut) :=
  let nif : ArpNetif := ⟨[2, 0, 0, 0, 0, 1], 1⟩
  let answer := arpBuild ARP_REPLY [2, 0, 0, 0, 0, 2] 2 nif.hwaddr 1
  [(.send 0 2 [1] 0, [⟨0, bcast, ETHERTYPE_ARP, arpBuild ARP_REQUEST nif.hwaddr 1 zero_hw 2⟩]),
    (.input answer 0 5, [⟨0, [2, 0, 0, 0, 0, 2], ETHERTYPE_IPV4, [1]⟩])]

/-- The theorem on this run. -/
theorem arp_resolution_reply : ∃ labels c, Calls.answers labels = resolved ∧
    Run (Calls.Step loggedCode ArpBegins)
      ⟨(Arp.boot fun _ => ⟨[2, 0, 0, 0, 0, 1], 1⟩, .empty), []⟩ labels c ∧ ArpLaw c.shared := by
  let start : Arp × ArpLog := (Arp.boot fun _ => ⟨[2, 0, 0, 0, 0, 1], 1⟩, .empty)
  let waiting := ((loggedCode (.send 0 2 [1] 0)).run start).2
  have hsend : Calls.Whole loggedCode ArpBegins start (resolved.get ⟨0, by decide⟩) waiting :=
    .of_answer trivial (by decide)
  have hinput : Calls.Whole loggedCode ArpBegins waiting (resolved.get ⟨1, by decide⟩) _ :=
    .of_answer trivial (by decide)
  have hfree : SlotFree start (.send 0 2 [1] 0) := fun _ => rfl
  have hwhole : Run (Guarded (fun p x => SlotFree p x.1) (Calls.Whole loggedCode ArpBegins)) start
      ([] ++ [resolved.get ⟨0, by decide⟩] ++ [resolved.get ⟨1, by decide⟩]) _ :=
    .snoc (.snoc .nil ⟨hfree, hsend⟩) ⟨trivial, hinput⟩
  obtain ⟨labels, hans, hrun⟩ := Calls.serial_of_whole _ hwhole
  exact ⟨labels, _, hans, hrun.mono fun _ _ _ h => h.2, (arp_resolution hrun rfl).1⟩

/-- A frame for one neighbour waits, and one for another takes its place. -/
theorem queued_frame_replaced : ¬ ∀ nifs as p,
    Run ArpStep (Arp.boot nifs, .empty) as p → ArpLaw p := by
  intro hall
  let start : Arp × ArpLog := (Arp.boot fun _ => ⟨[2, 0, 0, 0, 0, 1], 1⟩, .empty)
  have hrun : Run ArpStep start
      ([] ++ [(.send 0 2 [1] 0, _)] ++ [(.send 0 3 [1] 0, _)])
      (arpAct (arpAct start (.send 0 2 [1] 0)) (.send 0 3 [1] 0)) :=
    .snoc (.snoc .nil (arpAct_step _ _)) (arpAct_step _ _)
  have hkept := (hall _ _ _ hrun).kept 0 (by decide)
  revert hkept
  decide

end MobilePhoneOs.Net
