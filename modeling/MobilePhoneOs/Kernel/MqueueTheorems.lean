import MobilePhoneOs.Kernel.Mqueue
import Mathlib.Data.List.Forall2

/-!
# Message queues deliver whole messages in order

A queue stands for the list of messages in its ring. Every locked section either appends one
message to that list, takes one from its front, or leaves it; so what was accepted since the
queue was made is what was received followed by what is still queued.
-/

namespace MobilePhoneOs

open Function (update update_of_ne update_self)
namespace Ipc
namespace Mq

open Mem

/-- The messages in the ring, oldest first. -/
def queued (q : Mqueue) : List (List UInt8) :=
  Ring.contents MQ_DEPTH (fun i => slice (q.msgs i) 0 (q.mlen i)) q.head q.count

/-- The indices stay inside the ring. -/
structure Ok (q : Mqueue) : Prop where
  head_lt : q.head < MQ_DEPTH
  count_le : q.count ≤ MQ_DEPTH

lemma ok_zero : Ok Mqueue.zero := ⟨by decide, by decide⟩

/-! ## One section -/

variable {q q' : Mqueue} {t : Task} {msg : List UInt8}

/-- An accepted message is appended as it is. -/
lemma sendSection_accepted (hq : Ok q)
    (hmsg : msg.length ≤ MQ_MSG_MAX) (h : sendSection q t msg = (q', .accepted)) :
    Ok q' ∧ queued q' = queued q ++ [msg] ∧ q'.inflight = q.inflight - 1 ∧ q'.used = q.used := by
  unfold sendSection at h
  split_ifs at h with hroom
  · obtain rfl := (Prod.mk.inj h).1
    refine ⟨⟨hq.head_lt, hroom⟩, ?_, rfl, rfl⟩
    have hlen : msg.length % 2 ^ 16 = msg.length := by
      refine Nat.mod_eq_of_lt ?_
      simp only [MQ_MSG_MAX] at hmsg
      omega
    set tail := (q.head + q.count) % MQ_DEPTH with htail
    have hlt : tail < MQ_DEPTH := Nat.mod_lt _ (by decide)
    -- the slots as a buffer of messages: one cell is overwritten
    have hcells : (fun i => slice (Function.update q.msgs tail (store (q.msgs tail) 0 msg) i) 0
          (Function.update q.mlen tail (msg.length % 2 ^ 16) i))
        = store (fun i => slice (q.msgs i) 0 (q.mlen i)) tail [msg] := by
      funext i
      rcases Nat.lt_trichotomy i tail with hi | hi | hi
      · rw [store_of_lt hi, update_of_ne hi.ne, update_of_ne hi.ne]
      · have hcell : store (fun i => slice (q.msgs i) 0 (q.mlen i)) tail [msg] (tail + 0) = msg :=
          store_add Nat.one_pos
        rw [Nat.add_zero] at hcell
        rw [hi, hcell, update_self, update_self, hlen, slice_store]
      · rw [store_of_ge (show tail + [msg].length ≤ i from hi), update_of_ne hi.ne',
          update_of_ne hi.ne']
    show Ring.contents MQ_DEPTH _ q.head (q.count + 1) = _
    rw [hcells]
    exact Ring.contents_store htail (show q.count + 1 ≤ MQ_DEPTH from hroom)
      (show tail + 1 ≤ MQ_DEPTH from hlt)
  · exact absurd (Prod.mk.inj h).2 (by simp)

variable {out : SendOutcome}

/-- A section of a send that does not accept parks. -/
lemma sendSection_parked
    (hout : out ≠ .accepted) (h : sendSection q t msg = (q', out)) :
    out = .parked ∧ ∃ sq, q' = { q with sq := sq } := by
  unfold sendSection at h
  split_ifs at h with hroom
  · exact absurd (Prod.mk.inj h).2.symm hout
  · exact ⟨(Prod.mk.inj h).2.symm, _, (Prod.mk.inj h).1.symm⟩

variable {buflen : ℕ}

/-- A received message is the first one of the queue. -/
lemma receiveSection_message {len : ℕ} {bytes : List UInt8}
    (hq : Ok q) (h : receiveSection q t buflen = (q', .message len bytes)) :
    Ok q' ∧ (∃ m, queued q = m :: queued q' ∧ Receipt.Returns ⟨buflen, len, bytes⟩ m) ∧
      q'.inflight = q.inflight - 1 ∧ q'.used = q.used := by
  unfold receiveSection at h
  split_ifs at h with hne
  · obtain ⟨rfl, rfl, rfl⟩ := h
    have hle := hq.count_le
    refine ⟨⟨Nat.mod_lt _ (by decide), by show q.count - 1 ≤ MQ_DEPTH; omega⟩, ?_, rfl, rfl⟩
    refine ⟨slice (q.msgs q.head) 0 (q.mlen q.head), ?_, (slice_length _ _ _).symm, ?_⟩
    · have hone : 1 ≤ q.count := Nat.pos_of_ne_zero hne
      have hsplit : queued q = _ ++ _ :=
        Ring.contents_split (fun i => slice (q.msgs i) 0 (q.mlen i)) q.head hone
      have hfirst : Ring.contents MQ_DEPTH (fun i => slice (q.msgs i) 0 (q.mlen i)) q.head 1
          = [slice (q.msgs q.head) 0 (q.mlen q.head)] := by
        simp [Ring.contents, Nat.mod_eq_of_lt hq.head_lt]
      rw [hfirst] at hsplit
      exact hsplit
    · split_ifs with hshort
      · rw [List.take_of_length_le]
        rw [slice_length]
        exact hshort.le
      · exact (slice_take _ _ (not_lt.mp hshort)).symm
  · exact absurd (Prod.mk.inj h).2 (by simp)

lemma receiveSection_parked {out : ReceiveOutcome}
    (hout : ∀ len bytes, out ≠ .message len bytes) (h : receiveSection q t buflen = (q', out)) :
    out = .parked ∧ ∃ rq, q' = { q with rq := rq } := by
  unfold receiveSection at h
  split_ifs at h with hne
  · exact absurd (Prod.mk.inj h).2.symm (hout _ _)
  · exact ⟨(Prod.mk.inj h).2.symm, _, (Prod.mk.inj h).1.symm⟩

/-! ## What an event does to one queue -/

/-- The queue in slot `id` before and after an event. -/
structure Moves (id : ℕ) (e : Event) (q q' : Mqueue) : Prop where
  ok : Ok q → Ok q'
  created : creates id e = true → q.used = false ∧ queued q' = []
  stream : Ok q → creates id e = false → ∃ taken,
    queued q ++ acceptedBy id e = taken ++ queued q' ∧
      List.Forall₂ Receipt.Returns (receivedBy id e) taken

/-- The ring is untouched. -/
def SameRing (q q' : Mqueue) : Prop :=
  q'.head = q.head ∧ q'.count = q.count ∧ q'.msgs = q.msgs ∧ q'.mlen = q.mlen

lemma SameRing.refl (q : Mqueue) : SameRing q q := ⟨rfl, rfl, rfl, rfl⟩

lemma SameRing.queued (h : SameRing q q') : queued q' = queued q := by
  unfold Mq.queued
  rw [h.1, h.2.1, h.2.2.1, h.2.2.2]

lemma SameRing.ok (h : SameRing q q') (hq : Ok q) : Ok q' :=
  ⟨h.1 ▸ hq.head_lt, h.2.1 ▸ hq.count_le⟩

variable {id : ℕ} {e : Event}

/-- An event that neither sends nor receives on this queue leaves it. -/
lemma Moves.idle (hring : SameRing q q')
    (hc : creates id e = false) (ha : acceptedBy id e = []) (hr : receivedBy id e = []) :
    Moves id e q q' where
  ok := hring.ok
  created := fun h => absurd (hc.symm.trans h) (by simp)
  stream := fun _ _ => ⟨[], by rw [ha, hring.queued, List.append_nil, List.nil_append],
    by rw [hr]; exact .nil⟩

/-- A section of a send moves its message in, or nothing. -/
lemma moves_sendSection (hmsg : msg.length ≤ MQ_MSG_MAX) (h : sendSection q t msg = (q', out))
    (hc : creates id e = false) (ha : acceptedBy id e = if out = .accepted then [msg] else [])
    (hr : receivedBy id e = []) : Moves id e q q' := by
  by_cases hout : out = .accepted
  · subst hout
    rw [if_pos rfl] at ha
    refine ⟨fun hq => (sendSection_accepted hq hmsg h).1, fun hcr => ?_, fun hq _ => ⟨[], ?_, ?_⟩⟩
    · exact absurd (hc.symm.trans hcr) (by simp)
    · rw [ha, (sendSection_accepted hq hmsg h).2.1, List.nil_append]
    · rw [hr]
      exact .nil
  · rw [if_neg hout] at ha
    obtain ⟨-, sq, rfl⟩ := sendSection_parked hout h
    exact Moves.idle ⟨rfl, rfl, rfl, rfl⟩ hc ha hr

/-- A section of a receive moves the first message out, or nothing. -/
lemma moves_receiveSection
    {out : ReceiveOutcome} (h : receiveSection q t buflen = (q', out))
    (hc : creates id e = false) (ha : acceptedBy id e = [])
    (hr : receivedBy id e = match out with
      | .message len bytes => [⟨buflen, len, bytes⟩]
      | _ => []) : Moves id e q q' := by
  by_cases hout : ∃ len bytes, out = .message len bytes
  · obtain ⟨len, bytes, rfl⟩ := hout
    refine ⟨fun hq => (receiveSection_message hq h).1, fun hcr => ?_, fun hq _ => ?_⟩
    · exact absurd (hc.symm.trans hcr) (by simp)
    · obtain ⟨m, hm, hret⟩ := (receiveSection_message hq h).2.1
      refine ⟨[m], ?_, ?_⟩
      · rw [ha, hm, List.append_nil]
        rfl
      · rw [hr]
        exact .cons hret .nil
  · obtain ⟨hpark, rq, rfl⟩ := receiveSection_parked (fun len bytes hm => hout ⟨len, bytes, hm⟩) h
    subst hpark
    exact Moves.idle ⟨rfl, rfl, rfl, rfl⟩ hc ha hr

/-- Taking a pin does not touch the ring. -/
lemma Moves.of_pinned {n : ℕ}
    (h : Moves id e { q with inflight := n } q') : Moves id e q q' :=
  ⟨fun hq => h.ok ⟨hq.head_lt, hq.count_le⟩, h.created,
    fun hq => h.stream ⟨hq.head_lt, hq.count_le⟩⟩

/-! ## The calls -/

variable {pool pool' : Pool}

/-- `mq_send_id` answers with an error and does nothing, or runs a section on a live queue. -/
lemma mqSendId_cases {hasBuf : Bool} (h : (pool', out) = mqSendId pool t id hasBuf msg) :
    (pool' = pool ∧ out ≠ .accepted ∧ out ≠ .parked) ∨
    (msg.length ≤ MQ_MSG_MAX ∧ (pool id).used = true ∧ ∃ q,
      sendSection { pool id with inflight := (pool id).inflight + 1 } t msg = (q, out) ∧
        pool' = Function.update pool id q) := by
  unfold mqSendId at h
  split_ifs at h with hbuf hlen hid
  · obtain ⟨rfl, rfl⟩ := Prod.mk.inj h
    exact .inl ⟨rfl, by simp, by simp⟩
  · obtain ⟨rfl, rfl⟩ := Prod.mk.inj h
    exact .inl ⟨rfl, by simp, by simp⟩
  · obtain ⟨rfl, rfl⟩ := Prod.mk.inj h
    exact .inl ⟨rfl, by simp, by simp⟩
  · obtain ⟨rfl, rfl⟩ := Prod.mk.inj h
    rw [not_or, Bool.not_eq_false] at hid
    exact .inr ⟨not_lt.mp hlen, hid.2, _, rfl, rfl⟩

lemma mqReceiveId_cases {hasBuf : Bool}
    {out : ReceiveOutcome} (h : (pool', out) = mqReceiveId pool t id hasBuf buflen) :
    (pool' = pool ∧ (∀ len bytes, out ≠ .message len bytes) ∧ out ≠ .parked) ∨
    ((pool id).used = true ∧ ∃ q,
      receiveSection { pool id with inflight := (pool id).inflight + 1 } t buflen = (q, out) ∧
        pool' = Function.update pool id q) := by
  unfold mqReceiveId at h
  split_ifs at h with hbuf hid
  · obtain ⟨rfl, rfl⟩ := Prod.mk.inj h
    exact .inl ⟨rfl, by simp, by simp⟩
  · obtain ⟨rfl, rfl⟩ := Prod.mk.inj h
    exact .inl ⟨rfl, by simp, by simp⟩
  · obtain ⟨rfl, rfl⟩ := Prod.mk.inj h
    rw [not_or, Bool.not_eq_false] at hid
    exact .inr ⟨hid.2, _, rfl, rfl⟩

/-- `mq_open` changes one queue: it counts a handle, or makes a queue in a free slot. -/
lemma mqOpen_cases {name : List UInt8} {out : OpenOutcome}
    (h : (pool', out) = mqOpen pool name) :
    (pool' = pool ∧ ∀ id, out ≠ .created id) ∨
    (∃ id n, (∀ i, out ≠ .created i) ∧ (pool id).used = true ∧
      pool' = Function.update pool id { pool id with handles := n }) ∨
    (∃ id name', out = .created id ∧ (pool id).used = false ∧
      pool' = Function.update pool id
        { Mqueue.zero with used := true, name := name', handles := 1 }) := by
  unfold mqOpen at h
  split_ifs at h with hname
  · obtain ⟨rfl, rfl⟩ := Prod.mk.inj h
    exact .inl ⟨rfl, by simp⟩
  · dsimp only at h
    split at h
    · next id hfind =>
      obtain ⟨rfl, rfl⟩ := Prod.mk.inj h
      have hid := List.find?_some hfind
      rw [Bool.and_eq_true] at hid
      exact .inr (.inl ⟨id, _, by simp, hid.1, rfl⟩)
    · split at h
      · obtain ⟨rfl, rfl⟩ := Prod.mk.inj h
        exact .inl ⟨rfl, by simp⟩
      · next id hfind =>
        obtain ⟨rfl, rfl⟩ := Prod.mk.inj h
        have hid := List.find?_some hfind
        rw [Bool.not_eq_true'] at hid
        exact .inr (.inr ⟨id, _, rfl, hid, rfl⟩)

/-- `mq_close_id` drops a handle and frees the queue only when no call is inside. -/
lemma mqCloseId_cases {out : CloseOutcome}
    (h : (pool', out) = mqCloseId pool id) :
    pool' = pool ∨ ∃ q, SameRing (pool id) q ∧ q.inflight = (pool id).inflight ∧
      (q.used = (pool id).used ∨ (pool id).inflight = 0) ∧ pool' = Function.update pool id q := by
  unfold mqCloseId at h
  split_ifs at h with hid hused
  · exact .inl (Prod.mk.inj h).1
  · refine .inr ⟨_, ?_, ?_, ?_, (Prod.mk.inj h).1⟩
    · unfold mqTryFree
      split_ifs with hfree
      · exact ⟨rfl, rfl, rfl, rfl⟩
      · exact ⟨rfl, rfl, rfl, rfl⟩
    · unfold mqTryFree
      split_ifs with hfree
      · rfl
      · rfl
    · unfold mqTryFree
      split_ifs with hfree
      · exact .inr hfree.2.2
      · exact .inl rfl
  · exact .inl (Prod.mk.inj h).1

/-! ## The pins -/

/-- Each call in progress holds one pin on its queue, and a pinned queue is not freed. -/
structure Pins (s : Sys) : Prop where
  count : ∀ id, (s.pool id).inflight = s.blocked.countP fun x => x.2.id = id
  used : ∀ id, (s.pool id).inflight ≠ 0 → (s.pool id).used = true
  short : ∀ t id msg, (t, Call.send id msg) ∈ s.blocked → msg.length ≤ MQ_MSG_MAX

variable {s : Sys}

lemma Pins.blocked_used (hs : Pins s) {c : Call} (h : (t, c) ∈ s.blocked) :
    0 < (s.pool c.id).inflight ∧ (s.pool c.id).used = true := by
  have hpos : 0 < (s.pool c.id).inflight := by
    rw [hs.count]
    exact List.countP_pos_iff.mpr ⟨(t, c), h, by simp⟩
  exact ⟨hpos, hs.used _ hpos.ne'⟩

variable {s' : Sys}

/-- A change of one queue that keeps the books of its pins. -/
lemma Pins.update (hs : Pins s)
    (hpool : s'.pool = Function.update s.pool id q)
    (hcount : q.inflight = s'.blocked.countP fun x => x.2.id = id)
    (hother : ∀ i, i ≠ id → (s'.blocked.countP fun x => x.2.id = i)
      = s.blocked.countP fun x => x.2.id = i)
    (hused : q.inflight ≠ 0 → q.used = true)
    (hshort : ∀ t i msg, (t, Call.send i msg) ∈ s'.blocked → msg.length ≤ MQ_MSG_MAX) :
    Pins s' := by
  refine ⟨fun i => ?_, fun i => ?_, hshort⟩
  · rw [hpool]
    by_cases hi : i = id
    · rw [hi, update_self]
      exact hcount
    · rw [update_of_ne hi, hother i hi]
      exact hs.count i
  · rw [hpool]
    by_cases hi : i = id
    · rw [hi, update_self]
      exact hused
    · rw [update_of_ne hi]
      exact hs.used i

/-- A change that touches neither the pins of a queue nor a pinned queue's life. -/
lemma Pins.keep (hs : Pins s)
    (hpool : s'.pool = Function.update s.pool id q) (hblocked : s'.blocked = s.blocked)
    (hcount : q.inflight = (s.pool id).inflight)
    (hused : (s.pool id).inflight ≠ 0 → q.used = true) : Pins s' := by
  refine hs.update hpool ?_ ?_ ?_ ?_
  · rw [hcount, hblocked]
    exact hs.count id
  · intro i _
    rw [hblocked]
  · rw [hcount]
    exact hused
  · rw [hblocked]
    exact hs.short

lemma Pins.same (hs : Pins s) (hpool : s'.pool = s.pool)
    (hblocked : s'.blocked = s.blocked) : Pins s' := by
  cases s'
  cases s
  subst hpool hblocked
  exact hs

/-- A call that enters: either it is done at once and drops its pin, or it parks with it. -/
lemma Pins.enter (hs : Pins s) {c : Call} {parked : Bool}
    (hused : (s.pool c.id).used = true)
    (hpool : s'.pool = Function.update s.pool c.id q)
    (hblocked : s'.blocked = if parked then (t, c) :: s.blocked else s.blocked)
    (hq : q.inflight = (s.pool c.id).inflight + 1 - (if parked then 0 else 1))
    (hqused : q.used = (s.pool c.id).used)
    (hshort : ∀ i msg, c = .send i msg → msg.length ≤ MQ_MSG_MAX) : Pins s' := by
  cases parked with
  | false => exact hs.keep hpool hblocked hq fun _ => hqused.trans hused
  | true =>
    rw [if_pos rfl] at hblocked
    refine hs.update hpool ?_ ?_ ?_ ?_
    · rw [hblocked, List.countP_cons_of_pos (by simp), ← hs.count, hq]
      rfl
    · intro i hi
      rw [hblocked, List.countP_cons_of_neg (by simpa using Ne.symm hi)]
    · exact fun _ => hqused.trans hused
    · intro t' i msg hmem
      rw [hblocked] at hmem
      rcases List.mem_cons.mp hmem with heq | hmem
      · exact hshort i msg (Prod.mk.inj heq).2.symm
      · exact hs.short t' i msg hmem

/-- A woken call that runs again: either it is done and drops its pin, or it parks again. -/
lemma Pins.again (hs : Pins s) {c : Call} {parked : Bool}
    (hmem : (t, c) ∈ s.blocked)
    (hpool : s'.pool = Function.update s.pool c.id q)
    (hblocked : s'.blocked = if parked then s.blocked else s.blocked.erase (t, c))
    (hq : q.inflight = (s.pool c.id).inflight - (if parked then 0 else 1))
    (hqused : q.used = (s.pool c.id).used) : Pins s' := by
  have hused := (hs.blocked_used hmem).2
  cases parked with
  | true => exact hs.keep hpool hblocked hq fun _ => hqused.trans hused
  | false =>
    replace hblocked : s'.blocked = s.blocked.erase (t, c) := hblocked
    have hperm := List.perm_cons_erase hmem
    refine hs.update hpool ?_ ?_ ?_ ?_
    · have hc := hperm.countP_eq fun x => x.2.id = c.id
      rw [List.countP_cons_of_pos (by simp), ← hs.count] at hc
      rw [hblocked, hq]
      simp only [Bool.false_eq_true, if_false]
      omega
    · intro i hi
      have hc := hperm.countP_eq fun x => x.2.id = i
      rw [List.countP_cons_of_neg (by simpa using Ne.symm hi)] at hc
      rw [hblocked, hc]
    · exact fun _ => hqused.trans hused
    · intro t' i msg hm
      rw [hblocked] at hm
      exact hs.short t' i msg (List.mem_of_mem_erase hm)

lemma sendSection_pin
    (h : sendSection q t msg = (q', out)) :
    q'.inflight = q.inflight - (if decide (out = .parked) then 0 else 1) ∧ q'.used = q.used := by
  unfold sendSection at h
  split_ifs at h with hroom
  · obtain ⟨rfl, rfl⟩ := Prod.mk.inj h
    exact ⟨rfl, rfl⟩
  · obtain ⟨rfl, rfl⟩ := Prod.mk.inj h
    exact ⟨rfl, rfl⟩

lemma receiveSection_pin {out : ReceiveOutcome}
    (h : receiveSection q t buflen = (q', out)) :
    q'.inflight = q.inflight - (if decide (out = .parked) then 0 else 1) ∧ q'.used = q.used := by
  unfold receiveSection at h
  split_ifs at h with hne
  · obtain ⟨rfl, rfl⟩ := Prod.mk.inj h
    exact ⟨rfl, rfl⟩
  · obtain ⟨rfl, rfl⟩ := Prod.mk.inj h
    exact ⟨rfl, rfl⟩

/-- A call is counted in before it parks, and out when it leaves. -/
lemma pins_step (hs : Pins s) (h : Step s e s') : Pins s' := by
  cases e with
  | «open» name out =>
    rcases mqOpen_cases h.1 with ⟨hpool, _⟩ | ⟨id, n, _, hused, hpool⟩ | ⟨id, nm, _, hfree, hpool⟩
    · exact hs.same hpool h.2
    · exact hs.keep hpool h.2 rfl fun _ => hused
    · have hzero : (s.pool id).inflight = 0 := by
        by_contra hc
        exact absurd (hs.used id hc) (by rw [hfree]; simp)
      exact hs.keep hpool h.2 hzero.symm fun hc => absurd hzero hc
  | close id out =>
    rcases mqCloseId_cases h.1 with hpool | ⟨q, _, hq, hlife, hpool⟩
    · exact hs.same hpool h.2
    · refine hs.keep hpool h.2 hq fun hne => ?_
      rcases hlife with hu | hz
      · exact hu.trans (hs.used id hne)
      · exact absurd hz hne
  | send t id hasBuf msg out =>
    obtain ⟨-, hcall, hblocked⟩ := h
    rcases mqSendId_cases hcall with ⟨hpool, _, hpark⟩ | ⟨hlen, hused, q, hsec, hpool⟩
    · rw [if_neg hpark] at hblocked
      exact hs.same hpool hblocked
    · obtain ⟨hin, hu⟩ := sendSection_pin hsec
      refine hs.enter (t := t) (c := .send id msg) hused hpool ?_ hin hu ?_
      · simpa using hblocked
      · intro i m heq
        cases heq
        exact hlen
  | resend t id msg out =>
    obtain ⟨hmem, -, hcall, hblocked⟩ := h
    obtain ⟨hpool, hout⟩ := Prod.mk.inj hcall
    have hsec : sendSection (s.pool id) t msg = (_, out) := Prod.ext rfl hout.symm
    obtain ⟨hin, hu⟩ := sendSection_pin hsec
    refine hs.again hmem hpool ?_ hin hu
    simpa using hblocked
  | receive t id hasBuf buflen out =>
    obtain ⟨-, hcall, hblocked⟩ := h
    rcases mqReceiveId_cases hcall with ⟨hpool, _, hpark⟩ | ⟨hused, q, hsec, hpool⟩
    · rw [if_neg hpark] at hblocked
      exact hs.same hpool hblocked
    · obtain ⟨hin, hu⟩ := receiveSection_pin hsec
      refine hs.enter (t := t) (c := .receive id buflen) hused hpool ?_ hin hu ?_
      · simpa using hblocked
      · intro i m heq
        cases heq
  | rereceive t id buflen out =>
    obtain ⟨hmem, -, hcall, hblocked⟩ := h
    obtain ⟨hpool, hout⟩ := Prod.mk.inj hcall
    have hsec : receiveSection (s.pool id) t buflen = (_, out) := Prod.ext rfl hout.symm
    obtain ⟨hin, hu⟩ := receiveSection_pin hsec
    refine hs.again hmem hpool ?_ hin hu
    simpa using hblocked

/-! ## The history invariant -/

/-- A change of queue `i`, for an event that says nothing of the others. -/
lemma Moves.update {i : ℕ} (id : ℕ) (hself : Moves i e (s.pool i) q)
    (hc : i ≠ id → creates id e = false) (ha : i ≠ id → acceptedBy id e = [])
    (hr : i ≠ id → receivedBy id e = []) :
    Moves id e (s.pool id) (Function.update s.pool i q id) := by
  by_cases hi : i = id
  · subst hi
    rw [update_self]
    exact hself
  · rw [update_of_ne (Ne.symm hi)]
    exact Moves.idle (SameRing.refl _) (hc hi) (ha hi) (hr hi)

/-- Every step moves every queue by what its event says. -/
lemma moves_step (hs : Pins s) (h : Step s e s') (id : ℕ) :
    Moves id e (s.pool id) (s'.pool id) := by
  cases e with
  | «open» name out =>
    rcases mqOpen_cases h.1 with ⟨hpool, hout⟩ | ⟨i, n, hout, _, hpool⟩ | ⟨i, nm, hout, hfree, hpool⟩
    · rw [hpool]
      refine Moves.idle (SameRing.refl _) ?_ rfl rfl
      cases out <;> first | rfl | exact absurd rfl (hout _)
    · have hc : ∀ j, creates j (.open name out) = false := by
        intro j
        cases out <;> first | rfl | exact absurd rfl (hout _)
      rw [hpool]
      exact Moves.update id (Moves.idle ⟨rfl, rfl, rfl, rfl⟩ (hc i) rfl rfl) (fun _ => hc id)
        (fun _ => rfl) fun _ => rfl
    · rw [hout, hpool]
      refine Moves.update id ?_ (fun hi => by simp [creates, hi]) (fun _ => rfl) fun _ => rfl
      exact ⟨fun _ => ⟨ok_zero.head_lt, ok_zero.count_le⟩, fun _ => ⟨hfree, rfl⟩,
        fun _ hc => absurd hc (by simp [creates])⟩
  | close i out =>
    rcases mqCloseId_cases h.1 with hpool | ⟨q, hring, _, _, hpool⟩
    · rw [hpool]
      exact Moves.idle (SameRing.refl _) rfl rfl rfl
    · rw [hpool]
      exact Moves.update id (Moves.idle hring rfl rfl rfl) (fun _ => rfl) (fun _ => rfl) fun _ => rfl
  | send t i hasBuf msg out =>
    rcases mqSendId_cases h.2.1 with ⟨hpool, hacc, _⟩ | ⟨hlen, _, q, hsec, hpool⟩
    · rw [hpool]
      refine Moves.idle (SameRing.refl _) rfl ?_ rfl
      cases out <;> first | rfl | exact absurd rfl hacc
    · rw [hpool]
      refine Moves.update id ?_ (fun _ => rfl) (fun hi => ?_) fun _ => rfl
      · refine (moves_sendSection hlen hsec rfl ?_ rfl).of_pinned
        cases out <;> simp [acceptedBy]
      · cases out <;> simp [acceptedBy, hi]
  | resend t i msg out =>
    obtain ⟨hmem, -, hcall, -⟩ := h
    obtain ⟨hpool, hout⟩ := Prod.mk.inj hcall
    have hsec : sendSection (s.pool i) t msg = (_, out) := Prod.ext rfl hout.symm
    rw [hpool]
    refine Moves.update id ?_ (fun _ => rfl) (fun hi => ?_) fun _ => rfl
    · refine moves_sendSection (hs.short t i msg hmem) hsec rfl ?_ rfl
      cases out <;> simp [acceptedBy]
    · cases out <;> simp [acceptedBy, hi]
  | receive t i hasBuf buflen out =>
    rcases mqReceiveId_cases h.2.1 with ⟨hpool, hmsg, _⟩ | ⟨_, q, hsec, hpool⟩
    · rw [hpool]
      refine Moves.idle (SameRing.refl _) rfl rfl ?_
      cases out <;> first | rfl | exact absurd rfl (hmsg _ _)
    · rw [hpool]
      refine Moves.update id ?_ (fun _ => rfl) (fun _ => rfl) fun hi => ?_
      · refine (moves_receiveSection hsec rfl rfl ?_).of_pinned
        cases out <;> simp [receivedBy]
      · cases out <;> simp [receivedBy, hi]
  | rereceive t i buflen out =>
    obtain ⟨hmem, -, hcall, -⟩ := h
    obtain ⟨hpool, hout⟩ := Prod.mk.inj hcall
    have hsec : receiveSection (s.pool i) t buflen = (_, out) := Prod.ext rfl hout.symm
    rw [hpool]
    refine Moves.update id ?_ (fun _ => rfl) (fun _ => rfl) fun hi => ?_
    · refine moves_receiveSection hsec rfl rfl ?_
      cases out <;> simp [receivedBy]
    · cases out <;> simp [receivedBy, hi]

lemma sinceCreated_snoc {β : Type} (id : ℕ) (f : Event → List β) (hist : List Event) (e : Event) :
    sinceCreated id f (hist ++ [e])
      = if creates id e then [] else sinceCreated id f hist ++ f e := by
  rw [sinceCreated, List.foldl_append]
  rfl

/-- What ties the pool to the steps taken so far. -/
structure Inv (hist : List Event) (s : Sys) : Prop where
  pins : Pins s
  ok : ∀ id, Ok (s.pool id)
  stream : ∀ id, ∃ delivered, accepted id hist = delivered ++ queued (s.pool id) ∧
    List.Forall₂ Receipt.Returns (received id hist) delivered

lemma inv_init : Inv [] Sys.init where
  pins := ⟨fun _ => rfl, fun _ h => absurd rfl h, fun _ _ _ h => absurd h List.not_mem_nil⟩
  ok := fun _ => ok_zero
  stream := fun _ => ⟨[], rfl, .nil⟩

lemma inv_step (hist : List Event) (s : Sys) (e : Event) (s' : Sys) (hs : Inv hist s)
    (h : Step s e s') : Inv (hist ++ [e]) s' := by
  refine ⟨pins_step hs.pins h, fun id => (moves_step hs.pins h id).ok (hs.ok id), fun id => ?_⟩
  have hm := moves_step hs.pins h id
  rw [accepted, received, sinceCreated_snoc, sinceCreated_snoc]
  by_cases hc : creates id e = true
  · rw [if_pos hc, if_pos hc]
    exact ⟨[], (hm.created hc).2.symm, .nil⟩
  · rw [if_neg hc, if_neg hc]
    obtain ⟨delivered, hacc, hret⟩ := hs.stream id
    obtain ⟨taken, hq, hr⟩ := hm.stream (hs.ok id) (Bool.not_eq_true _ ▸ hc)
    refine ⟨delivered ++ taken, ?_, List.rel_append hret hr⟩
    calc accepted id hist ++ acceptedBy id e
        = delivered ++ (queued (s.pool id) ++ acceptedBy id e) := by rw [hacc, List.append_assoc]
      _ = delivered ++ taken ++ queued (s'.pool id) := by rw [hq, List.append_assoc]

/-- Where sections come one after another, the messages accepted by a queue since it was made are
those its receives returned, each one whole and once and in order, followed by those still
queued. -/
lemma delivery_of_run {hist : List Event} {s : Sys} (h : Run Step Sys.init hist s) :
    (∀ id, ∃ delivered, accepted id hist = delivered ++ queued (s.pool id) ∧
      List.Forall₂ Receipt.Returns (received id hist) delivered) ∧
    (∀ x ∈ s.blocked, (s.pool x.2.id).used = true) := by
  have hinv : Inv hist s := h.invariant_history inv_init inv_step
  exact ⟨hinv.stream, fun x hx => (hinv.pins.blocked_used hx).2⟩

/-! ## Sections that overlap -/

@[simp] lemma run_sendCode :
    (sendCode t msg).run q = ((sendSection q t msg).2, (sendSection q t msg).1) := by
  unfold sendCode sendSection
  rw [Code.run_read]
  split_ifs with hroom
  · rfl
  · rfl

@[simp] lemma run_receiveCode :
    (receiveCode t buflen).run q = ((receiveSection q t buflen).2, (receiveSection q t buflen).1) := by
  unfold receiveCode receiveSection
  rw [Code.run_read]
  split_ifs with hsome
  · rfl
  · rfl

/-- A resumed section works on one queue of the pool. -/
lemma run_resumed {σ β γ : Type} {g : σ → Pool} {w : σ → Pool → σ} (hget : ∀ s m, g (w s m) = m)
    (hset : ∀ s m m', w (w s m) m' = w s m') (hself : ∀ s, w s (g s) = s) (id : ℕ)
    (c : Code Mqueue β) (f : β → σ → σ) (e : β → γ) (s : Locked σ) :
    (resumed g w id c f e).run s
      = (e (c.run (g s.sys id)).1, ⟨false, f (c.run (g s.sys id)).1
          (w s.sys (update (g s.sys) id (c.run (g s.sys id)).2))⟩) := by
  rw [resumed, Code.run_bind, Code.run_zoom]
  · rfl
  · intro q s
    simp [hget]
  · intro q q' s
    simp [hget, hset]
  · intro s
    simp [hself]

/-- A section that no other one overlaps is one step. -/
lemma step_of_whole {s s' : Locked Sys} {x : Section × Event}
    (h : Calls.Whole sectionCode Begins s x s') : Step s.sys x.2 s'.sys := by
  obtain ⟨a, e⟩ := x
  obtain ⟨⟨-, hpre⟩, hrun⟩ := h
  have hidle : ∀ {t : Task}, (∀ y ∈ s.sys.blocked, y.1 ≠ t) → ∀ c, (t, c) ∉ s.sys.blocked :=
    fun hnone c hc => hnone _ hc rfl
  cases a with
  | «open» name =>
    obtain ⟨rfl, rfl⟩ := Prod.mk.inj hrun
    exact ⟨rfl, rfl⟩
  | close id =>
    obtain ⟨rfl, rfl⟩ := Prod.mk.inj hrun
    exact ⟨rfl, rfl⟩
  | send t id hasBuf msg =>
    obtain ⟨rfl, rfl⟩ := Prod.mk.inj hrun
    exact ⟨hidle hpre.2, rfl, rfl⟩
  | receive t id hasBuf buflen =>
    obtain ⟨rfl, rfl⟩ := Prod.mk.inj hrun
    exact ⟨hidle hpre.2, rfl, rfl⟩
  | resend t id msg =>
    rw [sectionCode, run_resumed (w := Sys.setPool) (fun _ _ => rfl) (fun _ _ _ => rfl) fun _ => rfl, run_sendCode] at hrun
    obtain ⟨rfl, rfl⟩ := Prod.mk.inj hrun
    exact ⟨hpre.1, hpre.2, rfl, rfl⟩
  | rereceive t id buflen =>
    rw [sectionCode, run_resumed (w := Sys.setPool) (fun _ _ => rfl) (fun _ _ _ => rfl) fun _ => rfl, run_receiveCode] at hrun
    obtain ⟨rfl, rfl⟩ := Prod.mk.inj hrun
    exact ⟨hpre.1, hpre.2, rfl, rfl⟩

/-- The free lock, the empty pool and no section under way. -/
def atBoot : Calls (Locked Sys) Section Event := ⟨⟨false, Sys.init⟩, []⟩

/-- The events of a run, by when they ended. -/
def events (labels : List (Calls.Label Section Event)) : List Event :=
  (Calls.answers labels).map Prod.snd

/-- **Message delivery.** In every run in which a section begins only while no other one is
under way, the messages accepted by a queue since it was made are those its receives returned,
each one whole and once and in order, followed by those still queued. A call that is blocked
keeps its queue alive. -/
theorem mqueue_delivery {labels : List (Calls.Label Section Event)}
    {p : Calls (Locked Sys) Section Event}
    (h : Run (Guarded (Calls.Serial fun _ _ => True) (Calls.Step sectionCode Begins)) atBoot
      labels p) :
    (∀ id, ∃ delivered rest, accepted id (events labels) = delivered ++ rest ∧
      List.Forall₂ Receipt.Returns (received id (events labels)) delivered ∧
      (p.running = [] → rest = queued (p.shared.sys.pool id))) ∧
    (p.running = [] → ∀ x ∈ p.shared.sys.blocked, (p.shared.sys.pool x.2.id).used = true) := by
  obtain ⟨s, hwhole, hrest⟩ := Calls.whole_of_serial h
  have hrun : Run Step Sys.init (events labels) s.sys :=
    hwhole.map (f := Locked.sys) fun t x u hstep => step_of_whole hstep.2
  obtain ⟨hstream, hused⟩ := delivery_of_run hrun
  refine ⟨fun id => ?_, fun hnone => by rw [hrest.idle hnone]; exact hused⟩
  obtain ⟨delivered, hacc, hret⟩ := hstream id
  exact ⟨delivered, _, hacc, hret, fun hnone => by rw [hrest.idle hnone]⟩

/-- A section from its begin to its answer, with `n` accesses after the first. -/
def alone (a : Section) (n : ℕ) (e : Event) : List (Calls.Label Section Event) :=
  .begin a :: (List.replicate n (.access 0) ++ [.answer 0 a e])

/-- A receive parks; a send wakes it, and it returns one of the two bytes. -/
def wokenReceiver : List (Calls.Label Section Event) :=
  alone (.open [113]) 2 (.open [113] (.created 0)) ++
  alone (.receive 1 0 true 1) 2 (.receive 1 0 true 1 .parked) ++
  alone (.send 2 0 true [7, 8]) 2 (.send 2 0 true [7, 8] .accepted) ++
  alone (.rereceive 1 0 1) 11 (.rereceive 1 0 1 (.message 2 [7]))

/-- The theorem on this run. -/
theorem mqueue_delivery_one_message :
    accepted 0 (events wokenReceiver) = [[7, 8]] ∧
    ∃ delivered rest, accepted 0 (events wokenReceiver) = delivered ++ rest ∧
      List.Forall₂ Receipt.Returns (received 0 (events wokenReceiver)) delivered ∧
      (([] : List (Section × Code (Locked Sys) Event)) = [] → rest = []) := by
  have henables : Enables
      (fun p l => Calls.Serial (fun _ _ => True) p l ∧ Calls.Enabled Begins p l)
      (Calls.act sectionCode) atBoot wokenReceiver := by decide
  have hrun : Run (Guarded (Calls.Serial fun _ _ => True) (Calls.Step sectionCode Begins)) atBoot
      wokenReceiver (wokenReceiver.foldl (Calls.act sectionCode) atBoot) :=
    Run.of_enables (fun _ _ h => ⟨h.1, h.2, rfl⟩) henables
  exact ⟨rfl, (mqueue_delivery hrun).1 0⟩

/-- Two receives are parked, and one send wakes both; they run in step. -/
def twoReceivers : List (Calls.Label Section Event) :=
  alone (.open [113]) 2 (.open [113] (.created 0)) ++
  alone (.receive 1 0 true 8) 2 (.receive 1 0 true 8 .parked) ++
  alone (.receive 2 0 true 8) 2 (.receive 2 0 true 8 .parked) ++
  alone (.send 3 0 true [7]) 2 (.send 3 0 true [7] .accepted) ++
  [.begin (.rereceive 1 0 8), .begin (.rereceive 2 0 8)] ++
  (List.replicate 11 [.access 1, .access 0]).flatten ++
  [.answer 1 (.rereceive 1 0 8) (.rereceive 1 0 8 (.message 1 [7])),
    .answer 0 (.rereceive 2 0 8) (.rereceive 2 0 8 (.message 1 [7]))]

/-- Both return the one message that was sent. -/
theorem received_twice :
    ∃ p, Run (Calls.Step sectionCode Begins) atBoot twoReceivers p ∧
      ¬ ∃ delivered rest, accepted 0 (events twoReceivers) = delivered ++ rest ∧
        List.Forall₂ Receipt.Returns (received 0 (events twoReceivers)) delivered := by
  have henables : Enables (Calls.Enabled Begins) (Calls.act sectionCode) atBoot twoReceivers := by
    decide
  refine ⟨_, Run.of_enables (fun _ _ h => ⟨h, rfl⟩) henables, ?_⟩
  rintro ⟨delivered, rest, hacc, hret⟩
  have hone : accepted 0 (events twoReceivers) = [[7]] := rfl
  have htwo : (received 0 (events twoReceivers)).length = 2 := rfl
  have hlen := congrArg List.length (hone.symm.trans hacc)
  rw [List.length_append, ← hret.length_eq, htwo] at hlen
  have hle : 2 ≤ [[(7 : UInt8)]].length := hlen ▸ Nat.le_add_right 2 _
  exact absurd hle (by decide)

end Mq
end Ipc
end MobilePhoneOs
