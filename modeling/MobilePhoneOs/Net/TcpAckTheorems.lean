import MobilePhoneOs.Net.TcpTheorems

/-!
# Acknowledgements and the send window

A connection obeys the rules of the sequence space on a segment exactly when the segment's
acknowledgement lies in the send window or the code does not act on it. The code checks the
lower end of the window at most, and in the handshake not even that.
-/

namespace MobilePhoneOs.Net.Tcp

variable {p p' : Pcb} {m : Seg}

/-- The acknowledgement lies in `(snd_una, snd_nxt]`, modulo `2 ^ 32`. -/
def Pcb.acceptable (p : Pcb) (ack : UInt32) : Bool :=
  decide (0 < ack - p.sndUna) && decide (ack - p.sndUna ≤ p.sndNxt - p.sndUna)

/-- The account of what is sent and not acknowledged. -/
structure SameSend (p p' : Pcb) : Prop where
  sndUna : p'.sndUna = p.sndUna
  sndNxt : p'.sndNxt = p.sndNxt
  inflight : p'.sndInflight = p.sndInflight
  retries : p'.retries = p.retries
  finAcked : p'.finAcked = p.finAcked

/-- The rules for one segment: `snd_una` stays within `snd_nxt`, an acknowledgement outside the
window settles nothing and opens nothing, a connection opens only on the acknowledgement of its
SYN, and the ring has room for what it holds. -/
structure AckLaw (p : Pcb) (m : Seg) : Prop where
  una : seqLeq (tcpInput p m).1.sndUna (tcpInput p m).1.sndNxt = true
  acted : m.flags.rst = false → p.acceptable m.ack = false →
    SameSend p (tcpInput p m).1 ∧ (p.state = .synRcvd → (tcpInput p m).1.state ≠ .established)
  opened : p.state = .synSent → (tcpInput p m).1.state = .established →
    m.flags.ack = true ∧ p.acceptable m.ack = true
  ring : (tcpInput p m).1.rcvCount ≤ TCP_RING_SZ

/-- The branches of `tcp_input` that act on the acknowledgement field: the two of the handshake, the
generic one unless it finds nothing new and nothing that an old value would settle, and the last
one, which looks at no flag. -/
def ActsOnAck (p : Pcb) (m : Seg) : Prop :=
  (p.state = .synSent ∧ m.flags.syn ∧ m.flags.ack) ∨
  (p.state = .synRcvd ∧ m.flags.ack ∧ m.flags.syn = false) ∨
  (p.sndInflight ∧
    ((m.flags.ack ∧ seqLeq p.sndUna m.ack ∧
        (m.ack ≠ p.sndUna ∨ (p.sndLen = 0 ∧ p.finSent = false) ∨ (p.finSent ∧ m.ack = p.sndNxt))) ∨
      (m.payload = [] ∧ m.flags.fin = false ∧ m.flags.syn = false ∧ m.ack = p.sndNxt)))

/-- Nothing is acted on: the connection listens, is closed or reset, or the acknowledgement is in the window,
or no branch looks at it. -/
def AckOk (p : Pcb) (m : Seg) : Prop :=
  (p.state = .listen ∨ p.state = .closed) ∨ m.flags.rst = true ∨ p.acceptable m.ack = true ∨ ¬ ActsOnAck p m

/-! ## Distances -/

/-- `SEQ_LEQ` holds within half a turn. -/
lemma seqLeq_iff {a b : UInt32} : seqLeq a b = true ↔ (b - a).toNat ≤ 2 ^ 31 := by
  have hab : (a - b).toNat = (2 ^ 32 - b.toNat + a.toNat) % 2 ^ 32 := UInt32.toNat_sub a b
  have hba : (b - a).toNat = (2 ^ 32 - a.toNat + b.toNat) % 2 ^ 32 := UInt32.toNat_sub b a
  have ha := a.toNat_lt
  have hb := b.toNat_lt
  have hint : (a - b).toInt32.toInt = if 2 * (a - b).toNat < 2 ^ 32 then ((a - b).toNat : ℤ)
      else (a - b).toNat - 2 ^ 32 := BitVec.toInt_eq_toNat_cond _
  rw [seqLeq, decide_eq_true_iff, Int32.le_iff_toInt_le]
  show (a - b).toInt32.toInt ≤ 0 ↔ _
  rw [hint]
  split <;> omega

lemma acceptable_iff {ack : UInt32} : p.acceptable ack = true ↔
    0 < (ack - p.sndUna).toNat ∧ (ack - p.sndUna).toNat ≤ (p.sndNxt - p.sndUna).toNat := by
  rw [Pcb.acceptable, Bool.and_eq_true, decide_eq_true_iff, decide_eq_true_iff, UInt32.lt_iff_toNat_lt,
    UInt32.le_iff_toNat_le]
  rfl

/-- What lies in a window of at most half a turn is within half a turn of both of its ends. -/
lemma seqLeq_of_acceptable {ack : UInt32} (hwin : seqLeq p.sndUna p.sndNxt = true)
    (h : p.acceptable ack = true) : seqLeq p.sndUna ack = true ∧ seqLeq ack p.sndNxt = true := by
  rw [seqLeq_iff] at hwin
  rw [acceptable_iff] at h
  rw [seqLeq_iff, seqLeq_iff]
  have h1 : (ack - p.sndUna).toNat = (2 ^ 32 - p.sndUna.toNat + ack.toNat) % 2 ^ 32 :=
    UInt32.toNat_sub _ _
  have h2 : (p.sndNxt - p.sndUna).toNat = (2 ^ 32 - p.sndUna.toNat + p.sndNxt.toNat) % 2 ^ 32 :=
    UInt32.toNat_sub _ _
  have h3 : (p.sndNxt - ack).toNat = (2 ^ 32 - ack.toNat + p.sndNxt.toNat) % 2 ^ 32 :=
    UInt32.toNat_sub _ _
  have ha := ack.toNat_lt
  constructor <;> omega

/-! ## The generic branch -/

lemma SameSend.refl (p : Pcb) : SameSend p p := ⟨rfl, rfl, rfl, rfl, rfl⟩

lemma SameSend.trans {q : Pcb} (h : SameSend p p') (h' : SameSend p' q) : SameSend p q :=
  ⟨h'.sndUna.trans h.sndUna, h'.sndNxt.trans h.sndNxt, h'.inflight.trans h.inflight,
    h'.retries.trans h.retries, h'.finAcked.trans h.finAcked⟩

/-- Payload goes to the ring, which does not overflow. -/
lemma tcpTake_same (payload : List UInt8) (hring : p.rcvCount ≤ TCP_RING_SZ) :
    SameSend p (tcpTake p payload) ∧ (tcpTake p payload).state = p.state ∧
      (tcpTake p payload).rcvCount ≤ TCP_RING_SZ := by
  obtain ⟨ring, n, -, hroom, -, htake⟩ := tcpTake_spec payload hring
  rw [htake]
  exact ⟨⟨rfl, rfl, rfl, rfl, rfl⟩, rfl, hroom⟩

/-- A FIN and the endings move the state, but not to an open connection. -/
lemma tcpFin_same (p : Pcb) (m : Seg) : SameSend p (tcpFin p m) ∧
    (tcpFin p m).rcvCount = p.rcvCount ∧
    ((tcpFin p m).state = .established → p.state = .established) := by
  rw [tcpFin]
  split
  · refine ⟨⟨rfl, rfl, rfl, rfl, rfl⟩, rfl, fun hstate => ?_⟩
    cases hp : p.state <;> simp_all
  · exact ⟨.refl p, rfl, fun hstate => hstate⟩

lemma tcpEndings_same (p : Pcb) : SameSend p (tcpEndings p).1 ∧
    (tcpEndings p).1.rcvCount = p.rcvCount ∧
    ((tcpEndings p).1.state = .established → p.state = .established) := by
  rw [tcpEndings]
  split_ifs <;> exact ⟨⟨rfl, rfl, rfl, rfl, rfl⟩, rfl, fun hstate => by first | exact hstate | cases hstate⟩

/-- The last branch clears the outstanding segment of a connection. -/
def Clears (p : Pcb) (m : Seg) : Prop :=
  m.payload = [] ∧ m.flags.fin = false ∧ m.flags.syn = false ∧ p.sndInflight = true ∧ m.ack = p.sndNxt

/-- What follows the generic ACK processing: all of the account is kept but the last branch. -/
structure Rest (q p' : Pcb) (m : Seg) : Prop where
  kept : ¬ Clears q m → SameSend q p'
  cleared : Clears q m → SameSend { q with sndInflight := false } p'
  state : p'.state = .established → q.state = .established
  ring : p'.rcvCount ≤ TCP_RING_SZ

/-- Behind `tcpAck` only the last branch changes the send side. -/
lemma tcpInput_rest (hring : p.rcvCount ≤ TCP_RING_SZ) (hclosed : ¬ (p.state = .listen ∨ p.state = .closed))
    (hrst : m.flags.rst = false) (hsent : ¬ (p.state = .synSent ∧ m.flags.syn ∧ m.flags.ack))
    (hrcvd : ¬ (p.state = .synRcvd ∧ m.flags.ack ∧ m.flags.syn = false)) :
    Rest (tcpAck p m) (tcpInput p m).1 m := by
  have hring' : (tcpAck p m).rcvCount ≤ TCP_RING_SZ := by
    rw [(tcpAck_spec p m).rcvCount]
    exact hring
  rw [tcpInput, if_neg hclosed, if_neg (by rw [hrst]; decide), if_neg hsent, if_neg hrcvd]
  generalize tcpAck p m = q at hring' ⊢
  by_cases hdrop : m.payload ≠ [] ∧ ¬ (m.seq = q.rcvNxt ∧ receives q.state)
  · rw [if_pos hdrop]
    exact ⟨fun _ => .refl q, fun hc => absurd hc.1 hdrop.1, fun hstate => hstate, hring'⟩
  rw [if_neg hdrop]
  generalize htaken : (if m.payload = [] then q else tcpTake q m.payload) = taken
  have htake : SameSend q taken ∧ taken.state = q.state ∧ taken.rcvCount ≤ TCP_RING_SZ := by
    rw [← htaken]
    split
    · exact ⟨.refl q, rfl, hring'⟩
    · exact tcpTake_same m.payload hring'
  obtain ⟨hfin, hfinRing, hfinState⟩ := tcpFin_same taken m
  obtain ⟨hend, hendRing, hendState⟩ := tcpEndings_same (tcpFin taken m)
  have hsame : SameSend q (tcpEndings (tcpFin taken m)).1 := (htake.1.trans hfin).trans hend
  have hstate : (tcpEndings (tcpFin taken m)).1.state = .established → q.state = .established :=
    fun h => htake.2.1 ▸ hfinState (hendState h)
  have hcount : (tcpEndings (tcpFin taken m)).1.rcvCount ≤ TCP_RING_SZ := by
    rw [hendRing, hfinRing]
    exact htake.2.2
  dsimp only
  generalize tcpEndings (tcpFin taken m) = e at hsame hstate hcount ⊢
  by_cases hreply : m.payload ≠ [] ∨ m.flags.fin ∨ m.flags.syn
  · rw [if_pos hreply]
    refine ⟨fun _ => hsame, fun hc => ?_, hstate, hcount⟩
    obtain ⟨hpay, hf, hs, -⟩ := hc
    simp [hpay, hf, hs] at hreply
  · rw [if_neg hreply]
    simp only [not_or, not_not, Bool.not_eq_true] at hreply
    by_cases hlast : e.1.sndInflight ∧ m.ack = e.1.sndNxt
    · rw [if_pos hlast]
      rw [hsame.inflight, hsame.sndNxt] at hlast
      refine ⟨fun hc => absurd ⟨hreply.1, hreply.2.1, hreply.2.2, hlast⟩ hc, fun _ => ?_, hstate, hcount⟩
      exact ⟨hsame.sndUna, hsame.sndNxt, rfl, hsame.retries, hsame.finAcked⟩
    · rw [if_neg hlast]
      refine ⟨fun _ => hsame, fun hc => ?_, hstate, hcount⟩
      rw [hsame.inflight, hsame.sndNxt] at hlast
      exact absurd hc.2.2.2 hlast

/-! ## What the rules come down to -/

/-- The generic branch keeps the account on an acknowledgement outside the window only if that is
the old one and settles nothing. -/
lemma tcpAck_same_iff (p : Pcb) (m : Seg) : SameSend p (tcpAck p m) ↔
    ¬ (p.sndInflight ∧ m.flags.ack ∧ seqLeq p.sndUna m.ack ∧
      (m.ack ≠ p.sndUna ∨ (p.sndLen = 0 ∧ p.finSent = false) ∨ (p.finSent ∧ m.ack = p.sndNxt))) := by
  rw [tcpAck]
  split
  case isFalse hno =>
    exact iff_of_true (.refl p) fun h => hno ⟨h.2.1, h.1, h.2.2.1⟩
  case isTrue hyes =>
    obtain ⟨hack, hin, hleq⟩ := hyes
    simp only [hack, hin, hleq, true_and]
    by_cases hold : m.ack = p.sndUna
    · have hzero : (m.ack - p.sndUna).toNat = 0 := by
        rw [hold, UInt32.sub_self]
        rfl
      rw [ackSegment]
      simp only [hzero]
      split_ifs with hsyn hfin
      · refine iff_of_false (fun h => ?_) (not_not.mpr (.inr (.inl ⟨by omega, hsyn.2⟩)))
        exact Bool.false_ne_true (h.inflight.trans hin)
      · refine iff_of_false (fun h => ?_) (not_not.mpr (.inr (.inr hfin)))
        exact Bool.false_ne_true (h.inflight.trans hin)
      · refine iff_of_true ⟨hold, rfl, rfl, rfl, rfl⟩ ?_
        rintro (hne | hzero' | hfin')
        · exact hne hold
        · exact hsyn ⟨hzero'.1.le, hzero'.2⟩
        · exact hfin hfin'
    · exact iff_of_false (fun h => hold h.sndUna) (not_not.mpr (.inl hold))

section

variable (hwin : seqLeq p.sndUna p.sndNxt = true)
include hwin

lemma tcpAck_una (h : p.acceptable m.ack = true) :
    seqLeq (tcpAck p m).sndUna (tcpAck p m).sndNxt = true := by
  rw [(tcpAck_spec p m).sndNxt, tcpAck]
  split
  · exact (seqLeq_of_acceptable hwin h).2
  · exact hwin

/-- The two branches of the handshake open the connection on any acknowledgement. -/
lemma ackLaw_synSent (hring : p.rcvCount ≤ TCP_RING_SZ)
    (hrst : m.flags.rst = false) (h : p.state = .synSent ∧ m.flags.syn ∧ m.flags.ack) :
    AckLaw p m ↔ p.acceptable m.ack = true := by
  have hclosed : ¬ (p.state = .listen ∨ p.state = .closed) := by
    rw [h.1]
    decide
  have hin : (tcpInput p m).1 = { p with
      rcvNxt := m.seq + 1, sndUna := m.ack, sndInflight := false, state := .established } := by
    rw [tcpInput, if_neg hclosed, if_neg (by rw [hrst]; decide), if_pos h]
  constructor
  · intro hlaw
    exact (hlaw.opened h.1 (by rw [hin])).2
  · intro hacc
    refine ⟨?_, fun _ hno => ?_, fun _ _ => ⟨h.2.2, hacc⟩, ?_⟩
    · rw [hin]
      exact (seqLeq_of_acceptable hwin hacc).2
    · rw [hacc] at hno
      cases hno
    · rw [hin]
      exact hring

lemma ackLaw_synRcvd (hring : p.rcvCount ≤ TCP_RING_SZ)
    (hrst : m.flags.rst = false) (h : p.state = .synRcvd ∧ m.flags.ack ∧ m.flags.syn = false) :
    AckLaw p m ↔ p.acceptable m.ack = true := by
  have hclosed : ¬ (p.state = .listen ∨ p.state = .closed) := by
    rw [h.1]
    decide
  have hin : (tcpInput p m).1 = { (if seqLeq p.sndUna m.ack
      then { p with sndUna := m.ack, sndInflight := false } else p) with state := .established } := by
    rw [tcpInput, if_neg hclosed, if_neg (by rw [hrst]; decide), if_neg (by rw [h.1]; simp), if_pos h]
  constructor
  · intro hlaw
    by_contra hno
    exact (hlaw.acted hrst (by simpa using hno)).2 h.1 (by rw [hin])
  · intro hacc
    obtain ⟨hleq, hleq'⟩ := seqLeq_of_acceptable hwin hacc
    rw [if_pos hleq] at hin
    refine ⟨?_, fun _ hno => ?_, fun hsent => ?_, ?_⟩
    · rw [hin]
      exact hleq'
    · rw [hacc] at hno
      cases hno
    · rw [h.1] at hsent
      cases hsent
    · rw [hin]
      exact hring

/-- Past the handshake the rules hold exactly when the account is kept on an acknowledgement outside
the window. -/
lemma ackLaw_rest (hring : p.rcvCount ≤ TCP_RING_SZ)
    (hclosed : ¬ (p.state = .listen ∨ p.state = .closed)) (hrst : m.flags.rst = false)
    (hsent : ¬ (p.state = .synSent ∧ m.flags.syn ∧ m.flags.ack))
    (hrcvd : ¬ (p.state = .synRcvd ∧ m.flags.ack ∧ m.flags.syn = false)) :
    AckLaw p m ↔ (p.acceptable m.ack = false → SameSend p (tcpInput p m).1) := by
  have hrest := tcpInput_rest hring hclosed hrst hsent hrcvd
  have hopen : p.state ≠ .established → (tcpInput p m).1.state ≠ .established := fun hp h =>
    hp ((tcpAck_spec p m).state ▸ hrest.state h)
  constructor
  · exact fun hlaw hno => (hlaw.acted hrst hno).1
  · intro hsame
    refine ⟨?_, fun _ hno => ⟨hsame hno, fun hp => hopen (by rw [hp]; decide)⟩, fun hp h => ?_, hrest.ring⟩
    · cases hacc : p.acceptable m.ack with
      | false =>
        rw [(hsame hacc).sndUna, (hsame hacc).sndNxt]
        exact hwin
      | true =>
        by_cases hc : Clears (tcpAck p m) m
        · rw [(hrest.cleared hc).sndUna, (hrest.cleared hc).sndNxt]
          exact tcpAck_una hwin hacc
        · rw [(hrest.kept hc).sndUna, (hrest.kept hc).sndNxt]
          exact tcpAck_una hwin hacc
    · exact absurd h (hopen (by rw [hp]; decide))

end

/-- The account is kept when neither the generic branch nor the last one acts. -/
lemma rest_same_iff (hrest : Rest (tcpAck p m) (tcpInput p m).1 m) :
    SameSend p (tcpInput p m).1 ↔ SameSend p (tcpAck p m) ∧ ¬ Clears p m := by
  have hspec := tcpAck_spec p m
  constructor
  · intro h
    have hkept : ¬ Clears (tcpAck p m) m := fun hc => by
      have hin := hspec.inflight hc.2.2.2.1
      rw [← h.inflight, (hrest.cleared hc).inflight] at hin
      cases hin
    have hback := hrest.kept hkept
    have hsame : SameSend p (tcpAck p m) := ⟨hback.sndUna.symm.trans h.sndUna,
      hback.sndNxt.symm.trans h.sndNxt, hback.inflight.symm.trans h.inflight,
      hback.retries.symm.trans h.retries, hback.finAcked.symm.trans h.finAcked⟩
    refine ⟨hsame, fun hc => hkept ⟨hc.1, hc.2.1, hc.2.2.1, ?_, ?_⟩⟩
    · rw [hsame.inflight]
      exact hc.2.2.2.1
    · rw [hsame.sndNxt]
      exact hc.2.2.2.2
  · rintro ⟨hsame, hc⟩
    refine hsame.trans (hrest.kept fun hc' => hc ⟨hc'.1, hc'.2.1, hc'.2.2.1, ?_, ?_⟩)
    · rw [← hsame.inflight]
      exact hc'.2.2.2.1
    · rw [← hsame.sndNxt]
      exact hc'.2.2.2.2

/-- A connection whose window is at most half a turn and whose ring is not overfull obeys the rules
on a segment exactly when the acknowledgement is in the window or is not acted on. -/
theorem ackLaw_iff (hwin : seqLeq p.sndUna p.sndNxt = true) (hring : p.rcvCount ≤ TCP_RING_SZ) :
    AckLaw p m ↔ AckOk p m := by
  by_cases hclosed : p.state = .listen ∨ p.state = .closed
  · have hin : (tcpInput p m).1 = p := by rw [tcpInput, if_pos hclosed]
    refine iff_of_true ⟨?_, fun _ _ => ?_, fun hs => ?_, ?_⟩ (.inl hclosed)
    · rw [hin]
      exact hwin
    · rw [hin]
      exact ⟨.refl p, fun hs => by rw [hs]; decide⟩
    · simp [hs] at hclosed
    · rw [hin]
      exact hring
  by_cases hrst : m.flags.rst = true
  · have hin : (tcpInput p m).1 = { p with rstReceived := true, sndInflight := false } := by
      rw [tcpInput, if_neg hclosed, if_pos hrst]
    refine iff_of_true ⟨?_, fun hno => ?_, fun hs h => ?_, ?_⟩ (.inr (.inl hrst))
    · rw [hin]
      exact hwin
    · rw [hrst] at hno
      cases hno
    · rw [hin] at h
      rw [show p.state = .established from h] at hs
      cases hs
    · rw [hin]
      exact hring
  have hrst' : m.flags.rst = false := by simpa using hrst
  have hok : AckOk p m ↔ p.acceptable m.ack = true ∨ ¬ ActsOnAck p m := by
    rw [AckOk]
    simp [hclosed, hrst']
  rw [hok]
  by_cases hsent : p.state = .synSent ∧ m.flags.syn ∧ m.flags.ack
  · rw [ackLaw_synSent hwin hring hrst' hsent]
    exact ⟨.inl, fun h => h.resolve_right (not_not.mpr (.inl hsent))⟩
  by_cases hrcvd : p.state = .synRcvd ∧ m.flags.ack ∧ m.flags.syn = false
  · rw [ackLaw_synRcvd hwin hring hrst' hrcvd]
    exact ⟨.inl, fun h => h.resolve_right (not_not.mpr (.inr (.inl hrcvd)))⟩
  rw [ackLaw_rest hwin hring hclosed hrst' hsent hrcvd,
    rest_same_iff (tcpInput_rest hring hclosed hrst' hsent hrcvd), tcpAck_same_iff]
  have hacts : ActsOnAck p m ↔ p.sndInflight ∧ ((m.flags.ack ∧ seqLeq p.sndUna m.ack ∧
      (m.ack ≠ p.sndUna ∨ (p.sndLen = 0 ∧ p.finSent = false) ∨ (p.finSent ∧ m.ack = p.sndNxt))) ∨
      (m.payload = [] ∧ m.flags.fin = false ∧ m.flags.syn = false ∧ m.ack = p.sndNxt)) := by
    rw [ActsOnAck, or_iff_right hsent, or_iff_right hrcvd]
  have hclears : Clears p m ↔ p.sndInflight ∧
      (m.payload = [] ∧ m.flags.fin = false ∧ m.flags.syn = false ∧ m.ack = p.sndNxt) :=
    ⟨fun h => ⟨h.2.2.2.1, h.1, h.2.1, h.2.2.1, h.2.2.2.2⟩,
      fun h => ⟨h.2.1, h.2.2.1, h.2.2.2.1, h.1, h.2.2.2.2⟩⟩
  rw [hclears, ← not_or, ← and_or_left, ← hacts]
  cases p.acceptable m.ack with
  | false => exact ⟨fun h => .inr (h rfl), fun h _ => h.resolve_left Bool.false_ne_true⟩
  | true => exact iff_of_true (fun h => Bool.noConfusion h) (.inl rfl)

/-- A connection that has sent the SYN of sequence number 1. -/
def connecting : Pcb := { freshPcb with state := .synSent, sndUna := 1, sndNxt := 2, sndInflight := true }

/-- A SYN that acknowledges `ack`. -/
def synAck (ack : UInt32) : Seg := ⟨100, ack, { ackOnly with syn := true }, []⟩

theorem ackLaw_connecting : AckLaw connecting (synAck 2) :=
  (ackLaw_iff (by decide) (by decide)).mpr (.inr (.inr (.inl (by decide))))

/-- A SYN that acknowledges nothing the connection has sent opens it. -/
theorem forged_synAck_opens : ¬ ∀ p m, seqLeq p.sndUna p.sndNxt = true → p.rcvCount ≤ TCP_RING_SZ →
    AckLaw p m := by
  intro hall
  have hlaw := hall connecting (synAck 77) (by decide) (by decide)
  exact absurd (hlaw.opened rfl (by decide)).2 (by decide)

end MobilePhoneOs.Net.Tcp
