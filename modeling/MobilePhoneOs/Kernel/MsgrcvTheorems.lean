import MobilePhoneOs.Kernel.Msgrcv
import MobilePhoneOs.Kernel.UaccessTheorems

/-!
# What `sys_msgrcv` lets out of the kernel

The call copies the full length of its message out of a buffer of which it has filled `buflen`
bytes at most. So it is confined to the message, and to the room that the user has, exactly when
the message fits or the copy is refused.
-/

namespace MobilePhoneOs

namespace Uaccess

open Mm

/-! ## The bytes of a copy-out -/

/-- The writes of a round, and those of the rest. -/
lemma touched_round (dst c : ℕ) (log : List (ℕ × ℕ)) :
    touched ((dst, c) :: log) = ((List.range c).map fun i => dst + i) ++ touched log :=
  List.flatMap_cons

variable {a : ℕ}

lemma mem_round {dst c : ℕ} :
    a ∈ (List.range c).map (fun i => dst + i) ↔ dst ≤ a ∧ a < dst + c := by
  rw [List.mem_map]
  constructor
  · intro ⟨i, hi, heq⟩
    have hlt := List.mem_range.mp hi
    omega
  · intro ⟨hlo, hhi⟩
    exact ⟨a - dst, List.mem_range.mpr (by omega), by omega⟩

/-- Memory after one round. -/
def round (root junk : ℕ) (ksrc : ℕ → ℕ) (mem : Mem) (pos va len : ℕ) : Mem :=
  Mem.copy mem (userSide mem root junk va) (chunk va len) fun i => ksrc (pos + i)

variable {len : ℕ}

section

variable (root junk : ℕ) (ksrc : ℕ → ℕ) (n : ℕ) (mem : Mem) (pos va : ℕ)
include root junk ksrc n mem pos va

lemma copyOutLoop_succ (hlen : len ≠ 0) :
    copyOutLoop root junk ksrc (n + 1) mem pos va len
      = ((copyOutLoop root junk ksrc n (round root junk ksrc mem pos va len) (pos + chunk va len)
            (add64 va (chunk va len)) (len - chunk va len)).1,
          (userSide mem root junk va, chunk va len)
            :: (copyOutLoop root junk ksrc n (round root junk ksrc mem pos va len)
              (pos + chunk va len) (add64 va (chunk va len)) (len - chunk va len)).2) := by
  rw [copyOutLoop, if_neg hlen]
  rfl

@[simp] lemma copyOutLoop_zero_len : copyOutLoop root junk ksrc n mem pos va 0 = (mem, []) := by
  cases n <;> rfl

/-- The copy makes `len` writes, whatever the tables say. -/
lemma touched_copyOutLoop_length (hn : len ≤ n) :
    (touched (copyOutLoop root junk ksrc n mem pos va len).2).length = len := by
  induction n generalizing mem pos va len with
  | zero =>
    have hlen : len = 0 := by omega
    rw [hlen]
    rfl
  | succ n ih =>
    by_cases hlen : len = 0
    · rw [hlen, copyOutLoop_zero_len]
      rfl
    have hpos := chunk_pos va hlen
    have hle := chunk_le va len
    have hrest := ih (round root junk ksrc mem pos va len) (pos + chunk va len)
      (add64 va (chunk va len)) (show len - chunk va len ≤ n by omega)
    rw [copyOutLoop_succ _ _ _ _ _ _ _ hlen, touched_round, List.length_append, List.length_map,
      List.length_range, hrest]
    omega

end

variable {junk pos root va : ℕ} {ksrc : ℕ → ℕ} {mem : Mem}

/-- What the copy does depends on the `len` bytes it is to copy. -/
lemma copyOutLoop_congr {ksrc' : ℕ → ℕ} (n : ℕ) (h : ∀ i, pos ≤ i → i < pos + len → ksrc i = ksrc' i) :
    copyOutLoop root junk ksrc n mem pos va len = copyOutLoop root junk ksrc' n mem pos va len := by
  induction n generalizing mem pos va len with
  | zero => rfl
  | succ n ih =>
    by_cases hlen : len = 0
    · rw [hlen, copyOutLoop_zero_len, copyOutLoop_zero_len]
    have hle := chunk_le va len
    have hround : round root junk ksrc mem pos va len = round root junk ksrc' mem pos va len := by
      apply Mem.copy_congr
      intro i hi
      exact h (pos + i) (by omega) (by omega)
    have hrest : ∀ i, pos + chunk va len ≤ i → i < pos + chunk va len + (len - chunk va len) →
        ksrc i = ksrc' i := by
      intro i hlo hhi
      exact h i (by omega) (by omega)
    rw [copyOutLoop_succ _ _ _ _ _ _ _ hlen, copyOutLoop_succ _ _ _ _ _ _ _ hlen, hround,
      ih hrest]

/-- What is not written to stays. -/
lemma copyOutLoop_outside (n : ℕ) (h : a ∉ touched (copyOutLoop root junk ksrc n mem pos va len).2) :
    (copyOutLoop root junk ksrc n mem pos va len).1 a = mem a := by
  induction n generalizing mem pos va len with
  | zero => rfl
  | succ n ih =>
    by_cases hlen : len = 0
    · rw [hlen, copyOutLoop_zero_len]
    rw [copyOutLoop_succ _ _ _ _ _ _ _ hlen] at h ⊢
    rw [touched_round, List.mem_append, not_or, mem_round] at h
    rw [ih h.2]
    exact if_neg h.1

/-- What is written to holds one of the bytes to copy. -/
lemma copyOutLoop_inside (n : ℕ) (h : a ∈ touched (copyOutLoop root junk ksrc n mem pos va len).2) :
    ∃ i, i < pos + len ∧ (copyOutLoop root junk ksrc n mem pos va len).1 a = ksrc i := by
  induction n generalizing mem pos va len with
  | zero => exact absurd h List.not_mem_nil
  | succ n ih =>
    by_cases hlen : len = 0
    · rw [hlen, copyOutLoop_zero_len] at h
      exact absurd h List.not_mem_nil
    have hle := chunk_le va len
    rw [copyOutLoop_succ _ _ _ _ _ _ _ hlen] at h ⊢
    rw [touched_round, List.mem_append, mem_round] at h
    by_cases hlater : a ∈ touched (copyOutLoop root junk ksrc n
        (round root junk ksrc mem pos va len) (pos + chunk va len) (add64 va (chunk va len))
        (len - chunk va len)).2
    · obtain ⟨i, hi, heq⟩ := ih hlater
      exact ⟨i, by omega, heq⟩
    · -- the address belongs to this round, and no later one comes back to it
      have hin := h.resolve_right hlater
      refine ⟨pos + (a - userSide mem root junk va), by omega, ?_⟩
      rw [copyOutLoop_outside n hlater]
      exact if_pos hin

end Uaccess

namespace Msgrcv

open Ipc Uaccess

/-! ## The message that a call takes -/

/-- The call when the queue has the message `m` for it and it finds `w`. -/
def delivered (x : Args) (w : View) (pool : Pool) (m : List UInt8) (kbuf : ℕ → UInt8) : Result :=
  let r := copyOut w.mem x.p.rootPa x.junk x.ubuf
    (fun i => (Mem.store kbuf 0 (m.take x.buflen) i).toNat) m.length
  ⟨if r.1 = 0 then m.length else -EFAULT, pool, r.2.1, r.2.2⟩

lemma afterReceive_section (x : Args) (kbuf : ℕ → UInt8) (v : View) (pool : Pool)
    (q : Mqueue) : afterReceive x kbuf v pool (receiveSection q x.t x.buflen).2
      = if q.count ≠ 0 then some (delivered x v pool (headMessage q) kbuf) else none := by
  rw [receiveSection]
  split
  · have hlen : (headMessage q).length = q.mlen q.head := Mem.slice_length _ _ _
    have htake : (headMessage q).take x.buflen = Mem.slice (q.msgs q.head) 0
        (if q.mlen q.head < x.buflen then q.mlen q.head else x.buflen) := by
      split
      · apply List.take_of_length_le
        omega
      · exact Mem.slice_take _ _ (by omega)
    simp only [afterReceive, delivered, hlen, htake]
  · rfl

/-- A call that has parked waits for the first message. -/
lemma resumed_spec (x : Args) (id : ℕ) (vs : List View) :
    (firstMessage id vs = none ∧ ∀ kbuf, resumed x kbuf id vs = none) ∨
      ∃ w m pool, firstMessage id vs = some (w, m) ∧
        ∀ kbuf, resumed x kbuf id vs = some (delivered x w pool m kbuf) := by
  induction vs with
  | nil => exact .inl ⟨rfl, fun _ => rfl⟩
  | cons v vs ih =>
    simp only [firstMessage, resumed, afterReceive_section]
    by_cases hc : (v.pool id).count ≠ 0
    · right
      simp only [if_pos hc]
      exact ⟨v, headMessage (v.pool id), _, rfl, fun _ => rfl⟩
    · simp only [if_neg hc]
      exact ih

/-- A call either takes no message, and then ends without a copy or sleeps on, or delivers the
one that it takes. -/
lemma sysMsgrcv_spec (x : Args) (v : View) (vs : List View) :
    (∃ res, (∀ kbuf, sysMsgrcv x kbuf v vs = res) ∧ taken x v vs = none ∧
        ∀ r ∈ res, touched r.log = []) ∨
      ∃ w m pool, taken x v vs = some (w, m) ∧
        ∀ kbuf, sysMsgrcv x kbuf v vs = some (delivered x w pool m kbuf) := by
  have hfail : ∀ pool err, ∀ r ∈ some (fails v pool err), touched r.log = [] := by
    intro pool err r hr
    rw [← Option.some.inj hr]
    rfl
  rw [taken]
  by_cases hzero : x.buflen = 0
  · left
    rw [if_pos (.inl hzero)]
    exact ⟨_, fun _ => if_pos hzero, rfl, hfail _ _⟩
  by_cases hbig : x.buflen > MQ_MSG_MAX
  · left
    rw [if_pos (.inr hbig)]
    exact ⟨_, fun _ => (if_neg hzero).trans (if_pos hbig), rfl, hfail _ _⟩
  have hgood : ¬ (x.buflen = 0 ∨ x.buflen > MQ_MSG_MAX) := not_or.mpr ⟨hzero, hbig⟩
  simp only [if_neg hgood, sysMsgrcv, if_neg hzero, if_neg hbig]
  cases mqHandleLookup x.p.mqHandles (x.hdl.setWidth 32).toInt with
  | none => exact .inl ⟨_, fun _ => rfl, rfl, hfail _ _⟩
  | some id =>
    have hbuf : ¬ true = false := by simp
    simp only [mqReceiveId, if_neg hbuf]
    by_cases hid : id ≥ MQ_QUEUES_MAX ∨ (v.pool id).used = false
    · left
      simp only [if_pos hid, afterReceive]
      exact ⟨_, fun _ => rfl, trivial, hfail _ _⟩
    -- a pin does not change what the queue holds
    have hpin : headMessage { v.pool id with inflight := (v.pool id).inflight + 1 }
        = headMessage (v.pool id) := rfl
    simp only [if_neg hid, afterReceive_section, firstMessage, hpin]
    by_cases hc : (v.pool id).count ≠ 0
    · right
      simp only [if_pos hc]
      exact ⟨v, _, _, rfl, fun _ => rfl⟩
    · simp only [if_neg hc]
      obtain ⟨hnone, hrun⟩ | hsome := resumed_spec x id vs
      · left
        exact ⟨none, hrun, hnone, fun r hr => absurd hr (by simp)⟩
      · exact .inr hsome

/-! ## What a delivery copies -/

variable {x : Args}

lemma copyOut_writable {mem : Mm.Mem} {len : ℕ} (ksrc : ℕ → ℕ)
    (h : Writable x mem len) :
    (copyOut mem x.p.rootPa x.junk x.ubuf ksrc len).2
      = copyOutLoop x.p.rootPa x.junk ksrc len mem 0 x.ubuf len := by
  have hpass : ¬ (rangeOk x.ubuf len = false ∨ checkRange mem x.p.rootPa x.ubuf len true ≠ 0) := by
    simp [h.1, h.2]
  rw [copyOut, if_neg hpass]

lemma copyOut_refused {mem : Mm.Mem} {len : ℕ} (ksrc : ℕ → ℕ)
    (h : ¬ Writable x mem len) :
    copyOut mem x.p.rootPa x.junk x.ubuf ksrc len = (-EFAULT, mem, []) := by
  have hfail : rangeOk x.ubuf len = false ∨ checkRange mem x.p.rootPa x.ubuf len true ≠ 0 := by
    rw [Writable, not_and_or, Bool.not_eq_true] at h
    exact h
  rw [copyOut, if_pos hfail]

variable {w : View} {pool : Pool} {m : List UInt8}

variable {kbuf : ℕ → UInt8}

/-- A delivery that passes the checks writes the full length. -/
lemma delivered_length
    (h : Writable x w.mem m.length) :
    (touched (delivered x w pool m kbuf).log).length = m.length := by
  simp only [delivered, copyOut_writable _ h]
  exact touched_copyOutLoop_length _ _ _ _ _ _ _ le_rfl

lemma delivered_refused
    (h : ¬ Writable x w.mem m.length) :
    delivered x w pool m kbuf = ⟨-EFAULT, pool, w.mem, []⟩ := by
  simp only [delivered, copyOut_refused _ h]
  rw [if_neg (by decide)]

/-- A message that fits covers all that is copied of the buffer. -/
lemma bounce_eq {buflen i : ℕ} (kbuf : ℕ → UInt8) (hfit : m.length ≤ buflen)
    (hi : i < m.length) : Mem.store kbuf 0 (m.take buflen) i = m[i] := by
  rw [List.take_of_length_le hfit]
  have hcell := Mem.store_add (b := kbuf) (p := 0) hi
  rwa [Nat.zero_add] at hcell

/-- Such a delivery does not depend on the stack. -/
lemma delivered_stack
    (hfit : m.length ≤ x.buflen) (kbuf kbuf' : ℕ → UInt8) :
    delivered x w pool m kbuf = delivered x w pool m kbuf' := by
  by_cases hw : Writable x w.mem m.length
  · have hsame : ∀ i, 0 ≤ i → i < 0 + m.length →
        (Mem.store kbuf 0 (m.take x.buflen) i).toNat
          = (Mem.store kbuf' 0 (m.take x.buflen) i).toNat := by
      intro i _ hi
      rw [bounce_eq kbuf hfit (by omega), bounce_eq kbuf' hfit (by omega)]
    have hcopy : copyOut w.mem x.p.rootPa x.junk x.ubuf
          (fun i => (Mem.store kbuf 0 (m.take x.buflen) i).toNat) m.length
        = copyOut w.mem x.p.rootPa x.junk x.ubuf
          (fun i => (Mem.store kbuf' 0 (m.take x.buflen) i).toNat) m.length := by
      rw [copyOut, copyOut, copyOutLoop_congr m.length hsame]
    simp only [delivered, hcopy]
  · rw [delivered_refused hw, delivered_refused hw]

/-- Every byte that it writes is one of the message. -/
lemma delivered_message
    {a : ℕ} (hfit : m.length ≤ x.buflen) (ha : a ∈ touched (delivered x w pool m kbuf).log) :
    ∃ b ∈ m, (delivered x w pool m kbuf).mem a = b.toNat := by
  by_cases hw : Writable x w.mem m.length
  · simp only [delivered, copyOut_writable _ hw] at ha ⊢
    obtain ⟨i, hi, heq⟩ := copyOutLoop_inside _ ha
    have hlt : i < m.length := by omega
    rw [bounce_eq kbuf hfit hlt] at heq
    exact ⟨m[i], List.getElem_mem hlt, heq⟩
  · rw [delivered_refused hw] at ha
    exact absurd ha List.not_mem_nil

/-! ## The law -/

/-- The call is confined to the message, and to the user's room, exactly when the message that it
takes fits in that room or cannot be copied out. -/
theorem msgrcv_confined (x : Args) (v : View) (vs : List View) :
    Confined x v vs ↔
      ∀ w m, taken x v vs = some (w, m) → Writable x w.mem m.length → m.length ≤ x.buflen := by
  obtain ⟨res, hrun, hnone, hlog⟩ | ⟨w, m, pool, hsome, hrun⟩ := sysMsgrcv_spec x v vs
  · have hempty : ∀ kbuf r, sysMsgrcv x kbuf v vs = some r → touched r.log = [] := by
      intro kbuf r hr
      rw [hrun] at hr
      exact hlog r hr
    constructor
    · intro _ w m htaken
      rw [hnone] at htaken
      exact absurd htaken (by simp)
    · intro _
      refine ⟨fun kbuf r hr => ?_, fun kbuf r hr a ha => ?_, fun kbuf kbuf' => ?_⟩
      · rw [hempty kbuf r hr]
        exact Nat.zero_le _
      · rw [hempty kbuf r hr] at ha
        exact absurd ha List.not_mem_nil
      · rw [hrun, hrun]
  · constructor
    · intro hconf w' m' htaken hw
      rw [hsome] at htaken
      obtain ⟨rfl, rfl⟩ := Prod.mk.inj (Option.some.inj htaken)
      have hle := hconf.within (fun _ => 0) _ (hrun _)
      rwa [delivered_length hw] at hle
    · intro hcond
      by_cases hw : Writable x w.mem m.length
      · have hfit := hcond w m hsome hw
        refine ⟨fun kbuf r hr => ?_, fun kbuf r hr a ha => ?_, fun kbuf kbuf' => ?_⟩
        · rw [hrun] at hr
          rw [← Option.some.inj hr, delivered_length hw]
          exact hfit
        · rw [hrun] at hr
          obtain rfl := Option.some.inj hr
          exact ⟨w, m, hsome, delivered_message hfit ha⟩
        · rw [hrun, hrun, delivered_stack hfit]
      · -- nothing is copied
        refine ⟨fun kbuf r hr => ?_, fun kbuf r hr a ha => ?_, fun kbuf kbuf' => ?_⟩
        · rw [hrun, delivered_refused hw] at hr
          rw [← Option.some.inj hr]
          exact Nat.zero_le _
        · rw [hrun, delivered_refused hw] at hr
          rw [← Option.some.inj hr] at ha
          exact absurd ha List.not_mem_nil
        · rw [hrun, hrun, delivered_refused hw, delivered_refused hw]

/-- A queue that holds the message 1, 2, sent to it after it was opened, and a process with two
pages of its own. -/
def twoBytes : View :=
  ⟨(mqSendId (mqOpen (fun _ => Mqueue.zero) [113]).1 1 0 true [1, 2]).1, twoPages.ram.mem⟩

/-- A receive of one byte. -/
def oneByte : Args :=
  ⟨⟨fun i => if i = 0 then 1 else 0, 0x50000000⟩, 2, 1, 2 ^ 40 + 4095, 1, 7⟩

/-- The user has room for one byte, and two are written. -/
theorem msgrcv_overcopies : ¬ ∀ x v vs, Confined x v vs := by
  intro h
  have htaken : taken oneByte twoBytes [] = some (twoBytes, [1, 2]) := rfl
  have hw : Writable oneByte twoBytes.mem [1, 2].length := by
    have hpass := (checks_iff (by decide) (by decide)).not.mpr
      (not_not.mpr (userRange_twoPages true))
    rw [not_or, Bool.not_eq_false, not_not] at hpass
    exact hpass
  obtain ⟨_, _, hnone, _⟩ | ⟨w, m, pool, hsome, hrun⟩ := sysMsgrcv_spec oneByte twoBytes []
  · exact absurd (hnone.symm.trans htaken) (by simp)
  obtain ⟨rfl, rfl⟩ := Prod.mk.inj (Option.some.inj (htaken.symm.trans hsome))
  have hle := (h oneByte twoBytes []).within _ _ (hrun fun _ => 0)
  have hlen := @delivered_length oneByte twoBytes pool [1, 2] (fun _ => 0) hw
  rw [hlen] at hle
  have hone : 2 ≤ 1 := hle
  omega

end Msgrcv
end MobilePhoneOs
