import Mathlib.Data.List.Forall2
import MobilePhoneOs.Lib.Fifo
import MobilePhoneOs.Net.Udp

/-!
# When a socket's ring is a queue of datagrams

What a socket's ring stands for is a bounded queue. The datagrams share the bytes of the ring,
so that it keeps standing for the queue only while no arrival changes the bytes of a datagram
that is still queued.
-/

namespace MobilePhoneOs.Net.Udp

open Mem
open List (length_append replicate)

variable {p : Pcb} {q : List (List UInt8)} {d : List UInt8} {t : Table} {k : ℕ}

/-! ## What a socket is seen to do -/

/-- The payload of a datagram whose length field, in network order, is a good one. -/
def datagram (pkt : List UInt8) : Option (List UInt8) :=
  if pkt.length < 8 then none
  else
    let n := beNat (field pkt 4 2)
    if n < 8 ∨ n > pkt.length then none else some (field pkt 8 (n - 8))

/-- A datagram has arrived for the socket, or a call has returned bytes. -/
inductive Obs
  | arrived (payload : List UInt8)
  | received (buflen : ℕ) (bytes : List UInt8)
deriving DecidableEq

/-- What an action lets see at socket `k`, by what it ends with. -/
def obsAt (k : ℕ) : Act × Answer → Option Obs
  | (.input _ pkt, .searched found) => if found = some k then (datagram pkt).map .arrived else none
  | (.recv k' buflen _, .received (.data bytes)) =>
    if k' = k then some (.received buflen bytes) else none
  | _ => none

/-- The same for an action that is one step. -/
def Table.seen (t : Table) (k : ℕ) : Act → Option Obs
  | .input src pkt =>
    if t.socket src (readHdr pkt) = some k then (datagram pkt).map .arrived else none
  | .recv k' buflen wait =>
    match (Udp.udpRecv (t.pcb k') buflen wait).2 with
    | .data bytes => if k' = k then some (.received buflen bytes) else none
    | _ => none

/-- A step with what it lets see. -/
def StepSeen (k : ℕ) (t : Table) (l : Act × Option Obs) (t' : Table) : Prop :=
  t' = t.apply l.1 ∧ l.2 = t.seen k l.1

/-- What is seen of an event of the queue. -/
inductive Shows : Fifo.Event (List UInt8) → Obs → Prop
  | put (d : List UInt8) : Shows (.put d) (.arrived d)
  | drop (d : List UInt8) : Shows (.drop d) (.arrived d)
  | take (d : List UInt8) (buflen : ℕ) : Shows (.take d) (.received buflen (d.take buflen))

/-- What is seen is a bounded queue at work: what arrives is queued or, at a full queue, dropped,
and what is received is the oldest datagram, up to the length asked for. -/
def IsQueue (obs : List Obs) : Prop :=
  ∃ es q, Run (Fifo.Step RING_SLOTS) [] es q ∧ List.Forall₂ Shows es obs ∧
    Fifo.puts es = Fifo.takes es ++ q

/-- The packets that may arrive: one of the size of an IP packet whose UDP length, if it is a
good one, has a low byte of zero, and whose payload fits the ring and repeats there the bytes
of the datagrams that are still queued. -/
def Act.Ok (k : ℕ) (t : Table) : Act → Prop
  | .input src pkt =>
    t.socket src (readHdr pkt) = some k → pkt.length < 65536 ∧
      ∀ d, datagram pkt = some d → beNat (field pkt 4 2) % 256 = 0 ∧
        ((t.pcb k).ringCount < RING_SLOTS → d.length ≤ UDP_RING_SZ ∧
          ∀ i < (t.pcb k).ringCount, ∀ j < (t.pcb k).ringLens (((t.pcb k).ringHead + i) % RING_SLOTS),
            j < d.length → d[j]? = some ((t.pcb k).ring j))
  | .recv .. => True

/-! ## The length field -/

variable {pkt : List UInt8}

lemma field_two {n : ℕ} (h : n + 2 ≤ pkt.length) :
    ∃ a b, field pkt n 2 = [a, b] := by
  have hlen : (field pkt n 2).length = 2 := by
    rw [field, List.length_take, List.length_drop]
    omega
  exact List.length_eq_two.mp hlen

/-- The turned length is the length in network order and, above it, its low byte again. -/
lemma turnedLen_eq (h : 8 ≤ pkt.length) :
    turnedLen (readHdr pkt).len =
      beNat (field pkt 4 2) + 65536 * (beNat (field pkt 4 2) % 256) := by
  obtain ⟨a, b, hfield⟩ := @field_two pkt 4 (by omega)
  have ha := a.toNat_lt
  have hb := b.toNat_lt
  show turnedLen (leNat (field pkt 4 2)) = _
  have hbe : beNat (field pkt 4 2) = b.toNat + 256 * a.toNat := by
    rw [hfield]
    rfl
  have hle : leNat (field pkt 4 2) = a.toNat + 256 * b.toNat := by
    rw [hfield]
    rfl
  have hhigh : (a.toNat + 256 * b.toNat) / 256 = b.toNat := by omega
  have hlow : (b.toNat + 256 * a.toNat) % 256 = b.toNat := by omega
  rw [turnedLen, hbe, hle, hhigh, hlow]
  ring

/-- The code reads a datagram exactly where its length field has a low byte of zero. -/
lemma parse_eq (hlen : pkt.length < 65536)
    (hlow : ∀ d, datagram pkt = some d → beNat (field pkt 4 2) % 256 = 0) :
    parse pkt = (datagram pkt).map fun d => (readHdr pkt, d) := by
  rw [parse, datagram]
  by_cases h8 : pkt.length < 8
  · rw [if_pos h8, if_pos h8]
    rfl
  rw [if_neg h8, if_neg h8]
  simp only [turnedLen_eq (by omega : 8 ≤ pkt.length)]
  by_cases hgood : beNat (field pkt 4 2) < 8 ∨ beNat (field pkt 4 2) > pkt.length
  · have hbad : beNat (field pkt 4 2) + 65536 * (beNat (field pkt 4 2) % 256) < 8 ∨
        beNat (field pkt 4 2) + 65536 * (beNat (field pkt 4 2) % 256) > pkt.length := by
      rcases hgood with hsmall | hlarge
      · rw [Nat.mod_eq_of_lt (by omega)]
        omega
      · omega
    rw [if_pos hgood, if_pos hbad]
    rfl
  · have hzero := hlow (field pkt 8 (beNat (field pkt 4 2) - 8)) (by
      rw [datagram, if_neg h8]
      exact if_neg hgood)
    rw [if_neg hgood, hzero, Nat.mul_zero, Nat.add_zero, if_neg hgood]
    rfl

/-! ## The ring as a queue -/

/-- The ring stands for the queue `q`. -/
structure Stands (p : Pcb) (q : List (List UInt8)) : Prop where
  count : p.ringCount = q.length
  room : q.length ≤ RING_SLOTS
  head : p.ringHead < RING_SLOTS
  lens : ∀ i (h : i < q.length), p.ringLens ((p.ringHead + i) % RING_SLOTS) = q[i].length
  bytes : ∀ i (h : i < q.length) j (hj : j < q[i].length), p.ring j = q[i][j]

lemma stands_nil (hcount : p.ringCount = 0) (hhead : p.ringHead < RING_SLOTS) : Stands p [] where
  count := hcount
  room := Nat.zero_le _
  head := hhead
  lens i h := absurd h (Nat.not_lt_zero i)
  bytes i h := absurd h (Nat.not_lt_zero i)

/-- A full queue drops what arrives. -/
lemma ringPut_full (h : Stands p q) (hfull : RING_SLOTS ≤ q.length) : Stands (ringPut p d) q := by
  have hcount : p.ringCount = RING_SLOTS := by
    have := h.room
    rw [h.count]
    omega
  rw [ringPut, if_pos hcount]
  exact ⟨h.count, h.room, h.head, h.lens, h.bytes⟩

/-- What arrives is queued, where it repeats the bytes of what is queued already. -/
lemma ringPut_queued (h : Stands p q) (hroom : q.length < RING_SLOTS) (hlen : d.length ≤ UDP_RING_SZ)
    (hsame : ∀ i < p.ringCount, ∀ j < p.ringLens ((p.ringHead + i) % RING_SLOTS),
      j < d.length → d[j]? = some (p.ring j)) : Stands (ringPut p d) (q ++ [d]) := by
  have hcount : p.ringCount ≠ RING_SLOTS := by
    rw [h.count]
    omega
  have hput : ringPut p d = { p with
      ring := store p.ring 0 d
      ringLens := Function.update p.ringLens ((p.ringHead + p.ringCount) % RING_SLOTS) d.length
      ringCount := p.ringCount + 1 } := by
    rw [ringPut, if_neg hcount]
    simp only [if_neg (by omega : ¬ d.length > UDP_RING_SZ), List.take_length]
  rw [hput]
  refine ⟨?_, ?_, h.head, fun i hi => ?_, fun i hi j hj => ?_⟩
  · rw [length_append, ← h.count]
    rfl
  · rw [length_append]
    exact hroom
  · rw [length_append, List.length_singleton] at hi
    by_cases hnew : i = q.length
    · subst hnew
      rw [List.getElem_append_right le_rfl]
      simp only [h.count, Function.update_self, Nat.sub_self, List.getElem_cons_zero]
    · have hold : i < q.length := by omega
      rw [List.getElem_append_left hold, ← h.lens i hold]
      refine Function.update_of_ne ?_ _ _
      rw [h.count]
      simp only [RING_SLOTS] at hroom ⊢
      omega
  · rw [length_append, List.length_singleton] at hi
    by_cases hnew : i = q.length
    · subst hnew
      have hd : j < d.length := by simpa using hj
      simpa using @store_add _ p.ring 0 j d hd
    · have hold : i < q.length := by omega
      have hget : (q ++ [d])[i] = q[i] := List.getElem_append_left hold
      have hj' : j < q[i].length := by rwa [hget] at hj
      simp only [hget]
      rw [← h.bytes i hold j hj']
      by_cases hd : j < d.length
      · have hstored : store p.ring 0 d j = d[j] := by simpa using @store_add _ p.ring 0 j d hd
        have hslot : j < p.ringLens ((p.ringHead + i) % RING_SLOTS) := by
          rw [h.lens i hold]
          exact hj'
        have hd' := hsame i (by rw [h.count]; exact hold) j hslot hd
        rw [List.getElem?_eq_getElem hd] at hd'
        exact hstored.trans (Option.some.inj hd')
      · exact store_of_ge (by omega)

/-- A call returns the oldest datagram. -/
lemma udpRecv_data (h : Stands p (d :: q)) (buflen : ℕ) (wait : Bool) :
    (udpRecv p buflen wait).2 = .data (d.take buflen) ∧ Stands (udpRecv p buflen wait).1 q := by
  have hcount : p.ringCount ≠ 0 := by
    rw [h.count]
    exact Nat.succ_ne_zero _
  have hhead := h.head
  have hlen : p.ringLens p.ringHead = d.length := by
    have := h.lens 0 (Nat.zero_lt_succ _)
    rwa [Nat.add_zero, Nat.mod_eq_of_lt hhead] at this
  rw [udpRecv, if_neg hcount]
  have hn : (if d.length > buflen then buflen else d.length) = min buflen d.length := by
    split <;> omega
  simp only [hlen, hn]
  refine ⟨?_, ?_, ?_, ?_, fun i hi => ?_, fun i hi j hj => ?_⟩
  · congr 1
    refine List.ext_getElem (by simp) fun j hj hj' => ?_
    rw [slice_getElem, List.getElem_take]
    have hd : j < d.length := by
      rw [List.length_take] at hj'
      omega
    simpa using h.bytes 0 (Nat.zero_lt_succ _) j hd
  · rw [h.count]
    rfl
  · have := h.room
    rw [List.length_cons] at this
    omega
  · exact Nat.mod_lt _ (by decide)
  · have := h.lens (i + 1) (Nat.succ_lt_succ hi)
    rw [List.getElem_cons_succ] at this
    rw [← this]
    rw [Nat.mod_add_mod, Nat.add_assoc, Nat.add_comm 1 i]
  · exact h.bytes (i + 1) (Nat.succ_lt_succ hi) j hj

/-- An empty queue gives nothing. -/
lemma udpRecv_empty (h : Stands p []) (buflen : ℕ) (wait : Bool) :
    udpRecv p buflen wait = (p, if wait then .park else .fail) := by
  rw [udpRecv, if_pos (show p.ringCount = 0 from h.count)]

/-! ## Runs -/

lemma parse_hdr {hd : Hdr × List UInt8} (h : parse pkt = some hd) : hd.1 = readHdr pkt := by
  rw [parse] at h
  split at h
  · cases h
  · dsimp only at h
    split at h <;> cases h
    rfl

/-- A packet for another socket leaves this one alone. -/
lemma udpInput_other {src : UInt32} (h : t.socket src (readHdr pkt) ≠ some k) :
    (t.udpInput src pkt).pcb k = t.pcb k := by
  rw [Table.udpInput]
  cases hparse : parse pkt with
  | none => rfl
  | some hd =>
    dsimp only
    rw [parse_hdr hparse]
    cases hsock : t.socket src (readHdr pkt) with
    | none => rfl
    | some k' =>
      refine Function.update_of_ne ?_ _ _
      rintro rfl
      exact h hsock

/-- An action is an event of the queue, or is not seen and leaves the queue alone. -/
lemma step_queue {a : Act} (h : Stands (t.pcb k) q) (hok : a.Ok k t) :
    (t.seen k a = none ∧ Stands ((t.apply a).pcb k) q) ∨
      ∃ e o q', t.seen k a = some o ∧ Fifo.Step RING_SLOTS q e q' ∧ Shows e o ∧
        Stands ((t.apply a).pcb k) q' := by
  cases a with
  | input src pkt =>
    by_cases hsock : t.socket src (readHdr pkt) = some k
    · obtain ⟨hlen, hgood⟩ := hok hsock
      have hparse := parse_eq hlen fun d hd => (hgood d hd).1
      have hseen : t.seen k (.input src pkt) = (datagram pkt).map .arrived := if_pos hsock
      have happly : t.apply (.input src pkt) = t.udpInput src pkt := rfl
      rw [hseen, happly, Table.udpInput, hparse]
      cases hd : datagram pkt with
      | none => exact .inl ⟨rfl, h⟩
      | some d =>
        have hroom := (hgood d hd).2
        simp only [Option.map_some, hsock, Function.update_self]
        by_cases hfull : RING_SLOTS ≤ q.length
        · exact .inr ⟨.drop d, .arrived d, q, rfl, ⟨hfull, rfl⟩, .drop d, ringPut_full h hfull⟩
        · obtain ⟨hfits, hsame⟩ := hroom (by rw [h.count]; omega)
          exact .inr ⟨.put d, .arrived d, q ++ [d], rfl, ⟨by omega, rfl⟩, .put d,
            ringPut_queued h (by omega) hfits hsame⟩
    · refine .inl ⟨if_neg hsock, ?_⟩
      show Stands ((t.udpInput src pkt).pcb k) q
      rw [udpInput_other hsock]
      exact h
  | recv k' buflen wait =>
    show (Table.seen t k (.recv k' buflen wait) = none ∧ Stands ((t.udpRecv k' buflen wait).pcb k) q) ∨ _
    by_cases hk : k' = k
    · subst hk
      have hself : (t.udpRecv k' buflen wait).pcb k' = (udpRecv (t.pcb k') buflen wait).1 :=
        Function.update_self ..
      cases q with
      | nil =>
        refine .inl ⟨?_, ?_⟩
        · rw [Table.seen, udpRecv_empty h]
          cases wait <;> rfl
        · rw [hself, udpRecv_empty h]
          exact h
      | cons d q' =>
        obtain ⟨hdata, hrest⟩ := udpRecv_data h buflen wait
        refine .inr ⟨.take d, .received buflen (d.take buflen), q', ?_, rfl, .take d buflen, ?_⟩
        · rw [Table.seen, hdata]
          exact if_pos rfl
        · show Stands ((t.udpRecv k' buflen wait).pcb k') q'
          rw [hself]
          exact hrest
    · refine .inl ⟨?_, ?_⟩
      · rw [Table.seen]
        split
        · exact if_neg hk
        · rfl
      · have hother : (t.udpRecv k' buflen wait).pcb k = t.pcb k :=
          Function.update_of_ne (Ne.symm hk) _ _
        rw [hother]
        exact h

/-- In a run that meets the condition the ring stands for the queue that is seen. -/
lemma run_stands {t₀ : Table} {ls : List (Act × Option Obs)} (h₀ : Stands (t₀.pcb k) [])
    (hrun : Run (Guarded (fun t l => l.1.Ok k t) (StepSeen k)) t₀ ls t) :
    ∃ es q, Run (Fifo.Step RING_SLOTS) [] es q ∧
      List.Forall₂ Shows es (ls.filterMap Prod.snd) ∧ Stands (t.pcb k) q := by
  induction hrun with
  | nil => exact ⟨[], [], .nil, .nil, h₀⟩
  | @snoc ls l t u _ hstep ih =>
    obtain ⟨es, q, hq, hshows, hstands⟩ := ih
    obtain ⟨hok, rfl, hseen⟩ := hstep
    rw [List.filterMap_append]
    rcases step_queue hstands hok with ⟨hnone, hnext⟩ | ⟨e, o, q', hsome, hevent, hshow, hnext⟩
    · refine ⟨es, q, hq, ?_, hnext⟩
      rw [List.filterMap_cons_none (hseen.trans hnone), List.filterMap_nil, List.append_nil]
      exact hshows
    · refine ⟨es ++ [e], q', hq.snoc hevent, ?_, hnext⟩
      rw [List.filterMap_cons_some (hseen.trans hsome), List.filterMap_nil]
      exact List.rel_append hshows (.cons hshow .nil)

/-! ## Calls that overlap -/

lemma run_pcb {β : Type} (k : ℕ) (c : Code Pcb β) (t : Table) :
    (c.zoom (·.pcb k) (Table.setPcb k)).run t
      = ((c.run (t.pcb k)).1, t.setPcb k (c.run (t.pcb k)).2) := by
  refine Code.run_zoom (fun p t => ?_) (fun p p' t => ?_) (fun t => ?_) c t
  · simp [Table.setPcb]
  · simp [Table.setPcb]
  · simp [Table.setPcb]

lemma run_ringPutCode : (ringPutCode d).run p = ((), ringPut p d) := by
  simp only [ringPutCode, ringPut, Code.run_read]
  split_ifs
  · rfl
  · rfl
  · rfl

lemma run_udpRecvCode {buflen : ℕ} {wait : Bool} :
    (udpRecvCode buflen wait).run p = ((udpRecv p buflen wait).2, (udpRecv p buflen wait).1) := by
  unfold udpRecvCode udpRecv
  rw [Code.run_read]
  split_ifs
  · rfl
  · rfl
  · rfl

/-- An action that no other overlaps is one step. -/
lemma seen_of_whole {t t' : Table} {x : Act × Answer} (h : Calls.Whole actCode Begins t x t') :
    StepSeen k t (x.1, obsAt k x) t' := by
  obtain ⟨a, ans⟩ := x
  obtain ⟨-, hrun⟩ := h
  cases a with
  | input src pkt =>
    obtain ⟨rfl, rfl⟩ : .searched (t.socket src (readHdr pkt)) = ans ∧ t.udpInput src pkt = t' := by
      rw [actCode, Code.run_read, Table.udpInput] at *
      cases hparse : parse pkt with
      | none =>
        rw [hparse] at hrun
        exact Prod.mk.inj hrun
      | some hd =>
        dsimp only at hrun ⊢
        rw [hparse] at hrun
        rw [parse_hdr hparse]
        cases hfound : t.socket src (readHdr pkt) with
        | none =>
          rw [hfound] at hrun
          exact Prod.mk.inj hrun
        | some k =>
          rw [hfound] at hrun
          dsimp only at hrun
          rw [Code.run_bind, run_pcb, run_ringPutCode] at hrun
          exact Prod.mk.inj hrun
    exact ⟨rfl, rfl⟩
  | recv k' buflen wait =>
    rw [actCode, Code.run_bind, run_pcb, run_udpRecvCode] at hrun
    obtain ⟨rfl, rfl⟩ := Prod.mk.inj hrun
    refine ⟨rfl, ?_⟩
    show obsAt k (_, .received (udpRecv (t.pcb k') buflen wait).2) = t.seen k _
    unfold Table.seen
    dsimp only
    cases (udpRecv (t.pcb k') buflen wait).2 <;> rfl

/-- A socket with an empty ring is a queue of the datagrams that arrive for it, in every run in
which no action overlaps another, the code reads the lengths right and no arrival changes the
bytes of a queued datagram. -/
theorem socket_is_queue {t₀ : Table} {labels : List (Calls.Label Act Answer)}
    {c : Calls Table Act Answer}
    (hcount : (t₀.pcb k).ringCount = 0) (hhead : (t₀.pcb k).ringHead < RING_SLOTS)
    (hrun : Run (Guarded (Calls.Serial fun t a => a.Ok k t) (Calls.Step actCode Begins)) ⟨t₀, []⟩
      labels c) :
    IsQueue ((Calls.answers labels).filterMap (obsAt k)) := by
  obtain ⟨t, hwhole, -⟩ := Calls.whole_of_serial hrun
  have hsteps : Run (Guarded (fun t l => l.1.Ok k t) (StepSeen k)) t₀
      ((Calls.answers labels).map fun x => (x.1, obsAt k x)) t :=
    hwhole.map (f := id) fun t x u hstep => ⟨hstep.1, seen_of_whole hstep.2⟩
  obtain ⟨es, q, hq, hshows, -⟩ := run_stands (stands_nil hcount hhead) hsteps
  rw [List.filterMap_map] at hshows
  exact ⟨es, q, hq, hshows, Fifo.puts_eq hq⟩

/-- One socket, bound to port 7. -/
def boundTable : Table :=
  ⟨[], [0], fun _ => ⟨0, 0, 7, 0, fun _ => 0, fun _ => 0, 0, 0, 0⟩⟩

/-- A datagram of 256 bytes for this port. -/
def packet (b : UInt8) : List UInt8 := [9, 0, 7, 0, 1, 0, 0, 0] ++ replicate 248 b

lemma step_seen (k : ℕ) (t : Table) (a : Act) : StepSeen k t (a, t.seen k a) (t.apply a) := ⟨rfl, rfl⟩

/-- The socket after the datagram of the byte `b`. -/
def tableAfter (t : Table) (b : UInt8) : Table := t.apply (.input 1 (packet b))

/-- The theorem on a run with an arrival and a receive. -/
theorem socket_is_queue_one :
    IsQueue [.arrived (replicate 248 5), .received 10 (replicate 10 5)] := by
  have hpayload : datagram (packet 5) = some (replicate 248 5) := by decide +kernel
  have hok : (Act.input 1 (packet 5)).Ok 0 boundTable := by
    refine fun _ => ⟨by decide +kernel, fun d hd => ⟨by decide +kernel, fun _ => ⟨?_, ?_⟩⟩⟩
    · rw [← Option.some.inj (hpayload.symm.trans hd), List.length_replicate]
      decide
    · exact fun i hi => absurd hi (Nat.not_lt_zero i)
  have hput : ((actCode (.input 1 (packet 5))).run boundTable).1 = .searched (some 0) := by
    decide +kernel
  let t := ((actCode (.input 1 (packet 5))).run boundTable).2
  have hget : ((actCode (.recv 0 10 false)).run t).1 = .received (.data (replicate 10 5)) := by
    decide +kernel
  have hfirst : Calls.Whole actCode Begins boundTable (.input 1 (packet 5), .searched (some 0)) t :=
    .of_answer (fun _ _ hb => absurd hb List.not_mem_nil) hput
  have hsecond : Calls.Whole actCode Begins t
      (.recv 0 10 false, .received (.data (replicate 10 5))) _ :=
    .of_answer (fun _ _ hb => absurd hb List.not_mem_nil) hget
  have hok' : (Act.recv 0 10 false).Ok 0 t := trivial
  have hwhole : Run (Guarded (fun t x => x.1.Ok 0 t) (Calls.Whole actCode Begins)) boundTable _ _ :=
    (Run.single ⟨hok, hfirst⟩).snoc ⟨hok', hsecond⟩
  obtain ⟨labels, hans, hrun⟩ := Calls.serial_of_whole _ hwhole
  have hobs : (Calls.answers labels).filterMap (obsAt 0)
      = [.arrived (replicate 248 5), .received 10 (replicate 10 5)] := by
    rw [hans]
    decide +kernel
  rw [← hobs]
  exact socket_is_queue rfl (by decide) hrun

/-- Of two datagrams in the ring the first call returns the bytes of the second. -/
theorem second_overwrites : ¬ ∀ ls t, Run (StepSeen 0) boundTable ls t →
    IsQueue (ls.filterMap Prod.snd) := by
  intro hall
  have hfirst : Run (StepSeen 0) boundTable
      [(.input 1 (packet 5), boundTable.seen 0 (.input 1 (packet 5)))] (tableAfter boundTable 5) :=
    .single (step_seen 0 boundTable _)
  have hsecond := hfirst.snoc (step_seen 0 (tableAfter boundTable 5) (.input 1 (packet 6)))
  have hrun := hsecond.snoc
    (step_seen 0 (tableAfter (tableAfter boundTable 5) 6) (.recv 0 1 false))
  have hobs : List.filterMap Prod.snd
      ([(Act.input 1 (packet 5), boundTable.seen 0 (.input 1 (packet 5)))] ++
        [(.input 1 (packet 6), (tableAfter boundTable 5).seen 0 (.input 1 (packet 6)))] ++
        [(.recv 0 1 false, (tableAfter (tableAfter boundTable 5) 6).seen 0 (.recv 0 1 false))]) =
      [.arrived (replicate 248 5), .arrived (replicate 248 6), .received 1 [6]] := by
    decide +kernel
  obtain ⟨es, q, hq, hshows, hputs⟩ := hall _ _ hrun
  rw [hobs] at hshows
  cases hshows with
  | @cons e₁ _ es _ h₁ hshows =>
    cases hshows with
    | @cons e₂ _ es _ h₂ hshows =>
      cases hshows with
      | @cons e₃ _ es _ h₃ hshows =>
        cases hshows
        have hdrop := Fifo.not_drop hq (show 3 ≤ 8 by decide)
        generalize hbytes : ([6] : List UInt8) = bytes at h₃
        cases h₁ with
        | drop => exact hdrop _ (List.mem_cons_self ..)
        | put =>
          cases h₃ with
          | take d =>
            have hfirst : d = replicate 248 5 := by
              cases h₂ with
              | drop => exact absurd (List.mem_cons_of_mem _ (List.mem_cons_self ..)) (hdrop _)
              | put => exact (List.cons.inj (show _ :: _ = d :: q from hputs)).1.symm
            rw [hfirst] at hbytes
            exact absurd hbytes (by decide)

end MobilePhoneOs.Net.Udp
