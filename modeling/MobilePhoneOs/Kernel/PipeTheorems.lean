import MobilePhoneOs.Kernel.Pipe

/-!
# The pipe is a byte stream

The queue a pipe stands for is what the writes accepted and the reads have not returned
yet. Each copy loop is shown to take from, or append to, that queue; the history
invariant follows for every interleaving.
-/

namespace MobilePhoneOs.Ipc.Pipe

open Mem
open List (append_nil mem_append_left)
open Sys (init)

/-- The bytes queued in the pipe, oldest first. -/
def queued (p : Pipe) : List UInt8 := Ring.contents PIPE_BUF_CAP p.buf p.head p.len

/-- The indices stay inside the ring. -/
structure Ok (p : Pipe) : Prop where
  head_lt : p.head < PIPE_BUF_CAP
  len_le : p.len ≤ PIPE_BUF_CAP

/-! ## The copy loops -/

/-- `pipe_copy_out` moves exactly the first `n` queued bytes and touches no other field. -/
lemma pipeCopyOut_spec (fuel : ℕ) (p : Pipe) (n : ℕ) (hp : p.Ok) (hn : n ≤ p.len)
    (hfuel : n ≤ fuel) :
    ∃ head', head' < PIPE_BUF_CAP ∧
      (pipeCopyOut fuel p n).1 = { p with head := head', len := p.len - n } ∧
      p.queued = (pipeCopyOut fuel p n).2 ++ (pipeCopyOut fuel p n).1.queued := by
  induction fuel generalizing p n with
  | zero =>
    obtain rfl : n = 0 := by omega
    exact ⟨p.head, hp.head_lt, rfl, rfl⟩
  | succ fuel ih =>
    rw [pipeCopyOut]
    split_ifs with h0
    · subst h0
      exact ⟨p.head, hp.head_lt, rfl, rfl⟩
    set seg := min (min (PIPE_BUF_CAP - p.head) p.len) n with hseg
    have hlt := hp.head_lt
    -- one round takes a contiguous prefix of the queue
    let q : Pipe := { p with head := (p.head + seg) % PIPE_BUF_CAP, len := p.len - seg }
    have hq : q.Ok := ⟨Nat.mod_lt _ (by decide), by
      have := hp.len_le
      show p.len - seg ≤ PIPE_BUF_CAP
      omega⟩
    have hqlen : q.len = p.len - seg := rfl
    obtain ⟨head', hh, hfst, hsnd⟩ := ih q (n - seg) hq (by omega) (by omega)
    have hround : p.queued = slice p.buf p.head seg ++ q.queued := by
      have hfirst : Ring.contents PIPE_BUF_CAP p.buf p.head seg = slice p.buf p.head seg :=
        Ring.contents_eq_slice (by omega)
      rw [← hfirst]
      exact Ring.contents_split p.buf p.head (by omega)
    refine ⟨head', hh, ?_, ?_⟩
    · have hrest : p.len - seg - (n - seg) = p.len - n := by omega
      rw [← hrest]
      exact hfst
    · rw [hround, hsnd, List.append_assoc]

/-- `pipe_copy_in` appends its bytes to the queue and touches only the buffer and the length. -/
lemma pipeCopyIn_spec (fuel : ℕ) (p : Pipe) (src : List UInt8) (hp : p.Ok)
    (hroom : p.len + src.length ≤ PIPE_BUF_CAP) (hfuel : src.length ≤ fuel) :
    ∃ buf', pipeCopyIn fuel p src = { p with buf := buf', len := p.len + src.length } ∧
      (pipeCopyIn fuel p src).queued = p.queued ++ src := by
  induction fuel generalizing p src with
  | zero =>
    obtain rfl : src = [] := List.length_eq_zero_iff.mp (by omega)
    exact ⟨p.buf, rfl, (append_nil _).symm⟩
  | succ fuel ih =>
    rw [pipeCopyIn]
    split_ifs with h0
    · obtain rfl : src = [] := List.length_eq_zero_iff.mp h0
      exact ⟨p.buf, rfl, (append_nil _).symm⟩
    set tail := (p.head + p.len) % PIPE_BUF_CAP with htail
    set seg := min (min (PIPE_BUF_CAP - tail) (PIPE_BUF_CAP - p.len)) src.length with hseg
    have htl : tail < PIPE_BUF_CAP := Nat.mod_lt _ (by decide)
    have hlen : (src.take seg).length = seg := List.length_take_of_le (by omega)
    -- one round appends a contiguous piece of the source
    let q : Pipe := { p with buf := store p.buf tail (src.take seg), len := p.len + seg }
    have hround : q.queued = p.queued ++ src.take seg := by
      have happ := Ring.contents_store htail (show p.len + (src.take seg).length ≤ _ by omega)
        (show tail + (src.take seg).length ≤ _ by omega) (b := p.buf)
      rw [hlen] at happ
      exact happ
    have hq : q.Ok := ⟨hp.head_lt, show p.len + seg ≤ PIPE_BUF_CAP by omega⟩
    have hdrop : (src.drop seg).length = src.length - seg := List.length_drop
    have hqlen : q.len = p.len + seg := rfl
    obtain ⟨buf', heq, hcont⟩ := ih q (src.drop seg) hq (by omega) (by omega)
    refine ⟨buf', ?_, ?_⟩
    · have hrest : p.len + seg + (src.drop seg).length = p.len + src.length := by omega
      rw [← hrest]
      exact heq
    · rw [hcont, hround, List.append_assoc, List.take_append_drop]

/-! ## One section -/

variable {p p' : Pipe} {t : Task} {hasBuf : Bool} {len : ℕ}

lemma pipeRead_data {bytes : List UInt8}
    (hp : p.Ok) (h : (p', .data bytes) = pipeRead p t hasBuf len) :
    p'.Ok ∧ p.queued = bytes ++ p'.queued ∧ p'.readers = p.readers ∧ p'.writers = p.writers ∧
      p'.rdDead = p.rdDead ∧ p'.wrDead = p.wrDead := by
  unfold pipeRead at h
  split_ifs at h with h0 hne heof
  all_goals simp only [Prod.mk.injEq, reduceCtorEq, and_false, ReadOutcome.data.injEq] at h
  obtain ⟨rfl, rfl⟩ := h
  set take := min p.len len with htake
  have hle : take ≤ p.len := min_le_left _ _
  obtain ⟨head', hh, hfst, hq⟩ := pipeCopyOut_spec take p take hp hle le_rfl
  have hlen := hp.len_le
  refine ⟨⟨?_, ?_⟩, hq, ?_⟩
  · simpa only [hfst] using hh
  · simp only [hfst]
    omega
  · simp only [hfst, and_self]

variable {src : List UInt8}

lemma pipeWrite_accepted {n : ℕ}
    (hp : p.Ok) (h : (p', .accepted n) = pipeWrite p t hasBuf src) :
    p'.Ok ∧ p'.queued = p.queued ++ src.take n ∧ p'.readers = p.readers ∧
      p'.writers = p.writers ∧ p'.rdDead = p.rdDead ∧ p'.wrDead = p.wrDead := by
  unfold pipeWrite at h
  split_ifs at h with h0 hbuf hbroken hroom
  all_goals simp only [Prod.mk.injEq, reduceCtorEq, and_false, WriteOutcome.accepted.injEq] at h
  obtain ⟨rfl, rfl⟩ := h
  set done := min (PIPE_BUF_CAP - p.len) src.length with hdone
  have hle : done ≤ PIPE_BUF_CAP - p.len ∧ done ≤ src.length := by omega
  have hlen : (src.take done).length = done := List.length_take_of_le hle.2
  obtain ⟨buf', heq, hq⟩ := pipeCopyIn_spec done p (src.take done) hp (by omega) (by omega)
  refine ⟨⟨?_, ?_⟩, hq, ?_⟩
  · simpa only [heq] using hp.head_lt
  · simp only [heq]
    omega
  · simp only [heq, and_self]

variable {out : ReadOutcome}

/-- A section that neither moves bytes nor closes an end changes at most the wait queues. -/
lemma pipeRead_other
    (hout : ∀ bytes, out ≠ .data bytes) (h : (p', out) = pipeRead p t hasBuf len) :
    ∃ rq, p' = { p with rq := rq } := by
  unfold pipeRead at h
  split_ifs at h with h0 hne heof
  · exact ⟨p.rq, (Prod.mk.inj h).1⟩
  · exact absurd (Prod.mk.inj h).2 (hout _)
  · exact ⟨p.rq, (Prod.mk.inj h).1⟩
  · exact ⟨_, (Prod.mk.inj h).1⟩

lemma pipeWrite_other
    {out : WriteOutcome} (hout : ∀ n, out ≠ .accepted n)
    (h : (p', out) = pipeWrite p t hasBuf src) : ∃ wq, p' = { p with wq := wq } := by
  unfold pipeWrite at h
  split_ifs at h with h0 hbuf hbroken hroom
  · exact ⟨p.wq, (Prod.mk.inj h).1⟩
  · exact ⟨p.wq, (Prod.mk.inj h).1⟩
  · exact ⟨p.wq, (Prod.mk.inj h).1⟩
  · exact absurd (Prod.mk.inj h).2 (hout _)
  · exact ⟨_, (Prod.mk.inj h).1⟩

/-- End of file means an empty ring whose write end is gone. -/
lemma pipeRead_eof
    (h : (p', .eof) = pipeRead p t hasBuf len) : p.len = 0 ∧ (p.writers = 0 ∨ p.wrDead = true) := by
  unfold pipeRead at h
  split_ifs at h with h0 hne heof
  all_goals simp only [Prod.mk.injEq, reduceCtorEq, and_false] at h
  exact ⟨not_not.mp hne, heof⟩

lemma pipeWrite_brokenPipe
    (h : (p', .brokenPipe) = pipeWrite p t hasBuf src) : p.readers = 0 ∨ p.rdDead = true := by
  unfold pipeWrite at h
  split_ifs at h with h0 hbuf hbroken hroom
  all_goals simp only [Prod.mk.injEq, reduceCtorEq, and_false] at h
  exact hbroken

/-! ## The history invariant -/

/-- What ties a pipe to the steps taken on it so far. -/
structure Inv (hist : List Event) (s : Sys) : Prop where
  ok : s.pipe.Ok
  stream : bytesWritten hist = bytesRead hist ++ s.pipe.queued
  writers : s.pipe.writers = 0 ∨ s.pipe.wrDead = true ↔ Event.close false ∈ hist
  readers : s.pipe.readers = 0 ∨ s.pipe.rdDead = true ↔ Event.close true ∈ hist

lemma bytesRead_snoc (hist : List Event) (e : Event) :
    bytesRead (hist ++ [e]) = bytesRead hist ++ bytesRead [e] := List.flatMap_append

lemma bytesWritten_snoc (hist : List Event) (e : Event) :
    bytesWritten (hist ++ [e]) = bytesWritten hist ++ bytesWritten [e] := List.flatMap_append

lemma inv_init : Inv [] init where
  ok := ⟨by decide, by decide⟩
  stream := rfl
  writers := by simp [init, pipeMake]
  readers := by simp [init, pipeMake]

variable {hist : List Event} {s s' : Sys}

lemma close_snoc {e : Event} (he : ∀ reader, e ≠ .close reader) (reader : Bool) :
    Event.close reader ∈ hist ++ [e] ↔ Event.close reader ∈ hist := by
  simp [(he reader).symm]

/-- A step that moves no byte and keeps the ends keeps the invariant. -/
lemma Inv.of_idle {e : Event} (hs : Inv hist s) (he : ∀ reader, e ≠ .close reader)
    (hr : bytesRead [e] = []) (hw : bytesWritten [e] = [])
    (hp : ∃ rq wq, s'.pipe = { s.pipe with rq := rq, wq := wq }) : Inv (hist ++ [e]) s' := by
  obtain ⟨rq, wq, hp⟩ := hp
  have hq : s'.pipe.queued = s.pipe.queued := by rw [hp]; rfl
  refine ⟨?_, ?_, ?_, ?_⟩
  · rw [hp]
    exact ⟨hs.ok.head_lt, hs.ok.len_le⟩
  · rw [bytesRead_snoc, bytesWritten_snoc, hr, hw, append_nil, append_nil, hq]
    exact hs.stream
  · rw [hp, close_snoc he]
    exact hs.writers
  · rw [hp, close_snoc he]
    exact hs.readers

lemma inv_read (hs : Inv hist s)
    (h : (s'.pipe, out) = pipeRead s.pipe t hasBuf len) :
    Inv (hist ++ [.read t hasBuf len out]) s' := by
  by_cases hd : ∃ bytes, out = .data bytes
  · obtain ⟨bytes, rfl⟩ := hd
    obtain ⟨hok, hq, hr, hw, hrd, hwd⟩ := pipeRead_data hs.ok h
    refine ⟨hok, ?_, ?_, ?_⟩
    · rw [bytesRead_snoc, bytesWritten_snoc, hs.stream, hq]
      simp [bytesRead, bytesWritten]
    · rw [hw, hwd, close_snoc (fun _ => Event.noConfusion)]
      exact hs.writers
    · rw [hr, hrd, close_snoc (fun _ => Event.noConfusion)]
      exact hs.readers
  · obtain ⟨rq, hp⟩ := pipeRead_other (fun b hb => hd ⟨b, hb⟩) h
    refine hs.of_idle (fun _ => nofun) ?_ rfl ⟨rq, s.pipe.wq, hp⟩
    cases out with
    | data bytes => exact absurd ⟨bytes, rfl⟩ hd
    | nothing | eof | parked => rfl

lemma inv_write
    {out : WriteOutcome} (hs : Inv hist s)
    (h : (s'.pipe, out) = pipeWrite s.pipe t hasBuf src) :
    Inv (hist ++ [.write t hasBuf src out]) s' := by
  by_cases ha : ∃ n, out = .accepted n
  · obtain ⟨n, rfl⟩ := ha
    obtain ⟨hok, hq, hr, hw, hrd, hwd⟩ := pipeWrite_accepted hs.ok h
    refine ⟨hok, ?_, ?_, ?_⟩
    · rw [bytesRead_snoc, bytesWritten_snoc, hs.stream, hq]
      simp [bytesRead, bytesWritten]
    · rw [hw, hwd, close_snoc (fun _ => Event.noConfusion)]
      exact hs.writers
    · rw [hr, hrd, close_snoc (fun _ => Event.noConfusion)]
      exact hs.readers
  · obtain ⟨wq, hp⟩ := pipeWrite_other (fun n hn => ha ⟨n, hn⟩) h
    refine hs.of_idle (fun _ => nofun) rfl ?_ ⟨s.pipe.rq, wq, hp⟩
    cases out with
    | accepted n => exact absurd ⟨n, rfl⟩ ha
    | nothing | inval | brokenPipe | parked => rfl

/-- Closing an end leaves the queued bytes where they are. -/
lemma pipeDestroy_queued (p : Pipe) (reader : Bool) :
    (pipeDestroy p reader).1.queued = p.queued := by
  cases reader <;> rfl

lemma inv_close {reader : Bool} (hs : Inv hist s)
    (h : (s'.pipe, s'.freed) = pipeDestroy s.pipe reader) :
    Inv (hist ++ [.close reader]) s' := by
  have hpipe : s'.pipe = (pipeDestroy s.pipe reader).1 := (Prod.mk.inj h).1
  have hmem : Event.close reader ∈ hist ++ [.close reader] := by simp
  cases reader with
  | false =>
    refine ⟨?_, ?_, ⟨fun _ => hmem, fun _ => ?_⟩, ?_⟩
    · rw [hpipe]
      exact ⟨hs.ok.head_lt, hs.ok.len_le⟩
    · rw [bytesRead_snoc, bytesWritten_snoc, hpipe, pipeDestroy_queued]
      simpa [bytesRead, bytesWritten] using hs.stream
    · rw [hpipe]
      exact .inr rfl
    · rw [hpipe]
      exact hs.readers.trans (by simp)
  | true =>
    refine ⟨?_, ?_, ?_, fun _ => hmem, fun _ => ?_⟩
    · rw [hpipe]
      exact ⟨hs.ok.head_lt, hs.ok.len_le⟩
    · rw [bytesRead_snoc, bytesWritten_snoc, hpipe, pipeDestroy_queued]
      simpa [bytesRead, bytesWritten] using hs.stream
    · rw [hpipe]
      exact hs.writers.trans (by simp)
    · rw [hpipe]
      exact .inr rfl

/-- Every locked section keeps the invariant. -/
lemma inv_step (hist : List Event) (s : Sys) (e : Event) (s' : Sys) (hs : Inv hist s)
    (h : Step s e s') : Inv (hist ++ [e]) s' := by
  cases e with
  | read t hasBuf len out => exact inv_read hs h.2.1
  | write t hasBuf src out => exact inv_write hs h.2.1
  | close reader =>
    cases reader with
    | false => exact inv_close hs h.2.2
    | true => exact inv_close hs h.2.2

lemma inv_run (h : Run Step init hist s) : Inv hist s :=
  h.invariant_history inv_init inv_step

/-! ## The stream theorem -/

/-- **Pipe stream.** After any interleaving, what the writes accepted is what the reads
returned followed by what is still queued; a read reports end of file only on an empty
ring whose write end has been closed, a write a broken pipe only once the read end has. -/
theorem pipe_stream {hist : List Event} {s : Sys} (h : Run Step init hist s) :
    bytesRead hist <+: bytesWritten hist ∧
    bytesWritten hist = bytesRead hist ++ s.pipe.queued ∧
    (∀ t hasBuf len s', Step s (.read t hasBuf len .eof) s' →
      s.pipe.queued = [] ∧ Event.close false ∈ hist) ∧
    (∀ t hasBuf src s', Step s (.write t hasBuf src .brokenPipe) s' →
      Event.close true ∈ hist) := by
  have hinv := inv_run h
  refine ⟨⟨_, hinv.stream.symm⟩, hinv.stream, ?_, ?_⟩
  · intro t hasBuf len s' hstep
    obtain ⟨hlen, hw⟩ := pipeRead_eof hstep.2.1
    refine ⟨?_, hinv.writers.mp hw⟩
    rw [queued, hlen, Ring.contents_zero]
  · intro t hasBuf src s' hstep
    exact hinv.readers.mp (pipeWrite_brokenPipe hstep.2.1)

/-- The theorem on a run that writes three bytes, reads two and closes the write end. -/
theorem pipe_stream_write_read_close :
    bytesRead [.write 1 true [7, 8, 9] (.accepted 3), .read 2 true 2 (.data [7, 8]),
        .close false]
      <+: bytesWritten [.write 1 true [7, 8, 9] (.accepted 3), .read 2 true 2 (.data [7, 8]),
        .close false] := by
  have hw : Step init (.write 1 true [7, 8, 9] (.accepted 3))
      ⟨(pipeWrite pipeMake 1 true [7, 8, 9]).1, false⟩ := ⟨rfl, rfl, rfl⟩
  have hr : Step ⟨(pipeWrite pipeMake 1 true [7, 8, 9]).1, false⟩
      (.read 2 true 2 (.data [7, 8]))
      ⟨(pipeRead (pipeWrite pipeMake 1 true [7, 8, 9]).1 2 true 2).1, false⟩ := ⟨rfl, rfl, rfl⟩
  have hc : Step ⟨(pipeRead (pipeWrite pipeMake 1 true [7, 8, 9]).1 2 true 2).1, false⟩
      (.close false)
      ⟨(pipeDestroy (pipeRead (pipeWrite pipeMake 1 true [7, 8, 9]).1 2 true 2).1 false).1,
        false⟩ := ⟨rfl, rfl, rfl⟩
  exact (pipe_stream (((Run.nil.snoc hw).snoc hr).snoc hc)).1

/-! ## The wait queues -/

/-- A parked reader has nothing to read and may still get something; a parked writer has no
room and may still get some. -/
structure Queues (p : Pipe) : Prop where
  rq : p.rq ≠ [] → p.len = 0 ∧ p.writers ≠ 0 ∧ p.wrDead = false
  wq : p.wq ≠ [] → p.len = PIPE_BUF_CAP ∧ p.readers ≠ 0 ∧ p.rdDead = false

lemma queues_pipeMake : pipeMake.Queues := ⟨fun h => absurd rfl h, fun h => absurd rfl h⟩

/-- A read either moves bytes and wakes the writers, or parks on an empty ring. -/
lemma Queues.read
    (hp : p.Ok) (hq : p.Queues) (h : (p', out) = pipeRead p t hasBuf len) : p'.Queues := by
  unfold pipeRead at h
  split_ifs at h with h0 hne heof
  · rw [(Prod.mk.inj h).1]
    exact hq
  · obtain ⟨head', _, hfst, _⟩ := pipeCopyOut_spec (min p.len len) p (min p.len len) hp
      (min_le_left _ _) le_rfl
    rw [(Prod.mk.inj h).1]
    refine ⟨fun hrq => ?_, fun hwq => absurd rfl hwq⟩
    -- nobody was parked on a ring that holds bytes
    simp only [hfst] at hrq
    exact absurd (hq.rq hrq).1 hne
  · rw [(Prod.mk.inj h).1]
    exact hq
  · rw [(Prod.mk.inj h).1]
    have hopen : p.writers ≠ 0 ∧ p.wrDead = false := by
      rw [not_or, Bool.not_eq_true] at heof
      exact heof
    refine ⟨fun _ => ⟨not_not.mp hne, hopen⟩, fun hwq => ?_⟩
    exact hq.wq hwq

/-- A write either moves bytes and wakes the readers, or parks on a full ring. -/
lemma Queues.write
    {out : WriteOutcome} (hp : p.Ok) (hq : p.Queues)
    (h : (p', out) = pipeWrite p t hasBuf src) : p'.Queues := by
  unfold pipeWrite at h
  split_ifs at h with h0 hbuf hbroken hroom
  · rw [(Prod.mk.inj h).1]
    exact hq
  · rw [(Prod.mk.inj h).1]
    exact hq
  · rw [(Prod.mk.inj h).1]
    exact hq
  · set done := min (PIPE_BUF_CAP - p.len) src.length with hdone
    have hle : done ≤ PIPE_BUF_CAP - p.len ∧ done ≤ src.length := by omega
    have hlen : (src.take done).length = done := List.length_take_of_le hle.2
    obtain ⟨buf', heq, _⟩ := pipeCopyIn_spec done p (src.take done) hp (by omega) (by omega)
    rw [(Prod.mk.inj h).1]
    refine ⟨fun hrq => absurd rfl hrq, fun hwq => ?_⟩
    -- nobody was parked on a ring with room
    have hparked : (pipeCopyIn done p (src.take done)).wq ≠ [] := hwq
    rw [heq] at hparked
    have hfull := (hq.wq hparked).1
    omega
  · rw [(Prod.mk.inj h).1]
    have hopen : p.readers ≠ 0 ∧ p.rdDead = false := by
      rw [not_or, Bool.not_eq_true] at hbroken
      exact hbroken
    have hle := hp.len_le
    refine ⟨fun hrq => hq.rq hrq, fun _ => ⟨?_, hopen⟩⟩
    show p.len = PIPE_BUF_CAP
    omega

/-- A close wakes both queues. -/
lemma Queues.close (p : Pipe) (reader : Bool) : (pipeDestroy p reader).1.Queues :=
  ⟨fun h => absurd rfl h, fun h => absurd rfl h⟩

lemma queues_step {e : Event} (hs : s.pipe.Ok) (hq : s.pipe.Queues)
    (h : Step s e s') : s'.pipe.Queues := by
  cases e with
  | read t hasBuf len out => exact hq.read hs h.2.1
  | write t hasBuf src out => exact hq.write hs h.2.1
  | close reader =>
    cases reader with
    | false =>
      rw [(Prod.mk.inj h.2.2).1]
      exact Queues.close _ _
    | true =>
      rw [(Prod.mk.inj h.2.2).1]
      exact Queues.close _ _

/-- **No lost wakeup on a pipe.** After any interleaving of reads, writes and closes, a task
is parked on the read queue only while the ring is empty and the write end is open, and on
the write queue only while the ring is full and the read end is open; an end is open until it
has been closed. -/
theorem pipe_no_lost_wakeup {hist : List Event} {s : Sys} (h : Run Step init hist s) :
    (∀ t ∈ s.pipe.rq, s.pipe.len = 0 ∧ s.pipe.writers ≠ 0 ∧ s.pipe.wrDead = false ∧
      Event.close false ∉ hist) ∧
    (∀ t ∈ s.pipe.wq, s.pipe.len = PIPE_BUF_CAP ∧ s.pipe.readers ≠ 0 ∧
      s.pipe.rdDead = false ∧ Event.close true ∉ hist) := by
  have hq : Inv hist s ∧ s.pipe.Queues := by
    refine h.invariant_history (I := fun hist s => Inv hist s ∧ s.pipe.Queues) ?_ ?_
    · exact ⟨inv_init, queues_pipeMake⟩
    · intro hist s e s' hs hstep
      exact ⟨inv_step hist s e s' hs.1 hstep, queues_step hs.1.ok hs.2 hstep⟩
  refine ⟨fun t ht => ?_, fun t ht => ?_⟩
  · obtain ⟨hlen, hends, hlatch⟩ := hq.2.rq (List.ne_nil_of_mem ht)
    refine ⟨hlen, hends, hlatch, fun hclosed => ?_⟩
    have hgone := hq.1.writers.mpr hclosed
    simp [hends, hlatch] at hgone
  · obtain ⟨hlen, hends, hlatch⟩ := hq.2.wq (List.ne_nil_of_mem ht)
    refine ⟨hlen, hends, hlatch, fun hclosed => ?_⟩
    have hgone := hq.1.readers.mpr hclosed
    simp [hends, hlatch] at hgone

/-- The theorem on a run in which a reader has parked. -/
theorem pipe_no_lost_wakeup_parked_reader :
    (pipeRead pipeMake 1 true 8).1.len = 0 ∧ (pipeRead pipeMake 1 true 8).1.writers ≠ 0 ∧
      (pipeRead pipeMake 1 true 8).1.wrDead = false ∧
      Event.close false ∉ [Event.read 1 true 8 .parked] := by
  have hr : Step init (.read 1 true 8 .parked) ⟨(pipeRead pipeMake 1 true 8).1, false⟩ :=
    ⟨rfl, rfl, rfl⟩
  have hmem : 1 ∈ (pipeRead pipeMake 1 true 8).1.rq := by decide
  exact (pipe_no_lost_wakeup (Run.single hr)).1 1 hmem

end MobilePhoneOs.Ipc.Pipe
