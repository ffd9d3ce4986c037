import MobilePhoneOs.Lib.Fifo
import MobilePhoneOs.Lib.Ring

/-!
# The deferred work queue (`kernel/tasklet.c`)

Both ends of the ring move with interrupts masked, so on one cpu calls from any context are steps
of one state. There is no lock against another cpu.
-/

namespace MobilePhoneOs.Tasklet

open Fifo (Event puts puts_snoc takes takes_snoc)

def TASKLET_QUEUE : ℕ := 256

/-- `struct work_item` -/
structure Work where
  fn : ℕ
  arg : ℕ

/-- The ring and `struct tasklet_stats`. -/
structure Queue where
  ring : ℕ → Work
  head : ℕ
  tail : ℕ
  queued : UInt64
  ran : UInt64
  dropped : UInt64
  peak_depth : ℕ

def tasklet_schedule (q : Queue) (w : Work) : Queue :=
  let next := (q.tail + 1) % TASKLET_QUEUE
  if w.fn = 0 then q
  else if next = q.head then { q with dropped := q.dropped + 1 }
  else
    let depth := (next + 2 ^ 32 - q.head) % 2 ^ 32 % TASKLET_QUEUE
    { q with
      ring := Function.update q.ring q.tail w
      tail := next
      queued := q.queued + 1
      peak_depth := if depth > q.peak_depth then depth else q.peak_depth }

/-- `pop`, and the count that `tasklet_drain` keeps of what it got. -/
def pop (q : Queue) : Queue × Option Work :=
  if q.head ≠ q.tail then
    ({ q with head := (q.head + 1) % TASKLET_QUEUE, ran := q.ran + 1 }, some (q.ring q.head))
  else (q, none)

inductive Act
  | schedule (w : Work)
  | drain

/-- A call, with what becomes of a work item. -/
def Queue.apply (q : Queue) : Act → Queue × List (Event Work)
  | .schedule w => (tasklet_schedule q w,
      if (tasklet_schedule q w).tail ≠ q.tail then [.put w]
      else if w.fn = 0 then [] else [.drop w])
  | .drain => ((pop q).1, ((pop q).2.map .take).toList)

/-- Calls one after the other. -/
def history (s : Queue × List (Event Work)) (acts : List Act) : Queue × List (Event Work) :=
  acts.foldl (fun s a => ((s.1.apply a).1, s.2 ++ (s.1.apply a).2)) s

/-- The ring stands for the items that wait. -/
structure Stands (q : Queue) (es : List (Event Work)) (items : List Work) : Prop where
  run : Run (Fifo.Step (TASKLET_QUEUE - 1)) [] es items
  ring : Ring.contents TASKLET_QUEUE q.ring q.head items.length = items
  head : q.head < TASKLET_QUEUE
  tail : q.tail = (q.head + items.length) % TASKLET_QUEUE
  room : items.length < TASKLET_QUEUE
  queued : q.queued = UInt64.ofNat (puts es).length
  ran : q.ran = UInt64.ofNat (takes es).length
  peak : items.length ≤ q.peak_depth

variable {q : Queue} {es : List (Event Work)} {items : List Work}

/-- The ring holds what was taken in and has not run yet. -/
lemma Stands.apply (h : Stands q es items) (a : Act) :
    ∃ items', Stands (q.apply a).1 (es ++ (q.apply a).2) items' := by
  obtain ⟨hrun, hring, hhead, htail, hroom, hqueued, hran, hpeak⟩ := id h
  simp only [TASKLET_QUEUE] at *
  cases a with
  | schedule w =>
    simp only [Queue.apply, tasklet_schedule, TASKLET_QUEUE]
    by_cases hfn : w.fn = 0
    · exact ⟨items, by simpa [hfn] using h⟩
    by_cases hfull : (q.tail + 1) % 256 = q.head
    · have hlen : 255 ≤ items.length := by omega
      simp only [hfn, hfull, if_false, if_true, ne_eq, not_true_eq_false]
      exact ⟨items, hrun.snoc ⟨hlen, rfl⟩, hring, hhead, htail, hroom,
        by simpa [puts_snoc, puts] using hqueued, by simpa [takes_snoc, takes] using hran, hpeak⟩
    · have hpush := Ring.contents_push q.ring q.head hroom w
      rw [hring, ← htail] at hpush
      have hmoved : (q.tail + 1) % 256 ≠ q.tail := by omega
      have hdepth : ((q.tail + 1) % 256 + 2 ^ 32 - q.head) % 2 ^ 32 % 256 = items.length + 1 := by
        omega
      simp only [hfn, hfull, hmoved, hdepth, if_false, if_true, ne_eq, not_false_eq_true]
      refine ⟨items ++ [w], hrun.snoc ⟨by omega, rfl⟩, by simpa [TASKLET_QUEUE] using hpush, hhead,
        ?_, ?_, by simp [puts, hqueued], by simpa [takes_snoc, takes] using hran, ?_⟩
      all_goals simp only [TASKLET_QUEUE, List.length_append, List.length_singleton]
      all_goals first | omega | split_ifs <;> omega
  | drain =>
    simp only [Queue.apply, pop, TASKLET_QUEUE]
    cases items with
    | nil =>
      have hempty : q.tail = q.head := htail.trans (Nat.mod_eq_of_lt hhead)
      exact ⟨[], by simpa [hempty] using h⟩
    | cons w items =>
      rw [List.length_cons] at *
      have hpop := hring
      rw [Nat.add_comm, Ring.contents_add, ← Ring.contents_mod_head _ _ (q.head + 1)] at hpop
      obtain ⟨hw, hrest⟩ := List.cons.inj hpop
      simp only [Nat.add_zero, Nat.mod_eq_of_lt hhead] at hw
      have hne : q.head ≠ q.tail := by omega
      simp only [hne, ne_eq, not_false_eq_true, if_true, hw]
      refine ⟨items, hrun.snoc rfl, hrest, ?_, ?_, ?_, by simpa [puts_snoc, puts] using hqueued,
        by simp [takes, hran], ?_⟩
      all_goals simp only [TASKLET_QUEUE]
      all_goals omega

/-- Work items run in the order in which they were scheduled, each once. One is dropped only when
255 wait. -/
theorem tasklet_fifo (ring : ℕ → Work) (acts : List Act) :
    let s := history (⟨ring, 0, 0, 0, 0, 0, 0⟩, []) acts
    ∃ items, Run (Fifo.Step (TASKLET_QUEUE - 1)) [] s.2 items ∧ puts s.2 = takes s.2 ++ items ∧
      s.1.queued = UInt64.ofNat (puts s.2).length ∧ s.1.ran = UInt64.ofNat (takes s.2).length ∧
      items.length ≤ s.1.peak_depth := by
  have hrun : ∀ s, (∃ items, Stands s.1 s.2 items) →
      ∃ items, Stands (history s acts).1 (history s acts).2 items := by
    induction acts with
    | nil => exact fun _ h => h
    | cons a acts ih => exact fun s ⟨_, h⟩ => ih _ (h.apply a)
  obtain ⟨items, h⟩ := hrun (⟨ring, 0, 0, 0, 0, 0, 0⟩, []) ⟨[], .nil, rfl, Nat.zero_lt_succ _, rfl,
    Nat.zero_lt_succ _, rfl, rfl, Nat.le_refl 0⟩
  exact ⟨items, h.run, Fifo.puts_eq h.run, h.queued, h.ran, h.peak⟩

end MobilePhoneOs.Tasklet
