import MobilePhoneOs.Lib.Run

/-!
# Bounded queues that drop

A queue of at most `cap` elements. What arrives at a full queue is dropped; what is taken is
the oldest element. Over a run, the elements put are those taken and those still queued, in
the order in which they were put.
-/

namespace MobilePhoneOs.Fifo

variable {α : Type*}

inductive Event (α : Type*)
  | put (a : α)
  | drop (a : α)
  | take (a : α)

/-- A step of a queue that has room for `cap` elements. -/
def Step (cap : ℕ) (q : List α) : Event α → List α → Prop
  | .put a, q' => q.length < cap ∧ q' = q ++ [a]
  | .drop _, q' => cap ≤ q.length ∧ q' = q
  | .take a, q' => q = a :: q'

/-- The elements that were queued. -/
def puts (es : List (Event α)) : List α :=
  es.filterMap fun e => match e with
    | .put a => some a
    | _ => none

/-- The elements that were taken. -/
def takes (es : List (Event α)) : List α :=
  es.filterMap fun e => match e with
    | .take a => some a
    | _ => none

lemma puts_snoc (es : List (Event α)) (e : Event α) : puts (es ++ [e]) = puts es ++ puts [e] :=
  List.filterMap_append

lemma takes_snoc (es : List (Event α)) (e : Event α) : takes (es ++ [e]) = takes es ++ takes [e] :=
  List.filterMap_append

section

variable {cap : ℕ} {es : List (Event α)} {q : List α} (hrun : Run (Step cap) [] es q)
include hrun

/-- Nothing is taken twice or out of order, and nothing queued is lost. -/
lemma puts_eq :
    puts es = takes es ++ q := by
  induction hrun with
  | nil => rfl
  | @snoc es e q q' _ hstep ih =>
    rw [puts_snoc, takes_snoc, ih]
    cases e with
    | put a =>
      rw [hstep.2]
      simp [puts, takes]
    | drop a =>
      rw [hstep.2]
      simp [puts, takes]
    | take a =>
      rw [show q = a :: q' from hstep]
      simp [puts, takes]

lemma length_le :
    q.length ≤ es.length := by
  induction hrun with
  | nil => exact Nat.le_refl _
  | @snoc es e q q' _ hstep ih =>
    rw [List.length_append, List.length_singleton]
    cases e with
    | put a =>
      rw [hstep.2, List.length_append, List.length_singleton]
      omega
    | drop a =>
      rw [hstep.2]
      omega
    | take a =>
      rw [show q = a :: q' from hstep, List.length_cons] at ih
      omega

/-- Nothing is dropped as long as there were no more events than there is room. -/
lemma not_drop (hlen : es.length ≤ cap) (a : α) : Event.drop a ∉ es := by
  induction hrun with
  | nil => simp
  | @snoc es e q q' hrun' hstep ih =>
    rw [List.length_append, List.length_singleton] at hlen
    intro hmem
    rcases List.mem_append.mp hmem with hold | hnew
    · exact ih (by omega) hold
    · rw [← List.mem_singleton.mp hnew] at hstep
      have hq := length_le hrun'
      have hfull : cap ≤ q.length := hstep.1
      omega

end

end MobilePhoneOs.Fifo
