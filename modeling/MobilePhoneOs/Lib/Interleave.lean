import MobilePhoneOs.Lib.Run

/-!
# Calls that overlap

A call is a sequence of accesses to a shared state, each of which may depend on what the ones
before it have read. Calls under way make their accesses in any order, one at a time. While a
call begins only when no other is under way, the answers are those of calls that are one step
each.
-/

namespace MobilePhoneOs

/-- What a call has still to do. -/
inductive Code (σ β : Type*) where
  | done (answer : β)
  /-- one access, and what follows it, by the state that it has found -/
  | access (write : σ → σ) (next : σ → Code σ β)

namespace Code

variable {σ τ β γ : Type*}

/-- An access that only reads. -/
def read (next : σ → Code σ β) : Code σ β := access id next

/-- An access that only writes. -/
def write (w : σ → σ) (c : Code σ β) : Code σ β := access w fun _ => c

/-- The next access. -/
def advance : Code σ β → σ → Code σ β × σ
  | done b, s => (done b, s)
  | access w k, s => (k s, w s)

/-- The answer, when nothing else is left. -/
def answer? : Code σ β → Option β
  | done b => some b
  | access _ _ => none

/-- All accesses, with none of another call between them. -/
def run : Code σ β → σ → β × σ
  | done b, s => (b, s)
  | access w k, s => (k s).run (w s)

/-- One after the other. -/
def bind : Code σ β → (β → Code σ γ) → Code σ γ
  | done b, f => f b
  | access w k, f => access w fun s => (k s).bind f

/-- The accesses to a part of the state. -/
def zoom (get : τ → σ) (set : σ → τ → τ) : Code σ β → Code τ β
  | done b => done b
  | access w k => access (fun t => set (w (get t)) t) fun t => (k (get t)).zoom get set

variable {s : σ}

@[simp] lemma run_done (b : β) : (done b).run s = (b, s) := rfl

@[simp] lemma run_read {k : σ → Code σ β} : (read k).run s = (k s).run s := rfl

@[simp] lemma run_write {w : σ → σ} {c : Code σ β} : (write w c).run s = c.run (w s) := rfl

lemma run_advance (c : Code σ β) : (c.advance s).1.run (c.advance s).2 = c.run s := by
  cases c with
  | done => rfl
  | access => rfl

@[simp] lemma run_bind (c : Code σ β) (f : β → Code σ γ) :
    (c.bind f).run s = (f (c.run s).1).run (c.run s).2 := by
  induction c generalizing s with
  | done b => rfl
  | access w k ih => exact ih s

/-- What a call does to a part of the state, where `get` and `set` are a part. -/
lemma run_zoom {get : τ → σ} {set : σ → τ → τ} (hget : ∀ s t, get (set s t) = s)
    (hset : ∀ s s' t, set s (set s' t) = set s t) (hself : ∀ t, set (get t) t = t)
    (c : Code σ β) (t : τ) :
    (c.zoom get set).run t = ((c.run (get t)).1, set (c.run (get t)).2 t) := by
  induction c generalizing t with
  | done b => simp [zoom, hself]
  | access w k ih =>
    show ((k (get t)).zoom get set).run (set (w (get t)) t) = _
    rw [ih, hget, hset]
    rfl

end Code

/-- A shared state and the calls under way. -/
structure Calls (σ α β : Type*) where
  shared : σ
  running : List (α × Code σ β)

namespace Calls

variable {σ α β : Type*}

inductive Label (α β : Type*)
  /-- a call is made, with its first access -/
  | begin (a : α)
  /-- the next access of the call in place `i` -/
  | access (i : ℕ)
  /-- the call in place `i` answers -/
  | answer (i : ℕ) (a : α) (b : β)

/-- What was answered, in order. -/
def answers (labels : List (Label α β)) : List (α × β) :=
  labels.filterMap fun
    | .answer _ a b => some (a, b)
    | _ => none

lemma answers_snoc (labels : List (Label α β)) (l : Label α β) :
    answers (labels ++ [l]) = answers labels ++ answers [l] :=
  List.filterMap_append

variable (code : α → Code σ β) (pre : σ → List α → α → Prop)

/-- A call is made where `pre` holds of the state, the calls under way and the call. -/
def Enabled (p : Calls σ α β) : Label α β → Prop
  | .begin a => pre p.shared (p.running.map Prod.fst) a
  | .access i => i < p.running.length
  | .answer i a b => (p.running[i]?.bind fun x => x.2.answer?.map (x.1, ·)) = some (a, b)

instance [DecidableEq α] [DecidableEq β] [∀ s as a, Decidable (pre s as a)]
    (p : Calls σ α β) : ∀ l, Decidable (p.Enabled pre l)
  | .begin _ => inferInstanceAs (Decidable (pre _ _ _))
  | .access _ => inferInstanceAs (Decidable (_ < _))
  | .answer _ _ _ => inferInstanceAs (Decidable (_ = some _))

def act (p : Calls σ α β) : Label α β → Calls σ α β
  | .begin a =>
    let r := (code a).advance p.shared
    ⟨r.2, (a, r.1) :: p.running⟩
  | .access i =>
    match p.running[i]? with
    | some (a, c) =>
      let r := c.advance p.shared
      ⟨r.2, p.running.set i (a, r.1)⟩
    | none => p
  | .answer i _ _ => ⟨p.shared, p.running.eraseIdx i⟩

def Step (p : Calls σ α β) (l : Label α β) (p' : Calls σ α β) : Prop :=
  p.Enabled pre l ∧ p' = p.act code l

/-- A call as one step. -/
def Whole (s : σ) (x : α × β) (t : σ) : Prop := pre s [] x.1 ∧ (code x.1).run s = (x.2, t)

variable {code pre} in
lemma Whole.of_answer {s : σ} {a : α} {b : β} (hpre : pre s [] a) (h : ((code a).run s).1 = b) :
    Whole code pre s (a, b) ((code a).run s).2 := ⟨hpre, Prod.ext h rfl⟩

/-- A call is made only while no other is under way, and where `ok` holds. -/
def Serial (ok : σ → α → Prop) (p : Calls σ α β) : Label α β → Prop
  | .begin a => p.running = [] ∧ ok p.shared a
  | _ => True

instance (ok : σ → α → Prop) [∀ s a, Decidable (ok s a)] (p : Calls σ α β) :
    ∀ l, Decidable (p.Serial ok l)
  | .begin a => decidable_of_iff (p.running.length = 0 ∧ ok p.shared a) (by simp [Serial])
  | .access _ | .answer _ _ _ => inferInstanceAs (Decidable True)

variable {code pre} {ok : σ → α → Prop} {s t : σ} {p : Calls σ α β}

/-- What is left of the one call under way, if there is one, leads from the state as it is to
where the whole call leads from `t`. -/
def Rest (code : α → Code σ β) (pre : σ → List α → α → Prop) (ok : σ → α → Prop) (t : σ)
    (p : Calls σ α β) : Prop :=
  (p.running = [] ∧ p.shared = t) ∨
    ∃ a c, p.running = [(a, c)] ∧ pre t [] a ∧ ok t a ∧ c.run p.shared = (code a).run t

lemma Rest.idle (h : Rest code pre ok t p) (hnone : p.running = []) : p.shared = t := by
  obtain ⟨-, hs⟩ | ⟨a, c, hone, -⟩ := h
  · exact hs
  · exact absurd (hnone.symm.trans hone) (by simp)

/-- The calls of a serial run are one step each. -/
lemma whole_of_serial {labels : List (Label α β)}
    (hrun : Run (Guarded (Serial ok) (Step code pre)) ⟨s, []⟩ labels p) :
    ∃ t, Run (Guarded (fun s x => ok s x.1) (Whole code pre)) s (answers labels) t ∧
      Rest code pre ok t p := by
  induction hrun with
  | nil => exact ⟨s, .nil, .inl ⟨rfl, rfl⟩⟩
  | @snoc labels l q _ hrun hstep ih =>
    obtain ⟨t, hwhole, hrest⟩ := ih
    obtain ⟨hserial, hen, rfl⟩ := hstep
    rw [answers_snoc]
    cases l with
    | begin a =>
      obtain ⟨hidle, hok⟩ := hserial
      obtain rfl := hrest.idle hidle
      have hpre : pre q.shared [] a := by simpa [Enabled, hidle] using hen
      refine ⟨q.shared, by simpa [answers] using hwhole,
        .inr ⟨a, ((code a).advance q.shared).1, ?_, hpre, hok, ?_⟩⟩
      · simp [act, hidle]
      · exact Code.run_advance _
    | access i =>
      obtain ⟨hnone, -⟩ | ⟨a, c, hone, hpre, hok, hc⟩ := hrest
      · simp [Enabled, hnone] at hen
      · obtain rfl : i = 0 := by simpa [Enabled, hone] using hen
        refine ⟨t, by simpa [answers] using hwhole, .inr ⟨a, (c.advance q.shared).1, ?_, hpre, hok, ?_⟩⟩
        · simp [act, hone]
        · simpa [act, hone, Code.run_advance] using hc
    | answer i a b =>
      obtain ⟨hnone, -⟩ | ⟨a', c, hone, hpre, hok, hc⟩ := hrest
      · simp [Enabled, hnone] at hen
      · obtain ⟨rfl, rfl, rfl⟩ : i = 0 ∧ a' = a ∧ c = .done b := by
          cases i with
          | zero => cases c <;> simp_all [Enabled, Code.answer?]
          | succ i => simp [Enabled, hone] at hen
        refine ⟨q.shared, ?_, .inl ⟨by simp [act, hone], rfl⟩⟩
        exact hwhole.snoc ⟨hok, hpre, hc.symm⟩

/-- The accesses that are left, one after another. -/
lemma accesses (a : α) (c : Code σ β) {labels : List (Label α β)} {p₀ : Calls σ α β}
    (hrun : Run (Guarded (Serial ok) (Step code pre)) p₀ labels ⟨s, [(a, c)]⟩) :
    ∃ labels', answers labels' = answers labels ∧
      Run (Guarded (Serial ok) (Step code pre)) p₀ labels'
        ⟨(c.run s).2, [(a, .done (c.run s).1)]⟩ := by
  induction c generalizing s labels with
  | done b => exact ⟨labels, rfl, hrun⟩
  | access w k ih =>
    have hnext : Step code pre ⟨s, [(a, .access w k)]⟩ (.access 0) ⟨w s, [(a, k s)]⟩ :=
      ⟨Nat.one_pos, rfl⟩
    obtain ⟨labels', hans, hrun'⟩ := ih s (hrun.guarded hnext trivial)
    refine ⟨labels', hans.trans ?_, hrun'⟩
    rw [answers_snoc]
    exact List.append_nil _

/-- Calls that are one step each are a serial run. -/
lemma serial_of_whole (ok : σ → α → Prop) {xs : List (α × β)}
    (hrun : Run (Guarded (fun s x => ok s x.1) (Whole code pre)) s xs t) :
    ∃ labels, answers labels = xs ∧
      Run (Guarded (Serial ok) (Step code pre)) ⟨s, []⟩ labels ⟨t, []⟩ := by
  induction hrun with
  | nil => exact ⟨[], rfl, .nil⟩
  | @snoc xs x t u _ hstep ih =>
    obtain ⟨labels, rfl, hrun⟩ := ih
    obtain ⟨hok, hpre, hcode⟩ := hstep
    have hbegin : Step code pre ⟨t, []⟩ (.begin x.1)
        ⟨((code x.1).advance t).2, [(x.1, ((code x.1).advance t).1)]⟩ := ⟨hpre, rfl⟩
    obtain ⟨labels', hans, hrun'⟩ := accesses x.1 _ (hrun.guarded hbegin ⟨rfl, hok⟩)
    rw [Code.run_advance, hcode] at hrun'
    have hanswer : Step code pre ⟨u, [(x.1, .done x.2)]⟩ (.answer 0 x.1 x.2) ⟨u, []⟩ := ⟨rfl, rfl⟩
    have hok' : Serial ok ⟨u, [(x.1, .done x.2)]⟩ (.answer 0 x.1 x.2) := trivial
    refine ⟨labels' ++ [.answer 0 x.1 x.2], ?_, hrun'.guarded hanswer hok'⟩
    rw [answers_snoc, hans, answers_snoc]
    show answers labels ++ [] ++ [x] = _
    rw [List.append_nil]

end Calls
end MobilePhoneOs
