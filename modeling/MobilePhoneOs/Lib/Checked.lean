import MobilePhoneOs.Lib.Prog

/-!
# Programs that index arrays

A program that is checked stops at the first access outside an array (`oob`), and when a loop
has run out of fuel (`spin`). Every other failure is one of the program's own.
-/

namespace MobilePhoneOs

/-- How a checked program fails. -/
inductive Stop (ε : Type)
  | err (e : ε)
  | oob
  | spin

/-- An access to `len` elements of an array of `size` elements. -/
structure Access where
  size : ℕ
  index : ℕ
  len : ℕ

/-- A copy of nothing is inside wherever it starts. -/
def Access.Inside (a : Access) : Prop := a.len = 0 ∨ a.index + a.len ≤ a.size

instance (a : Access) : Decidable a.Inside := inferInstanceAs (Decidable (_ ∨ _))

/-- Accesses that are made one after the other. -/
def access {ε : Type} (l : List Access) : Except (Stop ε) Unit :=
  if ∀ a ∈ l, a.Inside then .ok () else .error .oob

namespace Prog

variable {ε σ α β : Type}

/-- A computation that leaves the state alone. -/
def ofExcept (r : Except ε α) : Prog ε σ α := fun s => (r, s)

/-- A program that makes no access of its own. -/
def lift (x : Prog ε σ α) : Prog (Stop ε) σ α := fun s =>
  match x s with
  | (.ok a, s) => (.ok a, s)
  | (.error e, s) => (.error (.err e), s)

/-- A failure of the program itself is answered with `a`. -/
def rescue (x : Prog (Stop ε) σ α) (a : α) : Prog (Stop ε) σ α := fun s =>
  match x s with
  | (.error (.err _), s) => (.ok a, s)
  | r => r

/-- The program leaves an array. -/
def Oob (x : Prog (Stop ε) σ α) (s : σ) : Prop := ∃ s', x s = (.error .oob, s')

/-- Whether a run has left an array. -/
def leftArray (r : Except (Stop ε) α × σ) : Bool :=
  match r.1 with
  | .error .oob => true
  | _ => false

/-- A loop of the program does not end. -/
def Spins (x : Prog (Stop ε) σ α) (s : σ) : Prop := ∃ s', x s = (.error .spin, s')

/-- The failures of the program itself. -/
def Orderly (e : Stop ε) : Prop := ∃ e', e = .err e'

variable {s : σ} {Q : α → σ → Prop} {E : Stop ε → σ → Prop}

variable {a : α}

@[simp] lemma wp_ofExcept_ok {E : ε → σ → Prop} :
    wp (ofExcept (.ok a) : Prog ε σ α) Q E s ↔ Q a s := Iff.rfl

@[simp] lemma wp_ofExcept_error {E : ε → σ → Prop} {e : ε} :
    wp (ofExcept (.error e) : Prog ε σ α) Q E s ↔ E e s := Iff.rfl

lemma wp_lift {x : Prog ε σ α} : wp (lift x) Q E s ↔ wp x Q (fun e => E (.err e)) s := by
  unfold wp lift
  rcases x s with ⟨_ | _, _⟩ <;> exact Iff.rfl

variable {x : Prog (Stop ε) σ α}

lemma wp_rescue (h : wp x Q
    (fun e s => (∃ e', e = .err e' ∧ Q a s) ∨ (∀ e', e ≠ .err e') ∧ E e s) s) :
    wp (rescue x a) Q E s := by
  unfold wp rescue at *
  rcases hx : x s with ⟨e | b, s'⟩
  · rw [hx] at h
    rcases h with ⟨e', rfl, hQ⟩ | ⟨hne, hE⟩
    · exact hQ
    · cases e with
      | err e' => exact absurd rfl (hne e')
      | oob => exact hE
      | spin => exact hE
  · rw [hx] at h
    exact h

lemma Oob.rescue (h : Oob x s) (a : α) : Oob (rescue x a) s := by
  obtain ⟨s', hs⟩ := h
  refine ⟨s', ?_⟩
  unfold Prog.rescue
  rw [hs]

lemma wp.not_oob (h : wp x Q E s) (hE : ∀ s', ¬ E .oob s') :
    ¬ Oob x s := by
  rintro ⟨s', hs⟩
  unfold wp at h
  rw [hs] at h
  exact hE s' h

lemma wp.not_spins (h : wp x Q E s) (hE : ∀ s', ¬ E .spin s') :
    ¬ Spins x s := by
  rintro ⟨s', hs⟩
  unfold wp at h
  rw [hs] at h
  exact hE s' h

lemma oob_of_leftArray (h : leftArray (x s) = true) : Oob x s := by
  unfold leftArray at h
  split at h
  · exact ⟨(x s).2, Prod.ext ‹_› rfl⟩
  · cases h

/-- What leaves an array does so whatever follows. -/
lemma Oob.bind (h : Oob x s) (f : α → Prog (Stop ε) σ β) :
    Oob (x >>= f) s := by
  obtain ⟨s', hs⟩ := h
  refine ⟨s', ?_⟩
  show tryBind x f fail s = _
  rw [tryBind, hs]
  rfl

variable {s' : σ}

/-- A program goes on behind an answer. -/
lemma bind_ok {x : Prog ε σ α} {f : α → Prog ε σ β} (h : x s = (.ok a, s')) :
    (x >>= f) s = f a s' := by
  show tryBind x f fail s = _
  rw [tryBind, h]

lemma bind_error {x : Prog ε σ α} {f : α → Prog ε σ β} {e : ε}
    (h : x s = (.error e, s')) : (x >>= f) s = (.error e, s') := by
  show tryBind x f fail s = _
  rw [tryBind, h]
  rfl

lemma lift_ok {x : Prog ε σ α} (h : x s = (.ok a, s')) :
    lift x s = (.ok a, s') := by rw [lift, h]

end Prog
end MobilePhoneOs
