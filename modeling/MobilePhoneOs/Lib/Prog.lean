import Mathlib.Algebra.GroupWithZero.Nat
import Mathlib.Tactic.Common

/-!
# Programs that may fail

A `Prog ε σ α` changes a state and then answers or fails; what it did before a failure stays
done. `wp x Q E s` says that `x`, started in `s`, ends with `Q` when it answers and with `E`
when it fails.
-/

namespace MobilePhoneOs

/-- A program over the state `σ`. -/
def Prog (ε σ α : Type) : Type := σ → Except ε α × σ

namespace Prog

variable {ε σ τ α β : Type}

def fail (e : ε) : Prog ε σ α := fun s => (.error e, s)

/-- Goes on with `f` after an answer and with `h` after a failure. -/
def tryBind (x : Prog ε σ α) (f : α → Prog ε σ β) (h : ε → Prog ε σ β) : Prog ε σ β := fun s =>
  match x s with
  | (.ok a, s) => f a s
  | (.error e, s) => h e s

instance : Monad (Prog ε σ) where
  pure a := fun s => (.ok a, s)
  bind x f := tryBind x f fail

def gets (f : σ → α) : Prog ε σ α := fun s => (.ok (f s), s)

def modify (f : σ → σ) : Prog ε σ Unit := fun s => (.ok (), f s)

/-- `body` for `0`, `1`, ..., `n - 1`. -/
def forN (n : ℕ) (body : ℕ → Prog ε σ Unit) : Prog ε σ Unit :=
  match n with
  | 0 => pure ()
  | n + 1 => do
    forN n body
    body n

/-- A program on a part of the state. -/
def zoom (get : τ → σ) (set : σ → τ → τ) (x : Prog ε σ α) : Prog ε τ α := fun t =>
  match x (get t) with
  | (r, s) => (r, set s t)

/-- What holds after `x`, by the way it ends. -/
def wp (x : Prog ε σ α) (Q : α → σ → Prop) (E : ε → σ → Prop) (s : σ) : Prop :=
  match x s with
  | (.ok a, s) => Q a s
  | (.error e, s) => E e s

variable {Q Q' : α → σ → Prop} {E E' : ε → σ → Prop} {s : σ}

variable {a : α}

@[simp] lemma wp_pure : wp (pure a : Prog ε σ α) Q E s ↔ Q a s := Iff.rfl

@[simp] lemma wp_fail {e : ε} : wp (fail e : Prog ε σ α) Q E s ↔ E e s := Iff.rfl

@[simp] lemma wp_gets {f : σ → α} : wp (gets f : Prog ε σ α) Q E s ↔ Q (f s) s := Iff.rfl

@[simp] lemma wp_modify {f : σ → σ} {Q : Unit → σ → Prop} :
    wp (modify f : Prog ε σ Unit) Q E s ↔ Q () (f s) := Iff.rfl

variable {x : Prog ε σ α}

variable {f : α → Prog ε σ β}

lemma wp_tryBind {h : ε → Prog ε σ β} {Q : β → σ → Prop} :
    wp (tryBind x f h) Q E s ↔ wp x (fun a => wp (f a) Q E) (fun e => wp (h e) Q E) s := by
  unfold wp tryBind
  rcases x s with ⟨_ | _, _⟩ <;> exact Iff.rfl

lemma wp_bind {Q : β → σ → Prop} :
    wp (x >>= f) Q E s ↔ wp x (fun a => wp (f a) Q E) E s :=
  wp_tryBind

lemma wp_zoom {get : τ → σ} {set : σ → τ → τ} {Q : α → τ → Prop}
    {E : ε → τ → Prop} {t : τ} :
    wp (zoom get set x) Q E t ↔
      wp x (fun a s => Q a (set s t)) (fun e s => E e (set s t)) (get t) := by
  unfold wp zoom
  rcases x (get t) with ⟨_ | _, _⟩ <;> exact Iff.rfl

/-- Weakening what is known at the end. -/
lemma wp.mono (h : wp x Q E s) (hQ : ∀ a s, Q a s → Q' a s)
    (hE : ∀ e s, E e s → E' e s) : wp x Q' E' s := by
  unfold wp at *
  rcases hx : x s with ⟨e | a, s'⟩
  · rw [hx] at h
    exact hE _ _ h
  · rw [hx] at h
    exact hQ _ _ h

/-- Two things that are known of one run. -/
lemma wp.and (h : wp x Q E s) (h' : wp x Q' E' s) :
    wp x (fun a s => Q a s ∧ Q' a s) (fun e s => E e s ∧ E' e s) s := by
  unfold wp at *
  rcases hx : x s with ⟨e | a, s'⟩ <;> rw [hx] at h h'
  · exact ⟨h, h'⟩
  · exact ⟨h, h'⟩

/-- The rule of sequence. -/
lemma wp.bind {R : β → σ → Prop} (h : wp x Q E s)
    (hf : ∀ a s, Q a s → wp (f a) R E' s) (hE : ∀ e s, E e s → E' e s) :
    wp (x >>= f) R E' s :=
  wp_bind.mpr (h.mono hf hE)

section

variable {I : ℕ → σ → Prop} {n : ℕ} {body : ℕ → Prog ε σ Unit} (h0 : I 0 s)
  (hbody : ∀ k < n, ∀ s, I k s → wp (body k) (fun _ => I (k + 1)) E s)
include h0 hbody

/-- The rule of the loop: `I k` holds before round `k`. -/
lemma wp_forN :
    wp (forN n body) (fun _ => I n) E s := by
  induction n with
  | zero => exact h0
  | succ n ih =>
    have hrest := ih fun k hk => hbody k (by omega)
    exact hrest.bind (fun _ s hs => hbody n (by omega) s hs) fun _ _ he => he

/-- The rule of a loop over `0`, `1`, ..., `n - 1`. -/
lemma wp_forM_range :
    wp ((List.range n).forM body) (fun _ => I n) E s := by
  have hrest : ∀ m k s, k + m = n → I k s → wp ((List.range' k m).forM body) (fun _ => I n) E s := by
    intro m
    induction m with
    | zero =>
      intro k s hk hs
      obtain rfl : k = n := hk
      exact hs
    | succ m ih =>
      intro k s hk hs
      exact (hbody k (by omega) s hs).bind (fun _ s' hs' => ih (k + 1) s' (by omega) hs')
        fun _ _ he => he
  rw [List.range_eq_range']
  exact hrest n 0 s (Nat.zero_add n) h0

end

/-- What is known of an answer. -/
lemma wp.ok (h : wp x Q E s) {s' : σ} (hx : x s = (.ok a, s')) :
    Q a s' := by
  unfold wp at h
  rwa [hx] at h

/-- What is known of a run, from how it ends. -/
lemma wp_of_run (hQ : ∀ a s', x s = (.ok a, s') → Q a s')
    (hE : ∀ e s', x s = (.error e, s') → E e s') : wp x Q E s := by
  unfold wp
  split
  · exact hQ _ _ ‹_›
  · exact hE _ _ ‹_›

/-- A program that cannot fail answers. -/
lemma wp.answers (h : wp x Q (fun _ _ => False) s) :
    ∃ a s', x s = (.ok a, s') ∧ Q a s' := by
  unfold wp at h
  rcases hx : x s with ⟨_ | a, s'⟩
  · rw [hx] at h
    exact h.elim
  · rw [hx] at h
    exact ⟨a, s', rfl, h⟩

/-- An answer, from its value. -/
lemma ok_of_toOption {x : Except ε α × σ} (h : x.1.toOption = some a) :
    x = (.ok a, x.2) := by
  obtain ⟨r, s⟩ := x
  cases r with
  | error e => simp [Except.toOption] at h
  | ok b =>
    have hb : b = a := by simpa [Except.toOption] using h
    rw [hb]

end Prog
end MobilePhoneOs
