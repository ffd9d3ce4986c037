import MobilePhoneOs.Userspace.Compositor

/-!
# Windows and connections

The tables `wins` and `clients` of the compositor refer to each other: a client has the index of
its window, a window the descriptor of its connection. The descriptors come from the kernel, and
an open one is not handed out again.
-/

namespace MobilePhoneOs.Ui

/-- A new connection gets a descriptor that no connection has. -/
def Compositor.Fresh (s : Compositor) : Event → Prop
  | .accept fd _ => ∀ c, (s.clients c).used = true → (s.clients c).fd ≠ fd
  | _ => True

/-- A section; the descriptors of connections are fresh. -/
def ConnStep (s : Compositor) (a : Event × List Out) (t : Compositor) : Prop :=
  Step s a t ∧ s.Fresh a.1

/-- The descriptor that a message is sent on. -/
def Out.dest : Out → Option ℤ
  | .send fd _ _ _ _ _ => some fd
  | _ => none

/-! ## The law -/

/-- The window belongs to the client. -/
def Owns (s : Compositor) (c : Fin MAX_CLIENTS) (i : WinIdx) : Prop :=
  (s.clients c).used = true ∧ (s.clients c).win = some i ∧ (s.clients c).fd = (s.wins i).fd

/-- The tables agree. -/
structure Owned (s : Compositor) : Prop where
  owner : ∀ i, (s.wins i).used = true → ∃! c, Owns s c i
  single : ∀ c, (s.clients c).used = true → ∀ i j, (s.wins i).used = true →
    (s.wins j).used = true → (s.wins i).fd = (s.clients c).fd →
    (s.wins j).fd = (s.clients c).fd → i = j
  focus : ∀ i, s.focused = some i → (s.wins i).used = true
  app : s.mode = .app → ∃ i, s.focused = some i ∧ (s.wins i).visible = true

/-- What a section should keep to: the tables agree after it, messages go to connections that
are open, and a connection that ends leaves no window behind. -/
structure Kept (s : Compositor) (a : Event × List Out) (t : Compositor) : Prop where
  owned : Owned t
  live : ∀ o ∈ a.2, ∀ fd, o.dest = some fd →
    ∃ c, (s.clients c).used = true ∧ (s.clients c).fd = fd
  released : ∀ c, a.1 = .gone c → ∀ i, (t.wins i).used = true → (t.wins i).fd ≠ (s.clients c).fd

/-- The condition on a section: no client that has a window opens one more. -/
def OneWindow (s : Compositor) (a : Event × List Out) : Prop :=
  ∀ c win x y shm_id, a.1 = .msg c (.UI_OPEN win x y (some shm_id)) →
    (∃ i, (s.wins i).used = false) → (s.clients c).win = none

/-- Nothing is sent on the descriptor. -/
def Silent (fd : ℤ) (as : List (Event × List Out)) : Prop := ∀ a ∈ as, ∀ o ∈ a.2, o.dest ≠ some fd

end MobilePhoneOs.Ui
