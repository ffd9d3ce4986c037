import MobilePhoneOs.Userspace.CompositorTheorems
import MobilePhoneOs.Userspace.Windows

/-!
# Who owns the windows

As long as no client opens a second window, the window of each client and the client of each
window are found from each other, and both go when the connection ends.
-/

namespace MobilePhoneOs.Ui

open Compositor
open Compositor (recompose dropWindow tapHome presentAll)
open List (mem_append mem_singleton)

variable {s t : Compositor}

/-! ## The invariant -/

/-- The tables agree, with what the agreement rests on: live connections have descriptors of
their own, and the window of a client is in use. -/
structure Linked (s : Compositor) : Prop where
  distinct : ∀ c d, (s.clients c).used = true → (s.clients d).used = true →
    (s.clients c).fd = (s.clients d).fd → c = d
  link : ∀ c i, (s.clients c).used = true → (s.clients c).win = some i →
    (s.wins i).used = true ∧ (s.wins i).fd = (s.clients c).fd
  owner : ∀ i, (s.wins i).used = true → ∃ c, Owns s c i
  focus : ∀ i, s.focused = some i → (s.wins i).used = true
  app : s.mode = .app → ∃ i, s.focused = some i ∧ (s.wins i).visible = true

lemma Linked.owned (h : Linked s) : Owned s := by
  refine ⟨fun i hi => ?_, fun c hc i j hi hj hfi hfj => ?_, h.focus, h.app⟩
  · obtain ⟨c, hc, hwin, hfd⟩ := h.owner i hi
    refine ⟨c, ⟨hc, hwin, hfd⟩, ?_⟩
    rintro d ⟨hd, -, hfd'⟩
    exact h.distinct d c hd hc (hfd'.trans hfd.symm)
  · obtain ⟨d, hd, hwin, hfd⟩ := h.owner i hi
    obtain ⟨e, he, hwin', hfd'⟩ := h.owner j hj
    obtain rfl : d = c := h.distinct d c hd hc (hfd.trans hfi)
    obtain rfl : e = d := h.distinct e d he hd (hfd'.trans hfj)
    exact Option.some.inj (hwin.symm.trans hwin')

/-- Sections that leave alone what the tables have of each other. -/
lemma Linked.congr (h : Linked s)
    (hc : ∀ c, (t.clients c).used = (s.clients c).used ∧ (t.clients c).fd = (s.clients c).fd ∧
      (t.clients c).win = (s.clients c).win)
    (hw : ∀ i, (t.wins i).used = (s.wins i).used ∧ (t.wins i).fd = (s.wins i).fd)
    (hfocus : ∀ i, t.focused = some i → (s.wins i).used = true)
    (happ : t.mode = .app → ∃ i, t.focused = some i ∧ (t.wins i).visible = true) : Linked t := by
  refine ⟨fun c d hcu hdu hfd => ?_, fun c i hcu hwin => ?_, fun i hi => ?_, fun i hi => ?_, happ⟩
  · obtain ⟨hcu', hcf, -⟩ := hc c
    obtain ⟨hdu', hdf, -⟩ := hc d
    exact h.distinct c d (hcu' ▸ hcu) (hdu' ▸ hdu) (hcf ▸ hdf ▸ hfd)
  · obtain ⟨hcu', hcf, hcw⟩ := hc c
    obtain ⟨hwu, hwf⟩ := hw i
    rw [hwu, hwf, hcf]
    exact h.link c i (hcu' ▸ hcu) (hcw ▸ hwin)
  · obtain ⟨hwu, hwf⟩ := hw i
    obtain ⟨c, hcu, hwin, hfd⟩ := h.owner i (hwu ▸ hi)
    obtain ⟨hcu', hcf, hcw⟩ := hc c
    exact ⟨c, hcu'.trans hcu, hcw.trans hwin, by rw [hcf, hwf, hfd]⟩
  · rw [(hw i).1]
    exact hfocus i hi

lemma setWin_wins (i j : WinIdx) (w : Window) :
    (s.setWin i w).wins j = if j = i then w else s.wins j := by
  show Function.update s.wins i w j = _
  rw [Function.update_apply]

lemma setClient_clients (c d : Fin MAX_CLIENTS) (cl : Client) :
    (s.setClient c cl).clients d = if d = c then cl else s.clients d := by
  show Function.update s.clients c cl d = _
  rw [Function.update_apply]

variable {i : WinIdx}

/-- A window keeps its connection. -/
lemma setWin_same {w : Window} (hu : w.used = (s.wins i).used)
    (hf : w.fd = (s.wins i).fd) (j : WinIdx) :
    ((s.setWin i w).wins j).used = (s.wins j).used ∧ ((s.setWin i w).wins j).fd = (s.wins j).fd := by
  rw [setWin_wins]
  split
  · rename_i hj
    rw [hj]
    exact ⟨hu, hf⟩
  · exact ⟨rfl, rfl⟩

/-! ## Clients -/

lemma dropWindow_clients (i : WinIdx) : (s.dropWindow i).clients = s.clients := by
  unfold dropWindow
  split
  · dsimp only
    split <;> rfl
  · rfl

/-- What is left when a window is dropped. -/
lemma dropWindow_spec (hi : (s.wins i).used = true) :
    (∀ j, ((s.dropWindow i).wins j).used = true → j ≠ i ∧ (s.dropWindow i).wins j = s.wins j) ∧
      (∀ j, j ≠ i → (s.dropWindow i).wins j = s.wins j) ∧
      (∀ j, (s.dropWindow i).focused = some j → s.focused = some j ∧ j ≠ i) ∧
      ((s.dropWindow i).mode = .app → s.mode = .app ∧ s.focused ≠ some i ∧
        (s.dropWindow i).focused = s.focused) := by
  have hwins : ∀ j, (s.dropWindow i).wins j
      = if j = i then { s.wins i with va := false, used := false, fd := -1 } else s.wins j := by
    intro j
    unfold dropWindow
    rw [if_pos hi]
    dsimp only
    split
    · exact setWin_wins i j _
    · exact setWin_wins i j _
  refine ⟨fun j hj => ?_, fun j hj => ?_, fun j hj => ?_, fun hm => ?_⟩
  · rw [hwins] at hj ⊢
    split at hj
    · exact absurd hj (by simp)
    · rename_i hne
      rw [if_neg hne]
      exact ⟨hne, rfl⟩
  · rw [hwins, if_neg hj]
  · unfold dropWindow at hj
    rw [if_pos hi] at hj
    dsimp only at hj
    split at hj
    · exact absurd hj (by simp [redraw])
    · rename_i hne
      have hj' : s.focused = some j := hj
      refine ⟨hj', ?_⟩
      rintro rfl
      exact hne hj'
  · unfold dropWindow at hm ⊢
    rw [if_pos hi] at hm ⊢
    dsimp only at hm ⊢
    split at hm
    · exact absurd hm (by simp [redraw])
    · rename_i hne
      rw [if_neg hne]
      exact ⟨hm, hne, rfl⟩

variable {c : Fin MAX_CLIENTS}

section

variable (h : Linked s)
include h

/-- A client gives its window back: it goes on without one, or it ends. -/
lemma Linked.dropWindow
    (hc : (s.clients c).used = true) (hwin : (s.clients c).win = some i) {cl : Client}
    (hcl : cl.used = true → cl.fd = (s.clients c).fd ∧ cl.win = none) :
    Linked ((s.dropWindow i).setClient c cl) := by
  obtain ⟨hi, hfd⟩ := h.link c i hc hwin
  obtain ⟨hused, hother, hfocus, hmode⟩ := dropWindow_spec hi
  have hclients : ∀ d, ((s.dropWindow i).setClient c cl).clients d
      = if d = c then cl else s.clients d := by
    intro d
    rw [setClient_clients, dropWindow_clients]
  have hwins : ((s.dropWindow i).setClient c cl).wins = (s.dropWindow i).wins := rfl
  -- a client other than `c` has another window
  have hne : ∀ d j, d ≠ c → (s.clients d).used = true → (s.clients d).win = some j → j ≠ i := by
    rintro d j hdc hd hw rfl
    exact hdc (h.distinct d c hd hc ((h.link d j hd hw).2.symm.trans hfd))
  refine ⟨fun d e hd he hfd' => ?_, fun d j hd hw => ?_, fun j hj => ?_, fun j hj => ?_,
    fun hm => ?_⟩
  · have hlive : ∀ d, (((s.dropWindow i).setClient c cl).clients d).used = true →
        (s.clients d).used = true ∧
          (((s.dropWindow i).setClient c cl).clients d).fd = (s.clients d).fd := by
      intro d hd
      rw [hclients] at hd ⊢
      split at hd
      · rename_i hdc
        rw [if_pos hdc, hdc]
        exact ⟨hc, (hcl hd).1⟩
      · rename_i hdc
        rw [if_neg hdc]
        exact ⟨hd, rfl⟩
    obtain ⟨hd', hdf⟩ := hlive d hd
    obtain ⟨he', hef⟩ := hlive e he
    exact h.distinct d e hd' he' (by rw [← hdf, ← hef, hfd'])
  · rw [hclients] at hd hw ⊢
    split at hd
    · rename_i hdc
      rw [if_pos hdc, (hcl hd).2] at hw
      exact absurd hw (by simp)
    · rename_i hdc
      rw [if_neg hdc] at hw ⊢
      rw [hwins, hother j (hne d j hdc hd hw)]
      exact h.link d j hd hw
  · obtain ⟨hji, heq⟩ := hused j hj
    rw [hwins, heq] at hj
    obtain ⟨d, hd, hw, hf⟩ := h.owner j hj
    have hdc : d ≠ c := by
      rintro rfl
      exact hji (Option.some.inj (hw.symm.trans hwin))
    refine ⟨d, ?_, ?_, ?_⟩
    · rw [hclients, if_neg hdc]
      exact hd
    · rw [hclients, if_neg hdc]
      exact hw
    · rw [hclients, if_neg hdc, hwins, heq]
      exact hf
  · obtain ⟨hj', hji⟩ := hfocus j hj
    rw [hwins, hother j hji]
    exact h.focus j hj'
  · obtain ⟨hm', hfi, hsame⟩ := hmode hm
    obtain ⟨j, hj, hv⟩ := h.app hm'
    refine ⟨j, hsame.trans hj, ?_⟩
    have hji : j ≠ i := by
      rintro rfl
      exact hfi hj
    rw [hwins, hother j hji]
    exact hv

/-- A client without a window ends, or a free slot of the table is written. -/
lemma Linked.setClient {cl : Client}
    (hc : (s.clients c).used = true → (s.clients c).win = none)
    (hcl : cl.used = true → cl.win = none ∧ ∀ d, d ≠ c → (s.clients d).used = true →
      (s.clients d).fd ≠ cl.fd) : Linked (s.setClient c cl) := by
  refine ⟨fun d e hd he hfd => ?_, fun d j hd hw => ?_, fun j hj => ?_, h.focus, h.app⟩
  · rw [setClient_clients] at hd he hfd
    rw [setClient_clients] at hfd
    by_cases hdc : d = c
    · by_cases hec : e = c
      · exact hdc.trans hec.symm
      · rw [if_pos hdc] at hd hfd
        rw [if_neg hec] at he hfd
        exact absurd hfd.symm ((hcl hd).2 e hec he)
    · by_cases hec : e = c
      · rw [if_neg hdc] at hd hfd
        rw [if_pos hec] at he hfd
        exact absurd hfd ((hcl he).2 d hdc hd)
      · rw [if_neg hdc] at hd hfd
        rw [if_neg hec] at he hfd
        exact h.distinct d e hd he hfd
  · rw [setClient_clients] at hd hw ⊢
    split at hd
    · rename_i hdc
      rw [if_pos hdc, (hcl hd).1] at hw
      exact absurd hw (by simp)
    · rename_i hdc
      rw [if_neg hdc] at hw ⊢
      exact h.link d j hd hw
  · obtain ⟨d, hd, hw, hf⟩ := h.owner j hj
    have hdc : d ≠ c := by
      rintro rfl
      rw [hc hd] at hw
      exact absurd hw (by simp)
    refine ⟨d, ?_, ?_, ?_⟩
    all_goals
      rw [setClient_clients, if_neg hdc]
      assumption

/-- A client without a window opens one. -/
lemma Linked.openWindow {w : Window} {n : ℕ}
    (hc : (s.clients c).used = true) (hwin : (s.clients c).win = none)
    (hi : (s.wins i).used = false) (hu : w.used = true) (hf : w.fd = (s.clients c).fd) :
    Linked ({ s.setWin i w with next_win := n }.setClient c { s.clients c with win := some i }) := by
  generalize ht : ({ s.setWin i w with next_win := n }.setClient c
    { s.clients c with win := some i }) = t
  have hclients : ∀ d, t.clients d
      = if d = c then { s.clients c with win := some i } else s.clients d := by
    intro d
    rw [← ht]
    exact setClient_clients c d _
  have hwins : ∀ j, t.wins j = if j = i then w else s.wins j := by
    intro j
    rw [← ht]
    exact setWin_wins i j w
  have hfocus : t.focused = s.focused := by rw [← ht]; rfl
  have hmode : t.mode = s.mode := by rw [← ht]; rfl
  have hlive : ∀ d, (t.clients d).used = (s.clients d).used ∧
      (t.clients d).fd = (s.clients d).fd := by
    intro d
    rw [hclients]
    split
    · rename_i hdc
      rw [hdc]
      exact ⟨rfl, rfl⟩
    · exact ⟨rfl, rfl⟩
  have hused : ∀ j, (s.wins j).used = true → t.wins j = s.wins j := by
    intro j hj
    rw [hwins, if_neg]
    rintro rfl
    rw [hi] at hj
    exact absurd hj (by simp)
  refine ⟨fun d e hd he hfd => ?_, fun d j hd hw => ?_, fun j hj => ?_, fun j hj => ?_,
    fun hm => ?_⟩
  · rw [(hlive d).2, (hlive e).2] at hfd
    exact h.distinct d e ((hlive d).1 ▸ hd) ((hlive e).1 ▸ he) hfd
  · rw [(hlive d).2]
    rw [(hlive d).1] at hd
    by_cases hdc : d = c
    · rw [hclients, if_pos hdc] at hw
      obtain rfl : i = j := Option.some.inj hw
      rw [hwins, if_pos rfl, hdc]
      exact ⟨hu, hf⟩
    · rw [hclients, if_neg hdc] at hw
      rw [hused j (h.link d j hd hw).1]
      exact h.link d j hd hw
  · by_cases hji : j = i
    · refine ⟨c, ?_, ?_, ?_⟩
      · rw [(hlive c).1]
        exact hc
      · rw [hclients, if_pos rfl, hji]
      · rw [(hlive c).2, hwins, if_pos hji, hf]
    · rw [hwins, if_neg hji] at hj
      obtain ⟨d, hd, hw, hfd⟩ := h.owner j hj
      refine ⟨d, ?_, ?_, ?_⟩
      · rw [(hlive d).1]
        exact hd
      · rw [hclients, if_neg]
        · exact hw
        · rintro rfl
          rw [hwin] at hw
          exact absurd hw (by simp)
      · rw [(hlive d).2, hwins, if_neg hji]
        exact hfd
  · have hj' := h.focus j (hfocus ▸ hj)
    rw [hused j hj']
    exact hj'
  · obtain ⟨j, hj, hv⟩ := h.app (hmode ▸ hm)
    refine ⟨j, hfocus.trans hj, ?_⟩
    rw [hused j (h.focus j hj)]
    exact hv

/-- A window gets the focus. -/
lemma Linked.raise (hi : (s.wins i).used = true) :
    Linked { s.setWin i { s.wins i with visible := true } with
      focused := some i, mode := .app, need_redraw := true } := by
  have hsame := @setWin_same s i { s.wins i with visible := true } rfl rfl
  refine h.congr (fun c => ⟨rfl, rfl, rfl⟩) hsame ?_ fun _ => ⟨i, rfl, ?_⟩
  · intro j hj
    obtain rfl : i = j := Option.some.inj hj
    exact hi
  · rw [setWin_wins, if_pos rfl]

/-- The focus goes, and with it the mode. -/
lemma Linked.home (hc : t.clients = s.clients)
    (hw : ∀ i, (t.wins i).used = (s.wins i).used ∧ (t.wins i).fd = (s.wins i).fd)
    (hfocus : t.focused = none) (hmode : t.mode ≠ .app) : Linked t := by
  refine h.congr (fun c => by rw [hc]; exact ⟨rfl, rfl, rfl⟩) hw ?_ fun hm => absurd hm hmode
  intro i hi
  rw [hfocus] at hi
  exact absurd hi (by simp)

lemma Linked.clientMsg (hc : (s.clients c).used = true)
    (m : Msg) (hone : ∀ win x y shm_id, m = .UI_OPEN win x y (some shm_id) →
      (∃ i, (s.wins i).used = false) → (s.clients c).win = none) : Linked (s.clientMsg c m).1 := by
  cases m with
  | UI_HELLO text =>
    refine h.congr (fun d => ?_) (fun i => ⟨rfl, rfl⟩) h.focus h.app
    simp only [Compositor.clientMsg, setClient_clients]
    split
    · rename_i hd
      rw [hd]
      exact ⟨rfl, rfl, rfl⟩
    · exact ⟨rfl, rfl, rfl⟩
  | UI_OPEN win a b shm =>
    unfold Compositor.clientMsg
    dsimp only
    split
    · rename_i i shm_id hfind
      have hfree : (s.wins i).used = false := by simpa using List.find?_some hfind
      exact h.openWindow hc (hone win a b shm_id rfl ⟨i, hfree⟩) hfree rfl rfl
    · exact h
  | UI_FLUSH a b c' d =>
    rw [Compositor.clientMsg]
    split
    · rename_i i hi
      have hfd : (flushed (s.wins i) a b c' d).fd = (s.wins i).fd := by
        unfold flushed
        dsimp only
        split <;> rfl
      have hsame := @setWin_same s i _ (flushed_used (s.wins i) a b c' d) hfd
      refine h.congr (fun c => ⟨rfl, rfl, rfl⟩) hsame h.focus fun hm => ?_
      obtain ⟨j, hj, hv⟩ := h.app hm
      refine ⟨j, hj, ?_⟩
      rw [setWin_wins]
      split
      · rename_i hji
        unfold flushed
        dsimp only
        rw [hji] at hv
        split <;> exact hv
      · exact hv
    · exact h.congr (fun c => ⟨rfl, rfl, rfl⟩) (fun i => ⟨rfl, rfl⟩) h.focus h.app
  | UI_SHOW =>
    rw [Compositor.clientMsg]
    split
    · rename_i i hi
      exact h.raise (winOf_some hi).2
    · exact h
  | UI_HIDE =>
    rw [Compositor.clientMsg]
    split
    · rename_i i hi
      have hsame := @setWin_same s i { s.wins i with visible := false } rfl rfl
      dsimp only
      split
      · exact h.home rfl hsame rfl (by simp)
      · rename_i hne
        refine h.congr (fun c => ⟨rfl, rfl, rfl⟩) hsame h.focus fun hm => ?_
        obtain ⟨j, hj, hv⟩ := h.app hm
        refine ⟨j, hj, ?_⟩
        show ((s.setWin i { s.wins i with visible := false }).wins j).visible = true
        rw [setWin_wins, if_neg]
        · exact hv
        · rintro rfl
          exact hne hj
    · exact h
  | UI_CLOSE =>
    rw [Compositor.clientMsg]
    split
    · rename_i i hi
      exact h.dropWindow hc hi fun _ => ⟨rfl, rfl⟩
    · exact h
  | UI_NOTIFY now => exact h.congr (fun c => ⟨rfl, rfl, rfl⟩) (fun i => ⟨rfl, rfl⟩) h.focus h.app
  | other => exact h

lemma Linked.clientGone (hc : (s.clients c).used = true) :
    Linked (s.clientGone c) := by
  unfold Compositor.clientGone
  cases hwin : (s.clients c).win with
  | some i => exact h.dropWindow hc hwin nofun
  | none => exact h.setClient (fun _ => hwin) nofun

lemma Linked.accept {fd : ℤ} {thread : Bool} (hfresh : s.Fresh (.accept fd thread)) :
    Linked (s.accept fd thread) := by
  unfold Compositor.accept
  split
  · rename_i c hfind
    have hfree : (s.clients c).used = false := by simpa using List.find?_some hfind
    have hc : (s.clients c).used = true → (s.clients c).win = none := by
      intro hu
      rw [hfree] at hu
      exact absurd hu (by simp)
    split
    · exact h.setClient hc fun _ => ⟨rfl, fun d _ hd => hfresh d hd⟩
    · exact h.setClient hc nofun
  · exact h

/-! ## Input and rendering -/

lemma Linked.launchApp (name : Str) : Linked (s.launchApp name).1 := by
  unfold Compositor.launchApp
  split
  · rename_i i hi
    have hused := List.find?_some hi
    simp only [Bool.and_eq_true] at hused
    exact h.raise hused.1
  · exact h

lemma Linked.tapApp (x y : ℤ) (down : Bool) : Linked (s.tapApp x y down).1 := by
  unfold Compositor.tapApp
  split
  · exact h.home rfl (fun i => ⟨rfl, rfl⟩) rfl (by simp [goHome])
  split
  · exact h
  dsimp only
  split
  · exact h
  · exact h

/-- Sections that touch neither table, nor the focus, nor bring an application up. -/
lemma Linked.frame (hc : t.clients = s.clients) (hw : t.wins = s.wins)
    (hfocus : t.focused = s.focused) (hmode : t.mode = .app → s.mode = .app) : Linked t := by
  refine h.congr (fun c => by rw [hc]; exact ⟨rfl, rfl, rfl⟩)
    (fun i => by rw [hw]; exact ⟨rfl, rfl⟩) (fun i hi => h.focus i (hfocus ▸ hi)) fun hm => ?_
  obtain ⟨j, hj, hv⟩ := h.app (hmode hm)
  exact ⟨j, hfocus.trans hj, by rw [hw]; exact hv⟩

end

lemma tapLock_rest (now : ℕ) (x y : ℤ) : (s.tapLock now x y).clients = s.clients ∧
    (s.tapLock now x y).focused = s.focused := by
  unfold Compositor.tapLock
  split
  · exact ⟨rfl, rfl⟩
  dsimp only
  split
  all_goals
    split
    · exact ⟨rfl, rfl⟩
    · exact ⟨rfl, rfl⟩

lemma Linked.tapLock (h : Linked s) (now : ℕ) (x y : ℤ) (hlock : s.mode = .lock) :
    Linked (s.tapLock now x y) := by
  have hmode : (s.tapLock now x y).mode = .lock ∨ (s.tapLock now x y).mode = .home := by
    unfold Compositor.tapLock
    split
    · exact .inl hlock
    dsimp only
    split
    all_goals
      split
      all_goals
        first
        | exact .inl hlock
        | exact .inr rfl
  obtain ⟨hclients, hfocus⟩ := tapLock_rest (s := s) now x y
  refine h.frame hclients (tapLock_wins now x y) hfocus fun hm => ?_
  rcases hmode with hl | hh
  · rw [hm] at hl
    exact absurd hl (by simp)
  · rw [hm] at hh
    exact absurd hh (by simp)

lemma Linked.syn (h : Linked s) (now : ℕ) (code : ℤ) : Linked (s.syn now code).1 := by
  have hlast : ∀ {u : Compositor}, Linked u → Linked { u with last_down := s.down } :=
    fun hu => hu.frame rfl rfl rfl fun hm => hm
  unfold Compositor.syn
  split
  · exact h
  refine hlast ?_
  split
  · cases hm : s.mode with
    | lock => exact h.tapLock now s.abs_x s.abs_y hm
    | home =>
      show Linked (s.tapHome s.abs_x s.abs_y).1
      unfold tapHome
      split
      · exact h.launchApp _
      · exact h
    | app => exact h.tapApp s.abs_x s.abs_y true
  · exact h.tapApp s.abs_x s.abs_y false

lemma Linked.presentAll (h : Linked s) (dirty : List WinIdx) : Linked (s.presentAll dirty).1 := by
  induction dirty generalizing s with
  | nil => exact h
  | cons i dirty ih =>
    rw [presentAll]
    split
    · apply ih
      have hsame := @setWin_same s i { s.wins i with has_dirty := false } rfl rfl
      refine h.congr (fun c => ⟨rfl, rfl, rfl⟩) hsame h.focus fun hm => ?_
      obtain ⟨j, hj, hv⟩ := h.app hm
      refine ⟨j, hj, ?_⟩
      show ((s.setWin i { s.wins i with has_dirty := false }).wins j).visible = true
      rw [setWin_wins]
      split
      · rename_i hji
        rw [← hji]
        exact hv
      · exact hv
    · exact ih h

variable {a : Event × List Out}

lemma Linked.step (h : Linked s) (hs : ConnStep s a t)
    (hone : OneWindow s a) : Linked t := by
  obtain ⟨⟨hen, hact⟩, hfresh⟩ := hs
  obtain ⟨e, outs⟩ := a
  obtain rfl : (s.act e).1 = t := congrArg Prod.fst hact
  cases e with
  | accept fd thread => exact h.accept hfresh
  | msg c m => exact h.clientMsg hen m fun win x y shm_id hm => hone c win x y shm_id (by rw [hm])
  | gone c => exact h.clientGone hen
  | modem now => exact h.frame rfl rfl rfl fun hm => hm
  | abs code value =>
    show Linked (s.abs code value)
    unfold Compositor.abs
    split
    · exact h.frame rfl rfl rfl fun hm => hm
    split
    · exact h.frame rfl rfl rfl fun hm => hm
    · exact h
  | key code value =>
    show Linked (s.key code value)
    unfold Compositor.key
    split
    · exact h.frame rfl rfl rfl fun hm => hm
    split
    · exact h.frame rfl rfl rfl nofun
    · exact h
  | syn now code => exact h.syn now code
  | render now =>
    have hmask : Linked { s with win_dirty_mask := fun _ => false } :=
      h.frame rfl rfl rfl fun hm => hm
    have hp := hmask.presentAll ((List.finRange MAX_WINS).filter s.win_dirty_mask)
    show Linked (recompose _ now).1
    unfold recompose
    split
    · exact hp.frame rfl rfl rfl fun hm => hm
    split
    · exact hp.frame rfl rfl rfl fun hm => hm
    · exact hp

/-! ## Messages -/

/-- The connection of a client or of a window is open. -/
def Live (s : Compositor) (fd : ℤ) : Prop := ∃ c, (s.clients c).used = true ∧ (s.clients c).fd = fd

lemma Linked.live (h : Linked s) (hi : (s.wins i).used = true) :
    Live s (s.wins i).fd := by
  obtain ⟨c, hc, -, hfd⟩ := h.owner i hi
  exact ⟨c, hc, hfd⟩

lemma live_of_nil {outs : List Out} (h : outs = []) :
    ∀ o ∈ outs, ∀ fd, o.dest = some fd → Live s fd := by
  intro o ho
  rw [h] at ho
  exact absurd ho List.not_mem_nil

lemma clientMsg_live (hc : (s.clients c).used = true) (m : Msg) :
    ∀ o ∈ (s.clientMsg c m).2, ∀ fd, o.dest = some fd → Live s fd := by
  intro o ho fd hfd
  obtain ⟨_, _, _, _, _, -, rfl⟩ := clientMsg_answers c m o ho
  exact ⟨c, hc, Option.some.inj hfd⟩

lemma Linked.launchApp_live (h : Linked s) (name : Str) :
    ∀ o ∈ (s.launchApp name).2, ∀ fd, o.dest = some fd → Live s fd := by
  unfold Compositor.launchApp
  split
  · rename_i i hi
    have hused := List.find?_some hi
    simp only [Bool.and_eq_true] at hused
    intro o ho fd hfd
    obtain rfl := mem_singleton.mp ho
    obtain rfl : (s.wins i).fd = fd := Option.some.inj hfd
    exact h.live hused.1
  · intro o ho fd hfd
    obtain rfl := mem_singleton.mp ho
    exact absurd hfd (by simp [Out.dest])

lemma Linked.tapApp_live (h : Linked s) (x y : ℤ) (down : Bool) :
    ∀ o ∈ (s.tapApp x y down).2, ∀ fd, o.dest = some fd → Live s fd := by
  unfold Compositor.tapApp
  split
  · exact live_of_nil rfl
  split
  · exact live_of_nil rfl
  · rename_i i hi
    dsimp only
    split
    · intro o ho fd hfd
      have hdest : o.dest = some (s.wins i).fd := by
        rcases mem_append.mp ho with ho | ho
        · split at ho
          · rcases List.mem_cons.mp ho with rfl | ho
            · rfl
            · obtain rfl := mem_singleton.mp ho
              rfl
          · exact absurd ho List.not_mem_nil
        · obtain rfl := mem_singleton.mp ho
          rfl
      obtain rfl : (s.wins i).fd = fd := Option.some.inj (hdest.symm.trans hfd)
      exact h.live (h.focus i hi)
    · exact live_of_nil rfl

lemma presentAll_silent (dirty : List WinIdx) : ∀ o ∈ (s.presentAll dirty).2, o.dest = none := by
  induction dirty generalizing s with
  | nil => nofun
  | cons i dirty ih =>
    rw [presentAll]
    split
    · intro o ho
      rcases mem_append.mp ho with ho | ho
      · obtain rfl := mem_singleton.mp ho
        rfl
      · exact ih o ho
    · exact ih

lemma recompose_silent (now : ℕ) : ∀ o ∈ (s.recompose now).2, o.dest = none := by
  unfold recompose
  split
  · intro o ho
    obtain rfl := mem_singleton.mp ho
    rfl
  split
  · intro o ho
    obtain rfl := mem_singleton.mp ho
    rfl
  · nofun

/-- Every message goes to a connection that is open. -/
lemma Linked.act_live (h : Linked s) {e : Event} (hen : s.Enabled e) :
    ∀ o ∈ (s.act e).2, ∀ fd, o.dest = some fd → Live s fd := by
  cases e with
  | accept fd thread => exact live_of_nil rfl
  | msg c m => exact clientMsg_live hen m
  | gone c => exact live_of_nil rfl
  | modem now => exact live_of_nil rfl
  | abs code value => exact live_of_nil rfl
  | key code value => exact live_of_nil rfl
  | syn now code =>
    show ∀ o ∈ (s.syn now code).2, _
    unfold Compositor.syn
    split
    · exact live_of_nil rfl
    split
    · cases s.mode with
      | lock => exact live_of_nil rfl
      | home =>
        show ∀ o ∈ (s.tapHome s.abs_x s.abs_y).2, _
        unfold tapHome
        split
        · exact h.launchApp_live _
        · exact live_of_nil rfl
      | app => exact h.tapApp_live s.abs_x s.abs_y true
    · exact h.tapApp_live s.abs_x s.abs_y false
  | render now =>
    intro o ho fd hfd
    have hnone : o.dest = none := by
      rcases mem_append.mp ho with ho | ho
      · exact presentAll_silent _ o ho
      · exact recompose_silent now o ho
    rw [hnone] at hfd
    exact absurd hfd (by simp)

/-! ## The law -/

lemma clientGone_clients (c d : Fin MAX_CLIENTS) : (s.clientGone c).clients d
    = if d = c then { s.clients c with fd := -1, used := false } else s.clients d := by
  unfold Compositor.clientGone
  rw [setClient_clients]
  cases (s.clients c).win with
  | some i => rw [dropWindow_clients]
  | none => rfl

/-- A connection that ends leaves no window behind. -/
lemma Linked.released (h : Linked s) (hc : (s.clients c).used = true) (hi : ((s.clientGone c).wins i).used = true) :
    ((s.clientGone c).wins i).fd ≠ (s.clients c).fd := by
  intro hfd
  obtain ⟨d, hd, hw, hf⟩ := (h.clientGone hc).owner i hi
  rw [clientGone_clients] at hd hf
  split at hd
  · exact absurd hd (by simp)
  · rename_i hdc
    rw [if_neg hdc] at hf
    exact hdc (h.distinct d c hd hc (hf.trans hfd))

/-- A second window of a connection breaks the agreement. -/
lemma Linked.second_window (h : Linked s) {win : ℕ} {x y shm_id : ℤ}
    (hc : (s.clients c).used = true) (hfree : ∃ i, (s.wins i).used = false)
    (hwin : (s.clients c).win ≠ none) :
    ¬ Owned (s.clientMsg c (.UI_OPEN win x y (some shm_id))).1 := by
  obtain ⟨j, hj⟩ := Option.ne_none_iff_exists'.mp hwin
  obtain ⟨hused, hfd⟩ := h.link c j hc hj
  have hfind : ∃ i, (List.finRange MAX_WINS).find? (fun i => !(s.wins i).used) = some i := by
    obtain ⟨i, hi⟩ := hfree
    rw [← Option.isSome_iff_exists, List.find?_isSome]
    exact ⟨i, List.mem_finRange i, by simp [hi]⟩
  obtain ⟨i, hi⟩ := hfind
  have hif : (s.wins i).used = false := by simpa using List.find?_some hi
  have hji : j ≠ i := by
    rintro rfl
    rw [hused] at hif
    exact absurd hif (by simp)
  unfold Compositor.clientMsg
  simp only [hi]
  intro ho
  have hsingle := ho.single c
  simp only [setClient_clients, if_pos] at hsingle
  have hwi := @setWin_wins s i i (s.newWindow (s.clients c) x y shm_id)
  have hwj := @setWin_wins s i j (s.newWindow (s.clients c) x y shm_id)
  rw [if_pos rfl] at hwi
  rw [if_neg hji] at hwj
  refine hji (hsingle hc j i ?_ ?_ ?_ ?_)
  · exact (congrArg Window.used hwj).trans hused
  · exact congrArg Window.used hwi
  · exact (congrArg Window.fd hwj).trans hfd
  · exact congrArg Window.fd hwi

lemma kept_iff (h : Linked s) (hs : ConnStep s a t) :
    Kept s a t ↔ OneWindow s a := by
  obtain ⟨e, outs⟩ := a
  constructor
  · rintro ⟨ho, -, -⟩ c win x y shm_id he hfree
    by_contra hwin
    obtain ⟨⟨hen, hact⟩, -⟩ := hs
    subst he
    apply h.second_window hen hfree hwin
    rwa [show t = _ from (congrArg Prod.fst hact).symm] at ho
  · intro hone
    refine ⟨(h.step hs hone).owned, ?_, fun c hc i hi => ?_⟩
    · obtain ⟨⟨hen, hact⟩, -⟩ := hs
      rw [show outs = (s.act e).2 from (congrArg Prod.snd hact).symm]
      exact h.act_live hen
    · obtain ⟨⟨hen, hact⟩, -⟩ := hs
      subst hc
      rw [show t = _ from (congrArg Prod.fst hact).symm] at hi ⊢
      exact h.released hen hi

/-! ## Descriptors -/

lemma syn_clients (now : ℕ) (code : ℤ) : (s.syn now code).1.clients = s.clients := by
  have htap : ∀ down, (s.tapApp s.abs_x s.abs_y down).1.clients = s.clients := by
    intro down
    unfold Compositor.tapApp
    split
    · rfl
    split
    · rfl
    dsimp only
    split <;> rfl
  unfold Compositor.syn
  split
  · rfl
  split
  · cases s.mode with
    | lock => exact (tapLock_rest now s.abs_x s.abs_y).1
    | home =>
      show (s.tapHome s.abs_x s.abs_y).1.clients = s.clients
      unfold tapHome
      split
      · unfold Compositor.launchApp
        split <;> rfl
      · rfl
    | app => exact htap true
  · exact htap false

lemma renderTick_clients (now : ℕ) : (s.renderTick now).1.clients = s.clients := by
  have hall : ∀ dirty (u : Compositor), (u.presentAll dirty).1.clients = u.clients := by
    intro dirty
    induction dirty with
    | nil => exact fun u => rfl
    | cons i dirty ih =>
      intro u
      rw [presentAll]
      split
      · exact ih _
      · exact ih u
  have hrec : ∀ u : Compositor, (u.recompose now).1.clients = u.clients := by
    intro u
    unfold recompose
    split
    · rfl
    split <;> rfl
  exact (hrec _).trans (hall _ _)

lemma clientMsg_clients (c : Fin MAX_CLIENTS) (m : Msg) (d : Fin MAX_CLIENTS) :
    ((s.clientMsg c m).1.clients d).used = (s.clients d).used ∧
      ((s.clientMsg c m).1.clients d).fd = (s.clients d).fd := by
  have hset : ∀ (u : Compositor) (cl : Client), u.clients = s.clients →
      cl.used = (s.clients c).used → cl.fd = (s.clients c).fd →
      ((u.setClient c cl).clients d).used = (s.clients d).used ∧
        ((u.setClient c cl).clients d).fd = (s.clients d).fd := by
    intro u cl hu hused hfd
    rw [setClient_clients]
    split
    · rename_i hdc
      rw [hdc]
      exact ⟨hused, hfd⟩
    · rw [hu]
      exact ⟨rfl, rfl⟩
  cases m with
  | UI_HELLO text => exact hset s _ rfl rfl rfl
  | UI_OPEN win a b shm =>
    unfold Compositor.clientMsg
    dsimp only
    split
    · exact hset _ _ rfl rfl rfl
    · exact ⟨rfl, rfl⟩
  | UI_FLUSH a b c' d' =>
    rw [Compositor.clientMsg]
    split
    · exact ⟨rfl, rfl⟩
    · exact ⟨rfl, rfl⟩
  | UI_SHOW =>
    rw [Compositor.clientMsg]
    split
    · exact ⟨rfl, rfl⟩
    · exact ⟨rfl, rfl⟩
  | UI_HIDE =>
    rw [Compositor.clientMsg]
    split
    · dsimp only
      split
      · exact ⟨rfl, rfl⟩
      · exact ⟨rfl, rfl⟩
    · exact ⟨rfl, rfl⟩
  | UI_CLOSE =>
    rw [Compositor.clientMsg]
    split
    · exact hset _ _ (dropWindow_clients _) rfl rfl
    · exact ⟨rfl, rfl⟩
  | UI_NOTIFY now => exact ⟨rfl, rfl⟩
  | other => exact ⟨rfl, rfl⟩

lemma accept_clients (fd : ℤ) (thread : Bool) (d : Fin MAX_CLIENTS) :
    (s.accept fd thread).clients d = s.clients d ∨
      (((s.accept fd thread).clients d).used = true →
        ((s.accept fd thread).clients d).fd = fd) := by
  unfold Compositor.accept
  split
  · rename_i c hfind
    by_cases hdc : d = c
    · right
      split
      · rw [setClient_clients, if_pos hdc]
        exact fun _ => rfl
      · rw [setClient_clients, if_pos hdc]
        nofun
    · left
      split
      · rw [setClient_clients, if_neg hdc]
      · rw [setClient_clients, if_neg hdc]
  · exact .inl rfl

/-- A descriptor opens by a connection that is accepted. -/
lemma live_step {fd : ℤ} (hs : ConnStep s a t) (h : Live t fd) :
    Live s fd ∨ ∃ thread, a.1 = .accept fd thread := by
  obtain ⟨⟨-, hact⟩, -⟩ := hs
  obtain ⟨e, outs⟩ := a
  obtain rfl : (s.act e).1 = t := congrArg Prod.fst hact
  obtain ⟨d, hd, hfd⟩ := h
  cases e with
  | accept fd' thread =>
    change ((s.accept fd' thread).clients d).used = true at hd
    change ((s.accept fd' thread).clients d).fd = fd at hfd
    rcases @accept_clients s fd' thread d with hsame | hnew
    · rw [hsame] at hd hfd
      exact .inl ⟨d, hd, hfd⟩
    · exact .inr ⟨thread, by rw [← hfd, hnew hd]⟩
  | msg c m =>
    obtain ⟨hu, hf⟩ := @clientMsg_clients s c m d
    exact .inl ⟨d, hu ▸ hd, hf ▸ hfd⟩
  | gone c =>
    have hclients := @clientGone_clients s c d
    change ((s.clientGone c).clients d).used = true at hd
    change ((s.clientGone c).clients d).fd = fd at hfd
    rw [hclients] at hd hfd
    split at hd
    · exact absurd hd (by simp)
    · rename_i hdc
      rw [if_neg hdc] at hfd
      exact .inl ⟨d, hd, hfd⟩
  | modem now => exact .inl ⟨d, hd, hfd⟩
  | abs code value =>
    have hsame : (s.abs code value).clients = s.clients := by
      unfold Compositor.abs
      split
      · rfl
      split <;> rfl
    exact .inl ⟨d, hsame ▸ hd, hsame ▸ hfd⟩
  | key code value =>
    have hsame : (s.key code value).clients = s.clients := by
      unfold Compositor.key
      split
      · rfl
      split <;> rfl
    exact .inl ⟨d, hsame ▸ hd, hsame ▸ hfd⟩
  | syn now code =>
    have hsame := @syn_clients s now code
    exact .inl ⟨d, hsame ▸ hd, hsame ▸ hfd⟩
  | render now =>
    have hsame := @renderTick_clients s now
    exact .inl ⟨d, hsame ▸ hd, hsame ▸ hfd⟩

/-- The descriptor of a connection that ends is closed. -/
lemma Linked.closed (h : Linked s) {outs : List Out}
    (hs : ConnStep s (.gone c, outs) t) : ¬ Live t (s.clients c).fd := by
  obtain ⟨⟨hc, hact⟩, -⟩ := hs
  obtain rfl : s.clientGone c = t := congrArg Prod.fst hact
  rintro ⟨d, hd, hfd⟩
  have hclients := @clientGone_clients s c d
  rw [hclients] at hd hfd
  split at hd
  · exact absurd hd (by simp)
  · rename_i hdc
    rw [if_neg hdc] at hfd
    exact hdc (h.distinct d c hd hc hfd)

/-! ## Runs -/

lemma Linked.boot (stage : Stage) (x y : ℤ) : Linked (boot stage x y) :=
  ⟨fun _ _ => nofun, fun _ _ => nofun, fun _ => nofun, fun _ => nofun, nofun⟩

variable {as : List (Event × List Out)}

lemma Linked.run (h : Linked s)
    (hrun : Run (Guarded OneWindow ConnStep) s as t) : Linked t :=
  hrun.invariant h fun _ _ _ hl hs => hl.step hs.2 hs.1

/-- Nothing is sent on a descriptor that is closed before it is opened again. -/
lemma Linked.silent {fd : ℤ} (h : Linked s) (hfd : ¬ Live s fd)
    (hrun : Run (Guarded OneWindow ConnStep) s as t)
    (hclosed : ∀ a ∈ as, ∀ thread, a.1 ≠ .accept fd thread) : Silent fd as := by
  have hall : Linked t ∧ ¬ Live t fd ∧ Silent fd as := by
    induction hrun with
    | nil => exact ⟨h, hfd, nofun⟩
    | @snoc as a t u _ hs ih =>
      obtain ⟨hl, hnot, hsilent⟩ := ih fun a ha => hclosed a (List.mem_append_left _ ha)
      have hlast := hclosed a (List.mem_append_right _ (List.mem_singleton_self a))
      refine ⟨hl.step hs.2 hs.1, fun hlive => ?_, fun b hb o ho hdest => ?_⟩
      · rcases live_step hs.2 hlive with hlive | ⟨thread, hac⟩
        · exact hnot hlive
        · exact hlast thread hac
      · rcases mem_append.mp hb with hb | hb
        · exact hsilent b hb o ho hdest
        · obtain rfl := mem_singleton.mp hb
          exact hnot (((kept_iff hl hs.2).mpr hs.1).live o ho fd hdest)
  exact hall.2.2

/-- The runs in which no client opens a second window are those whose sections all keep the
tables in agreement; and in such a run nothing is sent on the descriptor of a connection that has
ended, until it is given to a new one. -/
theorem windows_owned (stage : Stage) (x y : ℤ) (as : List (Event × List Out)) (t : Compositor) :
    (Run (Guarded OneWindow ConnStep) (boot stage x y) as t ↔
        Run (fun s a u => ConnStep s a u ∧ Kept s a u) (boot stage x y) as t) ∧
      (Run (Guarded OneWindow ConnStep) (boot stage x y) as t → Owned t ∧
        ∀ c outs u bs v, ConnStep t (.gone c, outs) u →
          Run (Guarded OneWindow ConnStep) u bs v →
          (∀ b ∈ bs, ∀ thread, b.1 ≠ .accept (t.clients c).fd thread) →
          Silent (t.clients c).fd bs) := by
  constructor
  · apply Run.guarded_iff (I := Linked)
    · exact fun _ _ _ h hs hk => h.step hs ((kept_iff h hs).mp hk)
    · exact fun _ _ _ h hs => kept_iff h hs
    · exact Linked.boot stage x y
  · intro hrun
    have h : Linked t := (Linked.boot stage x y).run hrun
    refine ⟨h.owned, fun c outs u bs v hs hrest hclosed => ?_⟩
    have hu : Linked u := h.step hs fun c' win a b shm_id he => absurd he (by simp)
    exact hu.silent (h.closed hs) hrest hclosed

/-- The first of two connections ends, and the second one opens a window: the answer is not sent
on the descriptor of the first. -/
theorem windows_owned_after_one :
    Silent 3 [((.msg ⟨1, by decide⟩ (.UI_OPEN 0 0 0 (some 6)),
      [.send 5 .UI_OPENED 2 6 160 56]) : Event × List Out)] := by
  let c : Fin MAX_CLIENTS := ⟨0, by decide⟩
  have hrun : Run (Guarded OneWindow ConnStep) (boot (fun _ _ => false) 0 0)
      ([] ++ [(.accept 3 true, [])] ++ [(.accept 5 true, [])] ++ [(.msg c (.UI_OPEN 0 0 0 (some 5)),
        [.send 3 .UI_OPENED 1 5 160 56])]) _ :=
    .snoc (.snoc (.snoc .nil ⟨nofun, ⟨trivial, rfl⟩, fun _ => nofun⟩)
      ⟨nofun, ⟨trivial, rfl⟩, fun i => by decide +revert⟩)
      ⟨fun c' win a b shm_id he _ => by cases he; rfl, ⟨rfl, rfl⟩, trivial⟩
  refine ((windows_owned _ 0 0 _ _).2 hrun).2 c [] _ _ _ ⟨⟨rfl, rfl⟩, trivial⟩
    (.single ⟨fun c' win a b shm_id he _ => by cases he; rfl, ⟨rfl, rfl⟩, trivial⟩) ?_
  intro b hb thread
  obtain rfl := mem_singleton.mp hb
  nofun

/-- An application opens two windows and ends: the first one stays. -/
theorem second_window_stays : ¬ ∀ stage x y as t a u,
    Run ConnStep (boot stage x y) as t → ConnStep t a u → Kept t a u := by
  intro hall
  let c : Fin MAX_CLIENTS := ⟨0, by decide⟩
  have hrun : Run ConnStep (boot (fun _ _ => false) 0 0)
      ([] ++ [(.accept 3 true, [])] ++
        [(.msg c (.UI_OPEN 0 0 0 (some 5)), [.send 3 .UI_OPENED 1 5 160 56])] ++
        [(.msg c (.UI_OPEN 0 0 0 (some 6)), [.send 3 .UI_OPENED 2 6 160 56])]) _ :=
    .snoc (.snoc (.snoc .nil ⟨⟨trivial, rfl⟩, fun _ => nofun⟩) ⟨⟨rfl, rfl⟩, trivial⟩)
      ⟨⟨rfl, rfl⟩, trivial⟩
  have hkept := hall _ _ _ _ _ (.gone c, []) _ hrun ⟨⟨rfl, rfl⟩, trivial⟩
  exact hkept.released c rfl ⟨0, by decide⟩ rfl rfl

end MobilePhoneOs.Ui
