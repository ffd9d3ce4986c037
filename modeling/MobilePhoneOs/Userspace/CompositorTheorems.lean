import MobilePhoneOs.Userspace.Compositor

/-!
# When the lock screen locks

What a section of a locked compositor does is looked at event by event: those that lead out of
the lock, forward input or put pixels of an application on the screen are the ones that the
condition excludes, and a tap on OK after the PIN.
-/

namespace MobilePhoneOs.Ui

open Compositor

variable {s t : Compositor} {K : Window → Prop}

/-! ## The windows stay on the screen -/

/-- The window is on the screen, and its dirty rectangle is a part of it. -/
structure WinOk (w : Window) : Prop where
  right : w.x + w.w ≤ UI_SCREEN_W
  pos : 0 < w.w ∧ 0 < w.h
  dirty : w.has_dirty = true → w.dx0 < w.dx1 ∧ w.dx1 ≤ w.w ∧ w.dy0 < w.dy1

/-- What holds in every run. -/
def Inv (s : Compositor) : Prop := ∀ i, (s.wins i).used = true → WinOk (s.wins i)

/-- A property of windows that no section takes from a window in use. -/
structure Stable (K : Window → Prop) : Prop where
  opened : ∀ (s : Compositor) cl a b shm_id, K (s.newWindow cl a b shm_id)
  flushed : ∀ w a b c d, K w → K (flushed w a b c d)
  seen : ∀ w v, K w → K { w with visible := v }
  presented : ∀ w, K w → K { w with has_dirty := false }

/-- All windows in use have the property. -/
def All (K : Window → Prop) (s : Compositor) : Prop := ∀ i, (s.wins i).used = true → K (s.wins i)

/-- Only the window that is put back needs the property anew. -/
lemma All.setWin (h : All K s) {i : WinIdx} {w : Window} (hw : w.used = true → K w) :
    All K (s.setWin i w) := by
  intro j
  show ((Function.update s.wins i w) j).used = true → K ((Function.update s.wins i w) j)
  by_cases hj : j = i
  · rw [hj, Function.update_self]
    exact hw
  · rw [Function.update_of_ne hj]
    exact h j

/-- A new window is clamped to the screen, its corner centred. -/
lemma newWindow_ok (cl : Client) (a b shm_id : ℤ) : WinOk (s.newWindow cl a b shm_id) := by
  refine ⟨?_, ?_, nofun⟩
  · show (UI_SCREEN_W - min _ (UI_SCREEN_W - 8)) / 2 + min _ (UI_SCREEN_W - 8) ≤ UI_SCREEN_W
    omega
  · show 0 < min (if 0 < a then a.toNat else UI_WIN_W) (UI_SCREEN_W - 8) ∧
      0 < min (if 0 < b then b.toNat else UI_WIN_H) (UI_SCREEN_H - UI_STATUS_H - UI_HOME_H - 8)
    unfold UI_SCREEN_W UI_SCREEN_H UI_STATUS_H UI_HOME_H UI_WIN_W UI_WIN_H
    constructor
    all_goals split <;> omega

lemma flushed_used (w : Window) (a b c d : ℤ) : (flushed w a b c d).used = w.used := by
  unfold flushed
  simp only
  split <;> rfl

/-- The union of dirty rectangles stays in the window. -/
lemma flushed_ok {w : Window} (h : WinOk w) (a b c d : ℤ) : WinOk (flushed w a b c d) := by
  have hpos := h.pos
  have hold := h.dirty
  -- the rectangle that is added is not empty, as the window is not
  by_cases hwhole : min (a.toNat + c.toNat) w.w ≤ a.toNat ∨ min (b.toNat + d.toNat) w.h ≤ b.toNat
  · unfold flushed
    simp only [if_pos hwhole]
    split
    · rename_i hd
      have := hold hd
      exact ⟨h.right, hpos, fun _ => by dsimp only; omega⟩
    · exact ⟨h.right, hpos, fun _ => by dsimp only; omega⟩
  · unfold flushed
    simp only [if_neg hwhole]
    split
    · rename_i hd
      have := hold hd
      exact ⟨h.right, hpos, fun _ => by dsimp only; omega⟩
    · exact ⟨h.right, hpos, fun _ => by dsimp only; omega⟩

/-- A dropped window is not in use any more. -/
lemma All.dropWindow (h : All K s) (i : WinIdx) : All K (s.dropWindow i) := by
  unfold Compositor.dropWindow
  split
  · have hset : All K (s.setWin i { s.wins i with va := false, used := false, fd := -1 }) :=
      h.setWin nofun
    dsimp only
    split
    · exact hset
    · exact hset
  · exact h

variable {c : Fin MAX_CLIENTS}

/-- A client has a window only while the slot is in use. -/
lemma winOf_some {i : WinIdx} (h : s.winOf c = some i) :
    (s.clients c).win = some i ∧ (s.wins i).used = true := by
  obtain ⟨hwin, hused⟩ := Option.filter_eq_some_iff.mp h
  exact ⟨hwin, hused⟩

/-- One case for each message type, each with a change that `Stable` lists. -/
lemma All.clientMsg (hK : Stable K) (h : All K s) (c : Fin MAX_CLIENTS) (m : Msg) : All K (s.clientMsg c m).1 := by
  cases m with
  | UI_HELLO text => exact h
  | UI_OPEN win a b shm =>
    unfold Compositor.clientMsg
    dsimp only
    split
    · exact h.setWin fun _ => hK.opened s _ a b _
    · exact h
  | UI_FLUSH a b c' d =>
    rw [Compositor.clientMsg]
    split
    · rename_i i hi
      exact h.setWin fun _ => hK.flushed _ a b c' d (h i (winOf_some hi).2)
    · exact h
  | UI_SHOW =>
    rw [Compositor.clientMsg]
    split
    · rename_i i hi
      exact h.setWin fun _ => hK.seen _ true (h i (winOf_some hi).2)
    · exact h
  | UI_HIDE =>
    rw [Compositor.clientMsg]
    split
    · rename_i i hi
      have hset : All K (s.setWin i { s.wins i with visible := false }) :=
        h.setWin fun _ => hK.seen _ false (h i (winOf_some hi).2)
      dsimp only
      split
      · exact hset
      · exact hset
    · exact h
  | UI_CLOSE =>
    rw [Compositor.clientMsg]
    split
    · rename_i i hi
      exact h.dropWindow i
    · exact h
  | UI_NOTIFY now => exact h
  | other => exact h

lemma All.launchApp (hK : Stable K) (h : All K s) (name : Str) : All K (s.launchApp name).1 := by
  unfold Compositor.launchApp
  split
  · rename_i i hi
    have hused := List.find?_some hi
    simp only [Bool.and_eq_true] at hused
    exact h.setWin fun _ => hK.seen _ true (h i hused.1)
  · exact h

lemma tapApp_wins (x y : ℤ) (down : Bool) : (s.tapApp x y down).1.wins = s.wins := by
  unfold Compositor.tapApp
  split
  · rfl
  split
  · rfl
  dsimp only
  split <;> rfl

lemma tapLock_wins (now : ℕ) (x y : ℤ) : (s.tapLock now x y).wins = s.wins := by
  unfold Compositor.tapLock
  split
  · rfl
  dsimp only
  split
  all_goals split <;> rfl

/-- A touch moves the focus or types a digit, but changes no geometry. -/
lemma All.syn (hK : Stable K) (h : All K s) (now : ℕ) (code : ℤ) : All K (s.syn now code).1 := by
  unfold Compositor.syn
  split
  · exact h
  split
  · cases s.mode with
    | lock =>
      intro i
      rw [tapLock_wins]
      exact h i
    | home =>
      show All K (s.tapHome s.abs_x s.abs_y).1
      unfold Compositor.tapHome
      split
      · exact h.launchApp hK _
      · exact h
    | app =>
      intro i
      rw [tapApp_wins]
      exact h i
  · intro i
    rw [tapApp_wins]
    exact h i

/-- Presenting clears the dirty mark of a window. -/
lemma All.presentAll (hK : Stable K) (h : All K s) (dirty : List WinIdx) : All K (s.presentAll dirty).1 := by
  induction dirty generalizing s with
  | nil => exact h
  | cons i dirty ih =>
    rw [presentAll]
    split
    · apply ih
      exact h.setWin fun hu => hK.presented _ (h i hu)
    · exact ih h

variable {a : Event × List Out}

/-- What `Stable` lists is all that a section does to a window. -/
lemma All.step (hK : Stable K) (h : All K s) (hs : Step s a t) : All K t := by
  obtain ⟨-, hact⟩ := hs
  have ht : t = (s.act a.1).1 := by rw [hact]
  rw [ht]
  cases a.1 with
  | accept fd thread =>
    show All K (s.accept fd thread)
    unfold Compositor.accept
    split
    · split <;> exact h
    · exact h
  | msg c m => exact h.clientMsg hK c m
  | gone c =>
    show All K (s.clientGone c)
    unfold clientGone
    split
    · rename_i i hi
      exact h.dropWindow i
    · exact h
  | modem now => exact h
  | abs code value =>
    show All K (s.abs code value)
    unfold Compositor.abs
    split
    · exact h
    · split <;> exact h
  | key code value =>
    show All K (s.key code value)
    unfold Compositor.key
    split
    · exact h
    · split <;> exact h
  | syn now code => exact h.syn hK now code
  | render now =>
    have hmask : All K { s with win_dirty_mask := fun _ => false } := h
    have hp := hmask.presentAll hK ((List.finRange MAX_WINS).filter s.win_dirty_mask)
    show All K (recompose _ now).1
    unfold recompose
    split
    · exact hp
    · split <;> exact hp

lemma stable_winOk : Stable WinOk where
  opened _ := newWindow_ok
  flushed _ a b c d h := flushed_ok h a b c d
  seen _ _ h := ⟨h.right, h.pos, h.dirty⟩
  presented _ h := ⟨h.right, h.pos, nofun⟩

lemma Inv.step (h : Inv s) (hs : Step s a t) : Inv t :=
  All.step stable_winOk h hs

/-! ## The screen of a locked compositor -/

variable {i j : ℕ} {st : Stage}

lemma uiFill_keeps (h : st i j = false) (x y w k : ℕ) :
    st.uiFill x y w k i j = false := by
  unfold Stage.uiFill
  split
  · rfl
  · exact h

lemma drawStatusBar_false (hi : i < UI_SCREEN_W) (hj : j < UI_STATUS_H) :
    drawStatusBar st i j = false := by
  unfold drawStatusBar Stage.uiFill
  rw [if_pos]
  unfold UI_STATUS_H at *
  unfold UI_SCREEN_H
  omega

/-- The lock screen fills every row below the status bar. -/
lemma drawLockScreen_false (hi : i < UI_SCREEN_W) (hj : UI_STATUS_H ≤ j)
    (hlt : j < UI_SCREEN_H) : drawLockScreen st i j = false := by
  unfold drawLockScreen Stage.uiFill
  rw [if_pos]
  omega

/-- Banners add no pixel of an application. -/
lemma drawBanners_keeps (h : st i j = false) (now : ℕ) :
    s.drawBanners now st i j = false := by
  unfold drawBanners
  induction List.finRange MAX_BANNERS generalizing st with
  | nil => exact h
  | cons k ks ih =>
    rw [List.foldl_cons]
    apply ih
    unfold drawBanner
    split
    · exact h
    · exact uiFill_keeps h _ _ _ _

/-- In lock mode the whole stage is free of application pixels. -/
lemma redrawStage_locked (hlock : s.mode = .lock) (now : ℕ) (hi : i < UI_SCREEN_W)
    (hj : j < UI_SCREEN_H) : s.redrawStage now i j = false := by
  unfold redrawStage
  simp only [hlock, ne_eq, not_true_eq_false, if_false]
  apply drawBanners_keeps
  by_cases hbar : j < UI_STATUS_H
  · exact drawStatusBar_false hi hbar
  · exact uiFill_keeps (drawLockScreen_false hi (Nat.le_of_not_lt hbar) hj) _ _ _ _

/-- A full redraw of a locked compositor shows nothing of the applications. -/
lemma recompose_private (hlock : s.mode = .lock) (now : ℕ) :
    ∀ o ∈ (s.recompose now).2, o.Private := by
  intro o ho
  unfold recompose at ho
  split at ho
  · rw [List.mem_singleton.mp ho]
    intro i j _ _ hi _ hj
    exact redrawStage_locked hlock now hi (by omega)
  · split at ho
    · rw [List.mem_singleton.mp ho]
      intro i j _ _ hi _ hj
      exact drawStatusBar_false hi (by omega)
    · cases ho

/-- A strip shows at least one pixel of its window, as a dirty rectangle is not empty. -/
lemma strip_not_private (h : Inv s) {i : WinIdx} (hready : s.ready i = true) :
    ¬ (Out.blit ((s.wins i).x + (s.wins i).dx0) ((s.wins i).y + (s.wins i).dy0)
      ((s.wins i).dx1 - (s.wins i).dx0) ((s.wins i).dy1 - (s.wins i).dy0)
      (s.strip (s.wins i))).Private := by
  simp only [ready, Bool.and_eq_true] at hready
  have hw := h i hready.1.1.1
  have hd := hw.dirty hready.2
  have hright := hw.right
  intro hpriv
  have hpx := hpriv ((s.wins i).x + (s.wins i).dx0) ((s.wins i).y + (s.wins i).dy0)
    (Nat.le_refl _) (by omega) (by omega) (Nat.le_refl _) (by omega)
  unfold strip Stage.copyIn at hpx
  rw [if_pos (by omega)] at hpx
  cases hpx

lemma presentAll_mode (dirty : List WinIdx) : (s.presentAll dirty).1.mode = s.mode := by
  induction dirty generalizing s with
  | nil => rfl
  | cons i dirty ih =>
    rw [presentAll]
    split
    · exact ih
    · exact ih

/-- Strips stay away exactly when no window is ready. -/
lemma presentAll_private_iff (h : Inv s) (dirty : List WinIdx) :
    (∀ o ∈ (s.presentAll dirty).2, o.Private) ↔ ∀ i ∈ dirty, s.ready i = false := by
  induction dirty with
  | nil => exact iff_of_true nofun nofun
  | cons i dirty ih =>
    rw [presentAll]
    cases hready : s.ready i with
    | true =>
      refine iff_of_false (fun hpriv => ?_) fun hall => ?_
      · exact strip_not_private h hready (hpriv _ (List.mem_append_left _ (List.mem_singleton_self _)))
      · rw [hall i List.mem_cons_self] at hready
        cases hready
    | false =>
      rw [if_neg Bool.false_ne_true, ih]
      simp [hready]

lemma recompose_mode (now : ℕ) : (s.recompose now).1.mode = s.mode := by
  unfold recompose
  split
  · rfl
  · split <;> rfl

/-! ## One section -/

/-- Dropping the focused window goes to the home screen, in lock mode too. -/
lemma dropWindow_mode (i : WinIdx) : (s.dropWindow i).mode =
    if (s.wins i).used = true ∧ s.focused = some i then .home else s.mode := by
  unfold Compositor.dropWindow
  by_cases hused : (s.wins i).used = true
  · by_cases hfocus : s.focused = some i
    · simp [hused, hfocus, redraw, setWin]
    · simp [hused, hfocus, redraw, setWin]
  · simp [hused]

/-- Dropping the window of a client keeps the lock exactly when it has not the focus. -/
lemma drop_locked_iff (hlock : s.mode = .lock) {i : WinIdx}
    (hwin : (s.clients c).win = some i) :
    (s.dropWindow i).mode = .lock ↔ ¬ FocusedClient s c := by
  have hfocused : FocusedClient s c ↔ (s.wins i).used = true ∧ s.focused = some i := by
    unfold FocusedClient winOf
    rw [hwin]
    constructor
    · intro hf
      obtain ⟨j, hj, hfj⟩ := hf
      obtain ⟨hij, hused⟩ := Option.filter_eq_some_iff.mp hj
      rw [Option.some.inj hij] at *
      exact ⟨hused, hfj⟩
    · exact fun hat => ⟨i, Option.filter_eq_some_iff.mpr ⟨rfl, hat.1⟩, hat.2⟩
  rw [dropWindow_mode, hfocused]
  by_cases hat : (s.wins i).used = true ∧ s.focused = some i
  · simp [hat]
  · simp [hat, hlock]

lemma not_focused (hwin : s.winOf c = none) : ¬ FocusedClient s c := by
  intro hf
  obtain ⟨i, hi, -⟩ := hf
  rw [hwin] at hi
  cases hi

/-- What the thread of a client sends goes to the client, and is no input. -/
def Answers (s : Compositor) (c : Fin MAX_CLIENTS) (outs : List Out) : Prop :=
  ∀ o ∈ outs, ∃ type win a b d, type ≠ .UI_EVENT ∧ o = .send (s.clients c).fd type win a b d

lemma answers_nil (c : Fin MAX_CLIENTS) : Answers s c [] :=
  fun _ ho => absurd ho List.not_mem_nil

lemma answers_one (type : MsgType) (htype : type ≠ .UI_EVENT) {win : ℕ}
    {a b d : ℤ} : Answers s c [.send (s.clients c).fd type win a b d] :=
  fun _ ho => ⟨type, win, a, b, d, htype, List.mem_singleton.mp ho⟩

/-- No message is forwarded to another client, and none is answered with an event. -/
lemma clientMsg_answers (c : Fin MAX_CLIENTS) (m : Msg) : Answers s c (s.clientMsg c m).2 := by
  cases m with
  | UI_HELLO text => exact answers_one .UI_WELCOME nofun
  | UI_OPEN win a b shm =>
    unfold Compositor.clientMsg
    dsimp only
    split
    · exact answers_one .UI_OPENED nofun
    · exact answers_one .UI_CLOSED nofun
  | UI_FLUSH a b c' d =>
    unfold Compositor.clientMsg
    dsimp only
    split <;> exact answers_nil c
  | UI_SHOW =>
    unfold Compositor.clientMsg
    dsimp only
    split
    · exact answers_one .UI_FOCUS nofun
    · exact answers_nil c
  | UI_HIDE =>
    unfold Compositor.clientMsg
    dsimp only
    split
    · split
      · exact answers_one .UI_FOCUS nofun
      · exact answers_nil c
    · exact answers_nil c
  | UI_CLOSE =>
    unfold Compositor.clientMsg
    dsimp only
    split <;> exact answers_nil c
  | UI_NOTIFY now => exact answers_nil c
  | other => exact answers_nil c

/-- A client is never sent input by its own thread. -/
lemma clientMsg_private (c : Fin MAX_CLIENTS) (m : Msg) : ∀ o ∈ (s.clientMsg c m).2, o.Private := by
  intro o ho
  obtain ⟨type, _, _, _, _, htype, rfl⟩ := clientMsg_answers c m o ho
  exact htype

/-- A message keeps the lock exactly under the condition. -/
lemma clientMsg_locked_iff (hlock : s.mode = .lock) (c : Fin MAX_CLIENTS) (m : Msg)
    (outs : List Out) : (s.clientMsg c m).1.mode = .lock ↔ Clean s (.msg c m, outs) := by
  cases m with
  | UI_HELLO text => exact iff_of_true hlock fun _ => trivial
  | UI_OPEN win a b shm =>
    apply iff_of_true _ fun _ => trivial
    unfold Compositor.clientMsg
    dsimp only
    split
    · exact hlock
    · exact hlock
  | UI_FLUSH a b c' d =>
    apply iff_of_true _ fun _ => trivial
    unfold Compositor.clientMsg
    dsimp only
    split
    · exact hlock
    · exact hlock
  | UI_SHOW =>
    have hclean : Clean s (.msg c .UI_SHOW, outs) ↔ s.winOf c = none := ⟨(· hlock), fun h _ => h⟩
    rw [hclean]
    unfold Compositor.clientMsg
    cases hwin : s.winOf c with
    | none => exact iff_of_true hlock rfl
    | some i => exact iff_of_false nofun nofun
  | UI_HIDE =>
    have hclean : Clean s (.msg c .UI_HIDE, outs) ↔ ¬ FocusedClient s c :=
      ⟨(· hlock), fun h _ => h⟩
    rw [hclean]
    unfold Compositor.clientMsg
    cases hwin : s.winOf c with
    | none => exact iff_of_true hlock (not_focused hwin)
    | some i =>
      by_cases hfocus : s.focused = some i
      · apply iff_of_false
        · simp [setWin, hfocus]
        · exact not_not_intro ⟨i, hwin, hfocus⟩
      · apply iff_of_true
        · simp [setWin, hfocus, redraw, hlock]
        · intro hf
          obtain ⟨j, hj, hfj⟩ := hf
          rw [hwin] at hj
          rw [Option.some.inj hj] at hfocus
          exact hfocus hfj
  | UI_CLOSE =>
    have hclean : Clean s (.msg c .UI_CLOSE, outs) ↔ ¬ FocusedClient s c :=
      ⟨(· hlock), fun h _ => h⟩
    rw [hclean]
    unfold Compositor.clientMsg
    cases hwin : (s.clients c).win with
    | none =>
      apply iff_of_true hlock
      apply not_focused
      unfold winOf
      rw [hwin]
      rfl
    | some i => exact drop_locked_iff hlock hwin
  | UI_NOTIFY now => exact iff_of_true hlock fun _ => trivial
  | other => exact iff_of_true hlock fun _ => trivial

/-- The lock survives the end of a client that is not focused. -/
lemma clientGone_locked_iff (hlock : s.mode = .lock) (c : Fin MAX_CLIENTS) :
    (s.clientGone c).mode = .lock ↔ ¬ FocusedClient s c := by
  unfold clientGone
  cases hwin : (s.clients c).win with
  | none =>
    apply iff_of_true hlock
    apply not_focused
    unfold winOf
    rw [hwin]
    rfl
  | some i => exact drop_locked_iff hlock hwin

/-- The lock is left by a tap on OK when the buffer reads as the PIN, and by no other. -/
lemma tapLock_locked_iff (hlock : s.mode = .lock) (now : ℕ) (x y : ℤ) :
    (s.tapLock now x y).mode = .lock ↔
      ∀ r c, keyAt x y = some (r, c) → keyOf r c = .ok → cstr s.pin ≠ PIN := by
  unfold tapLock
  cases hkey : keyAt x y with
  | none => exact iff_of_true hlock (by simp)
  | some rc =>
    have hat : (∀ r c, some rc = some (r, c) → keyOf r c = .ok → cstr s.pin ≠ PIN) ↔
        (keyOf rc.1 rc.2 = .ok → cstr s.pin ≠ PIN) := by
      constructor
      · exact fun hall => hall rc.1 rc.2 rfl
      · intro hone r c hrc
        rw [Option.some.inj hrc] at hone
        exact hone
    rw [hat]
    obtain ⟨r, c⟩ := rc
    dsimp only
    cases keyOf r c with
    | digit d =>
      apply iff_of_true _ (by simp)
      dsimp only
      split
      · exact hlock
      · exact hlock
    | back =>
      apply iff_of_true _ (by simp)
      dsimp only
      split
      · exact hlock
      · exact hlock
    | ok =>
      by_cases hpin : cstr s.pin = PIN
      · simp [hpin]
      · simp [hpin, pushBanner, clearPin, hlock]

/-- The end of a touch is told to the focused window, whatever the mode. -/
lemma tapApp_release (x y : ℤ) : (s.tapApp x y false).1 = s ∧
    ((∀ o ∈ (s.tapApp x y false).2, o.Private) ↔ ∀ i, s.focused = some i →
      (s.wins i).used = true → inside (s.wins i) x y = false) := by
  unfold tapApp
  rw [if_neg (fun h => Bool.false_ne_true h.1)]
  cases hfocus : s.focused with
  | none => exact ⟨rfl, iff_of_true nofun nofun⟩
  | some i =>
    dsimp only
    by_cases hin : ((s.wins i).used && inside (s.wins i) x y) = true
    · rw [if_pos hin]
      refine ⟨rfl, iff_of_false ?_ ?_⟩
      · intro hpriv
        exact hpriv _ (List.mem_append_right _ (List.mem_singleton_self _)) rfl
      · intro hout
        rw [Bool.and_eq_true] at hin
        rw [hout i rfl hin.1] at hin
        cases hin.2
    · rw [if_neg hin]
      refine ⟨rfl, iff_of_true nofun ?_⟩
      intro j hj hused
      rw [← Option.some.inj hj] at *
      cases hx : inside (s.wins i) x y with
      | false => rfl
      | true => exact absurd (by rw [hused, hx]; rfl) hin

/-- A tap in lock mode: the keypad decides on the lock, the release on what is told. -/
lemma syn_lawful_iff (hlock : s.mode = .lock) (now : ℕ) (code : ℤ) (outs : List Out) :
    (((s.syn now code).1.mode = .lock ∨ UnlockTap s (.syn now code)) ∧
      ∀ o ∈ (s.syn now code).2, o.Private) ↔ Clean s (.syn now code, outs) := by
  unfold syn
  by_cases hidle : code ≠ SYN_REPORT ∨ s.down = s.last_down
  · rw [if_pos hidle]
    refine iff_of_true ⟨.inl hlock, nofun⟩ fun _ => ?_
    -- nothing is reported, or the finger has not moved on or off the glass
    constructor
    · intro hcode hdown hlast
      cases hidle with
      | inl hne => exact absurd hcode hne
      | inr heq => rw [hdown, hlast] at heq; cases heq
    · intro hcode hdown hlast
      cases hidle with
      | inl hne => exact absurd hcode hne
      | inr heq => rw [hdown, hlast] at heq; cases heq
  · rw [if_neg hidle]
    obtain ⟨hcode, hmoved⟩ := not_or.mp hidle
    have hcode : code = SYN_REPORT := not_not.mp hcode
    cases hdown : s.down with
    | true =>
      have hlast : s.last_down = false := by
        rw [hdown] at hmoved
        simpa using hmoved
      simp only [hlock, if_pos]
      have hclean : Clean s (.syn now code, outs) ↔ ∀ r c, keyAt s.abs_x s.abs_y = some (r, c) →
          keyOf r c = .ok → cstr s.pin = PIN → s.typed = PIN := by
        constructor
        · exact fun h => (h hlock).2 hcode hdown hlast
        · intro h _
          refine ⟨fun _ hup => ?_, fun _ _ _ => h⟩
          rw [hdown] at hup
          cases hup
      rw [hclean]
      rw [tapLock_locked_iff hlock]
      constructor
      · intro h r c hkey hok hpin
        cases h.1 with
        | inl hkeeps => exact absurd hpin (hkeeps r c hkey hok)
        | inr hunlock =>
          obtain ⟨_, _, _, _, _, _, _, _, htyped⟩ := hunlock
          exact htyped
      · intro h
        refine ⟨?_, nofun⟩
        by_cases hopens : ∃ r c, keyAt s.abs_x s.abs_y = some (r, c) ∧ keyOf r c = .ok ∧
            cstr s.pin = PIN
        · obtain ⟨r, c, hkey, hok, hpin⟩ := hopens
          right
          rw [hcode]
          exact ⟨now, r, c, rfl, hdown, hlast, hkey, hok, h r c hkey hok hpin⟩
        · left
          intro r c hkey hok hpin
          exact hopens ⟨r, c, hkey, hok, hpin⟩
    | false =>
      have hlast : s.last_down = true := by
        rw [hdown] at hmoved
        simpa using hmoved
      have hclean : Clean s (.syn now code, outs) ↔ ∀ i, s.focused = some i →
          (s.wins i).used = true → inside (s.wins i) s.abs_x s.abs_y = false := by
        constructor
        · exact fun h => (h hlock).1 hcode hdown hlast
        · intro h _
          refine ⟨fun _ _ _ => h, fun _ hdn => ?_⟩
          rw [hdown] at hdn
          cases hdn
      obtain ⟨hsame, hpriv⟩ := tapApp_release (s := s) s.abs_x s.abs_y
      rw [hclean, ← hpriv]
      show ((s.tapApp s.abs_x s.abs_y false).1.mode = .lock ∨ _) ∧ _ ↔ _
      rw [hsame]
      exact ⟨fun h => h.2, fun h => ⟨.inl hlock, h⟩⟩

/-- A tick leaves the lock alone, and shows something exactly when a dirty window is ready. -/
lemma render_private_iff (h : Inv s) (hlock : s.mode = .lock) (now : ℕ) :
    (s.renderTick now).1.mode = .lock ∧ ((∀ o ∈ (s.renderTick now).2, o.Private) ↔
      ∀ i, s.win_dirty_mask i = true → s.ready i = false) := by
  have hmask : Inv { s with win_dirty_mask := fun _ => false } := h
  have hpres := presentAll_private_iff hmask ((List.finRange MAX_WINS).filter s.win_dirty_mask)
  have hmode : (presentAll { s with win_dirty_mask := fun _ => false }
      ((List.finRange MAX_WINS).filter s.win_dirty_mask)).1.mode = .lock :=
    (presentAll_mode _).trans hlock
  refine ⟨(recompose_mode now).trans hmode, ?_⟩
  have hrest := recompose_private hmode now
  constructor
  · intro hall i hi
    apply hpres.mp (fun o ho => hall o (List.mem_append_left _ ho)) i
    exact List.mem_filter.mpr ⟨List.mem_finRange i, hi⟩
  · intro hnone o ho
    cases List.mem_append.mp ho with
    | inl hstrip => exact hpres.mpr (fun i hi => hnone i (List.mem_filter.mp hi).2) o hstrip
    | inr hback => exact hrest o hback

/-- A section obeys the law exactly under the condition. -/
lemma lawful_iff (h : Inv s) (hs : Step s a t) :
    Lawful s a t ↔ Clean s a := by
  obtain ⟨e, outs⟩ := a
  obtain ⟨-, hact⟩ := hs
  have ht : t = (s.act e).1 := by rw [hact]
  have houts : outs = (s.act e).2 := by rw [hact]
  by_cases hlock : s.mode = .lock
  · have hlaw : Lawful s (e, outs) t ↔
        ((s.act e).1.mode = .lock ∨ UnlockTap s e) ∧ ∀ o ∈ (s.act e).2, o.Private := by
      rw [ht, houts]
      exact ⟨(· hlock), fun hl _ => hl⟩
    rw [hlaw]
    -- only a report of the input leaves the lock by the PIN
    have hkept : (∀ now code, e ≠ .syn now code) → (∀ o ∈ (s.act e).2, o.Private) →
        (((s.act e).1.mode = .lock ∨ UnlockTap s e) ∧ (∀ o ∈ (s.act e).2, o.Private) ↔
          (s.act e).1.mode = .lock) := by
      intro hne hpriv
      constructor
      · intro hl
        cases hl.1 with
        | inl hm => exact hm
        | inr hunlock =>
          obtain ⟨now, _, _, he, -⟩ := hunlock
          exact absurd he (hne now _)
      · exact fun hm => ⟨.inl hm, hpriv⟩
    have hquiet : ∀ {outs : List Out}, outs = [] → ∀ o ∈ outs, o.Private := by
      intro outs hnil o ho
      rw [hnil] at ho
      exact absurd ho List.not_mem_nil
    cases e with
    | accept fd thread =>
      rw [hkept nofun (hquiet rfl)]
      apply iff_of_true _ fun _ => trivial
      show (s.accept fd thread).mode = .lock
      unfold Compositor.accept
      split
      · split
        · exact hlock
        · exact hlock
      · exact hlock
    | msg c m =>
      rw [hkept nofun (clientMsg_private c m)]
      exact clientMsg_locked_iff hlock c m outs
    | gone c =>
      rw [hkept nofun (hquiet rfl)]
      show (s.clientGone c).mode = .lock ↔ _
      rw [clientGone_locked_iff hlock c]
      exact ⟨fun hf _ => hf, (· hlock)⟩
    | modem now =>
      rw [hkept nofun (hquiet rfl)]
      exact iff_of_true hlock fun _ => trivial
    | abs code value =>
      rw [hkept nofun (hquiet rfl)]
      apply iff_of_true _ fun _ => trivial
      show (s.abs code value).mode = .lock
      unfold Compositor.abs
      split
      · exact hlock
      · split
        · exact hlock
        · exact hlock
    | key code value =>
      rw [hkept nofun (hquiet rfl)]
      apply iff_of_true _ fun _ => trivial
      show (s.key code value).mode = .lock
      unfold Compositor.key
      split
      · exact hlock
      · split
        · rfl
        · exact hlock
    | syn now code => exact syn_lawful_iff hlock now code outs
    | render now =>
      obtain ⟨hmode, hpriv⟩ := render_private_iff h hlock now
      constructor
      · exact fun hl _ => hpriv.mp hl.2
      · exact fun hc => ⟨.inl hmode, hpriv.mpr (hc hlock)⟩
  · exact iff_of_true (fun hl => absurd hl hlock) fun hl => absurd hl hlock

/-! ## Runs -/

lemma Inv.boot (stage : Stage) (x y : ℤ) : Inv (boot stage x y) := fun _ => nofun

/-- The runs in which every section of a locked compositor keeps the lock, but for the PIN, and
shows and tells nothing of the applications are those whose sections all meet the condition. -/
theorem lock_screen (stage : Stage) (x y : ℤ) (as : List (Event × List Out)) (t : Compositor) :
    Run (Guarded Clean Step) (boot stage x y) as t ↔
      Run (fun s a u => Step s a u ∧ Lawful s a u) (boot stage x y) as t := by
  apply Run.guarded_iff (I := Inv)
  · exact fun _ _ _ h hs _ => h.step hs
  · exact fun _ _ _ h hs => lawful_iff h hs
  · exact Inv.boot stage x y

/-- An application opens a window and shows it: the lock screen is gone. -/
theorem show_leaves_lock : ¬ ∀ stage x y as t a u, Run Step (boot stage x y) as t → Step t a u →
    Lawful t a u := by
  intro hall
  let c : Fin MAX_CLIENTS := ⟨0, by decide⟩
  have hopen : Run Step (boot (fun _ _ => false) 0 0)
      ([] ++ [(.accept 3 true, [])] ++
        [(.msg c (.UI_OPEN 0 0 0 (some 5)), [.send 3 .UI_OPENED 1 5 160 56])]) _ :=
    .snoc (.snoc .nil ⟨trivial, rfl⟩) ⟨rfl, rfl⟩
  have hlaw := hall _ _ _ _ _ (.msg c .UI_SHOW, [.send 3 .UI_FOCUS 1 1 0 0]) _ hopen ⟨rfl, rfl⟩ rfl
  cases hlaw.1 with
  | inl hlock => cases hlock
  | inr hunlock =>
    obtain ⟨_, _, _, he, -⟩ := hunlock
    cases he

end MobilePhoneOs.Ui
