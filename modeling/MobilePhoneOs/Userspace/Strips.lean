import MobilePhoneOs.Userspace.Pixels

/-!
# Strips between two full redraws

Between two full redraws the applications paint on their surfaces and tell with `UI_FLUSH` what
they painted, and the render thread copies the dirty rectangles to the stage. The law compares
the stage after the strips with what `redraw_stage` would make of it.
-/

namespace MobilePhoneOs.Ui.Pix

open Layer

/-- The pixel of the surface is in the dirty rectangle. -/
def InDirty (w : Window) (x y : ℕ) : Prop := (w.dx0 ≤ x ∧ x < w.dx1) ∧ w.dy0 ≤ y ∧ y < w.dy1

/-- The compositor, the surfaces and the stage. The ghosts `drawn` and `synced` are what the
compositor showed and what the surfaces held at the last tick. -/
structure Screen where
  comp : Compositor
  surf : Surfaces
  px : Picture
  drawn : Chrome
  synced : Surfaces

/-- The stage after the strips of a tick. -/
def Screen.afterStrips (S : Screen) : Picture := (strips S.comp).paint (Src.color S.surf) S.px

/-- The stage after a tick that does not redraw all of it. -/
def Screen.afterTick (S : Screen) (ch : Chrome) : Picture :=
  if S.comp.last_sec ≠ ch.now / 1000 % 2 ^ 32 then
    (drawStatusBar ch).paint (Src.color S.surf) S.afterStrips
  else S.afterStrips

inductive Ev
  /-- the application of the client paints and flushes -/
  | frame (c : Fin MAX_CLIENTS) (a b c' d : ℤ) (surf : Surfaces)
  | tick (ch : Chrome)

/-- What happens between two full redraws. An application flushes what it paints; on a surface
that is not shown it may paint anything. -/
def Between (S : Screen) (e : Ev) (T : Screen) : Prop :=
  match e with
  | .frame c a b c' d surf =>
    ∃ i, S.comp.winOf c = some i ∧
      (∀ j x y, Shown S.comp j → surf j x y ≠ S.surf j x y → j = i ∧
        InDirty (Compositor.flushed { S.comp.wins i with has_dirty := false } a b c' d) x y) ∧
      T = { S with comp := (S.comp.clientMsg c (.UI_FLUSH a b c' d)).1, surf := surf }
  | .tick ch =>
    S.comp.need_redraw = false ∧ T = ⟨(S.comp.renderTick ch.now).1, S.surf, S.afterTick ch, ch, S.surf⟩

/-- The stage has just been redrawn, over whatever it was before. -/
structure Redrawn (S : Screen) : Prop where
  quiet : S.comp.need_redraw = false
  px : ∃ old : Picture, S.px = (redrawStage S.comp S.drawn).paint (Src.color S.surf) old
  synced : S.synced = S.surf

/-! ## The law -/

/-- `redraw_stage` would not change the stage. -/
def Exact (S : Screen) (ch : Chrome) (px : Picture) : Prop :=
  ∀ p, OnStage p → px p = (redrawStage S.comp ch).paint (Src.color S.surf) px p

/-- The strip of the window lies in it, and on the stage. -/
def StripInside (w : Window) : Prop :=
  (w.dx0 < w.dx1 ∧ w.dx1 ≤ w.w ∧ w.x + w.dx1 ≤ UI_SCREEN_W) ∧
    w.dy0 < w.dy1 ∧ w.dy1 ≤ w.h ∧ w.y + w.dy1 ≤ UI_SCREEN_H

/-- A tick leaves what a redraw would, with strips that lie in their windows and on the stage. -/
def Lawful (S : Screen) : Ev → Prop
  | .frame .. => True
  | .tick ch => Exact S ch S.afterStrips ∧ ∀ i ∈ presented S.comp, StripInside (S.comp.wins i)

/-- What holds of every window that the compositor opens: it has its frame on the stage. -/
structure Placed (w : Window) : Prop where
  left : 2 ≤ w.x
  right : w.x + w.w ≤ UI_SCREEN_W
  top : 2 ≤ w.y
  bottom : w.y + w.h ≤ UI_SCREEN_H
  pos : 0 < w.w ∧ 0 < w.h
  strip : w.has_dirty = true → StripInside w

/-- What changed on the surfaces that are shown is in the strips of the next tick. -/
def Honest (s : Compositor) (synced surf : Surfaces) : Prop :=
  ∀ i x y, Shown s i → surf i x y ≠ synced i x y → i ∈ presented s ∧ InDirty (s.wins i) x y

/-! ## The condition -/

/-- The pixel of the stage is in the strip of the window. -/
def InStrip (w : Window) (p : ℕ × ℕ) : Prop :=
  Rect (w.x + w.dx0) (w.y + w.dy0) (w.dx1 - w.dx0) (w.dy1 - w.dy0) p

/-- The strip of the window is the last one that has the pixel. -/
def LastStrip (s : Compositor) (i : WinIdx) (p : ℕ × ℕ) : Prop :=
  i ∈ presented s ∧ InStrip (s.wins i) p ∧
    ∀ j ∈ presented s, i < j → ¬ InStrip (s.wins j) p

/-- The edge of a rectangle. -/
def Edge (x y w h : ℕ) (p : ℕ × ℕ) : Prop :=
  Rect x y w 1 p ∨ Rect x (y + h - 1) w 1 p ∨ Rect x y 1 h p ∨ Rect (x + w - 1) y 1 h p

/-- The window, with its title and its frame, has the pixel. -/
def Covers (s : Compositor) (i : WinIdx) (p : ℕ × ℕ) : Prop :=
  let w := s.wins i
  Rect w.x w.y w.w w.h p ∨ Rect w.x w.y w.w UI_TITLE_H p ∨
    Rect (w.x + 4) (w.y + 6) (uiTextW w.name) 8 p ∨
    (s.focused = some i ∧ Edge (w.x - 2) (w.y - 2) (w.w + 4) (w.h + 4) p)

/-- The window `j` is drawn after the window `i`. -/
def After (focused : Option WinIdx) (i j : WinIdx) : Prop :=
  focused ≠ some i ∧ (focused = some j ∨ i < j)

instance (focused : Option WinIdx) (i j : WinIdx) : Decidable (After focused i j) :=
  inferInstanceAs (Decidable (_ ∧ _))

/-- At the pixel the stage shows the surface of the window: an application is up, the pixel is
below the title of the window, and no window drawn later, no bar and no banner has it. -/
structure Shows (s : Compositor) (ch : Chrome) (i : WinIdx) (p : ℕ × ℕ) : Prop where
  app : s.mode = .app
  shown : Shown s i
  surface : Rect (s.wins i).x (s.wins i).y (s.wins i).w (s.wins i).h p
  title : (s.wins i).y + UI_TITLE_H ≤ p.2
  windows : ∀ j, After s.focused i j → Shown s j → ¬ Covers s j p
  bars : UI_STATUS_H ≤ p.2 ∧ p.2 < UI_SCREEN_H - UI_HOME_H
  banners : ∀ k, s.expired ch.now k = false → ¬ Rect 8 (bannerY k) (UI_SCREEN_W - 16) 22 p

/-- Each pixel of a strip shows the window of the last strip that has it. -/
def ClearStrips (s : Compositor) (ch : Chrome) : Prop := ∀ i p, LastStrip s i p → Shows s ch i p

/-- Away from the strips a redraw would paint what it painted the last time. -/
def Unmoved (s : Compositor) (drawn ch : Chrome) : Prop :=
  ∀ p, OnStage p → (∀ i ∈ presented s, ¬ InStrip (s.wins i) p) →
    redrawStage s drawn p = redrawStage s ch p

/-- What is shown of the phone has not changed: signal, call, clock and battery in the status
bar, the unread messages on the home screen, and the banners that have not run out. -/
structure Steady (s : Compositor) (drawn ch : Chrome) : Prop where
  bars : ∀ i < 4, i < drawn.sig_bars ↔ i < ch.sig_bars
  call : drawn.call_state = ch.call_state
  clock : clock drawn = clock ch
  batt_pct : drawn.batt_pct = ch.batt_pct
  batt_charging : drawn.batt_pct ≠ 0 → drawn.batt_charging = ch.batt_charging
  unread : s.mode = .home → min 9 drawn.unread_sms = min 9 ch.unread_sms
  expired : ∀ k, s.expired drawn.now k = s.expired ch.now k
  text : ∀ k, s.expired ch.now k = false → drawn.text k = ch.text k
  kind : ∀ k, s.expired ch.now k = false → drawn.kind k = ch.kind k

/-- The condition on a tick. -/
structure Clear (s : Compositor) (drawn ch : Chrome) : Prop where
  strips : ClearStrips s ch
  steady : Steady s drawn ch

/-- All ticks are clear. -/
def ClearTick (S : Screen) : Ev → Prop
  | .frame .. => True
  | .tick ch => Clear S.comp S.drawn ch

end MobilePhoneOs.Ui.Pix
