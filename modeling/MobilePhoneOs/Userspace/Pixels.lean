import MobilePhoneOs.Lib.Layer
import MobilePhoneOs.Userspace.Compositor

/-!
# What the compositor paints (`userspace/compositor.c`, `userspace/ui/ui_gfx.c`)

Each drawing function is the layer that it paints: at a pixel of the stage a colour of the
compositor, or a pixel of the surface of a window. The surfaces belong to the applications, and
so the colours that they stand for are looked up when the layer is painted.
-/

namespace MobilePhoneOs.Ui.Pix

open Layer

/-- Where the colour of a pixel comes from. -/
inductive Src
  | ink (c : ℕ)
  /-- the pixel in column `x` and row `y` of the surface of the window `i` -/
  | px (i : WinIdx) (x y : ℕ)
deriving DecidableEq

/-- A layer on the stage, by column and row. -/
abbrev Paint := Layer (ℕ × ℕ) Src

/-- The pixels of the surfaces. -/
abbrev Surfaces := WinIdx → ℕ → ℕ → ℕ

/-- The pixels of the stage. -/
abbrev Picture := ℕ × ℕ → ℕ

def Src.color (surf : Surfaces) : Src → ℕ
  | .ink c => c
  | .px i x y => surf i x y

/-! ## `ui_gfx.c` -/

def Rect (x y w h : ℕ) (p : ℕ × ℕ) : Prop := (x ≤ p.1 ∧ p.1 < x + w) ∧ y ≤ p.2 ∧ p.2 < y + h

instance (x y w h : ℕ) (p : ℕ × ℕ) : Decidable (Rect x y w h p) :=
  inferInstanceAs (Decidable (_ ∧ _))

def OnStage (p : ℕ × ℕ) : Prop := p.1 < UI_SCREEN_W ∧ p.2 < UI_SCREEN_H

instance (p : ℕ × ℕ) : Decidable (OnStage p) := inferInstanceAs (Decidable (_ ∧ _))

/-- `ui_fill` -/
def uiFill (x y w h c : ℕ) : Paint := fun p =>
  if Rect x y w h p ∧ OnStage p then some (.ink c) else none

/-- `ui_rect` -/
def uiRect (x y w h c : ℕ) : Paint :=
  if w = 0 ∨ h = 0 then stack []
  else
    stack [uiFill x y w 1 c, uiFill x (y + h - 1) w 1 c, uiFill x y 1 h c,
      uiFill (x + w - 1) y 1 h c]

/-- `ui_text_w` -/
def uiTextW (str : Str) : ℕ := str.length * 8

/-- The rows of the characters in `glyphs`. -/
def glyphs : Char → List ℕ
  | '!' => [0x18, 0x18, 0x18, 0x18, 0x18, 0, 0x18, 0]
  | '-' => [0, 0, 0, 0, 0x7e, 0, 0, 0]
  | '.' => [0, 0, 0, 0, 0, 0, 0x18, 0x18]
  | ':' => [0, 0x18, 0x18, 0, 0, 0x18, 0x18, 0]
  | '/' => [0x03, 0x03, 0x06, 0x0c, 0x18, 0x30, 0x60, 0xc0]
  | '#' => [0x24, 0x24, 0xff, 0x24, 0x24, 0xff, 0x24, 0x24]
  | '=' => [0, 0, 0x7e, 0, 0x7e, 0, 0, 0]
  | '+' => [0, 0x18, 0x18, 0x7e, 0x18, 0x18, 0, 0]
  | '*' => [0x66, 0x3c, 0xff, 0x3c, 0x66, 0, 0, 0]
  | '(' => [0x0c, 0x18, 0x30, 0x30, 0x30, 0x30, 0x18, 0x0c]
  | ')' => [0x30, 0x18, 0x0c, 0x0c, 0x0c, 0x0c, 0x18, 0x30]
  | '?' => [0x7e, 0xc3, 0x03, 0x0e, 0x18, 0, 0x18, 0]
  | ',' => [0, 0, 0, 0, 0, 0x18, 0x18, 0x30]
  | '%' => [0xc3, 0xc3, 0x06, 0x0c, 0x18, 0x30, 0x63, 0xc3]
  | '<' => [0x06, 0x0c, 0x18, 0x30, 0x18, 0x0c, 0x06, 0]
  | '>' => [0x60, 0x30, 0x18, 0x0c, 0x18, 0x30, 0x60, 0]
  | '0' => [0x7e, 0xc3, 0xc3, 0xc3, 0xc3, 0xc3, 0xc3, 0x7e]
  | '1' => [0x18, 0x38, 0x18, 0x18, 0x18, 0x18, 0x18, 0x7e]
  | '2' => [0x7e, 0xc3, 0x03, 0x07, 0x1e, 0x78, 0xe0, 0xff]
  | '3' => [0x7e, 0xc3, 0x03, 0x03, 0x3e, 0x03, 0xc3, 0x7e]
  | '4' => [0x0c, 0x1c, 0x3c, 0x6c, 0xcc, 0xff, 0x0c, 0x0c]
  | '5' => [0xff, 0xc0, 0xfe, 0x03, 0x03, 0x03, 0xc3, 0x7e]
  | '6' => [0x3e, 0x60, 0xc0, 0xfe, 0xc3, 0xc3, 0xc3, 0x7e]
  | '7' => [0xff, 0x03, 0x06, 0x0c, 0x18, 0x30, 0x30, 0x30]
  | '8' => [0x7e, 0xc3, 0xc3, 0x7e, 0xc3, 0xc3, 0xc3, 0x7e]
  | '9' => [0x7e, 0xc3, 0xc3, 0xc3, 0x7f, 0x03, 0x06, 0x7c]
  | 'A' => [0x18, 0x3c, 0x66, 0x66, 0x7e, 0x66, 0x66, 0x66]
  | 'B' => [0xfc, 0x66, 0x66, 0x7c, 0x66, 0x66, 0x66, 0xfc]
  | 'C' => [0x3c, 0x66, 0xc0, 0xc0, 0xc0, 0xc0, 0x66, 0x3c]
  | 'D' => [0xf8, 0x6c, 0x66, 0x66, 0x66, 0x66, 0x6c, 0xf8]
  | 'E' => [0xfe, 0x62, 0x68, 0x78, 0x68, 0x62, 0x62, 0xfe]
  | 'F' => [0xfe, 0x62, 0x68, 0x78, 0x68, 0x60, 0x60, 0xf0]
  | 'G' => [0x3c, 0x66, 0xc0, 0xc0, 0xce, 0xc6, 0x66, 0x3e]
  | 'H' => [0x66, 0x66, 0x66, 0x7e, 0x66, 0x66, 0x66, 0x66]
  | 'I' => [0x3c, 0x18, 0x18, 0x18, 0x18, 0x18, 0x18, 0x3c]
  | 'J' => [0x1e, 0x0c, 0x0c, 0x0c, 0x0c, 0xcc, 0xcc, 0x78]
  | 'K' => [0xe6, 0x66, 0x6c, 0x78, 0x78, 0x6c, 0x66, 0xe6]
  | 'L' => [0xf0, 0x60, 0x60, 0x60, 0x60, 0x62, 0x66, 0xfe]
  | 'M' => [0xc6, 0xee, 0xfe, 0xd6, 0xc6, 0xc6, 0xc6, 0xc6]
  | 'N' => [0xc6, 0xe6, 0xf6, 0xde, 0xce, 0xc6, 0xc6, 0xc6]
  | 'O' => [0x3c, 0x66, 0xc6, 0xc6, 0xc6, 0xc6, 0x66, 0x3c]
  | 'P' => [0xfc, 0x66, 0x66, 0x7c, 0x60, 0x60, 0x60, 0xf0]
  | 'Q' => [0x3c, 0x66, 0xc6, 0xc6, 0xc6, 0xd6, 0x66, 0x3c]
  | 'R' => [0xfc, 0x66, 0x66, 0x7c, 0x6c, 0x66, 0x66, 0xe6]
  | 'S' => [0x7e, 0xc3, 0xc0, 0x7e, 0x03, 0x03, 0xc3, 0x7e]
  | 'T' => [0xff, 0x18, 0x18, 0x18, 0x18, 0x18, 0x18, 0x18]
  | 'U' => [0xc6, 0xc6, 0xc6, 0xc6, 0xc6, 0xc6, 0x7e, 0x3c]
  | 'V' => [0xc6, 0xc6, 0xc6, 0xc6, 0xc6, 0x6c, 0x38, 0x10]
  | 'W' => [0xc6, 0xc6, 0xc6, 0xd6, 0xfe, 0xee, 0xc6, 0xc6]
  | 'X' => [0xc6, 0x6c, 0x38, 0x10, 0x38, 0x6c, 0xc6, 0xc6]
  | 'Y' => [0xc6, 0x6c, 0x38, 0x10, 0x10, 0x10, 0x10, 0x10]
  | 'Z' => [0xfe, 0x06, 0x0c, 0x18, 0x30, 0x60, 0xc0, 0xfe]
  | _ => [0, 0, 0, 0, 0, 0, 0, 0]

/-- The rows that `ui_text` draws for a character: a box where it knows none, or takes a glyph
for missing by three of its rows. -/
def glyph (c : Char) : List ℕ :=
  let g := glyphs c
  if c.toNat < 96 ∧ (c = ' ' ∨ g.getD 0 0 ≠ 0 ∨ g.getD 1 0 ≠ 0 ∨ g.getD 7 0 ≠ 0) then g
  else [0xff, 0x81, 0x81, 0x81, 0x81, 0x81, 0x81, 0xff]

/-- A character of `ui_text` -/
def uiGlyph (x y : ℕ) (c : Char) (fg bg : ℕ) : Paint := fun p =>
  if Rect x y 8 8 p ∧ OnStage p then
    some (.ink (if (glyph c).getD (p.2 - y) 0 &&& (0x80 >>> (p.1 - x)) ≠ 0 then fg else bg))
  else none

/-- `ui_text` -/
def uiText (x y : ℕ) (str : Str) (fg bg : ℕ) : Paint :=
  match str with
  | [] => stack []
  | c :: str => stack [uiGlyph x y c fg bg, uiText (x + 8) y str fg bg]

/-! ## `ui_theme_dark` -/

def bg : ℕ := 0xff101418
def fg : ℕ := 0xffe8e8e8
def accent : ℕ := 0xff2f81f7
def panel : ℕ := 0xff1c2128
def btn : ℕ := 0xff2d333b
def btn_text : ℕ := 0xffffffff
def border : ℕ := 0xff3d444d
def ok : ℕ := 0xff3fb950
def warn : ℕ := 0xfff0883e

/-- `ui_button` -/
def uiButton (x y w h : ℕ) (txt : Str) (pressed : Bool) : Paint :=
  let face := if pressed then accent else btn
  let tw := uiTextW txt
  stack [uiFill x y w h face, uiRect x y w h border,
    uiText (x + if w > tw then (w - tw) / 2 else 0) (y + if h > 8 then (h - 8) / 2 else 0) txt
      btn_text face]

/-! ## The screens of the compositor -/

def UI_NOTIFY_SMS : ℕ := 1
def UI_NOTIFY_CALL : ℕ := 2

/-- What the compositor shows of the phone, and the banners; `epoch` is the clock in seconds and
`now` the uptime in milliseconds. -/
structure Chrome where
  sig_bars : ℕ
  call_state : Str
  call_state_lt : call_state.length < 16
  batt_pct : ℕ
  batt_pct_lt : batt_pct < 2 ^ 32
  batt_charging : Bool
  unread_sms : ℕ
  epoch : ℕ
  now : ℕ
  text : Fin MAX_BANNERS → Str
  text_lt : ∀ k, (text k).length < 28
  kind : Fin MAX_BANNERS → ℕ

def digit (n : ℕ) : Char := Char.ofNat (48 + n % 10)

/-- `%02u` of a number below 100 -/
def twoDigits (n : ℕ) : Str := [digit (n / 10), digit n]

/-- The clock in the status bar: the time when it looks sane, the uptime else. -/
def clock (ch : Chrome) : Str :=
  if ch.epoch > 100000000 then
    twoDigits (ch.epoch / 3600 % 24) ++ [':'] ++ twoDigits (ch.epoch / 60 % 60)
  else
    let sec := ch.now / 1000 % 2 ^ 32
    twoDigits (sec / 60 % 100) ++ [':'] ++ twoDigits (sec % 60)

/-- The battery in the status bar. -/
def battery (ch : Chrome) : Str :=
  Nat.toDigits 10 ch.batt_pct ++ ['%'] ++ if ch.batt_charging then ['+'] else []

/-- `draw_status_bar` -/
def drawStatusBar (ch : Chrome) : Paint :=
  stack ([uiFill 0 0 UI_SCREEN_W UI_STATUS_H panel] ++
    ((List.range 4).map fun i =>
      let bh := 4 + i * 3
      uiFill (6 + i * 7) (UI_STATUS_H - 4 - bh) 4 bh (if i < ch.sig_bars then fg else 0xff3d444d)) ++
    [if ch.call_state ≠ [] ∧ ch.call_state ≠ ['I', 'D', 'L', 'E'] then
        uiText 42 8 ch.call_state ok panel
      else stack [],
      uiText (UI_SCREEN_W / 2 - uiTextW (clock ch) / 2) 8 (clock ch) fg panel,
      if ch.batt_pct ≠ 0 then
        uiText (UI_SCREEN_W - 12 - uiTextW (battery ch)) 8 (battery ch)
          (if ch.batt_charging then ok else fg) panel
      else stack []])

/-- `draw_home_bar` -/
def drawHomeBar : Paint :=
  stack [uiFill 0 (UI_SCREEN_H - UI_HOME_H) UI_SCREEN_W UI_HOME_H panel,
    uiFill (UI_SCREEN_W / 2 - 24) (UI_SCREEN_H - UI_HOME_H / 2 - 3) 48 6 accent]

def labels : List (List Str) :=
  [[['1'], ['2'], ['3']], [['4'], ['5'], ['6']], [['7'], ['8'], ['9']], [['C'], ['0'], ['O', 'K']]]

def PHONE_LOCKED : Str := ['P', 'H', 'O', 'N', 'E', ' ', 'L', 'O', 'C', 'K', 'E', 'D']

/-- `draw_lock_screen` -/
def drawLockScreen (pin : Str) : Paint :=
  let dots := (List.range 4).map fun i => if i < pin.length then '*' else '-'
  stack ([uiFill 0 UI_STATUS_H UI_SCREEN_W (UI_SCREEN_H - UI_STATUS_H) bg,
      uiText (UI_SCREEN_W / 2 - uiTextW PHONE_LOCKED / 2) 90 PHONE_LOCKED fg bg,
      uiText (UI_SCREEN_W / 2 - uiTextW dots / 2) 150 dots accent bg] ++
    (List.range UI_NUMPAD_ROWS).flatMap fun r => (List.range UI_NUMPAD_COLS).map fun c =>
      uiButton (UI_NUMPAD_X0.toNat + c * UI_KEY_DX.toNat) (UI_NUMPAD_Y0.toNat + r * UI_KEY_DY.toNat)
        UI_KEY_W.toNat UI_KEY_H.toNat ((labels.getD r []).getD c []) false)

def MOBILE_PHONE_OS : Str :=
  ['M', 'O', 'B', 'I', 'L', 'E', ' ', 'P', 'H', 'O', 'N', 'E', ' ', 'O', 'S']

/-- An icon of `draw_home_screen`. -/
def drawIcon (ch : Chrome) (r c : ℕ) : Paint :=
  let idx := r * UI_ICON_COLS + c
  let name := launch_apps.getD idx []
  let x := UI_ICON_X0.toNat + c * UI_ICON_DX.toNat
  let y := UI_ICON_Y0.toNat + r * UI_ICON_DY.toNat
  let w := UI_ICON_W.toNat
  let h := UI_ICON_H.toNat
  stack [uiButton x y w h [] false,
    uiText (x + (w - name.length * 8) / 2) (y + h / 2 - 4) ((name.take 15).map Char.toUpper)
      btn_text btn,
    -- the unread badge on the Messages icon
    if idx = 1 ∧ ch.unread_sms ≠ 0 then
      stack [uiFill (x + w - 18) (y - 6) 18 16 0xffd1242f,
        uiText (x + w - 14) (y - 4) [digit (if ch.unread_sms > 9 then 9 else ch.unread_sms)]
          0xffffffff 0xffd1242f]
    else stack []]

/-- `draw_home_screen` -/
def drawHomeScreen (ch : Chrome) : Paint :=
  stack ([uiFill 0 UI_STATUS_H UI_SCREEN_W (UI_SCREEN_H - UI_STATUS_H - UI_HOME_H) bg,
      uiText 12 (UI_STATUS_H + 10) MOBILE_PHONE_OS 0xff6e7681 bg] ++
    (List.range UI_ICON_ROWS).flatMap fun r => (List.range UI_ICON_COLS).map (drawIcon ch r))

/-! ## Windows and banners -/

/-- `blit_window` -/
def blitWindow (i : WinIdx) (w : Window) : Paint := fun p =>
  if Rect w.x w.y (min w.w (UI_SCREEN_W - w.x)) (min w.h (UI_SCREEN_H - w.y)) p then
    some (.px i (p.1 - w.x) (p.2 - w.y))
  else none

/-- The window is drawn by `draw_app_windows`. -/
def Shown (s : Compositor) (i : WinIdx) : Prop :=
  (s.wins i).used = true ∧ (s.wins i).visible = true ∧ (s.wins i).va = true

instance (s : Compositor) (i : WinIdx) : Decidable (Shown s i) :=
  inferInstanceAs (Decidable (_ ∧ _ ∧ _))

/-- A window of `draw_app_windows` -/
def drawWindow (s : Compositor) (i : WinIdx) : Paint :=
  let w := s.wins i
  if Shown s i then
    stack [blitWindow i w,
      uiFill w.x w.y w.w UI_TITLE_H (if s.focused = some i then accent else panel),
      uiText (w.x + 4) (w.y + 6) w.name 0xffffffff accent,
      if s.focused = some i then uiRect (w.x - 2) (w.y - 2) (w.w + 4) (w.h + 4) accent
      else stack []]
  else stack []

/-- The order in which the windows are drawn: the focused one last. -/
def drawOrder (focused : Option WinIdx) : List WinIdx :=
  (List.finRange MAX_WINS).filter (focused ≠ some ·) ++
    (List.finRange MAX_WINS).filter (focused = some ·)

/-- `draw_app_windows` -/
def drawAppWindows (s : Compositor) : Paint :=
  stack (uiFill 0 UI_STATUS_H UI_SCREEN_W (UI_SCREEN_H - UI_STATUS_H - UI_HOME_H) bg ::
    (drawOrder s.focused).map (drawWindow s))

/-- The row where a banner starts. -/
def bannerY (k : Fin MAX_BANNERS) : ℕ := UI_STATUS_H + 4 + k * 26

/-- A banner of `draw_banners` -/
def drawBanner (s : Compositor) (ch : Chrome) (k : Fin MAX_BANNERS) : Paint :=
  if s.expired ch.now k then stack []
  else
    stack [uiFill 8 (bannerY k) (UI_SCREEN_W - 16) 22 panel,
      uiRect 8 (bannerY k) (UI_SCREEN_W - 16) 22
        (if ch.kind k = UI_NOTIFY_SMS then accent else if ch.kind k = UI_NOTIFY_CALL then ok
          else warn),
      uiText 14 (bannerY k + 7) (ch.text k) 0xffffffff panel]

/-- `draw_banners` -/
def drawBanners (s : Compositor) (ch : Chrome) : Paint :=
  stack ((List.finRange MAX_BANNERS).map (drawBanner s ch))

/-- `redraw_stage` -/
def redrawStage (s : Compositor) (ch : Chrome) : Paint :=
  stack [match s.mode with
      | .lock => drawLockScreen (cstr s.pin)
      | .home => drawHomeScreen ch
      | .app => drawAppWindows s,
    drawStatusBar ch,
    if s.mode ≠ .lock then drawHomeBar else stack [],
    drawBanners s ch]

/-- What `present_window_strip` copies. -/
def strip (s : Compositor) (i : WinIdx) : Paint := fun p =>
  let w := s.wins i
  if Rect (w.x + w.dx0) (w.y + w.dy0) (w.dx1 - w.dx0) (w.dy1 - w.dy0) p then
    some (.px i (p.1 - w.x) (p.2 - w.y))
  else none

/-- The windows whose strips a tick presents, in order. -/
def presented (s : Compositor) : List WinIdx :=
  ((List.finRange MAX_WINS).filter s.win_dirty_mask).filter s.ready

/-- The strips of a tick. -/
def strips (s : Compositor) : Paint := stack ((presented s).map (strip s))

end MobilePhoneOs.Ui.Pix
