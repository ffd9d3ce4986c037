import Mathlib.Data.Fintype.Fin
import MobilePhoneOs.Lib.Run

/-!
# The compositor (`userspace/compositor.c`)

The sections of the client threads, of the input thread and of the render thread, each of which
runs under `ui_lock`. Of a pixel it matters whether it was copied from the surface of an
application, so the stage tells just that; what the compositor draws itself is
never such a pixel.
-/

namespace MobilePhoneOs.Ui

open Function (update)
open List (finRange)

def UI_STATUS_H : ℕ := 24
def UI_HOME_H : ℕ := 24
def UI_TITLE_H : ℕ := 20
def UI_SCREEN_W : ℕ := 800
def UI_SCREEN_H : ℕ := 600
def UI_WIN_W : ℕ := 480
def UI_WIN_H : ℕ := 360

def UI_KEY_W : ℤ := 96
def UI_KEY_H : ℤ := 56
def UI_KEY_DX : ℤ := 104
def UI_KEY_DY : ℤ := 64
def UI_NUMPAD_COLS : ℕ := 3
def UI_NUMPAD_ROWS : ℕ := 4
def UI_NUMPAD_X0 : ℤ := 248
def UI_NUMPAD_Y0 : ℤ := 200

def UI_ICON_W : ℤ := 150
def UI_ICON_H : ℤ := 64
def UI_ICON_DX : ℤ := 174
def UI_ICON_DY : ℤ := 104
def UI_ICON_COLS : ℕ := 3
def UI_ICON_ROWS : ℕ := 2
def UI_ICON_X0 : ℤ := 151
def UI_ICON_Y0 : ℤ := 80

def EV_KEY : ℤ := 1
def EV_ABS : ℤ := 3
def ABS_X : ℤ := 0
def ABS_Y : ℤ := 1
def BTN_TOUCH : ℤ := 330
def KEY_POWER : ℤ := 116
def SYN_REPORT : ℤ := 0

def MAX_WINS : ℕ := 6
def MAX_CLIENTS : ℕ := 8
def MAX_BANNERS : ℕ := 3

/-- `sizeof` of a name, with its NUL -/
def NAME_SIZE : ℕ := 12

/-- An index into `wins`. -/
abbrev WinIdx := Fin MAX_WINS

/-- A C string: the characters before its NUL. -/
abbrev Str := List Char

/-- What `snprintf` leaves of a string in a name. -/
def nameOf (s : Str) : Str := s.take (NAME_SIZE - 1)

/-- `enum ui_mode` -/
inductive Mode
  | lock
  | home
  | app
deriving DecidableEq, Repr

/-- `struct window`; of the mapping it matters whether there is one. -/
structure Window where
  used : Bool
  id : ℕ
  name : Str
  fd : ℤ
  shm_id : ℤ
  va : Bool
  w : ℕ
  h : ℕ
  x : ℕ
  y : ℕ
  visible : Bool
  has_dirty : Bool
  dx0 : ℕ
  dy0 : ℕ
  dx1 : ℕ
  dy1 : ℕ
deriving DecidableEq

/-- The bytes of a window after `memset`. -/
def Window.zero : Window := ⟨false, 0, [], 0, 0, false, 0, 0, 0, 0, false, false, 0, 0, 0, 0⟩

/-- `struct client`; no window is `-1`. -/
structure Client where
  used : Bool
  fd : ℤ
  name : Str
  win : Option WinIdx
deriving DecidableEq

/-! ## The stage -/

/-- Which pixels come from a surface of an application. -/
abbrev Stage := ℕ → ℕ → Bool

namespace Stage

/-- `ui_fill` -/
def uiFill (s : Stage) (x y w h : ℕ) : Stage := fun i j =>
  if (x ≤ i ∧ i < x + w ∧ i < UI_SCREEN_W) ∧ y ≤ j ∧ j < y + h ∧ j < UI_SCREEN_H then false
  else s i j

/-- `ui_rect` -/
def uiRect (s : Stage) (x y w h : ℕ) : Stage :=
  if w = 0 ∨ h = 0 then s
  else
    (((s.uiFill x y w 1).uiFill x (y + h - 1) w 1).uiFill x y 1 h).uiFill (x + w - 1) y 1 h

/-- A rectangle of a surface is copied to the stage. -/
def copyIn (s : Stage) (x y w h : ℕ) : Stage := fun i j =>
  if (x ≤ i ∧ i < x + w) ∧ y ≤ j ∧ j < y + h then true else s i j

/-- `blit_window` -/
def blitWindow (s : Stage) (w : Window) : Stage :=
  s.copyIn w.x w.y (min w.w (UI_SCREEN_W - w.x)) (min w.h (UI_SCREEN_H - w.y))

end Stage

/-- The types of the messages that the compositor sends. -/
inductive MsgType
  | UI_WELCOME
  | UI_OPENED
  | UI_EVENT
  | UI_FOCUS
  | UI_CLOSED
deriving DecidableEq

/-- What a section does outside the compositor: a message, a rectangle of the stage as it is put
on the screen, the launch of a program. -/
inductive Out
  | send (fd : ℤ) (type : MsgType) (win : ℕ) (a b c : ℤ)
  | blit (x y w h : ℕ) (px : Stage)
  | launch (name : Str)

/-- The static data; `last_sec` is of the render thread, `abs_x`, `abs_y`, `down` and `last_down`
of the input thread. The ghost `typed` has the digits accepted since the entry was last emptied,
less those taken back. -/
structure Compositor where
  wins : WinIdx → Window
  clients : Fin MAX_CLIENTS → Client
  next_win : ℕ
  focused : Option WinIdx
  mode : Mode
  pin : ℕ → Char
  need_redraw : Bool
  win_dirty_mask : WinIdx → Bool
  until_ms : Fin MAX_BANNERS → ℕ
  stage : Stage
  last_sec : ℕ
  abs_x : ℤ
  abs_y : ℤ
  down : Bool
  last_down : Bool
  typed : Str

def NUL : Char := Char.ofNat 0

def PIN : Str := ['1', '2', '3', '4']

/-- The string in the eight bytes of `pin`. -/
def cstr (pin : ℕ → Char) : Str := ((List.range 8).map pin).takeWhile (· ≠ NUL)

namespace Compositor

def setWin (s : Compositor) (i : WinIdx) (w : Window) : Compositor :=
  { s with wins := update s.wins i w }

def setClient (s : Compositor) (c : Fin MAX_CLIENTS) (cl : Client) : Compositor :=
  { s with clients := update s.clients c cl }

def redraw (s : Compositor) : Compositor := { s with need_redraw := true }

/-- The banner has run out, or there was none. -/
def expired (s : Compositor) (now : ℕ) (i : Fin MAX_BANNERS) : Bool :=
  s.until_ms i = 0 ∨ s.until_ms i < now

/-- `push_banner` -/
def pushBanner (s : Compositor) (now : ℕ) : Compositor :=
  let slot := ((finRange MAX_BANNERS).find? (s.expired now)).getD ⟨MAX_BANNERS - 1, by decide⟩
  { s with until_ms := update s.until_ms slot (now + 4000), need_redraw := true }

/-- `drop_window` -/
def dropWindow (s : Compositor) (i : WinIdx) : Compositor :=
  if (s.wins i).used then
    let s := s.setWin i { s.wins i with va := false, used := false, fd := -1 }
    -- home from whatever mode it was
    let s := if s.focused = some i then { s with focused := none, mode := .home } else s
    s.redraw
  else s

/-! ## Composition -/

/-- One window of `draw_app_windows`. -/
def drawWindow (s : Compositor) (st : Stage) (i : WinIdx) : Stage :=
  let w := s.wins i
  if w.used && w.visible && w.va then
    let st := (st.blitWindow w).uiFill w.x w.y w.w UI_TITLE_H
    if s.focused = some i then st.uiRect (w.x - 2) (w.y - 2) (w.w + 4) (w.h + 4) else st
  else st

/-- `draw_app_windows`: the focused window last -/
def drawAppWindows (s : Compositor) (st : Stage) : Stage :=
  let st := st.uiFill 0 UI_STATUS_H UI_SCREEN_W (UI_SCREEN_H - UI_STATUS_H - UI_HOME_H)
  let st := ((finRange MAX_WINS).filter (s.focused ≠ some ·)).foldl s.drawWindow st
  ((finRange MAX_WINS).filter (s.focused = some ·)).foldl s.drawWindow st

def drawLockScreen (st : Stage) : Stage :=
  st.uiFill 0 UI_STATUS_H UI_SCREEN_W (UI_SCREEN_H - UI_STATUS_H)

def drawHomeScreen (st : Stage) : Stage :=
  st.uiFill 0 UI_STATUS_H UI_SCREEN_W (UI_SCREEN_H - UI_STATUS_H - UI_HOME_H)

def drawStatusBar (st : Stage) : Stage := st.uiFill 0 0 UI_SCREEN_W UI_STATUS_H

def drawHomeBar (st : Stage) : Stage :=
  st.uiFill 0 (UI_SCREEN_H - UI_HOME_H) UI_SCREEN_W UI_HOME_H

def drawBanner (s : Compositor) (now : ℕ) (st : Stage) (i : Fin MAX_BANNERS) : Stage :=
  if s.expired now i then st
  else st.uiFill 8 (UI_STATUS_H + 4 + i * 26) (UI_SCREEN_W - 16) 22

def drawBanners (s : Compositor) (now : ℕ) (st : Stage) : Stage :=
  (finRange MAX_BANNERS).foldl (s.drawBanner now) st

/-- `redraw_stage` -/
def redrawStage (s : Compositor) (now : ℕ) : Stage :=
  let st := match s.mode with
    | .lock => drawLockScreen s.stage
    | .home => drawHomeScreen s.stage
    | .app => s.drawAppWindows s.stage
  let st := drawStatusBar st
  let st := if s.mode ≠ .lock then drawHomeBar st else st
  s.drawBanners now st

/-- The part of the window that `present_window_strip` copies, on the stage. -/
def strip (s : Compositor) (w : Window) : Stage :=
  s.stage.copyIn (w.x + w.dx0) (w.y + w.dy0) (w.dx1 - w.dx0) (w.dy1 - w.dy0)

/-- `present_window_strip` -/
def presentWindowStrip (s : Compositor) (i : WinIdx) : Compositor × List Out :=
  let w := s.wins i
  ({ s.setWin i { w with has_dirty := false } with stage := s.strip w },
    [.blit (w.x + w.dx0) (w.y + w.dy0) (w.dx1 - w.dx0) (w.dy1 - w.dy0) (s.strip w)])

/-- The window has a frame to present. -/
def ready (s : Compositor) (i : WinIdx) : Bool :=
  (s.wins i).used && (s.wins i).visible && (s.wins i).va && (s.wins i).has_dirty

/-- The loop of the render thread over the windows whose bits were set. -/
def presentAll (s : Compositor) : List WinIdx → Compositor × List Out
  | [] => (s, [])
  | i :: dirty =>
    if s.ready i then
      let r := s.presentWindowStrip i
      let rest := r.1.presentAll dirty
      (rest.1, r.2 ++ rest.2)
    else s.presentAll dirty

/-- What the render thread does after the frames of the applications. -/
def recompose (s : Compositor) (now : ℕ) : Compositor × List Out :=
  if s.need_redraw then
    let st := s.redrawStage now
    ({ s with stage := st, need_redraw := false, last_sec := now / 1000 % 2 ^ 32 },
      [.blit 0 0 UI_SCREEN_W UI_SCREEN_H st])
  else if s.last_sec ≠ now / 1000 % 2 ^ 32 then
    let st := drawStatusBar s.stage
    ({ s with stage := st, last_sec := now / 1000 % 2 ^ 32 }, [.blit 0 0 UI_SCREEN_W UI_STATUS_H st])
  else (s, [])

/-- A tick of `render_thread` -/
def renderTick (s : Compositor) (now : ℕ) : Compositor × List Out :=
  let dirty := (finRange MAX_WINS).filter s.win_dirty_mask
  let r := { s with win_dirty_mask := fun _ => false }.presentAll dirty
  let rest := r.1.recompose now
  (rest.1, r.2 ++ rest.2)

/-! ## Clients -/

end Compositor

/-- A message of a client: `shm` is the id of the shared memory when there is some, `now` the
time of the banner. -/
inductive Msg
  | UI_HELLO (text : Str)
  | UI_OPEN (win : ℕ) (a b : ℤ) (shm : Option ℤ)
  | UI_FLUSH (a b c d : ℤ)
  | UI_SHOW
  | UI_HIDE
  | UI_CLOSE
  | UI_NOTIFY (now : ℕ)
  | other

namespace Compositor

/-- The window that `UI_OPEN` makes in a free slot. -/
def newWindow (s : Compositor) (cl : Client) (a b shm_id : ℤ) : Window :=
  let ww := min (if 0 < a then a.toNat else UI_WIN_W) (UI_SCREEN_W - 8)
  let wh := min (if 0 < b then b.toNat else UI_WIN_H) (UI_SCREEN_H - UI_STATUS_H - UI_HOME_H - 8)
  { Window.zero with
    used := true
    id := s.next_win
    name := nameOf cl.name
    fd := cl.fd
    shm_id := shm_id
    va := true
    w := ww
    h := wh
    x := (UI_SCREEN_W - ww) / 2
    y := UI_STATUS_H + 32 }

/-- The window with the rectangle of a `UI_FLUSH` added to its dirty one. -/
def flushed (w : Window) (a b c d : ℤ) : Window :=
  let x0 := a.toNat
  let y0 := b.toNat
  let x1 := min (x0 + c.toNat) w.w
  let y1 := min (y0 + d.toNat) w.h
  -- an empty rectangle means the whole window
  let whole := x1 ≤ x0 ∨ y1 ≤ y0
  let x0 := if whole then 0 else x0
  let y0 := if whole then 0 else y0
  let x1 := if whole then w.w else x1
  let y1 := if whole then w.h else y1
  if w.has_dirty then
    { w with dx0 := min x0 w.dx0, dy0 := min y0 w.dy0, dx1 := max x1 w.dx1, dy1 := max y1 w.dy1 }
  else { w with dx0 := x0, dy0 := y0, dx1 := x1, dy1 := y1, has_dirty := true }

/-- The window of a client, if it has one in use. -/
def winOf (s : Compositor) (c : Fin MAX_CLIENTS) : Option WinIdx :=
  (s.clients c).win.filter fun i => (s.wins i).used

/-- One message in `client_thread` -/
def clientMsg (s : Compositor) (c : Fin MAX_CLIENTS) : Msg → Compositor × List Out
  | .UI_HELLO text =>
    (s.setClient c { s.clients c with name := nameOf text },
      [.send (s.clients c).fd .UI_WELCOME 0 UI_SCREEN_W UI_SCREEN_H 0])
  | .UI_OPEN win a b shm =>
    match (finRange MAX_WINS).find? fun i => !(s.wins i).used, shm with
    | some i, some shm_id =>
      let w := s.newWindow (s.clients c) a b shm_id
      let s := { s.setWin i w with next_win := s.next_win + 1 }
      (s.setClient c { s.clients c with win := some i },
        [.send (s.clients c).fd .UI_OPENED w.id shm_id w.x w.y])
    | _, _ => (s, [.send (s.clients c).fd .UI_CLOSED win 0 0 0])
  | .UI_FLUSH a b c' d =>
    match s.winOf c with
    | some i =>
      ({ s.setWin i (flushed (s.wins i) a b c' d) with
        win_dirty_mask := update s.win_dirty_mask i true }, [])
    | none => (s.redraw, [])
  | .UI_SHOW =>
    match s.winOf c with
    | some i =>
      -- the mode it was is not looked at
      ({ s.setWin i { s.wins i with visible := true } with
          focused := some i, mode := .app, need_redraw := true },
        [.send (s.clients c).fd .UI_FOCUS (s.wins i).id 1 0 0])
    | none => (s, [])
  | .UI_HIDE =>
    match s.winOf c with
    | some i =>
      let s := s.setWin i { s.wins i with visible := false }
      if s.focused = some i then
        ({ s with focused := none, mode := .home, need_redraw := true },
          [.send (s.clients c).fd .UI_FOCUS (s.wins i).id 0 0 0])
      else (s.redraw, [])
    | none => (s, [])
  | .UI_CLOSE =>
    match (s.clients c).win with
    | some i => ((s.dropWindow i).setClient c { s.clients c with win := none }, [])
    | none => (s, [])
  | .UI_NOTIFY now => (s.pushBanner now, [])
  | .other => (s, [])

/-- The end of `client_thread` -/
def clientGone (s : Compositor) (c : Fin MAX_CLIENTS) : Compositor :=
  let t := match (s.clients c).win with
    | some i => s.dropWindow i
    | none => s
  t.setClient c { t.clients c with fd := -1, used := false }

/-- A connection in `server_thread`; `thread` tells whether its thread could be made. -/
def accept (s : Compositor) (fd : ℤ) (thread : Bool) : Compositor :=
  match (finRange MAX_CLIENTS).find? fun c => !(s.clients c).used with
  | some c =>
    if thread then s.setClient c ⟨true, fd, [], none⟩ else s.setClient c ⟨false, -1, [], none⟩
  | none => s

/-! ## Input -/

/-- `go_home` -/
def goHome (s : Compositor) : Compositor :=
  { s with focused := none, mode := .home, need_redraw := true }

/-- `launch_app` -/
def launchApp (s : Compositor) (name : Str) : Compositor × List Out :=
  match (finRange MAX_WINS).find? fun i =>
    (s.wins i).used && (s.wins i).name.take NAME_SIZE = name.take NAME_SIZE with
  | some i =>
    ({ s.setWin i { s.wins i with visible := true } with
        focused := some i, mode := .app, need_redraw := true },
      [.send (s.wins i).fd .UI_FOCUS (s.wins i).id 1 0 0])
  | none => (s, [.launch name])

end Compositor

/-- The first cell of a grid, row by row, whose rectangle holds the point. -/
def cellAt (rows cols : ℕ) (x0 y0 dx dy w h x y : ℤ) : Option (ℕ × ℕ) :=
  ((List.range rows).flatMap fun r => (List.range cols).map fun c => (r, c)).find? fun rc =>
    x0 + rc.2 * dx ≤ x ∧ x < x0 + rc.2 * dx + w ∧ y0 + rc.1 * dy ≤ y ∧ y < y0 + rc.1 * dy + h

/-- `key_at` -/
def keyAt (x y : ℤ) : Option (ℕ × ℕ) :=
  cellAt UI_NUMPAD_ROWS UI_NUMPAD_COLS UI_NUMPAD_X0 UI_NUMPAD_Y0 UI_KEY_DX UI_KEY_DY UI_KEY_W
    UI_KEY_H x y

def iconAt (x y : ℤ) : Option (ℕ × ℕ) :=
  cellAt UI_ICON_ROWS UI_ICON_COLS UI_ICON_X0 UI_ICON_Y0 UI_ICON_DX UI_ICON_DY UI_ICON_W UI_ICON_H
    x y

def launch_apps : List Str :=
  [['d', 'i', 'a', 'l', 'e', 'r'], ['m', 's', 'g', 's'], ['c', 'o', 'n', 't', 'a', 'c', 't', 's'],
    ['c', 'l', 'o', 'c', 'k'], ['c', 'a', 'l', 'c'], ['s', 'e', 't', 't', 'i', 'n', 'g', 's']]

/-- The keys of the lock screen. -/
inductive Key
  | digit (d : Char)
  | back
  | ok
deriving DecidableEq

/-- What `tap_lock` makes of a cell of the numpad. -/
def keyOf (r c : ℕ) : Key :=
  if r < 3 ∨ (r = 3 ∧ c = 1) then .digit (if r = 3 then '0' else Char.ofNat (49 + (r * 3 + c)))
  else if c = 0 then .back
  else .ok

namespace Compositor

/-- `pin[0] = 0` -/
def clearPin (s : Compositor) : Compositor :=
  { s with pin := update s.pin 0 NUL, typed := [] }

/-- `tap_lock` -/
def tapLock (s : Compositor) (now : ℕ) (x y : ℤ) : Compositor :=
  match keyAt x y with
  | none => s
  | some (r, c) =>
    let len := (cstr s.pin).length
    match keyOf r c with
    | .digit d =>
      if len < 4 then
        { s with
          pin := update s.pin len d, typed := s.typed ++ [d], need_redraw := true }
      else s
    | .back =>
      if len ≠ 0 then
        { s with
          pin := update s.pin (len - 1) NUL, typed := s.typed.dropLast
          need_redraw := true }
      else s.redraw
    | .ok =>
      if cstr s.pin = PIN then { s.clearPin with mode := .home, need_redraw := true }
      else s.clearPin.pushBanner now

/-- `tap_home` -/
def tapHome (s : Compositor) (x y : ℤ) : Compositor × List Out :=
  match iconAt x y with
  | some (r, c) => s.launchApp (launch_apps.getD (r * UI_ICON_COLS + c) [])
  | none => (s, [])

/-- The point is in the window. -/
def inside (w : Window) (x y : ℤ) : Bool :=
  !(x - w.x < 0 ∨ y - w.y < 0 ∨ x - w.x ≥ w.w ∨ y - w.y ≥ w.h)

/-- `tap_app` -/
def tapApp (s : Compositor) (x y : ℤ) (down : Bool) : Compositor × List Out :=
  if down ∧ y ≥ UI_SCREEN_H - UI_HOME_H then (s.goHome, [])
  else
    match s.focused with
    | none => (s, [])
    | some i =>
      let w := s.wins i
      if w.used && inside w x y then
        let forward := fun type code value => Out.send w.fd .UI_EVENT w.id type code value
        (s, (if down then [forward EV_ABS ABS_X (x - w.x), forward EV_ABS ABS_Y (y - w.y)] else []) ++
          [forward EV_KEY BTN_TOUCH (if down then 1 else 0)])
      else (s, [])

/-- A record of type `EV_SYN` in `input_thread` -/
def syn (s : Compositor) (now : ℕ) (code : ℤ) : Compositor × List Out :=
  if code ≠ SYN_REPORT ∨ s.down = s.last_down then (s, [])
  else
    let r := if s.down then
        match s.mode with
        | .lock => (s.tapLock now s.abs_x s.abs_y, [])
        | .home => s.tapHome s.abs_x s.abs_y
        | .app => s.tapApp s.abs_x s.abs_y true
      -- the finger goes up in any mode
      else s.tapApp s.abs_x s.abs_y false
    ({ r.1 with last_down := s.down }, r.2)

/-- A record of type `EV_KEY` -/
def key (s : Compositor) (code value : ℤ) : Compositor :=
  if code = BTN_TOUCH then { s with down := value ≠ 0 }
  else if code = KEY_POWER ∧ value = 1 then
    { s.clearPin with mode := .lock, need_redraw := true }
  else s

/-- A record of type `EV_ABS` -/
def abs (s : Compositor) (code value : ℤ) : Compositor :=
  if code = ABS_X then { s with abs_x := value }
  else if code = ABS_Y then { s with abs_y := value }
  else s

end Compositor

/-! ## Runs -/

inductive Event
  | accept (fd : ℤ) (thread : Bool)
  | msg (c : Fin MAX_CLIENTS) (m : Msg)
  | gone (c : Fin MAX_CLIENTS)
  /-- a line of the modem that raises a banner -/
  | modem (now : ℕ)
  | abs (code value : ℤ)
  | key (code value : ℤ)
  | syn (now : ℕ) (code : ℤ)
  | render (now : ℕ)

namespace Compositor

def act (s : Compositor) : Event → Compositor × List Out
  | .accept fd thread => (s.accept fd thread, [])
  | .msg c m => s.clientMsg c m
  | .gone c => (s.clientGone c, [])
  | .modem now => (s.pushBanner now, [])
  | .abs code value => (s.abs code value, [])
  | .key code value => (s.key code value, [])
  | .syn now code => s.syn now code
  | .render now => s.renderTick now

/-- A client thread runs for its connection. -/
def Enabled (s : Compositor) : Event → Prop
  | .msg c _ | .gone c => (s.clients c).used = true
  | _ => True

end Compositor

/-- A section, with what it does outside. -/
def Step (s : Compositor) (a : Event × List Out) (t : Compositor) : Prop :=
  s.Enabled a.1 ∧ s.act a.1 = (t, a.2)

/-- The static data at the start; the stage and the point of the first touch may be anything. -/
def boot (stage : Stage) (x y : ℤ) : Compositor where
  wins := fun _ => Window.zero
  clients := fun _ => ⟨false, 0, [], none⟩
  next_win := 1
  focused := none
  mode := .lock
  pin := fun _ => NUL
  need_redraw := false
  win_dirty_mask := fun _ => false
  until_ms := fun _ => 0
  stage := stage
  last_sec := 2 ^ 32 - 1
  abs_x := x
  abs_y := y
  down := false
  last_down := false
  typed := []

/-! ## The law -/

/-- The section is a tap on OK after the digits of the PIN have been typed. -/
def UnlockTap (s : Compositor) (e : Event) : Prop :=
  ∃ now r c, e = .syn now SYN_REPORT ∧ s.down = true ∧ s.last_down = false ∧
    keyAt s.abs_x s.abs_y = some (r, c) ∧ keyOf r c = .ok ∧ s.typed = PIN

/-- No input is forwarded, and no pixel of an application is put on the screen. -/
def Out.Private : Out → Prop
  | .send _ type _ _ _ _ => type ≠ .UI_EVENT
  | .blit x y w h px => ∀ i j, x ≤ i → i < x + w → i < UI_SCREEN_W → y ≤ j → j < y + h → px i j = false
  | .launch _ => True

/-- A locked compositor stays locked but for an `UnlockTap`, and shows and tells nothing. -/
def Lawful (s : Compositor) (a : Event × List Out) (t : Compositor) : Prop :=
  s.mode = .lock → (t.mode = .lock ∨ UnlockTap s a.1) ∧ ∀ o ∈ a.2, o.Private

/-- The window of the client is in use and has the focus. -/
def FocusedClient (s : Compositor) (c : Fin MAX_CLIENTS) : Prop :=
  ∃ i, s.winOf c = some i ∧ s.focused = some i

/-- The condition on a section of a locked compositor: no client shows its window, none hides,
closes or leaves the focused one; no touch ends on the focused window; no visible window has a
frame waiting when the screen is rendered; and OK is not tapped when the buffer reads as the PIN
by what is left there of an earlier entry. -/
def Clean (s : Compositor) (a : Event × List Out) : Prop :=
  s.mode = .lock →
    match a.1 with
    | .msg c .UI_SHOW => s.winOf c = none
    | .msg c .UI_HIDE | .msg c .UI_CLOSE | .gone c => ¬ FocusedClient s c
    | .syn _ code =>
      (code = SYN_REPORT → s.down = false → s.last_down = true → ∀ i, s.focused = some i →
        (s.wins i).used = true → Compositor.inside (s.wins i) s.abs_x s.abs_y = false) ∧
      (code = SYN_REPORT → s.down = true → s.last_down = false → ∀ r c,
        keyAt s.abs_x s.abs_y = some (r, c) → keyOf r c = .ok → cstr s.pin = PIN → s.typed = PIN)
    | .render _ => ∀ i, s.win_dirty_mask i = true → s.ready i = false
    | _ => True

end MobilePhoneOs.Ui
