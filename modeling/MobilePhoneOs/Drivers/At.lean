import Mathlib.Data.List.DropRight
import MobilePhoneOs.Lib.Run

/-!
# The AT command engine (`drivers/at.c`)

Bytes of the modem become lines, lines become completions of the pending command or
unsolicited messages, and a tick enforces the time limit. A callback is known by the submits it
makes, which may depend on everything that has happened before it.
-/

namespace MobilePhoneOs.At

def AT_LINE_MAX : ℕ := 160

def AT_CMD_MAX : ℕ := 64

def AT_RESP_MAX : ℕ := 8

def LF : UInt8 := 10

def CR : UInt8 := 13

def GT : UInt8 := 62

/-- A string literal of the source. -/
def ascii (s : List Char) : List UInt8 := s.map fun c => UInt8.ofNat c.toNat

/-- `AT_OK`, `AT_ERROR` and `AT_TIMEOUT` -/
inductive Status
  | ok
  | error
  | timeout
  deriving DecidableEq, Repr

/-- What has happened to the engine: a command was accepted with its time limit, its retries,
the time and whether it has a callback; a byte was read; a tick looked at the clock; the command
was written again; one of the callbacks was called. -/
inductive Ev
  | accept (timeout_ms retries : UInt32) (now : UInt64) (cb : Bool)
  | byte (c : UInt8)
  | tick (now : UInt64)
  | resent (now : UInt64)
  | urc (line : List UInt8)
  | callback (status : Status) (lines : List (List UInt8))
  deriving DecidableEq, Repr

/-- `struct at_engine.stats` -/
structure Stats where
  submitted : UInt64
  ok : UInt64
  errors : UInt64
  timeouts : UInt64
  urcs : UInt64

/-- `struct at_engine`. The line buffer and the stored responses are the bytes in them, a callback
is whether there is one; `log` is no field of the source but its history, newest first. -/
structure Engine where
  line : List UInt8
  resp_cb : Bool
  retry_cmd : List UInt8
  sent_ms : UInt64
  timeout_ms : UInt32
  retries_left : UInt32
  pending : Bool
  resp : List (List UInt8)
  urc_cb : Bool
  stats : Stats
  log : List Ev

/-- The arguments of a submit, whether the transport takes the bytes, and the time. -/
structure Submit where
  cmd : Option (List UInt8)
  timeout_ms : UInt32
  retries : UInt32
  cb : Bool
  written : Bool
  now : UInt64

def at_engine_init : Engine where
  line := []
  resp_cb := false
  retry_cmd := []
  sent_ms := 0
  timeout_ms := 0
  retries_left := 0
  pending := false
  resp := []
  urc_cb := false
  stats := ⟨0, 0, 0, 0, 0⟩
  log := []

namespace Engine

def record (e : Engine) (ev : Ev) : Engine := { e with log := ev :: e.log }

def setStats (e : Engine) (stats : Stats) : Engine := { e with stats := stats }

def at_engine_set_urc_handler (e : Engine) (fn : Bool) : Engine := { e with urc_cb := fn }

def at_engine_submit (e : Engine) (s : Submit) : Engine × ℤ :=
  match s.cmd with
  | none => (e, -1)
  | some cmd =>
    if e.pending then (e, -1)
    else if AT_CMD_MAX < cmd.length then (e, -1)
    else if !s.written then (e, -1)
    else
      let timeout_ms := if s.timeout_ms = 0 then 2000 else s.timeout_ms
      ({ e with
          -- the copy ends in a NUL, which a command of `AT_CMD_MAX` bytes leaves no room for
          retry_cmd := cmd
          pending := true
          resp_cb := s.cb
          resp := []
          sent_ms := s.now
          timeout_ms := timeout_ms
          retries_left := s.retries
          stats := { e.stats with submitted := e.stats.submitted + 1 }
          log := .accept timeout_ms s.retries s.now s.cb :: e.log }, 0)

variable (react : List Ev → List Submit)

/-- A callback runs and makes its submits. -/
def call (e : Engine) (ev : Ev) : Engine :=
  (react (ev :: e.log)).foldl (fun e s => (e.at_engine_submit s).1) (e.record ev)

def deliver (e : Engine) (status : Status) : Engine :=
  let idle := { e with pending := false, resp_cb := false }
  if e.resp_cb then idle.call react (.callback status e.resp) else idle

def deliver_error (e : Engine) (status : Status) : Engine :=
  if status = .timeout then
    (e.setStats { e.stats with timeouts := e.stats.timeouts + 1 }).deliver react status
  else (e.setStats { e.stats with errors := e.stats.errors + 1 }).deliver react status

/-- `line` is a C string: the bytes before its NUL. -/
def line_consume (e : Engine) (line : List UInt8) : Engine :=
  if line = ascii ['O', 'K'] then
    (e.setStats { e.stats with ok := e.stats.ok + 1 }).deliver react .ok
  else if (ascii ['E', 'R', 'R', 'O', 'R']).isPrefixOf line ||
      (ascii ['+', 'C', 'M', 'E', ' ', 'E', 'R', 'R', 'O', 'R']).isPrefixOf line ||
      (ascii ['+', 'C', 'M', 'S', ' ', 'E', 'R', 'R', 'O', 'R']).isPrefixOf line then
    e.deliver_error react .error
  else if !e.pending then
    -- unsolicited: everything while idle is a URC
    if e.urc_cb then (e.setStats { e.stats with urcs := e.stats.urcs + 1 }).call react (.urc line)
    else e.setStats { e.stats with urcs := e.stats.urcs + 1 }
  else if e.resp.length < AT_RESP_MAX then { e with resp := e.resp ++ [line] }
  else e

/-- The buffer as `line_consume` reads it: a trailing CR overwritten, and no further than a
NUL. -/
def cstr (line : List UInt8) : List UInt8 :=
  (if line.getLast? = some CR then line.dropLast else line).takeWhile (· != 0)

/-- One byte of the drain loop. -/
def rx (e : Engine) (c : UInt8) : Engine :=
  let e := e.record (.byte c)
  let e :=
    if c = LF then
      let e := if e.line = [] then e else e.line_consume react (cstr e.line)
      { e with line := [] }
    else if c ≠ CR ∧ e.line.length + 1 < AT_LINE_MAX then { e with line := e.line ++ [c] }
    else e
  -- the prompt has no line end: dispatch on '>'
  if c = GT ∧ e.line = [GT] ∧ e.pending then
    ({ e with line := [] } : Engine).line_consume react [GT, 32]
  else e

/-- The clock as the code compares it: `(int64_t)(now_ms - e->sent_ms)`. -/
def elapsed (e : Engine) (now_ms : UInt64) : ℤ := (now_ms - e.sent_ms).toBitVec.toInt

/-- The end of a tick. -/
def expire (e : Engine) (now_ms : UInt64) : Engine :=
  let e := e.record (.tick now_ms)
  if e.pending ∧ (e.timeout_ms.toNat : ℤ) ≤ e.elapsed now_ms then
    if e.retries_left ≠ 0 then
      ({ e with retries_left := e.retries_left - 1, sent_ms := now_ms } : Engine).record
        (.resent now_ms)
    else e.deliver_error react .timeout
  else e

end Engine

end MobilePhoneOs.At
