import MobilePhoneOs.Drivers.At

/-!
# The telephony service protocol (`kernel/modemd.c`)

Lines of a client are assembled from its reads, matched against the commands and answered. The
modem layer below is arbitrary. The protocol of the file's comment is stated on its own: a line
is a command word and, after one blank, its argument.
-/

namespace MobilePhoneOs.Modemd

open At (ascii LF CR)

def MD_LINE_MAX : ℕ := 96

def EINVAL : ℤ := 22

def BLANK : UInt8 := 32

abbrev Line := List UInt8

/-! ## The line builder -/

/-- `lb_str` for a buffer of `cap` bytes that holds `b`. -/
def lbStr (cap : ℕ) (b s : Line) : Line := b ++ s.take (cap - 1 - b.length)

/-- `lb_i`; `tmp` has room for the digits of every `long`. -/
def lbI (cap : ℕ) (b : Line) (v : ℤ) : Line :=
  let b := if v < 0 then lbStr cap b (ascii ['-']) else b
  lbStr cap b (ascii (Nat.toDigits 10 v.natAbs))

/-- `lb_end` -/
def lbEnd (cap : ℕ) (b : Line) : Line := lbStr cap b [LF]

/-! ## Dispatch -/

/-- What a branch of `md_dispatch` calls for; `invalid` calls nothing. -/
inductive Op
  | ping
  | status
  | dial (number : Line)
  | answer
  | hangup
  | sms (num text : Line)
  | reg
  | signal
  | invalid
  deriving DecidableEq

/-- The modem layer: the name of the call state, and what the calls return. -/
structure Modem (σ : Type) where
  stateName : σ → Line
  dial : Line → σ → ℤ × σ
  answer : σ → ℤ × σ
  hangup : σ → ℤ × σ
  smsSend : Line → Line → σ → ℤ × σ
  queryReg : σ → ℤ × σ
  querySignal : σ → (ℤ × ℤ) × σ

/-- A branch is taken, or `f_write` sends a line to the client. -/
inductive Action
  | took (op : Op)
  | wrote (reply : Line)
  deriving DecidableEq

/-- `md_line_is` on the bytes before the NUL. -/
def mdLineIs (l cmd : Line) : Bool :=
  l.take cmd.length = cmd ∧ (l[cmd.length]? = none ∨ l[cmd.length]? = some BLANK)

/-- The branch of `md_dispatch`. -/
def mdSelect (line : Line) : Op :=
  if mdLineIs line (ascii ['P', 'I', 'N', 'G']) then .ping
  else if mdLineIs line (ascii ['S', 'T', 'A', 'T', 'U', 'S']) then .status
  else if mdLineIs line (ascii ['D', 'I', 'A', 'L', ' ']) then .dial (line.drop 5)
  else if mdLineIs line (ascii ['A', 'N', 'S', 'W', 'E', 'R']) then .answer
  else if mdLineIs line (ascii ['H', 'A', 'N', 'G', 'U', 'P']) then .hangup
  else if mdLineIs line (ascii ['S', 'M', 'S', ' ']) then
    if BLANK ∈ line.drop 4 then
      .sms ((line.drop 4).takeWhile (· ≠ BLANK)) ((line.drop 4).dropWhile (· ≠ BLANK)).tail
    else .invalid
  else if mdLineIs line (ascii ['R', 'E', 'G']) then .reg
  else if mdLineIs line (ascii ['S', 'I', 'G', 'N', 'A', 'L']) then .signal
  else .invalid

/-- `md_ok_err` up to the write. -/
def mdOkErr (r : ℤ) : Line :=
  lbEnd 24 (if r = 0 then lbStr 24 [] (ascii ['O', 'K'])
    else lbI 24 (lbStr 24 [] (ascii ['E', 'R', 'R', ' '])) r)

section

variable {σ : Type} (M : Modem σ)

/-- The rest of a branch up to the write: what the client gets, and the modem after it. -/
def serve (m : σ) : Op → Line × σ
  | .ping => (lbEnd 64 (lbStr 64 [] (ascii ['P', 'O', 'N', 'G'])), m)
  | .status =>
    (lbEnd 64 (lbStr 64 (lbStr 64 [] (ascii ['S', 'T', 'A', 'T', 'E', ' '])) (M.stateName m)), m)
  | .dial number => (M.dial number m).map mdOkErr id
  | .answer => (M.answer m).map mdOkErr id
  | .hangup => (M.hangup m).map mdOkErr id
  | .sms num text => (M.smsSend num text m).map mdOkErr id
  | .reg =>
    (M.queryReg m).map (fun r => lbEnd 64 (lbI 64 (lbStr 64 [] (ascii ['R', 'E', 'G', ' '])) r)) id
  | .signal =>
    (M.querySignal m).map (fun sig => lbEnd 64 (lbI 64 (lbStr 64 (lbI 64
      (lbStr 64 [] (ascii ['S', 'I', 'G', ' '])) sig.1) (ascii [' '])) sig.2)) id
  | .invalid => (mdOkErr (-EINVAL), m)

/-- A client task: the modem, the bytes of `line` and what has been done so far. -/
structure Client (σ : Type) where
  modem : σ
  line : Line
  log : List Action

/-- `md_dispatch`; a C string ends at its first NUL. -/
def mdDispatch (s : Client σ) (line : Line) : Client σ :=
  let op := mdSelect (line.takeWhile (· ≠ 0))
  let r := serve M s.modem op
  { s with modem := r.2, log := s.log ++ [.took op, .wrote r.1] }

/-- One byte in the loop of `md_client_task`. -/
def clientByte (s : Client σ) (c : UInt8) : Client σ :=
  if c = LF ∨ c = CR then
    if s.line ≠ [] then { mdDispatch M s s.line with line := [] } else s
  else if s.line.length + 1 < MD_LINE_MAX then { s with line := s.line ++ [c] }
  else s

/-- `md_client_task` over the chunks that `f_read` returns. -/
def mdClientTask (m : σ) (chunks : List (List UInt8)) : Client σ :=
  chunks.foldl (fun s buf => buf.foldl (clientByte M) s) ⟨m, [], []⟩

end

/-! ## The protocol -/

/-- The command word. -/
def word (l : Line) : Line := l.takeWhile (· ≠ BLANK)

/-- Everything after the first blank. -/
def rest (l : Line) : Line := (l.dropWhile (· ≠ BLANK)).tail

/-- What a line asks for: `DIAL` takes all that follows its blank, `SMS` a number and a text. -/
def parse (l : Line) : Op :=
  if word l = ascii ['P', 'I', 'N', 'G'] then .ping
  else if word l = ascii ['S', 'T', 'A', 'T', 'U', 'S'] then .status
  else if word l = ascii ['D', 'I', 'A', 'L'] ∧ BLANK ∈ l then .dial (rest l)
  else if word l = ascii ['A', 'N', 'S', 'W', 'E', 'R'] then .answer
  else if word l = ascii ['H', 'A', 'N', 'G', 'U', 'P'] then .hangup
  else if word l = ascii ['S', 'M', 'S'] ∧ BLANK ∈ rest l then .sms (word (rest l)) (rest (rest l))
  else if word l = ascii ['R', 'E', 'G'] then .reg
  else if word l = ascii ['S', 'I', 'G', 'N', 'A', 'L'] then .signal
  else .invalid

/-- The lines that a stream completes, without the empty ones, after the beginning `cur`. -/
def linesFrom : Line → List UInt8 → List Line
  | _, [] => []
  | cur, c :: b =>
    if c = LF ∨ c = CR then (if cur = [] then [] else [cur]) ++ linesFrom [] b
    else linesFrom (cur ++ [c]) b

/-- A line that fits gets what it asks for; a longer one that or nothing. -/
def Obeyed (l : Line) (op : Op) : Prop :=
  if l.length < MD_LINE_MAX then op = parse l else op = .invalid ∨ op = parse l

/-- Every line is dispatched once, in order, and gets one reply. -/
inductive Answers (R : Line → Op → Prop) : List Line → List Action → Prop
  | nil : Answers R [] []
  | cons {l : Line} {op : Op} {reply : Line} {ls : List Line} {log : List Action} (h : R l op)
      (hrest : Answers R ls log) : Answers R (l :: ls) (.took op :: .wrote reply :: log)

instance (l : Line) (op : Op) : Decidable (Obeyed l op) := inferInstanceAs (Decidable (ite _ _ _))

end MobilePhoneOs.Modemd
