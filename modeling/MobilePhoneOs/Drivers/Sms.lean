import MobilePhoneOs.Drivers.At
import MobilePhoneOs.Lib.Word

/-!
# Short messages (`drivers/sms.c`, the receive path of `drivers/modem.c`)

A `+CMT:` line announces a deliver PDU, whose hex digits are the next unsolicited line. The
sink collects them, the PDU is taken apart and the message goes to a file of its own. What the
sink holds is a function of the lines that the AT engine has handed over, so the log of the
engine determines it.
-/

namespace MobilePhoneOs.Sms

open Mem At
open UInt8 (ofNat)

def SMS_ADDR_MAX : ℕ := 20
def SMS_TEXT_MAX : ℕ := 160

/-! ## The 7-bit alphabet -/

def char_to_gsm (c : UInt8) : UInt8 :=
  if c = 0x40 then 0x00
  else if c = 0x24 then 0x02
  else if c = LF then 0x0a
  else if c = CR then 0x0d
  else if 0x20 ≤ c ∧ c ≤ 0x5f then c - 0x20 + 0x20
  else if 0x61 ≤ c ∧ c ≤ 0x7a then c - 0x61 + 0x61
  else 0x20

def gsm_to_char (g : UInt8) : UInt8 :=
  if g = 0x00 then 0x40
  else if g = 0x02 then 0x24
  else if g = 0x0a then LF
  else if g = 0x0d then CR
  else if 0x20 ≤ g ∧ g ≤ 0x5f then 0x20 + g - 0x20
  else if 0x61 ≤ g ∧ g ≤ 0x7a then 0x61 + g - 0x61
  else 0x20

/-- A septet joins the byte at `byte` and, where it does not fit, the next one. -/
def orSeptet (cap g byte shift : ℕ) (out : ℕ → UInt8) : ℕ → UInt8 :=
  let out := Function.update out byte (out byte ||| ofNat (g <<< shift))
  if shift ≠ 0 ∧ byte + 1 < cap then
    Function.update out (byte + 1) (out (byte + 1) ||| ofNat (g >>> (8 - shift)))
  else out

/-- The loop of `sms_encode_7bit` from bit `bitpos` on: the buffer, and where the text ends if it
had room. -/
def encodeFrom (cap : ℕ) : List UInt8 → ℕ → (ℕ → UInt8) → (ℕ → UInt8) × Option ℕ
  | [], bitpos, out => (out, some bitpos)
  | c :: text, bitpos, out =>
    if bitpos >>> 3 ≥ cap then (out, none)
    else encodeFrom cap text ((bitpos + 7) % 2 ^ 32)
      (orSeptet cap (char_to_gsm c).toNat (bitpos >>> 3) (bitpos &&& 7) out)

def sms_encode_7bit (text : List UInt8) (out : ℕ → UInt8) (cap : ℕ) :
    (ℕ → UInt8) × Option ℕ :=
  if cap = 0 then (out, none)
  else
    let r := encodeFrom cap text 0 fun j => if j < cap then 0 else out j
    (r.1, r.2.map fun bitpos => (bitpos + 7) % 2 ^ 32 / 8)

/-- The septet at bit `bitpos`. The byte behind it is read also where the mask drops all of
its bits. -/
def septet (inp : ℕ → UInt8) (bitpos : ℕ) : UInt8 :=
  let byte := bitpos >>> 3
  let shift := bitpos &&& 7
  let g := (inp byte).toNat >>> shift
  let g := if shift ≠ 0 then g ||| ((inp (byte + 1)).toNat <<< (8 - shift)) % 256 else g
  ofNat (g &&& 0x7f)

/-- The loop of `sms_decode_7bit` from septet `i` on, with `n` septets left. -/
def decodeFrom (inp : ℕ → UInt8) (cap : ℕ) : ℕ → ℕ → List UInt8
  | 0, _ => []
  | n + 1, i =>
    if i + 1 ≥ cap then []
    else gsm_to_char (septet inp (7 * i)) :: decodeFrom inp cap n (i + 1)

def sms_decode_7bit (inp : ℕ → UInt8) (septets cap : ℕ) : List UInt8 :=
  decodeFrom inp cap septets 0

/-! ## PDUs -/

/-- The loop of `addr_bcd_decode` from digit `i` on, with `n` digits left. -/
def digitsFrom (inp : ℕ → UInt8) (cap : ℕ) : ℕ → ℕ → List UInt8
  | 0, _ => []
  | n + 1, i =>
    if i + 1 < cap then
      let b := (inp (i / 2)).toNat
      let nib := if i % 2 = 1 then b >>> 4 else b &&& 0x0f
      -- the F pad
      if nib > 9 then [] else ofNat (48 + nib) :: digitsFrom inp cap n (i + 1)
    else []

def addr_bcd_decode (inp : ℕ → UInt8) (ndigits cap : ℕ) : List UInt8 :=
  digitsFrom inp cap ndigits 0

/-- `sms_parse_deliver_pdu`: the sender and the text, unless the PDU is too short. -/
def sms_parse_deliver_pdu (pdu : ℕ → UInt8) (len senderCap textCap : ℕ) :
    Option (List UInt8 × List UInt8) :=
  if len < 2 then none
  else
    let oaDigits := (pdu 1).toNat
    -- the flags, the digit count and the type of the address
    let o := 3
    if o + (oaDigits + 1) / 2 + 2 + 7 + 1 > len then none
    else
      let sender := addr_bcd_decode (fun i => pdu (o + i)) oaDigits senderCap
      let o := o + (oaDigits + 1) / 2 + 2 + 7
      let udl := (pdu o).toNat
      let o := o + 1
      if o + (udl * 7 + 7) / 8 > len then none
      else some (sender, sms_decode_7bit (fun i => pdu (o + i)) udl textCap)

/-! ## The message store -/

/-- `/sms/msg<N>` -/
def msgPath (seq : UInt32) : List UInt8 :=
  ascii ['/', 's', 'm', 's', '/', 'm', 's', 'g'] ++ ascii (Nat.toDigits 10 seq.toNat)

/-- What a file holds after a write at its start took the first `n` bytes of `line`: a file that
was there keeps the bytes behind them. -/
def overwrite (old : Option (List UInt8)) (line : List UInt8) (n : ℕ) : List UInt8 :=
  line.take n ++ (old.getD []).drop n

/-- `FROM <sender>`, a newline and the text. -/
def inboxLine (sender text : List UInt8) : List UInt8 :=
  ascii ['F', 'R', 'O', 'M', ' '] ++ sender ++ [LF] ++ text

/-- The receive state: `cmt` with the digits in its buffer, `msg_seq` and the files. `writes` is no
variable of the source but the history of the store, newest first: the file, what is written to
it and how many bytes it took. -/
structure Modem where
  await_pdu : Bool
  hexbuf : List UInt8
  msg_seq : UInt32
  files : List UInt8 → Option (List UInt8)
  writes : List (List UInt8 × List UInt8 × ℕ)

section

/- `fs path line` is how many bytes of `line` the file system takes for the file `path`, none
when the file cannot be opened; `stack` is what the PDU buffer holds before it is filled. -/
variable (fs : (List UInt8 → Option (List UInt8)) → List UInt8 → List UInt8 → Option ℕ)
  (stack : ℕ → UInt8)

def sms_store_inbox (m : Modem) (sender text : List UInt8) : Modem :=
  let seq := m.msg_seq + 1
  let path := msgPath seq
  let line := inboxLine sender text
  match fs m.files path line with
  | none => { m with msg_seq := seq }
  | some n =>
    { m with
      msg_seq := seq
      files := Function.update m.files path (some (overwrite (m.files path) line n))
      writes := (path, line, n) :: m.writes }

/-! ## The sink -/

def hexval (c : UInt8) : Option ℕ :=
  if 48 ≤ c ∧ c ≤ 57 then some (c.toNat - 48)
  else if 65 ≤ c ∧ c ≤ 70 then some (c.toNat - 65 + 10)
  else if 97 ≤ c ∧ c ≤ 102 then some (c.toNat - 97 + 10)
  else none

/-- The loop that fills `pdu[170]`, from byte `k` on. -/
def fillPdu : List UInt8 → ℕ → (ℕ → UInt8) → ℕ → UInt8
  | [], _, pdu => pdu
  | [a], k, pdu =>
    if k < 170 then
      match hexval a with
      | some hi => Function.update pdu k (ofNat (hi <<< 4))
      | none => pdu
    else pdu
  | a :: b :: hex, k, pdu =>
    if k < 170 then
      match hexval a, hexval b with
      | some hi, some lo =>
        fillPdu hex (k + 1) (Function.update pdu k (ofNat (hi <<< 4 ||| lo)))
      | _, _ => pdu
    else pdu

def cmt_finish (m : Modem) : Modem :=
  let pdu := fillPdu m.hexbuf 0 stack
  let plen := m.hexbuf.length / 2
  let m :=
    match sms_parse_deliver_pdu pdu plen SMS_ADDR_MAX SMS_TEXT_MAX with
    | some (sender, text) => sms_store_inbox fs m sender text
    | none => m
  { m with await_pdu := false }

/-- The hex digits of `line`, as far as `hexbuf[340]` has room. -/
def collect (hexbuf : List UInt8) : List UInt8 → List UInt8
  | [] => hexbuf
  | c :: line =>
    if hexbuf.length + 2 < 340 then
      collect (if (hexval c).isSome then hexbuf ++ [c] else hexbuf) line
    else hexbuf

def modem_sms_sink_line (m : Modem) (line : List UInt8) : Modem :=
  if !m.await_pdu then { m with await_pdu := true, hexbuf := [] }
  else cmt_finish fs stack { m with hexbuf := collect m.hexbuf line }

def CMT : List UInt8 := ascii ['+', 'C', 'M', 'T', ':']

/-- `urc_line`: the lines about calls and the others leave the receive state alone. -/
def urc_line (m : Modem) (line : List UInt8) : Modem :=
  if m.await_pdu then modem_sms_sink_line fs stack m line
  else if CMT.isPrefixOf line then modem_sms_sink_line fs stack m line
  else m

/-- The receive state after the lines in the log, the newest of which comes first. -/
def modemOf (m : Modem) (log : List Ev) : Modem :=
  log.foldr (fun ev m => match ev with | .urc line => urc_line fs stack m line | _ => m) m

end

/-! ## Runs -/

/-- What happens to the engine, one byte of the drain loop at a time: a byte is read, a tick
ends, a task submits a command. -/
inductive Event
  | rx (c : UInt8)
  | expire (now_ms : UInt64)
  | submit (s : Submit)

namespace Event

/-- The engine after an event. -/
def apply (react : List Ev → List Submit) (e : Engine) : Event → Engine
  | .rx c => e.rx react c
  | .expire now_ms => e.expire react now_ms
  | .submit s => (e.at_engine_submit s).1

def byteOf : Event → Option UInt8
  | .rx c => some c
  | _ => none

end Event

/-- The bytes that arrive. -/
def bytesOf (evs : List Event) : List UInt8 := evs.filterMap Event.byteOf

/-- The engine after all events. -/
def run (react : List Ev → List Submit) (e : Engine) (evs : List Event) : Engine :=
  evs.foldl (Event.apply react) e

/-- The events of one tick. -/
def tickEvents (reads : List (List UInt8)) (now_ms : UInt64) : List Event :=
  ((reads.takeWhile (· ≠ [])).flatten.map Event.rx) ++ [.expire now_ms]

/-! ## The message on the air -/

/-- The fields of a deliver PDU. -/
structure Deliver where
  flags : UInt8
  toa : UInt8
  pid : UInt8
  dcs : UInt8
  scts : List UInt8
  number : List UInt8
  text : List UInt8

/-- The characters that the codec has a septet for. -/
def Supported (c : UInt8) : Prop :=
  c = LF ∨ c = CR ∨ (0x20 ≤ c ∧ c ≤ 0x5f) ∨ (0x61 ≤ c ∧ c ≤ 0x7a)

instance (c : UInt8) : Decidable (Supported c) := inferInstanceAs (Decidable (_ ∨ _))

/-- Digits in swapped nibbles, the last one padded with F. -/
def bcd : List UInt8 → List UInt8
  | [] => []
  | [a] => [ofNat (a.toNat - 48 + 16 * 15)]
  | a :: b :: digits => ofNat (a.toNat - 48 + 16 * (b.toNat - 48)) :: bcd digits

/-- Septets as one number: septet `i` is at bit `7 * i`. -/
def packNat : List ℕ → ℕ
  | [] => 0
  | s :: ss => s + 128 * packNat ss

/-- The packed text. -/
def pack (text : List UInt8) : List UInt8 :=
  leBytes ((7 * text.length + 7) / 8) (packNat (text.map fun c => (char_to_gsm c).toNat))

namespace Deliver

/-- A message as a network delivers it: up to 160 septets. -/
structure WellFormed (d : Deliver) : Prop where
  scts : d.scts.length = 7
  digits : ∀ c ∈ d.number, 48 ≤ c ∧ c ≤ 57
  number : d.number.length < 256
  text : ∀ c ∈ d.text, Supported c
  septets : d.text.length ≤ 160

def pdu (d : Deliver) : List UInt8 :=
  [d.flags, ofNat d.number.length, d.toa] ++ bcd d.number ++ [d.pid, d.dcs] ++ d.scts ++
    [ofNat d.text.length] ++ pack d.text

end Deliver

/-- The line spells the bytes, two digits each. -/
def IsHex (hex pdu : List UInt8) : Prop :=
  hex.map hexval = pdu.flatMap fun b => [some (b.toNat / 16), some (b.toNat % 16)]

/-- The two lines of a message: the header and the PDU. -/
def lines (header hex : List UInt8) : List UInt8 := CMT ++ header ++ [CR, LF] ++ hex ++ [CR, LF]

/-- Between two messages: at the start of a line, with the handler of `modem_subsys_init` set
and no header that waits for its PDU. -/
structure Rest (m : Modem) (e : Engine) : Prop where
  line : e.line = []
  handler : e.urc_cb = true
  await : m.await_pdu = false

/-- The message is written to the next file, as it was sent, and nothing else is in it. -/
def Stored (m m' : Modem) (d : Deliver) : Prop :=
  m'.writes = (msgPath (m.msg_seq + 1), inboxLine d.number d.text,
      (inboxLine d.number d.text).length) :: m.writes ∧
    m'.files (msgPath (m.msg_seq + 1)) = some (inboxLine d.number d.text)

/-- No command is pending when a line ends. -/
def Clear (react : List Ev → List Submit) : Engine → List Event → Prop
  | _, [] => True
  | e, ev :: evs => (ev.byteOf = some LF → e.pending = false) ∧ Clear react (ev.apply react e) evs

instance decidableClear (react : List Ev → List Submit) :
    ∀ (e : Engine) (evs : List Event), Decidable (Clear react e evs)
  | _, [] => inferInstanceAs (Decidable True)
  | e, ev :: evs =>
    have := decidableClear react (ev.apply react e) evs
    inferInstanceAs (Decidable ((ev.byteOf = some LF → e.pending = false) ∧ _))

/-- The PDU fits the line buffer and the number the address field; the file system takes the
message, and no file of its name is longer. -/
def Fits (fs : (List UInt8 → Option (List UInt8)) → List UInt8 → List UInt8 → Option ℕ) (m : Modem)
    (d : Deliver) : Prop :=
  (d.number.length + 1) / 2 + (7 * d.text.length + 7) / 8 ≤ 66 ∧ d.number.length ≤ 19 ∧
    fs m.files (msgPath (m.msg_seq + 1)) (inboxLine d.number d.text) =
      some (inboxLine d.number d.text).length ∧
    ∀ old, m.files (msgPath (m.msg_seq + 1)) = some old →
      old.length ≤ (inboxLine d.number d.text).length

end MobilePhoneOs.Sms
