import MobilePhoneOs.Lib.Word
import MobilePhoneOs.Lib.Run

/-!
# The A/B slot manager (`kernel/abmgr.c`)

The table of two boot slots, its copy in one sector of a device, and the statistics beside it.
Every operation ends in at most one write of the table, but for `abmgr_evaluate`, which makes
two. The outcome of each write is given.
-/

namespace MobilePhoneOs.Abmgr

open Mem

def AB_MAGIC : ℕ := 0x41424d47

def AB_TABLE_VERSION : ℕ := 1

def AB_MAX_ATTEMPTS : ℕ := 3

/-- `struct ab_slot` -/
structure AbSlot where
  crc : UInt32
  seq : ℕ
  lba : ℕ
  nsect : ℕ
  boot_attempts : ℕ
  confirmed : Bool
  active : Bool
  valid : Bool

/-- `struct ab_table` -/
structure AbTable where
  magic : ℕ
  version : ℕ
  slots : Fin 2 → AbSlot
  rollbacks : ℕ
  crc : UInt32

/-- `struct ab_stats`; no active slot is `-1` in the source. -/
structure AbStats where
  active : Option (Fin 2)
  rollbacks : ℕ
  confirms : ℕ
  switches : ℕ

/-! ## CRC32 -/

/-- One bit of `crc32_calc`. -/
def crcBit (crc : UInt32) : UInt32 := (crc >>> 1) ^^^ (0xedb88320 &&& (0 - (crc &&& 1)))

/-- `crc32_calc` -/
def crc32_calc (bytes : List UInt8) : UInt32 :=
  bytes.foldl (fun crc b => crcBit^[8] (crc ^^^ b.toUInt32)) 0xffffffff ^^^ 0xffffffff

/-- A slot as it lies in memory, with the padding behind its flags. -/
def AbSlot.bytes (s : AbSlot) : List UInt8 :=
  leBytes 4 s.crc.toNat ++ leBytes 4 s.seq ++ leBytes 8 s.lba ++ leBytes 8 s.nsect ++
    leBytes 1 s.boot_attempts ++ leBytes 1 s.confirmed.toNat ++ leBytes 1 s.active.toNat ++
    leBytes 1 s.valid.toNat ++ leBytes 4 0

/-- The table up to its own checksum. -/
def AbTable.bytes (t : AbTable) : List UInt8 :=
  leBytes 4 t.magic ++ leBytes 4 t.version ++ (t.slots 0).bytes ++ (t.slots 1).bytes ++
    leBytes 4 t.rollbacks

def table_crc (t : AbTable) : UInt32 := crc32_calc t.bytes

def table_valid (t : AbTable) : Bool :=
  t.magic = AB_MAGIC ∧ t.version = AB_TABLE_VERSION ∧ t.crc = table_crc t

/-! ## The state -/

def emptySlot : AbSlot := ⟨0, 0, 0, 0, 0, false, false, false⟩

def zeroTable : AbTable := ⟨0, 0, fun _ => emptySlot, 0, 0⟩

/-- The slot manager and its device: the table sector, the payload sectors, and the variables of
the module. `moved` counts the switches that `abmgr_evaluate` has made to the table in memory,
`diskMoved` those that the table on the device has been through; no operation reads them. -/
structure Ab where
  disk : AbTable
  payload : ℕ → List UInt8
  tbl : AbTable
  loaded : Bool
  stats : AbStats
  moved : ℕ
  diskMoved : ℕ

/-- How a write of the table ends. One that fails, and one during which the power is lost, may
have reached the device or not. -/
inductive Write
  | ok
  | fail (landed : Bool)
  | cut (landed : Bool)
deriving DecidableEq

/-- Whether the sector holds the new table. -/
def Write.landed : Write → Bool
  | .ok => true
  | .fail l => l
  | .cut l => l

inductive Errno
  | enodev
  | eio
  | einval
deriving DecidableEq, Repr

/-- What an operation answers, unless the power is lost in it. -/
inductive Res
  | ok (v : ℕ)
  | err (e : Errno)
  | off
deriving DecidableEq

/-- The variables of the module when the machine starts. -/
def Ab.reset (s : Ab) : Ab :=
  { s with tbl := zeroTable, loaded := false, stats := ⟨none, 0, 0, 0⟩, moved := s.diskMoved }

/-- An empty device before `abmgr_attach`. -/
def blank (payload : ℕ → List UInt8) : Ab :=
  ⟨zeroTable, payload, zeroTable, false, ⟨none, 0, 0, 0⟩, 0, 0⟩

def Ab.setSlot (s : Ab) (i : Fin 2) (slot : AbSlot) : Ab :=
  { s with tbl := { s.tbl with slots := Function.update s.tbl.slots i slot } }

/-- The empty table that a fresh device is formatted with. -/
def formatted : AbTable := { zeroTable with magic := AB_MAGIC, version := AB_TABLE_VERSION }

def AbTable.sealed (t : AbTable) : AbTable := { t with crc := table_crc t }

/-- The table in memory reaches the device. -/
def Ab.land (s : Ab) : Ab := { s with disk := s.tbl, diskMoved := s.moved }

/-! ## The operations -/

/-- `table_write`, with the error code of its callers. -/
def table_write (w : Write) (s : Ab) : Res × Ab :=
  let s := { s with tbl := s.tbl.sealed }
  let s := if w.landed then s.land else s
  match w with
  | .ok => (.ok 0, s)
  | .fail _ => (.err .eio, s)
  | .cut _ => (.off, s)

def table_write_checked (w : Write) (s : Ab) : Res × Ab :=
  if s.loaded then table_write w s else (.err .enodev, s)

/-- The slot that `abmgr_attach` takes for the active one. -/
def AbTable.activeSlot (t : AbTable) : Option (Fin 2) :=
  if (t.slots 0).active then some 0 else if (t.slots 1).active then some 1 else none

/-- `abmgr_attach` on the device; `readable` tells whether the table sector can be read. -/
def abmgr_attach (readable : Bool) (w : Write) (s : Ab) : Res × Ab :=
  let s := { s with loaded := false }
  if readable ∧ table_valid s.disk then
    (.ok 0, { s with
      tbl := s.disk, loaded := true, moved := s.diskMoved
      stats := { s.stats with active := s.disk.activeSlot, rollbacks := s.disk.rollbacks } })
  else
    -- fresh device: an empty table is formatted
    match table_write w { s with tbl := formatted } with
    | (.ok v, s) =>
      (.ok v, { s with loaded := true, stats := { s.stats with active := none, rollbacks := 0 } })
    | r => r

def Ab.abmgr_active (s : Ab) : Option (Fin 2) := if s.loaded then s.stats.active else none

/-- The checksum over the payload window: the sectors that `nsect * 512` covers in 64 bits. -/
def payload_crc (payload : ℕ → List UInt8) (lba nsect : ℕ) : UInt32 :=
  let rounds := nsect * 512 % 2 ^ 64 / 512
  (List.range rounds).foldl (fun (crc : UInt32) i =>
      crc32_calc (payload ((lba + i) % 2 ^ 64)) ^^^ (crc <<< 1) ^^^ crc) 0xffffffff
    ^^^ 0xdeadc0de * UInt32.ofNat nsect

/-- `abmgr_slot_seal`; `readable` tells whether the payload can be read. -/
def abmgr_slot_seal (idx lba nsect seq : ℕ) (readable : Bool) (w : Write) (s : Ab) : Res × Ab :=
  if h : s.loaded ∧ idx < 2 ∧ nsect ≠ 0 then
    if readable then
      table_write_checked w <| s.setSlot ⟨idx, h.2.1⟩
        ⟨payload_crc s.payload lba nsect, seq, lba, nsect, 0, false, false, true⟩
    else (.err .eio, s)
  else (.err .einval, s)

def abmgr_boot_begin (w : Write) (s : Ab) : Res × Ab :=
  match s.abmgr_active with
  | none => (.err .enodev, s)
  | some i =>
    let slot := s.tbl.slots i
    table_write_checked w <| s.setSlot i
      { slot with boot_attempts := if slot.boot_attempts < 255 then slot.boot_attempts + 1
        else slot.boot_attempts }

def abmgr_confirm (w : Write) (s : Ab) : Res × Ab :=
  match s.abmgr_active with
  | none => (.err .enodev, s)
  | some i =>
    let slot := s.tbl.slots i
    let s := s.setSlot i
      { slot with confirmed := true, boot_attempts := 0, seq := (slot.seq + 1) % 2 ^ 32 }
    table_write_checked w
      { s with stats := { s.stats with confirms := (s.stats.confirms + 1) % 2 ^ 32 } }

/-- The end of `abmgr_switch`: slot `other` is brought up. -/
def bringUp (other : Fin 2) (w : Write) (s : Ab) : Res × Ab :=
  let s := s.setSlot other { s.tbl.slots other with active := true, boot_attempts := 0 }
  table_write_checked w
    { s with stats := { s.stats with
      active := some other, switches := (s.stats.switches + 1) % 2 ^ 32 } }

def abmgr_switch (w : Write) (s : Ab) : Res × Ab :=
  if s.loaded then
    match s.stats.active with
    | none =>
      -- nothing active yet: the first sealed slot
      if (s.tbl.slots 0).valid then bringUp 0 w s
      else if (s.tbl.slots 1).valid then bringUp 1 w s
      else (.err .einval, s)
    | some i =>
      if (s.tbl.slots (1 - i)).valid then
        bringUp (1 - i) w (s.setSlot i { s.tbl.slots i with active := false })
      else (.err .einval, s)
  else (.err .enodev, s)

/-- The counter of `abmgr_evaluate` goes up. -/
def Ab.bump (s : Ab) : Ab :=
  let n := (s.stats.rollbacks + 1) % 2 ^ 32
  { s with stats := { s.stats with rollbacks := n }, tbl := { s.tbl with rollbacks := n } }

/-- The active slot is unconfirmed and its attempts are used up. -/
def AbSlot.exhausted (slot : AbSlot) : Bool :=
  ¬slot.confirmed ∧ ¬slot.boot_attempts < AB_MAX_ATTEMPTS

/-- The end of `abmgr_evaluate`: slot `i` is left, which the ghost count notes, and a switch that
succeeds is answered by `1`. -/
def switchBack (i : Fin 2) (w : Write) (s : Ab) : Res × Ab :=
  let s := if (s.tbl.slots (1 - i)).valid then { s with moved := s.moved + 1 } else s
  match abmgr_switch w s with
  | (.ok _, s) => (.ok 1, s)
  | r => r

/-- `abmgr_evaluate`: the first write, whose result is ignored, carries the counter, the second
is that of `abmgr_switch`. -/
def abmgr_evaluate (w₁ w₂ : Write) (s : Ab) : Res × Ab :=
  match s.abmgr_active with
  | none => (.err .enodev, s)
  | some i =>
    if (s.tbl.slots i).exhausted then
      match table_write_checked w₁ s.bump with
      | (.off, s) => (.off, s)
      | (_, s) => switchBack i w₂ s
    else (.ok 0, s)

def abmgr_table_put (t : AbTable) (w : Write) (s : Ab) : Res × Ab :=
  if s.loaded ∧ table_valid t then table_write_checked w { s with tbl := t }
  else (.err .einval, s)

/-- The table after the switch away from slot `i`. -/
def raised (t : AbTable) (i : Fin 2) : AbTable :=
  let slots := Function.update t.slots i { t.slots i with active := false }
  let other := { slots (1 - i) with active := true, boot_attempts := 0 }
  { t with slots := Function.update slots (1 - i) other }

/-- The state in which a roll-back away from slot `i` makes its second write. -/
def Ab.leaving (s : Ab) (i : Fin 2) : Ab :=
  { s with
    tbl := raised s.tbl i, moved := s.moved + 1
    stats := { s.stats with
      active := some (1 - i), switches := (s.stats.switches + 1) % 2 ^ 32 } }

/-! ## Runs -/

/-- The operations, with the outcomes of their reads and writes. -/
inductive Op
  | attach (readable : Bool) (w : Write)
  | slot_seal (idx lba nsect seq : ℕ) (readable : Bool) (w : Write)
  | boot_begin (w : Write)
  | confirm (w : Write)
  | switch (w : Write)
  | evaluate (w₁ w₂ : Write)
  | put (t : AbTable) (w : Write)

def Op.run : Op → Ab → Res × Ab
  | .attach readable w => abmgr_attach readable w
  | .slot_seal idx lba nsect seq readable w => abmgr_slot_seal idx lba nsect seq readable w
  | .boot_begin w => abmgr_boot_begin w
  | .confirm w => abmgr_confirm w
  | .switch w => abmgr_switch w
  | .evaluate w₁ w₂ => abmgr_evaluate w₁ w₂
  | .put t w => abmgr_table_put t w

/-- The slot manager, and the tables that `abmgr_table_get` has handed out. -/
structure World where
  ab : Ab
  snaps : List AbTable

/-- What happens: an operation with its answer, a snapshot, or a power loss between two
operations. -/
inductive Act
  | op (op : Op) (r : Res)
  | get
  | reboot

/-- One step. Only tables that were handed out are put back; after a power loss the variables
of the module are those of a fresh start. -/
inductive Step : World → Act → World → Prop
  | op {s : World} {op : Op} {r : Res} {ab : Ab} (hput : ∀ t w, op = .put t w → t ∈ s.snaps)
      (hrun : op.run s.ab = (r, ab)) (hon : r ≠ .off) : Step s (.op op r) ⟨ab, s.snaps⟩
  | lost {s : World} {op : Op} {ab : Ab} (hput : ∀ t w, op = .put t w → t ∈ s.snaps)
      (hrun : op.run s.ab = (.off, ab)) : Step s (.op op .off) ⟨ab.reset, s.snaps⟩
  | get {s : World} (hloaded : s.ab.loaded = true) : Step s .get ⟨s.ab, s.ab.tbl :: s.snaps⟩
  | reboot {s : World} : Step s .reboot ⟨s.ab.reset, s.snaps⟩

/-- The condition: a table that is put back carries the current counter, and where a roll-back
is due the other slot is valid, the counter has room, and the counter does not reach the device
without the switch. -/
def RecoversClean (s : World) : Act → Prop
  | .op (.put t _) _ => s.ab.loaded → table_valid t → t.rollbacks = s.ab.stats.rollbacks
  | .op (.evaluate w₁ w₂) _ =>
    ∀ i, s.ab.abmgr_active = some i → (s.ab.tbl.slots i).exhausted →
      (s.ab.tbl.slots (1 - i)).valid ∧ s.ab.stats.rollbacks + 1 < 2 ^ 32 ∧
        (w₁ = .cut false ∨ (∀ l, w₁ ≠ .cut l) ∧ (w₁.landed → w₂.landed))
  | _ => True

end MobilePhoneOs.Abmgr
