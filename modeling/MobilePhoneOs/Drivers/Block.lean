import MobilePhoneOs.Lib.Mem
import MobilePhoneOs.Lib.Prog

/-!
# The block layer (`drivers/block.c`)

Registered devices, a direct-mapped write-through cache of sectors for each of them, and the
byte-count entry points over it. A device is the bytes on it; a driver call is one transfer,
whose outcome is given.
-/

namespace MobilePhoneOs.Block

open Mem Prog

def BLK_SECTOR_SIZE : ℕ := 512

def BLK_DEV_MAX : ℕ := 4

def CACHE_ENTRIES : ℕ := 16

/-- How a driver ends a transfer. One that fails has left `junk` in the buffer of a read and
has written the bytes that `part` selects. -/
inductive Xfer
  | ok
  | fail (junk : ℕ → UInt8) (part : ℕ → Bool)

/-- `struct block_device`, with the bytes on the device. -/
structure BlockDevice where
  capacity_sectors : ℕ
  max_sectors : ℕ
  data : ℕ → UInt8
  capacity_lt : capacity_sectors < 2 ^ 64

/-- `struct cache_line` -/
structure CacheLine where
  valid : Bool
  lba : ℕ
  data : ℕ → UInt8

/-- The block layer: the devices by their addresses, the registry, the cache of each of its
entries, and the outcomes of the transfers to come. -/
structure Blk where
  dev : ℕ → BlockDevice
  bdevs : List ℕ
  caches : ℕ → ℕ → CacheLine
  xfers : List Xfer

/-- `struct blk_request` -/
structure BlkRequest where
  bd : ℕ
  lba : ℕ
  nsect : ℕ
  buf : ℕ → UInt8
  write : Bool

/-- Why a call answers `-1`: its arguments, the driver, or a loop that makes no progress. -/
inductive BlkErr
  | inval
  | driver
  | stuck
deriving DecidableEq

namespace Blk

/-- The bytes of a device. -/
def content (s : Blk) (bd : ℕ) : ℕ → UInt8 := (s.dev bd).data

/-- `data` is what a device holds in a sector. -/
def Holds (s : Blk) (bd lba : ℕ) (data : ℕ → UInt8) : Prop :=
  ∀ i < BLK_SECTOR_SIZE, data i = s.content bd (lba * BLK_SECTOR_SIZE + i)

def setData (s : Blk) (bd : ℕ) (data : ℕ → UInt8) : Blk :=
  { s with dev := Function.update s.dev bd { s.dev bd with data } }

def setLine (s : Blk) (c idx : ℕ) (cl : CacheLine) : Blk :=
  { s with caches := fun c' i => if c' = c ∧ i = idx then cl else s.caches c' i }

/-- The layer before any registration: the caches are zeroed. -/
def boot (dev : ℕ → BlockDevice) : Blk :=
  ⟨dev, [], fun _ _ => ⟨false, 0, fun _ => 0⟩, []⟩

/-- `block_register` -/
def block_register (s : Blk) (bd : ℕ) : Blk :=
  if (s.dev bd).max_sectors = 0 ∨ (s.dev bd).capacity_sectors = 0 then s
  else if s.bdevs.length ≥ BLK_DEV_MAX then s
  else { s with bdevs := s.bdevs ++ [bd] }

/-- `cache_for` -/
def cache_for (s : Blk) (bd : ℕ) : Option ℕ := s.bdevs.findIdx? (· = bd)

/-! ## Driver transfers -/

/-- `read_blocks`: whether it succeeds, and the bytes it leaves in the buffer. -/
def read_blocks (s : Blk) (bd lba : ℕ) : Xfer → Bool × (ℕ → UInt8)
  | .ok => (true, fun i => s.content bd (lba * BLK_SECTOR_SIZE + i))
  | .fail junk _ => (false, junk)

/-- `write_blocks`: whether it succeeds, and the state it leaves. -/
def write_blocks (s : Blk) (bd lba nsect : ℕ) (buf : ℕ → UInt8) : Xfer → Bool × Blk
  | .ok =>
    (true, s.setData bd
      (copy (s.content bd) (lba * BLK_SECTOR_SIZE) (nsect * BLK_SECTOR_SIZE) buf))
  | .fail _ part =>
    (false, s.setData bd fun i =>
      if part i then copy (s.content bd) (lba * BLK_SECTOR_SIZE) (nsect * BLK_SECTOR_SIZE) buf i
      else s.content bd i)

/-! ## The sector cache -/

/-- The line a sector is looked up in. -/
def lineOf (s : Blk) (c lba : ℕ) : CacheLine := s.caches c (lba % CACHE_ENTRIES)

/-- The cached copy of a sector. -/
def lookup (s : Blk) (c lba : ℕ) : Option (ℕ → UInt8) :=
  if (s.lineOf c lba).valid ∧ (s.lineOf c lba).lba = lba then some (s.lineOf c lba).data else none

/-- A miss reads straight into the victim line, whose tag stays as it is. -/
def fetch (s : Blk) (c lba : ℕ) (bytes : ℕ → UInt8) : Blk :=
  let cl := s.lineOf c lba
  s.setLine c (lba % CACHE_ENTRIES) { cl with data := copy cl.data 0 BLK_SECTOR_SIZE bytes }

/-- After the fetch the line is tagged. -/
def tag (s : Blk) (c lba : ℕ) : Blk :=
  s.setLine c (lba % CACHE_ENTRIES) { s.lineOf c lba with valid := true, lba }

/-- `cache_fill_write` -/
def cache_fill_write (s : Blk) (c lba : ℕ) (data : ℕ → UInt8) : Blk :=
  let cl := s.lineOf c lba
  s.setLine c (lba % CACHE_ENTRIES)
    { valid := true, lba, data := copy cl.data 0 BLK_SECTOR_SIZE data }

end Blk

open Blk

/-! ## A call that runs alone -/

/-- The outcome of the next transfer. -/
def nextXfer : Prog BlkErr Blk Xfer := fun s =>
  (.ok (s.xfers.headD .ok), { s with xfers := s.xfers.tail })

/-- `cache_read_sector` -/
def cache_read_sector (bd c lba : ℕ) : Prog BlkErr Blk (ℕ → UInt8) := do
  match (← gets fun s => s.lookup c lba) with
  | some data => pure data
  | none =>
    let x ← nextXfer
    let (ok, bytes) ← gets fun s => s.read_blocks bd lba x
    modify fun s => s.fetch c lba bytes
    if ok then
      modify fun s => s.tag c lba
      gets fun s => (s.lineOf c lba).data
    else fail .driver

/-- A driver is called to write. -/
def drvWrite (bd lba nsect : ℕ) (buf : ℕ → UInt8) (x : Xfer) : Prog BlkErr Blk Bool := fun s =>
  (.ok (s.write_blocks bd lba nsect buf x).1, (s.write_blocks bd lba nsect buf x).2)

/-- The lines of the sectors just written. -/
def fillLines (c : Option ℕ) (cur chunk : ℕ) (buf : ℕ → UInt8) : Prog BlkErr Blk Unit :=
  match c with
  | some c => forN chunk fun i => modify fun s =>
      s.cache_fill_write c (cur + i) fun j => buf (i * BLK_SECTOR_SIZE + j)
  | none => pure ()

/-- One transfer of `block_submit` that does not go through the cache; the buffer after it. -/
def transfer (c : Option ℕ) (req : BlkRequest) (cur chunk off : ℕ) (buf : ℕ → UInt8) :
    Prog BlkErr Blk (ℕ → UInt8) := do
  let x ← nextXfer
  if req.write then
    if (← drvWrite req.bd cur chunk (fun i => buf (off + i)) x) then
      fillLines c cur chunk fun i => buf (off + i)
      pure buf
    else fail .driver
  else
    let (ok, bytes) ← gets fun s => s.read_blocks req.bd cur x
    if ok then pure (copy buf off (chunk * BLK_SECTOR_SIZE) bytes) else fail .driver

/-- The loop of `block_submit`: `left` sectors from `cur` on, for the buffer from `off` on. A
round that moves nothing is repeated for ever, which `fuel` cuts off. -/
def submitLoop (c : Option ℕ) (req : BlkRequest) (fuel cur left off : ℕ) (buf : ℕ → UInt8) :
    Prog BlkErr Blk (ℕ → UInt8) :=
  match fuel with
  | 0 => if left = 0 then pure buf else fail .stuck
  | fuel + 1 => do
    if left = 0 then pure buf
    else
      let chunk := min left (← gets fun s => (s.dev req.bd).max_sectors)
      let through := if !req.write ∧ chunk = 1 then c else none
      match through with
      | some c =>
        let sec ← cache_read_sector req.bd c cur
        submitLoop (some c) req fuel ((cur + 1) % 2 ^ 64) (left - 1) (off + BLK_SECTOR_SIZE)
          (copy buf off BLK_SECTOR_SIZE sec)
      | none =>
        let buf ← transfer c req cur chunk off buf
        submitLoop c req fuel ((cur + chunk) % 2 ^ 64) (left - chunk)
          (off + chunk * BLK_SECTOR_SIZE) buf

/-- `block_submit`; the answer is the buffer of the request after it. -/
def block_submit (req : BlkRequest) : Prog BlkErr Blk (ℕ → UInt8) := do
  let c ← gets fun s => s.cache_for req.bd
  submitLoop c req req.nsect req.lba req.nsect 0 req.buf

/-- The sectors that a byte count covers. -/
def sectors (bytes : ℕ) : ℕ :=
  bytes / BLK_SECTOR_SIZE + if bytes % BLK_SECTOR_SIZE = 0 then 0 else 1

/-- The checks of both entry points. -/
def checkRange (bd lba bytes : ℕ) : Prog BlkErr Blk Unit := do
  if bytes = 0 then fail .inval
  else if (lba + sectors bytes) % 2 ^ 64 > (← gets fun s => (s.dev bd).capacity_sectors) then
    fail .inval
  else pure ()

/-- The whole sectors of a call, if it has any. -/
def submitWhole (req : BlkRequest) : Prog BlkErr Blk (ℕ → UInt8) :=
  if req.nsect = 0 then pure req.buf else block_submit req

/-- `block_read`; the answer is the caller's buffer after it. -/
def block_read (bd lba : ℕ) (buf : ℕ → UInt8) (bytes : ℕ) : Prog BlkErr Blk (ℕ → UInt8) := do
  let whole := bytes / BLK_SECTOR_SIZE
  let tail := bytes % BLK_SECTOR_SIZE
  checkRange bd lba bytes
  let buf ← submitWhole ⟨bd, lba, whole, buf, false⟩
  if tail = 0 then pure buf
  else
    -- the short tail is bounced through a sector on the stack
    let sec ← block_submit ⟨bd, (lba + whole) % 2 ^ 64, 1, fun _ => 0, false⟩
    pure (copy buf (whole * BLK_SECTOR_SIZE) tail sec)

/-- The zero-padded sector that the short tail of a write goes out in. -/
def tailSector (buf : ℕ → UInt8) (whole tail : ℕ) : ℕ → UInt8 :=
  copy (fun _ => 0) 0 tail fun i => buf (whole * BLK_SECTOR_SIZE + i)

/-- `block_write` -/
def block_write (bd lba : ℕ) (buf : ℕ → UInt8) (bytes : ℕ) : Prog BlkErr Blk Unit := do
  let whole := bytes / BLK_SECTOR_SIZE
  let tail := bytes % BLK_SECTOR_SIZE
  checkRange bd lba bytes
  let _ ← submitWhole ⟨bd, lba, whole, buf, true⟩
  if tail = 0 then pure ()
  else
    let _ ← block_submit ⟨bd, (lba + whole) % 2 ^ 64, 1, tailSector buf whole tail, true⟩
    pure ()

/-! ## Sequences of calls -/

inductive Call
  | read (bd lba : ℕ) (buf : ℕ → UInt8) (bytes : ℕ)
  | write (bd lba : ℕ) (buf : ℕ → UInt8) (bytes : ℕ)

/-- The answer of a call: `-1`, `0`, or `0` with the buffer of the caller. -/
inductive Answer
  | refused
  | done
  | got (buf : ℕ → UInt8)

def serve (s : Blk) : Call → Answer × Blk
  | .read bd lba buf bytes =>
    match block_read bd lba buf bytes s with
    | (.ok buf', s') => (.got buf', s')
    | (.error _, s') => (.refused, s')
  | .write bd lba buf bytes =>
    match block_write bd lba buf bytes s with
    | (.ok (), s') => (.done, s')
    | (.error _, s') => (.refused, s')

/-- The answers to calls made one after another, and the state they leave. -/
def serveAll (s : Blk) : List Call → List Answer × Blk
  | [] => ([], s)
  | call :: calls =>
    let (a, s') := serve s call
    let (as, t) := serveAll s' calls
    (a :: as, t)

/-- A call on a registered device whose sectors lie on the device. -/
def Call.InRange (s : Blk) : Call → Prop
  | .read bd lba _ bytes | .write bd lba _ bytes =>
    bd ∈ s.bdevs ∧ lba + sectors bytes ≤ (s.dev bd).capacity_sectors

/-- The same layer without a cache: `cache_for` finds none. -/
def Blk.uncached (s : Blk) : Blk := { s with bdevs := [] }

/-! ## What the layer is for -/

/-- The bytes that the devices hold for their callers. -/
abbrev Store := ℕ → ℕ → UInt8

/-- A caller's bytes, padded with zeros. -/
def padded (buf : ℕ → UInt8) (bytes : ℕ) : ℕ → UInt8 := fun i => if i < bytes then buf i else 0

/-- A range is overwritten, up to the end of its last sector. -/
def Store.write (σ : Store) (bd lba : ℕ) (buf : ℕ → UInt8) (bytes : ℕ) : Store :=
  Function.update σ bd
    (copy (σ bd) (lba * BLK_SECTOR_SIZE) (sectors bytes * BLK_SECTOR_SIZE) (padded buf bytes))

/-- The call on the bytes last written: an empty count is refused. -/
def Store.serve (σ : Store) : Call → Answer × Store
  | .read bd lba buf bytes =>
    if bytes = 0 then (.refused, σ)
    else (.got (copy buf 0 bytes fun i => σ bd (lba * BLK_SECTOR_SIZE + i)), σ)
  | .write bd lba buf bytes =>
    if bytes = 0 then (.refused, σ) else (.done, σ.write bd lba buf bytes)

def Store.serveAll (σ : Store) : List Call → List Answer × Store
  | [] => ([], σ)
  | call :: calls =>
    let (a, σ') := σ.serve call
    let (as, τ) := σ'.serveAll calls
    (a :: as, τ)

end MobilePhoneOs.Block
