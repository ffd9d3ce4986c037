import MobilePhoneOs.Drivers.Block
import MobilePhoneOs.Lib.Run

/-!
# Callers of the block layer side by side

The calls of `drivers/block.c`, one driver transfer or cache update at a time. A lookup and a
fill hold the lock of the cache for their one step; a miss holds it from the transfer into
the victim line to the tag.
-/

namespace MobilePhoneOs.Block.Race

open Mem Blk

/-- The local variables of `block_submit`, and the request for the short tail that may follow. -/
structure Work where
  req : BlkRequest
  cur : ℕ
  left : ℕ
  off : ℕ
  buf : ℕ → UInt8
  rest : Option BlkRequest

/-- Where a caller is. -/
inductive Phase
  | idle
  /-- at the head of the loop of `block_submit` -/
  | loop (w : Work)
  /-- the lock is held, the driver has read into the victim line -/
  | fetched (w : Work) (c : ℕ)
  /-- a transfer of `chunk` sectors is on the device, the lines of the first `i` are filled -/
  | fill (w : Work) (c chunk i : ℕ)

namespace Work

/-- A request is taken up. -/
def ofReq (req : BlkRequest) (rest : Option BlkRequest) : Work :=
  ⟨req, req.lba, req.nsect, 0, req.buf, rest⟩

/-- `n` sectors further on, with the buffer `buf`. -/
def next (w : Work) (n : ℕ) (buf : ℕ → UInt8) : Work :=
  { w with cur := (w.cur + n) % 2 ^ 64, left := w.left - n, off := w.off + n * BLK_SECTOR_SIZE, buf }

/-- The caller after the loop has ended. -/
def finish (w : Work) : Phase :=
  match w.rest with
  | some req => .loop (ofReq req none)
  | none => .idle

def chunk (w : Work) (s : Blk) : ℕ := min w.left (s.dev w.req.bd).max_sectors

/-- The cache that the next sector is read through. -/
def through (w : Work) (s : Blk) : Option ℕ :=
  if !w.req.write ∧ w.chunk s = 1 then s.cache_for w.req.bd else none

/-- The bytes that a write sends to sector `i` of the rest of the request. -/
def sector (w : Work) (i : ℕ) : ℕ → UInt8 := fun j => w.buf (w.off + i * BLK_SECTOR_SIZE + j)

end Work

/-- The request for the whole sectors and the one for the short tail. -/
def requests (bd lba : ℕ) (buf : ℕ → UInt8) (bytes : ℕ) (write : Bool) : List BlkRequest :=
  let whole := bytes / BLK_SECTOR_SIZE
  let tail := bytes % BLK_SECTOR_SIZE
  (if whole = 0 then [] else [⟨bd, lba, whole, buf, write⟩]) ++
    if tail = 0 then []
    else [⟨bd, (lba + whole) % 2 ^ 64, 1, if write then tailSector buf whole tail else fun _ => 0,
      write⟩]

/-- The caller after the checks of an entry point. -/
def enter (s : Blk) : Call → Phase
  | .read bd lba buf bytes => go bd lba buf bytes false
  | .write bd lba buf bytes => go bd lba buf bytes true
where
  go (bd lba : ℕ) (buf : ℕ → UInt8) (bytes : ℕ) (write : Bool) : Phase :=
    if (lba + sectors bytes) % 2 ^ 64 > (s.dev bd).capacity_sectors then .idle
    else
      match requests bd lba buf bytes write with
      | [] => .idle
      | req :: rest => .loop (.ofReq req rest.head?)

/-- The block layer and its callers. -/
structure State (ι : Type) where
  blk : Blk
  phase : ι → Phase

variable {ι : Type} [DecidableEq ι]

def State.move (s : State ι) (k : ι) (p : Phase) (b : Blk) : State ι :=
  ⟨b, Function.update s.phase k p⟩

/-- Nobody holds the lock of a cache from one step to the next. -/
def State.Free (s : State ι) (c : ℕ) : Prop := ∀ k w, s.phase k ≠ .fetched w c

/-- What a caller does: it makes a call, a driver transfer that ends in some way, or a step
without the driver. -/
inductive Act (ι : Type)
  | call (k : ι) (call : Call)
  | drive (k : ι) (x : Xfer)
  | cpu (k : ι)

/-- One step of one caller. -/
inductive Step : State ι → Act ι → State ι → Prop
  | call {s : State ι} {k : ι} (call : Call) (hk : s.phase k = .idle) :
      Step s (.call k call) (s.move k (enter s.blk call) s.blk)
  | done {s : State ι} {k : ι} {w : Work} (hk : s.phase k = .loop w) (hleft : w.left = 0) :
      Step s (.cpu k) (s.move k w.finish s.blk)
  | hit {s : State ι} {k : ι} {w : Work} {c : ℕ} {data : ℕ → UInt8} (hk : s.phase k = .loop w)
      (hleft : w.left ≠ 0) (hc : w.through s.blk = some c) (hfree : s.Free c)
      (hdata : s.blk.lookup c w.cur = some data) :
      Step s (.cpu k)
        (s.move k (.loop (w.next 1 (copy w.buf w.off BLK_SECTOR_SIZE data))) s.blk)
  | miss {s : State ι} {k : ι} {w : Work} {c : ℕ} (x : Xfer) (hk : s.phase k = .loop w)
      (hleft : w.left ≠ 0) (hc : w.through s.blk = some c) (hfree : s.Free c)
      (hmiss : s.blk.lookup c w.cur = none) :
      Step s (.drive k x)
        (s.move k (if (s.blk.read_blocks w.req.bd w.cur x).1 then .fetched w c else .idle)
          (s.blk.fetch c w.cur (s.blk.read_blocks w.req.bd w.cur x).2))
  | tag {s : State ι} {k : ι} {w : Work} {c : ℕ} (hk : s.phase k = .fetched w c) :
      Step s (.cpu k)
        (s.move k (.loop (w.next 1 (copy w.buf w.off BLK_SECTOR_SIZE (s.blk.lineOf c w.cur).data)))
          (s.blk.tag c w.cur))
  | read {s : State ι} {k : ι} {w : Work} (x : Xfer) (hk : s.phase k = .loop w)
      (hleft : w.left ≠ 0) (hc : w.through s.blk = none) (hw : w.req.write = false) :
      Step s (.drive k x)
        (s.move k (if (s.blk.read_blocks w.req.bd w.cur x).1 then
            .loop (w.next (w.chunk s.blk) (copy w.buf w.off (w.chunk s.blk * BLK_SECTOR_SIZE)
              (s.blk.read_blocks w.req.bd w.cur x).2))
          else .idle) s.blk)
  | write {s : State ι} {k : ι} {w : Work} (x : Xfer) (hk : s.phase k = .loop w)
      (hleft : w.left ≠ 0) (hw : w.req.write = true) :
      Step s (.drive k x)
        (s.move k
          (if (s.blk.write_blocks w.req.bd w.cur (w.chunk s.blk) (w.sector 0) x).1 then
            match s.blk.cache_for w.req.bd with
            | some c => .fill w c (w.chunk s.blk) 0
            | none => .loop (w.next (w.chunk s.blk) w.buf)
          else .idle)
          (s.blk.write_blocks w.req.bd w.cur (w.chunk s.blk) (w.sector 0) x).2)
  | fill {s : State ι} {k : ι} {w : Work} {c chunk i : ℕ} (hk : s.phase k = .fill w c chunk i)
      (hi : i < chunk) (hfree : s.Free c) :
      Step s (.cpu k)
        (s.move k (.fill w c chunk (i + 1)) (s.blk.cache_fill_write c (w.cur + i) (w.sector i)))
  | filled {s : State ι} {k : ι} {w : Work} {c chunk : ℕ}
      (hk : s.phase k = .fill w c chunk chunk) :
      Step s (.cpu k) (s.move k (.loop (w.next chunk w.buf)) s.blk)

/-! ## The law of the lines -/

/-- Caller `k` has written the sector and will fill its line. -/
def Pending (s : State ι) (k : ι) (bd lba : ℕ) : Prop :=
  ∃ w c chunk i, s.phase k = .fill w c chunk i ∧ w.req.bd = bd ∧ w.cur + i ≤ lba ∧
    lba < w.cur + chunk

/-- A miss that holds the lock has read into the line and will tag it. -/
def Fetching (s : State ι) (c idx : ℕ) : Prop :=
  ∃ k w, s.phase k = .fetched w c ∧ w.cur % CACHE_ENTRIES = idx

/-- No valid line differs from its sector. -/
def Exact (s : State ι) : Prop :=
  ∀ bd c idx, s.blk.cache_for bd = some c → (s.blk.caches c idx).valid →
    s.blk.Holds bd (s.blk.caches c idx).lba (s.blk.caches c idx).data

/-- No valid line differs from its sector, but for lines whose update is under way. -/
def Settled (s : State ι) : Prop :=
  ∀ bd c idx, s.blk.cache_for bd = some c → (s.blk.caches c idx).valid →
    Fetching s c idx ∨ (∃ k, Pending s k bd (s.blk.caches c idx).lba) ∨
      s.blk.Holds bd (s.blk.caches c idx).lba (s.blk.caches c idx).data

/-- No caller is between a transfer and the update of the lines that follows it. -/
def Quiet (s : State ι) : Prop := ∀ k, s.phase k = .idle ∨ ∃ w, s.phase k = .loop w

/-- A write transfer leaves a sector as it is. -/
def Leaves (s : Blk) (w : Work) (x : Xfer) (lba : ℕ) : Prop :=
  ∀ i < BLK_SECTOR_SIZE,
    (s.write_blocks w.req.bd w.cur (w.chunk s) (w.sector 0) x).2.content w.req.bd
        (lba * BLK_SECTOR_SIZE + i)
      = s.content w.req.bd (lba * BLK_SECTOR_SIZE + i)

/-- The condition for `Exact`: a transfer into a valid victim line brings the line's own
sector, a write changes no sector that a line holds, and what is tagged or filled is what the
device holds. -/
def ExactClean (s : State ι) : Act ι → Prop
  | .call _ _ => True
  | .drive k x =>
    match s.phase k with
    | .loop w =>
      match w.req.write, w.through s.blk with
      | true, _ => ∀ c idx, s.blk.cache_for w.req.bd = some c → (s.blk.caches c idx).valid →
          Leaves s.blk w x (s.blk.caches c idx).lba
      | false, some c => (s.blk.lineOf c w.cur).valid →
          s.blk.Holds w.req.bd (s.blk.lineOf c w.cur).lba (s.blk.read_blocks w.req.bd w.cur x).2
      | false, none => True
    | _ => True
  | .cpu k =>
    match s.phase k with
    | .fetched w c => s.blk.Holds w.req.bd w.cur (s.blk.lineOf c w.cur).data
    | .fill w _ chunk i => i < chunk → s.blk.Holds w.req.bd (w.cur + i) (w.sector i)
    | _ => True

/-- The condition for `Settled`: a failing transfer into a valid victim line leaves the line's
own sector there, a failing write changes no sector that a line holds, and what is tagged or
filled is what the device holds, each unless a fill of that sector is still to come. -/
def SettledClean (s : State ι) : Act ι → Prop
  | .call _ _ => True
  | .drive _ .ok => True
  | .drive k (.fail junk part) =>
    match s.phase k with
    | .loop w =>
      match w.req.write, w.through s.blk with
      | true, _ => ∀ c idx, s.blk.cache_for w.req.bd = some c → (s.blk.caches c idx).valid →
          Fetching s c idx ∨ (∃ j, Pending s j w.req.bd (s.blk.caches c idx).lba) ∨
            Leaves s.blk w (.fail junk part) (s.blk.caches c idx).lba
      | false, some c => (s.blk.lineOf c w.cur).valid →
          (∃ j, Pending s j w.req.bd (s.blk.lineOf c w.cur).lba) ∨
            s.blk.Holds w.req.bd (s.blk.lineOf c w.cur).lba junk
      | false, none => True
    | _ => True
  | .cpu k =>
    match s.phase k with
    | .fetched w c => (∃ j, Pending s j w.req.bd w.cur) ∨
        s.blk.Holds w.req.bd w.cur (s.blk.lineOf c w.cur).data
    | .fill w _ chunk i => i < chunk → (∃ j ≠ k, Pending s j w.req.bd (w.cur + i)) ∨
        s.blk.Holds w.req.bd (w.cur + i) (w.sector i)
    | _ => True

/-- The layer after registrations, before any call. -/
def boot (dev : ℕ → BlockDevice) (regs : List ℕ) : State ι :=
  ⟨regs.foldl Blk.block_register (Blk.boot dev), fun _ => .idle⟩

end MobilePhoneOs.Block.Race
