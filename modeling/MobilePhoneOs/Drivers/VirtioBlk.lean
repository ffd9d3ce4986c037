import MobilePhoneOs.Drivers.Virtqueue
import MobilePhoneOs.Lib.Word

/-!
# Requests to the disk (`drivers/virtio_blk.c`)

The calls of `vblk_rw` between their `msleep` points, with the device beside them: it takes a
chain, writes to the buffers that the chain marks for it, and returns the head some time later.
-/

namespace MobilePhoneOs.Virtio.Blk

def VBLK_REQ_IN : ℕ := 0
def VBLK_REQ_OUT : ℕ := 1
def VBLK_STATUS_OK : UInt8 := 0
def TIME_HZ : ℕ := 100
def VBLK_TIMEOUT_TICKS : ℕ := 3 * TIME_HZ
def VBLK_MAX_SECTORS : ℕ := 8

/-- The bytes of the staging buffers. -/
abbrev Staging := Stage → ℕ → UInt8

/-- The arguments of a call, with the bytes of the caller's buffer. -/
structure Req where
  write : Bool
  lba : ℕ
  nsect : ℕ
  buf : ℕ → UInt8

/-- A call that sleeps until its request is done; the ghost `id` counts the requests. -/
structure Wait where
  req : Req
  deadline : BitVec 64
  id : ℕ

/-- `struct vblk_dev` with its queue, the calls and the device. The ghost `sent` counts the
requests that were submitted, `ids` tells which of them a head is, and `completed` which one set
`done`. -/
structure Vblk where
  q : Virtq
  /-- `active.done` -/
  done : Bool
  /-- `active.ok` -/
  ok : Bool
  mem : Staging
  capacity_sectors : ℕ
  calls : Task → Option Wait
  seen : ℕ
  hands : List ℕ
  disk : ℕ → UInt8
  sent : ℕ
  ids : ℕ → ℕ
  completed : ℕ

inductive Event
  /-- a call up to its first sleep -/
  | start (t : Task) (r : Req) (now : BitVec 64)
  /-- a call that wakes, behind its `virtio_poll` -/
  | check (t : Task) (now : BitVec 64)
  /-- a turn of the loop in `virtq_drain_used` -/
  | drain
  | take
  /-- the device writes to memory and to the medium -/
  | dma (mem : Staging) (disk : ℕ → UInt8)
  | give (h : ℕ)

/-- What a call returns, if it does. -/
inductive Out
  | none
  | sleeps
  /-- `-1` before anything was submitted -/
  | refused
  | timeout
  /-- `-1` for the status -/
  | failed
  /-- `0`, with the bytes of the caller's buffer -/
  | success (buf : ℕ → UInt8)

namespace Vblk

def setCall (s : Vblk) (t : Task) (w : Option Wait) : Vblk :=
  { s with calls := Function.update s.calls t w }

/-- The check of `vblk_read` and of `vblk_write`. -/
def Valid (s : Vblk) (r : Req) : Prop :=
  r.nsect ≤ VBLK_MAX_SECTORS ∧ (r.lba + r.nsect) % 2 ^ 64 ≤ s.capacity_sectors

instance (s : Vblk) (r : Req) : Decidable (s.Valid r) := inferInstanceAs (Decidable (_ ∧ _))

/-- The header, the data of a write and the status byte are staged. -/
def stage (m : Staging) (r : Req) : Staging
  | .st_hdr => Mem.put (Mem.put (Mem.put (m .st_hdr) 0 4
      (if r.write then VBLK_REQ_OUT else VBLK_REQ_IN)) 4 4 0) 8 8 r.lba
  | .st_data => fun i => if r.write ∧ i < r.nsect * BLK_SECTOR_SIZE then r.buf i else m .st_data i
  | .st_status => fun i => if i = 0 then 0xff else m .st_status i
  | a => m a

/-- The three pops of `vblk_rw`. -/
def pops (q : Virtq) : (ℕ × ℕ × ℕ) × Virtq :=
  let h := q.virtqPopDesc
  let d1 := h.2.virtqPopDesc
  let d2 := d1.2.virtqPopDesc
  ((h.1, d1.1, d2.1), d2.2)

/-- `vblk_rw` up to its first sleep, behind the check of the arguments -/
def start (s : Vblk) (t : Task) (r : Req) (now : BitVec 64) : Vblk × Out :=
  if s.done = false then (s, .refused)
  else
    let p := pops s.q
    -- `done` is cleared before the pops are looked at, and a refused call leaves it so
    let s := { s with mem := stage s.mem r, done := false, ok := false, q := p.2 }
    let (h, d1, d2) := p.1
    if h = VQ_NONE ∨ d1 = VQ_NONE ∨ d2 = VQ_NONE then (s, .refused)
    else
      ({ s.setCall t (some ⟨r, now + BitVec.ofNat 64 VBLK_TIMEOUT_TICKS, s.sent⟩) with
          q := (s.q.vblkChain r.write r.nsect h d1 d2).virtqSubmit h .active
          sent := s.sent + 1
          ids := Function.update s.ids h s.sent }, .sleeps)

/-- The head of the loop in `vblk_rw`, and what is behind the loop -/
def check (s : Vblk) (t : Task) (w : Wait) (now : BitVec 64) : Vblk × Out :=
  -- whose request it was that set `done` is not asked
  if s.done then
    (s.setCall t none,
      if s.ok then
        .success fun i =>
          if w.req.write = false ∧ i < w.req.nsect * BLK_SECTOR_SIZE then s.mem .st_data i
          else w.req.buf i
      else .failed)
  else if 0 ≤ (now - w.deadline).toInt then (s.setCall t none, .timeout)
  else (s, .sleeps)

/-- `vblk_complete` -/
def complete (s : Vblk) (head : ℕ) : Vblk :=
  if s.q.owner head = some .active then
    { s with
      ok := s.mem .st_status 0 = VBLK_STATUS_OK
      done := true
      completed := s.ids head }
  else s

/-- A turn of `virtq_drain_used` -/
def drain (s : Vblk) : Vblk :=
  let head := s.q.used_ring (s.q.last_used % VQ_NUM)
  match (s.complete head).q.virtqFreeChain head with
  | some q => { s.complete head with q := { q with last_used := (q.last_used + 1) % U16 } }
  | none => s.complete head

def act (s : Vblk) : Event → Vblk × Out
  | .start t r now => if s.Valid r then s.start t r now else (s, .refused)
  | .check t now =>
    match s.calls t with
    | some w => s.check t w now
    | none => (s, .none)
  | .drain => (s.drain, .none)
  | .take =>
    ({ s with hands := s.hands ++ [s.q.avail_ring (s.seen % VQ_NUM)], seen := (s.seen + 1) % U16 },
      .none)
  | .dma mem disk => ({ s with mem := mem, disk := disk }, .none)
  | .give h =>
    ({ s with
        hands := s.hands.erase h
        q := { s.q with
          used_ring := Function.update s.q.used_ring (s.q.used_idx % VQ_NUM) h
          used_idx := (s.q.used_idx + 1) % U16 } }, .none)

/-- The byte is in a buffer that the chain marks for the device to write. -/
def Writable (s : Vblk) (head : ℕ) (a : Stage) (i : ℕ) : Prop :=
  ∃ l, IsChain s.q.desc head l ∧ ∃ d ∈ l, (s.q.desc d).flags &&& VRING_DESC_F_WRITE ≠ 0 ∧
    ∃ off, (s.q.desc d).addr = some (a, off) ∧ off ≤ i ∧ i < off + (s.q.desc d).len

def Enabled (s : Vblk) : Event → Prop
  | .start t _ _ => s.calls t = none
  | .check t _ => s.calls t ≠ none ∧ s.q.last_used = s.q.used_idx
  | .drain => s.q.last_used ≠ s.q.used_idx
  | .take => s.seen ≠ s.q.avail_idx
  | .dma mem _ => ∃ h ∈ s.hands, ∀ a i, mem a i ≠ s.mem a i → s.Writable h a i
  | .give h => h ∈ s.hands

/-- The heads that have been submitted and not drained. -/
def flight (s : Vblk) : List ℕ :=
  Ring.queued VQ_NUM U16 s.q.avail_ring s.seen s.q.avail_idx ++ s.hands ++
    Ring.queued VQ_NUM U16 s.q.used_ring s.q.last_used s.q.used_idx

end Vblk

def Step (s : Vblk) (a : Event × Out) (t : Vblk) : Prop := s.Enabled a.1 ∧ s.act a.1 = (t, a.2)

/-- After `virtio_blk_attach`. -/
def attached (capacity : ℕ) (mem : Staging) (disk : ℕ → UInt8) : Vblk where
  q := .virtqSetup
  done := true
  ok := false
  mem := mem
  capacity_sectors := capacity
  calls := fun _ => none
  seen := 0
  hands := []
  disk := disk
  sent := 0
  ids := fun _ => 0
  completed := 0

/-- The bytes of the sectors of a request on the medium are those of a buffer. -/
def Transferred (s : Vblk) (r : Req) (buf : ℕ → UInt8) : Prop :=
  ∀ i < r.nsect * BLK_SECTOR_SIZE, s.disk (r.lba * BLK_SECTOR_SIZE + i) = buf i

/-- The law of a step: with nothing in flight a valid call is not refused; a call that finds `done`
set finds it set by its own request, and on success its sectors have been transferred. -/
def Lawful (s : Vblk) (a : Event × Out) : Prop :=
  match a.1 with
  | .start _ r _ => s.Valid r → s.flight = [] → a.2 = .sleeps
  | .check t _ => ∀ w, s.calls t = some w → (s.done = true → s.completed = w.id) ∧
      ∀ buf, a.2 = .success buf → Transferred s w.req buf
  | _ => True

/-- The number of requests for which there are descriptors. -/
def REQ_MAX : ℕ := VQ_NUM - 2

/-- The condition on a step: fewer than `REQ_MAX` requests have been submitted when a call starts
on an idle disk, and no call has started since the request of a call that finds `done` set. -/
def Clean (s : Vblk) (a : Event × Out) : Prop :=
  match a.1 with
  | .start _ r _ => s.Valid r → s.flight = [] → s.sent < REQ_MAX
  | .check t _ => ∀ w, s.calls t = some w → s.done = true → w.id + 1 = s.sent
  | _ => True

end MobilePhoneOs.Virtio.Blk
