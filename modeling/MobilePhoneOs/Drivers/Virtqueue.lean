import MobilePhoneOs.Lib.Chain
import MobilePhoneOs.Lib.RingIndex
import MobilePhoneOs.Lib.Run

/-!
# The split virtqueue (`drivers/virtio_mmio.c`) and the chains built on it

The functions of the transport on one queue, the chains of `vblk_rw`, `vnet_post_rx` and
`virtio_net_send`, and the device as far as the rings show it: it takes the heads in the order in
which they were made available and returns each of them once, in any order.
-/

namespace MobilePhoneOs

open Function (update)
namespace Virtio

def VRING_DESC_F_NEXT : BitVec 16 := 1
def VRING_DESC_F_WRITE : BitVec 16 := 2

def VQ_NUM : ℕ := 128

/-- No descriptor available. -/
def VQ_NONE : ℕ := 0xffff

/-- The range of a `uint16_t`. -/
def U16 : ℕ := 2 ^ 16

def VNET_RX_BUFFERS : ℕ := 8
def VNET_SLOT_FREE : ℕ := 0xffff
def VNET_HDR_LEN : ℕ := 10
def VNET_FRAME_LEN : ℕ := 1514
def BLK_SECTOR_SIZE : ℕ := 512

/-- The staging buffers in the arena. -/
inductive Stage
  | st_hdr
  | st_data
  | st_status
  | slot (i : ℕ)
  | tx_buf
deriving DecidableEq

/-- `struct vring_desc`; its address is an offset into a staging buffer. -/
structure VringDesc where
  addr : Option (Stage × ℕ)
  len : ℕ
  flags : BitVec 16
  next : ℕ
deriving DecidableEq

/-- The chain goes on behind the descriptor. -/
def VringDesc.hasNext (d : VringDesc) : Bool := d.flags &&& VRING_DESC_F_NEXT ≠ 0

/-- The `void *` that is kept for the head of a chain. -/
inductive Owner
  /-- `&v->active` -/
  | active
  /-- `&n->slot[i]` -/
  | slot (i : ℕ)
  /-- the NIC -/
  | vnet
deriving DecidableEq

/-- `struct virtq` with the rings it points to -/
structure Virtq where
  desc : ℕ → VringDesc
  avail_idx : ℕ
  avail_ring : ℕ → ℕ
  used_idx : ℕ
  used_ring : ℕ → ℕ
  last_used : ℕ
  free_head : ℕ
  free_count : ℕ
  owner : ℕ → Option Owner

namespace Virtq

def setDesc (q : Virtq) (i : ℕ) (d : VringDesc) : Virtq :=
  { q with desc := update q.desc i d }

/-- What `virtq_setup` makes of the arena. -/
def virtqSetup : Virtq where
  desc := fun i =>
    { addr := none
      len := 0
      flags := if i = VQ_NUM - 1 then 0 else VRING_DESC_F_NEXT
      next := i + 1 }
  avail_idx := 0
  avail_ring := fun _ => 0
  used_idx := 0
  used_ring := fun _ => 0
  last_used := 0
  free_head := 0
  free_count := VQ_NUM
  owner := fun _ => none

/-- `virtq_pop_desc` -/
def virtqPopDesc (q : Virtq) : ℕ × Virtq :=
  if q.free_count = 0 then (VQ_NONE, q)
  else
    (q.free_head,
      { q with free_head := (q.desc q.free_head).next, free_count := q.free_count - 1 })

/-- `virtq_submit` -/
def virtqSubmit (q : Virtq) (head : ℕ) (owner : Owner) : Virtq :=
  { q with
    owner := update q.owner head (some owner)
    avail_ring := update q.avail_ring (q.avail_idx % VQ_NUM) head
    avail_idx := (q.avail_idx + 1) % U16 }

/-- A descriptor is put back in the loop of `virtq_free_chain`. -/
def giveBack (q : Virtq) (i : ℕ) : Virtq :=
  { q.setDesc i { q.desc i with
      flags := if (q.desc i).hasNext then VRING_DESC_F_NEXT else 0
      next := q.free_head } with
    free_head := i
    free_count := (q.free_count + 1) % U16 }

/-- The loop of `virtq_free_chain`; `none` if it has gone round more often than there are
descriptors, and does not end. -/
def freeLoop (q : Virtq) : ℕ → ℕ → Option Virtq
  | 0, _ => none
  | fuel + 1, i =>
    if (q.desc i).hasNext then (q.giveBack i).freeLoop fuel (q.desc i).next
    else some (q.giveBack i)

/-- `virtq_free_chain` -/
def virtqFreeChain (q : Virtq) (head : ℕ) : Option Virtq :=
  (q.freeLoop VQ_NUM head).map fun q => { q with owner := update q.owner head none }

/-- The chain of `vblk_rw` -/
def vblkChain (q : Virtq) (write : Bool) (nsect h d1 d2 : ℕ) : Virtq :=
  ((q.setDesc h ⟨some (.st_hdr, 0), 16, VRING_DESC_F_NEXT, d1⟩).setDesc d1
    ⟨some (.st_data, 0), nsect * BLK_SECTOR_SIZE, if write then 0 else VRING_DESC_F_WRITE, d2⟩).setDesc
      d2 ⟨some (.st_status, 0), 1, VRING_DESC_F_WRITE, 0⟩

/-- The chain of `vnet_post_rx` -/
def vnetRxChain (q : Virtq) (i h d1 : ℕ) : Virtq :=
  (q.setDesc h ⟨some (.slot i, 0), VNET_HDR_LEN, VRING_DESC_F_WRITE ||| VRING_DESC_F_NEXT, d1⟩).setDesc
    d1 ⟨some (.slot i, VNET_HDR_LEN), VNET_FRAME_LEN, VRING_DESC_F_WRITE, 0⟩

/-- The chain of `virtio_net_send` -/
def vnetTxChain (q : Virtq) (len h d1 : ℕ) : Virtq :=
  (q.setDesc h ⟨some (.tx_buf, 0), VNET_HDR_LEN, VRING_DESC_F_NEXT, d1⟩).setDesc
    d1 ⟨some (.tx_buf, VNET_HDR_LEN), len, 0, 0⟩

end Virtq

/-! ## A queue in use -/

abbrev Task := ℕ

/-- Whose queue it is: the disk's, or that of the NIC for received or for sent frames. -/
inductive Role
  | blk
  | rx
  | tx
deriving DecidableEq

/-- A call that builds a chain. -/
inductive Job
  | vblk_rw (write : Bool) (nsect : ℕ)
  | vnet_post_rx (i : ℕ)
  | virtio_net_send (len : ℕ)
deriving DecidableEq

namespace Job

def role : Job → Role
  | vblk_rw _ _ => .blk
  | vnet_post_rx _ => .rx
  | virtio_net_send _ => .tx

/-- The number of descriptors that the call pops. -/
def count : Job → ℕ
  | vblk_rw _ _ => 3
  | vnet_post_rx _ | virtio_net_send _ => 2

def owner : Job → Owner
  | vblk_rw _ _ => .active
  | vnet_post_rx i => .slot i
  | virtio_net_send _ => .vnet

/-- The chain is written into the descriptors that were popped. -/
def build (q : Virtq) : Job → List ℕ → Virtq
  | vblk_rw write nsect, [h, d1, d2] => q.vblkChain write nsect h d1 d2
  | vnet_post_rx i, [h, d1] => q.vnetRxChain i h d1
  | virtio_net_send len, [h, d1] => q.vnetTxChain len h d1
  | _, _ => q

end Job

/-- A call that has not submitted its chain yet; `popped` has what `virtq_pop_desc` returned. -/
structure Call where
  job : Job
  popped : List ℕ
  filled : Bool
deriving DecidableEq

/-- The descriptors that a call has in its hands. -/
def Call.descs (c : Call) : List ℕ := c.popped.filter (· ≠ VQ_NONE)

/-- Where `virtq_drain_used` is in its loop: between two heads, in the callback for one, which
has found its owner, or behind the callback. -/
inductive Drain
  | idle
  | called (h : ℕ) (o : Option Owner)
  | returned (h : ℕ)
deriving DecidableEq

def Drain.head : Drain → Option ℕ
  | idle => none
  | called h _ | returned h => some h

/-- A queue with the calls on it and the device: `seen` is the index of the next available slot
that it reads, `hands` has the heads it works on. The ghost `outstanding` has the owner that each
head was submitted with, up to its completion. -/
structure Sys where
  role : Role
  q : Virtq
  calls : Task → Option Call
  seen : ℕ
  hands : List ℕ
  drain : Drain
  /-- `v->active.done` -/
  done : Bool
  /-- `n->slot[i].head` -/
  slots : ℕ → ℕ
  tx_busy : Bool
  outstanding : ℕ → Option Owner

inductive Event
  /-- the checks at the start of a call -/
  | begin (t : Task) (job : Job)
  | pop (t : Task)
  /-- the pops are checked, and the descriptors written -/
  | fill (t : Task)
  | submit (t : Task)
  | take
  | give (h : ℕ)
  | complete
  | ret
  | free

namespace Sys

def setCall (s : Sys) (t : Task) (c : Option Call) : Sys :=
  { s with calls := update s.calls t c }

/-- The head at the front of the used ring. -/
def front (s : Sys) : ℕ := s.q.used_ring (s.q.last_used % VQ_NUM)

/-- Whose request the callback takes the head for. -/
def found (s : Sys) (head : ℕ) : Option Owner :=
  match s.role with
  | .blk => if s.q.owner head = some .active then some .active else none
  | .rx => ((List.range VNET_RX_BUFFERS).find? fun i => s.slots i = head).map .slot
  | .tx => some .vnet

/-- The callback returns. -/
def completed (s : Sys) : Option Owner → Sys
  | some .active => { s with done := true }
  | some (.slot i) => { s with slots := update s.slots i VNET_SLOT_FREE }
  | some .vnet => { s with tx_busy := false }
  | none => s

def act (s : Sys) : Event → Sys
  | .begin t job =>
    { s.setCall t (some ⟨job, [], false⟩) with
      done := if job.role = .blk then false else s.done }
  | .pop t =>
    match s.calls t with
    | some c =>
      let r := s.q.virtqPopDesc
      { s.setCall t (some { c with popped := c.popped ++ [r.1] }) with q := r.2 }
    | none => s
  | .fill t =>
    match s.calls t with
    | some c =>
      -- what the other pops have returned is not put back
      if VQ_NONE ∈ c.popped then s.setCall t none
      else
        { s.setCall t (some { c with filled := true }) with
          q := c.job.build s.q c.popped
          slots := match c.job with
            | .vnet_post_rx i => update s.slots i (c.popped.headD VQ_NONE)
            | _ => s.slots }
    | none => s
  | .submit t =>
    match s.calls t with
    | some c =>
      let head := c.popped.headD VQ_NONE
      { s.setCall t none with
        q := s.q.virtqSubmit head c.job.owner
        tx_busy := if c.job.role = .tx then true else s.tx_busy
        outstanding := update s.outstanding head (some c.job.owner) }
    | none => s
  | .take =>
    { s with hands := s.hands ++ [s.q.avail_ring (s.seen % VQ_NUM)], seen := (s.seen + 1) % U16 }
  | .give h =>
    { s with
      hands := s.hands.erase h
      q := { s.q with
        used_ring := update s.q.used_ring (s.q.used_idx % VQ_NUM) h
        used_idx := (s.q.used_idx + 1) % U16 } }
  | .complete =>
    { s with
      drain := .called s.front (s.found s.front)
      outstanding := update s.outstanding s.front none }
  | .ret =>
    match s.drain with
    | .called h o => { s.completed o with drain := .returned h }
    | _ => s
  | .free =>
    match s.drain with
    | .returned h =>
      match s.q.virtqFreeChain h with
      | some q => { s with q := { q with last_used := (q.last_used + 1) % U16 }, drain := .idle }
      | none => s
    | _ => s

/-- The checks of the three calls. The refill of the receive queue is done by one task, slot
after slot. -/
def Starts (s : Sys) : Job → Prop
  | .vblk_rw _ _ => s.done = true
  | .vnet_post_rx i => i < VNET_RX_BUFFERS ∧ s.slots i = VNET_SLOT_FREE ∧ ∀ t, s.calls t = none
  | .virtio_net_send len => s.tx_busy = false ∧ 0 < len ∧ len ≤ VNET_FRAME_LEN

def Enabled (s : Sys) : Event → Prop
  | .begin t job => s.calls t = none ∧ job.role = s.role ∧ s.Starts job
  | .pop t => ∃ c, s.calls t = some c ∧ c.popped.length < c.job.count
  | .fill t => ∃ c, s.calls t = some c ∧ c.popped.length = c.job.count ∧ c.filled = false
  | .submit t => ∃ c, s.calls t = some c ∧ c.filled = true
  | .take => s.seen ≠ s.q.avail_idx
  | .give h => h ∈ s.hands
  | .complete => s.drain = .idle ∧ s.q.last_used ≠ s.q.used_idx
  | .ret => ∃ h o, s.drain = .called h o
  | .free => ∃ h, s.drain = .returned h

end Sys

def Step (s : Sys) (e : Event) (t : Sys) : Prop := s.Enabled e ∧ t = s.act e

/-- After the attach. -/
def start (role : Role) : Sys where
  role := role
  q := .virtqSetup
  calls := fun _ => none
  seen := 0
  hands := []
  drain := .idle
  done := true
  slots := fun _ => VNET_SLOT_FREE
  tx_busy := false
  outstanding := fun _ => none

/-! ## Conservation -/

/-- The chain that a device finds at a head: it goes on as long as the flag says so. -/
inductive IsChain (desc : ℕ → VringDesc) : ℕ → List ℕ → Prop
  | last {h : ℕ} (hend : (desc h).hasNext = false) : IsChain desc h [h]
  | cons {h : ℕ} {l : List ℕ} (hnext : (desc h).hasNext = true)
      (hrest : IsChain desc (desc h).next l) : IsChain desc h (h :: l)

/-- Where a descriptor can be. -/
inductive Place
  | free
  | held (t : Task)
  | flight (h : ℕ)

/-- What the descriptors of a queue show: its free list, what the calls hold, and the heads that
are in flight. -/
structure Layout where
  desc : ℕ → VringDesc
  free_head : ℕ
  free_count : ℕ
  held : Task → List ℕ
  flight : List ℕ

namespace Layout

/-- The descriptor is there. -/
def At (L : Layout) (F : List ℕ) (d : ℕ) : Place → Prop
  | .free => d ∈ F
  | .held t => d ∈ L.held t
  | .flight h => h ∈ L.flight ∧ ∃ l, IsChain L.desc h l ∧ d ∈ l

/-- `F` is the free list, `free_count` its length, and each descriptor is at one place, once. -/
structure Accounted (L : Layout) (F : List ℕ) : Prop where
  linked : Chain.Linked (fun i => (L.desc i).next) (VQ_NUM ≤ ·) L.free_head F
  count : L.free_count = F.length
  once : ∀ d < VQ_NUM, ∃! p, L.At F d p
  bound : ∀ d p, L.At F d p → d < VQ_NUM
  held_nodup : ∀ t, (L.held t).Nodup
  chains : ∀ h ∈ L.flight, ∃ l, IsChain L.desc h l ∧ l.Nodup
  flight_nodup : L.flight.Nodup

end Layout

namespace Sys

def held (s : Sys) (t : Task) : List ℕ := (s.calls t).elim [] Call.descs

/-- The heads that have been submitted and not freed: in the available ring, with the device, in
the used ring. -/
def flight (s : Sys) : List ℕ :=
  Ring.queued VQ_NUM U16 s.q.avail_ring s.seen s.q.avail_idx ++ s.hands ++
    Ring.queued VQ_NUM U16 s.q.used_ring s.q.last_used s.q.used_idx

def layout (s : Sys) : Layout where
  desc := s.q.desc
  free_head := s.q.free_head
  free_count := s.q.free_count
  held := s.held
  flight := s.flight

/-- Every descriptor is accounted for. -/
def Conserved (s : Sys) : Prop := ∃ F, s.layout.Accounted F

end Sys

/-- A head that is submitted was not outstanding, and no slot of the available ring that the
device has not read is overwritten. -/
def SubmitLaw (s : Sys) (head : ℕ) : Prop :=
  s.outstanding head = none ∧
    ∀ k < Ring.dist U16 s.seen s.q.avail_idx, (s.seen + k) % VQ_NUM ≠ s.q.avail_idx % VQ_NUM

/-- The law for a step: every descriptor is accounted for behind it, a submit obeys its law, and
a completion finds the owner that its head was submitted with. -/
def Lawful (s : Sys) (e : Event) (t : Sys) : Prop :=
  t.Conserved ∧
    match e with
    | .submit u => ∀ c, s.calls u = some c → SubmitLaw s (c.popped.headD VQ_NONE)
    | .complete => s.outstanding s.front ≠ none ∧ s.found s.front = s.outstanding s.front
    | _ => True

/-- The condition on a step: a call that lacks a descriptor has not got any, and what is submitted
is not a chain of the disk. -/
def Clean (s : Sys) : Event → Prop
  | .fill t => ∀ c, s.calls t = some c → VQ_NONE ∈ c.popped → c.descs = []
  | .submit t => ∀ c, s.calls t = some c → c.job.role ≠ .blk
  | _ => True

end Virtio
end MobilePhoneOs
