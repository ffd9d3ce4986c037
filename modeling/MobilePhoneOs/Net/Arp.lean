import Mathlib.Data.Fintype.Fin
import MobilePhoneOs.Lib.Interleave
import MobilePhoneOs.Net.Ipv4

/-!
# Address resolution (`net/etharp.c`)

No function takes a lock: `arp_send_ip` runs in tasks, `arp_input` where packets are received and
`arp_tick` in the housekeeping task. Every function has changed the cache and the slot before it
calls `link_out`, so a frame that the loopback hands back to `arp_input` makes a step of its own.
-/

namespace MobilePhoneOs.Net

def ETHERTYPE_IPV4 : ℕ := 0x0800
def ETHERTYPE_ARP : ℕ := 0x0806

def ARP_TABLE_MAX : ℕ := 8

def ARP_HTYPE_ETH : ℕ := 1
def ARP_REQUEST : ℕ := 1
def ARP_REPLY : ℕ := 2

/-- A hardware address, six bytes. -/
abbrev Hw := List UInt8

def zero_hw : Hw := [0, 0, 0, 0, 0, 0]

def bcast : Hw := [0xff, 0xff, 0xff, 0xff, 0xff, 0xff]

/-- `struct netif`, as far as the ARP code reads it. -/
structure ArpNetif where
  hwaddr : Hw
  ip_addr : UInt32

/-- `struct arp_entry` -/
structure ArpEntry where
  valid : Bool
  ip : UInt32
  hw : Hw
  last_seen_ms : UInt64

/-- `struct arp_pending`; the frame has its length. -/
structure ArpPending where
  used : Bool
  ip : UInt32
  nif : ℕ
  frame : List UInt8
  sent_ms : UInt64
  tries : ℕ

/-- The static data, and the interfaces by their pointers. -/
structure Arp where
  cache : Fin ARP_TABLE_MAX → ArpEntry
  pending : ArpPending
  nifs : ℕ → ArpNetif

/-- A call of `link_out`. -/
structure LinkOut where
  nif : ℕ
  dest_hw : Hw
  ethertype : ℕ
  buf : List UInt8
deriving DecidableEq

namespace Arp

/-! ## The cache -/

/-- The entry is of the address. -/
def hit (s : Arp) (ip : UInt32) (i : Fin ARP_TABLE_MAX) : Bool :=
  (s.cache i).valid && (s.cache i).ip = ip

/-- The loop of `cache_put`: the entry of the address, else the first free one, else the first. -/
def slot (s : Arp) (ip : UInt32) : Fin ARP_TABLE_MAX :=
  (((List.finRange ARP_TABLE_MAX).find? (s.hit ip)).or
    ((List.finRange ARP_TABLE_MAX).find? fun i => !(s.cache i).valid)).getD ⟨0, by decide⟩

/-- `cache_put` -/
def cachePut (s : Arp) (ip : UInt32) (hw : Hw) (now : UInt64) : Arp :=
  { s with cache := Function.update s.cache (s.slot ip) ⟨true, ip, hw, now⟩ }

/-- `arp_lookup` -/
def lookup (s : Arp) (ip : UInt32) : Option Hw :=
  ((List.finRange ARP_TABLE_MAX).find? (s.hit ip)).map fun i => (s.cache i).hw

/-! ## Frames -/

end Arp

/-- `arp_build` -/
def arpBuild (op : ℕ) (src_hw : Hw) (src_ip : UInt32) (dst_hw : Hw) (dst_ip : UInt32) :
    List UInt8 :=
  beBytes 2 ARP_HTYPE_ETH ++ beBytes 2 ETHERTYPE_IPV4 ++ [6, 4] ++ beBytes 2 op ++ src_hw ++
    beBytes 4 src_ip.toNat ++ dst_hw ++ beBytes 4 dst_ip.toNat

namespace Arp

/-- `arp_request` -/
def request (s : Arp) (nif : ℕ) (target_ip : UInt32) : LinkOut :=
  ⟨nif, bcast, ETHERTYPE_ARP,
    arpBuild ARP_REQUEST (s.nifs nif).hwaddr (s.nifs nif).ip_addr zero_hw target_ip⟩

/-- `arp_send_ip`, with what `link_out` returns -/
def sendIp (s : Arp) (nif : ℕ) (dst_ip : UInt32) (buf : List UInt8) (link : ℤ) :
    ℤ × Arp × List LinkOut :=
  if buf.length > ETH_MTU then (-1, s, [])
  else
    match s.lookup dst_ip with
    | some hw => (link, s, [⟨nif, hw, ETHERTYPE_IPV4, buf⟩])
    | none =>
      if s.pending.used ∧ s.pending.ip = dst_ip then (-1, s, [])
      else
        -- the slot may be in use for another address
        (0, { s with pending := ⟨true, dst_ip, nif, buf, 0, 0⟩ }, [s.request nif dst_ip])

/-- The hardware and the protocol address of the sender of an ARP packet that is looked at. -/
def sender (pkt : List UInt8) : Option (UInt32 × Hw) :=
  if pkt.length < 28 then none
  else
    let sender_ip := ip4Unpack (field pkt 14 4)
    if sender_ip = 0 then none else some (sender_ip, field pkt 8 6)

/-- The frame in the slot goes out to the address. -/
def release (s : Arp) (ip : UInt32) (hw : Hw) : Arp × List LinkOut :=
  if s.pending.used ∧ s.pending.ip = ip then
    ({ s with pending := { s.pending with used := false } },
      [⟨s.pending.nif, hw, ETHERTYPE_IPV4, s.pending.frame⟩])
  else (s, [])

/-- The reply to a request for the address of the interface. -/
def reply (s : Arp) (pkt : List UInt8) (nif : ℕ) (ip : UInt32) (hw : Hw) : List LinkOut :=
  if beNat (field pkt 6 2) = ARP_REQUEST ∧ ip4Unpack (field pkt 24 4) = (s.nifs nif).ip_addr then
    [⟨nif, hw, ETHERTYPE_ARP,
      arpBuild ARP_REPLY (s.nifs nif).hwaddr (s.nifs nif).ip_addr hw ip⟩]
  else []

/-- `arp_input` -/
def input (s : Arp) (pkt : List UInt8) (nif : ℕ) (now : UInt64) : Arp × List LinkOut :=
  match sender pkt with
  | none => (s, [])
  | some (ip, hw) =>
    let r := (s.cachePut ip hw now).release ip hw
    (r.1, r.2 ++ r.1.reply pkt nif ip hw)

/-- `arp_tick` -/
def tick (s : Arp) (now_ms : UInt64) : Arp × List LinkOut :=
  if !s.pending.used then (s, [])
  else if now_ms - s.pending.sent_ms ≥ 1000 then
    if s.pending.tries + 1 > 3 then
      ({ s with pending := { s.pending with used := false, tries := s.pending.tries + 1 } }, [])
    else
      ({ s with pending := { s.pending with sent_ms := now_ms, tries := s.pending.tries + 1 } },
        [s.request s.pending.nif s.pending.ip])
  else (s, [])

end Arp

/-! ## Runs -/

inductive ArpEvent
  | send (nif : ℕ) (dst_ip : UInt32) (buf : List UInt8) (link : ℤ)
  | input (pkt : List UInt8) (nif : ℕ) (now : UInt64)
  | tick (now : UInt64)
  /-- an interface gets another address -/
  | bind (nif : ℕ) (n : ArpNetif)

namespace Arp

def act (s : Arp) : ArpEvent → Arp × List LinkOut
  | .send nif dst_ip buf link => (s.sendIp nif dst_ip buf link).2
  | .input pkt nif now => s.input pkt nif now
  | .tick now => s.tick now
  | .bind nif n => ({ s with nifs := Function.update s.nifs nif n }, [])

/-- The static data at the start. -/
def boot (nifs : ℕ → ArpNetif) : Arp where
  cache := fun _ => ⟨false, 0, zero_hw, 0⟩
  pending := ⟨false, 0, 0, [], 0, 0⟩
  nifs := nifs

/-! ## The law -/

/-- The frame is accepted and put into the slot. -/
def Queues (s : Arp) (dst_ip : UInt32) (buf : List UInt8) : Prop :=
  buf.length ≤ ETH_MTU ∧ s.lookup dst_ip = none ∧ ¬ (s.pending.used = true ∧ s.pending.ip = dst_ip)

instance (s : Arp) (dst_ip : UInt32) (buf : List UInt8) : Decidable (s.Queues dst_ip buf) :=
  inferInstanceAs (Decidable (_ ∧ _ ∧ _))

end Arp

/-- A frame that was accepted for queuing. -/
structure Queued where
  ip : UInt32
  nif : ℕ
  buf : List UInt8

/-- What has happened: the addresses learned, the last one first; the frames that were queued, by
their numbers; which of them went out, by which call; and which were given up. -/
structure ArpLog where
  learned : List (UInt32 × Hw)
  queued : List Queued
  sent : List (ℕ × LinkOut)
  expired : List ℕ

namespace ArpLog

/-- The number of the frame that was queued last. -/
def last (log : ArpLog) : ℕ := log.queued.length - 1

/-- The address that was learned last for `ip`. -/
def latest (log : ArpLog) (ip : UInt32) : Option Hw :=
  (log.learned.find? fun l => l.1 = ip).map Prod.snd

/-- The log after a step from `s` to `t`. -/
def next (log : ArpLog) (s : Arp) (outs : List LinkOut) (t : Arp) : ArpEvent → ArpLog
  | .send nif dst_ip buf _ =>
    if s.Queues dst_ip buf then { log with queued := log.queued ++ [⟨dst_ip, nif, buf⟩] } else log
  | .input pkt _ _ =>
    { log with
      learned := (Arp.sender pkt).toList ++ log.learned
      sent := log.sent ++
        (outs.filter fun o => o.ethertype = ETHERTYPE_IPV4).map fun o => (log.last, o) }
  | .tick _ =>
    if s.pending.used ∧ ¬ t.pending.used then { log with expired := log.expired ++ [log.last] }
    else log
  | .bind _ _ => log

end ArpLog

/-- A step, beside the log. -/
def ArpStep (p : Arp × ArpLog) (a : ArpEvent × List LinkOut) (q : Arp × ArpLog) : Prop :=
  p.1.act a.1 = (q.1, a.2) ∧ q.2 = p.2.next p.1 a.2 q.1 a.1

/-- The cache has one entry for an address at most, and a lookup gives the address learned last;
the queued frames went out once at most and to the address learned for their own destinations,
and each of them went out, was given up or is in the slot. -/
structure ArpLaw (p : Arp × ArpLog) : Prop where
  unique : ∀ i j, (p.1.cache i).valid = true → (p.1.cache j).valid = true →
    (p.1.cache i).ip = (p.1.cache j).ip → i = j
  latest : ∀ ip hw, p.1.lookup ip = some hw → p.2.latest ip = some hw
  once : (p.2.sent.map Prod.fst).Nodup
  own : ∀ so ∈ p.2.sent, ∃ f hw, p.2.queued[so.1]? = some f ∧ (f.ip, hw) ∈ p.2.learned ∧
    so.2 = ⟨f.nif, hw, ETHERTYPE_IPV4, f.buf⟩
  kept : ∀ n < p.2.queued.length, n ∈ p.2.sent.map Prod.fst ∨ n ∈ p.2.expired ∨
    (p.1.pending.used = true ∧ n = p.2.last)

/-- The condition on a step: a frame is queued only when the slot is free. -/
def SlotFree (p : Arp × ArpLog) : ArpEvent → Prop
  | .send _ dst_ip buf _ => p.1.Queues dst_ip buf → p.1.pending.used = false
  | _ => True

/-! ## Access by access -/

def Arp.setPending (f : ArpPending → ArpPending) (s : Arp) : Arp := { s with pending := f s.pending }

/-- `arp_send_ip` -/
def sendIpCode (nif : ℕ) (dst_ip : UInt32) (buf : List UInt8) : Code Arp (List LinkOut) :=
  if buf.length > ETH_MTU then .done []
  else
    .read fun s =>
      match s.lookup dst_ip with
      | some hw => .done [⟨nif, hw, ETHERTYPE_IPV4, buf⟩]
      | none =>
        .read fun s =>
          if s.pending.used ∧ s.pending.ip = dst_ip then .done []
          else
            .write (.setPending ({ · with used := true })) <|
            .write (.setPending ({ · with ip := dst_ip })) <|
            .write (.setPending ({ · with nif := nif })) <|
            .write (.setPending ({ · with sent_ms := 0 })) <|
            .write (.setPending ({ · with tries := 0 })) <|
            .write (.setPending ({ · with frame := buf })) <|
            .read fun s => .done [s.request nif dst_ip]

/-- `arp_input` -/
def arpInputCode (pkt : List UInt8) (nif : ℕ) (now : UInt64) : Code Arp (List LinkOut) :=
  match Arp.sender pkt with
  | none => .done []
  | some (ip, hw) =>
    .read fun s =>
      let i := s.slot ip
      .write (fun s => { s with cache := Function.update s.cache i ⟨true, ip, hw, now⟩ }) <|
      .read fun s =>
        if s.pending.used ∧ s.pending.ip = ip then
          let out := s.pending.nif
          .write (.setPending ({ · with used := false })) <|
          .read fun s =>
            let sent := ⟨out, hw, ETHERTYPE_IPV4, s.pending.frame⟩
            .read fun s => .done (sent :: s.reply pkt nif ip hw)
        else .read fun s => .done (s.reply pkt nif ip hw)

/-- `arp_tick` -/
def tickCode (now_ms : UInt64) : Code Arp (List LinkOut) :=
  .read fun s =>
    if !s.pending.used then .done []
    else
      .read fun s =>
        if now_ms - s.pending.sent_ms ≥ 1000 then
          .read fun s =>
            let tries := s.pending.tries + 1
            .write (.setPending ({ · with tries := tries })) <|
            if tries > 3 then .write (.setPending ({ · with used := false })) (.done [])
            else
              .write (.setPending ({ · with sent_ms := now_ms })) <|
              .read fun s => .done [s.request s.pending.nif s.pending.ip]
        else .done []

def eventCode : ArpEvent → Code Arp (List LinkOut)
  | .send nif dst_ip buf _ => sendIpCode nif dst_ip buf
  | .input pkt nif now => arpInputCode pkt nif now
  | .tick now => tickCode now
  | .bind nif n => .write (fun s => { s with nifs := Function.update s.nifs nif n }) (.done [])

/-- A call beside the log, which it brings up to date as it answers. -/
def loggedCode (e : ArpEvent) : Code (Arp × ArpLog) (List LinkOut) :=
  .read fun p =>
    ((eventCode e).zoom Prod.fst fun s q => (s, q.2)).bind fun outs =>
      .write (fun q => (q.1, q.2.next p.1 outs q.1 e)) (.done outs)

/-- Nothing keeps a call from beginning. -/
def ArpBegins (_ : Arp × ArpLog) (_ : List ArpEvent) (_ : ArpEvent) : Prop := True

end MobilePhoneOs.Net
