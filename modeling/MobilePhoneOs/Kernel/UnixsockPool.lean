import MobilePhoneOs.Kernel.UnixsockConnect

/-!
# The pool of endpoints (`kernel/unixsock.c`)

`usocket_pair` and `usock_serve` in sections, beside those of the handshake, and which endpoints an
open file, a backlog or a call in progress leads to.
-/

namespace MobilePhoneOs.Ipc.Usock

/-- The slot that `usock_serve` finds for a listener of `path`. -/
def freeSlot (s : Socks) (path : List UInt8) : Option ℕ :=
  let named := fun i =>
    match s.listeners i with
    | none => false
    | some l => strncmpEq (s.ep l).name path USOCK_NAME_MAX
  if (List.range USOCK_SERVE_MAX).any named then none
  else (List.range USOCK_SERVE_MAX).find? fun i => (s.listeners i).isNone

/-- The locked section of `usock_serve` that publishes the listener `l` in the slot `i`. -/
def publish (s : Socks) (l : EpId) (path : List UInt8) (i : ℕ) : Socks :=
  (s.setEp l { s.ep l with state := .listener, lslot := some i, name := path }).setListener i (some l)

/-- The section of `usocket_pair` that links the two endpoints. -/
def linkPair (s : Socks) (a b : EpId) : Socks :=
  let s := s.setEp a { s.ep a with state := .data }
  let s := s.setEp b { s.ep b with state := .data }
  let s := s.setEp a { s.ep a with peer := some b }
  s.setEp b { s.ep b with peer := some a }

namespace Pool

open Shake (Sys Phase)

/-- Which table of operations a file's vnode has. -/
inductive VnodeOps
  /-- `us_data_ops` -/
  | data
  /-- `us_listener_ops` -/
  | listener
deriving DecidableEq, Repr

/-- Where a `usocket_pair` or a `usock_serve` stands between two sections. -/
inductive Make
  | idle
  | first (a : EpId)
  | both (a b : EpId)
  /-- `usocket_pair` goes on to the file of `a` -/
  | paired (a b : EpId)
  /-- and to the file of `b` -/
  | filed (a b : EpId) (fa : Bool)
  /-- `usock_serve` goes on to its file -/
  | named (l : EpId) (path : List UInt8)
  | publishing (l : EpId) (path : List UInt8)
  /-- the file of a listener that has no slot goes away -/
  | unlisted (l : EpId)
  /-- the call gives these endpoints back -/
  | undoing (es : List EpId)
deriving DecidableEq

structure State where
  sys : Sys
  /-- the open file of an endpoint -/
  file : EpId → Option VnodeOps
  making : Task → Make
  /-- `backlog[-1]` has been read and written; nothing is said of what follows -/
  wild : Bool

inductive Event
  | shake (e : Shake.Event)
  /-- the last reference to the file of a data endpoint goes away -/
  | close (e : EpId)
  /-- `usocket_pair` up to its first `ep_alloc` -/
  | pair (t : Task)
  | pairSecond (t : Task) (a : EpId)
  | pairLink (t : Task) (a b : EpId)
  | fileFirst (t : Task) (a b : EpId) (m : FileMemory)
  | fileSecond (t : Task) (a b : EpId) (fa : Bool) (m : FileMemory)
  /-- `usock_serve` up to `ep_alloc` -/
  | serve (t : Task) (path : List UInt8)
  | serveFile (t : Task) (l : EpId) (path : List UInt8) (m : FileMemory)
  | publish (t : Task) (l : EpId) (path : List UInt8)
  | closeUnlisted (t : Task) (l : EpId)
  | undo (t : Task) (e : EpId) (es : List EpId)
deriving DecidableEq

namespace State

def setSocks (p : State) (socks : Socks) : State := { p with sys := p.sys.setSocks socks }

def setStage (p : State) (e : EpId) (g : Shake.Stage) : State := { p with sys := p.sys.setStage e g }

def setMaking (p : State) (t : Task) (m : Make) : State :=
  { p with making := Function.update p.making t m }

def setFile (p : State) (e : EpId) (f : Option VnodeOps) : State :=
  { p with file := Function.update p.file e f }

/-- The files that a section of the handshake opens and closes. -/
def shakeFile (p : State) : Shake.Event → State
  | .connectFile _ c .ok => p.setFile c (some .data)
  | .acceptFile _ _ srv .ok => p.setFile srv (some .data)
  | .close l => p.setFile l none
  | _ => p

def act (p : State) : Event → State
  | .shake e => { p with sys := p.sys.act e }.shakeFile e
  | .close e => (p.setSocks (epRelease p.sys.socks e)).setFile e none
  | .pair t =>
    match epAlloc p.sys.socks with
    | none => p
    | some (socks, a) => ((p.setSocks socks).setMaking t (.first a)).setStage a (.serving t)
  | .pairSecond t a =>
    match epAlloc p.sys.socks with
    | none => p.setMaking t (.undoing [a])
    | some (socks, b) => ((p.setSocks socks).setMaking t (.both a b)).setStage b (.serving t)
  | .pairLink t a b =>
    (((p.setSocks (linkPair p.sys.socks a b)).setMaking t (.paired a b)).setStage a .server).setStage b
      .server
  | .fileFirst t a b m =>
    let r := endpointFile p.sys.socks a m
    (p.setSocks r.1).setMaking t (.filed a b r.2)
  | .fileSecond t a b fa m =>
    let r := endpointFile p.sys.socks b m
    if fa = true ∧ r.2 = true then
      (((p.setSocks r.1).setMaking t .idle).setFile a (some .data)).setFile b (some .data)
    else (p.setSocks r.1).setMaking t (.undoing [a, b])
  | .serve t path =>
    if path = [] ∨ USOCK_NAME_MAX ≤ path.length then p
    else
      match epAlloc p.sys.socks with
      | none => p
      | some (socks, l) => ((p.setSocks socks).setMaking t (.named l path)).setStage l (.serving t)
  | .serveFile t l path m =>
    match m with
    | .ok => p.setMaking t (.publishing l path)
    | .noVnode => p.setMaking t (.undoing [l])
    | .noFile => p.setMaking t (.unlisted l)
  | .publish t l path =>
    match freeSlot p.sys.socks path with
    | none => p.setMaking t (.unlisted l)
    | some i =>
      (((p.setSocks (Usock.publish p.sys.socks l path i)).setMaking t .idle).setFile l
        (some .listener)).setStage l .listener
  | .closeUnlisted _ _ => { p with wild := true }
  | .undo t e es =>
    (p.setSocks (epRelease p.sys.socks e)).setMaking t (if es = [] then .idle else .undoing es)

/-- What a section of the handshake needs besides. An accept has the open file of its listener. -/
def ShakeEnabled (p : State) : Shake.Event → Prop
  | .connect t _ => p.making t = .idle
  | .accept t l => p.making t = .idle ∧ p.file l ≠ none
  | .close l => p.file l = some .listener
  | _ => True

instance (p : State) : ∀ e, Decidable (p.ShakeEnabled e)
  | .connect _ _ | .close _ => inferInstanceAs (Decidable (_ = _))
  | .accept _ _ => inferInstanceAs (Decidable (_ ∧ _))
  | .queue _ _ _ | .check _ _ | .connectFile _ _ _ | .drop _ _ _ | .pop _ _ | .serve _ _ | .fail _ _
  | .link _ _ _ | .acceptFile _ _ _ _ | .unlink _ _ _ | .tear _ _ => inferInstanceAs (Decidable True)

/-- The calls go on. -/
def Runs (p : State) : Prop := p.sys.stuck = false ∧ p.wild = false

instance (p : State) : Decidable p.Runs := inferInstanceAs (Decidable (_ ∧ _))

def Enabled (p : State) : Event → Prop
  | .shake e => p.Runs ∧ p.sys.Enabled e ∧ p.ShakeEnabled e
  | .close e => p.Runs ∧ p.file e = some .data
  | .pair t | .serve t _ => p.Runs ∧ p.sys.phase t = .idle ∧ p.making t = .idle
  | .pairSecond t a => p.Runs ∧ p.making t = .first a
  | .pairLink t a b => p.Runs ∧ p.making t = .both a b
  | .fileFirst t a b _ => p.Runs ∧ p.making t = .paired a b
  | .fileSecond t a b fa _ => p.Runs ∧ p.making t = .filed a b fa
  | .serveFile t l path _ => p.Runs ∧ p.making t = .named l path
  | .publish t l path => p.Runs ∧ p.making t = .publishing l path
  | .closeUnlisted t l => p.Runs ∧ p.making t = .unlisted l
  | .undo t e es => p.Runs ∧ p.making t = .undoing (e :: es)

instance (p : State) : ∀ e, Decidable (p.Enabled e)
  | .shake _ | .close _ | .pair _ | .serve _ _ | .pairSecond _ _ | .pairLink _ _ _
  | .fileFirst _ _ _ _ | .fileSecond _ _ _ _ _ | .serveFile _ _ _ _ | .publish _ _ _
  | .closeUnlisted _ _ | .undo _ _ _ => inferInstanceAs (Decidable (_ ∧ _))

end State

/-- The endpoints that a call of the handshake has in its hands. -/
def holds : Phase → List EpId
  | .idle => []
  | .made c _ | .waiting c | .accepted c | .dropping c _ | .popped c | .short c | .tearing c => [c]
  | .accepting l => [l]
  | .serving c srv | .linked c srv | .unlinking c srv => [c, srv]

/-- The endpoints that a `usocket_pair` or a `usock_serve` has in its hands. -/
def Make.holds : Make → List EpId
  | .idle => []
  | .first a => [a]
  | .both a b | .paired a b | .filed a b _ => [a, b]
  | .named l _ | .publishing l _ | .unlisted l => [l]
  | .undoing es => es

/-- An open file, a backlog or a call in progress leads to the endpoint. -/
def Reachable (p : State) (e : EpId) : Prop :=
  p.file e ≠ none ∨ (∃ i b, p.sys.socks.backlog i b = some e) ∨
    ∃ t, e ∈ holds (p.sys.phase t) ∨ e ∈ (p.making t).holds

def Step (p : State) (e : Event) (p' : State) : Prop := p.Enabled e ∧ p' = p.act e

/-- After `usock_subsys_init`. -/
def start : State where
  sys := ⟨Socks.init, fun _ => .idle, false, fun _ => none, fun _ => [], fun _ => .unused⟩
  file := fun _ => none
  making := fun _ => .idle
  wild := false

end Pool
end MobilePhoneOs.Ipc.Usock
