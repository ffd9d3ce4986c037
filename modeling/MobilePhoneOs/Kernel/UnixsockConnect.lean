import MobilePhoneOs.Kernel.Mqueue
import MobilePhoneOs.Kernel.Unixsock

/-!
# Connecting Unix-domain sockets (`kernel/unixsock.c`)

`usock_connect`, `usock_accept` and `us_listener_destroy` as the sections that they run under
`unix_lock`, with where every task stands between two of them. Allocating a file is a step of
its own, which may fail.
-/

namespace MobilePhoneOs.Ipc.Usock

open Function (update)

/-! ## The sections -/

namespace Socks

def setSlot (s : Socks) (i b : ℕ) (c : Option EpId) : Socks :=
  { s with backlog := update s.backlog i (update (s.backlog i) b c) }

def setListener (s : Socks) (i : ℕ) (l : Option EpId) : Socks :=
  { s with listeners := update s.listeners i l }

end Socks

/-- The listener in the slot `i` takes clients for `path`. -/
def serves (s : Socks) (path : List UInt8) (i : ℕ) : Bool :=
  match s.listeners i with
  | none => false
  | some l => (s.ep l).state = .listener && strncmpEq (s.ep l).name path USOCK_NAME_MAX

/-- The backlog slot that `usock_connect` finds for a client of `path`. -/
def findSlot (s : Socks) (path : List UInt8) : Option (ℕ × ℕ) :=
  (List.range USOCK_SERVE_MAX).findSome? fun i =>
    if serves s path i then
      ((List.range USOCK_BACKLOG).find? fun b => (s.backlog i b).isNone).map fun b => (i, b)
    else none

/-- The first section of `usock_connect`, and whether it queues the client. The other branch
calls `listeners_lookup_full`, which takes `unix_lock` once more, and never gets further. -/
def queueClient (s : Socks) (cli : EpId) (path : List UInt8) : Socks × Bool :=
  match findSlot s path with
  | none => (s, false)
  | some (i, b) =>
    let s := s.setSlot i b (some cli)
    (s.setEp cli { s.ep cli with state := .data, hsResult := -ECONNREFUSED }, true)

/-- What a round of the loop in `usock_connect` finds. -/
inductive Verdict
  | accepted
  | refused (r : ℤ)
  | parked
deriving DecidableEq, Repr

/-- One round of the loop in `usock_connect` by task `t`. -/
def checkClient (s : Socks) (cli : EpId) (t : Task) : Socks × Verdict :=
  let x := s.ep cli
  if x.peer ≠ none then (s, .accepted)
  else if x.hsResult < 0 then (s, .refused x.hsResult)
  else (s.setEp cli { x with hsWq := usPark x.hsWq t }, .parked)

/-- The first full slot in the backlog `i`. -/
def nextClient (s : Socks) (i : ℕ) : Option (ℕ × EpId) :=
  (List.range USOCK_BACKLOG).findSome? fun b => (s.backlog i b).map fun c => (b, c)

/-- What a round of the loop in `usock_accept` finds. -/
inductive Popped
  | closed
  | client (c : EpId)
  | parked
deriving DecidableEq, Repr

/-- One round of the loop in `usock_accept` by task `t`. -/
def acceptSection (s : Socks) (l : EpId) (t : Task) : Socks × Popped :=
  let x := s.ep l
  match x.lslot, x.state with
  | some i, .listener =>
    match nextClient s i with
    | some (b, c) => (s.setSlot i b none, .client c)
    | none => (s.setEp l { x with acceptWq := usPark x.acceptWq t }, .parked)
  | _, _ => (s, .closed)

/-- The client is told the result of the handshake. -/
def tellClient (s : Socks) (cli : EpId) (r : ℤ) : Socks :=
  let x := s.ep cli
  s.setEp cli { x with hsResult := r, hsWq := usWakeAll x.hsWq }

/-- The section of `usock_accept` that links the two endpoints. -/
def linkClient (s : Socks) (cli srv : EpId) : Socks :=
  let s := s.setEp srv { s.ep srv with peer := some cli }
  let s := s.setEp cli { s.ep cli with peer := some srv }
  tellClient s cli 0

/-- One round of the loop in `us_listener_destroy`. -/
def refuseSlot (i : ℕ) (s : Socks) (b : ℕ) : Socks :=
  match s.backlog i b with
  | some cli => tellClient (s.setSlot i b none) cli (-ECONNREFUSED)
  | none => s

/-- `us_listener_destroy` of a listener that was published in the slot `i`. -/
def usListenerDestroy (s : Socks) (e : EpId) (i : ℕ) : Socks :=
  let s := if s.listeners i = some e then s.setListener i none else s
  let s := (List.range USOCK_BACKLOG).foldl (refuseSlot i) s
  s.setEp e { s.ep e with state := .free }

/-! ## Interleavings of connects, accepts and closes -/

namespace Shake

/-- Where a task stands between two sections. -/
inductive Phase
  | idle
  /-- `usock_connect` has its endpoint -/
  | made (cli : EpId) (path : List UInt8)
  /-- in the loop of `usock_connect`, parked or about to look -/
  | waiting (cli : EpId)
  /-- `usock_connect` goes on to `endpoint_file` -/
  | accepted (cli : EpId)
  /-- `usock_connect` goes on to release its endpoint and to return `r` -/
  | dropping (cli : EpId) (r : ℤ)
  /-- in the loop of `usock_accept`, parked or about to look -/
  | accepting (l : EpId)
  /-- `usock_accept` has taken a client off the backlog -/
  | popped (cli : EpId)
  | serving (cli srv : EpId)
  /-- `usock_accept` has no endpoint for the client -/
  | short (cli : EpId)
  | linked (cli srv : EpId)
  /-- `usock_accept` has no file for the endpoint `srv` -/
  | unlinking (cli srv : EpId)
  /-- and has released `srv` -/
  | tearing (cli : EpId)
deriving DecidableEq

/-- The client that an accept has taken and not dealt with yet. -/
def Phase.inHand : Phase → Option EpId
  | .popped c | .short c | .serving c _ => some c
  | _ => none

/-- What became of an endpoint, which no field of it says. -/
inductive Stage
  | unused
  | listener
  /-- allocated by the connect of `t`, in no backlog so far -/
  | made (t : Task)
  | pending (i b : ℕ)
  /-- taken off the backlog by the accept of `t` -/
  | held (t : Task)
  | linked
  | refused
  /-- allocated by a call of `t` that is no connect, linked to nothing so far -/
  | serving (t : Task)
  | server
deriving DecidableEq

structure Sys where
  socks : Socks
  phase : Task → Phase
  /-- a task waits for `unix_lock` while it holds it -/
  stuck : Bool
  /-- what `usock_connect` returned for a client -/
  result : EpId → Option ℤ
  /-- the endpoints that accepts linked a client to, in order -/
  links : EpId → List EpId
  stage : EpId → Stage

namespace Sys

def setSocks (s : Sys) (socks : Socks) : Sys := { s with socks := socks }

def setPhase (s : Sys) (t : Task) (p : Phase) : Sys :=
  { s with phase := update s.phase t p }

def setStage (s : Sys) (e : EpId) (g : Stage) : Sys :=
  { s with stage := update s.stage e g }

def addLink (s : Sys) (cli srv : EpId) : Sys :=
  { s with links := update s.links cli (srv :: s.links cli) }

def setResult (s : Sys) (cli : EpId) (r : ℤ) : Sys :=
  { s with result := update s.result cli (some r) }

/-- Every client in the backlog `i` is turned down. -/
def refuseAll (s : Sys) (i : ℕ) : Sys :=
  { s with stage := fun c =>
      match s.stage c with
      | .pending j b => if j = i then .refused else .pending j b
      | g => g }

end Sys

inductive Event
  /-- `usock_connect` up to `ep_alloc` -/
  | connect (t : Task) (path : List UInt8)
  | queue (t : Task) (cli : EpId) (path : List UInt8)
  | check (t : Task) (cli : EpId)
  | connectFile (t : Task) (cli : EpId) (m : FileMemory)
  | drop (t : Task) (cli : EpId) (r : ℤ)
  | accept (t : Task) (l : EpId)
  | pop (t : Task) (l : EpId)
  /-- `ep_alloc` in `usock_accept` -/
  | serve (t : Task) (cli : EpId)
  | fail (t : Task) (cli : EpId)
  | link (t : Task) (cli srv : EpId)
  | acceptFile (t : Task) (cli srv : EpId) (m : FileMemory)
  | unlink (t : Task) (cli srv : EpId)
  | tear (t : Task) (cli : EpId)
  /-- the last reference to the listener's file goes away -/
  | close (l : EpId)
deriving DecidableEq

namespace Sys

def act (s : Sys) : Event → Sys
  | .connect t path =>
    if path = [] then s
    else
      match epAlloc s.socks with
      | none => s
      | some (socks, c) => ((s.setSocks socks).setPhase t (.made c path)).setStage c (.made t)
  | .queue t c path =>
    let r := queueClient s.socks c path
    match findSlot s.socks path with
    | some (i, b) => ((s.setSocks r.1).setPhase t (.waiting c)).setStage c (.pending i b)
    | none => { s with stuck := true }
  | .check t c =>
    let r := checkClient s.socks c t
    match r.2 with
    | .accepted => (s.setSocks r.1).setPhase t (.accepted c)
    | .refused e => (s.setSocks r.1).setPhase t (.dropping c e)
    | .parked => s.setSocks r.1
  | .connectFile t c m =>
    let r := endpointFile s.socks c m
    if r.2 = true then ((s.setSocks r.1).setPhase t .idle).setResult c 0
    else (s.setSocks r.1).setPhase t (.dropping c (-ENOMEM))
  | .drop t c r => ((s.setSocks (epRelease s.socks c)).setPhase t .idle).setResult c r
  | .accept t l => s.setPhase t (.accepting l)
  | .pop t l =>
    let r := acceptSection s.socks l t
    match r.2 with
    | .closed => (s.setSocks r.1).setPhase t .idle
    | .client c => ((s.setSocks r.1).setPhase t (.popped c)).setStage c (.held t)
    | .parked => s.setSocks r.1
  | .serve t c =>
    match epAlloc s.socks with
    | none => s.setPhase t (.short c)
    | some (socks, srv) =>
      let socks := socks.setEp srv { socks.ep srv with state := .data }
      ((s.setSocks socks).setPhase t (.serving c srv)).setStage srv (.serving t)
  | .fail t c => ((s.setSocks (tellClient s.socks c (-ENOMEM))).setPhase t .idle).setStage c .refused
  | .link t c srv =>
    ((((s.setSocks (linkClient s.socks c srv)).setPhase t (.linked c srv)).addLink c srv).setStage c
      .linked).setStage srv .server
  | .acceptFile t c srv m =>
    let r := endpointFile s.socks srv m
    if r.2 = true then (s.setSocks r.1).setPhase t .idle
    else (s.setSocks r.1).setPhase t (.unlinking c srv)
  | .unlink t c srv => (s.setSocks (epRelease s.socks srv)).setPhase t (.tearing c)
  | .tear t c => (s.setSocks (epRelease s.socks c)).setPhase t .idle
  | .close l =>
    match (s.socks.ep l).lslot with
    | some i => (s.setSocks (usListenerDestroy s.socks l i)).refuseAll i
    | none => s

/-- The task is at the section, it is not parked, and `unix_lock` can be taken. The file of a
listener is closed once. -/
def Enabled (s : Sys) : Event → Prop
  | .connect t _ | .accept t _ => s.stuck = false ∧ s.phase t = .idle
  | .queue t c path => s.stuck = false ∧ s.phase t = .made c path
  | .check t c => s.stuck = false ∧ s.phase t = .waiting c ∧ t ∉ (s.socks.ep c).hsWq
  | .connectFile t c _ => s.stuck = false ∧ s.phase t = .accepted c
  | .drop t c r => s.stuck = false ∧ s.phase t = .dropping c r
  | .pop t l => s.stuck = false ∧ s.phase t = .accepting l ∧ t ∉ (s.socks.ep l).acceptWq
  | .serve t c => s.stuck = false ∧ s.phase t = .popped c
  | .fail t c => s.stuck = false ∧ s.phase t = .short c
  | .link t c srv => s.stuck = false ∧ s.phase t = .serving c srv
  | .acceptFile t c srv _ => s.stuck = false ∧ s.phase t = .linked c srv
  | .unlink t c srv => s.stuck = false ∧ s.phase t = .unlinking c srv
  | .tear t c => s.stuck = false ∧ s.phase t = .tearing c
  | .close l => s.stuck = false ∧ (s.socks.ep l).state = .listener

instance (s : Sys) : ∀ e, Decidable (s.Enabled e)
  | .connect _ _ | .accept _ _ | .queue _ _ _ | .check _ _ | .connectFile _ _ _ | .drop _ _ _
  | .pop _ _ | .serve _ _ | .fail _ _ | .link _ _ _ | .acceptFile _ _ _ _ | .unlink _ _ _
  | .tear _ _ | .close _ => inferInstanceAs (Decidable (_ ∧ _))

/-- Sockets with published listeners and nothing else, and no task in a call. -/
structure Listening (s : Sys) : Prop where
  listener : ∀ i l, s.socks.listeners i = some l →
    (s.socks.ep l).state = .listener ∧ (s.socks.ep l).lslot = some i
  published : ∀ l, (s.socks.ep l).state = .listener → ∃ i, s.socks.listeners i = some l
  used : ∀ l, (s.socks.ep l).state = .listener → s.socks.epUsed l = true
  noWaiter : ∀ e, (s.socks.ep e).hsWq = [] ∧ (s.socks.ep e).acceptWq = []
  noClient : ∀ i b, s.socks.backlog i b = none
  idle : ∀ t, s.phase t = .idle
  running : s.stuck = false
  result : ∀ c, s.result c = none
  links : ∀ c, s.links c = []
  stage : ∀ e, s.stage e = if (s.socks.ep e).state = .listener then .listener else .unused

end Sys

def Step (s : Sys) (e : Event) (s' : Sys) : Prop := s.Enabled e ∧ s' = s.act e

end Shake
end MobilePhoneOs.Ipc.Usock
