import MobilePhoneOs.Kernel.Task
import MobilePhoneOs.Kernel.UnixsockConnect
import MobilePhoneOs.Net.Tcp

/-!
# Polling (`sys_poll` in `kernel/syscall.c`, `ipc_poll_park` in `kernel/ipc.c`)

The calls of `sys_poll` on the scheduler of `Task`: the scan of one descriptor after another, the
park in `poll_wq`, and the next round. Beside them run the functions that change what a scan
finds. Those of pipes and of unix sockets call `ipc_wake_pollers` when they have released their
lock, which is a step of its own; the network, the console and the input device do not.
-/

namespace MobilePhoneOs.Poll

open Ipc Usock Sched
open Function (update)

def PROC_FD_MAX : ℕ := 16

def POLLIN : BitVec 32 := 0x001
def POLLOUT : BitVec 32 := 0x004
def POLLERR : BitVec 32 := 0x008
def POLLHUP : BitVec 32 := 0x010
def POLLNVAL : BitVec 32 := 0x020

/-! ## What a scan finds -/

/-- What `inet_poll` reads of a socket. -/
structure InetSock where
  stream : Bool
  tp : Option Net.Tcp.Pcb
  naccepted : ℕ

/-- What a descriptor refers to; `other` is whatever has no poll hook. -/
inductive Source
  | pipe (i : ℕ)
  | data (e : EpId)
  | listener (e : EpId)
  | inet (k : ℕ)
  | console
  | event0
  | other
deriving DecidableEq

/-- What the poll hooks read. -/
structure Data where
  pipe : ℕ → Pipe
  socks : Socks
  inet : ℕ → InetSock
  ttyLines : ℕ
  inputCount : ℕ

/-- A bit of a mask. -/
def bit (b : Bool) (m : BitVec 32) : BitVec 32 := if b then m else 0

/-- `pipe_poll` -/
def pipePoll (p : Pipe) : BitVec 32 :=
  bit (p.len ≠ 0) POLLIN |||
  bit (p.writers = 0 || p.wrDead) (POLLIN ||| POLLHUP) |||
  bit (p.len < PIPE_BUF_CAP && p.readers ≠ 0 && !p.rdDead) POLLOUT |||
  bit (p.readers = 0 || p.rdDead) POLLHUP

/-- `us_data_poll` -/
def usDataPoll (s : Socks) (e : EpId) : BitVec 32 :=
  let x := s.ep e
  bit (x.ring.len ≠ 0) POLLIN |||
  -- an end that has seen the hang-up reports it even while the peer is linked
  match x.peer.filter fun _ => !x.hup with
  | none => POLLIN ||| POLLHUP
  | some f => bit ((s.ep f).ring.cap - (s.ep f).ring.len ≠ 0) POLLOUT

/-- `us_listener_poll` -/
def usListenerPoll (s : Socks) (e : EpId) : BitVec 32 :=
  POLLIN ||| POLLOUT ||| bit ((s.ep e).state ≠ .listener) POLLERR

/-- `inet_poll` -/
def inetPoll (iso : InetSock) : BitVec 32 :=
  if iso.stream = false then POLLIN ||| POLLOUT
  else
    match iso.tp with
    | none => 0
    | some tp =>
      if tp.state = .listen then bit (iso.naccepted ≠ 0) POLLIN
      else
        bit (tp.rcvCount ≠ 0 || tp.rcvEof) POLLIN |||
        bit tp.rstReceived POLLERR |||
        bit (Net.Tcp.tcpEstablished tp && !tp.sndInflight) POLLOUT |||
        bit (!Net.Tcp.tcpEstablished tp && tp.state ≠ .synSent) POLLHUP

/-- `ipc_file_ready` -/
def fileReady (d : Data) : Source → BitVec 32
  | .pipe i => pipePoll (d.pipe i)
  | .data e => usDataPoll d.socks e
  | .listener e => usListenerPoll d.socks e
  | .inet k => inetPoll (d.inet k)
  | .console => bit (d.ttyLines ≠ 0) POLLIN ||| POLLOUT
  | .event0 => bit (d.inputCount ≠ 0) POLLIN ||| POLLOUT
  | .other => POLLIN ||| POLLOUT

/-! ## Functions that wake the pollers -/

/-- The functions of pipes and unix sockets, up to the release of their lock. -/
inductive DataOp
  | pipeRead (i : ℕ) (t : Ipc.Task) (hasBuf : Bool) (len : ℕ)
  | pipeWrite (i : ℕ) (t : Ipc.Task) (hasBuf : Bool) (src : List UInt8)
  | pipeDestroy (i : ℕ) (reader : Bool)
  | usRead (e : EpId) (t : Ipc.Task) (hasBuf : Bool) (len : ℕ)
  | usWrite (e : EpId) (t : Ipc.Task) (hasBuf : Bool) (src : List UInt8)
  | linkClient (cli srv : EpId)
  | epRelease (e : EpId)
  | usListenerDestroy (e : EpId) (i : ℕ)

def isData : ReadOutcome → Bool
  | .data _ => true
  | _ => false

def isAccepted : WriteOutcome → Bool
  | .accepted _ => true
  | _ => false

/-- The section, and whether the function goes on to `ipc_wake_pollers`. -/
def DataOp.run (d : Data) : DataOp → Data × Bool
  | pipeRead i t hasBuf len =>
    let r := Ipc.pipeRead (d.pipe i) t hasBuf len
    ({ d with pipe := update d.pipe i r.1 }, isData r.2)
  | pipeWrite i t hasBuf src =>
    let r := Ipc.pipeWrite (d.pipe i) t hasBuf src
    ({ d with pipe := update d.pipe i r.1 }, isAccepted r.2)
  | pipeDestroy i reader =>
    ({ d with pipe := update d.pipe i (Ipc.pipeDestroy (d.pipe i) reader).1 }, true)
  | usRead e t hasBuf len =>
    let r := Usock.usRead d.socks e t hasBuf len
    ({ d with socks := r.1 }, isData r.2)
  | usWrite e t hasBuf src =>
    let r := Usock.usWrite d.socks e t hasBuf src
    ({ d with socks := r.1 }, isAccepted r.2)
  | linkClient cli srv => ({ d with socks := Usock.linkClient d.socks cli srv }, true)
  | epRelease e => ({ d with socks := Usock.epRelease d.socks e }, true)
  | usListenerDestroy e i => ({ d with socks := Usock.usListenerDestroy d.socks e i }, true)

/-! ## Calls of `sys_poll` -/

/-- `struct uxpollfd` without its answer -/
structure PollFd where
  fd : ℤ
  want : BitVec 16
deriving DecidableEq

/-- The bits that an entry answers to. -/
def PollFd.wanted (w : PollFd) : BitVec 32 := w.want.setWidth 32 ||| POLLERR ||| POLLHUP

/-- A call behind the check of its arguments. The ghost `first` is `jiffies` at its first park. -/
structure Call where
  watch : List PollFd
  timeoutMs : BitVec 64
  first : Option ℕ
deriving DecidableEq

namespace Call

def inf (call : Call) : Bool := call.timeoutMs = -1

/-- The argument of `ipc_poll_park`. -/
def parkMs (call : Call) : ℤ := if call.inf then -1 else call.timeoutMs.toInt

/-- A call with a timeout that it can wait for. -/
def Finite (call : Call) : Prop := 0 ≤ call.parkMs

/-- At the tick `now` the timeout is over that began at the tick `first`, less than `2 ^ 63` ticks
ago. -/
def Over (call : Call) (first now : ℕ) : Prop :=
  ∃ e < 2 ^ 63, now ≡ first + e [MOD 2 ^ 64] ∧ call.parkMs.toNat * TIME_HZ < e * 1000

end Call

/-- Where a task is: outside, in a scan with what the entries so far have shown, or parked. -/
inductive Phase
  | user
  | scan (call : Call) (found : List (BitVec 32)) (ready : ℕ)
  | parked (call : Call)
deriving DecidableEq

/-- The machine. `fds` has the descriptors of the process of each task; `owed` counts the
functions that are behind their section and before their `ipc_wake_pollers`. -/
structure State where
  m : Machine
  data : Data
  fds : Slot → ℤ → Option Source
  owed : ℕ
  phase : Slot → Phase

namespace State

variable (s : State)

def setPhase (t : Slot) (p : Phase) : State := { s with phase := update s.phase t p }

/-- The requested events that hold on an entry whose descriptor is open. -/
def events (t : Slot) (w : PollFd) : BitVec 32 :=
  if w.fd < 0 then 0
  else
    match s.fds t w.fd with
    | some src => fileReady s.data src &&& w.wanted
    | none => 0

/-- What a round of the scan finds. -/
def entry (t : Slot) (w : PollFd) : BitVec 32 :=
  -- a descriptor that is not open is counted as ready, a negative one is left out
  if 0 ≤ w.fd ∧ s.fds t w.fd = none then POLLERR ||| POLLNVAL else s.events t w

end State

/-! ## Steps -/

/-- What happens: a section of the scheduler or of another task; a step of `sys_poll`, with the
entries that it reads, or its end with `-EFAULT`; a section that may wake the pollers, and the
wake; a change that wakes no poller. -/
inductive Act
  | sched (a : Sched.Act)
  | call (c : ℕ) (t : Slot) (ufds : ℕ → PollFd) (nfds : BitVec 64) (timeoutMs : BitVec 64)
  | scan (c : ℕ) (t : Slot)
  | park (c : ℕ) (t : Slot)
  | ret (c : ℕ) (t : Slot)
  | resume (c : ℕ) (t : Slot) (ufds : ℕ → PollFd)
  | fault (c : ℕ) (t : Slot)
  | op (o : DataOp)
  | wake (c : ℕ)
  | net (k : ℕ) (iso : InetSock)
  | tty (lines : ℕ)
  | input (count : ℕ)
  | fdTable (fds : Slot → ℤ → Option Source)

namespace State

variable (s : State)

/-- `sys_poll` up to its loop. -/
def call (t : Slot) (ufds : ℕ → PollFd) (nfds timeoutMs : BitVec 64) : State :=
  -- without an entry the call answers `-EINVAL`, whatever its timeout
  let want := nfds.toNat % 2 ^ 32
  if want = 0 then s
  else
    s.setPhase t
      (.scan ⟨(List.range (min want PROC_FD_MAX)).map ufds, timeoutMs, none⟩ [] 0)

/-- A round of the scan. -/
def scan (t : Slot) : State :=
  match s.phase t with
  | .scan call found ready =>
    match call.watch[found.length]? with
    | some w =>
      let m := s.entry t w
      s.setPhase t (.scan call (found ++ [m]) (if m = 0 then ready else ready + 1))
    | none => s
  | _ => s

/-- The scan is over. -/
def scanned (t : Slot) : Option (Call × List (BitVec 32) × ℕ) :=
  match s.phase t with
  | .scan call found ready =>
    if found.length = call.watch.length then some (call, found, ready) else none
  | _ => none

/-- `ipc_poll_park` -/
def park (c : ℕ) (t : Slot) : State :=
  match s.scanned t with
  | some (call, _, _) =>
    -- each park is for the whole timeout, not for what is left of it
    { s.setPhase t (.parked { call with first := some (call.first.getD s.m.jiffies) }) with
      m := s.m.ipcPollPark c t call.parkMs }
  | none => s

def act : Act → State
  | .sched a => { s with m := s.m.act a }
  | .call _ t ufds nfds timeoutMs => s.call t ufds nfds timeoutMs
  | .scan _ t => s.scan t
  | .park c t => s.park c t
  | .ret _ t => s.setPhase t .user
  | .resume _ t ufds =>
    -- the entries are read from user memory in every round
    match s.phase t with
    | .parked call =>
      s.setPhase t (.scan { call with watch := (List.range call.watch.length).map ufds } [] 0)
    | _ => s
  | .fault _ t => s.setPhase t .user
  | .op o =>
    let r := o.run s.data
    { s with data := r.1, owed := if r.2 then s.owed + 1 else s.owed }
  | .wake c => { s with m := s.m.wake .ipcWakePollers c .poll, owed := s.owed - 1 }
  | .net k iso => { s with data := { s.data with inet := update s.data.inet k iso } }
  | .tty lines => { s with data := { s.data with ttyLines := lines } }
  | .input count => { s with data := { s.data with inputCount := count } }
  | .fdTable fds => { s with fds }

end State

/-- The task whose own section it is. -/
def actor : Sched.Act → Option Slot
  | .yield _ t => some t
  | .exit _ t => some t
  | .sleepArm _ t _ => some t
  | .sleepPark _ t => some t
  | .park _ t _ => some t
  | .pollPark _ t _ => some t
  | .linkUnlocked _ t _ => some t
  | .barePark _ t => some t
  | _ => none

namespace State

variable (s : State)

/-- A task in `sys_poll` does nothing else; a round ends the call if it has found an event or
must not wait. A copy of the entries may fail at the head of a round and at the end. -/
def Enabled : Act → Prop
  | .sched a => s.m.Enabled a ∧ ∀ t, actor a = some t → s.phase t = .user
  | .call c t _ _ _ => s.m.Runs c t ∧ s.phase t = .user
  | .scan c t => s.m.Runs c t ∧ ∃ call found ready, s.phase t = .scan call found ready ∧
      found.length < call.watch.length
  | .park c t => s.m.Runs c t ∧ ∃ call found, s.scanned t = some (call, found, 0) ∧
      call.timeoutMs ≠ 0
  | .ret c t => s.m.Runs c t ∧ ∃ call found ready, s.scanned t = some (call, found, ready) ∧
      (ready ≠ 0 ∨ call.timeoutMs = 0)
  | .resume c t _ => s.m.Runs c t ∧ ∃ call, s.phase t = .parked call
  | .fault c t => s.m.Runs c t ∧ ((∃ call, s.phase t = .parked call) ∨
      ∃ call found ready, s.scanned t = some (call, found, ready) ∧
        (ready ≠ 0 ∨ call.timeoutMs = 0))
  | .wake _ => 0 < s.owed
  | _ => True

def Step (s : State) (a : Act) (s' : State) : Prop := s.Enabled a ∧ s' = s.act a

/-- Nobody is in `sys_poll`. -/
def Start (s : State) : Prop := ∀ t, s.phase t = .user

/-! ## The law -/

/-- The task sleeps in `sys_poll`. -/
def Waits (t : Slot) (call : Call) : Prop :=
  s.phase t = .parked call ∧ (s.m.task t).state = .sleeping

/-- A requested event holds on a descriptor of the call. -/
def Ready (t : Slot) (call : Call) : Prop := ∃ w ∈ call.watch, s.events t w ≠ 0

/-- A call sleeps while a requested event holds only as long as a wake is on its way. -/
def NothingMissed : Prop := ∀ t call, s.Waits t call → s.Ready t call → 0 < s.owed

/-- `wake_at` of a park at the time `now`. -/
def wakeTime (now : ℕ) (timeoutMs : ℤ) : ℕ :=
  (now + timeoutMs.toNat * TIME_HZ % 2 ^ 64 / 1000 + 1) % 2 ^ 64

/-- The law of a step: no event is missed after it; a call with a timeout sleeps no longer than
its first park said, is woken by the first tick behind its timeout and does not sleep again; a
call reports 0 only if no entry of its last scan showed anything. -/
def Lawful (s : State) (a : Act) (s' : State) : Prop :=
  s'.NothingMissed ∧
    match a with
    | .park _ t => ∀ call found ready first, s.scanned t = some (call, found, ready) →
        call.Finite → call.first = some first →
          (s'.m.task t).wakeAt = wakeTime first call.parkMs ∧ ¬ call.Over first s.m.jiffies
    | .sched (.tick _) => ∀ t call, s.Waits t call → call.Finite →
        ∃ first, call.first = some first ∧
          (call.Over first s.m.jiffies → (s'.m.task t).state = .ready)
    | .ret _ t => ∀ call found, s.scanned t = some (call, found, 0) → ∀ m ∈ found, m = 0
    | _ => True

/-- The task sleeps in `sys_poll` with an entry that is open on the source, and no wake is on its
way. -/
def Watches (fds : Slot → ℤ → Option Source) (src : Source) (w : PollFd) : Prop :=
  s.owed = 0 ∧ ∃ t call, s.Waits t call ∧ w ∈ call.watch ∧ 0 ≤ w.fd ∧ fds t w.fd = some src

/-- The condition on a step. A park follows no event that the scan has missed, and is not a second
one of a call with a timeout, unless in the same tick. The last wake on its way finds in `poll_wq`
every call whose event holds. What wakes no poller shows no poller a requested event. -/
def Clean : Act → Prop
  | .park _ t => ∀ call found ready, s.scanned t = some (call, found, ready) →
      (s.owed = 0 → ¬ s.Ready t call) ∧
      (call.Finite → ∀ first, call.first = some first → s.m.jiffies ≡ first [MOD 2 ^ 64])
  | .wake _ => s.owed = 1 → ∀ t call, s.Waits t call → s.Ready t call → t ∈ s.m.onQueue .poll
  | .net k iso => ∀ w, s.Watches s.fds (.inet k) w → inetPoll iso &&& w.wanted = 0
  | .tty lines => ∀ w, s.Watches s.fds .console w →
      (bit (lines ≠ 0) POLLIN ||| POLLOUT) &&& w.wanted = 0
  | .input count => ∀ w, s.Watches s.fds .event0 w →
      (bit (count ≠ 0) POLLIN ||| POLLOUT) &&& w.wanted = 0
  | .fdTable fds => ∀ src w, s.Watches fds src w → fileReady s.data src &&& w.wanted = 0
  | _ => True

end State
end MobilePhoneOs.Poll
