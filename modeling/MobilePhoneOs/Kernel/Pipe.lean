import MobilePhoneOs.Lib.Ring
import MobilePhoneOs.Lib.Run

/-!
# Pipes (`kernel/ipc.c`)

One pipe is a byte ring with the two end counts, the latched hang-up flags and the two
wait queues. `pipeRead`, `pipeWrite` and `pipeDestroy` are the sections that run under
`ipc_lock`; a caller that parks runs its section again after a wake, so a blocking call
is a sequence of sections.
-/

namespace MobilePhoneOs.Ipc

open Mem

/-- `PIPE_BUF_CAP` -/
def PIPE_BUF_CAP : ℕ := 4096

/-- A task, by its slot in the task table. -/
abbrev Task := ℕ

/-- `struct pipe`. The wait queues list the parked tasks, last parked first. -/
structure Pipe where
  buf : ℕ → UInt8
  head : ℕ
  len : ℕ
  readers : ℕ
  writers : ℕ
  rdDead : Bool
  wrDead : Bool
  rq : List Task
  wq : List Task

/-- How one section of `pipe_read` ends. -/
inductive ReadOutcome
  /-- zero length or no buffer: 0 before the lock is taken -/
  | nothing
  | data (bytes : List UInt8)
  | eof
  | parked
deriving DecidableEq, Repr

/-- How one section of `pipe_write` ends. -/
inductive WriteOutcome
  | nothing
  /-- `-EINVAL` -/
  | inval
  | accepted (n : ℕ)
  /-- `-EPIPE` -/
  | brokenPipe
  | parked
deriving DecidableEq, Repr

/-- `ipc_park`: the caller goes in front of the queue. -/
def ipcPark (q : List Task) (t : Task) : List Task := t :: q

/-- `ipc_wake`: everyone parked on the queue is released. -/
def ipcWake (_q : List Task) : List Task := []

/-- `pipe_copy_out`. Each round copies one contiguous segment; `fuel` bounds the rounds. -/
def pipeCopyOut : ℕ → Pipe → ℕ → Pipe × List UInt8
  | 0, p, _ => (p, [])
  | fuel + 1, p, n =>
    if n = 0 then (p, [])
    else
      let seg := min (min (PIPE_BUF_CAP - p.head) p.len) n
      let dst := slice p.buf p.head seg
      let rest := pipeCopyOut fuel
        { p with head := (p.head + seg) % PIPE_BUF_CAP, len := p.len - seg } (n - seg)
      (rest.1, dst ++ rest.2)

/-- One locked section of `pipe_read` by task `t`. -/
def pipeRead (p : Pipe) (t : Task) (hasBuf : Bool) (len : ℕ) : Pipe × ReadOutcome :=
  if len = 0 ∨ hasBuf = false then (p, .nothing)
  else if p.len ≠ 0 then
    let take := min p.len len
    let r := pipeCopyOut take p take
    ({ r.1 with wq := ipcWake r.1.wq }, .data r.2)
  else if p.writers = 0 ∨ p.wrDead then (p, .eof)
  else ({ p with rq := ipcPark p.rq t }, .parked)

/-- `pipe_copy_in`, from the tail, in contiguous segments. -/
def pipeCopyIn : ℕ → Pipe → List UInt8 → Pipe
  | 0, p, _ => p
  | fuel + 1, p, src =>
    if src.length = 0 then p
    else
      let tail := (p.head + p.len) % PIPE_BUF_CAP
      let seg := min (min (PIPE_BUF_CAP - tail) (PIPE_BUF_CAP - p.len)) src.length
      pipeCopyIn fuel { p with buf := store p.buf tail (src.take seg), len := p.len + seg }
        (src.drop seg)

/-- One locked section of `pipe_write` by task `t`. -/
def pipeWrite (p : Pipe) (t : Task) (hasBuf : Bool) (src : List UInt8) : Pipe × WriteOutcome :=
  if src.length = 0 then (p, .nothing)
  else if hasBuf = false then (p, .inval)
  else if p.readers = 0 ∨ p.rdDead then (p, .brokenPipe)
  else if p.len < PIPE_BUF_CAP then
    let freecap := PIPE_BUF_CAP - p.len
    let done := min freecap src.length
    let p' := pipeCopyIn done p (src.take done)
    ({ p' with rq := ipcWake p'.rq }, .accepted done)
  else ({ p with wq := ipcPark p.wq t }, .parked)

/-- `pipe_destroy` for one end. The flag tells whether the pipe was freed. -/
def pipeDestroy (p : Pipe) (wasReader : Bool) : Pipe × Bool :=
  let p := if wasReader then { p with rdDead := true, readers := p.readers - 1 }
    else { p with wrDead := true, writers := p.writers - 1 }
  let p := { p with rq := ipcWake p.rq, wq := ipcWake p.wq }
  (p, decide (p.readers = 0 ∧ p.writers = 0 ∧ p.rdDead = true ∧ p.wrDead = true ∧ p.len = 0))

/-- What `pipe_make` hands out: a zeroed pipe with one open end of each kind. -/
def pipeMake : Pipe where
  buf := fun _ => 0
  head := 0
  len := 0
  readers := 1
  writers := 1
  rdDead := false
  wrDead := false
  rq := []
  wq := []

/-! ## Interleavings -/

namespace Pipe

/-- One step of some task on the pipe, with what it returned. -/
inductive Event
  | read (t : Task) (hasBuf : Bool) (len : ℕ) (out : ReadOutcome)
  | write (t : Task) (hasBuf : Bool) (src : List UInt8) (out : WriteOutcome)
  | close (reader : Bool)

/-- A pipe in the heap, until `pipe_destroy` frees it. -/
structure Sys where
  pipe : Pipe
  freed : Bool

def Sys.init : Sys := ⟨pipeMake, false⟩

/-- The locked sections on a pipe that has not been freed. Any task may run any section at
any time; each end is destroyed once, by its last reference. -/
def Step (s : Sys) : Event → Sys → Prop
  | .read t hasBuf len out, s' =>
    s.freed = false ∧ (s'.pipe, out) = pipeRead s.pipe t hasBuf len ∧ s'.freed = false
  | .write t hasBuf src out, s' =>
    s.freed = false ∧ (s'.pipe, out) = pipeWrite s.pipe t hasBuf src ∧ s'.freed = false
  | .close true, s' =>
    s.freed = false ∧ s.pipe.rdDead = false ∧ (s'.pipe, s'.freed) = pipeDestroy s.pipe true
  | .close false, s' =>
    s.freed = false ∧ s.pipe.wrDead = false ∧ (s'.pipe, s'.freed) = pipeDestroy s.pipe false

/-- The bytes that the reads of a history returned, in order. -/
def bytesRead (evs : List Event) : List UInt8 :=
  evs.flatMap fun
    | .read _ _ _ (.data bytes) => bytes
    | _ => []

/-- The bytes that the writes of a history accepted, in order. -/
def bytesWritten (evs : List Event) : List UInt8 :=
  evs.flatMap fun
    | .write _ _ src (.accepted n) => src.take n
    | _ => []

end Pipe
end MobilePhoneOs.Ipc
