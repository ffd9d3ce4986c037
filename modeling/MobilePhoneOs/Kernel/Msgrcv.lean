import MobilePhoneOs.Kernel.MqueueLife
import MobilePhoneOs.Kernel.Uaccess

/-!
# Receiving a message (`sys_msgrcv` in `kernel/syscall.c`)

The system call around `mq_receive_id`: the message goes to a bounce buffer on the kernel stack
and from there to user memory. A call that finds its queue empty sleeps inside `mq_receive_id`;
what it finds when it runs again is arbitrary, so a call is given by its arguments, by what was
on the stack, and by what it finds each time it runs.
-/

namespace MobilePhoneOs.Msgrcv

open Ipc Uaccess

def ENOENT : ℤ := 2
def EBADF : ℤ := 9
def EINVAL : ℤ := 22
def EMSGSIZE : ℤ := 90

/-- What the call reads of `struct proc`. -/
structure Proc where
  mqHandles : MqLife.Handles
  rootPa : ℕ

/-- The arguments of a call, with the task that makes it and the value of an unset `pa`. -/
structure Args where
  p : Proc
  t : Ipc.Task
  hdl : BitVec 64
  ubuf : ℕ
  buflen : ℕ
  junk : ℕ

/-- What the task finds when it runs: `mq_pool`, and the memory with the tables and the pages of
its process. -/
structure View where
  pool : Pool
  mem : Mm.Mem

/-- What a finished call leaves, with the `memcpy`s to user memory. -/
structure Result where
  ret : ℤ
  pool : Pool
  mem : Mm.Mem
  log : List (ℕ × ℕ)

/-- `mq_handle_lookup` -/
def mqHandleLookup (h : MqLife.Handles) (hdl : ℤ) : Option ℕ :=
  if hin : 0 < hdl ∧ hdl ≤ MqLife.PROC_MQ_MAX then
    MqLife.mqHandleLookup h ⟨hdl.toNat - 1, by omega⟩
  else none

/-- A call that ends before it copies. -/
def fails (v : View) (pool : Pool) (err : ℤ) : Result := ⟨-err, pool, v.mem, []⟩

/-- The end of `sys_msgrcv`, from the answer of `mq_receive_id`; `none` while the task is parked. -/
def afterReceive (x : Args) (kbuf : ℕ → UInt8) (v : View) (pool : Pool) :
    ReceiveOutcome → Option Result
  | .inval => some (fails v pool EINVAL)
  | .noent => some (fails v pool ENOENT)
  | .message got bytes =>
    -- `mq_receive_id` has filled what fits of the buffer, and answers the full length
    let kbuf := Mem.store kbuf 0 bytes
    let r := copyOut v.mem x.p.rootPa x.junk x.ubuf (fun i => (kbuf i).toNat) got
    some ⟨if r.1 = 0 then got else -EFAULT, pool, r.2.1, r.2.2⟩
  | .parked => none

/-- The call once it has parked, over what it finds after each wake. -/
def resumed (x : Args) (kbuf : ℕ → UInt8) (id : ℕ) : List View → Option Result
  | [] => none
  | v :: vs =>
    let r := receiveSection (v.pool id) x.t x.buflen
    match afterReceive x kbuf v (Function.update v.pool id r.1) r.2 with
    | some res => some res
    | none => resumed x kbuf id vs

/-- `sys_msgrcv`: the call finds `v` at its start and `vs` after the wakes. `none` while it
sleeps. -/
def sysMsgrcv (x : Args) (kbuf : ℕ → UInt8) (v : View) (vs : List View) : Option Result :=
  if x.buflen = 0 then some (fails v v.pool EINVAL)
  else if x.buflen > MQ_MSG_MAX then some (fails v v.pool EMSGSIZE)
  else
    -- `(int)hdl`
    match mqHandleLookup x.p.mqHandles (x.hdl.setWidth 32).toInt with
    | none => some (fails v v.pool EBADF)
    | some id =>
      let r := mqReceiveId v.pool x.t id true x.buflen
      match afterReceive x kbuf v r.1 r.2 with
      | some res => some res
      | none => resumed x kbuf id vs

/-! ## What the call is for -/

/-- The first message of a queue, as it was sent. -/
def headMessage (q : Mqueue) : List UInt8 := Mem.slice (q.msgs q.head) 0 (q.mlen q.head)

/-- What the call finds when the queue has a message for it, and that message. -/
def firstMessage (id : ℕ) : List View → Option (View × List UInt8)
  | [] => none
  | v :: vs =>
    if (v.pool id).count ≠ 0 then some (v, headMessage (v.pool id)) else firstMessage id vs

/-- The message that the call takes, when its arguments are good. -/
def taken (x : Args) (v : View) (vs : List View) : Option (View × List UInt8) :=
  if x.buflen = 0 ∨ x.buflen > MQ_MSG_MAX then none
  else
    match mqHandleLookup x.p.mqHandles (x.hdl.setWidth 32).toInt with
    | none => none
    | some id =>
      if id ≥ MQ_QUEUES_MAX ∨ (v.pool id).used = false then none else firstMessage id (v :: vs)

/-- User memory gets `buflen` bytes at most, each one a byte of the message that the call takes,
and nothing that the call does depends on what was on the kernel stack. -/
structure Confined (x : Args) (v : View) (vs : List View) : Prop where
  within : ∀ kbuf res, sysMsgrcv x kbuf v vs = some res → (touched res.log).length ≤ x.buflen
  message : ∀ kbuf res, sysMsgrcv x kbuf v vs = some res → ∀ a ∈ touched res.log,
    ∃ w m, taken x v vs = some (w, m) ∧ ∃ b ∈ m, res.mem a = b.toNat
  stack : ∀ kbuf kbuf', sysMsgrcv x kbuf v vs = sysMsgrcv x kbuf' v vs

/-- The copy to user memory passes its checks. -/
def Writable (x : Args) (mem : Mm.Mem) (len : ℕ) : Prop :=
  rangeOk x.ubuf len = true ∧ checkRange mem x.p.rootPa x.ubuf len true = 0

end MobilePhoneOs.Msgrcv
