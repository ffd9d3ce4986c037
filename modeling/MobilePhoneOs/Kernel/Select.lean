import MobilePhoneOs.Kernel.Poll

/-!
# Selecting (`sys_select` in `kernel/syscall.c`)

The loop of `sys_select`: a scan of the descriptors below `nfds` that rewrites the three masks in
place, and a park in `ipc_poll_park` after a scan that has found nothing. What a scan finds at a
descriptor, and which files are open when it comes there, is arbitrary: others run while the call
sleeps and between two descriptors. `ipc_poll_park` answers nothing, so a call sees of a wake, real
or spurious, only that it scans again.
-/

namespace MobilePhoneOs.Select

open Poll

def EFAULT : ℤ := 14
def EINVAL : ℤ := 22

/-- What a scan finds at each descriptor: the file, with what its poll hook reads, or nothing. -/
abbrev View := ℕ → Option (Data × Source)

/-- `vfs_fd_get` in a scan. -/
def View.get (v : View) (b : ℕ) : Option (Data × Source) := if b ≥ PROC_FD_MAX then none else v b

/-- What an `fd_set` pointer of the user leads to. -/
inductive UserSet
  | null
  /-- the mask that copy-in yields, if it does not fail, and whether copy-out succeeds -/
  | word (mask : Option (BitVec 64)) (writable : Bool)
deriving DecidableEq

/-- The arguments of a call. -/
structure Call where
  nfds : ℕ
  rd : UserSet
  wr : UserSet
  ex : UserSet
  timeoutMs : ℕ

structure Masks where
  rmask : BitVec 64
  wmask : BitVec 64
  emask : BitVec 64
deriving DecidableEq

/-- What a call leaves: its value and the masks that it has copied out. -/
structure Result where
  ret : ℤ
  rd : Option (BitVec 64)
  wr : Option (BitVec 64)
  ex : Option (BitVec 64)

/-- `1ull << b` -/
def bitAt (b : ℕ) : BitVec 64 := (1 : BitVec 64) <<< b

/-- `mask = ok ? (mask | bit) : (mask & ~bit)` -/
def put (ok : Bool) (mask bit : BitVec 64) : BitVec 64 :=
  if ok then mask ||| bit else mask &&& ~~~bit

/-- `if (mask & bit) mask &= ~bit` -/
def drop (mask bit : BitVec 64) : BitVec 64 := if mask &&& bit ≠ 0 then mask &&& ~~~bit else mask

/-- The body of the scan for descriptor `b`. -/
def scanBit (v : View) (s : Masks × ℕ) (b : ℕ) : Masks × ℕ :=
  let m := s.1
  let bit := bitAt b
  if m.rmask &&& bit = 0 ∧ m.wmask &&& bit = 0 ∧ m.emask &&& bit = 0 then s
  else
    let (r_ok, w_ok, e_ok) :=
      match v.get b with
      | none => (false, false, true) -- not open
      | some (d, src) =>
        let ev := fileReady d src
        (m.rmask &&& bit ≠ 0 && ev &&& (POLLIN ||| POLLHUP ||| POLLERR) ≠ 0,
          m.wmask &&& bit ≠ 0 && ev &&& (POLLOUT ||| POLLHUP ||| POLLERR) ≠ 0,
          m.emask &&& bit ≠ 0 && ev &&& (POLLERR ||| POLLHUP) ≠ 0)
    if r_ok || w_ok || e_ok then
      (⟨put r_ok m.rmask bit, put w_ok m.wmask bit, put e_ok m.emask bit⟩, s.2 + 1)
    else (⟨drop m.rmask bit, drop m.wmask bit, drop m.emask bit⟩, s.2)

/-- One scan, from the masks as they are: the rewritten masks and `ready`. -/
def scan (nfds : ℕ) (v : View) (m : Masks) : Masks × ℕ :=
  (List.range (min nfds PROC_FD_MAX)).foldl (scanBit v) (m, 0)

/-- The loop over what its scans find; `none` while the call sleeps. -/
def loop (c : Call) (m : Masks) : List View → Option (Masks × ℕ)
  | [] => none
  | v :: vs =>
    let s := scan c.nfds v m
    if s.2 ≠ 0 ∨ c.timeoutMs = 0 then some s
    else loop c s.1 vs -- `ipc_poll_park`

/-- Copy-in of one mask; a null pointer leaves it empty. -/
def UserSet.copyIn : UserSet → Option (BitVec 64)
  | .null => some 0
  | .word mask _ => mask

/-- The three copy-ins. -/
def Call.masks (c : Call) : Option Masks := do
  let rmask ← c.rd.copyIn
  let wmask ← c.wr.copyIn
  let emask ← c.ex.copyIn
  return ⟨rmask, wmask, emask⟩

/-- Copy-out of one mask: what is written, or `none` when it fails. -/
def UserSet.copyOut (mask : BitVec 64) : UserSet → Option (Option (BitVec 64))
  | .null => some none
  | .word _ writable => if writable then some (some mask) else none

/-- The copy-outs at the end of the call. -/
def finish (c : Call) (m : Masks) (ready : ℕ) : Result :=
  match c.rd.copyOut m.rmask with
  | none => ⟨-EFAULT, none, none, none⟩
  | some rd =>
    match c.wr.copyOut m.wmask with
    | none => ⟨-EFAULT, rd, none, none⟩
    | some wr =>
      match c.ex.copyOut m.emask with
      | none => ⟨-EFAULT, rd, wr, none⟩
      | some ex => ⟨ready, rd, wr, ex⟩

/-- The masks of the first scan, when the call comes to it. -/
def Call.start (c : Call) : Option Masks :=
  if c.nfds = 0 ∨ c.nfds > 64 then none else c.masks

/-- `sys_select` over what its scans find; `none` while it sleeps. -/
def sysSelect (c : Call) (views : List View) : Option Result :=
  if c.nfds = 0 ∨ c.nfds > 64 then some ⟨-EINVAL, none, none, none⟩
  else
    match c.masks with
    | none => some ⟨-EFAULT, none, none, none⟩
    | some m => (loop c m views).map fun s => finish c s.1 s.2

/-! ## What the call is for -/

/-- What a descriptor is asked about, or found ready for. -/
structure Dirs where
  r : Bool
  w : Bool
  e : Bool
deriving DecidableEq

def Dirs.any (x : Dirs) : Bool := x.r || x.w || x.e

/-- Both ask for the direction. -/
def Dirs.inter (x y : Dirs) : Dirs := ⟨x.r && y.r, x.w && y.w, x.e && y.e⟩

/-- The bits of one descriptor. -/
def Masks.at (m : Masks) (b : ℕ) : Dirs :=
  ⟨m.rmask.getLsbD b, m.wmask.getLsbD b, m.emask.getLsbD b⟩

/-- The directions in which a descriptor is ready; that it is not open is an exception. -/
def readyAt (v : View) (b : ℕ) : Dirs :=
  match v.get b with
  | none => ⟨false, false, true⟩
  | some (d, src) =>
    let ev := fileReady d src
    ⟨ev &&& (POLLIN ||| POLLHUP ||| POLLERR) ≠ 0, ev &&& (POLLOUT ||| POLLHUP ||| POLLERR) ≠ 0,
      ev &&& (POLLERR ||| POLLHUP) ≠ 0⟩

/-- The directions in which the call asks about a descriptor. -/
def requested (nfds : ℕ) (m : Masks) (b : ℕ) : Dirs :=
  if b < nfds then m.at b else ⟨false, false, false⟩

/-- The scans that the call makes: the masks that each one starts from, and what it finds. -/
def scans (c : Call) (m : Masks) : List View → List (Masks × View)
  | [] => []
  | v :: vs =>
    let s := scan c.nfds v m
    (m, v) :: if s.2 ≠ 0 ∨ c.timeoutMs = 0 then [] else scans c s.1 vs

/-- The word that the call has left at a pointer has the bits `f`. -/
def Leaves (word : Option (BitVec 64)) (f : ℕ → Bool) : Prop :=
  ∀ w ∈ word, ∀ b, w.getLsbD b = f b

/-- Every scan of a call watches the masks that it was given. When it returns, the sets that it
leaves have the requested descriptors that its last scan has found ready in their direction, and
its value is how many there are in all. -/
structure Lawful (c : Call) (views : List View) : Prop where
  watches : ∀ m ∈ c.start, ∀ s ∈ scans c m views, s.1 = m
  answers : ∀ m ∈ c.start, ∀ res ∈ sysSelect c views, 0 ≤ res.ret →
    ∃ s ∈ (scans c m views).getLast?,
      Leaves res.rd (fun b => ((requested c.nfds m b).inter (readyAt s.2 b)).r) ∧
      Leaves res.wr (fun b => ((requested c.nfds m b).inter (readyAt s.2 b)).w) ∧
      Leaves res.ex (fun b => ((requested c.nfds m b).inter (readyAt s.2 b)).e) ∧
      res.ret = (List.range 64).countP
        fun b => ((requested c.nfds m b).inter (readyAt s.2 b)).any

/-- A mask can be copied out wherever there is a pointer. -/
def Call.Writable (c : Call) : Prop :=
  ∀ x ∈ [c.rd, c.wr, c.ex], ∀ mask, x ≠ .word mask false

/-- A descriptor that the scan comes to and that it is asked about is ready, or is not open. -/
def Finds (nfds : ℕ) (m : Masks) (v : View) : Prop :=
  ∃ b < min nfds PROC_FD_MAX, ((m.at b).inter (readyAt v b)).any = true ∨
    ((m.at b).any = true ∧ v.get b = none)

/-- The bits that the scan does not come to are clear, and a descriptor that is not open is asked
about for exceptions or not at all. -/
def Plain (nfds : ℕ) (m : Masks) (v : View) : Prop :=
  (∀ b, min nfds PROC_FD_MAX ≤ b → (m.at b).any = false) ∧
    ∀ b < min nfds PROC_FD_MAX, v.get b = none → (m.at b).any = true → (m.at b).e = true

end MobilePhoneOs.Select
