import MobilePhoneOs.Kernel.Pipe
import MobilePhoneOs.Lib.Tally
import MobilePhoneOs.Mm.Pmm

/-!
# Shared memory (`kernel/ipc.c`)

The pool of objects, the mapping slots of every process and what the page tables of a process
hold in the shared-memory window. A step is one section under `ipc_lock`; `shm_create` drops
the lock for every frame, so it takes several.
-/

namespace MobilePhoneOs

open Function (update)
namespace Ipc
namespace Shm

open Mm (PAGE_SIZE)

def SHM_PAGE_MAX : ℕ := 512
def SHM_OBJS_MAX : ℕ := 12
def PROC_SHM_MAX : ℕ := 8

def USER_SHM_BASE : ℕ := 0x0000030000000000
def USER_VA_LIMIT : ℕ := 0x0000040000000000

instance : NeZero PROC_SHM_MAX := ⟨by decide⟩

/-- `struct shm_obj` -/
structure ShmObj where
  used : Bool
  npages : ℕ
  pages : ℕ → ℕ
  attaches : ℕ

/-- An entry of `shm_maps` in `struct proc`; it is free if `va` is 0. -/
structure Slot where
  va : ℕ
  npages : ℕ
  id : ℕ
deriving DecidableEq, Repr

def Slot.zero : Slot := ⟨0, 0, 0⟩

/-- A `struct proc`, by number. -/
abbrev ProcId := ℕ

/-- The frame at each page of the window in one address space. -/
abbrev PageMap := ℕ → Option ℕ

/-- The page that the walk of the tables finds for `va + pg * PAGE_SIZE`. -/
def page (va pg : ℕ) : ℕ := (va + pg * PAGE_SIZE) / PAGE_SIZE % 2 ^ 36

/-! ## Mapping an object -/

/-- The loop of `shm_map_range` from the page `done`, with `left` pages to go, and how many pages
are mapped in the end. `vmm_map_at` fails at a page that is mapped, and where it has no memory
for a table: there is enough for `room` pages. -/
def mapPages (o : ShmObj) (va room : ℕ) : ℕ → ℕ → PageMap → PageMap × ℕ
  | 0, done, m => (m, done)
  | left + 1, done, m =>
    if room ≤ done ∨ (m (page va done)).isSome then (m, done)
    else mapPages o va room left (done + 1)
      (update m (page va done) (some (o.pages done)))

/-- `vmm_unmap_at` of the pages `pgs` of a range. -/
def unmapPages (va : ℕ) (pgs : List ℕ) (m : PageMap) : PageMap :=
  pgs.foldl (fun m pg => update m (page va pg) none) m

/-- `shm_map_range`, and whether it succeeds. -/
def shmMapRange (o : ShmObj) (va room : ℕ) (m : PageMap) : PageMap × Bool :=
  let r := mapPages o va room o.npages 0 m
  if r.2 = o.npages then (r.1, true)
  else (unmapPages va (List.range r.2).reverse r.1, false)

/-- `shm_unmap_range` -/
def shmUnmapRange (o : ShmObj) (va : ℕ) (m : PageMap) : PageMap :=
  unmapPages va (List.range o.npages) m

/-- The loop that gives the frames of the pages `pgs` back, with the array and the free list. -/
def freePages (pgs : List ℕ) (pages : ℕ → ℕ) (free : List ℕ) : (ℕ → ℕ) × List ℕ :=
  pgs.foldl (fun r pg => if r.1 pg ≠ 0 then (update r.1 pg 0, r.1 pg :: r.2) else r)
    (pages, free)

/-- The same loop in `shm_create`, which has stored all of the pages. -/
def undoPages (pgs : List ℕ) (pages : ℕ → ℕ) (free : List ℕ) : (ℕ → ℕ) × List ℕ :=
  pgs.foldl (fun r pg => (update r.1 pg 0, r.1 pg :: r.2)) (pages, free)

/-! ## The system -/

/-- Where a task stands in `shm_create`. -/
inductive Phase
  | idle
  /-- about to ask for the frame of the page `pg` -/
  | filling (id pg : ℕ)
  /-- the PMM has answered with the frame `fr`, or with 0 -/
  | gotten (id pg fr : ℕ)
deriving DecidableEq

/-- The object and the page that `shm_create` is at. -/
def Phase.fills : Phase → Option (ℕ × ℕ)
  | .idle => none
  | .filling id pg | .gotten id pg _ => some (id, pg)

/-- The frame that the task has and has not stored yet, or 0. -/
def Phase.held : Phase → ℕ
  | .gotten _ _ fr => fr
  | .idle | .filling _ _ => 0

/-- The life of a process: made by `fork` and not launched yet, or running until it is reaped. -/
inductive Status
  | absent
  | forked
  | live
deriving DecidableEq

structure Sys where
  objs : ℕ → ShmObj
  /-- `shm_next_off` -/
  nextOff : ℕ
  slot : ProcId → Fin PROC_SHM_MAX → Slot
  maps : ProcId → PageMap
  status : ProcId → Status
  phase : Task → Phase
  /-- the free list of the PMM, in the order in which it hands frames out -/
  free : List ℕ

namespace Sys

def setObj (s : Sys) (id : ℕ) (o : ShmObj) : Sys := { s with objs := update s.objs id o }

def setSlot (s : Sys) (p : ProcId) (i : Fin PROC_SHM_MAX) (x : Slot) : Sys :=
  { s with slot := update s.slot p (update (s.slot p) i x) }

def setMap (s : Sys) (p : ProcId) (m : PageMap) : Sys :=
  { s with maps := update s.maps p m }

def setStatus (s : Sys) (p : ProcId) (x : Status) : Sys :=
  { s with status := update s.status p x }

def setPhase (s : Sys) (t : Task) (x : Phase) : Sys :=
  { s with phase := update s.phase t x }

def setFree (s : Sys) (free : List ℕ) : Sys := { s with free := free }

/-- No object, no process, and the frames `free` in the PMM. -/
def init (free : List ℕ) : Sys where
  objs := fun _ => ⟨false, 0, fun _ => 0, 0⟩
  nextOff := 0
  slot := fun _ _ => Slot.zero
  maps := fun _ _ => none
  status := fun _ => .absent
  phase := fun _ => .idle
  free := free

/-- The part of `shm_attach` and `ipc_proc_fork` that maps an object and counts the mapping as
the slot `x`, and whether it succeeds. -/
def attachAt (s : Sys) (p : ProcId) (i : Fin PROC_SHM_MAX) (x : Slot) (room : ℕ) : Sys × Bool :=
  let o := s.objs x.id
  let r := shmMapRange o x.va room (s.maps p)
  if r.2 = true then
    (((s.setMap p r.1).setSlot p i x).setObj x.id { o with attaches := o.attaches + 1 }, true)
  else (s.setMap p r.1, false)

/-- `shm_do_detach` -/
def shmDoDetach (s : Sys) (p : ProcId) (i : Fin PROC_SHM_MAX) : Sys :=
  let x := s.slot p i
  if x.va = 0 then s
  else
    let o := s.objs x.id
    let s := (s.setMap p (shmUnmapRange o x.va (s.maps p))).setSlot p i Slot.zero
    let attaches := o.attaches - 1
    if attaches = 0 then
      let r := freePages (List.range SHM_PAGE_MAX) o.pages s.free
      (s.setObj x.id ⟨false, 0, r.1, attaches⟩).setFree r.2
    else s.setObj x.id { o with attaches := attaches }

/-- The first section of `shm_create` by the task `t`. -/
def shmCreate (s : Sys) (t : Task) (npages : ℕ) : Sys :=
  if npages = 0 ∨ SHM_PAGE_MAX < npages then s
  else
    match (List.range SHM_OBJS_MAX).find? fun id => !(s.objs id).used with
    | none => s
    | some id => (s.setObj id ⟨true, npages, fun _ => 0, 0⟩).setPhase t (.filling id 0)

/-- The section of `shm_create` after `pmm_alloc`. -/
def storePage (s : Sys) (t : Task) (id pg fr : ℕ) : Sys :=
  let o := s.objs id
  if fr = 0 then
    let r := undoPages (List.range pg) o.pages s.free
    ((s.setObj id { o with pages := r.1, used := false }).setFree r.2).setPhase t .idle
  else
    (s.setObj id { o with pages := update o.pages pg fr }).setPhase t
      (if pg + 1 < o.npages then .filling id (pg + 1) else .idle)

end Sys

inductive AttachOutcome
  | inval
  | noent
  | mfile
  | nomem
  | attached (va : ℕ)
deriving DecidableEq, Repr

namespace Sys

/-- `shm_attach` up to the address that it takes; without a hint the window allocator moves
on. -/
def attachVa (s : Sys) (o : ShmObj) (hint : ℕ) : Sys × Except AttachOutcome ℕ :=
  if hint ≠ 0 then
    let span := o.npages * PAGE_SIZE
    if hint % PAGE_SIZE ≠ 0 ∨ hint < USER_SHM_BASE ∨ USER_VA_LIMIT < (hint + span) % 2 ^ 64 ∨
        (hint + span) % 2 ^ 64 < hint then (s, .error .inval)
    else (s, .ok hint)
  else
    let va := (USER_SHM_BASE + s.nextOff) % 2 ^ 64
    let nextOff := (s.nextOff + o.npages * PAGE_SIZE) % 2 ^ 64
    let s := { s with nextOff := nextOff }
    if USER_VA_LIMIT ≤ (USER_SHM_BASE + nextOff) % 2 ^ 64 then (s, .error .nomem) else (s, .ok va)

/-- `shm_attach` in the process `p`. -/
def shmAttach (s : Sys) (p : ProcId) (id hint room : ℕ) : Sys × AttachOutcome :=
  if SHM_OBJS_MAX ≤ id then (s, .inval)
  else if (s.objs id).used = false then (s, .noent)
  else
    match (List.finRange PROC_SHM_MAX).find? fun i => (s.slot p i).va = 0 with
    | none => (s, .mfile)
    | some i =>
      let o := s.objs id
      match s.attachVa o hint with
      | (s, .error e) => (s, e)
      | (s, .ok va) =>
        let r := s.attachAt p i ⟨va, o.npages, id⟩ room
        (r.1, if r.2 = true then .attached va else .nomem)

inductive DetachOutcome
  | inval
  | noent
  | ok
deriving DecidableEq, Repr

/-- `shm_detach` in the process `p`. -/
def shmDetach (s : Sys) (p : ProcId) (va : ℕ) : Sys × DetachOutcome :=
  if va % PAGE_SIZE ≠ 0 then (s, .inval)
  else
    match (List.finRange PROC_SHM_MAX).find? fun i => (s.slot p i).va = va with
    | none => (s, .noent)
    | some i => (s.shmDoDetach p i, .ok)

/-- The loop over the slots in `ipc_proc_fork`, and whether it comes to its end. -/
def forkLoop (child parent : ProcId) (room : Fin PROC_SHM_MAX → ℕ) :
    List (Fin PROC_SHM_MAX) → Sys → Sys × Bool
  | [], s => (s, true)
  | i :: is, s =>
    let x := s.slot parent i
    if x.va = 0 ∨ SHM_OBJS_MAX ≤ x.id ∨ (s.objs x.id).used = false then
      forkLoop child parent room is s
    else
      let r := s.attachAt child i x (room i)
      if r.2 = true then forkLoop child parent room is r.1 else (r.1, false)

/-- `shm_do_detach` of every slot. -/
def detachAll (s : Sys) (p : ProcId) : Sys :=
  (List.finRange PROC_SHM_MAX).foldl (fun s i => s.shmDoDetach p i) s

/-- `ipc_proc_fork`, and whether it succeeds. -/
def ipcProcFork (s : Sys) (child parent : ProcId) (room : Fin PROC_SHM_MAX → ℕ) : Sys × Bool :=
  let r := forkLoop child parent room (List.finRange PROC_SHM_MAX) s
  if r.2 = true then r else (r.1.detachAll child, false)

/-- The `struct proc` and its address space go. -/
def dropProc (s : Sys) (p : ProcId) : Sys :=
  { s with
    slot := update s.slot p fun _ => Slot.zero
    maps := update s.maps p fun _ => none
    status := update s.status p .absent }

end Sys

inductive Event
  /-- a process that no other process has forked -/
  | spawn (p : ProcId)
  | create (t : Task) (npages : ℕ)
  /-- `pmm_alloc` in `shm_create` -/
  | alloc (t : Task) (id pg : ℕ)
  | store (t : Task) (id pg fr : ℕ)
  | attach (p : ProcId) (id hint room : ℕ)
  | detach (p : ProcId) (va : ℕ)
  /-- `ipc_proc_fork` in `proc_do_fork` -/
  | fork (child parent : ProcId) (room : Fin PROC_SHM_MAX → ℕ)
  | launch (p : ProcId)
  /-- `task_create_deferred` fails, and `proc_do_fork` frees the child -/
  | abandon (p : ProcId)
  /-- `ipc_proc_exit` and what follows it in `reap_one` -/
  | exit (p : ProcId)
  /-- the rest of the kernel takes frames and gives them back -/
  | other (free : List ℕ)

/-- The task that a section of `shm_create` belongs to. -/
def Event.creator : Event → Option Task
  | .create t _ | .alloc t _ _ | .store t _ _ _ => some t
  | _ => none

/-- Who may hold a frame outside the PMM. -/
inductive Owner
  | obj (id pg : ℕ)
  | hand (t : Task)
deriving DecidableEq

namespace Sys

/-- The frame that an owner holds, or 0. -/
def frame (s : Sys) : Owner → ℕ
  | .obj id pg => (s.objs id).pages pg
  | .hand t => (s.phase t).held

def act (s : Sys) : Event → Sys
  | .spawn p | .launch p => s.setStatus p .live
  | .create t npages => s.shmCreate t npages
  | .alloc t id pg =>
    match s.free with
    | [] => s.setPhase t (.gotten id pg 0)
    | fr :: free => (s.setFree free).setPhase t (.gotten id pg fr)
  | .store t id pg fr => s.storePage t id pg fr
  | .attach p id hint room => (s.shmAttach p id hint room).1
  | .detach p va => (s.shmDetach p va).1
  | .fork child parent room =>
    let r := (s.setStatus child .forked).ipcProcFork child parent room
    if r.2 = true then r.1 else r.1.dropProc child
  | .abandon p => s.dropProc p
  | .exit p => (s.detachAll p).dropProc p
  | .other free => s.setFree free

/-- Frames that the PMM may have on its list: distinct, none of them 0 or held by an owner. -/
structure FreeOk (own : Owner → ℕ) (free : List ℕ) : Prop where
  nodup : free.Nodup
  pos : 0 ∉ free
  apart : ∀ a, own a ∉ free

/-- A live process attaches and detaches, a child is not running before it is launched, and
there are `n` processes. -/
def Enabled (n : ℕ) (s : Sys) : Event → Prop
  | .spawn p => s.status p = .absent ∧ p < n
  | .create t _ => s.phase t = .idle
  | .alloc t id pg => s.phase t = .filling id pg
  | .store t id pg fr => s.phase t = .gotten id pg fr
  | .attach p _ _ _ | .detach p _ | .exit p => s.status p = .live ∧ p < n
  | .fork child parent _ => s.status child = .absent ∧ child < n ∧ s.status parent = .live
  | .launch p | .abandon p => s.status p = .forked
  | .other free => FreeOk s.frame free

/-- The mapping slots of a process that name the object `id`. -/
def naming (id : ℕ) (h : Fin PROC_SHM_MAX → Slot) : ℕ :=
  ∑ i, if (h i).va ≠ 0 ∧ (h i).id = id then 1 else 0

/-- The mapping slots of the first `n` processes that name it. -/
def slots (n : ℕ) (s : Sys) (id : ℕ) : ℕ := ∑ p ∈ Finset.range n, naming id (s.slot p)

/-- A task is still filling the object. -/
def Filling (s : Sys) (id : ℕ) : Prop := ∃ t pg, (s.phase t).fills = some (id, pg)

end Sys

def Step (n : ℕ) (s : Sys) (e : Event) (s' : Sys) : Prop := s.Enabled n e ∧ s' = s.act e

end Shm
end Ipc
end MobilePhoneOs
