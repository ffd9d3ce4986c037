import MobilePhoneOs.Kernel.Proc
import MobilePhoneOs.Kernel.TaskTheorems

/-!
# Every child is reaped once, and parents stay registered

The lookup of a zombie and its reaping are separate sections, and so are the start of an exit
and the reparenting of its children. Both properties hold of the runs in which nothing comes
between: a waiter finds only what nobody else is reaping, and what has handed its children on.
-/

namespace MobilePhoneOs

open Function (update update_self update_of_ne)

/-! ## What the scheduler leaves alone -/

namespace Sched
namespace Machine

variable {m m' m'' : Machine} {c : ℕ} {t u : Slot}

/-- Tasks keep their process and their stack, and no slot is given back. -/
structure Kept (m m' : Machine) : Prop where
  proc : ∀ u, (m'.task u).proc = (m.task u).proc
  tKstack : ∀ u, (m'.task u).tKstack = (m.task u).tKstack
  used : ∀ u, (m'.task u).state = .unused → (m.task u).state = .unused

lemma Kept.rfl' : Kept m m := ⟨fun _ => rfl, fun _ => rfl, fun _ => id⟩

lemma Kept.of_task (h : m'.task = m.task) : Kept m m' := by
  constructor
  · intro u
    rw [h]
  · intro u
    rw [h]
  · intro u hu
    rwa [h] at hu

lemma Kept.trans (h : Kept m m') (h' : Kept m' m'') : Kept m m'' where
  proc u := (h'.proc u).trans (h.proc u)
  tKstack u := (h'.tKstack u).trans (h.tKstack u)
  used u hu := h.used u (h'.used u hu)

/-- One task changes in its other fields. -/
lemma Kept.modify (f : Task → Task) (hproc : (f (m.task t)).proc = (m.task t).proc)
    (hstack : (f (m.task t)).tKstack = (m.task t).tKstack)
    (hused : (f (m.task t)).state = .unused → (m.task t).state = .unused) :
    Kept m (m.modifyTask t f) := by
  constructor
  · intro u
    by_cases hu : u = t
    · rw [hu, modifyTask_self, hproc]
    · rw [modifyTask_ne _ hu]
  · intro u
    by_cases hu : u = t
    · rw [hu, modifyTask_self, hstack]
    · rw [modifyTask_ne _ hu]
  · intro u h
    by_cases hu : u = t
    · rw [hu, modifyTask_self] at h
      rw [hu]
      exact hused h
    · rwa [modifyTask_ne _ hu] at h

/-- Tasks keep their deadlines too, and the time stands still. -/
structure Still (m m' : Machine) : Prop extends Kept m m' where
  wakeAt : ∀ u, (m'.task u).wakeAt = (m.task u).wakeAt
  jiffies : m'.jiffies = m.jiffies

lemma Still.rfl' : Still m m := ⟨Kept.rfl', fun _ => rfl, rfl⟩

lemma Still.of_task (h : m'.task = m.task) (hj : m'.jiffies = m.jiffies) : Still m m' :=
  ⟨Kept.of_task h, fun u => by rw [h], hj⟩

lemma Still.trans (h : Still m m') (h' : Still m' m'') : Still m m'' where
  toKept := h.toKept.trans h'.toKept
  wakeAt u := (h'.wakeAt u).trans (h.wakeAt u)
  jiffies := h'.jiffies.trans h.jiffies

/-- One task changes in its state, its keys or its links. -/
lemma Still.modify (f : Task → Task) (hproc : (f (m.task t)).proc = (m.task t).proc)
    (hstack : (f (m.task t)).tKstack = (m.task t).tKstack)
    (hused : (f (m.task t)).state = .unused → (m.task t).state = .unused)
    (hwake : (f (m.task t)).wakeAt = (m.task t).wakeAt) : Still m (m.modifyTask t f) := by
  refine ⟨Kept.modify f hproc hstack hused, fun u => ?_, rfl⟩
  by_cases hu : u = t
  · rw [hu, modifyTask_self, hwake]
  · rw [modifyTask_ne _ hu]

lemma requeue_still : Still m (m.requeue t) :=
  Still.trans
    (Still.modify (t := t) (fun x => { x with state := .ready, rqKey := m.nextKey }) rfl rfl
      (by simp) rfl)
    (Still.of_task rfl rfl)

lemma schedPark_still : Still m (m.schedPark c t) :=
  Still.trans (Still.modify (t := t) (fun x => { x with parked := true }) rfl rfl id rfl)
    (Still.of_task rfl rfl)

lemma link_still {q : QueueId} {state : TaskState} (hs : state ≠ .unused) :
    Still m (m.link t q state) :=
  Still.trans
    (Still.modify (t := t) (fun x => { x with wqNext := m.head q, state := state }) rfl rfl
      (fun h => absurd h hs) rfl)
    (Still.of_task rfl rfl)

lemma wakeLoop_still (checkDead : Bool) (cur : Option Slot) (q : QueueId) (fuel : ℕ) (m : Machine)
    (preempt : Bool) : Still m (wakeLoop checkDead cur q fuel m preempt).1 := by
  induction fuel generalizing m preempt with
  | zero => exact Still.rfl'
  | succ fuel ih =>
    rw [wakeLoop]
    cases hhead : m.head q with
    | none => exact Still.rfl'
    | some t =>
      dsimp only
      have hunlink : Still m { m.modifyTask t fun t => { t with wqNext := none } with
          head := update m.head q (m.task t).wqNext } :=
        Still.trans (Still.modify (t := t) (fun x => { x with wqNext := none }) rfl rfl id rfl)
          (Still.of_task rfl rfl)
      split_ifs with hdead
      · exact hunlink.trans (ih _ _)
      · exact (hunlink.trans requeue_still).trans (ih _ _)

lemma wake_still (w : Waker) (q : QueueId) : Still m (m.wake w c q) := by
  have hloop := wakeLoop_still w.checksDead (m.cpu c).current q (MAX_TASKS + 1) m false
  unfold wake
  dsimp only
  split_ifs with hflag
  · exact hloop.trans (Still.of_task rfl rfl)
  · exact hloop

lemma tickStep_still : Still m (m.tickStep t) := by
  unfold tickStep
  split_ifs with h
  · exact requeue_still
  · exact Still.rfl'

lemma foldl_tick_still (l : List Slot) (m : Machine) : Still m (l.foldl tickStep m) := by
  induction l generalizing m with
  | nil => exact Still.rfl'
  | cons t l ih => exact tickStep_still.trans (ih _)

lemma tickQuantum_still : Still m (m.tickQuantum c) := by
  unfold tickQuantum
  split
  · exact Still.rfl'
  · next t _ =>
    have hleft : ∀ left, Still m (m.modifyTask t fun t => { t with quantumLeft := left }) :=
      fun left => Still.modify (t := t) (fun x => { x with quantumLeft := left }) rfl rfl id rfl
    split_ifs with hrun
    · dsimp only
      split_ifs with hzero
      · exact (hleft _).trans (Still.of_task rfl rfl)
      · exact hleft _
    · exact Still.rfl'

lemma schedTick_still : Still m (m.schedTick c) := by
  have hloop := foldl_tick_still (List.finRange MAX_TASKS) m
  unfold schedTick
  generalize (List.finRange MAX_TASKS).foldl tickStep m = m₁ at hloop ⊢
  exact hloop.trans tickQuantum_still

lemma schedRun_still : Still m (m.schedRun c) := by
  unfold schedRun
  split
  · next t _ =>
    have hrun : Still m (m.modifyTask t fun x =>
        { x with state := .running, quantumLeft := SCHED_QUANTUM }) :=
      Still.modify _ rfl rfl (by simp) rfl
    exact hrun.trans (Still.of_task rfl rfl)
  · exact Still.of_task rfl rfl

lemma schedPostIrq_still : Still m (m.schedPostIrq c) := by
  unfold schedPostIrq
  split
  · exact Still.rfl'
  · next t _ =>
    split_ifs with hflag
    · exact Still.rfl'
    · dsimp only
      have hcpu : Still m (m.modifyCpu c fun p => { p with needResched := false }) :=
        Still.of_task rfl rfl
      split_ifs with hrun
      · exact (hcpu.trans requeue_still).trans schedPark_still
      · exact hcpu.trans schedPark_still

lemma setState_park_still {state : TaskState} (hs : state ≠ .unused) :
    Still m ((m.modifyTask t fun x => { x with state := state }).schedPark c t) :=
  Still.trans
    (Still.modify (t := t) (fun x => { x with state := state }) rfl rfl (fun h => absurd h hs) rfl)
    schedPark_still

lemma taskPrime_kept {prio : ℕ} : Kept m (m.taskPrime t prio) := by
  have hprime : Kept m (m.modifyTask t fun x => { x with
      state := .ready, prio := prio, rqKey := m.nextKey, quantumLeft := 0, wakeAt := 0,
      wqNext := none }) := Kept.modify _ rfl rfl (by simp)
  exact hprime.trans (Kept.of_task rfl)

lemma act_kept (a : Act) : Kept m (m.act a) := by
  cases a with
  | clock => exact Kept.of_task rfl
  | dispatch c => exact schedRun_still.toKept
  | tick c =>
    rw [act]
    exact schedTick_still.toKept
  | postIrq c => exact schedPostIrq_still.toKept
  | yield c t => exact (requeue_still.trans schedPark_still).toKept
  | exit c t => exact (setState_park_still (by simp)).toKept
  | sleepArm c t msecs =>
    unfold Machine.act Machine.sleepArm
    exact Kept.modify _ rfl rfl id
  | sleepPark c t => exact (setState_park_still (by simp)).toKept
  | park c t n => exact ((link_still (by simp)).trans schedPark_still).toKept
  | pollPark c t timeoutMs =>
    have hlink : Kept m (m.link t .poll .sleeping) := (link_still (by simp)).toKept
    exact (hlink.trans (Kept.modify _ rfl rfl id)).trans schedPark_still.toKept
  | linkUnlocked c t q =>
    unfold Machine.act linkUnlocked
    cases q with
    | some n =>
      have hlink : Kept m (m.link t (.other n) .blocked) := (link_still (by simp)).toKept
      exact hlink.trans (Kept.modify _ rfl rfl id)
    | none => exact Kept.modify _ rfl rfl (by simp)
  | barePark c t =>
    exact Kept.trans (Kept.modify _ rfl rfl id) schedPark_still.toKept
  | wake w c n => exact (wake_still w _).toKept
  | create t prio => exact taskPrime_kept

end Machine
end Sched

namespace Process

open Sched (Slot ProcId TaskState Machine Act)
open Sched.Machine (Kept)

/-- The entry that a task carries. -/
def Pc.entry : Pc → Option ProcId
  | .newborn p => some p
  | .spawning p _ => some p
  | .threading p _ => some p
  | .exiting p _ => some p
  | .looked z => some z
  | .reaping z _ => some z
  | .noting p => some p
  | .idle => none
  | .launching _ => none

namespace Sys

variable {s s' : Sys} {e : Event} {c : ℕ} {t u : Slot} {p q r z : ProcId}

section Projections

variable (s t p)

@[simp] lemma setPc_proc (x : Pc) : (s.setPc t x).proc = s.proc := rfl
@[simp] lemma setPc_pc (x : Pc) : (s.setPc t x).pc = update s.pc t x := rfl
@[simp] lemma setRole_pc (x : Role) : (s.setRole t x).pc = s.pc := rfl
@[simp] lemma setProc_proc (f : Proc → Proc) :
    (s.setProc p f).proc = update s.proc p (f (s.proc p)) := rfl
end Projections

/-! ## What a section of the scheduler does -/

/-- A section of the scheduler changes the machine only, and a slot it creates a task in
starts afresh. -/
structure Scheduled (s s' : Sys) (a : Act) : Prop where
  m : s'.m = s.m.act a
  proc : s'.proc = s.proc
  list : s'.list = s.list
  initProc : s'.initProc = s.initProc
  fresh : s'.fresh = s.fresh
  pc : ∀ t, s'.pc t = s.pc t ∨ s'.pc t = .idle

lemma act_mach_other {a : Act} (h : ∀ t prio, a ≠ .create t prio) :
    s.act (.mach a) = s.setMachine (s.m.act a) := by
  rw [act]
  exact h

lemma act_mach (s : Sys) (a : Act) : Scheduled s (s.act (.mach a)) a := by
  by_cases hcreate : ∃ t prio, a = .create t prio
  · obtain ⟨t, prio, rfl⟩ := hcreate
    refine ⟨rfl, rfl, rfl, rfl, rfl, fun u => ?_⟩
    by_cases hu : u = t
    · subst hu
      exact .inr (update_self _ _ _)
    · exact .inl (update_of_ne hu _ _)
  · rw [act_mach_other fun t prio heq => hcreate ⟨t, prio, heq⟩]
    exact ⟨rfl, rfl, rfl, rfl, rfl, fun _ => .inl rfl⟩

/-! ## The reparenting loop -/

/-- The entries differ in the parent and the pending signals only. -/
structure Rehomed (x x' : Proc) : Prop where
  pid : x'.pid = x.pid
  alive : x'.alive = x.alive
  task : x'.task = x.task
  freed : x'.freed = x.freed
  orphaned : x'.orphaned = x.orphaned

lemma Rehomed.trans {x x' x'' : Proc} (h : Rehomed x x') (h' : Rehomed x' x'') : Rehomed x x'' :=
  ⟨h'.pid.trans h.pid, h'.alive.trans h.alive, h'.task.trans h.task, h'.freed.trans h.freed,
    h'.orphaned.trans h.orphaned⟩

lemma update_rehomed (proc : ProcId → Proc) (f : Proc → Proc) (h : ∀ x, Rehomed x (f x)) :
    Rehomed (proc q) (update proc p (f (proc p)) q) := by
  by_cases hq : q = p
  · subst hq
    rw [update_self]
    exact h _
  · rw [update_of_ne hq]
    exact ⟨rfl, rfl, rfl, rfl, rfl⟩

lemma reparentStep_rehomed (init p : ProcId) (proc : ProcId → Proc) (it q : ProcId) :
    Rehomed (proc q) (reparentStep init p proc it q) := by
  unfold reparentStep
  split_ifs with hchild
  · have hmoved := update_rehomed (p := it) (q := q) proc (fun x => { x with parent := some init })
      fun _ => ⟨rfl, rfl, rfl, rfl, rfl⟩
    refine hmoved.trans ?_
    exact update_rehomed _ (fun x => { x with sigPending := x.sigPending ||| 1 <<< (SIGCHLD - 1) })
      fun _ => ⟨rfl, rfl, rfl, rfl, rfl⟩
  · exact ⟨rfl, rfl, rfl, rfl, rfl⟩

lemma foldl_rehomed (init p : ProcId) (l : List ProcId) (proc : ProcId → Proc) (q : ProcId) :
    Rehomed (proc q) (l.foldl (reparentStep init p) proc q) := by
  induction l generalizing proc with
  | nil => exact ⟨rfl, rfl, rfl, rfl, rfl⟩
  | cons it l ih => exact (reparentStep_rehomed init p proc it q).trans (ih _)

/-- One round moves one child. -/
lemma reparentStep_parent (init p : ProcId) (proc : ProcId → Proc) (it q : ProcId) :
    (reparentStep init p proc it q).parent
      = if q = it ∧ (proc q).parent = some p ∧ q ≠ p then some init else (proc q).parent := by
  have hsig : ∀ (f : ProcId → Proc) (n : ℕ),
      (update f init { f init with sigPending := n } q).parent = (f q).parent := by
    intro f n
    by_cases hq : q = init
    · subst hq
      rw [update_self]
    · rw [update_of_ne hq]
  unfold reparentStep
  by_cases hqi : q = it
  · subst hqi
    split_ifs with hchild h h
    · rw [hsig, update_self]
    · exact absurd ⟨rfl, hchild⟩ h
    · exact absurd h.2 hchild
    · rfl
  · rw [if_neg fun h : q = it ∧ _ => hqi h.1]
    split_ifs with hchild
    · rw [hsig, update_of_ne hqi]
    · rfl

/-- The loop moves every listed child of `p`. -/
lemma foldl_parent (init p : ProcId) (l : List ProcId) (proc : ProcId → Proc)
    (q : ProcId) : (l.foldl (reparentStep init p) proc q).parent
      = if q ∈ l ∧ (proc q).parent = some p ∧ q ≠ p then some init else (proc q).parent := by
  induction l generalizing proc with
  | nil => simp
  | cons it l ih =>
    rw [List.foldl_cons, ih, reparentStep_parent]
    by_cases hq : (proc q).parent = some p ∧ q ≠ p
    · by_cases hqi : q = it
      · subst hqi
        simp [hq]
      · simp [hqi, hq]
    · have hno : ∀ b : Prop, ¬ (b ∧ (proc q).parent = some p ∧ q ≠ p) := fun b h => hq h.2
      simp only [if_neg (hno _)]

lemma reparent_m : (s.reparentChildrenLocked p).m = s.m := by
  unfold reparentChildrenLocked
  split
  · rfl
  · split_ifs <;> rfl

lemma reparent_list : (s.reparentChildrenLocked p).list = s.list := by
  unfold reparentChildrenLocked
  split
  · rfl
  · split_ifs <;> rfl

lemma reparent_fresh : (s.reparentChildrenLocked p).fresh = s.fresh := by
  unfold reparentChildrenLocked
  split
  · rfl
  · split_ifs <;> rfl

lemma reparent_pc : (s.reparentChildrenLocked p).pc = s.pc := by
  unfold reparentChildrenLocked
  split
  · rfl
  · split_ifs <;> rfl

lemma reparent_rehomed (q : ProcId) :
    Rehomed (s.proc q) ((s.reparentChildrenLocked p).proc q) := by
  unfold reparentChildrenLocked
  split
  · exact ⟨rfl, rfl, rfl, rfl, rfl⟩
  · split_ifs
    · exact ⟨rfl, rfl, rfl, rfl, rfl⟩
    · exact foldl_rehomed _ _ _ _ _

/-- With `init` noted and another process than `p`, its children are moved. -/
lemma reparent_parent {init : ProcId} (h : s.initProc = some init) (hne : init ≠ p) (q : ProcId) :
    ((s.reparentChildrenLocked p).proc q).parent
      = if q ∈ s.list ∧ (s.proc q).parent = some p ∧ q ≠ p then some init
        else (s.proc q).parent := by
  unfold reparentChildrenLocked
  rw [h]
  simp only [if_neg hne]
  exact foldl_parent _ _ _ _ _

/-- Without children nothing moves. -/
lemma reparent_parent_same (h : ∀ q ∈ s.list, q ≠ p → (s.proc q).parent ≠ some p) (q : ProcId) :
    ((s.reparentChildrenLocked p).proc q).parent = (s.proc q).parent := by
  unfold reparentChildrenLocked
  split
  · rfl
  · split_ifs
    · rfl
    · rw [foldl_parent, if_neg]
      rintro ⟨hq, hparent, hne⟩
      exact h q hq hne hparent

/-! ## Addresses -/

/-- Every address in use has been given out. -/
structure Born (s : Sys) : Prop where
  list : ∀ p ∈ s.list, p < s.fresh
  task : ∀ t p, (s.m.task t).proc = some p → p < s.fresh
  pc : ∀ t p, (s.pc t).entry = some p → p < s.fresh

variable {x : Pc}

lemma Born.setPc (h : Born s) (hx : ∀ p, x.entry = some p → p < s.fresh) :
    Born (s.setPc t x) where
  list := h.list
  task := h.task
  pc := by
    intro u p hu
    rw [setPc_pc] at hu
    by_cases hut : u = t
    · rw [hut, update_self] at hu
      exact hx p hu
    · rw [update_of_ne hut] at hu
      exact h.pc u p hu

/-- A task that drops what it carries. -/
lemma Born.setPc_none (h : Born s) (hx : x.entry = none) : Born (s.setPc t x) :=
  h.setPc fun p hp => by simp [hx] at hp

variable {m : Machine}

lemma Born.setMachine (h : Born s)
    (hm : ∀ u p, (m.task u).proc = some p → p < s.fresh) : Born (s.setMachine m) :=
  ⟨h.list, hm, h.pc⟩

/-- The tasks keep their processes. -/
lemma Born.setMachine_same (h : Born s)
    (hm : ∀ u, (m.task u).proc = (s.m.task u).proc) : Born (s.setMachine m) :=
  h.setMachine fun u p hu => h.task u p (hm u ▸ hu)

/-- One task gets a process or loses it. -/
lemma Born.setMachine_modify (h : Born s) {f : Sched.Task → Sched.Task}
    (hf : ∀ p, (f (s.m.task t)).proc = some p → p < s.fresh) :
    Born (s.setMachine (s.m.modifyTask t f)) := by
  refine h.setMachine fun u p hu => ?_
  by_cases hut : u = t
  · rw [hut, Sched.Machine.modifyTask_self] at hu
    exact hf p hu
  · rw [Sched.Machine.modifyTask_ne _ hut] at hu
    exact h.task u p hu

lemma createDeferred_proc {prio : ℕ} (v : Slot) :
    ((m.taskCreateDeferred u prio).task v).proc = (m.task v).proc := by
  have hprime : Kept m (m.taskPrime u prio) := Sched.Machine.taskPrime_kept
  unfold Machine.taskCreateDeferred
  by_cases hv : v = u
  · rw [hv, Sched.Machine.modifyTask_self]
    exact hprime.proc u
  · rw [Sched.Machine.modifyTask_ne _ hv]
    exact hprime.proc v

lemma launch_kept : Kept m (m.taskLaunch u) :=
  Sched.Machine.requeue_still.toKept.trans (Kept.modify _ rfl rfl id)

lemma markDead_kept {leader : Option Slot} : Kept m (m.markDead p leader) := by
  unfold Machine.markDead
  constructor
  · intro u
    dsimp only
    split_ifs <;> rfl
  · intro u
    dsimp only
    split_ifs <;> rfl
  · intro u hu
    dsimp only at hu
    split_ifs at hu
    exact hu

lemma releaseSlot_task (u : Slot) : ((s.releaseSlot z).m.task u).proc = (s.m.task u).proc ∨
    ((s.releaseSlot z).m.task u).proc = none := by
  unfold releaseSlot
  split
  · exact .inl rfl
  · next v _ =>
    split_ifs with hdead
    · show ((s.m.reapSlot v).task u).proc = _ ∨ ((s.m.reapSlot v).task u).proc = _
      unfold Machine.reapSlot
      rw [if_pos hdead]
      by_cases hu : u = v
      · rw [hu, Sched.Machine.modifyTask_self]
        exact .inr rfl
      · rw [Sched.Machine.modifyTask_ne _ hu]
        exact .inl rfl
    · exact .inl rfl

lemma releaseSlot_pc (u : Slot) :
    (s.releaseSlot z).pc u = s.pc u ∨ (s.releaseSlot z).pc u = .idle := by
  unfold releaseSlot
  split
  · exact .inl rfl
  · next v _ =>
    split_ifs with hdead
    · by_cases hu : u = v
      · subst hu
        exact .inr (update_self _ _ _)
      · exact .inl (update_of_ne hu _ _)
    · exact .inl rfl

lemma releaseSlot_same : (s.releaseSlot z).proc = s.proc ∧ (s.releaseSlot z).list = s.list ∧
    (s.releaseSlot z).initProc = s.initProc ∧ (s.releaseSlot z).fresh = s.fresh := by
  unfold releaseSlot
  split
  · exact ⟨rfl, rfl, rfl, rfl⟩
  · split_ifs <;> exact ⟨rfl, rfl, rfl, rfl⟩

lemma mem_of_findZombie {want : ℤ} (h : s.findZombie p want = some z) : z ∈ s.list :=
  List.mem_of_find?_eq_some h

lemma settled_of_findZombie {want : ℤ} (h : s.findZombie p want = some z) :
    s.threadsSettled z = true := by
  have hfound := List.find?_some h
  simp only [decide_eq_true_eq] at hfound
  exact hfound.2.2.2

lemma mem_of_kernelFind {pid : ℕ} (h : s.kernelFind pid = some z) : z ∈ s.list := by
  unfold kernelFind at h
  rw [Option.filter_eq_some_iff] at h
  exact List.mem_of_find?_eq_some h.1

lemma Born.exitStep (h : Born s) {stage : ExitStage} (hpc : s.pc t = .exiting p stage) :
    Born (s.exitStep c t p stage) := by
  have hp : p < s.fresh := h.pc t p (by rw [hpc]; rfl)
  have hentry : ∀ q, some p = some q → q < s.fresh := by
    intro q hq
    rwa [← Option.some.inj hq]
  cases stage with
  | begun =>
    have hborn : Born (s.reparentChildrenLocked p) := by
      constructor
      · rw [reparent_list, reparent_fresh]
        exact h.list
      · rw [reparent_m, reparent_fresh]
        exact h.task
      · rw [reparent_pc, reparent_fresh]
        exact h.pc
    have hmark : Born ((s.reparentChildrenLocked p).setProc p fun x => { x with orphaned := true }) :=
      ⟨hborn.list, hborn.task, hborn.pc⟩
    refine hmark.setPc fun q hq => ?_
    show q < (s.reparentChildrenLocked p).fresh
    rw [reparent_fresh]
    exact hentry q hq
  | reparented => exact (h.setMachine_same markDead_kept.proc).setPc hentry
  | marked => exact (h.setMachine_same (Sched.Machine.wake_still _ _).proc).setPc hentry
  | woken =>
    have hkept : Kept s.m (s.m.taskExit c t) := (Sched.Machine.setState_park_still (by simp)).toKept
    exact (h.setMachine_same hkept.proc).setPc_none rfl

variable {stage : ReapStage}

lemma Born.reapStep (h : Born s) (hpc : s.pc t = .reaping z stage) :
    Born (s.reapStep t z stage) := by
  have hz : z < s.fresh := h.pc t z (by rw [hpc]; rfl)
  have hentry : ∀ q, some z = some q → q < s.fresh := by
    intro q hq
    rwa [← Option.some.inj hq]
  cases stage with
  | found =>
    have hdel : Born { s with list := s.list.erase z } :=
      ⟨fun q hq => h.list q (List.mem_of_mem_erase hq), h.task, h.pc⟩
    exact hdel.setPc hentry
  | deleted =>
    have hset : Born (s.setProc z fun x => { x with rootPa := false }) := ⟨h.list, h.task, h.pc⟩
    exact hset.setPc hentry
  | spaceGone =>
    have hset : Born (s.setProc z fun x => { x with kstack := false }) := ⟨h.list, h.task, h.pc⟩
    exact hset.setPc hentry
  | stackGone => exact h.setPc hentry
  | reported =>
    obtain ⟨-, hlist, -, hfresh⟩ := releaseSlot_same (s := s) (z := z)
    have hrel : Born (s.releaseSlot z) := by
      constructor
      · rw [hlist, hfresh]
        exact h.list
      · intro u q hu
        rw [hfresh]
        rcases releaseSlot_task (s := s) (z := z) u with heq | heq
        · exact h.task u q (heq ▸ hu)
        · rw [heq] at hu
          cases hu
      · intro u q hu
        rw [hfresh]
        rcases releaseSlot_pc (s := s) (z := z) u with heq | heq
        · exact h.pc u q (heq ▸ hu)
        · rw [heq] at hu
          cases hu
    refine hrel.setPc fun q hq => ?_
    rw [hfresh]
    exact hentry q hq
  | slotGone =>
    have hset : Born (s.setProc z fun x => { x with freed := true }) := ⟨h.list, h.task, h.pc⟩
    exact hset.setPc_none rfl

/-- An entry comes in use only after it has been given out. -/
lemma born_step (h : Born s) (hstep : Step s e s') : Born s' := by
  obtain ⟨hen, rfl⟩ := hstep
  cases e with
  | mach a =>
    have hsched := act_mach s a
    constructor
    · rw [hsched.list, hsched.fresh]
      exact h.list
    · intro u p hu
      rw [hsched.m, (Sched.Machine.act_kept a).proc u] at hu
      rw [hsched.fresh]
      exact h.task u p hu
    · intro u p hu
      rw [hsched.fresh]
      rcases hsched.pc u with heq | heq
      · exact h.pc u p (heq ▸ hu)
      · rw [heq] at hu
        cases hu
  | spawn c t u prio =>
    -- the new address is the first one beyond the old bound
    have hnew : Born { s with
        m := s.m.taskCreateDeferred u prio, fresh := s.fresh + 1, nextPid := s.nextPid + 1 } := by
      constructor
      · exact fun q hq => (h.list q hq).trans (Nat.lt_succ_self _)
      · intro v q hv
        rw [show ((s.m.taskCreateDeferred u prio).task v).proc = _ from createDeferred_proc v] at hv
        exact (h.task v q hv).trans (Nat.lt_succ_self _)
      · exact fun v q hv => (h.pc v q hv).trans (Nat.lt_succ_self _)
    have hentry : ∀ q, some s.fresh = some q → q < s.fresh + 1 := by
      intro q hq
      rw [← Option.some.inj hq]
      exact Nat.lt_succ_self _
    exact ⟨hnew.list, hnew.task, ((hnew.setPc (t := u) (x := .newborn s.fresh) hentry).setPc
      (t := t) (x := .spawning s.fresh u) hentry).pc⟩
  | register c t p u =>
    have hp : p < s.fresh := h.pc t p (by rw [hen.2]; rfl)
    have hadd : Born { s with list := p :: s.list } := by
      refine ⟨fun q hq => ?_, h.task, h.pc⟩
      rcases List.mem_cons.mp hq with rfl | hq
      · exact hp
      · exact h.list q hq
    exact hadd.setPc_none rfl
  | launch c t u => exact (h.setMachine_same launch_kept.proc).setPc_none rfl
  | adopt c t p =>
    have hp : p < s.fresh := h.pc t p (by rw [hen.2.1]; rfl)
    refine (h.setMachine_modify fun q hq => ?_).setPc_none rfl
    rwa [← Option.some.inj hq]
  | threadCreate c t u p prio =>
    have hp : p < s.fresh := h.task t p hen.2.2.1
    have hnew := h.setMachine_same (m := s.m.taskCreateDeferred u prio) createDeferred_proc
    have hidle := hnew.setPc_none (t := u) (x := .idle) rfl
    have hrole : Born (((s.setMachine (s.m.taskCreateDeferred u prio)).setRole u (.thread p)).setPc u
        .idle) := ⟨hidle.list, hidle.task, hidle.pc⟩
    refine hrole.setPc fun q hq => ?_
    rwa [← Option.some.inj hq]
  | threadAttach c t u p kstack =>
    have hp : p < s.fresh := h.pc t p (by rw [hen.2]; rfl)
    cases kstack with
    | some k =>
      refine (h.setMachine_modify fun q hq => ?_).setPc_none rfl
      rwa [← Option.some.inj hq]
    | none =>
      have hback := h.setMachine_modify (t := u) (f := fun x => { x with state := .unused })
        fun q hq => h.task u q hq
      have hrole : Born ((s.setMachine (s.m.modifyTask u fun x => { x with state := .unused })).setRole
          u .free) := ⟨hback.list, hback.task, hback.pc⟩
      exact (hrole.setPc_none (t := u) (x := .idle) rfl).setPc_none rfl
  | reclaim c t u =>
    have hback := h.setMachine_modify (t := u) (f := fun x =>
      { x with state := .unused, proc := none, parked := false, tKstack := none })
      fun q hq => by cases hq
    have hrole : Born ((s.setMachine (s.m.reclaim u)).setRole u .free) :=
      ⟨hback.list, hback.task, hback.pc⟩
    exact hrole.setPc_none rfl
  | exitBegin c t p code =>
    have hp : p < s.fresh := h.task t p hen.2.2
    have hset : Born (s.setProc p fun x => { x with alive := false, exitCode := code }) :=
      ⟨h.list, h.task, h.pc⟩
    refine hset.setPc fun q hq => ?_
    rwa [← Option.some.inj hq]
  | exit c t p stage => exact h.exitStep hen.2
  | findZombie c t p want z =>
    refine h.setPc fun q hq => ?_
    rw [← Option.some.inj hq]
    exact h.list z (mem_of_findZombie hen.2.2.2)
  | kernelFind c t pid z =>
    refine h.setPc fun q hq => ?_
    rw [← Option.some.inj hq]
    exact h.list z (mem_of_kernelFind hen.2.2)
  | kernelSettled c t z =>
    have hz : z < s.fresh := h.pc t z (by rw [hen.2]; rfl)
    refine h.setPc fun q hq => ?_
    split_ifs at hq
    · rwa [← Option.some.inj hq]
    · cases hq
  | reap c t z stage => exact h.reapStep hen.2
  | noteFind c t pid p =>
    refine h.setPc fun q hq => ?_
    rw [← Option.some.inj hq]
    exact h.list p (List.mem_of_find?_eq_some hen.2.2)
  | noteStore c t p =>
    have hnote : Born { s with initProc := some p } := ⟨h.list, h.task, h.pc⟩
    exact hnote.setPc_none rfl

lemma Init.born (h : s.Init) : Born s := by
  constructor
  · intro p hp
    rw [h.list] at hp
    cases hp
  · intro t p ht
    rw [h.proc t] at ht
    cases ht
  · intro t p ht
    rw [h.pc t] at ht
    cases ht

/-! ## Parents -/

/-- A new child is registered before its parent hands its children on; whoever hands children
on has a live registered init to hand them to; and a zombie is found after its children have
been handed on. -/
def HandsOn (s : Sys) : Event → Prop
  | .register _ _ p _ =>
    ∀ r ∈ (s.proc p).parent, r ∈ s.list ∧ (s.proc r).orphaned = false
  | .exit _ _ p .begun =>
    (∀ q ∈ s.list, q ≠ p → (s.proc q).parent ≠ some p) ∨
      ∃ init ∈ s.initProc, init ≠ p ∧ init ∈ s.list ∧ (s.proc init).alive = true
  | .findZombie _ _ _ _ z => (s.proc z).orphaned = true
  | .kernelSettled _ _ z => s.threadsSettled z = true → (s.proc z).orphaned = true
  | _ => True

instance (s : Sys) : ∀ e, Decidable (s.HandsOn e)
  | .register _ _ p _ => inferInstanceAs
      (Decidable (∀ r ∈ (s.proc p).parent, r ∈ s.list ∧ (s.proc r).orphaned = false))
  | .exit _ _ p .begun => inferInstanceAs
      (Decidable ((∀ q ∈ s.list, q ≠ p → (s.proc q).parent ≠ some p) ∨
        ∃ init ∈ s.initProc, init ≠ p ∧ init ∈ s.list ∧ (s.proc init).alive = true))
  | .findZombie _ _ _ _ _ => inferInstanceAs (Decidable (_ = _))
  | .kernelSettled _ _ _ => inferInstanceAs (Decidable (_ → _))
  | .mach _ | .spawn _ _ _ _ | .launch _ _ _ | .adopt _ _ _ | .threadCreate _ _ _ _ _
  | .threadAttach _ _ _ _ _ | .reclaim _ _ _ | .exitBegin _ _ _ _ | .exit _ _ _ .reparented
  | .exit _ _ _ .marked | .exit _ _ _ .woken | .kernelFind _ _ _ _ | .reap _ _ _ _
  | .noteFind _ _ _ _ | .noteStore _ _ _ => inferInstanceAs (Decidable True)

/-- The parent of a registered process is registered and has not handed its children on. -/
structure Tree (s : Sys) : Prop where
  parents : ∀ q ∈ s.list, ∀ r, r ≠ q → (s.proc q).parent = some r →
    r ∈ s.list ∧ (s.proc r).orphaned = false
  dead : ∀ p, p < s.fresh → (s.proc p).orphaned = true → (s.proc p).alive = false
  exiting : ∀ t p stage, s.pc t = .exiting p stage → (s.proc p).alive = false
  reaping : ∀ t z stage, s.pc t = .reaping z stage → (s.proc z).orphaned = true

lemma Tree.setPc (h : Tree s)
    (hexit : ∀ p stage, x = .exiting p stage → (s.proc p).alive = false)
    (hreap : ∀ z stage, x = .reaping z stage → (s.proc z).orphaned = true) : Tree (s.setPc t x) where
  parents := h.parents
  dead := h.dead
  exiting := by
    intro u p stage hu
    rw [setPc_pc] at hu
    by_cases hut : u = t
    · rw [hut, update_self] at hu
      exact hexit p stage hu
    · rw [update_of_ne hut] at hu
      exact h.exiting u p stage hu
  reaping := by
    intro u z stage hu
    rw [setPc_pc] at hu
    by_cases hut : u = t
    · rw [hut, update_self] at hu
      exact hreap z stage hu
    · rw [update_of_ne hut] at hu
      exact h.reaping u z stage hu

/-- A task that neither exits nor reaps. -/
lemma Tree.setPc_other (h : Tree s) (hexit : ∀ p stage, x ≠ .exiting p stage)
    (hreap : ∀ z stage, x ≠ .reaping z stage) : Tree (s.setPc t x) :=
  h.setPc (fun p stage hx => absurd hx (hexit p stage)) fun z stage hx => absurd hx (hreap z stage)

lemma Tree.setMachine (h : Tree s) (m : Machine) : Tree (s.setMachine m) :=
  ⟨h.parents, h.dead, h.exiting, h.reaping⟩

/-- One entry changes in fields that do not matter here, or dies. -/
lemma Tree.setProc (h : Tree s) {f : Proc → Proc} (hparent : (f (s.proc p)).parent = (s.proc p).parent)
    (horphaned : (f (s.proc p)).orphaned = (s.proc p).orphaned)
    (halive : (f (s.proc p)).alive = true → (s.proc p).alive = true) : Tree (s.setProc p f) := by
  have hfield : ∀ q, ((s.setProc p f).proc q).parent = (s.proc q).parent ∧
      ((s.setProc p f).proc q).orphaned = (s.proc q).orphaned ∧
      ((s.proc q).alive = false → ((s.setProc p f).proc q).alive = false) := by
    intro q
    rw [setProc_proc]
    by_cases hq : q = p
    · subst hq
      rw [update_self]
      refine ⟨hparent, horphaned, fun hdead => ?_⟩
      rw [← Bool.not_eq_true]
      intro hlive
      rw [halive hlive] at hdead
      cases hdead
    · rw [update_of_ne hq]
      exact ⟨rfl, rfl, id⟩
  constructor
  · intro q hq r hne hr
    rw [(hfield q).1] at hr
    rw [(hfield r).2.1]
    exact h.parents q hq r hne hr
  · intro q hq horph
    rw [(hfield q).2.1] at horph
    exact (hfield q).2.2 (h.dead q hq horph)
  · exact fun u q stage hu => (hfield q).2.2 (h.exiting u q stage hu)
  · intro u z stage hu
    rw [(hfield z).2.1]
    exact h.reaping u z stage hu

lemma Tree.setRole (h : Tree s) (x : Role) : Tree (s.setRole t x) :=
  ⟨h.parents, h.dead, h.exiting, h.reaping⟩

/-- The children go to a live registered process that is not the one that exits. -/
lemma Tree.reparent (h : Tree s) (hb : Born s) (hpc : s.pc t = .exiting p .begun)
    (hon : s.HandsOn (.exit c t p .begun)) : Tree (s.exitStep c t p .begun) := by
  have hdead : (s.proc p).alive = false := h.exiting t p .begun hpc
  set s₁ := (s.reparentChildrenLocked p).setProc p fun x => { x with orphaned := true } with hs₁
  have hlist : s₁.list = s.list := reparent_list
  have hfresh : s₁.fresh = s.fresh := reparent_fresh
  have hpcs : s₁.pc = s.pc := reparent_pc
  have halive : ∀ q, (s₁.proc q).alive = (s.proc q).alive := by
    intro q
    rw [hs₁, setProc_proc]
    by_cases hq : q = p
    · subst hq
      rw [update_self]
      exact (reparent_rehomed q).alive
    · rw [update_of_ne hq]
      exact (reparent_rehomed q).alive
  have horph : ∀ q, q ≠ p → (s₁.proc q).orphaned = (s.proc q).orphaned := by
    intro q hq
    rw [hs₁, setProc_proc, update_of_ne hq]
    exact (reparent_rehomed q).orphaned
  have hset : (s₁.proc p).orphaned = true := by
    rw [hs₁, setProc_proc, update_self]
  have hparent : ∀ q, (s₁.proc q).parent = ((s.reparentChildrenLocked p).proc q).parent := by
    intro q
    rw [hs₁, setProc_proc]
    by_cases hq : q = p
    · subst hq
      rw [update_self]
    · rw [update_of_ne hq]
  have htree : Tree s₁ := by
    constructor
    · intro q hq r hne hr
      rw [hlist] at hq ⊢
      rw [hparent] at hr
      rcases hon with hnone | ⟨init, hinit, hip, hmem, hlive⟩
      · rw [reparent_parent_same hnone] at hr
        have hrp : r ≠ p := by
          rintro rfl
          exact hnone q hq hne.symm hr
        rw [horph r hrp]
        exact h.parents q hq r hne hr
      · rw [reparent_parent hinit hip] at hr
        split_ifs at hr with hchild
        · obtain rfl := Option.some.inj hr
          refine ⟨hmem, ?_⟩
          rw [horph _ hip, ← Bool.not_eq_true]
          intro hgone
          rw [h.dead _ (hb.list _ hmem) hgone] at hlive
          cases hlive
        · have hrp : r ≠ p := by
            rintro rfl
            exact hchild ⟨hq, hr, hne.symm⟩
          rw [horph r hrp]
          exact h.parents q hq r hne hr
    · intro q hq hgone
      rw [halive]
      by_cases hqp : q = p
      · rwa [hqp]
      · rw [horph q hqp] at hgone
        exact h.dead q (hfresh ▸ hq) hgone
    · intro u q stage hu
      rw [hpcs] at hu
      rw [halive]
      exact h.exiting u q stage hu
    · intro u z stage hu
      rw [hpcs] at hu
      by_cases hzp : z = p
      · rwa [hzp]
      · rw [horph z hzp]
        exact h.reaping u z stage hu
  refine htree.setPc (fun q stage hq => ?_) fun z stage hz => by cases hz
  cases hq
  rw [halive]
  exact hdead

/-- Where processes hand their children on before they go, every parent is registered. -/
lemma tree_step (h : Tree s) (hb : Born s) (hon : s.HandsOn e) (hstep : Step s e s') : Tree s' := by
  obtain ⟨hen, rfl⟩ := hstep
  cases e with
  | mach a =>
    have hsched := act_mach s a
    constructor
    · rw [hsched.list, hsched.proc]
      exact h.parents
    · rw [hsched.fresh, hsched.proc]
      exact h.dead
    · intro u p stage hu
      rw [hsched.proc]
      rcases hsched.pc u with heq | heq
      · exact h.exiting u p stage (heq ▸ hu)
      · rw [heq] at hu
        cases hu
    · intro u z stage hu
      rw [hsched.proc]
      rcases hsched.pc u with heq | heq
      · exact h.reaping u z stage (heq ▸ hu)
      · rw [heq] at hu
        cases hu
  | spawn c t u prio =>
    -- nothing refers to the new address yet
    have hold : ∀ q, q < s.fresh → (s.spawn t u prio).proc q = s.proc q :=
      fun q hq => update_of_ne hq.ne _ _
    have htree : Tree { s with
        m := s.m.taskCreateDeferred u prio, proc := (s.spawn t u prio).proc
        nextPid := s.nextPid + 1, fresh := s.fresh + 1 } := by
      constructor
      · intro q hq r hne hr
        rw [show ((s.spawn t u prio).proc q) = _ from hold q (hb.list q hq)] at hr
        obtain ⟨hmem, horph⟩ := h.parents q hq r hne hr
        refine ⟨hmem, ?_⟩
        rwa [show ((s.spawn t u prio).proc r) = _ from hold r (hb.list r hmem)]
      · intro q hq horph
        by_cases hqf : q = s.fresh
        · rw [hqf] at horph
          have hself : (s.spawn t u prio).proc s.fresh = _ := update_self _ _ _
          rw [hself] at horph
          cases horph
        · have hlt : q < s.fresh := lt_of_le_of_ne (Nat.lt_succ_iff.mp hq) hqf
          rw [hold q hlt] at horph ⊢
          exact h.dead q hlt horph
      · intro v q stage hv
        have hlt : q < s.fresh := hb.pc v q (by rw [show s.pc v = _ from hv]; rfl)
        rw [show ((s.spawn t u prio).proc q) = _ from hold q hlt]
        exact h.exiting v q stage hv
      · intro v z stage hv
        have hlt : z < s.fresh := hb.pc v z (by rw [show s.pc v = _ from hv]; rfl)
        rw [show ((s.spawn t u prio).proc z) = _ from hold z hlt]
        exact h.reaping v z stage hv
    exact ((htree.setRole (t := u) (.leader s.fresh)).setPc_other (t := u) (x := .newborn s.fresh)
      (by simp) (by simp)).setPc_other (by simp) (by simp)
  | register c t p u =>
    have hadd : Tree { s with list := p :: s.list } := by
      refine ⟨fun q hq r hne hr => ?_, h.dead, h.exiting, h.reaping⟩
      rcases List.mem_cons.mp hq with rfl | hq
      · obtain ⟨hmem, horph⟩ := hon r hr
        exact ⟨List.mem_cons_of_mem _ hmem, horph⟩
      · obtain ⟨hmem, horph⟩ := h.parents q hq r hne hr
        exact ⟨List.mem_cons_of_mem _ hmem, horph⟩
    exact hadd.setPc_other (by simp) (by simp)
  | launch c t u => exact (h.setMachine _).setPc_other (by simp) (by simp)
  | adopt c t p => exact (h.setMachine _).setPc_other (by simp) (by simp)
  | threadCreate c t u p prio =>
    exact (((h.setMachine _).setRole _).setPc_other (t := u) (x := .idle) (by simp)
      (by simp)).setPc_other (by simp) (by simp)
  | threadAttach c t u p kstack =>
    cases kstack with
    | some k => exact (h.setMachine _).setPc_other (by simp) (by simp)
    | none =>
      exact (((h.setMachine _).setRole _).setPc_other (t := u) (x := .idle) (by simp)
        (by simp)).setPc_other (by simp) (by simp)
  | reclaim c t u => exact ((h.setMachine _).setRole _).setPc_other (by simp) (by simp)
  | exitBegin c t p code =>
    have hset : Tree (s.setProc p fun x => { x with alive := false, exitCode := code }) :=
      h.setProc rfl rfl (by simp)
    refine hset.setPc (fun q stage hq => ?_) fun z stage hz => by cases hz
    cases hq
    rw [setProc_proc, update_self]
  | exit c t p stage =>
    have hdead : (s.proc p).alive = false := h.exiting t p stage hen.2
    cases stage with
    | begun => exact h.reparent hb hen.2 hon
    | reparented =>
      refine (h.setMachine _).setPc (fun q stage hq => ?_) fun z stage hz => by cases hz
      cases hq
      exact hdead
    | marked =>
      refine (h.setMachine _).setPc (fun q stage hq => ?_) fun z stage hz => by cases hz
      cases hq
      exact hdead
    | woken => exact (h.setMachine _).setPc_other (by simp) (by simp)
  | findZombie c t p want z =>
    refine h.setPc (fun q stage hq => by cases hq) fun z' stage hz => ?_
    cases hz
    exact hon
  | kernelFind c t pid z => exact h.setPc_other (by simp) (by simp)
  | kernelSettled c t z =>
    refine h.setPc (fun q stage hq => ?_) fun z' stage hz => ?_
    · split_ifs at hq
    · split_ifs at hz with hsettled
      cases hz
      exact hon hsettled
  | reap c t z stage =>
    have horph : (s.proc z).orphaned = true := h.reaping t z stage hen.2
    cases stage with
    | found =>
      have hdel : Tree { s with list := s.list.erase z } := by
        refine ⟨fun q hq r hne hr => ?_, h.dead, h.exiting, h.reaping⟩
        obtain ⟨hmem, hr'⟩ := h.parents q (List.mem_of_mem_erase hq) r hne hr
        -- the deleted entry has handed its children on
        have hrz : r ≠ z := by
          rintro rfl
          rw [hr'] at horph
          cases horph
        exact ⟨(List.mem_erase_of_ne hrz).mpr hmem, hr'⟩
      refine hdel.setPc (fun q stage hq => by cases hq) fun z' stage hz => ?_
      cases hz
      exact horph
    | deleted =>
      have hset : Tree (s.setProc z fun x => { x with rootPa := false }) := h.setProc rfl rfl id
      refine hset.setPc (fun q stage hq => by cases hq) fun z' stage hz => ?_
      cases hz
      rwa [setProc_proc, update_self]
    | spaceGone =>
      have hset : Tree (s.setProc z fun x => { x with kstack := false }) := h.setProc rfl rfl id
      refine hset.setPc (fun q stage hq => by cases hq) fun z' stage hz => ?_
      cases hz
      rwa [setProc_proc, update_self]
    | stackGone =>
      refine h.setPc (fun q stage hq => by cases hq) fun z' stage hz => ?_
      cases hz
      exact horph
    | reported =>
      obtain ⟨hproc, hlist, -, hfresh⟩ := releaseSlot_same (s := s) (z := z)
      have hrel : Tree (s.releaseSlot z) := by
        constructor
        · rw [hlist, hproc]
          exact h.parents
        · rw [hfresh, hproc]
          exact h.dead
        · intro u p stage hu
          rw [hproc]
          rcases releaseSlot_pc (s := s) (z := z) u with heq | heq
          · exact h.exiting u p stage (heq ▸ hu)
          · rw [heq] at hu
            cases hu
        · intro u z' stage hu
          rw [hproc]
          rcases releaseSlot_pc (s := s) (z := z) u with heq | heq
          · exact h.reaping u z' stage (heq ▸ hu)
          · rw [heq] at hu
            cases hu
      refine hrel.setPc (fun q stage hq => by cases hq) fun z' stage hz => ?_
      cases hz
      rwa [hproc]
    | slotGone =>
      have hset : Tree (s.setProc z fun x => { x with freed := true }) := h.setProc rfl rfl id
      exact hset.setPc_other (by simp) (by simp)
  | noteFind c t pid p => exact h.setPc_other (by simp) (by simp)
  | noteStore c t p =>
    have hnote : Tree { s with initProc := some p } := ⟨h.parents, h.dead, h.exiting, h.reaping⟩
    exact hnote.setPc_other (by simp) (by simp)

/-- The children of the exiting `p` go to a live registered process. -/
def TakenOver (s s' : Sys) (p : ProcId) : Prop :=
  ∀ q ∈ s.list, q ≠ p → (s.proc q).parent = some p →
    ∀ r, (s'.proc q).parent = some r → r ∈ s'.list ∧ (s'.proc r).alive = true

/-- The reparenting loop meets its purpose exactly when there is no child, or a live
registered init other than the exiting process. -/
lemma takenOver_iff (h : Tree s) (hpc : s.pc t = .exiting p .begun) :
    TakenOver s (s.exitStep c t p .begun) p ↔ s.HandsOn (.exit c t p .begun) := by
  have hdead : (s.proc p).alive = false := h.exiting t p .begun hpc
  have hlist : (s.exitStep c t p .begun).list = s.list := reparent_list
  have hproc : ∀ q, ((s.exitStep c t p .begun).proc q).parent
        = ((s.reparentChildrenLocked p).proc q).parent ∧
      ((s.exitStep c t p .begun).proc q).alive = (s.proc q).alive := by
    intro q
    show (update (s.reparentChildrenLocked p).proc p _ q).parent = _ ∧
      (update (s.reparentChildrenLocked p).proc p _ q).alive = _
    by_cases hq : q = p
    · subst hq
      rw [update_self]
      exact ⟨rfl, (reparent_rehomed q).alive⟩
    · rw [update_of_ne hq]
      exact ⟨rfl, (reparent_rehomed q).alive⟩
  constructor
  · intro htaken
    by_cases hnone : ∀ q ∈ s.list, q ≠ p → (s.proc q).parent ≠ some p
    · exact .inl hnone
    · push Not at hnone
      obtain ⟨q, hq, hqp, hparent⟩ := hnone
      -- unmoved, the child would have a dead parent
      have hmoved : ((s.reparentChildrenLocked p).proc q).parent ≠ some p := by
        intro hstay
        have hlive := (htaken q hq hqp hparent p ((hproc q).1.trans hstay)).2
        rw [(hproc p).2, hdead] at hlive
        cases hlive
      cases hinit : s.initProc with
      | none =>
        refine absurd ?_ hmoved
        unfold reparentChildrenLocked
        rw [hinit]
        exact hparent
      | some init =>
        by_cases hip : init = p
        · refine absurd ?_ hmoved
          unfold reparentChildrenLocked
          rw [hinit]
          simp only [if_pos hip]
          exact hparent
        · have hnew : ((s.exitStep c t p .begun).proc q).parent = some init := by
            rw [(hproc q).1, reparent_parent hinit hip, if_pos ⟨hq, hparent, hqp⟩]
          obtain ⟨hmem, hlive⟩ := htaken q hq hqp hparent init hnew
          rw [hlist] at hmem
          rw [(hproc init).2] at hlive
          exact .inr ⟨init, hinit, hip, hmem, hlive⟩
  · rintro (hnone | ⟨init, hinit, hip, hmem, hlive⟩) q hq hqp hparent r hr
    · exact absurd hparent (hnone q hq hqp)
    · rw [(hproc q).1, reparent_parent hinit hip, if_pos ⟨hq, hparent, hqp⟩] at hr
      obtain rfl := Option.some.inj hr
      rw [hlist, (hproc _).2]
      exact ⟨hmem, hlive⟩

lemma Init.tree (h : s.Init) : Tree s := by
  constructor
  · intro q hq
    rw [h.list] at hq
    cases hq
  · intro p hp
    rw [h.fresh] at hp
    exact absurd hp (Nat.not_lt_zero p)
  · intro t p stage ht
    rw [h.pc t] at ht
    cases ht
  · intro t z stage ht
    rw [h.pc t] at ht
    cases ht

lemma run_tree {s₀ : Sys} {es : List Event} (h₀ : s₀.Init)
    (hrun : Run (Guarded HandsOn Step) s₀ es s) : Born s ∧ Tree s :=
  hrun.invariant (I := fun s => Born s ∧ Tree s) ⟨h₀.born, h₀.tree⟩ fun _ _ _ hinv hstep =>
    ⟨born_step hinv.1 hstep.2, tree_step hinv.2 hinv.1 hstep.1 hstep.2⟩

/-- Parents are registered and have not handed their children on, and an exit hands its
children to a live registered process exactly when it can. -/
theorem parent_links {s₀ : Sys} {es : List Event} (h₀ : s₀.Init)
    (hrun : Run (Guarded HandsOn Step) s₀ es s) :
    (∀ q ∈ s.list, ∀ r, (s.proc q).parent = some r → r ∈ s.list) ∧
      (∀ q ∈ s.list, ∀ r, r ≠ q → (s.proc q).parent = some r → (s.proc r).orphaned = false) ∧
      ∀ c t p s', Step s (.exit c t p .begun) s' →
        (TakenOver s s' p ↔ s.HandsOn (.exit c t p .begun)) := by
  obtain ⟨-, htree⟩ := run_tree h₀ hrun
  refine ⟨fun q hq r hr => ?_, fun q hq r hne hr => (htree.parents q hq r hne hr).2, ?_⟩
  · by_cases hne : r = q
    · rwa [hne]
    · exact (htree.parents q hq r hne hr).1
  · rintro c t p s' ⟨hen, rfl⟩
    exact takenOver_iff htree hen.2

/-- No task and no process. -/
def boot : Sys where
  m := Machine.boot
  proc := fun _ =>
    { pid := 0, parent := none, alive := false, exitCode := 0, task := none, sigPending := 0
      rootPa := false, kstack := false, freed := false, orphaned := false }
  list := []
  initProc := none
  nextPid := 1
  fresh := 0
  pc := fun _ => .idle
  role := fun _ => .free

lemma boot_init : boot.Init :=
  ⟨rfl, rfl, rfl, fun _ => rfl, fun _ => rfl, fun _ => rfl, fun _ => rfl⟩

/-- A kernel task spawns a process, which forks, exits and is reaped, with no init noted. -/
def orphanEvents : List Event :=
  [.mach (.create 0 10), .mach (.dispatch 0), .spawn 0 0 1 10, .register 0 0 0 1, .launch 0 0 1,
    .mach (.dispatch 1), .adopt 1 1 0, .spawn 1 1 2 10, .register 1 1 1 2, .launch 1 1 2,
    .exitBegin 1 1 0 7, .exit 1 1 0 .begun, .exit 1 1 0 .reparented, .exit 1 1 0 .marked,
    .exit 1 1 0 .woken, .kernelFind 0 0 1 0, .kernelSettled 0 0 0, .reap 0 0 0 .found]

lemma orphan_run : Run Step boot orphanEvents (orphanEvents.foldl act boot) :=
  Run.of_enables (fun _ _ h => ⟨h, rfl⟩) (by decide)

/-- The forked child is left with a parent that is not registered. -/
theorem parent_links_no_init :
    ∃ es s, Run Step boot es s ∧ ∃ q ∈ s.list, ∃ r, (s.proc q).parent = some r ∧ r ∉ s.list := by
  refine ⟨_, _, orphan_run, 1, ?_, 0, ?_, ?_⟩
  · decide
  · decide
  · decide

/-- The same with an init: the child goes to it before its parent is reaped. -/
def adoptedEvents : List Event :=
  [.mach (.create 0 10), .mach (.dispatch 0), .spawn 0 0 3 10, .register 0 0 0 3, .launch 0 0 3,
    .noteFind 0 0 1 0, .noteStore 0 0 0, .spawn 0 0 1 9, .register 0 0 1 1, .launch 0 0 1,
    .mach (.dispatch 1), .adopt 1 1 1, .spawn 1 1 2 10, .register 1 1 2 2, .launch 1 1 2,
    .exitBegin 1 1 1 7, .exit 1 1 1 .begun, .exit 1 1 1 .reparented, .exit 1 1 1 .marked,
    .exit 1 1 1 .woken, .kernelFind 0 0 2 1, .kernelSettled 0 0 1, .reap 0 0 1 .found]

lemma adopted_run : Run (Guarded HandsOn Step) boot adoptedEvents (adoptedEvents.foldl act boot) := by
  have henables : Enables (fun s e => s.HandsOn e ∧ s.Enabled e) act boot adoptedEvents := by
    decide
  exact Run.of_enables (fun _ _ h => ⟨h.1, h.2, rfl⟩) henables

theorem parent_links_adopted : 0 ∈ (adoptedEvents.foldl act boot).list := by
  have hmem : 2 ∈ (adoptedEvents.foldl act boot).list := by decide
  have hparent : ((adoptedEvents.foldl act boot).proc 2).parent = some 0 := by decide
  exact (parent_links boot_init adopted_run).1 2 hmem 0 hparent

/-! ## One reaper for each child -/

/-- The entry that a task alone answers for: the new one it has not registered yet, or the
zombie it reaps. -/
def holds : Pc → Option ProcId
  | .spawning p _ => some p
  | .reaping z _ => some z
  | _ => none

/-- The reports of the entry before a stage. -/
def reportsBefore : ReapStage → ℕ
  | .found | .deleted | .spaceGone | .stackGone => 0
  | .reported | .slotGone => 1

/-- No task is reaping `z`. -/
def Unclaimed (s : Sys) (z : ProcId) : Prop := ∀ r, holds (s.pc r) ≠ some z

instance (s : Sys) (z : ProcId) : Decidable (s.Unclaimed z) := inferInstanceAs (Decidable (∀ _, _))

/-- A waiter decides to reap only what nobody else is reaping, and what is still registered. -/
def Claims (s : Sys) : Event → Prop
  | .findZombie _ _ _ _ z => s.Unclaimed z
  | .kernelSettled _ _ z => s.threadsSettled z = true → s.Unclaimed z ∧ z ∈ s.list
  | _ => True

/-- Neither reported nor freed so far. -/
def Untouched (hist : List Event) (z : ProcId) : Prop :=
  hist.countP (reports z) = 0 ∧ hist.countP (frees z) = 0

/-- Every entry in use is answered for once, and the history agrees with how far it is. -/
structure Once (hist : List Event) (s : Sys) : Prop where
  born : Born s
  nodup : s.list.Nodup
  unique : ∀ t t' z, holds (s.pc t) = some z → holds (s.pc t') = some z → t = t'
  listed : ∀ z ∈ s.list, (s.proc z).freed = false ∧ Untouched hist z ∧
    ∀ t, holds (s.pc t) = some z → s.pc t = .reaping z .found
  spawning : ∀ t z u, s.pc t = .spawning z u → (s.proc z).freed = false ∧ Untouched hist z
  reaping : ∀ t z stage, s.pc t = .reaping z stage →
    (s.proc z).freed = false ∧ (stage = .found → z ∈ s.list) ∧
      hist.countP (reports z) = reportsBefore stage ∧ hist.countP (frees z) = 0
  unborn : ∀ z, s.fresh ≤ z → Untouched hist z
  once : ∀ z, hist.countP (reports z) ≤ 1 ∧ hist.countP (frees z) ≤ 1 ∧
    (z < s.fresh → ((s.proc z).freed = true ↔ hist.countP (frees z) = 1))

variable {hist : List Event}

/-- An event that stores no exit code and frees nothing. -/
def Silent (e : Event) : Prop := ∀ z, reports z e = false ∧ frees z e = false

lemma Silent.reports (h : Silent e) (z : ProcId) :
    (hist ++ [e]).countP (reports z) = hist.countP (reports z) := by
  simp [List.countP_append, (h z).1]

lemma Silent.frees (h : Silent e) (z : ProcId) :
    (hist ++ [e]).countP (frees z) = hist.countP (frees z) := by
  simp [List.countP_append, (h z).2]

lemma Silent.untouched (h : Silent e) (z : ProcId) : Untouched (hist ++ [e]) z ↔ Untouched hist z := by
  unfold Untouched
  rw [h.reports, h.frees]

/-- Tasks drop what they hold when one of them moves to a place without an entry. -/
lemma setPc_drop (hx : holds x = none) (v : Slot) :
    update s.pc t x v = s.pc v ∨ holds (update s.pc t x v) = none := by
  by_cases hv : v = t
  · subst hv
    rw [update_self]
    exact .inr hx
  · exact .inl (update_of_ne hv _ _)

/-- What `Once` says of one entry. -/
structure OnceAt (hist : List Event) (s : Sys) (z : ProcId) : Prop where
  unique : ∀ t t', holds (s.pc t) = some z → holds (s.pc t') = some z → t = t'
  listed : z ∈ s.list → (s.proc z).freed = false ∧ Untouched hist z ∧
    ∀ t, holds (s.pc t) = some z → s.pc t = .reaping z .found
  spawning : ∀ t u, s.pc t = .spawning z u → (s.proc z).freed = false ∧ Untouched hist z
  reaping : ∀ t stage, s.pc t = .reaping z stage →
    (s.proc z).freed = false ∧ (stage = .found → z ∈ s.list) ∧
      hist.countP (reports z) = reportsBefore stage ∧ hist.countP (frees z) = 0
  unborn : s.fresh ≤ z → Untouched hist z
  once : hist.countP (reports z) ≤ 1 ∧ hist.countP (frees z) ≤ 1 ∧
    (z < s.fresh → ((s.proc z).freed = true ↔ hist.countP (frees z) = 1))

lemma Once.at (h : Once hist s) (z : ProcId) : OnceAt hist s z :=
  ⟨fun t t' => h.unique t t' z, h.listed z, fun t u => h.spawning t z u,
    fun t stage => h.reaping t z stage, h.unborn z, h.once z⟩

lemma Once.of_at (hb : Born s) (hn : s.list.Nodup) (h : ∀ z, OnceAt hist s z) : Once hist s :=
  ⟨hb, hn, fun t t' z => (h z).unique t t', fun z => (h z).listed, fun t z u => (h z).spawning t u,
    fun t z stage => (h z).reaping t stage, fun z => (h z).unborn, fun z => (h z).once⟩

variable {hist' : List Event}

/-- The history and the state look the same to the entry `q`. -/
structure Alike (hist : List Event) (s : Sys) (hist' : List Event) (s' : Sys) (q : ProcId) :
    Prop where
  reports : hist'.countP (reports q) = hist.countP (reports q)
  frees : hist'.countP (frees q) = hist.countP (frees q)
  list : q ∈ s'.list ↔ q ∈ s.list
  fresh : s'.fresh ≤ q ↔ s.fresh ≤ q
  freed : (s'.proc q).freed = (s.proc q).freed

/-- Nobody takes the entry up. -/
lemma OnceAt.same (h : OnceAt hist s q) (ha : Alike hist s hist' s' q)
    (hpc : ∀ t, holds (s'.pc t) = some q → s'.pc t = s.pc t) : OnceAt hist' s' q := by
  have hu : Untouched hist' q ↔ Untouched hist q := by
    unfold Untouched
    rw [ha.reports, ha.frees]
  constructor
  · intro t t' ht ht'
    exact h.unique t t' (hpc t ht ▸ ht) (hpc t' ht' ▸ ht')
  · intro hq
    obtain ⟨hf, huq, hr⟩ := h.listed (ha.list.mp hq)
    rw [ha.freed, hu]
    exact ⟨hf, huq, fun t ht => (hpc t ht).trans (hr t (hpc t ht ▸ ht))⟩
  · intro t u ht
    rw [ha.freed, hu]
    exact h.spawning t u (hpc t (by rw [ht]; rfl) ▸ ht)
  · intro t stage ht
    rw [ha.freed, ha.list, ha.reports, ha.frees]
    exact h.reaping t stage (hpc t (by rw [ht]; rfl) ▸ ht)
  · rw [hu, ha.fresh]
    exact h.unborn
  · rw [ha.reports, ha.frees, ha.freed, ← Nat.not_le, ha.fresh, Nat.not_le]
    exact h.once

/-- A silent event in which tasks only drop entries they answer for. -/
lemma Once.quiet (h : Once hist s) (hb : Born s') (he : Silent e) (hlist : s'.list = s.list)
    (hfresh : s'.fresh = s.fresh) (hfreed : ∀ z, (s'.proc z).freed = (s.proc z).freed)
    (hpc : ∀ t, s'.pc t = s.pc t ∨ holds (s'.pc t) = none) : Once (hist ++ [e]) s' := by
  refine .of_at hb (hlist ▸ h.nodup) fun q => (h.at q).same
    ⟨he.reports q, he.frees q, by rw [hlist], by rw [hfresh], hfreed q⟩ fun t ht => ?_
  refine (hpc t).resolve_right fun hnone => ?_
  rw [hnone] at ht
  cases ht

/-- The task `t` takes up `z` or drops it, and nothing else happens. -/
lemma Once.change (h : Once hist s) (hb : Born s') (hn : s'.list.Nodup)
    (ha : ∀ q, q ≠ z → Alike hist s hist' s' q) (hself : s'.pc t = x)
    (hx : ∀ q, holds x = some q → q = z)
    (hother : ∀ v, v ≠ t → s'.pc v = s.pc v ∨ holds (s'.pc v) = none)
    (hhold : ∀ v, v ≠ t → holds (s.pc v) ≠ some z) (hlt : z < s'.fresh)
    (hlisted : z ∈ s'.list → (s'.proc z).freed = false ∧ Untouched hist' z ∧
      (holds x = some z → x = .reaping z .found))
    (hspawning : ∀ u, x = .spawning z u → (s'.proc z).freed = false ∧ Untouched hist' z)
    (hreaping : ∀ stage, x = .reaping z stage → (s'.proc z).freed = false ∧
      (stage = .found → z ∈ s'.list) ∧
        hist'.countP (Process.reports z) = reportsBefore stage ∧ hist'.countP (Process.frees z) = 0)
    (honce : hist'.countP (Process.reports z) ≤ 1 ∧ hist'.countP (Process.frees z) ≤ 1 ∧
      ((s'.proc z).freed = true ↔ hist'.countP (Process.frees z) = 1)) : Once hist' s' := by
  have hkeep : ∀ v q, v ≠ t → holds (s'.pc v) = some q → s'.pc v = s.pc v := by
    intro v q hvt hv
    refine (hother v hvt).resolve_right fun hnone => ?_
    rw [hnone] at hv
    cases hv
  have honly : ∀ v, holds (s'.pc v) = some z → v = t := by
    intro v hv
    by_contra hvt
    exact hhold v hvt (hkeep v z hvt hv ▸ hv)
  refine .of_at hb hn fun q => ?_
  by_cases hq : q = z
  · subst hq
    have hpc : ∀ v y, s'.pc v = y → holds y = some q → x = y := by
      intro v y hv hy
      have hvt := honly v (hv ▸ hy)
      rw [← hself, ← hvt, hv]
    refine ⟨fun v v' hv hv' => (honly v hv).trans (honly v' hv').symm, fun hmem => ?_,
      fun v u hv => hspawning u (hpc v _ hv rfl), fun v stage hv => hreaping stage (hpc v _ hv rfl),
      fun hle => absurd hlt (Nat.not_lt.mpr hle), ⟨honce.1, honce.2.1, fun _ => honce.2.2⟩⟩
    obtain ⟨hf, hu, hr⟩ := hlisted hmem
    refine ⟨hf, hu, fun v hv => ?_⟩
    obtain rfl := honly v hv
    rw [hself] at hv ⊢
    exact hr hv
  · refine (h.at q).same (ha q hq) fun v hv => hkeep v q ?_ hv
    rintro rfl
    rw [hself] at hv
    exact hq (hx q hv)

/-- A waiter takes a registered zombie that nobody reaps. -/
lemma Once.claim (h : Once hist s) (he : Silent e) (hz : z ∈ s.list) (hun : s.Unclaimed z) :
    Once (hist ++ [e]) (s.setPc t (.reaping z .found)) := by
  obtain ⟨hfz, huz, -⟩ := h.listed z hz
  have hlt := h.born.list z hz
  have huz' := (he.untouched z).mpr huz
  refine h.change (z := z) (h.born.setPc fun q hq => ?_) h.nodup
    (fun q _ => ⟨he.reports q, he.frees q, Iff.rfl, Iff.rfl, rfl⟩) (update_self _ _ _)
    (fun q hq => (Option.some.inj hq).symm) (fun v hv => .inl (update_of_ne hv _ _))
    (fun v _ => hun v) hlt (fun _ => ⟨hfz, huz', fun _ => rfl⟩) nofun (fun stage hstage => ?_) ?_
  · rwa [← Option.some.inj hq]
  · cases hstage
    exact ⟨hfz, fun _ => hz, huz'⟩
  · obtain ⟨hr, hf, hiff⟩ := h.once z
    rw [he.reports, he.frees]
    exact ⟨hr, hf, hiff hlt⟩

lemma countP_other (hist : List Event) (c : ℕ) (t : Slot) (q : ProcId) (stage : ReapStage) (hq : q ≠ z) :
    (hist ++ [Event.reap c t z stage]).countP (reports q) = hist.countP (reports q) ∧
      (hist ++ [Event.reap c t z stage]).countP (frees q) = hist.countP (frees q) := by
  cases stage <;> simp [List.countP_append, Process.reports, Process.frees, hq.symm]

/-- Nobody else answers for what `t` reaps, and past the first stage it is not registered. -/
lemma Once.reaper (h : Once hist s) (hpc : s.pc t = .reaping z stage) :
    (∀ v, v ≠ t → holds (s.pc v) ≠ some z) ∧ z < s.fresh ∧ (stage ≠ .found → z ∉ s.list) := by
  have hzt : holds (s.pc t) = some z := by rw [hpc]; rfl
  refine ⟨fun v hvt hv => hvt (h.unique v t z hv hzt), h.born.pc t z (by rw [hpc]; rfl),
    fun hne hz => ?_⟩
  have hfound := (h.listed z hz).2.2 t hzt
  rw [hpc] at hfound
  cases hfound
  exact hne rfl

/-- A reaper goes on to its next stage; nobody else is concerned. -/
lemma Once.advance (h : Once hist s) (hb : Born s') {x : ReapStage}
    (hpc : s.pc t = .reaping z stage) (hnext : x ≠ .found) (hlast : stage ≠ .slotGone)
    (hcount : reportsBefore x = reportsBefore stage + if stage = .stackGone then 1 else 0)
    (hlist : s'.list = s.list.erase z) (hfresh : s'.fresh = s.fresh)
    (hfreed : ∀ q, (s'.proc q).freed = (s.proc q).freed) (hself : s'.pc t = .reaping z x)
    (hother : ∀ v, v ≠ t → s'.pc v = s.pc v ∨ holds (s'.pc v) = none) :
    Once (hist ++ [Event.reap c t z stage]) s' := by
  obtain ⟨hhold, hlt, -⟩ := h.reaper hpc
  obtain ⟨hfz, -, hr, hfreesz⟩ := h.reaping t z stage hpc
  have hfrees : (hist ++ [Event.reap c t z stage]).countP (frees z) = 0 := by
    have hno : frees z (.reap c t z stage) = false := by
      cases stage <;> first | rfl | exact absurd rfl hlast
    simp [List.countP_append, hno, hfreesz]
  have hreport : (hist ++ [Event.reap c t z stage]).countP (reports z) = reportsBefore x := by
    rw [List.countP_append, hr, hcount]
    cases stage <;> simp [Process.reports]
  have hmem : ∀ q, q ∈ s'.list ↔ q ≠ z ∧ q ∈ s.list := by
    intro q
    rw [hlist]
    exact List.Nodup.mem_erase_iff h.nodup
  refine h.change (z := z) hb (hlist ▸ h.nodup.erase z) (fun q hq => ?_) hself
    (fun q hq => (Option.some.inj hq).symm) hother hhold (hfresh ▸ hlt)
    (fun hz => absurd rfl ((hmem z).mp hz).1) nofun (fun st hst => ?_) ?_
  · obtain ⟨hreports, hfreesq⟩ := countP_other hist c t q stage hq
    refine ⟨hreports, hfreesq, ?_, by rw [hfresh], hfreed q⟩
    rw [hmem, and_iff_right hq]
  · cases hst
    rw [hfreed]
    exact ⟨hfz, fun hfound => absurd hfound hnext, hreport, hfrees⟩
  · rw [hreport, hfrees, hfreed, hfz]
    refine ⟨?_, Nat.zero_le 1, by simp⟩
    cases x <;> simp [reportsBefore]

/-- The reaper frees the entry and is done with it. -/
lemma Once.free (h : Once hist s) (hpc : s.pc t = .reaping z .slotGone) :
    Once (hist ++ [Event.reap c t z .slotGone]) (s.reapStep t z .slotGone) := by
  obtain ⟨hhold, hlt, hgone⟩ := h.reaper hpc
  obtain ⟨-, -, hr, hf⟩ := h.reaping t z .slotGone hpc
  have hfreed : ((s.reapStep t z .slotGone).proc z).freed = true := by
    show (update s.proc z _ z).freed = true
    rw [update_self]
  refine h.change (z := z) (h.born.reapStep hpc) h.nodup (fun q hq => ?_) (update_self _ _ _) nofun
    (fun v hv => .inl (update_of_ne hv _ _)) hhold hlt (fun hz => absurd hz (hgone (by simp)))
    nofun nofun ?_
  · obtain ⟨hreports, hfreesq⟩ := countP_other hist c t q .slotGone hq
    exact ⟨hreports, hfreesq, Iff.rfl, Iff.rfl, congrArg Proc.freed (update_of_ne hq _ _)⟩
  · rw [hfreed]
    simp [List.countP_append, Process.reports, Process.frees, hr, hf, reportsBefore]

/-- A new entry, which only its creator knows. -/
lemma Once.spawn (h : Once hist s) {prio : ℕ} (he : Silent e) (hb : Born (s.spawn t u prio)) :
    Once (hist ++ [e]) (s.spawn t u prio) := by
  have hnew : ((s.spawn t u prio).proc s.fresh).freed = false := by
    show (update s.proc s.fresh _ s.fresh).freed = false
    rw [update_self]
  have hun := (he.untouched s.fresh).mpr (h.unborn s.fresh le_rfl)
  refine h.change (z := s.fresh) hb h.nodup (fun q hq => ?_) (update_self _ _ _)
    (fun q hq => (Option.some.inj hq).symm) (fun v hv => ?_) (fun v _ hv => ?_) (Nat.lt_succ_self _)
    (fun hz => absurd (h.born.list _ hz) (lt_irrefl _)) (fun _ _ => ⟨hnew, hun⟩) nofun ?_
  · refine ⟨he.reports q, he.frees q, Iff.rfl, ?_, congrArg Proc.freed (update_of_ne hq _ _)⟩
    exact ⟨(Nat.le_succ _).trans, fun hle => lt_of_le_of_ne hle (Ne.symm hq)⟩
  · have hv' : (s.spawn t u prio).pc v = update s.pc u (.newborn s.fresh) v :=
      update_of_ne hv _ _
    rw [hv']
    exact setPc_drop rfl v
  · refine absurd (h.born.pc v s.fresh ?_) (lt_irrefl _)
    cases hpc : s.pc v with
    | spawning p u => rwa [hpc] at hv
    | reaping z stage => rwa [hpc] at hv
    | _ =>
      rw [hpc] at hv
      cases hv
  · rw [hun.1, hun.2, hnew]
    simp

/-- The creator hands the new entry to the registry. -/
lemma Once.register (h : Once hist s) (he : Silent e)
    (hb : Born (({ s with list := p :: s.list } : Sys).setPc t (.launching u)))
    (hpc : s.pc t = .spawning p u) :
    Once (hist ++ [e]) (({ s with list := p :: s.list } : Sys).setPc t (.launching u)) := by
  have hpt : holds (s.pc t) = some p := by rw [hpc]; rfl
  obtain ⟨hfp, hup⟩ := h.spawning t p u hpc
  have hup' := (he.untouched p).mpr hup
  have hnot : p ∉ s.list := by
    intro hp
    have hfound := (h.listed p hp).2.2 t hpt
    rw [hpc] at hfound
    cases hfound
  refine h.change (z := p) hb (List.nodup_cons.mpr ⟨hnot, h.nodup⟩) (fun q hq => ?_)
    (update_self _ _ _) nofun (fun v hv => .inl (update_of_ne hv _ _))
    (fun v hvt hv => hvt (h.unique v t p hv hpt)) (h.born.pc t p (by rw [hpc]; rfl))
    (fun _ => ⟨hfp, hup', nofun⟩) nofun nofun ?_
  · exact ⟨he.reports q, he.frees q, List.mem_cons.trans (or_iff_right hq), Iff.rfl, rfl⟩
  · rw [hup'.1, hup'.2]
    exact ⟨Nat.zero_le 1, Nat.zero_le 1, by simpa using hfp⟩

lemma exitStep_same {stage : ExitStage} : (s.exitStep c t p stage).list = s.list ∧
    (s.exitStep c t p stage).fresh = s.fresh ∧
    ∀ q, ((s.exitStep c t p stage).proc q).freed = (s.proc q).freed := by
  cases stage with
  | begun =>
    refine ⟨reparent_list, reparent_fresh, fun q => ?_⟩
    show (update (s.reparentChildrenLocked p).proc p _ q).freed = _
    by_cases hq : q = p
    · subst hq
      rw [update_self]
      exact (reparent_rehomed q).freed
    · rw [update_of_ne hq]
      exact (reparent_rehomed q).freed
  | reparented => exact ⟨rfl, rfl, fun _ => rfl⟩
  | marked => exact ⟨rfl, rfl, fun _ => rfl⟩
  | woken => exact ⟨rfl, rfl, fun _ => rfl⟩

/-- The same with the slot `u` reset before. -/
lemma setPc_drop₂ (hx : holds x = none) (v : Slot) :
    update (update s.pc u .idle) t x v = s.pc v ∨
      holds (update (update s.pc u .idle) t x v) = none := by
  by_cases hv : v = t
  · rw [hv, update_self]
    exact .inr hx
  · rw [update_of_ne hv]
    exact setPc_drop rfl v

/-- An exit carries its own process, which it does not answer for. -/
lemma exitStep_pc {stage : ExitStage} (v : Slot) : (s.exitStep c t p stage).pc v = s.pc v ∨
    holds ((s.exitStep c t p stage).pc v) = none := by
  cases stage with
  | begun =>
    have hdrop := setPc_drop (s := s.reparentChildrenLocked p) (t := t)
      (x := .exiting p .reparented) rfl v
    rw [reparent_pc] at hdrop
    have hpc : (s.exitStep c t p .begun).pc = update s.pc t (.exiting p .reparented) := by
      show update (s.reparentChildrenLocked p).pc t _ = _
      rw [reparent_pc]
    rwa [hpc]
  | reparented => exact setPc_drop rfl v
  | marked => exact setPc_drop rfl v
  | woken => exact setPc_drop rfl v

/-- Each stage of a reap adds to the history what it has to. -/
lemma once_reap (h : Once hist s) (hpc : s.pc t = .reaping z stage) :
    Once (hist ++ [.reap c t z stage]) (s.reapStep t z stage) := by
  have hb : Born (s.reapStep t z stage) := h.born.reapStep hpc
  -- past the first stage the entry is no longer registered
  have herase : stage ≠ .found → s.list = s.list.erase z := by
    intro hne
    refine (List.erase_of_not_mem fun hz => ?_).symm
    have hfound := (h.listed z hz).2.2 t (by rw [hpc]; rfl)
    rw [hpc] at hfound
    cases hfound
    exact hne rfl
  have hsame : ∀ (f : Proc → Proc), (∀ x, (f x).freed = x.freed) → ∀ q,
      (update s.proc z (f (s.proc z)) q).freed = (s.proc q).freed := by
    intro f hf q
    by_cases hq : q = z
    · subst hq
      rw [update_self, hf]
    · rw [update_of_ne hq]
  have hother : ∀ (x : Pc) v, v ≠ t →
      update s.pc t x v = s.pc v ∨ holds (update s.pc t x v) = none :=
    fun x v hv => .inl (update_of_ne hv _ _)
  cases stage with
  | found =>
    exact h.advance hb hpc (x := .deleted) (by simp) (by simp) rfl rfl rfl (fun _ => rfl)
      (update_self _ _ _) (hother _)
  | deleted =>
    exact h.advance hb hpc (x := .spaceGone) (by simp) (by simp) rfl (herase (by simp)) rfl
      (hsame (fun x => { x with rootPa := false }) fun _ => rfl) (update_self _ _ _)
      (hother _)
  | spaceGone =>
    exact h.advance hb hpc (x := .stackGone) (by simp) (by simp) rfl (herase (by simp)) rfl
      (hsame (fun x => { x with kstack := false }) fun _ => rfl) (update_self _ _ _)
      (hother _)
  | stackGone =>
    exact h.advance hb hpc (x := .reported) (by simp) (by simp) rfl (herase (by simp)) rfl
      (fun _ => rfl) (update_self _ _ _) (hother _)
  | reported =>
    obtain ⟨hproc, hlist, -, hfresh⟩ := releaseSlot_same (s := s) (z := z)
    refine h.advance hb hpc (x := .slotGone) (by simp) (by simp) rfl
      (hlist.trans (herase (by simp))) hfresh (fun q => ?_) (update_self _ _ _) fun v hv => ?_
    · exact congrArg Proc.freed (congrFun hproc q)
    · show update (s.releaseSlot z).pc t _ v = s.pc v ∨
        holds (update (s.releaseSlot z).pc t _ v) = none
      rw [update_of_ne hv]
      rcases releaseSlot_pc (s := s) (z := z) v with heq | heq
      · exact .inl heq
      · rw [heq]
        exact .inr rfl
  | slotGone => exact h.free hpc

/-- Only a zombie that nobody has claimed begins to be reaped. -/
lemma once_step (h : Once hist s) (hclaims : s.Claims e) (hstep : Step s e s') :
    Once (hist ++ [e]) s' := by
  have hb : Born s' := born_step h.born hstep
  obtain ⟨hen, rfl⟩ := hstep
  cases e with
  | mach a =>
    have hsched := act_mach s a
    refine h.quiet hb (fun _ => ⟨rfl, rfl⟩) hsched.list hsched.fresh (fun z => ?_) fun v => ?_
    · rw [hsched.proc]
    · rcases hsched.pc v with heq | heq
      · exact .inl heq
      · rw [heq]
        exact .inr rfl
  | spawn c t u prio => exact h.spawn (fun _ => ⟨rfl, rfl⟩) hb
  | register c t p u => exact h.register (fun _ => ⟨rfl, rfl⟩) hb hen.2
  | launch c t u =>
    exact h.quiet hb (fun _ => ⟨rfl, rfl⟩) rfl rfl (fun _ => rfl) (setPc_drop rfl)
  | adopt c t p =>
    exact h.quiet hb (fun _ => ⟨rfl, rfl⟩) rfl rfl (fun _ => rfl) (setPc_drop rfl)
  | threadCreate c t u p prio =>
    exact h.quiet hb (fun _ => ⟨rfl, rfl⟩) rfl rfl (fun _ => rfl) (setPc_drop₂ rfl)
  | threadAttach c t u p kstack =>
    cases kstack with
    | some k => exact h.quiet hb (fun _ => ⟨rfl, rfl⟩) rfl rfl (fun _ => rfl) (setPc_drop rfl)
    | none => exact h.quiet hb (fun _ => ⟨rfl, rfl⟩) rfl rfl (fun _ => rfl) (setPc_drop₂ rfl)
  | reclaim c t u =>
    exact h.quiet hb (fun _ => ⟨rfl, rfl⟩) rfl rfl (fun _ => rfl) (setPc_drop rfl)
  | exitBegin c t p code =>
    refine h.quiet hb (fun _ => ⟨rfl, rfl⟩) rfl rfl (fun q => ?_) (setPc_drop rfl)
    show (update s.proc p _ q).freed = _
    by_cases hq : q = p
    · subst hq
      rw [update_self]
    · rw [update_of_ne hq]
  | exit c t p stage =>
    exact h.quiet hb (fun _ => ⟨rfl, rfl⟩) exitStep_same.1 exitStep_same.2.1 exitStep_same.2.2
      exitStep_pc
  | findZombie c t p want z =>
    exact h.claim (fun _ => ⟨rfl, rfl⟩) (mem_of_findZombie hen.2.2.2) hclaims
  | kernelFind c t pid z =>
    exact h.quiet hb (fun _ => ⟨rfl, rfl⟩) rfl rfl (fun _ => rfl) (setPc_drop rfl)
  | kernelSettled c t z =>
    by_cases hsettled : s.threadsSettled z = true
    · obtain ⟨hun, hz⟩ := hclaims hsettled
      have hact : s.act (.kernelSettled c t z) = s.setPc t (.reaping z .found) := by
        show s.setPc t (if s.threadsSettled z then .reaping z .found else .idle) = _
        rw [if_pos hsettled]
      rw [hact]
      exact h.claim (fun _ => ⟨rfl, rfl⟩) hz hun
    · have hact : s.act (.kernelSettled c t z) = s.setPc t .idle := by
        show s.setPc t (if s.threadsSettled z then .reaping z .found else .idle) = _
        rw [if_neg hsettled]
      rw [hact] at hb ⊢
      exact h.quiet hb (fun _ => ⟨rfl, rfl⟩) rfl rfl (fun _ => rfl) (setPc_drop rfl)
  | reap c t z stage => exact once_reap h hen.2
  | noteFind c t pid p =>
    exact h.quiet hb (fun _ => ⟨rfl, rfl⟩) rfl rfl (fun _ => rfl) (setPc_drop rfl)
  | noteStore c t p =>
    exact h.quiet hb (fun _ => ⟨rfl, rfl⟩) rfl rfl (fun _ => rfl) (setPc_drop rfl)

lemma Init.once (h : s.Init) : Once [] s := by
  constructor
  · exact h.born
  · rw [h.list]
    exact List.nodup_nil
  · intro t t' z ht
    rw [h.pc t] at ht
    cases ht
  · intro z hz
    rw [h.list] at hz
    cases hz
  · intro t z u ht
    rw [h.pc t] at ht
    cases ht
  · intro t z stage ht
    rw [h.pc t] at ht
    cases ht
  · exact fun _ _ => ⟨rfl, rfl⟩
  · intro z
    refine ⟨Nat.zero_le _, Nat.zero_le _, fun hz => ?_⟩
    rw [h.fresh] at hz
    exact absurd hz (Nat.not_lt_zero z)

lemma run_once {s₀ : Sys} {es : List Event} (h₀ : s₀.Init)
    (hrun : Run (Guarded Claims Step) s₀ es s) : Once es s :=
  hrun.invariant_history (I := Once) h₀.once fun _ _ _ _ hinv hstep =>
    once_step hinv hstep.1 hstep.2

/-- Each child is reported to one waiter at most and freed once at most, a finished reap has
freed it once, and no waiter touches an entry that has been freed. -/
theorem reaped_once {s₀ : Sys} {es : List Event} (h₀ : s₀.Init)
    (hrun : Run (Guarded Claims Step) s₀ es s) :
    (∀ z, es.countP (reports z) ≤ 1 ∧ es.countP (frees z) ≤ 1) ∧
      (∀ z, z < s.fresh → ((s.proc z).freed = true ↔ es.countP (frees z) = 1)) ∧
      (∀ z ∈ s.list, (s.proc z).freed = false) ∧
      ∀ c t z stage s', Step s (.reap c t z stage) s' → (s.proc z).freed = false ∧
        (stage = .slotGone → es.countP (reports z) = 1 ∧ (s'.proc z).freed = true) := by
  have hinv := run_once h₀ hrun
  refine ⟨fun z => ⟨(hinv.once z).1, (hinv.once z).2.1⟩, fun z => (hinv.once z).2.2,
    fun z hz => (hinv.listed z hz).1, ?_⟩
  rintro c t z stage s' ⟨hen, rfl⟩
  obtain ⟨hf, -, hr, -⟩ := hinv.reaping t z stage hen.2
  refine ⟨hf, ?_⟩
  rintro rfl
  refine ⟨hr, ?_⟩
  show (update s.proc z _ z).freed = true
  rw [update_self]

/-- Two kernel tasks look the same zombie up before either of them takes it off the registry. -/
def rivalEvents : List Event :=
  [.mach (.create 0 10), .mach (.dispatch 0), .spawn 0 0 1 10, .register 0 0 0 1, .launch 0 0 1,
    .mach (.dispatch 1), .adopt 1 1 0, .exitBegin 1 1 0 7, .exit 1 1 0 .begun,
    .exit 1 1 0 .reparented, .exit 1 1 0 .marked, .exit 1 1 0 .woken, .mach (.create 2 10),
    .mach (.dispatch 1), .kernelFind 0 0 1 0, .kernelFind 1 2 1 0, .kernelSettled 0 0 0,
    .kernelSettled 1 2 0, .reap 0 0 0 .found, .reap 0 0 0 .deleted, .reap 0 0 0 .spaceGone,
    .reap 0 0 0 .stackGone, .reap 0 0 0 .reported, .reap 0 0 0 .slotGone, .reap 1 2 0 .found,
    .reap 1 2 0 .deleted, .reap 1 2 0 .spaceGone, .reap 1 2 0 .stackGone, .reap 1 2 0 .reported,
    .reap 1 2 0 .slotGone]

lemma rival_run : Run Step boot rivalEvents (rivalEvents.foldl act boot) :=
  Run.of_enables (fun _ _ h => ⟨h, rfl⟩) (by decide)

/-- The exit code goes to both, and the entry is freed twice. -/
theorem reaped_once_two_waiters :
    ∃ es s, Run Step boot es s ∧ es.countP (reports 0) = 2 ∧ es.countP (frees 0) = 2 :=
  ⟨_, _, rival_run, by decide, by decide⟩

/-- One kernel task reaps the zombie, from the lookup to the end. -/
def reapedEvents : List Event :=
  [.mach (.create 0 10), .mach (.dispatch 0), .spawn 0 0 1 10, .register 0 0 0 1, .launch 0 0 1,
    .mach (.dispatch 1), .adopt 1 1 0, .exitBegin 1 1 0 7, .exit 1 1 0 .begun,
    .exit 1 1 0 .reparented, .exit 1 1 0 .marked, .exit 1 1 0 .woken, .kernelFind 0 0 1 0,
    .kernelSettled 0 0 0, .reap 0 0 0 .found, .reap 0 0 0 .deleted, .reap 0 0 0 .spaceGone,
    .reap 0 0 0 .stackGone, .reap 0 0 0 .reported, .reap 0 0 0 .slotGone]

instance (s : Sys) : ∀ e, Decidable (s.Claims e)
  | .findZombie _ _ _ _ z => inferInstanceAs (Decidable (s.Unclaimed z))
  | .kernelSettled _ _ _ => inferInstanceAs (Decidable (_ → _))
  | .mach _ | .spawn _ _ _ _ | .register _ _ _ _ | .launch _ _ _ | .adopt _ _ _
  | .threadCreate _ _ _ _ _ | .threadAttach _ _ _ _ _ | .reclaim _ _ _ | .exitBegin _ _ _ _
  | .exit _ _ _ _ | .kernelFind _ _ _ _ | .reap _ _ _ _ | .noteFind _ _ _ _
  | .noteStore _ _ _ => inferInstanceAs (Decidable True)

lemma reaped_run : Run (Guarded Claims Step) boot reapedEvents (reapedEvents.foldl act boot) := by
  have henables : Enables (fun s e => s.Claims e ∧ s.Enabled e) act boot reapedEvents := by
    decide
  exact Run.of_enables (fun _ _ h => ⟨h.1, h.2, rfl⟩) henables

theorem reaped_once_kernel : ((reapedEvents.foldl act boot).proc 0).freed = true :=
  ((reaped_once boot_init reaped_run).2.1 0 (by decide)).mpr (by decide)

end Sys
end Process
end MobilePhoneOs
