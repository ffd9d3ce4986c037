import MobilePhoneOs.Kernel.ProcTheorems

/-!
# What a reap frees has left its cpu

`threads_settled` looks at the threads of a zombie but not at its leader, and the `parked` flag
it trusts is never taken back when a thread is dispatched again. In a run that makes up for
both, the tasks of a zombie are dead and off their cpus from the lookup to the last free.
-/

namespace MobilePhoneOs

open Function (update update_self update_of_ne)

namespace Sched
namespace Machine

variable {m m' : Machine} {c c' : ℕ} {t u : Slot}

/-- The task is dead and no cpu executes it. -/
def Parted (m : Machine) (t : Slot) : Prop := (m.task t).state = .dead ∧ ∀ c, ¬ m.Runs c t

lemma runs_of_cpu (h : m'.cpu = m.cpu) : m'.Runs c u ↔ m.Runs c u := by
  unfold Runs
  rw [h]

/-- Only a dispatch puts a task on a cpu, and only a ready one. -/
lemma act_runs {a : Act} (h : (m.act a).Runs c u) :
    m.Runs c u ∨ a = .dispatch c ∧ (m.task u).state = .ready := by
  cases a with
  | clock => exact .inl h
  | dispatch d =>
    have hrun : (m.schedRun d).Runs c u := h
    unfold schedRun at hrun
    split at hrun
    · next t hpick =>
      unfold Runs at hrun
      by_cases hc : c = d
      · rw [hc, modifyCpu_self] at hrun
        obtain rfl := Option.some.inj hrun.2
        exact .inr ⟨by rw [hc], pickNext_ready hpick⟩
      · rw [modifyCpu_ne _ hc] at hrun
        exact .inl hrun
    · unfold Runs at hrun
      by_cases hc : c = d
      · rw [hc, modifyCpu_self] at hrun
        exact absurd hrun.2 (by simp)
      · rw [modifyCpu_ne _ hc] at hrun
        exact .inl hrun
  | tick d =>
    have htick := foldl_ticked (List.finRange MAX_TASKS) m
    have hrun : (m.schedTick d).Runs c u := h
    unfold schedTick at hrun
    generalize (List.finRange MAX_TASKS).foldl tickStep m = m₁ at htick hrun
    rw [(tickQuantum_same m₁ d).2.2] at hrun
    exact .inl ((runs_of_cpu htick.cpu).mp hrun)
  | postIrq d =>
    have hrun : (m.schedPostIrq d).Runs c u := h
    unfold schedPostIrq at hrun
    split at hrun
    · exact .inl hrun
    · split_ifs at hrun with hflag
      · exact .inl hrun
      · rw [schedPark_runs] at hrun
        obtain ⟨hne, hrun⟩ := hrun
        have hcpu : (m.modifyCpu d fun p => { p with needResched := false }).Runs c u := by
          split_ifs at hrun with hstate
          · exact (runs_of_cpu rfl).mp hrun
          · exact hrun
        unfold Runs at hcpu
        rw [modifyCpu_ne _ hne] at hcpu
        exact .inl hcpu
  | yield d t => exact .inl ((runs_of_cpu rfl).mp (schedPark_runs.mp h).2)
  | exit d t => exact .inl ((runs_of_cpu rfl).mp (schedPark_runs.mp h).2)
  | sleepArm d t msecs => exact .inl ((runs_of_cpu rfl).mp h)
  | sleepPark d t => exact .inl ((runs_of_cpu rfl).mp (schedPark_runs.mp h).2)
  | park d t n => exact .inl ((runs_of_cpu rfl).mp (schedPark_runs.mp h).2)
  | pollPark d t timeoutMs => exact .inl ((runs_of_cpu rfl).mp (schedPark_runs.mp h).2)
  | linkUnlocked d t q =>
    cases q with
    | some n => exact .inl ((runs_of_cpu rfl).mp h)
    | none => exact .inl ((runs_of_cpu rfl).mp h)
  | barePark d t => exact .inl ((runs_of_cpu rfl).mp (schedPark_runs.mp h).2)
  | wake w d n =>
    obtain ⟨-, -, -, -, -, hruns⟩ := wake_swept (m := m) (c := d) (q := w.queue n) w
    exact .inl ((hruns c u).mp h)
  | create t prio => exact .inl ((runs_of_cpu rfl).mp h)

/-- A section that spares the dead leaves them dead and off their cpus. -/
lemma Parted.act {a : Act} (h : m.Parted t) (hen : m.Enabled a) (hspares : m.Spares (.sched a)) :
    (m.act a).Parted t := by
  have hfinal := (final_iff_spares (a := .sched a) ⟨hen, rfl⟩).mpr hspares t (.inl h.1)
  have hused : ((m.act a).task t).state ≠ .unused := by
    intro hun
    have hdead := (act_kept a).used t hun
    rw [h.1] at hdead
    cases hdead
  refine ⟨?_, fun c hrun => ?_⟩
  · rcases hfinal with hgone | hcreates
    · exact hgone.resolve_right hused
    · -- a task is created in an unused slot only
      cases a with
      | create v prio =>
        have hvt : v = t := hcreates
        have hun : (m.task v).state = .unused := hen
        rw [hvt, h.1] at hun
        cases hun
      | _ => exact hcreates.elim
  · rcases act_runs hrun with hold | ⟨-, hready⟩
    · exact h.2 c hold
    · rw [h.1] at hready
      cases hready

instance (m : Machine) (t : Slot) : Decidable (m.Gone t) := inferInstanceAs (Decidable (_ ∨ _))

instance (m : Machine) : ∀ a, Decidable (m.Spares a)
  | .sched (.wake _ _ _) => inferInstanceAs (Decidable (∀ _ ∈ _, _ ∧ _))
  | .sched (.yield _ _) | .sched (.sleepPark _ _) | .sched (.park _ _ _)
  | .sched (.pollPark _ _ _) | .sched (.linkUnlocked _ _ _) | .launch _ =>
    inferInstanceAs (Decidable (¬ Gone _ _))
  | .sched .clock | .sched (.dispatch _) | .sched (.tick _) | .sched (.postIrq _)
  | .sched (.exit _ _) | .sched (.sleepArm _ _ _) | .sched (.barePark _ _)
  | .sched (.create _ _) | .createDeferred _ _ | .attach _ _ _ | .kill _ _ | .reclaim _
  | .reapSlot _ => inferInstanceAs (Decidable True)

/-- A change of the table that leaves this task dead, or does not touch it. -/
lemma Parted.congr (h : m.Parted t) (hcpu : m'.cpu = m.cpu)
    (hstate : (m'.task t).state = (m.task t).state ∨ (m'.task t).state = .dead) : m'.Parted t := by
  refine ⟨?_, fun c hrun => h.2 c ((runs_of_cpu hcpu).mp hrun)⟩
  rcases hstate with heq | hdead
  · exact heq.trans h.1
  · exact hdead

end Machine
end Sched

namespace Process

open Sched (Slot ProcId TaskState Machine Act)
open Sched.Machine (Kept Parted modifyTask_self modifyTask_ne)

namespace Sys

variable {s s' : Sys} {e : Event} {c : ℕ} {t u v : Slot} {p q z : ProcId} {hist : List Event}

/-! ## What the slots are used for -/

/-- The task sets nothing up. -/
def plain : Pc → Prop
  | .newborn _ | .spawning _ _ | .threading _ _ => False
  | _ => True

/-- The role of a slot agrees with its fields, with the entries and with the tasks that are
setting the slot up. -/
structure Roles (s : Sys) : Prop where
  free : ∀ t, (s.m.task t).state = .unused → s.role t = .free
  spare : ∀ t, s.role t = .free ∨ s.role t = .kernel →
    (s.m.task t).proc = none ∧ (s.m.task t).tKstack = none
  leader : ∀ t p, s.role t = .leader p → (s.proc p).task = some t ∧ p < s.fresh ∧
    (s.m.task t).tKstack = none ∧ ((s.m.task t).proc = none ∨ (s.m.task t).proc = some p)
  thread : ∀ t p, s.role t = .thread p →
    ((s.m.task t).proc = none ∧ (s.m.task t).tKstack = none) ∨
      ((s.m.task t).proc = some p ∧ (s.m.task t).tKstack ≠ none)
  newborn : ∀ t p, s.pc t = .newborn p → s.role t = .leader p
  spawning : ∀ t p u, s.pc t = .spawning p u → s.role u = .leader p
  threading : ∀ t p u, s.pc t = .threading p u → s.role u = .thread p ∧
    (s.m.task t).proc = some p ∧ (s.m.task u).proc = none ∧ (s.m.task u).tKstack = none
  unique : ∀ t t' p p' u, s.pc t = .threading p u → s.pc t' = .threading p' u → t = t'
  listed : ∀ z ∈ s.list, ∃ u, s.role u = .leader z

/-- A task belongs to the process that it is a leader or a thread of. -/
lemma Roles.member (h : Roles s) (ht : (s.m.task t).proc = some p) :
    s.role t = .leader p ∨ s.role t = .thread p ∧ (s.m.task t).tKstack ≠ none := by
  cases hrole : s.role t with
  | free =>
    rw [(h.spare t (.inl hrole)).1] at ht
    cases ht
  | kernel =>
    rw [(h.spare t (.inr hrole)).1] at ht
    cases ht
  | leader q =>
    obtain ⟨-, -, -, hnone | hq⟩ := h.leader t q hrole
    · rw [hnone] at ht
      cases ht
    · rw [hq] at ht
      rw [Option.some.inj ht]
      exact .inl rfl
  | thread q =>
    rcases h.thread t q hrole with ⟨hnone, -⟩ | ⟨hq, hstack⟩
    · rw [hnone] at ht
      cases ht
    · rw [hq] at ht
      rw [Option.some.inj ht]
      exact .inr ⟨rfl, hstack⟩

/-- A slot with a stack of its own is a thread's. -/
lemma Roles.thread_of_stack (h : Roles s) (ht : (s.m.task t).tKstack ≠ none) :
    ∃ p, s.role t = .thread p := by
  cases hrole : s.role t with
  | free => exact absurd (h.spare t (.inl hrole)).2 ht
  | kernel => exact absurd (h.spare t (.inr hrole)).2 ht
  | leader q => exact absurd (h.leader t q hrole).2.2.1 ht
  | thread q => exact ⟨q, rfl⟩

/-- Nothing that the roles speak of changes. -/
lemma Roles.kept (h : Roles s) (hm : Kept s.m s'.m) (hrole : s'.role = s.role)
    (htask : ∀ p, (s'.proc p).task = (s.proc p).task) (hfresh : s'.fresh = s.fresh)
    (hlist : ∀ z ∈ s'.list, z ∈ s.list) (hpc : ∀ t, s'.pc t = s.pc t ∨ plain (s'.pc t)) :
    Roles s' := by
  have hold : ∀ t, ¬ plain (s'.pc t) → s'.pc t = s.pc t := fun t ht => (hpc t).resolve_right ht
  constructor
  · intro t ht
    rw [hrole]
    exact h.free t (hm.used t ht)
  · intro t ht
    rw [hrole] at ht
    rw [hm.proc, hm.tKstack]
    exact h.spare t ht
  · intro t p ht
    rw [hrole] at ht
    rw [hm.proc, hm.tKstack, htask, hfresh]
    exact h.leader t p ht
  · intro t p ht
    rw [hrole] at ht
    rw [hm.proc, hm.tKstack]
    exact h.thread t p ht
  · intro t p ht
    rw [hrole]
    exact h.newborn t p (hold t (by rw [ht]; exact id) ▸ ht)
  · intro t p u ht
    rw [hrole]
    exact h.spawning t p u (hold t (by rw [ht]; exact id) ▸ ht)
  · intro t p u ht
    rw [hrole, hm.proc, hm.proc, hm.tKstack]
    exact h.threading t p u (hold t (by rw [ht]; exact id) ▸ ht)
  · intro t t' p p' u ht ht'
    exact h.unique t t' p p' u (hold t (by rw [ht]; exact id) ▸ ht)
      (hold t' (by rw [ht']; exact id) ▸ ht')
  · intro z hz
    rw [hrole]
    exact h.listed z (hlist z hz)

/-- A slot that nobody refers to is given back. -/
lemma Roles.giveBack (h : Roles s) (hrole : s'.role = update s.role u .free)
    (hm : ∀ v, v ≠ u → s'.m.task v = s.m.task v) (hproc : (s'.m.task u).proc = none)
    (hstack : (s'.m.task u).tKstack = none)
    (htask : ∀ p, (s'.proc p).task = (s.proc p).task) (hfresh : s'.fresh = s.fresh)
    (hlist : ∀ z ∈ s'.list, z ∈ s.list ∧ s.role u ≠ .leader z)
    (hpc : ∀ t, plain (s'.pc t) ∨ (t ≠ u ∧ s'.pc t = s.pc t ∧ (∀ p, s.pc t ≠ .spawning p u) ∧
      ∀ p, s.pc t ≠ .threading p u)) : Roles s' := by
  have hself : s'.role u = .free := by rw [hrole, update_self]
  have hother : ∀ v, v ≠ u → s'.role v = s.role v := by
    intro v hv
    rw [hrole, update_of_ne hv]
  have hlive : ∀ v, s'.role v ≠ .free → v ≠ u := by
    rintro v hv rfl
    exact hv hself
  have hold : ∀ t, ¬ plain (s'.pc t) → t ≠ u ∧ s'.pc t = s.pc t ∧ (∀ p, s.pc t ≠ .spawning p u) ∧
      ∀ p, s.pc t ≠ .threading p u := fun t ht => (hpc t).resolve_left ht
  constructor
  · intro t ht
    by_cases htu : t = u
    · rw [htu]
      exact hself
    · rw [hm t htu] at ht
      rw [hother t htu]
      exact h.free t ht
  · intro t ht
    by_cases htu : t = u
    · rw [htu]
      exact ⟨hproc, hstack⟩
    · rw [hother t htu] at ht
      rw [hm t htu]
      exact h.spare t ht
  · intro t p ht
    have htu := hlive t (by simp [ht])
    rw [hother t htu] at ht
    rw [hm t htu, htask, hfresh]
    exact h.leader t p ht
  · intro t p ht
    have htu := hlive t (by simp [ht])
    rw [hother t htu] at ht
    rw [hm t htu]
    exact h.thread t p ht
  · intro t p ht
    obtain ⟨htu, heq, -⟩ := hold t (by rw [ht]; exact id)
    rw [hother t htu]
    exact h.newborn t p (heq ▸ ht)
  · intro t p w ht
    obtain ⟨-, heq, hsp, -⟩ := hold t (by rw [ht]; exact id)
    rw [heq] at ht
    have hwu : w ≠ u := by
      rintro rfl
      exact hsp p ht
    rw [hother w hwu]
    exact h.spawning t p w ht
  · intro t p w ht
    obtain ⟨htu, heq, -, hth⟩ := hold t (by rw [ht]; exact id)
    rw [heq] at ht
    have hwu : w ≠ u := by
      rintro rfl
      exact hth p ht
    rw [hother w hwu, hm t htu, hm w hwu]
    exact h.threading t p w ht
  · intro t t' p p' w ht ht'
    obtain ⟨-, heq, -⟩ := hold t (by rw [ht]; exact id)
    obtain ⟨-, heq', -⟩ := hold t' (by rw [ht']; exact id)
    exact h.unique t t' p p' w (heq ▸ ht) (heq' ▸ ht')
  · intro z hz
    obtain ⟨hz, hne⟩ := hlist z hz
    obtain ⟨w, hw⟩ := h.listed z hz
    have hwu : w ≠ u := by
      rintro rfl
      exact hne hw
    exact ⟨w, (hother w hwu).trans hw⟩

/-- An unused slot gets a role; `x` is where the task that sets it up stands then. -/
lemma Roles.reserve (h : Roles s) (hun : (s.m.task u).state = .unused) {r : Role}
    (hrole : s'.role = update s.role u r)
    (hm : ∀ v, v ≠ u → s'.m.task v = s.m.task v) (hused : (s'.m.task u).state ≠ .unused)
    (hproc : (s'.m.task u).proc = none) (hstack : (s'.m.task u).tKstack = none)
    (htask : ∀ p, p < s.fresh → (s'.proc p).task = (s.proc p).task) (hfresh : s.fresh ≤ s'.fresh)
    (hlist : s'.list = s.list)
    (hleader : ∀ p, r = .leader p → (s'.proc p).task = some u ∧ p < s'.fresh)
    (hpc : ∀ w, s'.pc w = s.pc w ∧ w ≠ u ∨ plain (s'.pc w) ∨
      (∃ p, s'.pc w = .newborn p ∧ w = u ∧ r = .leader p) ∨
      (∃ p, s'.pc w = .spawning p u ∧ r = .leader p) ∨
      ∃ p, s'.pc w = .threading p u ∧ w = t ∧ t ≠ u ∧ r = .thread p ∧
        (s.m.task t).proc = some p) : Roles s' := by
  have hfree : s.role u = .free := h.free u hun
  have hself : s'.role u = r := by rw [hrole, update_self]
  have hother : ∀ v, v ≠ u → s'.role v = s.role v := by
    intro v hv
    rw [hrole, update_of_ne hv]
  -- nothing refers to an unused slot
  have hsp : ∀ w p, s.pc w ≠ .spawning p u := by
    intro w p hw
    have hl := h.spawning w p u hw
    rw [hfree] at hl
    cases hl
  have hth : ∀ w p, s.pc w ≠ .threading p u := by
    intro w p hw
    have hl := (h.threading w p u hw).1
    rw [hfree] at hl
    cases hl
  constructor
  · intro w hw
    have hwu : w ≠ u := by
      rintro rfl
      exact hused hw
    rw [hother w hwu]
    rw [hm w hwu] at hw
    exact h.free w hw
  · intro w hw
    by_cases hwu : w = u
    · rw [hwu]
      exact ⟨hproc, hstack⟩
    · rw [hother w hwu] at hw
      rw [hm w hwu]
      exact h.spare w hw
  · intro w p hw
    by_cases hwu : w = u
    · rw [hwu] at hw ⊢
      rw [hself] at hw
      obtain ⟨ht, hp⟩ := hleader p hw
      exact ⟨ht, hp, hstack, .inl hproc⟩
    · rw [hother w hwu] at hw
      obtain ⟨ht, hp, hrest⟩ := h.leader w p hw
      rw [hm w hwu, htask p hp]
      exact ⟨ht, hp.trans_le hfresh, hrest⟩
  · intro w p hw
    by_cases hwu : w = u
    · rw [hwu]
      exact .inl ⟨hproc, hstack⟩
    · rw [hother w hwu] at hw
      rw [hm w hwu]
      exact h.thread w p hw
  · intro w p hw
    rcases hpc w with ⟨heq, hwu⟩ | hplain | ⟨q, hq, hwu, hrq⟩ | ⟨q, hq, -⟩ | ⟨q, hq, -⟩
    · rw [hother w hwu]
      exact h.newborn w p (heq ▸ hw)
    · rw [hw] at hplain
      exact hplain.elim
    · rw [hq] at hw
      cases hw
      rw [hwu, hself, hrq]
    · rw [hq] at hw
      cases hw
    · rw [hq] at hw
      cases hw
  · intro w p x hw
    rcases hpc w with ⟨heq, -⟩ | hplain | ⟨q, hq, -⟩ | ⟨q, hq, hrq⟩ | ⟨q, hq, -⟩
    · rw [heq] at hw
      have hxu : x ≠ u := by
        rintro rfl
        exact hsp w p hw
      rw [hother x hxu]
      exact h.spawning w p x hw
    · rw [hw] at hplain
      exact hplain.elim
    · rw [hq] at hw
      cases hw
    · rw [hq] at hw
      cases hw
      rw [hself, hrq]
    · rw [hq] at hw
      cases hw
  · intro w p x hw
    rcases hpc w with ⟨heq, hwu⟩ | hplain | ⟨q, hq, -⟩ | ⟨q, hq, -⟩ | ⟨q, hq, hwt, htu, hrq, hcur⟩
    · rw [heq] at hw
      have hxu : x ≠ u := by
        rintro rfl
        exact hth w p hw
      rw [hother x hxu, hm w hwu, hm x hxu]
      exact h.threading w p x hw
    · rw [hw] at hplain
      exact hplain.elim
    · rw [hq] at hw
      cases hw
    · rw [hq] at hw
      cases hw
    · rw [hq] at hw
      cases hw
      rw [hself, hrq, hwt, hm t htu]
      exact ⟨rfl, hcur, hproc, hstack⟩
  · intro w w' p p' x hw hw'
    rcases hpc w with ⟨heq, -⟩ | hplain | ⟨q, hq, -⟩ | ⟨q, hq, -⟩ | ⟨q, hq, hwt, -⟩
    · rw [heq] at hw
      rcases hpc w' with ⟨heq', -⟩ | hplain | ⟨q, hq, -⟩ | ⟨q, hq, -⟩ | ⟨q, hq, -⟩
      · exact h.unique w w' p p' x hw (heq' ▸ hw')
      · rw [hw'] at hplain
        exact hplain.elim
      · rw [hq] at hw'
        cases hw'
      · rw [hq] at hw'
        cases hw'
      · rw [hq] at hw'
        cases hw'
        exact absurd hw (hth w p)
    · rw [hw] at hplain
      exact hplain.elim
    · rw [hq] at hw
      cases hw
    · rw [hq] at hw
      cases hw
    · rw [hq] at hw
      cases hw
      rcases hpc w' with ⟨heq', -⟩ | hplain | ⟨q', hq', -⟩ | ⟨q', hq', -⟩ | ⟨q', hq', hwt', -⟩
      · rw [heq'] at hw'
        exact absurd hw' (hth w' p')
      · rw [hw'] at hplain
        exact hplain.elim
      · rw [hq'] at hw'
        cases hw'
      · rw [hq'] at hw'
        cases hw'
      · rw [hwt, hwt']
  · intro z hz
    rw [hlist] at hz
    obtain ⟨w, hw⟩ := h.listed z hz
    have hwu : w ≠ u := by
      rintro rfl
      rw [hfree] at hw
      cases hw
    exact ⟨w, (hother w hwu).trans hw⟩

/-- A slot gets its process: a leader adopts it, a thread is set up with its stack. -/
lemma Roles.assign (h : Roles s) (hrole : s'.role = s.role)
    (hm : ∀ v, v ≠ u → s'.m.task v = s.m.task v)
    (hstate : (s'.m.task u).state = (s.m.task u).state) (hproc : (s'.m.task u).proc = some p)
    (hfit : s.role u = .leader p ∧ (s'.m.task u).tKstack = none ∨
      s.role u = .thread p ∧ (s'.m.task u).tKstack ≠ none)
    (htask : s'.proc = s.proc) (hfresh : s'.fresh = s.fresh) (hlist : s'.list = s.list)
    (hpc : ∀ w, plain (s'.pc w) ∨ s'.pc w = s.pc w ∧ ∀ q, s.pc w ≠ .threading q u) : Roles s' := by
  have hold : ∀ w, ¬ plain (s'.pc w) → s'.pc w = s.pc w ∧ ∀ q, s.pc w ≠ .threading q u :=
    fun w hw => (hpc w).resolve_left hw
  constructor
  · intro w hw
    rw [hrole]
    by_cases hwu : w = u
    · rw [hwu] at hw ⊢
      exact h.free u (hstate ▸ hw)
    · rw [hm w hwu] at hw
      exact h.free w hw
  · intro w hw
    rw [hrole] at hw
    have hwu : w ≠ u := by
      rintro rfl
      rcases hfit with ⟨hr, -⟩ | ⟨hr, -⟩
      · rw [hr] at hw
        rcases hw with hw | hw <;> cases hw
      · rw [hr] at hw
        rcases hw with hw | hw <;> cases hw
    rw [hm w hwu]
    exact h.spare w hw
  · intro w q hw
    rw [hrole] at hw
    obtain ⟨ht, hq, hrest⟩ := h.leader w q hw
    rw [htask, hfresh]
    refine ⟨ht, hq, ?_⟩
    by_cases hwu : w = u
    · rw [hwu] at hw ⊢
      rcases hfit with ⟨hr, hs⟩ | ⟨hr, -⟩
      · rw [hr] at hw
        cases hw
        exact ⟨hs, .inr hproc⟩
      · rw [hr] at hw
        cases hw
    · rw [hm w hwu]
      exact hrest
  · intro w q hw
    rw [hrole] at hw
    by_cases hwu : w = u
    · rw [hwu] at hw ⊢
      rcases hfit with ⟨hr, -⟩ | ⟨hr, hs⟩
      · rw [hr] at hw
        cases hw
      · rw [hr] at hw
        cases hw
        exact .inr ⟨hproc, hs⟩
    · rw [hm w hwu]
      exact h.thread w q hw
  · intro w q hw
    rw [hrole]
    exact h.newborn w q ((hold w (by rw [hw]; exact id)).1 ▸ hw)
  · intro w q x hw
    rw [hrole]
    exact h.spawning w q x ((hold w (by rw [hw]; exact id)).1 ▸ hw)
  · intro w q x hw
    obtain ⟨heq, hth⟩ := hold w (by rw [hw]; exact id)
    rw [heq] at hw
    obtain ⟨hx, hcur, hxp, hxs⟩ := h.threading w q x hw
    have hxu : x ≠ u := by
      rintro rfl
      exact hth q hw
    rw [hrole, hm x hxu]
    refine ⟨hx, ?_, hxp, hxs⟩
    by_cases hwu : w = u
    · -- the task that sets another thread up keeps its own process
      rw [hwu] at hcur ⊢
      rw [hproc]
      rcases h.member hcur with hr | ⟨hr, -⟩
      · rcases hfit with ⟨hr', -⟩ | ⟨hr', -⟩
        · rw [hr'] at hr
          cases hr
          rfl
        · rw [hr'] at hr
          cases hr
      · rcases hfit with ⟨hr', -⟩ | ⟨hr', -⟩
        · rw [hr'] at hr
          cases hr
        · rw [hr'] at hr
          cases hr
          rfl
    · rw [hm w hwu]
      exact hcur
  · intro w w' q q' x hw hw'
    exact h.unique w w' q q' x ((hold w (by rw [hw]; exact id)).1 ▸ hw)
      ((hold w' (by rw [hw']; exact id)).1 ▸ hw')
  · intro z hz
    rw [hlist] at hz
    rw [hrole]
    exact h.listed z hz

/-! ## The tasks of a zombie -/

/-- The leader and every thread of the process are dead and off the cpus. -/
def Quiet (s : Sys) (z : ProcId) : Prop :=
  (∀ u, (s.proc z).task = some u → s.m.Parted u) ∧
    ∀ t, (s.m.task t).proc = some z → (s.m.task t).tKstack ≠ none → s.m.Parted t

/-- The `parked` flag is not left over from before a later dispatch. -/
def FlagTrue (s : Sys) (t : Slot) : Prop := (s.m.task t).parked = true → ∀ c, ¬ s.m.Runs c t

/-- What `threads_settled` leaves open: the leader has left its cpu for good, and the flags of
the threads are true. -/
def Drained (s : Sys) (z : ProcId) : Prop :=
  (∀ u, (s.proc z).task = some u → s.m.Parted u) ∧
    ∀ t, (s.m.task t).proc = some z → s.FlagTrue t

/-- The two together are all that the frees need. -/
lemma Drained.quiet (h : s.Drained z) (hsettled : s.threadsSettled z = true) : s.Quiet z := by
  refine ⟨h.1, fun t hproc hstack => ?_⟩
  have ht := List.all_eq_true.mp hsettled t (List.mem_finRange t)
  have hdead : (s.m.task t).state = .dead ∧ (s.m.task t).parked = true := by
    simpa [hproc, hstack] using ht
  exact ⟨hdead.1, h.2 t hproc hdead.2⟩

/-- A waiter commits to a registered and drained zombie that nobody else reaps, a thread is
reclaimed on a true flag, and no section brings a dead task back. -/
def Settles (s : Sys) : Event → Prop
  | .findZombie _ _ _ _ z => s.Unclaimed z ∧ s.Drained z
  | .kernelSettled _ _ z =>
    s.threadsSettled z = true → s.Unclaimed z ∧ z ∈ s.list ∧ s.Drained z
  | .reclaim _ _ u => s.FlagTrue u
  | .mach a => s.m.Spares (.sched a)
  | .launch _ _ u => s.m.Spares (.launch u)
  | .exit c _ _ .marked => s.m.Spares (.sched (.wake .waitWakeAll c REAP_WQ))
  | _ => True

lemma Settles.claims (h : s.Settles e) : s.Claims e := by
  cases e with
  | findZombie c t p want z => exact h.1
  | kernelSettled c t z => exact fun hs => ⟨(h hs).1, (h hs).2.1⟩
  | _ => trivial

/-- What holds of a zombie from the commit until its slot is given back. -/
structure Safe (hist : List Event) (s : Sys) : Prop where
  once : Once hist s
  roles : Roles s
  led : ∀ t z stage, s.pc t = .reaping z stage → stage ≠ .slotGone → ∃ u, s.role u = .leader z
  quiet : ∀ t z stage, s.pc t = .reaping z stage → stage ≠ .slotGone → s.Quiet z

variable {prio : ℕ}

lemma createDeferred_ne {m : Machine} (hv : v ≠ u) :
    (m.taskCreateDeferred u prio).task v = m.task v := by
  unfold Machine.taskCreateDeferred
  rw [modifyTask_ne _ hv]
  exact update_of_ne hv _ _

lemma createDeferred_self {m : Machine} :
    ((m.taskCreateDeferred u prio).task u).state = .blocked ∧
      ((m.taskCreateDeferred u prio).task u).tKstack = none := by
  unfold Machine.taskCreateDeferred
  rw [modifyTask_self]
  exact ⟨rfl, rfl⟩

lemma setProc_task (f : Proc → Proc) (hf : ∀ x, (f x).task = x.task) (q : ProcId) :
    ((s.setProc p f).proc q).task = (s.proc q).task := by
  rw [setProc_proc]
  by_cases hq : q = p
  · subst hq
    rw [update_self, hf]
  · rw [update_of_ne hq]

variable {x : Pc}

/-- Only the task itself moves, to a place where it sets nothing up. -/
lemma setPc_plain (hx : plain x) (v : Slot) :
    update s.pc t x v = s.pc v ∨ plain (update s.pc t x v) := by
  by_cases hv : v = t
  · rw [hv, update_self]
    exact .inr hx
  · exact .inl (update_of_ne hv _ _)

section

variable (h : Roles s)
include h

lemma Roles.setPc (hx : plain x) : Roles (s.setPc t x) :=
  h.kept Kept.rfl' rfl (fun _ => rfl) rfl (fun _ => id) (setPc_plain hx)

lemma Roles.setMachine {m : Machine} (hm : Kept s.m m) (hx : plain x) :
    Roles ((s.setMachine m).setPc t x) :=
  h.kept hm rfl (fun _ => rfl) rfl (fun _ => id) (setPc_plain hx)

lemma Roles.setProc {f : Proc → Proc} (hf : ∀ x, (f x).task = x.task)
    (hx : plain x) : Roles ((s.setProc p f).setPc t x) :=
  h.kept Kept.rfl' rfl (setProc_task f hf) rfl (fun _ => id) (setPc_plain hx)

lemma roles_spawn (hun : (s.m.task u).state = .unused) :
    Roles (s.spawn t u prio) := by
  have hspare := h.spare u (.inl (h.free u hun))
  refine h.reserve (u := u) (t := t) (r := .leader s.fresh) hun rfl (fun v hv => ?_) ?_ ?_ ?_
    (fun p hp => ?_) (Nat.le_succ _) rfl (fun p hp => ?_) fun w => ?_
  · exact createDeferred_ne hv
  · show ((s.m.taskCreateDeferred u prio).task u).state ≠ .unused
    rw [createDeferred_self.1]
    simp
  · show ((s.m.taskCreateDeferred u prio).task u).proc = none
    rw [createDeferred_proc]
    exact hspare.1
  · exact createDeferred_self.2
  · show (update s.proc s.fresh _ p).task = _
    rw [update_of_ne hp.ne]
  · cases hp
    refine ⟨?_, Nat.lt_succ_self _⟩
    show (update s.proc s.fresh _ s.fresh).task = some u
    rw [update_self]
  · show update (update s.pc u (.newborn s.fresh)) t (.spawning s.fresh u) w = _ ∧ _ ∨
      plain (update (update s.pc u (.newborn s.fresh)) t (.spawning s.fresh u) w) ∨ _
    by_cases hwt : w = t
    · refine .inr (.inr (.inr (.inl ⟨s.fresh, ?_, rfl⟩)))
      show update (update s.pc u (.newborn s.fresh)) t (.spawning s.fresh u) w = _
      rw [hwt, update_self]
    · rw [update_of_ne hwt]
      by_cases hwu : w = u
      · refine .inr (.inr (.inl ⟨s.fresh, ?_, hwu, rfl⟩))
        show update (update s.pc u (.newborn s.fresh)) t (.spawning s.fresh u) w = _
        rw [update_of_ne hwt, hwu, update_self]
      · rw [update_of_ne hwu]
        exact .inl ⟨rfl, hwu⟩

lemma roles_threadCreate (hcur : s.procCurrent t = some p)
    (hun : (s.m.task u).state = .unused) : Roles (s.threadCreate t u p prio) := by
  have hspare := h.spare u (.inl (h.free u hun))
  have htu : t ≠ u := by
    rintro rfl
    exact absurd (hspare.1.symm.trans hcur) (by simp)
  refine h.reserve (u := u) (t := t) (r := .thread p) hun rfl (fun v hv => ?_) ?_ ?_ ?_
    (fun _ _ => rfl) le_rfl rfl (fun q hq => ?_) fun w => ?_
  · exact createDeferred_ne hv
  · show ((s.m.taskCreateDeferred u prio).task u).state ≠ .unused
    rw [createDeferred_self.1]
    simp
  · show ((s.m.taskCreateDeferred u prio).task u).proc = none
    rw [createDeferred_proc]
    exact hspare.1
  · exact createDeferred_self.2
  · cases hq
  · have hpc : (s.threadCreate t u p prio).pc
        = update (update s.pc u .idle) t (.threading p u) := rfl
    rw [hpc]
    by_cases hwt : w = t
    · rw [hwt, update_self]
      exact .inr (.inr (.inr (.inr ⟨p, rfl, rfl, htu, rfl, hcur⟩)))
    · rw [update_of_ne hwt]
      by_cases hwu : w = u
      · rw [hwu, update_self]
        exact .inr (.inl trivial)
      · rw [update_of_ne hwu]
        exact .inl ⟨rfl, hwu⟩

lemma roles_create (hun : (s.m.task t).state = .unused) :
    Roles (s.act (.mach (.create t prio))) := by
  have hspare := h.spare t (.inl (h.free t hun))
  have hkept : Kept s.m (s.m.taskCreate t prio) := Sched.Machine.taskPrime_kept
  refine h.reserve (u := t) (t := t) (r := .kernel) hun rfl (fun v hv => ?_) ?_ ?_ ?_
    (fun _ _ => rfl) le_rfl rfl (fun q hq => ?_) fun w => ?_
  · exact update_of_ne hv _ _
  · show ((s.m.taskPrime t prio).task t).state ≠ .unused
    have hself : (s.m.taskPrime t prio).task t = _ := update_self _ _ _
    rw [hself]
    simp
  · exact (hkept.proc t).trans hspare.1
  · exact (hkept.tKstack t).trans hspare.2
  · cases hq
  · have hpc : (s.act (.mach (.create t prio))).pc = update s.pc t .idle := rfl
    rw [hpc]
    by_cases hwt : w = t
    · rw [hwt, update_self]
      exact .inr (.inl trivial)
    · rw [update_of_ne hwt]
      exact .inl ⟨rfl, hwt⟩

lemma roles_adopt (hpc : s.pc t = .newborn p) : Roles (s.act (.adopt c t p)) := by
  have hrole := h.newborn t p hpc
  have hself : (s.act (.adopt c t p)).m.task t = { s.m.task t with proc := some p } :=
    update_self _ _ _
  refine h.assign (u := t) (p := p) rfl (fun v hv => update_of_ne hv _ _) ?_ ?_
    (.inl ⟨hrole, ?_⟩) rfl rfl rfl fun w => ?_
  · rw [hself]
  · rw [hself]
  · rw [hself]
    exact (h.leader t p hrole).2.2.1
  · have hpcs : (s.act (.adopt c t p)).pc = update s.pc t .idle := rfl
    rw [hpcs]
    by_cases hw : w = t
    · rw [hw, update_self]
      exact .inl trivial
    · rw [update_of_ne hw]
      refine .inr ⟨rfl, fun q hq => ?_⟩
      have hth := (h.threading w q t hq).1
      rw [hrole] at hth
      cases hth

lemma roles_attach {k : ℕ} (hpc : s.pc t = .threading p u) :
    Roles (s.threadAttach t u p (some k)) := by
  obtain ⟨hrole, -, -, -⟩ := h.threading t p u hpc
  have hself : (s.threadAttach t u p (some k)).m.task u
      = { s.m.task u with proc := some p, tKstack := some k } := update_self _ _ _
  refine h.assign (u := u) (p := p) rfl (fun v hv => update_of_ne hv _ _) ?_ ?_
    (.inr ⟨hrole, ?_⟩) rfl rfl rfl fun w => ?_
  · rw [hself]
  · rw [hself]
  · rw [hself]
    simp
  · have hpcs : (s.threadAttach t u p (some k)).pc = update s.pc t (.launching u) := rfl
    rw [hpcs]
    by_cases hw : w = t
    · rw [hw, update_self]
      exact .inl trivial
    · rw [update_of_ne hw]
      exact .inr ⟨rfl, fun q hq => hw (h.unique w t q p u hq hpc)⟩

lemma roles_attach_none (hpc : s.pc t = .threading p u) :
    Roles (s.threadAttach t u p none) := by
  obtain ⟨hrole, hcur, hproc, hstack⟩ := h.threading t p u hpc
  have hself : (s.threadAttach t u p none).m.task u = { s.m.task u with state := .unused } :=
    update_self _ _ _
  refine h.giveBack (u := u) rfl (fun v hv => update_of_ne hv _ _) ?_ ?_ (fun _ => rfl) rfl
    (fun z hz => ⟨hz, by simp [hrole]⟩) fun w => ?_
  · rw [hself]
    exact hproc
  · rw [hself]
    exact hstack
  · have hpcs : (s.threadAttach t u p none).pc
        = update (update s.pc u .idle) t .idle := rfl
    rw [hpcs]
    by_cases hw : w = t
    · rw [hw, update_self]
      exact .inl trivial
    · rw [update_of_ne hw]
      by_cases hwu : w = u
      · rw [hwu, update_self]
        exact .inl trivial
      · rw [update_of_ne hwu]
        refine .inr ⟨hwu, rfl, fun q hq => ?_, fun q hq => hw (h.unique w t q p u hq hpc)⟩
        have hl := h.spawning w q u hq
        rw [hrole] at hl
        cases hl

lemma roles_reclaim (hstack : (s.m.task u).tKstack ≠ none) :
    Roles (s.act (.reclaim c t u)) := by
  obtain ⟨p, hrole⟩ := h.thread_of_stack hstack
  have hself : (s.act (.reclaim c t u)).m.task u
      = { s.m.task u with state := .unused, proc := none, parked := false, tKstack := none } :=
    update_self _ _ _
  refine h.giveBack (u := u) rfl (fun v hv => update_of_ne hv _ _) ?_ ?_ (fun _ => rfl) rfl
    (fun z hz => ⟨hz, by simp [hrole]⟩) fun w => ?_
  · rw [hself]
  · rw [hself]
  · have hpcs : (s.act (.reclaim c t u)).pc = update s.pc u .idle := rfl
    rw [hpcs]
    by_cases hwu : w = u
    · rw [hwu, update_self]
      exact .inl trivial
    · rw [update_of_ne hwu]
      refine .inr ⟨hwu, rfl, fun q hq => ?_, fun q hq => ?_⟩
      · have hl := h.spawning w q u hq
        rw [hrole] at hl
        cases hl
      · exact hstack (h.threading w q u hq).2.2.2

end

/-- The slot of a leader goes back when its process has left the registry. -/
lemma roles_release (h : Safe hist s) (hpc : s.pc t = .reaping z .reported) :
    Roles (s.reapStep t z .reported) := by
  have hrel : Roles (s.releaseSlot z) := by
    obtain ⟨u, hu⟩ := h.led t z .reported hpc (by simp)
    obtain ⟨htask, -, hstack, -⟩ := h.roles.leader u z hu
    unfold releaseSlot
    rw [htask]
    by_cases hdead : (s.m.task u).state = .dead
    · simp only [if_pos hdead]
      have hm : s.m.reapSlot u = s.m.modifyTask u fun t => { t with state := .unused, proc := none } := by
        unfold Machine.reapSlot
        rw [if_pos hdead]
      rw [hm]
      have hself : (s.m.modifyTask u fun t => { t with state := .unused, proc := none }).task u
          = { s.m.task u with state := .unused, proc := none } := modifyTask_self _
      have hproc := congrArg Sched.Task.proc hself
      have hkeep := congrArg Sched.Task.tKstack hself
      refine h.roles.giveBack (u := u) rfl (fun v hv => update_of_ne hv _ _) hproc
        (hkeep.trans hstack) (fun _ => rfl) rfl (fun q hq => ⟨hq, fun hr => ?_⟩) fun w => ?_
      · -- a registered process is not past the first stage
        rw [hu] at hr
        cases hr
        have hfound := (h.once.listed z hq).2.2 t (by rw [hpc]; rfl)
        rw [hpc] at hfound
        cases hfound
      · show plain (update s.pc u .idle w) ∨ w ≠ u ∧ update s.pc u .idle w = _ ∧ _
        by_cases hwu : w = u
        · rw [hwu, update_self]
          exact .inl trivial
        · rw [update_of_ne hwu]
          refine .inr ⟨hwu, rfl, fun q hq => ?_, fun q hq => ?_⟩
          · have hl := h.roles.spawning w q u hq
            rw [hu] at hl
            cases hl
            have hwt := h.once.unique w t z (by rw [hq]; rfl) (by rw [hpc]; rfl)
            rw [hwt, hpc] at hq
            cases hq
          · have hl := (h.roles.threading w q u hq).1
            rw [hu] at hl
            cases hl
    · simp only [if_neg hdead]
      exact h.roles
  exact hrel.setPc trivial

lemma roles_register (h : Roles s) (hpc : s.pc t = .spawning p u) :
    Roles (s.act (.register c t p u)) := by
  have hplain : Roles (s.setPc t (.launching u)) := h.setPc trivial
  refine ⟨hplain.free, hplain.spare, hplain.leader, hplain.thread, hplain.newborn, hplain.spawning,
    hplain.threading, hplain.unique, fun z hz => ?_⟩
  rcases List.mem_cons.mp hz with rfl | hz
  · exact ⟨u, h.spawning t z u hpc⟩
  · exact h.listed z hz

lemma roles_step (h : Safe hist s) (hen : s.Enabled e) : Roles (s.act e) := by
  have hr := h.roles
  cases e with
  | mach a =>
    by_cases hcreate : ∃ t prio, a = .create t prio
    · obtain ⟨t, prio, rfl⟩ := hcreate
      exact roles_create hr hen
    · rw [act_mach_other fun t prio heq => hcreate ⟨t, prio, heq⟩]
      exact hr.kept (Sched.Machine.act_kept a) rfl (fun _ => rfl) rfl (fun _ => id) fun _ => .inl rfl
  | spawn c t u prio => exact roles_spawn hr hen.2.2
  | register c t p u => exact roles_register hr hen.2
  | launch c t u => exact hr.setMachine launch_kept trivial
  | adopt c t p => exact roles_adopt hr hen.2.1
  | threadCreate c t u p prio => exact roles_threadCreate hr hen.2.2.1 hen.2.2.2.2
  | threadAttach c t u p kstack =>
    cases kstack with
    | some k => exact roles_attach hr hen.2
    | none => exact roles_attach_none hr hen.2
  | reclaim c t u => exact roles_reclaim hr hen.2.2.1
  | exitBegin c t p code =>
    exact hr.setProc (f := fun x => { x with alive := false, exitCode := code })
      (x := .exiting p .begun) (fun _ => rfl) trivial
  | exit c t p stage =>
    cases stage with
    | begun =>
      show Roles (s.exitStep c t p .begun)
      refine hr.kept ?_ ?_ (fun q => ?_) reparent_fresh ?_ fun w => ?_
      · refine Kept.of_task (congrArg Machine.task ?_)
        exact reparent_m
      · show (s.reparentChildrenLocked p).role = s.role
        unfold reparentChildrenLocked
        split
        · rfl
        · split_ifs <;> rfl
      · refine (setProc_task (fun x => { x with orphaned := true }) (fun _ => rfl) q).trans ?_
        exact (reparent_rehomed q).task
      · intro z hz
        rwa [show (s.exitStep c t p .begun).list = s.list from reparent_list] at hz
      · have hpcs : (s.exitStep c t p .begun).pc = update s.pc t (.exiting p .reparented) := by
          show update (s.reparentChildrenLocked p).pc t _ = _
          rw [reparent_pc]
        rw [hpcs]
        exact setPc_plain (x := .exiting p .reparented) trivial w
    | reparented => exact hr.setMachine markDead_kept trivial
    | marked => exact hr.setMachine (Sched.Machine.wake_still _ _).toKept trivial
    | woken => exact hr.setMachine (Sched.Machine.setState_park_still (by simp)).toKept trivial
  | findZombie c t p want z => exact hr.setPc trivial
  | kernelFind c t pid z => exact hr.setPc trivial
  | kernelSettled c t z =>
    refine hr.setPc ?_
    split_ifs
    · trivial
    · trivial
  | reap c t z stage =>
    cases stage with
    | found =>
      exact hr.kept Kept.rfl' rfl (fun _ => rfl) rfl
        (fun _ => List.mem_of_mem_erase) (setPc_plain (x := .reaping z .deleted) trivial)
    | deleted =>
      exact hr.setProc (f := fun x => { x with rootPa := false }) (x := .reaping z .spaceGone) (fun _ => rfl)
        trivial
    | spaceGone =>
      exact hr.setProc (f := fun x => { x with kstack := false }) (x := .reaping z .stackGone) (fun _ => rfl)
        trivial
    | stackGone => exact hr.setPc trivial
    | reported => exact roles_release h hen.2
    | slotGone =>
      exact hr.setProc (f := fun x => { x with freed := true }) (x := .idle) (fun _ => rfl)
        trivial
  | noteFind c t pid p => exact hr.setPc trivial
  | noteStore c t p =>
    exact hr.kept Kept.rfl' rfl (fun _ => rfl) rfl (fun _ => id)
      (setPc_plain (x := .idle) trivial)

/-! ## What a step does to the tasks of a zombie -/

lemma update_role (r : Role) (hu : v ≠ u) : update s.role u r v = s.role v :=
  update_of_ne hu _ _

/-- The slot that `reap_one` gives back is the leader's. -/
lemma releaseSlot_leader (h : Safe hist s) (hpc : s.pc t = .reaping z .reported) :
    ∃ u, s.role u = .leader z ∧ (s.proc z).task = some u := by
  obtain ⟨u, hu⟩ := h.led t z .reported hpc (by simp)
  exact ⟨u, hu, (h.roles.leader u z hu).1⟩

lemma releaseSlot_role {x : Slot} (htask : (s.proc z).task = some x) (hv : v ≠ x) :
    (s.releaseSlot z).role v = s.role v ∧ (s.releaseSlot z).m.task v = s.m.task v := by
  unfold releaseSlot
  rw [htask]
  by_cases hdead : (s.m.task x).state = .dead
  · simp only [if_pos hdead]
    refine ⟨update_of_ne hv _ _, ?_⟩
    show (s.m.reapSlot x).task v = _
    unfold Machine.reapSlot
    rw [if_pos hdead]
    exact modifyTask_ne _ hv
  · simp only [if_neg hdead, and_self]

lemma releaseSlot_cpu : (s.releaseSlot z).m.cpu = s.m.cpu := by
  unfold releaseSlot
  split
  · rfl
  · next x _ =>
    split_ifs with hdead
    · unfold Machine.reapSlot
      rw [if_pos hdead]
      rfl
    · rfl

/-- A leader stays one until its slot is given back. -/
lemma leader_step (h : Safe hist s) (hen : s.Enabled e) (hu : s.role u = .leader z)
    (hno : ∀ c t, e ≠ .reap c t z .reported) : (s.act e).role u = .leader z := by
  have hused : (s.m.task u).state ≠ .unused := by
    intro hun
    rw [h.roles.free u hun] at hu
    cases hu
  cases e with
  | mach a =>
    by_cases hcreate : ∃ t prio, a = .create t prio
    · obtain ⟨t, prio, rfl⟩ := hcreate
      have hut : u ≠ t := by
        rintro rfl
        exact hused hen
      exact (update_role _ hut).trans hu
    · rw [act_mach_other fun t prio heq => hcreate ⟨t, prio, heq⟩]
      exact hu
  | spawn c t w prio =>
    have huw : u ≠ w := by
      rintro rfl
      exact hused hen.2.2
    exact (update_role _ huw).trans hu
  | threadCreate c t w p prio =>
    have huw : u ≠ w := by
      rintro rfl
      exact hused hen.2.2.2.2
    exact (update_role _ huw).trans hu
  | threadAttach c t w p kstack =>
    cases kstack with
    | some k => exact hu
    | none =>
      have huw : u ≠ w := by
        rintro rfl
        have hw := (h.roles.threading t p u hen.2).1
        rw [hu] at hw
        cases hw
      exact (update_role _ huw).trans hu
  | reclaim c t w =>
    have huw : u ≠ w := by
      rintro rfl
      obtain ⟨p, hw⟩ := h.roles.thread_of_stack hen.2.2.1
      rw [hu] at hw
      cases hw
    exact (update_role _ huw).trans hu
  | exit c t p stage =>
    cases stage with
    | begun =>
      show (s.reparentChildrenLocked p).role u = _
      unfold reparentChildrenLocked
      split
      · exact hu
      · split_ifs
        · exact hu
        · exact hu
    | _ => exact hu
  | reap c t z' stage =>
    cases stage with
    | reported =>
      obtain ⟨w, hw, htask⟩ := releaseSlot_leader h hen.2
      have huw : u ≠ w := by
        rintro rfl
        rw [hu] at hw
        cases hw
        exact hno c t rfl
      exact (releaseSlot_role htask huw).1.trans hu
    | _ => exact hu
  | _ => exact hu

/-- A task that has left its cpu for good stays so until its slot is given back. -/
lemma parted_step (h : Safe hist s) (hok : s.Settles e) (hen : s.Enabled e) (hv : s.m.Parted v) :
    (s.act e).m.Parted v ∨ (s.act e).role v = .free := by
  have hnotRun : ∀ c t, s.m.Runs c t → v ≠ t := by
    rintro c t hrun rfl
    exact hv.2 c hrun
  have hused : ∀ x, (s.m.task x).state = .unused → v ≠ x := by
    rintro x hx rfl
    rw [hv.1] at hx
    cases hx
  cases e with
  | mach a =>
    rw [(act_mach s a).m]
    exact .inl (hv.act hen hok)
  | spawn c t w prio =>
    refine .inl (hv.congr rfl (.inl ?_))
    exact congrArg Sched.Task.state (createDeferred_ne (hused w hen.2.2))
  | launch c t w =>
    have hvw : v ≠ w := by
      rintro rfl
      exact hok (.inl hv.1)
    refine .inl (hv.congr rfl (.inl ?_))
    show ((s.m.taskLaunch w).task v).state = _
    unfold Machine.taskLaunch
    rw [modifyTask_ne _ hvw, Sched.Machine.requeue_ne hvw]
  | adopt c t p =>
    have hvt := hnotRun c t hen.1
    exact .inl (hv.congr rfl (.inl (congrArg Sched.Task.state (update_of_ne hvt _ _))))
  | threadCreate c t w p prio =>
    refine .inl (hv.congr rfl (.inl ?_))
    exact congrArg Sched.Task.state (createDeferred_ne (hused w hen.2.2.2.2))
  | threadAttach c t w p kstack =>
    by_cases hvw : v = w
    · cases kstack with
      | some k =>
        refine .inl (hv.congr rfl (.inl ?_))
        show ((s.m.attach w p (some k)).task v).state = _
        unfold Machine.attach
        rw [hvw, modifyTask_self]
      | none =>
        right
        show update s.role w .free v = _
        rw [hvw, update_self]
    · cases kstack with
      | some k =>
        exact .inl (hv.congr rfl (.inl (congrArg Sched.Task.state (update_of_ne hvw _ _))))
      | none =>
        exact .inl (hv.congr rfl (.inl (congrArg Sched.Task.state (update_of_ne hvw _ _))))
  | reclaim c t w =>
    by_cases hvw : v = w
    · right
      show update s.role w .free v = _
      rw [hvw, update_self]
    · exact .inl (hv.congr rfl (.inl (congrArg Sched.Task.state (update_of_ne hvw _ _))))
  | exit c t p stage =>
    cases stage with
    | begun =>
      left
      show (s.reparentChildrenLocked p).m.Parted v
      rw [reparent_m]
      exact hv
    | reparented =>
      refine .inl (hv.congr rfl ?_)
      show ((s.m.markDead p _).task v).state = _ ∨ ((s.m.markDead p _).task v).state = _
      unfold Machine.markDead
      dsimp only
      split_ifs
      · exact .inr rfl
      · exact .inl rfl
    | marked =>
      exact .inl (hv.act (a := .wake .waitWakeAll c REAP_WQ) (.inl hen.1.1) hok)
    | woken =>
      have hvt := hnotRun c t hen.1
      refine .inl ⟨?_, fun d hrun => hv.2 d ?_⟩
      · show ((s.m.taskExit c t).task v).state = _
        unfold Machine.taskExit
        rw [Sched.Machine.schedPark_ne hvt, modifyTask_ne _ hvt]
        exact hv.1
      · exact (Sched.Machine.runs_of_cpu rfl).mp (Sched.Machine.schedPark_runs.mp hrun).2
  | reap c t z stage =>
    cases stage with
    | reported =>
      obtain ⟨w, hw, htask⟩ := releaseSlot_leader h hen.2
      by_cases hvw : v = w
      · right
        show (s.releaseSlot z).role v = _
        unfold releaseSlot
        rw [htask, ← hvw]
        simp only [if_pos hv.1]
        exact update_self _ _ _
      · refine .inl (hv.congr releaseSlot_cpu (.inl ?_))
        exact congrArg Sched.Task.state (releaseSlot_role htask hvw).2
    | _ => exact .inl hv
  | _ => exact .inl hv

/-- A thread was one before, or is being set up. -/
lemma thread_before (h : Safe hist s) (hen : s.Enabled e)
    (hproc : ((s.act e).m.task v).proc = some z) (hstack : ((s.act e).m.task v).tKstack ≠ none) :
    ((s.m.task v).proc = some z ∧ (s.m.task v).tKstack ≠ none) ∨
      ∃ c t k, e = .threadAttach c t v z (some k) := by
  have hkept : Kept s.m (s.act e).m → _ := fun hk =>
    show ((s.m.task v).proc = some z ∧ (s.m.task v).tKstack ≠ none) ∨
        ∃ c t k, e = .threadAttach c t v z (some k) from
      .inl ⟨(hk.proc v) ▸ hproc, (hk.tKstack v) ▸ hstack⟩
  have hsame : (s.act e).m.task v = s.m.task v → _ := fun heq =>
    show ((s.m.task v).proc = some z ∧ (s.m.task v).tKstack ≠ none) ∨
        ∃ c t k, e = .threadAttach c t v z (some k) from
      .inl ⟨heq ▸ hproc, heq ▸ hstack⟩
  cases e with
  | mach a =>
    apply hkept
    rw [(act_mach s a).m]
    exact Sched.Machine.act_kept a
  | spawn c t w prio =>
    by_cases hvw : v = w
    · rw [hvw] at hstack
      exact absurd createDeferred_self.2 hstack
    · exact hsame (createDeferred_ne hvw)
  | launch c t w => exact hkept launch_kept
  | adopt c t p =>
    by_cases hvt : v = t
    · have hleader := h.roles.newborn t p hen.2.1
      have hnone := (h.roles.leader t p hleader).2.2.1
      have hself : (s.act (.adopt c t p)).m.task t = { s.m.task t with proc := some p } :=
        update_self _ _ _
      rw [hvt, hself] at hstack
      exact absurd hnone hstack
    · exact hsame (update_of_ne hvt _ _)
  | threadCreate c t w p prio =>
    by_cases hvw : v = w
    · rw [hvw] at hstack
      exact absurd createDeferred_self.2 hstack
    · exact hsame (createDeferred_ne hvw)
  | threadAttach c t w p kstack =>
    by_cases hvw : v = w
    · cases kstack with
      | some k =>
        have hself : (s.act (.threadAttach c t w p (some k))).m.task w
            = { s.m.task w with proc := some p, tKstack := some k } := update_self _ _ _
        rw [hvw, hself] at hproc
        obtain rfl := Option.some.inj hproc
        exact .inr ⟨c, t, k, by rw [hvw]⟩
      | none =>
        have hself : (s.act (.threadAttach c t w p none)).m.task w
            = { s.m.task w with state := .unused } := update_self _ _ _
        rw [hvw, hself] at hproc hstack
        rw [hvw]
        exact .inl ⟨hproc, hstack⟩
    · cases kstack with
      | some k => exact hsame (update_of_ne hvw _ _)
      | none => exact hsame (update_of_ne hvw _ _)
  | reclaim c t w =>
    by_cases hvw : v = w
    · have hself : (s.act (.reclaim c t w)).m.task w
          = { s.m.task w with state := .unused, proc := none, parked := false, tKstack := none } :=
        update_self _ _ _
      rw [hvw, hself] at hproc
      cases hproc
    · exact hsame (update_of_ne hvw _ _)
  | exit c t p stage =>
    cases stage with
    | begun =>
      apply hkept
      show Kept s.m (s.reparentChildrenLocked p).m
      rw [reparent_m]
      exact Kept.rfl'
    | reparented => exact hkept markDead_kept
    | marked => exact hkept (Sched.Machine.wake_still _ _).toKept
    | woken => exact hkept (Sched.Machine.setState_park_still (by simp)).toKept
  | reap c t z' stage =>
    cases stage with
    | reported =>
      obtain ⟨w, hw, htask⟩ := releaseSlot_leader h hen.2
      by_cases hvw : v = w
      · -- the leader's slot has no stack of its own
        rcases releaseSlot_task (s := s) (z := z') v with heq | heq
        · have hrole := roles_release h hen.2
          rcases hrole.member hproc with hl | ⟨hl, -⟩
          · exact absurd (hrole.leader v z hl).2.2.1 hstack
          · by_cases hdead : (s.m.task w).state = .dead
            · have hfree : (s.reapStep t z' .reported).role v = .free := by
                show (s.releaseSlot z').role v = _
                unfold releaseSlot
                rw [htask, hvw]
                simp only [if_pos hdead]
                exact update_self _ _ _
              rw [hfree] at hl
              cases hl
            · have hkeep : (s.reapStep t z' .reported).m.task v = s.m.task v := by
                show (s.releaseSlot z').m.task v = _
                unfold releaseSlot
                rw [htask]
                simp only [if_neg hdead]
              exact hsame hkeep
        · rw [show ((s.act (.reap c t z' .reported)).m.task v).proc = none from heq] at hproc
          cases hproc
      · exact hsame (releaseSlot_role htask hvw).2
    | _ => exact hsame rfl
  | _ => exact hsame rfl

/-! ## From the lookup to the last free -/

/-- The event makes a waiter start to reap `z`, or frees a thread's stack. -/
def settling : Event → Bool
  | .findZombie _ _ _ _ _ | .kernelSettled _ _ _ | .reclaim _ _ _ => true
  | _ => false

variable {stage : ReapStage}

lemma setPc_reaping (hx : holds x = none)
    (h : update s.pc t x v = .reaping z stage) : s.pc v = .reaping z stage := by
  rcases setPc_drop (s := s) (t := t) hx v with heq | hnone
  · rwa [heq] at h
  · rw [h] at hnone
    cases hnone

lemma setPc_reaping₂ (hx : holds x = none)
    (h : update (update s.pc u .idle) t x v = .reaping z stage) :
    s.pc v = .reaping z stage := by
  rcases setPc_drop₂ (s := s) (t := t) (u := u) hx v with heq | hnone
  · rwa [heq] at h
  · rw [h] at hnone
    cases hnone

/-- The stages of a reap follow each other. -/
lemma reapStep_pc_self {old : ReapStage} (h : (s.reapStep t q old).pc t = .reaping z stage) :
    z = q ∧ (old = .reported → stage = .slotGone) ∧ old ≠ .slotGone := by
  cases old with
  | found =>
    have hself : (s.reapStep t q .found).pc t = .reaping q .deleted := update_self _ _ _
    rw [hself] at h
    cases h
    simp
  | deleted =>
    have hself : (s.reapStep t q .deleted).pc t = .reaping q .spaceGone := update_self _ _ _
    rw [hself] at h
    cases h
    simp
  | spaceGone =>
    have hself : (s.reapStep t q .spaceGone).pc t = .reaping q .stackGone :=
      update_self _ _ _
    rw [hself] at h
    cases h
    simp
  | stackGone =>
    have hself : (s.reapStep t q .stackGone).pc t = .reaping q .reported :=
      update_self _ _ _
    rw [hself] at h
    cases h
    simp
  | reported =>
    have hself : (s.reapStep t q .reported).pc t = .reaping q .slotGone := update_self _ _ _
    rw [hself] at h
    cases h
    simp
  | slotGone =>
    have hself : (s.reapStep t q .slotGone).pc t = .idle := update_self _ _ _
    rw [hself] at h
    cases h

/-- Another task than the reaper is at most sent to its start, with its slot. -/
lemma reapStep_pc_other (hv : v ≠ t) (old : ReapStage) :
    (s.reapStep t z old).pc v = s.pc v ∨ (s.reapStep t z old).pc v = .idle := by
  cases old with
  | reported =>
    have hrel : (s.reapStep t z .reported).pc v = (s.releaseSlot z).pc v :=
      update_of_ne hv _ _
    rw [hrel]
    exact releaseSlot_pc v
  | _ => exact .inl (update_of_ne hv _ _)

/-- A task that reaps `z` did so before, at the stage it has just left if the event is its own,
or it commits to `z` now. -/
lemma reaping_before (hen : s.Enabled e)
    (hpc : (s.act e).pc v = .reaping z stage) :
    (∃ old, s.pc v = .reaping z old ∧ (old = .slotGone → stage = .slotGone) ∧
        ∀ c, e = .reap c v z .reported → stage = .slotGone) ∨
      (∃ c p want, e = .findZombie c v p want z) ∨
      ∃ c, e = .kernelSettled c v z ∧ s.threadsSettled z = true := by
  have hsame : (∀ c, e ≠ .reap c v z .reported) → s.pc v = .reaping z stage → _ := fun hne hold =>
    show (∃ old, s.pc v = .reaping z old ∧ (old = .slotGone → stage = .slotGone) ∧
          ∀ c, e = .reap c v z .reported → stage = .slotGone) ∨
        (∃ c p want, e = .findZombie c v p want z) ∨
        ∃ c, e = .kernelSettled c v z ∧ s.threadsSettled z = true from
      .inl ⟨stage, hold, id, fun c heq => absurd heq (hne c)⟩
  cases e with
  | mach a =>
    refine hsame (by simp) ?_
    rcases (act_mach s a).pc v with heq | heq
    · rwa [heq] at hpc
    · rw [heq] at hpc
      cases hpc
  | spawn c t u prio =>
    refine hsame (by simp) ?_
    have hpcs : (s.act (.spawn c t u prio)).pc
        = update (update s.pc u (.newborn s.fresh)) t (.spawning s.fresh u) := rfl
    rw [hpcs] at hpc
    by_cases hvt : v = t
    · rw [hvt, update_self] at hpc
      cases hpc
    · rw [update_of_ne hvt] at hpc
      exact setPc_reaping rfl hpc
  | register c t p u => exact hsame (by simp) (setPc_reaping rfl hpc)
  | launch c t u => exact hsame (by simp) (setPc_reaping rfl hpc)
  | adopt c t p => exact hsame (by simp) (setPc_reaping rfl hpc)
  | threadCreate c t u p prio => exact hsame (by simp) (setPc_reaping₂ rfl hpc)
  | threadAttach c t u p kstack =>
    cases kstack with
    | some k => exact hsame (by simp) (setPc_reaping rfl hpc)
    | none => exact hsame (by simp) (setPc_reaping₂ rfl hpc)
  | reclaim c t u => exact hsame (by simp) (setPc_reaping rfl hpc)
  | exitBegin c t p code => exact hsame (by simp) (setPc_reaping rfl hpc)
  | exit c t p stage =>
    refine hsame (by simp) ?_
    have hdrop : (s.exitStep c t p stage).pc v = s.pc v ∨
        holds ((s.exitStep c t p stage).pc v) = none := exitStep_pc v
    rw [show (s.exitStep c t p stage).pc v = _ from hpc] at hdrop
    rcases hdrop with heq | hnone
    · exact heq.symm
    · cases hnone
  | findZombie c t p want z' =>
    have hpcs : (s.act (.findZombie c t p want z')).pc
        = update s.pc t (.reaping z' .found) := rfl
    rw [hpcs] at hpc
    by_cases hvt : v = t
    · rw [hvt, update_self] at hpc
      cases hpc
      exact .inr (.inl ⟨c, p, want, by rw [hvt]⟩)
    · rw [update_of_ne hvt] at hpc
      exact hsame (by simp) hpc
  | kernelFind c t pid z' => exact hsame (by simp) (setPc_reaping rfl hpc)
  | kernelSettled c t z' =>
    have hpcs : (s.act (.kernelSettled c t z')).pc
        = update s.pc t (if s.threadsSettled z' then .reaping z' .found else .idle) := rfl
    rw [hpcs] at hpc
    by_cases hvt : v = t
    · rw [hvt, update_self] at hpc
      split_ifs at hpc with hsettled
      · cases hpc
        exact .inr (.inr ⟨c, by rw [hvt], hsettled⟩)
    · rw [update_of_ne hvt] at hpc
      exact hsame (by simp) hpc
  | reap c t z' old =>
    by_cases hvt : v = t
    · -- the reaper itself goes one stage further
      rw [hvt] at hpc ⊢
      obtain ⟨rfl, hlast, hnot⟩ := reapStep_pc_self hpc
      exact .inl ⟨old, hen.2, fun hold => absurd hold hnot, fun d heq => hlast (by cases heq; rfl)⟩
    · refine hsame (fun d heq => ?_) ?_
      · cases heq
        exact hvt rfl
      · have hpcs : (s.reapStep t z' old).pc v = .reaping z stage := hpc
        rcases reapStep_pc_other (s := s) (z := z') hvt old with heq | hidle
        · rwa [heq] at hpcs
        · rw [hidle] at hpcs
          cases hpcs
  | noteFind c t pid p => exact hsame (by simp) (setPc_reaping rfl hpc)
  | noteStore c t p => exact hsame (by simp) (setPc_reaping rfl hpc)

/-- Until its slot is given back, the tasks of a process that is being reaped were quiet before
the event as well, and the event is not the one that gives the slot back. -/
lemma committed_before (h : Safe hist s) (hok : s.Settles e) (hen : s.Enabled e) (hpc : (s.act e).pc v = .reaping z stage) (hstage : stage ≠ .slotGone) :
    (∃ u, s.role u = .leader z) ∧ s.Quiet z ∧ ∀ c t, e ≠ .reap c t z .reported := by
  rcases reaping_before hen hpc with ⟨old, hold, hslot, hrep⟩ | ⟨c, p, want, rfl⟩ |
    ⟨c, rfl, hsettled⟩
  · have hne : old ≠ .slotGone := fun heq => hstage (hslot heq)
    refine ⟨h.led v z old hold hne, h.quiet v z old hold hne, ?_⟩
    rintro c t rfl
    -- nobody else reaps it, so the event is the reaper's own
    have hvt : v = t := h.once.unique v t z (by rw [hold]; rfl) (by rw [hen.2]; rfl)
    exact hstage (hrep c (by rw [hvt]))
  · have hfound := hen.2.2.2
    refine ⟨h.roles.listed z (mem_of_findZombie hfound), hok.2.quiet ?_, by simp⟩
    exact settled_of_findZombie hfound
  · obtain ⟨-, hz, hdrained⟩ := hok hsettled
    exact ⟨h.roles.listed z hz, hdrained.quiet hsettled, by simp⟩

/-- The tasks of such a process stay quiet: a dead task is not brought back, and a new thread is
set up by a running task of the process only. -/
lemma quiet_step (h : Safe hist s) (hok : s.Settles e) (hen : s.Enabled e)
    (hroles : Roles (s.act e)) (hu : s.role u = .leader z) (hquiet : s.Quiet z)
    (hno : ∀ c t, e ≠ .reap c t z .reported) : (s.act e).Quiet z := by
  obtain ⟨hleader, hthread⟩ := hquiet
  have hu' := leader_step h hen hu hno
  constructor
  · intro w hw
    rw [(hroles.leader u z hu').1] at hw
    obtain rfl := Option.some.inj hw
    have hparted := hleader u (h.roles.leader u z hu).1
    rcases parted_step h hok hen hparted with hstill | hfree
    · exact hstill
    · rw [hu'] at hfree
      cases hfree
  · intro w hproc hstack
    rcases thread_before h hen hproc hstack with ⟨hproc₀, hstack₀⟩ | ⟨c, t, k, rfl⟩
    · rcases parted_step h hok hen (hthread w hproc₀ hstack₀) with hstill | hfree
      · exact hstill
      · rcases hroles.member hproc with hrole | ⟨hrole, -⟩
        · rw [hrole] at hfree
          cases hfree
        · rw [hrole] at hfree
          cases hfree
    · -- the creator runs, so it is not a task of a quiet process
      have hcur := (h.roles.threading t z w hen.2).2.1
      rcases h.roles.member hcur with hrole | ⟨-, hown⟩
      · exact absurd hen.1 ((hleader t (h.roles.leader t z hrole).1).2 c)
      · exact absurd hen.1 ((hthread t hcur hown).2 c)

lemma safe_step (h : Safe hist s) (hok : s.Settles e) (hstep : Step s e s') :
    Safe (hist ++ [e]) s' := by
  have honce := once_step h.once hok.claims hstep
  obtain ⟨hen, rfl⟩ := hstep
  have hroles := roles_step h hen
  refine ⟨honce, hroles, ?_, ?_⟩
  · intro t z stage hpc hstage
    obtain ⟨⟨u, hu⟩, -, hno⟩ := committed_before h hok hen hpc hstage
    exact ⟨u, leader_step h hen hu hno⟩
  · intro t z stage hpc hstage
    obtain ⟨⟨u, hu⟩, hquiet, hno⟩ := committed_before h hok hen hpc hstage
    exact quiet_step h hok hen hroles hu hquiet hno

lemma Init.roles (h : s.Init) : Roles s := by
  have hspare : ∀ t, (s.m.task t).proc = none ∧ (s.m.task t).tKstack = none :=
    fun t => ⟨h.proc t, h.tKstack t⟩
  constructor
  · intro t ht
    rw [h.role t, if_pos ht]
  · exact fun t _ => hspare t
  · intro t p ht
    rw [h.role t] at ht
    split_ifs at ht
  · exact fun t _ _ => .inl (hspare t)
  · intro t p ht
    rw [h.pc t] at ht
    cases ht
  · intro t p u ht
    rw [h.pc t] at ht
    cases ht
  · intro t p u ht
    rw [h.pc t] at ht
    cases ht
  · intro t t' p p' u ht
    rw [h.pc t] at ht
    cases ht
  · intro z hz
    rw [h.list] at hz
    cases hz

lemma Init.safe (h : s.Init) : Safe [] s := by
  refine ⟨h.once, h.roles, ?_, ?_⟩
  · intro t z stage ht
    rw [h.pc t] at ht
    cases ht
  · intro t z stage ht
    rw [h.pc t] at ht
    cases ht

lemma run_safe {s₀ : Sys} {es : List Event} (h₀ : s₀.Init)
    (hrun : Run (Guarded Settles Step) s₀ es s) : Safe es s :=
  hrun.invariant_history (I := Safe) h₀.safe fun _ _ _ _ hinv hstep =>
    safe_step hinv hstep.1 hstep.2

lemma reclaim_eq (m : Machine) (u : Slot) : m.reclaim u = (m.giveBack u).freeStack u := by
  simp [Machine.reclaim, Machine.giveBack, Machine.freeStack, Machine.modifyTask]

/-- A section that nothing comes between is one step. -/
lemma run_sectionCode (s : Sys) (e : Event) : (sectionCode e).run s = ((), s.act e) := by
  cases e with
  | reclaim c t u =>
    rw [act, reclaim_eq]
    rfl
  | _ => rfl

/-- In every run in which no section comes between the test of a round of `proc_threads_reclaim`
and its `kfree`: when the address space, the kernel stack or the task slot of a process is freed,
and when a round begins that will free a thread's stack, the tasks concerned are dead and off
every cpu. -/
theorem reap_safe {s₀ : Sys} {labels : List (Calls.Label Event Unit)} {p : Calls Sys Event Unit}
    (h₀ : s₀.Init)
    (hrun : Run (Guarded (Calls.Serial Settles) (Calls.Step sectionCode Begins)) ⟨s₀, []⟩ labels p)
    (hidle : p.running = []) :
    (∀ c t z stage, p.shared.Enabled (.reap c t z stage) → stage ≠ .slotGone → p.shared.Quiet z) ∧
      ∀ c t u, p.shared.Settles (.reclaim c t u) → p.shared.Enabled (.reclaim c t u) →
        p.shared.m.Parted u := by
  obtain ⟨s, hwhole, hrest⟩ := Calls.whole_of_serial hrun
  obtain rfl := hrest.idle hidle
  have hsteps : Run (Guarded Settles Step) s₀ ((Calls.answers labels).map Prod.fst) p.shared := by
    refine hwhole.map (f := id) fun s x t hstep => ⟨hstep.1, hstep.2.1, ?_⟩
    have hcode := hstep.2.2
    rw [run_sectionCode] at hcode
    exact (Prod.mk.inj hcode).2.symm
  have hinv := run_safe h₀ hsteps
  constructor
  · intro c t z stage hen hstage
    exact hinv.quiet t z stage hen.2 hstage
  · intro c t u hflag hen
    exact ⟨hen.2.2.2.1, hflag hen.2.2.2.2⟩

/-- The parent reaps a leader that has marked itself a zombie and is still in its exit. -/
def earlyEvents : List Event :=
  [.mach (.create 0 10), .mach (.dispatch 0), .spawn 0 0 1 10, .register 0 0 0 1, .launch 0 0 1,
    .mach (.dispatch 1), .adopt 1 1 0, .exitBegin 1 1 0 7, .kernelFind 0 0 1 0,
    .kernelSettled 0 0 0, .reap 0 0 0 .found, .reap 0 0 0 .deleted]

lemma early_run : Run Step boot earlyEvents (earlyEvents.foldl act boot) :=
  Run.of_enables (fun _ _ h => ⟨h, rfl⟩) (by decide)

/-- Its kernel stack is freed while cpu 1 executes it. -/
theorem reap_safe_running_leader :
    ∃ es s s', Run Step boot es s ∧ Step s (.reap 0 0 0 .spaceGone) s' ∧
      (s.proc 0).kstack = true ∧ (s'.proc 0).kstack = false ∧
      (s.proc 0).task = some 1 ∧ s.m.Runs 1 1 := by
  refine ⟨_, _, _, early_run, ⟨?_, rfl⟩, ?_, ?_, ?_, ?_⟩
  · decide
  · decide
  · decide
  · decide
  · decide

/-- The same reap after the leader has parked. -/
def parkedEvents : List Event :=
  [.mach (.create 0 10), .mach (.dispatch 0), .spawn 0 0 1 10, .register 0 0 0 1, .launch 0 0 1,
    .mach (.dispatch 1), .adopt 1 1 0, .exitBegin 1 1 0 7, .exit 1 1 0 .begun,
    .exit 1 1 0 .reparented, .exit 1 1 0 .marked, .exit 1 1 0 .woken, .kernelFind 0 0 1 0]

/-- Only a dispatch puts a task on a cpu. -/
lemma runs_before (h : (s.act e).m.Runs c u) : s.m.Runs c u ∨ e = .mach (.dispatch c) := by
  cases e with
  | mach a =>
    rw [(act_mach s a).m] at h
    rcases Sched.Machine.act_runs h with hold | ⟨rfl, -⟩
    · exact .inl hold
    · exact .inr rfl
  | threadAttach d t w p kstack =>
    cases kstack with
    | some k => exact .inl ((Sched.Machine.runs_of_cpu rfl).mp h)
    | none => exact .inl ((Sched.Machine.runs_of_cpu rfl).mp h)
  | exit d t p stage =>
    cases stage with
    | begun =>
      have hrun : (s.reparentChildrenLocked p).m.Runs c u := h
      rw [reparent_m] at hrun
      exact .inl hrun
    | reparented => exact .inl ((Sched.Machine.runs_of_cpu rfl).mp h)
    | marked =>
      obtain ⟨-, -, -, -, -, hruns⟩ :=
        Sched.Machine.wake_swept (m := s.m) (c := d) (q := .other REAP_WQ) .waitWakeAll
      exact .inl ((hruns c u).mp h)
    | woken => exact .inl ((Sched.Machine.runs_of_cpu rfl).mp (Sched.Machine.schedPark_runs.mp h).2)
  | reap d t z stage =>
    cases stage with
    | reported => exact .inl ((Sched.Machine.runs_of_cpu releaseSlot_cpu).mp h)
    | _ => exact .inl h
  | _ => exact .inl ((Sched.Machine.runs_of_cpu rfl).mp h)

lemma dispatched_of_runs {s₀ : Sys} {es : List Event} (hrun : Run Step s₀ es s)
    (h : s.m.Runs c u) : s₀.m.Runs c u ∨ .mach (.dispatch c) ∈ es := by
  induction hrun with
  | nil => exact .inl h
  | snoc hrun hstep ih =>
    obtain ⟨-, rfl⟩ := hstep
    rcases runs_before h with hold | rfl
    · exact (ih hold).imp_right fun hmem => List.mem_append_left _ hmem
    · exact .inr (by simp)

/-- The events whose condition speaks of all cpus are left out. -/
instance (s : Sys) : ∀ e, Decidable (settling e = false ∧ s.Settles e ∧ s.Enabled e)
  | .findZombie _ _ _ _ _ | .kernelSettled _ _ _ | .reclaim _ _ _ => isFalse (by simp [settling])
  | .mach a => inferInstanceAs (Decidable (_ ∧ s.m.Spares (.sched a) ∧ _))
  | .launch _ _ u => inferInstanceAs (Decidable (_ ∧ s.m.Spares (.launch u) ∧ _))
  | .exit c _ _ .marked =>
    inferInstanceAs (Decidable (_ ∧ s.m.Spares (.sched (.wake .waitWakeAll c REAP_WQ)) ∧ _))
  | .spawn _ _ _ _ | .register _ _ _ _ | .adopt _ _ _ | .threadCreate _ _ _ _ _
  | .threadAttach _ _ _ _ _ | .exitBegin _ _ _ _ | .exit _ _ _ .begun | .exit _ _ _ .reparented
  | .exit _ _ _ .woken | .kernelFind _ _ _ _ | .reap _ _ _ _ | .noteFind _ _ _ _
  | .noteStore _ _ _ => inferInstanceAs (Decidable (_ ∧ True ∧ _))

lemma parked_run : Run (Guarded Settles Step) boot parkedEvents (parkedEvents.foldl act boot) := by
  have henables : Enables (fun s e => settling e = false ∧ s.Settles e ∧ s.Enabled e) act boot
      parkedEvents := by decide
  exact Run.of_enables (fun _ _ h => ⟨h.2.1, h.2.2, rfl⟩) henables

/-- Only the first two cpus have been dispatched to, and both leave the leader alone. -/
lemma parked_drained : (parkedEvents.foldl act boot).Drained 0 := by
  have hoff : ∀ c, ¬ (parkedEvents.foldl act boot).m.Runs c 1 := by
    intro c hrun
    rcases dispatched_of_runs (parked_run.mono fun _ _ _ h => h.2) hrun with hboot | hmem
    · exact Bool.false_ne_true hboot.1
    · have hc : c = 0 ∨ c = 1 := by simpa [parkedEvents] using hmem
      rcases hc with rfl | rfl
      · revert hrun
        decide
      · revert hrun
        decide
  have htask : ((parkedEvents.foldl act boot).proc 0).task = some 1 := by decide
  have honly : ∀ t, ((parkedEvents.foldl act boot).m.task t).proc = some 0 → t = 1 := by
    decide
  refine ⟨fun u hu => ?_, fun t ht _ => ?_⟩
  · rw [htask] at hu
    obtain rfl := Option.some.inj hu
    exact ⟨by decide, hoff⟩
  · rw [honly t ht]
    exact hoff

lemma settled_run : Run (Guarded Settles Step) boot
    (parkedEvents ++ [.kernelSettled 0 0 0] ++ [.reap 0 0 0 .found])
    (((parkedEvents.foldl act boot).act (.kernelSettled 0 0 0)).act (.reap 0 0 0 .found)) := by
  have hclaim : (parkedEvents.foldl act boot).Unclaimed 0 ∧ 0 ∈ (parkedEvents.foldl act boot).list := by
    decide
  have hok : (parkedEvents.foldl act boot).Settles (.kernelSettled 0 0 0) :=
    fun _ => ⟨hclaim.1, hclaim.2, parked_drained⟩
  refine (parked_run.snoc ⟨hok, ?_, rfl⟩).snoc ⟨trivial, ?_, rfl⟩
  · decide
  · decide

/-- The theorem on a run in which the leader is reaped after it has parked. -/
theorem reap_safe_parked :
    (((parkedEvents.foldl act boot).act (.kernelSettled 0 0 0)).act (.reap 0 0 0 .found)).Quiet 0 := by
  have hwhole : Run (Guarded (fun s x => s.Settles x.1) (Calls.Whole sectionCode Begins)) boot
      ((parkedEvents ++ [.kernelSettled 0 0 0] ++ [.reap 0 0 0 .found] : List Event).map (·, ()))
      (((parkedEvents.foldl act boot).act (.kernelSettled 0 0 0)).act (.reap 0 0 0 .found)) :=
    settled_run.map (f := id) (g := (·, ())) fun s e t hstep =>
      ⟨hstep.1, hstep.2.1, by rw [run_sectionCode, hstep.2.2]; rfl⟩
  obtain ⟨labels, -, hrun⟩ := Calls.serial_of_whole _ hwhole
  exact (reap_safe boot_init hrun rfl).1 0 0 0 .deleted (by decide) (by simp)

end Sys
end Process
end MobilePhoneOs
