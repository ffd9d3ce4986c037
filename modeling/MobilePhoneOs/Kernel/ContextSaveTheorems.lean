import MobilePhoneOs.Kernel.ContextSave
import MobilePhoneOs.Kernel.TaskTheorems

/-!
# Context-save discipline

While a park keeps the lock, no other section runs, so the only task that is not marked
running while a cpu has it is the one in that park. A path that releases the lock early leaves
a blocked task on its cpu, where a waker and a second cpu can get at it.
-/

namespace MobilePhoneOs

namespace Sched

open Machine (link_ne link_self modifyCpu_ne modifyCpu_self modifyCpu_task modifyTask_ne
  modifyTask_self)

/-! ## Marks and sections -/

namespace Path

variable {m : Machine} {c c' : ℕ} {t u : Slot} {p : Path}

lemma mark_ne (p : Path) (h : u ≠ t) : (p.mark m c t).task u = m.task u := by
  cases p with
  | taskYield => exact Machine.requeue_ne h
  | taskExit =>
    rw [mark]
    exact modifyTask_ne _ h
  | schedPostIrq =>
    simp only [mark]
    split_ifs
    · exact Machine.requeue_ne h
    · rfl
  | parkCurrent =>
    rw [mark]
    exact modifyTask_ne _ h
  | waitSleepWhen n => exact link_ne _ h
  | parkOnQueue n => exact link_ne _ h
  | ipcPark n => exact link_ne _ h
  | ipcPollPark timeoutMs =>
    simp only [mark]
    rw [modifyTask_ne _ h, link_ne _ h]
  | usPark n => exact link_ne _ h
  | udpRecv wq =>
    cases wq with
    | none =>
      rw [mark]
      exact modifyTask_ne _ h
    | some n => exact link_ne _ h
  | ev0Read n => exact link_ne _ h

lemma mark_current (p : Path) :
    ((p.mark m c t).cpu c').current = (m.cpu c').current := by
  cases p with
  | schedPostIrq =>
    have hcpu : ((m.modifyCpu c fun p => { p with needResched := false }).cpu c').current
        = (m.cpu c').current := by
      by_cases h : c' = c
      · rw [h, modifyCpu_self]
      · rw [modifyCpu_ne _ h]
    simp only [mark]
    split_ifs
    · exact hcpu
    · exact hcpu
  | udpRecv wq => cases wq <;> rfl
  | _ => rfl

/-- A path that releases the lock early leaves its task blocked. -/
lemma mark_blocked (h : p.keepsLock = false) : ((p.mark m c t).task t).state = .blocked := by
  cases p with
  | udpRecv wq =>
    cases wq with
    | none => rw [mark, modifyTask_self]
    | some n => rw [mark, link_self]
  | ev0Read n => rw [mark, link_self]
  | _ => simp [keepsLock] at h

/-- The section of the scheduler model that the path is. -/
def act (c : ℕ) (t : Slot) : Path → Act
  | taskYield => .yield c t
  | taskExit => .exit c t
  | schedPostIrq => .postIrq c
  | parkCurrent => .sleepPark c t
  | waitSleepWhen n => .park c t n
  | parkOnQueue n => .park c t n
  | ipcPark n => .park c t n
  | ipcPollPark timeoutMs => .pollPark c t timeoutMs
  | usPark n => .park c t n
  | udpRecv wq => .linkUnlocked c t wq
  | ev0Read n => .linkUnlocked c t (some n)

/-- Where the lock is kept, the mark and the save make up one section of the scheduler model. -/
theorem mark_schedPark (h : p.keepsLock = true) (hcur : (m.cpu c).current = some t)
    (hresched : p = .schedPostIrq → (m.cpu c).needResched = true) :
    (p.mark m c t).schedPark c t = m.act (p.act c t) := by
  cases p with
  | schedPostIrq =>
    simp only [mark, act, Machine.act, Machine.schedPostIrq, hcur, hresched rfl]
    rfl
  | udpRecv wq => simp [keepsLock] at h
  | ev0Read n => simp [keepsLock] at h
  | _ => rfl

end Path

namespace Plain

variable {m : Machine} {c c' : ℕ} {t : Slot} {a : Plain}

lemma modifyCpu_current {f : PerCpu → PerCpu} (hf : ∀ p, (f p).current = p.current) :
    ((m.modifyCpu c f).cpu c').current = (m.cpu c').current := by
  by_cases h : c' = c
  · rw [h, modifyCpu_self, hf]
  · rw [modifyCpu_ne _ h]

lemma tickQuantum_current : ((m.tickQuantum c).cpu c').current = (m.cpu c').current := by
  unfold Machine.tickQuantum
  split
  · rfl
  · split_ifs
    · dsimp only
      split_ifs
      · exact modifyCpu_current fun _ => rfl
      · rfl
    · rfl

/-- A section leaves every cpu its task. -/
lemma run_current (a : Plain) : ((a.run m c).cpu c').current = (m.cpu c').current := by
  cases a with
  | tick =>
    rw [run, Machine.schedTick, tickQuantum_current, (Machine.foldl_ticked _ m).cpu]
  | wake w n =>
    have hcpu := (Machine.wakeLoop_swept w.checksDead (m.cpu c).current (w.queue n) (MAX_TASKS + 1)
      m false).cpu
    rw [← hcpu]
    simp only [run, Machine.wake]
    split_ifs
    · exact modifyCpu_current fun _ => rfl
    · rfl
  | sleepArm msecs =>
    simp only [run]
    split
    · rfl
    · rfl
  | create u prio => rfl

/-- A running task that the section does not wake stays so. -/
lemma run_running {p : Point} (hen : a.enabled m p = true) (hrun : (m.task t).state = .running)
    (hoff : ∀ w n, a = .wake w n → t ∉ m.onQueue (w.queue n)) :
    ((a.run m c).task t).state = .running := by
  cases a with
  | tick =>
    rw [run, Machine.schedTick, ((Machine.tickQuantum_same _ c).1 t).1]
    rcases (Machine.foldl_ticked (List.finRange MAX_TASKS) m).task t with heq | ⟨hs, _⟩
    · rw [heq]
      exact hrun
    · rw [hrun] at hs
      simp at hs
  | wake w n =>
    obtain ⟨m', hsw, -, htask, -⟩ := Machine.wake_swept (m := m) (c := c) (q := w.queue n) w
    show ((m.wake w c (w.queue n)).task t).state = .running
    rw [htask, hsw.off t (hoff w n rfl)]
    exact hrun
  | sleepArm msecs =>
    simp only [run]
    split
    · next u _ =>
      by_cases h : t = u
      · rw [h] at hrun ⊢
        rw [Machine.sleepArm, modifyTask_self]
        exact hrun
      · rw [Machine.sleepArm, modifyTask_ne _ h]
        exact hrun
    · exact hrun
  | create u prio =>
    have hne : t ≠ u := by
      intro h
      have hun : (m.task u).state = .unused := by
        simp only [enabled, Bool.and_eq_true, decide_eq_true_eq] at hen
        exact hen.2
      rw [← h, hrun] at hun
      simp at hun
    have hkeep : (m.taskCreate u prio).task t = m.task t := Function.update_of_ne hne _ _
    rw [run, hkeep]
    exact hrun

/-- A wake that finds a running task makes it ready. -/
lemma run_woken {w : Machine.Waker} {n : ℕ} (hmem : t ∈ m.onQueue (w.queue n))
    (hrun : (m.task t).state = .running) :
    ((Plain.run m c (.wake w n)).task t).state = .ready := by
  obtain ⟨m', hsw, -, htask, -⟩ := Machine.wake_swept (m := m) (c := c) (q := w.queue n) w
  show ((m.wake w c (w.queue n)).task t).state = .ready
  rw [htask, hsw.state t hmem, hrun]
  simp [Machine.woken]

end Plain

/-! ## The invariant -/

namespace Handoff

variable {s s' : Handoff} {c c' : ℕ} {t : Slot}

/-- Cpus in the scheduler loop apart, every cpu has a task of its own, which is running unless
it is in a park; the cpu of a park has the lock until the scheduler loop releases it. -/
structure Inv (s : Handoff) : Prop where
  current : ∀ c, s.point c = .back ∨ (s.point c).hasTask = true →
    ∃ t, (s.mach.cpu c).current = some t
  once : ∀ c c' t, s.OnCpu c t → s.OnCpu c' t → c = c'
  running : ∀ c t, s.OnCpu c t → s.point c ≠ .parking .body → (s.mach.task t).state = .running
  lock : ∀ c, s.point c = .back ∨ s.point c = .parking .body → s.lock = some c
  body : ∀ c, s.point c ≠ .exec .unlocked ∧ s.point c ≠ .parking .unlocked
  ctx : ∀ t, s.ctx t = .body

lemma not_onCpu {p : Point} (hpoint : s.point c = p) (hp : p.hasTask = false) (t : Slot) :
    ¬ s.OnCpu c t := by
  intro hon
  have hhas := hon.1
  rw [hpoint, hp] at hhas
  simp at hhas

lemma Start.inv (h : s.Start) : s.Inv := by
  have hoff : ∀ c t, ¬ s.OnCpu c t := fun c => not_onCpu (h.point c) rfl
  refine ⟨fun c hc => ?_, fun c _ t hon => absurd hon (hoff c t),
    fun c t hon => absurd hon (hoff c t), fun c hc => ?_, fun c => ?_, h.ctx⟩
  · rw [h.point c] at hc
    simp [Point.hasTask] at hc
  · rw [h.point c] at hc
    simp at hc
  · rw [h.point c]
    simp

/-- A task that is not running is in a park, and its cpu has the lock. -/
lemma Inv.held (h : s.Inv) : s.Held := by
  intro c t hon hne
  have hpark : s.point c = .parking .body := by
    by_contra hp
    exact hne (h.running c t hon hp)
  exact h.lock c (.inr hpark)

/-- While the lock is free the task of every cpu is running. -/
lemma Inv.running_of_free (h : s.Inv) (hfree : s.lock = none) (hon : s.OnCpu c t) :
    (s.mach.task t).state = .running := by
  by_contra hne
  have hlock := h.held c t hon hne
  rw [hfree] at hlock
  simp at hlock

lemma OnCpu.congr (hpoint : s'.point c = s.point c)
    (hcur : (s'.mach.cpu c).current = (s.mach.cpu c).current) :
    s'.OnCpu c t ↔ s.OnCpu c t := by
  unfold OnCpu
  rw [hpoint, hcur]

/-- A step that moves one cpu. -/
lemma Inv.move (h : s.Inv) (c : ℕ)
    (hpoint : ∀ c', c' ≠ c → s'.point c' = s.point c')
    (hcur : ∀ c', c' ≠ c → (s'.mach.cpu c').current = (s.mach.cpu c').current)
    (hstate : ∀ c' t, c' ≠ c → s.OnCpu c' t → (s'.mach.task t).state = (s.mach.task t).state)
    (hlock : ∀ c', c' ≠ c → s.point c' = .back ∨ s.point c' = .parking .body → s'.lock = some c')
    (hctx : ∀ t, s'.ctx t = .body)
    (hcurrent : s'.point c = .back ∨ (s'.point c).hasTask = true →
      ∃ t, (s'.mach.cpu c).current = some t)
    (honce : ∀ t, s'.OnCpu c t → ∀ c', c' ≠ c → ¬ s.OnCpu c' t)
    (hrun : ∀ t, s'.OnCpu c t → s'.point c ≠ .parking .body →
      (s'.mach.task t).state = .running)
    (hown : s'.point c = .back ∨ s'.point c = .parking .body → s'.lock = some c)
    (hbody : s'.point c ≠ .exec .unlocked ∧ s'.point c ≠ .parking .unlocked) : s'.Inv := by
  have hon : ∀ c' t, c' ≠ c → (s'.OnCpu c' t ↔ s.OnCpu c' t) :=
    fun c' t hne => OnCpu.congr (hpoint c' hne) (hcur c' hne)
  refine ⟨fun c' hc' => ?_, fun c₁ c₂ t h₁ h₂ => ?_, fun c' t hc' hp => ?_, fun c' hc' => ?_,
    fun c' => ?_, hctx⟩
  · by_cases hne : c' = c
    · rw [hne] at hc' ⊢
      exact hcurrent hc'
    · rw [hpoint c' hne] at hc'
      rw [hcur c' hne]
      exact h.current c' hc'
  · by_cases hne₁ : c₁ = c
    · by_cases hne₂ : c₂ = c
      · rw [hne₁, hne₂]
      · rw [hne₁] at h₁
        exact absurd ((hon c₂ t hne₂).mp h₂) (honce t h₁ c₂ hne₂)
    · by_cases hne₂ : c₂ = c
      · rw [hne₂] at h₂
        exact absurd ((hon c₁ t hne₁).mp h₁) (honce t h₂ c₁ hne₁)
      · exact h.once c₁ c₂ t ((hon c₁ t hne₁).mp h₁) ((hon c₂ t hne₂).mp h₂)
  · by_cases hne : c' = c
    · rw [hne] at hc' hp
      exact hrun t hc' hp
    · rw [hpoint c' hne] at hp
      have hold := (hon c' t hne).mp hc'
      rw [hstate c' t hne hold]
      exact h.running c' t hold hp
  · by_cases hne : c' = c
    · rw [hne] at hc' ⊢
      exact hown hc'
    · rw [hpoint c' hne] at hc'
      exact hlock c' hne hc'
  · by_cases hne : c' = c
    · rw [hne]
      exact hbody
    · rw [hpoint c' hne]
      exact h.body c'

/-- A step that moves no cpu and lets running tasks run. -/
lemma Inv.stay (h : s.Inv) (hpoint : s'.point = s.point) (hlock : s'.lock = s.lock)
    (hctx : s'.ctx = s.ctx)
    (hcur : ∀ c, (s'.mach.cpu c).current = (s.mach.cpu c).current)
    (hrun : ∀ c t, s.OnCpu c t → s.point c ≠ .parking .body →
      (s'.mach.task t).state = .running) : s'.Inv := by
  have hon : ∀ c t, s'.OnCpu c t ↔ s.OnCpu c t :=
    fun c t => OnCpu.congr (congrFun hpoint c) (hcur c)
  refine ⟨fun c hc => ?_, fun c₁ c₂ t h₁ h₂ => ?_, fun c t hc hp => ?_, ?_, ?_, ?_⟩
  · rw [hpoint] at hc
    rw [hcur]
    exact h.current c hc
  · exact h.once c₁ c₂ t ((hon c₁ t).mp h₁) ((hon c₂ t).mp h₂)
  · rw [hpoint] at hp
    exact hrun c t ((hon c t).mp hc) hp
  · rw [hpoint, hlock]
    exact h.lock
  · rw [hpoint]
    exact h.body
  · rw [hctx]
    exact h.ctx

/-! ## Steps -/

lemma setPoint_self (s : Handoff) (c : ℕ) (p : Point) : (s.setPoint c p).point c = p :=
  Function.update_self _ _ _

/-- A cpu that is moved to a point in the body of a path, or outside of all paths. -/
lemma setPoint_body {p : Point} (s : Handoff) (c : ℕ) (hexec : p ≠ .exec .unlocked)
    (hpark : p ≠ .parking .unlocked) :
    (s.setPoint c p).point c ≠ .exec .unlocked ∧
      (s.setPoint c p).point c ≠ .parking .unlocked := by
  rw [setPoint_self]
  exact ⟨hexec, hpark⟩

lemma setPoint_ne (p : Point) (h : c' ≠ c) : (s.setPoint c p).point c' = s.point c' :=
  Function.update_of_ne h _ _

/-- With the lock free no cpu is in a park or behind one. -/
lemma Inv.free (h : s.Inv) (hfree : s.lock = none) :
    ¬(s.point c = .back ∨ s.point c = .parking .body) := by
  intro hc
  have hlock := h.lock c hc
  rw [hfree] at hlock
  simp at hlock

/-- With the lock at one cpu no other is in a park or behind one. -/
lemma Inv.others (h : s.Inv) (hlock : s.lock = some c) (hne : c' ≠ c) :
    ¬(s.point c' = .back ∨ s.point c' = .parking .body) := by
  intro hc
  have hlock' := h.lock c' hc
  rw [hlock] at hlock'
  exact hne (Option.some.inj hlock').symm

/-- The picked task is ready, so with the lock free it is on no cpu. -/
lemma Inv.picked (h : s.Inv) (hfree : s.lock = none) (hpick : s.mach.pickNext = some t) :
    ¬ s.OnCpu c t := by
  intro hon
  have hrun := h.running_of_free hfree hon
  rw [Machine.pickNext_ready hpick] at hrun
  simp at hrun

lemma Inv.dispatch (h : s.Inv) (hfree : s.lock = none) : (s.dispatch c).Inv := by
  have hlock : ∀ c', c' ≠ c → s.point c' = .back ∨ s.point c' = .parking .body →
      (s.dispatch c).lock = some c' := fun c' _ hc' => absurd hc' (h.free hfree)
  cases hpick : s.mach.pickNext with
  | none =>
    have hpoint : (s.dispatch c).point c = .idle := by
      rw [Handoff.dispatch, if_pos hpick]
      exact setPoint_self s c .idle
    have hmach : (s.dispatch c).mach = s.mach.modifyCpu c fun p => { p with current := none } := by
      show s.mach.schedRun c = _
      rw [Machine.schedRun, hpick]
    have hoff : ∀ t, ¬(s.dispatch c).OnCpu c t := not_onCpu hpoint rfl
    refine h.move c (fun c' hne => setPoint_ne _ hne) (fun c' hne => ?_) (fun c' t _ _ => ?_) hlock
      h.ctx ?_ (fun t hon => absurd hon (hoff t)) (fun t hon => absurd hon (hoff t)) ?_ ?_
    · rw [hmach, modifyCpu_ne _ hne]
    · rw [hmach, modifyCpu_task]
    · rw [hpoint]
      simp [Point.hasTask]
    · rw [hpoint]
      simp
    · rw [hpoint]
      simp
  | some u =>
    have hpoint : (s.dispatch c).point c = .loading := by
      rw [Handoff.dispatch, if_neg (by rw [hpick]; simp)]
      exact setPoint_self s c .loading
    have hmach : (s.dispatch c).mach = (s.mach.modifyTask u fun t =>
        { t with state := .running, quantumLeft := SCHED_QUANTUM }).modifyCpu c fun p =>
        { p with current := some u, dispatched := true } := by
      show s.mach.schedRun c = _
      rw [Machine.schedRun, hpick]
    have hcur : ((s.dispatch c).mach.cpu c).current = some u := by
      rw [hmach, modifyCpu_self]
    have hon : ∀ t, (s.dispatch c).OnCpu c t → t = u := by
      intro t hon
      have heq := hon.2
      rw [hcur] at heq
      exact (Option.some.inj heq).symm
    refine h.move c (fun c' hne => setPoint_ne _ hne) (fun c' hne => ?_) (fun c' t _ ht => ?_)
      hlock h.ctx (fun _ => ⟨u, hcur⟩) (fun t ht c' _ hc' => ?_) (fun t ht _ => ?_) ?_ ?_
    · rw [hmach, modifyCpu_ne _ hne, Machine.modifyTask_cpu]
    · -- the picked task is ready, so it is none of those the other cpus have
      have hne : t ≠ u := fun heq => h.picked hfree hpick (heq ▸ ht)
      rw [hmach, modifyCpu_task, modifyTask_ne _ hne]
    · rw [hon t ht] at hc'
      exact h.picked hfree hpick hc'
    · rw [hon t ht, hmach, modifyCpu_task, modifyTask_self]
    · rw [hpoint]
      simp
    · rw [hpoint]
      simp

lemma Inv.load (h : s.Inv) (hpoint : s.point c = .loading) : (s.load c).Inv := by
  have hhas : (s.point c).hasTask = true := by rw [hpoint]; rfl
  obtain ⟨u, hcur⟩ := h.current c (.inr hhas)
  have hload : s.load c = s.setPoint c (.exec .body) := by
    simp only [Handoff.load, hcur, h.ctx u]
  rw [hload]
  have hself := setPoint_self s c (.exec .body)
  have hon : ∀ t, (s.setPoint c (.exec .body)).OnCpu c t → s.OnCpu c t :=
    fun t ht => ⟨hhas, ht.2⟩
  refine h.move c (fun c' hne => setPoint_ne _ hne) (fun _ _ => rfl) (fun _ _ _ _ => rfl)
    (fun c' _ hc' => h.lock c' hc') h.ctx (fun _ => ⟨u, hcur⟩)
    (fun t ht c' hne hc' => hne (h.once c' c t hc' (hon t ht)))
    (fun t ht _ => h.running c t (hon t ht) (by rw [hpoint]; simp)) ?_
    (setPoint_body s c (by simp) (by simp))
  rw [hself]
  simp

/-- In the code of its task, with the lock free, a cpu enters a path. -/
lemma enter_eq (p : Path) (hcur : (s.mach.cpu c).current = some t)
    (hpoint : s.point c = .exec .body) :
    s.enter c p = if p.keepsLock then
      { s.setPoint c (.parking .body) with mach := p.mark s.mach c t, lock := some c }
    else { s.setPoint c (.exec .unlocked) with mach := p.mark s.mach c t } := by
  simp only [Handoff.enter, hcur, hpoint, Point.code]

lemma Inv.enter {p : Path} (h : s.Inv) (hfree : s.lock = none) (hpoint : s.point c = .exec .body)
    (hkeep : p.keepsLock = true) : (s.enter c p).Inv := by
  have hhas : (s.point c).hasTask = true := by rw [hpoint]; rfl
  obtain ⟨u, hcur⟩ := h.current c (.inr hhas)
  rw [enter_eq p hcur hpoint, if_pos hkeep]
  have hself : (s.setPoint c (.parking .body)).point c = .parking .body := setPoint_self s c _
  have hcur' : ((p.mark s.mach c u).cpu c).current = some u := by rw [Path.mark_current, hcur]
  refine h.move c (fun c' hne => setPoint_ne _ hne) (fun c' _ => Path.mark_current p)
    (fun c' t hne ht => ?_) (fun c' _ hc' => absurd hc' (h.free hfree)) h.ctx
    (fun _ => ⟨u, hcur'⟩) (fun t ht c' hne hc' => ?_) (fun t _ hp => absurd hself hp)
    (fun _ => rfl) ?_
  · -- the task that the path marks is on this cpu only
    have hother : t ≠ u := fun heq => hne (h.once c' c u (heq ▸ ht) ⟨hhas, hcur⟩)
    exact congrArg Task.state (Path.mark_ne p hother)
  · have heq : t = u := Option.some.inj (ht.2.symm.trans hcur')
    exact hne (h.once c' c u (heq ▸ hc') ⟨hhas, hcur⟩)
  · exact setPoint_body s c (by simp) (by simp)

lemma Inv.switch (h : s.Inv) (hpoint : s.point c = .parking .body) : (s.switch c).Inv := by
  obtain ⟨u, hcur⟩ := h.current c (.inr (by rw [hpoint]; rfl))
  have hlock := h.lock c (.inr hpoint)
  have hsw : s.switch c = { s.setPoint c .back with ctx := Function.update s.ctx u .body } := by
    simp only [Handoff.switch, hcur, hpoint, resumes]
  rw [hsw]
  have hself : (s.setPoint c .back).point c = .back := setPoint_self s c _
  have hoff : ∀ t, ¬({ s.setPoint c .back with ctx := Function.update s.ctx u .body } :
      Handoff).OnCpu c t := not_onCpu hself rfl
  refine h.move c (fun c' hne => setPoint_ne _ hne) (fun _ _ => rfl) (fun _ _ _ _ => rfl)
    (fun c' hne hc' => absurd hc' (h.others hlock hne)) (fun t => ?_) (fun _ => ⟨u, hcur⟩)
    (fun t hon => absurd hon (hoff t)) (fun t hon => absurd hon (hoff t)) (fun _ => hlock) ?_
  · by_cases ht : t = u
    · rw [ht]
      exact Function.update_self _ _ _
    · exact (Function.update_of_ne ht _ _).trans (h.ctx t)
  · exact setPoint_body s c (by simp) (by simp)

lemma Inv.back (h : s.Inv) (hpoint : s.point c = .back) : (s.back c).Inv := by
  obtain ⟨u, hcur⟩ := h.current c (.inl hpoint)
  have hlock := h.lock c (.inl hpoint)
  have hback : s.back c
      = { s.setPoint c .loop with mach := s.mach.schedPark c u, lock := none } := by
    simp only [Handoff.back, hcur]
  rw [hback]
  have hself : (s.setPoint c .loop).point c = .loop := setPoint_self s c _
  have hoff : ∀ t, ¬({ s.setPoint c .loop with mach := s.mach.schedPark c u, lock := none } :
      Handoff).OnCpu c t := not_onCpu hself rfl
  refine h.move c (fun c' hne => setPoint_ne _ hne) (fun c' hne => ?_)
    (fun c' t _ _ => Machine.schedPark_state) (fun c' hne hc' => absurd hc' (h.others hlock hne))
    h.ctx ?_ (fun t hon => absurd hon (hoff t)) (fun t hon => absurd hon (hoff t)) ?_ ?_
  · rw [Machine.schedPark, modifyCpu_ne _ hne, Machine.modifyTask_cpu]
  · rw [hself]
    simp [Point.hasTask]
  · rw [hself]
    simp
  · exact setPoint_body s c (by simp) (by simp)

/-- A section that wakes no task of a cpu. -/
lemma Inv.plain {a : Plain} (h : s.Inv)
    (hen : a.enabled s.mach (s.point c) = true) (hclean : s.Clean (.plain c a)) :
    (s.turn (.plain c a)).Inv := by
  refine h.stay rfl rfl rfl (fun _ => Plain.run_current a) fun c' t hon hp => ?_
  refine Plain.run_running hen (h.running c' t hon hp) fun w n ha hmem => ?_
  subst ha
  exact hclean t hmem c' hon

/-- The code of a path is entered from the body of its task. -/
lemma Inv.enters {p : Path} (h : s.Inv) (hen : s.enabled (.enter c p) = true) :
    s.lock = none ∧ s.point c = .exec .body := by
  simp only [enabled, Bool.and_eq_true, decide_eq_true_eq] at hen
  refine ⟨hen.1, ?_⟩
  by_cases hp : p = .schedPostIrq
  · have hcode := hen.2
    rw [if_pos hp, Bool.and_eq_true] at hcode
    cases hpoint : s.point c with
    | exec k =>
      cases k with
      | body => rfl
      | unlocked => exact absurd hpoint (h.body c).1
    | _ => simp [hpoint, Point.code] at hcode
  · simpa [hp] using hen.2

lemma Inv.switches (h : s.Inv) (hen : s.enabled (.switch c) = true) :
    s.point c = .parking .body := by
  simp only [enabled, Bool.or_eq_true, decide_eq_true_eq] at hen
  obtain (hex | hpark) | hun := hen
  · exact absurd hex (h.body c).1
  · exact hpark
  · exact absurd hun (h.body c).2

lemma Inv.step {a : Turn} (h : s.Inv) (hclean : s.Clean a) (hstep : Step s a s') : s'.Inv := by
  obtain ⟨hen, rfl⟩ := hstep
  cases a with
  | clock => exact h.stay rfl rfl rfl (fun _ => rfl) fun c t hon hp => h.running c t hon hp
  | dispatch c =>
    simp only [enabled, Bool.and_eq_true, decide_eq_true_eq] at hen
    exact h.dispatch hen.1
  | load c => exact h.load (by simpa [enabled] using hen)
  | plain c a =>
    simp only [enabled, Bool.and_eq_true, decide_eq_true_eq] at hen
    exact h.plain hen.2 hclean
  | enter c p => exact h.enter (h.enters hen).1 (h.enters hen).2 hclean
  | switch c => exact h.switch (h.switches hen)
  | back c => exact h.back (by simpa [enabled] using hen)

/-- Every step saves the contexts it should; it leaves the discipline exactly if it is clean. -/
lemma Inv.savesContext {a : Turn} (h : s.Inv) (hen : s.enabled a = true) : s.SavesContext a := by
  cases a with
  | dispatch c =>
    simp only [enabled, Bool.and_eq_true, decide_eq_true_eq] at hen
    exact fun t hpick c' _ => h.picked hen.1 hpick
  | load c =>
    have hpoint : s.point c = .loading := by simpa [enabled] using hen
    intro t hcur c' hne hon
    exact hne (h.once c' c t hon ⟨by rw [hpoint]; rfl, hcur⟩)
  | switch c => exact h.lock c (.inr (h.switches hen))
  | _ => trivial

/-- A path that releases the lock early leaves a blocked task on its cpu. -/
lemma Inv.not_held_enter {p : Path} (h : s.Inv) (hen : s.enabled (.enter c p) = true)
    (hkeep : p.keepsLock = false) : ¬(s.enter c p).Held := by
  obtain ⟨hfree, hpoint⟩ := h.enters hen
  obtain ⟨u, hcur⟩ := h.current c (.inr (by rw [hpoint]; rfl))
  intro hheld
  rw [enter_eq p hcur hpoint, if_neg (by rw [hkeep]; simp)] at hheld
  have hon : ({ s.setPoint c (.exec .unlocked) with mach := p.mark s.mach c u } :
      Handoff).OnCpu c u := by
    refine ⟨?_, (Path.mark_current p).trans hcur⟩
    rw [setPoint_self]
    rfl
  -- blocked, on its cpu, and the lock is not that cpu's
  have hblocked : ((p.mark s.mach c u).task u).state = .blocked := Path.mark_blocked hkeep
  have hlock : s.lock = some c := hheld c u hon (by rw [hblocked]; simp)
  rw [hfree] at hlock
  simp at hlock

/-- A wake that finds the task of a cpu leaves it ready there. -/
lemma Inv.not_held_wake {w : Machine.Waker} {n : ℕ} (h : s.Inv) (hfree : s.lock = none)
    (hmem : t ∈ s.mach.onQueue (w.queue n)) (hon : s.OnCpu c' t) :
    ¬(s.turn (.plain c (.wake w n))).Held := by
  intro hheld
  have hready := Plain.run_woken (c := c) hmem (h.running_of_free hfree hon)
  have hon' : (s.turn (.plain c (.wake w n))).OnCpu c' t :=
    ⟨hon.1, (Plain.run_current (.wake w n)).trans hon.2⟩
  have hlock : s.lock = some c' := by
    refine hheld c' t hon' ?_
    show ((Plain.run s.mach c (.wake w n)).task t).state ≠ _
    rw [hready]
    simp
  rw [hfree] at hlock
  simp at hlock

lemma Inv.lawful_iff {a : Turn} (h : s.Inv) (hstep : Step s a s') :
    Lawful s a s' ↔ s.Clean a := by
  constructor
  · intro hlaw
    obtain ⟨hen, rfl⟩ := hstep
    cases a with
    | enter c p =>
      by_contra hkeep
      exact h.not_held_enter hen (by simpa [Clean] using hkeep) hlaw.2
    | plain c a =>
      cases a with
      | wake w n =>
        intro t hmem c' hon
        simp only [enabled, Bool.and_eq_true, decide_eq_true_eq] at hen
        exact h.not_held_wake hen.1 hmem hon hlaw.2
      | _ => trivial
    | _ => trivial
  · intro hclean
    exact ⟨h.savesContext hstep.1, (h.step hclean hstep).held⟩

/-- The cpus are about to enter the scheduler loop, with one task created. -/
def oneTask : Handoff where
  mach := Machine.boot.taskCreate 0 10
  lock := none
  point := fun _ => .loop
  ctx := fun _ => .body

lemma oneTask_start : oneTask.Start := ⟨fun _ => rfl, rfl, fun _ => rfl⟩

/-- The task parks on an empty queue, and cpu 0 idles. -/
def parked : List Turn :=
  [.dispatch 0, .load 0, .enter 0 (.ipcPark 0), .switch 0, .back 0, .dispatch 0]

end Handoff
end Sched
end MobilePhoneOs
