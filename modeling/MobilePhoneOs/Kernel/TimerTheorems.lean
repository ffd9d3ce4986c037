import MobilePhoneOs.Kernel.Poll
import MobilePhoneOs.Kernel.ProcTheorems
import MobilePhoneOs.Kernel.Timer

/-!
# Sleeping never ends early, on one cpu

With one cpu online `jiffies` counts the periods, and a sleeper is made ready when the periods it
has asked for are over. With a second cpu `jiffies` advances twice in a period.
-/

namespace MobilePhoneOs

open Function (update update_self update_apply update_of_ne)
namespace Sched

namespace Machine

variable {m : Machine} {c : ℕ} {t u : Slot}

/-! ## Tasks that sleep -/

lemma sleeping_schedRun (h : ((m.schedRun c).task u).state = .sleeping) :
    (m.task u).state = .sleeping := by
  unfold schedRun at h
  split at h
  · next t _ =>
    rw [modifyCpu_task] at h
    by_cases hu : u = t
    · rw [hu, modifyTask_self] at h
      simp at h
    · rwa [modifyTask_ne _ hu] at h
  · exact h

lemma sleeping_schedTick (h : ((m.schedTick c).task u).state = .sleeping) :
    (m.task u).state = .sleeping := by
  -- the quantum of the current task has no part in its state
  have htk := foldl_ticked (List.finRange MAX_TASKS) m
  unfold schedTick at h
  generalize (List.finRange MAX_TASKS).foldl tickStep m = m₁ at htk h
  rw [((tickQuantum_same m₁ c).1 u).1] at h
  rcases htk.task u with heq | ⟨hs, _⟩
  · rwa [heq] at h
  · exact hs

lemma sleeping_requeue (h : ((m.requeue t).task u).state = .sleeping) :
    (m.task u).state = .sleeping := by
  by_cases hu : u = t
  · rw [hu, requeue_self] at h
    simp at h
  · rwa [requeue_ne hu] at h

lemma sleeping_schedPostIrq (h : ((m.schedPostIrq c).task u).state = .sleeping) :
    (m.task u).state = .sleeping := by
  unfold schedPostIrq at h
  split at h
  · exact h
  · split_ifs at h
    · exact h
    · rw [schedPark_state] at h
      split_ifs at h
      · exact sleeping_requeue h
      · exact h

/-- A wake leaves nobody asleep that it meets. -/
lemma sleeping_wake {w : Waker} {q : QueueId} (h : ((m.wake w c q).task u).state = .sleeping) :
    (m.task u).state = .sleeping ∧ u ∉ m.onQueue q := by
  obtain ⟨m', hsw, -, htask, -⟩ := wake_swept (m := m) (c := c) (q := q) w
  rw [htask] at h
  by_cases hu : u ∈ m.onQueue q
  · rw [hsw.state u hu] at h
    unfold woken at h
    split_ifs at h
  · rw [hsw.off u hu] at h
    exact ⟨h, hu⟩

/-- Nobody falls asleep in the section of another task. -/
lemma sleeping_act {a : Act} (h : ((m.act a).task u).state = .sleeping)
    (hactor : Poll.actor a ≠ some u) : (m.task u).state = .sleeping := by
  cases a with
  | clock => exact h
  | dispatch c =>
    rw [act] at h
    exact sleeping_schedRun h
  | tick c =>
    rw [act] at h
    exact sleeping_schedTick h
  | postIrq c =>
    rw [act] at h
    exact sleeping_schedPostIrq h
  | yield c t =>
    rw [act, taskYield, schedPark_state] at h
    exact sleeping_requeue h
  | exit c t =>
    have hne : u ≠ t := fun heq => hactor (congrArg some heq.symm)
    rwa [act, taskExit, schedPark_state, modifyTask_ne _ hne] at h
  | sleepArm c t msecs =>
    have hne : u ≠ t := fun heq => hactor (congrArg some heq.symm)
    rwa [act, sleepArm, modifyTask_ne _ hne] at h
  | sleepPark c t =>
    have hne : u ≠ t := fun heq => hactor (congrArg some heq.symm)
    rwa [act, sleepPark, schedPark_state, modifyTask_ne _ hne] at h
  | park c t n =>
    have hne : u ≠ t := fun heq => hactor (congrArg some heq.symm)
    rwa [act, Machine.park, schedPark_state, link_ne _ hne] at h
  | pollPark c t timeoutMs =>
    have hne : u ≠ t := fun heq => hactor (congrArg some heq.symm)
    rwa [act, ipcPollPark, schedPark_state, modifyTask_ne _ hne, link_ne _ hne] at h
  | linkUnlocked c t q =>
    have hne : u ≠ t := fun heq => hactor (congrArg some heq.symm)
    cases q with
    | none => rwa [act, linkUnlocked, modifyTask_ne _ hne] at h
    | some n => rwa [act, linkUnlocked, modifyTask_ne _ hne, link_ne _ hne] at h
  | barePark c t =>
    have hne : u ≠ t := fun heq => hactor (congrArg some heq.symm)
    rwa [act, barePark, schedPark_state, modifyTask_ne _ hne] at h
  | wake w c n =>
    rw [act] at h
    exact (sleeping_wake h).1
  | create t prio =>
    by_cases hu : u = t
    · rw [hu] at h
      have hready : ((m.taskCreate t prio).task t).state = .ready := by
        simp [taskCreate, taskPrime, modifyTask]
      rw [act, hready] at h
      simp at h
    · have hkeep : (m.taskCreate t prio).task u = m.task u := update_of_ne hu _ _
      rwa [act, hkeep] at h

/-! ## Deadlines -/

/-- Whether a section writes the deadline of the task. -/
def Arms (t : Slot) : LifeAct → Prop
  | .sched (.sleepArm _ u _) | .sched (.pollPark _ u _) | .sched (.create u _)
  | .createDeferred u _ => u = t
  | _ => False

lemma modifyTask_wakeAt (f : Task → Task) (hf : (f (m.task t)).wakeAt = (m.task t).wakeAt) :
    ((m.modifyTask t f).task u).wakeAt = (m.task u).wakeAt := by
  by_cases hu : u = t
  · rw [hu, modifyTask_self, hf]
  · rw [modifyTask_ne _ hu]

/-- A section of the scheduler leaves the deadlines that it does not write. -/
lemma act_wakeAt (a : Act) (h : ¬ Arms u (.sched a)) :
    ((m.act a).task u).wakeAt = (m.task u).wakeAt := by
  cases a with
  | clock => rfl
  | dispatch c => exact schedRun_still.wakeAt u
  | tick c =>
    rw [act]
    exact schedTick_still.wakeAt u
  | postIrq c => exact schedPostIrq_still.wakeAt u
  | yield c t => exact (requeue_still.trans schedPark_still).wakeAt u
  | exit c t => exact (setState_park_still (by simp)).wakeAt u
  | sleepArm c t msecs =>
    have hne : u ≠ t := fun heq => h heq.symm
    rw [act, sleepArm, modifyTask_ne _ hne]
  | sleepPark c t => exact (setState_park_still (by simp)).wakeAt u
  | park c t n => exact ((link_still (by simp)).trans schedPark_still).wakeAt u
  | pollPark c t timeoutMs =>
    have hne : u ≠ t := fun heq => h heq.symm
    rw [act, ipcPollPark, schedPark_ne hne, modifyTask_ne _ hne, link_ne _ hne]
  | linkUnlocked c t q =>
    cases q with
    | none =>
      unfold act linkUnlocked
      apply modifyTask_wakeAt
      rfl
    | some n =>
      have hlink : Still m (m.link t (.other n) .blocked) := link_still (by simp)
      refine Eq.trans ?_ (hlink.wakeAt u)
      unfold act linkUnlocked
      apply modifyTask_wakeAt
      rfl
  | barePark c t =>
    refine (schedPark_still.wakeAt u).trans ?_
    apply modifyTask_wakeAt
    rfl
  | wake w c n => exact (wake_still w _).wakeAt u
  | create t prio =>
    have hne : u ≠ t := fun heq => h heq.symm
    exact congrArg Task.wakeAt (update_of_ne hne _ _)

/-- The wake-up time is set by the section that arms it, and by no other. -/
lemma life_wakeAt (a : LifeAct) (h : ¬ Arms u a) :
    ((m.life a).task u).wakeAt = (m.task u).wakeAt := by
  cases a with
  | sched a => exact act_wakeAt a h
  | createDeferred t prio =>
    have hne : u ≠ t := fun heq => h heq.symm
    have hprime : (m.taskPrime t prio).task u = m.task u := update_of_ne hne _ _
    rw [life, taskCreateDeferred, modifyTask_ne _ hne, hprime]
  | attach t p kstack =>
    unfold life attach
    apply modifyTask_wakeAt
    rfl
  | launch t =>
    have hqueue : Still m (m.requeue t) := requeue_still
    refine Eq.trans ?_ (hqueue.wakeAt u)
    unfold life taskLaunch
    apply modifyTask_wakeAt
    rfl
  | kill p leader =>
    unfold life markDead
    dsimp only
    split <;> rfl
  | reclaim t =>
    unfold life reclaim
    apply modifyTask_wakeAt
    rfl
  | reapSlot t =>
    rw [life, reapSlot]
    split
    · apply modifyTask_wakeAt
      rfl
    · rfl

/-- Only `jiffies_inc` advances the time. -/
lemma life_jiffies (a : LifeAct) (h : a ≠ .sched .clock) : (m.life a).jiffies = m.jiffies := by
  cases a with
  | sched a =>
    cases a with
    | clock => exact absurd rfl h
    | dispatch c => exact schedRun_still.jiffies
    | tick c =>
      rw [life, act]
      exact schedTick_still.jiffies
    | postIrq c => exact schedPostIrq_still.jiffies
    | linkUnlocked c t q => cases q <;> rfl
    | wake w c n => exact (wake_still w _).jiffies
    | _ => rfl
  | reapSlot t =>
    rw [life, reapSlot]
    split <;> rfl
  | _ => rfl

/-- Who puts a task to sleep: nobody but the second half of `msleep` and `ipc_poll_park`. -/
lemma life_sleeping (a : LifeAct) (h : ((m.life a).task u).state = .sleeping) :
    (m.task u).state = .sleeping ∨ (∃ c, a = .sched (.sleepPark c u)) ∨
      ∃ c timeoutMs, a = .sched (.pollPark c u timeoutMs) := by
  by_cases hold : (m.task u).state = .sleeping
  · exact .inl hold
  refine .inr ?_
  cases a with
  | sched a =>
    by_cases hactor : Poll.actor a = some u
    · cases a with
      | yield c t | exit c t | sleepArm c t msecs | park c t n | barePark c t =>
        cases Option.some.inj hactor
        simp [life, act, taskYield, taskExit, sleepArm, park, barePark, hold] at h
      | linkUnlocked c t q =>
        cases Option.some.inj hactor
        cases q <;> simp [life, act, linkUnlocked] at h
      | sleepPark c t =>
        cases Option.some.inj hactor
        exact .inl ⟨c, rfl⟩
      | pollPark c t timeoutMs =>
        cases Option.some.inj hactor
        exact .inr ⟨c, timeoutMs, rfl⟩
      | _ => cases hactor
    · exact absurd (sleeping_act h hactor) hold
  | createDeferred t prio =>
    by_cases hu : u = t
    · rw [life, taskCreateDeferred, hu, modifyTask_self] at h
      cases h
    · have hprime : (m.taskPrime t prio).task u = m.task u := update_of_ne hu _ _
      rw [life, taskCreateDeferred, modifyTask_ne _ hu, hprime] at h
      exact absurd h hold
  | attach t p kstack =>
    by_cases hu : u = t
    · rw [life, attach, hu, modifyTask_self] at h
      exact absurd (hu ▸ h) hold
    · rw [life, attach, modifyTask_ne _ hu] at h
      exact absurd h hold
  | launch t =>
    by_cases hu : u = t
    · rw [life, taskLaunch, hu, modifyTask_self, requeue_self] at h
      cases h
    · rw [life, taskLaunch, modifyTask_ne _ hu, requeue_ne hu] at h
      exact absurd h hold
  | kill p leader =>
    unfold life markDead at h
    dsimp only at h
    split at h
    · cases h
    · exact absurd h hold
  | reclaim t =>
    by_cases hu : u = t
    · rw [life, reclaim, hu, modifyTask_self] at h
      cases h
    · rw [life, reclaim, modifyTask_ne _ hu] at h
      exact absurd h hold
  | reapSlot t =>
    rw [life, reapSlot] at h
    split at h
    · by_cases hu : u = t
      · rw [hu, modifyTask_self] at h
        cases h
      · rw [modifyTask_ne _ hu] at h
        exact absurd h hold
    · exact absurd h hold

/-- A sleeper that a tick makes ready has expired. -/
lemma expired_of_tick (hs : (m.task t).state = .sleeping)
    (hr : ((m.schedTick c).task t).state = .ready) : m.expired (m.task t) = true := by
  have htk := foldl_ticked (List.finRange MAX_TASKS) m
  unfold schedTick at hr
  generalize (List.finRange MAX_TASKS).foldl tickStep m = m₁ at htk hr
  rw [((tickQuantum_same m₁ c).1 t).1] at hr
  rcases htk.task t with heq | ⟨_, hexp, _⟩
  · rw [heq, hs] at hr
    exact nomatch hr
  · exact hexp

/-- One round of the sleeper loop is about one task. -/
lemma tickStep_ne (hu : t ≠ u) : (m.tickStep u).task t = m.task t := by
  unfold tickStep
  split_ifs
  · exact update_of_ne hu _ _
  · rfl

/-- Every sleeper that has expired is made ready by the next tick. -/
lemma ready_of_expired (hs : (m.task t).state = .sleeping) (hexp : m.expired (m.task t) = true) :
    ((m.schedTick c).task t).state = .ready := by
  have hloop : ∀ (l : List Slot) (m : Machine), t ∈ l → (m.task t).state = .sleeping →
      m.expired (m.task t) = true → ((l.foldl tickStep m).task t).state = .ready := by
    intro l
    induction l with
    | nil => exact nofun
    | cons u l ih =>
      intro m ht hs hexp
      by_cases hu : t = u
      · -- the rest of the loop leaves a ready task alone
        have hready : ((m.tickStep u).task t).state = .ready := by
          rw [tickStep, if_pos ⟨hu ▸ hs, hu ▸ hexp⟩, hu, modifyTask_self]
        rcases (foldl_ticked l (m.tickStep u)).task t with heq | ⟨hsleep, _⟩
        · rw [List.foldl_cons, heq, hready]
        · rw [hready] at hsleep
          exact nomatch hsleep
      · have hjiffies : (m.tickStep u).jiffies = m.jiffies := (tickStep_ticked m u).jiffies
        apply ih (m.tickStep u) (List.mem_of_ne_of_mem hu ht)
        · rw [tickStep_ne hu, hs]
        · unfold expired at hexp ⊢
          rw [hjiffies, tickStep_ne hu, hexp]
  have hready := hloop (List.finRange MAX_TASKS) m (List.mem_finRange t) hs hexp
  unfold schedTick
  generalize (List.finRange MAX_TASKS).foldl tickStep m = m₁ at hready ⊢
  rw [((tickQuantum_same m₁ c).1 t).1, hready]

end Machine

namespace Timed

open Machine (Arms)

variable {s s' : Timed} {n : ℕ} {t u : Slot} {a : TimerAct}

/-! ## One step -/

/-- How the deadline of a task belongs to its wait: it is the time of the park, which was as many
periods ago as the wait is old, and at least the ticks that were asked for. -/
def Due (s : Timed) (t : Slot) (nap : Nap) : Prop :=
  match nap.ms with
  | none => (s.m.task t).wakeAt = 2 ^ 64 - 1
  | some ms => ∃ k, ms * TIME_HZ ≤ k * 1000 ∧ k ≤ 2 ^ 63 ∧ (s.m.task t).wakeAt < 2 ^ 64 ∧
      (s.m.task t).wakeAt + (s.period - nap.since) ≡ s.m.jiffies + k [MOD 2 ^ 64]

/-- The invariant of one cpu: the only timer counts the periods, and whoever sleeps or is about to
has a wait that its deadline belongs to. -/
structure Inv (s : Timed) : Prop where
  fires : s.fires 0 = s.period
  since : ∀ t nap, s.nap t = some nap → nap.since ≤ s.period
  due : ∀ t nap, s.nap t = some nap → s.Due t nap
  asleep : ∀ t, (s.m.task t).state = .sleeping ∨ s.armed t = true → s.nap t ≠ none

variable {m : Machine}

lemma inv_start (hm : ∀ t, (m.task t).state ≠ .sleeping) : (start m).Inv where
  fires := rfl
  since _ _ h := nomatch h
  due _ _ h := nomatch h
  asleep t h := by
    rcases h with h | h
    · exact absurd h (hm t)
    · exact nomatch h

/-- Before the ticks of a wait have passed its deadline has not. -/
lemma not_expired {x : Task} {e k : ℕ} (hw : x.wakeAt < 2 ^ 64) (hk : k ≤ 2 ^ 63)
    (he : e < k) (h : x.wakeAt + e ≡ m.jiffies + k [MOD 2 ^ 64]) : m.expired x = false := by
  unfold Nat.ModEq at h
  unfold Machine.expired
  rw [decide_eq_false_iff_not]
  omega

/-- An infinite wait expires only where the subtraction comes out below zero. -/
lemma not_expired_never {x : Task} (hw : x.wakeAt = 2 ^ 64 - 1)
    (h : 2 ^ 63 ≤ m.jiffies + 1 ∧ m.jiffies + 1 < 2 ^ 64) : m.expired x = false := by
  unfold Machine.expired
  rw [decide_eq_false_iff_not]
  omega

variable {c : ℕ}

/-- A tick on one cpu wakes only those whose wait is over. -/
lemma Inv.waited (h : s.Inv) (hok : s.Timely (.schedTick c))
    (hs : (s.m.task t).state = .sleeping) (hr : ((s.m.schedTick c).task t).state = .ready) :
    s.Waited t := by
  have hexp := Machine.expired_of_tick hs hr
  obtain ⟨nap, hnap⟩ := Option.ne_none_iff_exists'.mp (h.asleep t (.inl hs))
  have hdue := h.due t nap hnap
  unfold Due at hdue
  cases hms : nap.ms with
  | none =>
    rw [hms] at hdue
    rw [not_expired_never hdue (hok t nap hnap hms hs)] at hexp
    cases hexp
  | some ms =>
    rw [hms] at hdue
    obtain ⟨k, hask, hk, hw, heq⟩ := hdue
    refine ⟨nap, ms, hnap, hms, ?_⟩
    by_cases he : s.period - nap.since < k
    · rw [not_expired hw hk he heq] at hexp
      cases hexp
    · exact hask.trans (Nat.mul_le_mul_right _ (Nat.le_of_not_lt he))

/-- The ticks of `msleep` cover the milliseconds. -/
lemma sleep_ticks {msecs : ℕ} (h : msecs * TIME_HZ + 999 < 2 ^ 64) :
    let k := max ((msecs * TIME_HZ + 999) % 2 ^ 64 / 1000) 1
    msecs * TIME_HZ ≤ k * 1000 ∧ k ≤ 2 ^ 63 := by
  rw [Nat.mod_eq_of_lt h]
  omega

/-- The ticks of `ipc_poll_park` cover the milliseconds. -/
lemma poll_ticks {ms : ℕ} (h : ms * TIME_HZ < 2 ^ 64) :
    let k := ms * TIME_HZ % 2 ^ 64 / 1000 + 1
    ms * TIME_HZ ≤ k * 1000 ∧ k ≤ 2 ^ 63 := by
  rw [Nat.mod_eq_of_lt h]
  omega

/-- A period begins. -/
lemma Inv.fire (h : s.Inv) (hc : c = 0) : (s.act (.jiffiesInc c)).Inv := by
  have hperiod : (s.act (.jiffiesInc c)).period = s.period + 1 := by
    show max s.period (s.fires c + 1) = s.period + 1
    rw [hc, h.fires]
    omega
  constructor
  · show update s.fires c (s.fires c + 1) 0 = _
    rw [hperiod, ← h.fires, hc, update_self]
  · intro t nap hnap
    have hsince := h.since t nap hnap
    omega
  · intro t nap hnap
    have hsince := h.since t nap hnap
    have hdue := h.due t nap hnap
    unfold Due at hdue ⊢
    split at hdue
    · exact hdue
    · obtain ⟨k, hask, hk, hw, heq⟩ := hdue
      refine ⟨k, hask, hk, hw, ?_⟩
      have hage : (s.act (.jiffiesInc c)).period - nap.since = s.period - nap.since + 1 := by
        omega
      have htime : (s.act (.jiffiesInc c)).m.jiffies ≡ s.m.jiffies + 1 [MOD 2 ^ 64] :=
        Nat.mod_modEq _ _
      calc (s.m.task t).wakeAt + ((s.act (.jiffiesInc c)).period - nap.since)
          = (s.m.task t).wakeAt + (s.period - nap.since) + 1 := by rw [hage, Nat.add_assoc]
        _ ≡ s.m.jiffies + k + 1 [MOD 2 ^ 64] := heq.add_right 1
        _ = s.m.jiffies + 1 + k := by omega
        _ ≡ (s.act (.jiffiesInc c)).m.jiffies + k [MOD 2 ^ 64] := htime.symm.add_right k
  · exact h.asleep

/-- Where a wait comes from: it was there before, or the section has begun it or parked it. -/
inductive NapFrom (s : Timed) (t : Slot) (nap : Nap) : LifeAct → Prop
  | old {a : LifeAct} (hnap : s.nap t = some nap) (ha : ¬ Arms t a) : NapFrom s t nap a
  | armed (c msecs : ℕ) (hnap : nap = ⟨some msecs, s.period⟩) :
      NapFrom s t nap (.sched (.sleepArm c t msecs))
  | parked (c : ℕ) (old : Nap) (hold : s.nap t = some old)
      (hnap : nap = { old with since := s.period }) : NapFrom s t nap (.sched (.sleepPark c t))
  | polled (c : ℕ) (timeoutMs : ℤ)
      (hnap : nap = ⟨if timeoutMs < 0 then none else some timeoutMs.toNat, s.period⟩) :
      NapFrom s t nap (.sched (.pollPark c t timeoutMs))

variable {nap : Nap}

lemma napFrom (a : LifeAct) (h : s.napAfter a t = some nap) : NapFrom s t nap a := by
  unfold napAfter at h
  split at h
  · next c u msecs =>
    rw [update_apply] at h
    split_ifs at h with ht
    · cases ht
      exact .armed c msecs (Option.some.inj h).symm
    · exact .old h fun harm => ht harm.symm
  · next c u =>
    rw [update_apply] at h
    split_ifs at h with ht
    · cases ht
      obtain ⟨old, hold, hnap⟩ := Option.map_eq_some_iff.mp h
      exact .parked c old hold hnap.symm
    · exact .old h id
  · next c u timeoutMs =>
    by_cases ht : t = u
    · cases ht
      rw [update_self] at h
      exact .polled c timeoutMs (Option.some.inj h).symm
    · rw [update_of_ne ht] at h
      exact .old h fun harm => ht harm.symm
  · next u _ =>
    rw [update_apply] at h
    split_ifs at h with ht
    exact .old h fun harm => ht harm.symm
  · next u _ =>
    rw [update_apply] at h
    split_ifs at h with ht
    exact .old h fun harm => ht harm.symm
  · next harm _ hpoll hcreate hdefer =>
    refine .old h fun ha => ?_
    unfold Arms at ha
    split at ha
    · exact harm _ _ _ rfl
    · exact hpoll _ _ _ rfl
    · exact hcreate _ _ rfl
    · exact hdefer _ _ rfl
    · exact ha

/-- A task without a wait after a section had none, or is fresh. -/
lemma nap_none {a : LifeAct} (h : s.napAfter a t = none) : s.nap t = none ∨ a.creates t := by
  unfold napAfter at h
  split at h
  · rw [update_apply] at h
    split_ifs at h
    exact .inl h
  · next u =>
    rw [update_apply] at h
    split_ifs at h with ht
    · exact .inl (ht ▸ Option.map_eq_none_iff.mp h)
    · exact .inl h
  · rw [update_apply] at h
    split_ifs at h
    exact .inl h
  · rw [update_apply] at h
    split_ifs at h with ht
    · exact .inr ht.symm
    · exact .inl h
  · rw [update_apply] at h
    split_ifs at h with ht
    · exact .inr ht.symm
    · exact .inl h
  · exact .inl h

/-- A task between the sections of `msleep` was there before, or has just begun a wait. -/
lemma armed_after {a : LifeAct} (h : s.armedAfter a t = true) :
    s.armed t = true ∨ s.napAfter a t ≠ none := by
  unfold armedAfter at h
  split at h
  · next u _ =>
    rw [update_apply] at h
    split_ifs at h with ht
    · refine .inr ?_
      rw [napAfter, ht, update_self]
      exact nofun
    · exact .inl h
  · rw [update_apply] at h
    split_ifs at h
    exact .inl h
  · rw [update_apply] at h
    split_ifs at h
    exact .inl h
  · rw [update_apply] at h
    split_ifs at h
    exact .inl h
  · exact .inl h

/-- A fresh task neither sleeps nor is about to. -/
lemma fresh_idle {a : LifeAct} (h : a.creates t) :
    ¬ (((s.m.life a).task t).state = .sleeping ∨ s.armedAfter a t = true) := by
  unfold LifeAct.creates at h
  split at h
  · next prio =>
    subst h
    rw [armedAfter, update_self]
    simp [Machine.life, Machine.act, Machine.taskCreate, Machine.taskPrime]
  · next prio =>
    subst h
    rw [armedAfter, update_self]
    simp [Machine.life, Machine.taskCreateDeferred]
  · exact h.elim

/-- A wait that was there before keeps its deadline. -/
lemma Due.other {a : LifeAct} (h : s.Due t nap) (ha : ¬ Arms t a)
    (hclock : a ≠ .sched .clock) : (s.act (.other a)).Due t nap := by
  have hwake : ((s.act (.other a)).m.task t).wakeAt = (s.m.task t).wakeAt :=
    Machine.life_wakeAt a ha
  have htime : (s.act (.other a)).m.jiffies = s.m.jiffies := Machine.life_jiffies a hclock
  have hperiod : (s.act (.other a)).period = s.period := rfl
  unfold Due at h ⊢
  rw [hwake, htime, hperiod]
  exact h

/-- A deadline that has just been set for `k` ticks. -/
lemma due_now {ms k : ℕ} (hms : nap.ms = some ms) (hsince : nap.since = s.period)
    (hk : ms * TIME_HZ ≤ k * 1000 ∧ k ≤ 2 ^ 63)
    (hwake : (s.m.task t).wakeAt = (s.m.jiffies + k) % 2 ^ 64) : s.Due t nap := by
  unfold Due
  rw [hms]
  refine ⟨k, hk.1, hk.2, ?_, ?_⟩
  · rw [hwake]
    exact Nat.mod_lt _ (by decide)
  · rw [hwake, hsince, Nat.sub_self, Nat.add_zero]
    exact Nat.mod_modEq _ _

lemma Inv.other {a : LifeAct} (h : s.Inv) (hruns : s.Runs n a) (hok : s.Timely (.other a)) :
    (s.act (.other a)).Inv := by
  have hclock : a ≠ .sched .clock := fun heq => by
    rw [heq] at hruns
    exact hruns
  refine ⟨h.fires, fun t nap hafter => ?_, fun t nap hafter => ?_, fun t hbusy hnone => ?_⟩
  · cases napFrom a hafter with
    | old hnap _ => exact h.since t nap hnap
    | armed c msecs hnap =>
      subst hnap
      exact Nat.le_refl _
    | parked c old _ hnap =>
      subst hnap
      exact Nat.le_refl _
    | polled c timeoutMs hnap =>
      subst hnap
      exact Nat.le_refl _
  · cases napFrom a hafter with
    | old hnap ha => exact (h.due t nap hnap).other ha hclock
    | armed c msecs hnap =>
      subst hnap
      have hwake : ((s.m.sleepArm t msecs).task t).wakeAt
          = (s.m.jiffies + max ((msecs * TIME_HZ + 999) % 2 ^ 64 / 1000) 1) % 2 ^ 64 := by
        rw [Machine.sleepArm, Machine.modifyTask_self]
      exact due_now rfl rfl (sleep_ticks hok) hwake
    | parked c old hold hnap =>
      -- no period has begun since the deadline was set
      have hsame : nap = old := by
        rw [hnap, ← hok old hold]
      rw [hsame]
      exact (h.due t old hold).other id hclock
    | polled c timeoutMs hnap =>
      have hwake : ((s.m.ipcPollPark c t timeoutMs).task t).wakeAt
          = if timeoutMs < 0 then 2 ^ 64 - 1
            else (s.m.jiffies + timeoutMs.toNat * TIME_HZ % 2 ^ 64 / 1000 + 1) % 2 ^ 64 := by
        rw [Machine.ipcPollPark, Machine.schedPark_self, Machine.modifyTask_self]
      by_cases hneg : timeoutMs < 0
      · rw [if_pos hneg] at hwake hnap
        subst hnap
        exact hwake
      · rw [if_neg hneg] at hwake hnap
        subst hnap
        exact due_now rfl rfl (poll_ticks hok) hwake
  · rcases nap_none hnone with hold | hfresh
    · have hidle : ¬ ((s.m.task t).state = .sleeping ∨ s.armed t = true) :=
        fun hbusy => h.asleep t hbusy hold
      rcases hbusy with hsleep | harmed
      · rcases Machine.life_sleeping a hsleep with hs | ⟨c, rfl⟩ | ⟨c, timeoutMs, rfl⟩
        · exact hidle (.inl hs)
        · exact hidle (.inr hruns.2.2)
        · have hsome : s.napAfter (.sched (.pollPark c t timeoutMs)) t ≠ none := by
            rw [napAfter, update_self]
            simp
          exact hsome hnone
      · rcases armed_after harmed with harmed | hnap
        · exact hidle (.inr harmed)
        · exact hnap hnone
    · exact fresh_idle hfresh hbusy

lemma Inv.tick (h : s.Inv) : (s.act (.schedTick c)).Inv := by
  have hstill : Machine.Still s.m (s.m.schedTick c) := Machine.schedTick_still
  rw [act]
  refine ⟨h.fires, h.since, fun t nap hnap => ?_, fun t hbusy => h.asleep t ?_⟩
  · have hdue := h.due t nap hnap
    unfold Due at hdue ⊢
    rw [hstill.wakeAt t, hstill.jiffies]
    exact hdue
  · dsimp only at hbusy
    exact hbusy.imp_left Machine.sleeping_schedTick

lemma Inv.step (hn : n ≤ 1) (h : s.Inv) (hstep : Guarded Timely (Step n) s a s') : s'.Inv := by
  obtain ⟨hok, henabled, rfl⟩ := hstep
  cases a with
  | jiffiesInc c =>
    have hc : c < n := henabled.1
    exact h.fire (by omega)
  | schedTick c => exact h.tick
  | other a => exact h.other henabled.1 hok

lemma Inv.lawful (h : s.Inv) (hstep : Guarded Timely (Step n) s a s') : Lawful s a s' := by
  obtain ⟨hok, -, rfl⟩ := hstep
  cases a with
  | schedTick c =>
    rw [act, Lawful]
    intro t hs hr
    dsimp only at hr
    exact h.waited hok hs hr
  | jiffiesInc c => trivial
  | other a => trivial

/-! ## Two cpus -/

/-- A task on cpu 0 goes to sleep for 20 ms, and the timers of two cpus fire in one period. -/
def earlyRun : List TimerAct :=
  [.other (.sched (.create 0 10)), .other (.sched (.dispatch 0)),
    .other (.sched (.sleepArm 0 0 20)), .other (.sched (.sleepPark 0 0)),
    .other (.sched (.dispatch 0)), .jiffiesInc 0, .jiffiesInc 1]

def early : Timed := earlyRun.foldl act (start Machine.boot)

lemma early_run (hn : 2 ≤ n) :
    Run (Guarded Timely (Step n)) (start Machine.boot) earlyRun early := by
  have henables : Enables (fun s a => s.Timely a ∧ s.Enabled n a) act (start Machine.boot)
      earlyRun := by
    have h0 : 0 < n := by omega
    have h1 : 1 < n := by omega
    refine ⟨⟨trivial, nofun, rfl⟩, ⟨trivial, ?_, rfl⟩, ⟨?_, ?_, ?_⟩, ⟨?_, ?_, ?_⟩,
      ⟨trivial, ?_, rfl⟩, ⟨trivial, h0, rfl, .inr rfl, fun _ _ => Nat.le_refl 0⟩,
      ⟨trivial, h1, rfl, .inr rfl, fun _ _ => Nat.zero_le _⟩, trivial⟩
    · exact fun c hc => by cases hc; exact ⟨h0, rfl⟩
    · exact (by decide : 20 * TIME_HZ + 999 < 2 ^ 64)
    · exact fun c hc => by cases hc; exact ⟨h0, rfl⟩
    · show Machine.Enabled _ (.sleepArm 0 0 20)
      decide
    · intro nap hnap
      cases hnap
      rfl
    · exact ⟨h0, rfl, rfl⟩
    · show Machine.Enabled _ (.sleepPark 0 0)
      decide
    · exact fun c hc => by cases hc; exact ⟨h0, rfl⟩
  exact Run.of_enables (fun _ _ h => ⟨h.1, h.2, rfl⟩) henables

/-- The task is made ready in the second half of one of the handlers, one period after its park. -/
lemma early_unlawful : ¬ Lawful early (.schedTick 0) (early.act (.schedTick 0)) := by
  intro hlaw
  have hs : (early.m.task 0).state = .sleeping := rfl
  have hwake : (early.m.task 0).wakeAt = 2 := rfl
  have htime : early.m.jiffies = 2 := rfl
  have hexp : early.m.expired (early.m.task 0) = true := by
    unfold Machine.expired
    rw [hwake, htime]
    rfl
  have hready := Machine.ready_of_expired (c := 0) hs hexp
  rw [act, Lawful] at hlaw
  dsimp only at hlaw
  obtain ⟨nap, ms, hnap, hms, hlong⟩ := hlaw 0 hs hready
  cases hnap
  cases hms
  exact absurd hlong (by decide)

/-- A task polls without a timeout on the only cpu, and its timer fires. -/
def endlessRun : List TimerAct :=
  [.other (.sched (.create 0 10)), .other (.sched (.dispatch 0)),
    .other (.sched (.pollPark 0 0 (-1))), .other (.sched (.dispatch 0)), .jiffiesInc 0]

def endless : Timed := endlessRun.foldl act (start Machine.boot)

lemma endless_run : Run (Step 1) (start Machine.boot) endlessRun endless := by
  have henables : Enables (fun s a => s.Enabled 1 a) act (start Machine.boot) endlessRun := by
    refine ⟨⟨nofun, rfl⟩, ⟨?_, rfl⟩, ⟨?_, ?_⟩, ⟨?_, rfl⟩,
      ⟨Nat.one_pos, rfl, .inr rfl, fun _ _ => Nat.le_refl 0⟩, trivial⟩
    · exact fun c hc => by cases hc; exact ⟨Nat.one_pos, rfl⟩
    · exact fun c hc => by cases hc; exact ⟨Nat.one_pos, rfl⟩
    · show Machine.Enabled _ (.pollPark 0 0 (-1))
      decide
    · exact fun c hc => by cases hc; exact ⟨Nat.one_pos, rfl⟩
  exact Run.of_enables (fun _ _ h => ⟨h, rfl⟩) henables

lemma endless_unlawful : ¬ Lawful endless (.schedTick 0) (endless.act (.schedTick 0)) := by
  intro hlaw
  have hs : (endless.m.task 0).state = .sleeping := rfl
  have hwake : (endless.m.task 0).wakeAt = 2 ^ 64 - 1 := rfl
  have htime : endless.m.jiffies = 1 := rfl
  have hexp : endless.m.expired (endless.m.task 0) = true := by
    unfold Machine.expired
    rw [hwake, htime]
    rfl
  have hready := Machine.ready_of_expired (c := 0) hs hexp
  rw [act, Lawful] at hlaw
  dsimp only at hlaw
  obtain ⟨nap, ms, hnap, hms, _⟩ := hlaw 0 hs hready
  cases hnap
  exact nomatch hms

/-! ## Every run -/

/-- **Sleeping never ends early.** With `n` cpus online every tick of every run whose steps meet
the condition makes ready only those whose wait is over, if and only if there is at most one. -/
theorem sleep_not_early (n : ℕ) :
    (∀ m : Machine, (∀ t, (m.task t).state ≠ .sleeping) →
      ∀ as s, Run (Guarded Timely (Step n)) (start m) as s →
      ∀ a s', Guarded Timely (Step n) s a s' → Lawful s a s') ↔ n ≤ 1 := by
  constructor
  · intro hlaw
    by_contra hn
    have hboot : ∀ t, (Machine.boot.task t).state ≠ .sleeping := fun _ => nofun
    have hstep : Guarded Timely (Step n) early (.schedTick 0) (early.act (.schedTick 0)) := by
      refine ⟨fun t nap hnap hms _ => ?_, rfl, rfl⟩
      -- the only wait is a finite one
      by_cases ht : t = 0
      · rw [ht] at hnap
        cases hnap
        exact nomatch hms
      · have hnone : early.nap t = none := by
          simp [early, earlyRun, act, napAfter, start, update_of_ne ht]
        rw [hnone] at hnap
        exact nomatch hnap
    exact early_unlawful (hlaw _ hboot _ _ (early_run (by omega)) _ _ hstep)
  · intro hn m hm as s hrun a s' hstep
    have hinv : s.Inv := hrun.invariant (inv_start hm) fun _ _ _ h => h.step hn
    exact hinv.lawful hstep

/-- With two cpus a sleep of 20 ms ends after one period, and on one cpu the first tick ends a poll
without a timeout. -/
theorem sleep_ends_early :
    (∃ as s, Run (Step 2) (start Machine.boot) as s ∧ s.Enabled 2 (.schedTick 0) ∧
      ¬ Lawful s (.schedTick 0) (s.act (.schedTick 0))) ∧
    ∃ as s, Run (Step 1) (start Machine.boot) as s ∧ s.Enabled 1 (.schedTick 0) ∧
      ¬ Lawful s (.schedTick 0) (s.act (.schedTick 0)) :=
  ⟨⟨_, _, (early_run (Nat.le_refl 2)).mono fun _ _ _ h => h.2, rfl, early_unlawful⟩,
    _, _, endless_run, rfl, endless_unlawful⟩

end Timed
end Sched
end MobilePhoneOs
