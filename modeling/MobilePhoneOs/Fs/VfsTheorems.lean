import MobilePhoneOs.Fs.Vfs
import MobilePhoneOs.Lib.Tally

/-!
# The reference count of an open file

The count of a file is the number of descriptors that point at it plus the references that
calls in progress hold, and the file is destroyed exactly when that number reaches zero, as
long as no call ends on one of the paths that forget a reference.
-/

namespace MobilePhoneOs

open Function (update update_self update_of_ne update_eq_self)
namespace Vfs

open Sched (Slot ProcId)

variable {f g : FileId} {fd : Fd} {tab : Table}

/-! ## References of a table and of a call -/

/-- The descriptors of a table that point at `f`. -/
def slots : Option Table → FileId → ℕ
  | none, _ => 0
  | some tab, f => ∑ fd, if tab fd = some f then 1 else 0

lemma slots_update (tab : Table) (fd : Fd) (x : Option FileId) :
    slots (some (update tab fd x)) f + (if tab fd = some f then 1 else 0)
      = slots (some tab) f + if x = some f then 1 else 0 :=
  sum_update_add Finset.univ (fun o : Option FileId => if o = some f then 1 else 0) tab
    (Finset.mem_univ fd) x

lemma slots_install {tab' : Table} (h : fdInstall tab g = some tab') :
    slots (some tab') f = slots (some tab) f + if g = f then 1 else 0 := by
  unfold fdInstall at h
  rw [Option.map_eq_some_iff] at h
  obtain ⟨fd, hfd, rfl⟩ := h
  have hfree : tab fd = none := by simpa using List.find?_some hfd
  have hupdate := slots_update (f := f) tab fd (some g)
  rw [hfree] at hupdate
  simpa using hupdate

lemma fdInstall_eq_none : fdInstall tab g = none ↔ ∀ fd, tab fd ≠ none := by
  unfold fdInstall
  simp

lemma slots_empty : slots (some fun _ => none) f = 0 := by
  unfold slots
  simp

/-- A table with an open descriptor counts for some file. -/
lemma slots_pos (h : tab fd = some f) : 0 < slots (some tab) f := by
  have hupdate := slots_update (f := f) tab fd none
  rw [if_pos h] at hupdate
  simp at hupdate
  omega

/-- The calls that close all files of a table hold just those. -/
lemma release_held (tab : Table) (f : FileId) : (Call.release tab).held.count f = slots (some tab) f := by
  have hfold : ∀ l : List Fd, (l.foldr (Call.releaseStep tab) .ret).held.count f
      = (l.map fun fd => if tab fd = some f then 1 else 0).sum := by
    intro l
    induction l with
    | nil => rfl
    | cons fd l ih =>
      rw [List.foldr_cons, List.map_cons, List.sum_cons, ← ih]
      unfold Call.releaseStep
      cases htab : tab fd with
      | none => simp
      | some g =>
        simp only [Call.held, List.count_cons, beq_iff_eq, Option.some.injEq]
        omega
  unfold Call.release
  rw [hfold]
  exact (Fin.sum_univ_def _).symm

namespace Call

/-- A failing `fd_install_of` leaves the call with what it was to install, and a call that sets
up a process speaks of one of the first `n`. -/
def Tidy (n : ℕ) : Call → Prop
  | .close _ k | .forget _ k | .put _ k => Tidy n k
  | .install f ok fail | .late f ok fail =>
    Tidy n ok ∧ Tidy n fail ∧ ∀ g, fail.held.count g = (f :: ok.held).count g
  | .spawning p | .forking p => p < n
  | .ret | .dup _ | .accepting _ => True

variable {n m : ℕ} {k : Call}

lemma Tidy.mono (hnm : n ≤ m) (h : k.Tidy n) : k.Tidy m := by
  induction k with
  | ret | dup _ | accepting _ => exact trivial
  | close _ k ih | forget _ k ih | put _ k ih => exact ih h
  | install f ok fail ihok ihfail | late f ok fail ihok ihfail =>
    exact ⟨ihok h.1, ihfail h.2.1, h.2.2⟩
  | spawning p | forking p => exact Nat.lt_of_lt_of_le h hnm

lemma tidy_release (tab : Table) : (release tab).Tidy n := by
  unfold release
  induction List.finRange PROC_FD_MAX with
  | nil => exact trivial
  | cons fd l ih =>
    rw [List.foldr_cons]
    unfold releaseStep
    cases tab fd with
    | none => exact ih
    | some f => exact ih

lemma tidy_installNew (f : FileId) : (installNew f).Tidy n :=
  ⟨trivial, trivial, fun _ => rfl⟩

lemma tidy_installPair (f g : FileId) : (installPair f g).Tidy n := by
  refine ⟨⟨trivial, trivial, fun _ => rfl⟩, trivial, fun a => ?_⟩
  simp only [held, List.count_cons, List.count_nil]
  omega

lemma tidy_accepted (lf cf : FileId) : (accepted lf cf).Tidy n := ⟨trivial, trivial, fun _ => rfl⟩

end Call

lemma FdCall.tidy (k : FdCall) {n : ℕ} : (k.rest fd f).Tidy n := by
  cases k <;> exact trivial

/-- Each of these calls starts with the one reference that `vfs_fd_get` took for it. -/
lemma FdCall.held (k : FdCall) : (k.rest fd f).held = [f] := by
  cases k <;> rfl

lemma NewCall.tidy (k : NewCall) {n : ℕ} : (k.rest f).Tidy n := by
  cases k with
  | usockServe published =>
    cases published
    · exact trivial
    · exact Call.tidy_installNew f
  | _ => exact Call.tidy_installNew f

lemma NewCall.held (k : NewCall) : (k.rest f).held = [f] := by
  cases k with
  | usockServe published => cases published <;> rfl
  | _ => rfl

lemma PairCall.tidy (k : PairCall) {n : ℕ} : (k.rest f g).Tidy n := by
  cases k <;> exact Call.tidy_installPair f g

lemma PairCall.held (k : PairCall) : (k.rest f g).held = [f, g] := by
  cases k <;> rfl

/-! ## Files that agree with a count -/

/-- The stored counts are `c`, and the files without a reference are the destroyed ones. -/
structure Agree (s : Files) (c : FileId → ℕ) : Prop where
  refs : ∀ f, (s.file f).refs = c f
  freed : ∀ f, (s.file f).freed = true ↔ f < s.fresh ∧ c f = 0
  unborn : ∀ f, s.fresh ≤ f → c f = 0

namespace Agree

variable {s : Files} {c c' : FileId → ℕ}

section

variable (h : Agree s c)
include h

lemma congr (hc : ∀ g, c' g = c g) : Agree s c' := by
  rwa [funext hc]

lemma live (hf : 0 < c f) : f < s.fresh ∧ (s.file f).freed = false := by
  constructor
  · by_contra hfresh
    exact hf.ne' (h.unborn f (Nat.not_lt.mp hfresh))
  · by_contra hfreed
    exact hf.ne' ((h.freed f).mp (by simpa using hfreed)).2

/-- References that are given up without a `file_close` are missed. -/
lemma drop {d : FileId → ℕ} (hc : ∀ g, c' g + d g = c g) :
    Agree s c' ↔ ∀ g, d g = 0 := by
  constructor
  · intro h' g
    have hnew := h'.refs g
    have hold := h.refs g
    have hg := hc g
    omega
  · intro hd
    refine h.congr fun g => ?_
    have hg := hc g
    rw [hd g] at hg
    exact hg

lemma ref (hf : 0 < c f) (hc : ∀ g, c' g = c g + if f = g then 1 else 0) :
    Agree (s.ref f) c' := by
  have hlive := h.live hf
  constructor
  · intro g
    unfold Files.ref
    by_cases hg : g = f
    · subst hg
      simp [hc, h.refs]
    · simp [update_of_ne hg, hc, h.refs, Ne.symm hg]
  · intro g
    unfold Files.ref
    by_cases hg : g = f
    · subst hg
      simp [hc, hlive.2]
    · simp [update_of_ne hg, hc, h.freed, Ne.symm hg]
  · intro g hg
    have hold := h.unborn g hg
    have hne : f ≠ g := by
      rintro rfl
      exact hf.ne' hold
    simp [hc, hold, hne]

lemma close (hc : ∀ g, c' g + (if f = g then 1 else 0) = c g) :
    Agree (s.close f) c' := by
  have hself := hc f
  rw [if_pos rfl] at hself
  have hlive := h.live (f := f) (by omega)
  constructor
  · intro g
    unfold Files.close
    by_cases hg : g = f
    · subst hg
      simp only [update_self, h.refs]
      omega
    · have hother := hc g
      rw [if_neg (Ne.symm hg)] at hother
      simp only [update_of_ne hg, h.refs]
      omega
  · intro g
    unfold Files.close
    by_cases hg : g = f
    · subst hg
      have hleft : c g - 1 = 0 ↔ c' g = 0 := by omega
      simp [h.refs, hlive.1, hlive.2, hleft]
    · have hother := hc g
      rw [if_neg (Ne.symm hg), Nat.add_zero] at hother
      simp only [update_of_ne hg, h.freed, hother]
  · intro g hg
    have hold := h.unborn g hg
    have hother := hc g
    omega

lemma alloc (hc : ∀ g, c' g = c g + if s.fresh = g then 1 else 0) :
    Agree s.alloc c' := by
  have hzero := h.unborn s.fresh le_rfl
  constructor
  · intro g
    unfold Files.alloc
    by_cases hg : g = s.fresh
    · subst hg
      simp [hc, hzero]
    · simp [update_of_ne hg, hc, h.refs, Ne.symm hg]
  · intro g
    unfold Files.alloc
    by_cases hg : g = s.fresh
    · subst hg
      simp [hc]
    · have hlt : g < s.fresh + 1 ↔ g < s.fresh :=
        ⟨fun hle => lt_of_le_of_ne (Nat.le_of_lt_succ hle) hg, Nat.lt_succ_of_lt⟩
      simp only [update_of_ne hg, hc, h.freed, if_neg (Ne.symm hg), hlt, Nat.add_zero]
  · intro g hg
    have hne : s.fresh ≠ g := by
      rintro rfl
      exact absurd hg (Nat.not_succ_le_self _)
    have hold := h.unborn g (Nat.le_of_succ_le hg)
    simp [hc, hold, hne]

/-- Every file that the table points at gets one more reference for each descriptor. -/
lemma refAll (tab : Table) (htab : ∀ fd f, tab fd = some f → 0 < c f) :
    Agree (Vfs.refAll s tab) fun g => c g + slots (some tab) g := by
  have hfold : ∀ (l : List Fd) (s : Files) (c : FileId → ℕ), Agree s c →
      (∀ fd f, tab fd = some f → 0 < c f) → Agree (l.foldl (refStep tab) s)
        fun g => c g + (l.map fun fd => if tab fd = some g then 1 else 0).sum := by
    intro l
    induction l with
    | nil => exact fun s c h _ => h
    | cons fd l ih =>
      intro s c h htab
      rw [List.foldl_cons]
      unfold refStep
      cases hfd : tab fd with
      | none =>
        refine (ih s c h htab).congr fun g => ?_
        simp [hfd]
      | some f =>
        have href : Agree (s.ref f) fun g => c g + if f = g then 1 else 0 :=
          h.ref (htab fd f hfd) fun _ => rfl
        refine (ih _ _ href fun fd g hg => ?_).congr fun g => ?_
        · have hpos := htab fd g hg
          omega
        · simp only [List.map_cons, List.sum_cons, hfd, Option.some.injEq]
          omega
  refine (hfold _ s c h htab).congr fun g => ?_
  exact congrArg (c g + ·) (Fin.sum_univ_def _)

end

/-- The console files of a new table have a descriptor each. -/
lemma consoleFiles (std : List Bool) (h : Agree s fun g => c g + slots (some tab) g) :
    Agree (consoleFiles std s tab).1 fun g => c g + slots (some (consoleFiles std s tab).2) g := by
  induction std generalizing s tab with
  | nil => exact h
  | cons ok std ih =>
    cases ok with
    | false => exact ih h
    | true =>
      unfold Vfs.consoleFiles
      have halloc : Agree s.alloc fun g => c g + slots (some tab) g + if s.fresh = g then 1 else 0 :=
        h.alloc fun _ => rfl
      split
      · next tab' htab =>
        refine ih (halloc.congr fun g => ?_)
        rw [slots_install htab]
        omega
      · exact ih (halloc.close fun _ => rfl)

lemma fdsInit (h : Agree s c) (std : Fin 3 → Bool) :
    Agree (vfsProcFdsInit s std).1 fun g => c g + slots (some (vfsProcFdsInit s std).2) g := by
  refine consoleFiles _ (h.congr fun g => ?_)
  rw [slots_empty, Nat.add_zero]

end Agree

/-! ## What a step does to the counts -/

namespace Sys

variable {s s' : Sys} {e : Event} {t u : Slot} {p : ProcId} {k : Call}

/-- The descriptors that point at `f`. -/
def pointing (s : Sys) (f : FileId) : ℕ := ∑ p ∈ Finset.range s.nproc, slots (s.fds p) f

/-- The references to `f` that calls in progress hold. -/
def inProgress (s : Sys) (f : FileId) : ℕ := ∑ t, (s.call t).held.count f

def count (s : Sys) (f : FileId) : ℕ := s.pointing f + s.inProgress f

/-- The stored count of every file is its number of descriptors and references in progress, and
the file is destroyed exactly when there are none left. -/
def Counted (s : Sys) : Prop := Agree s.files s.count

/-- Calls are tidy and speak of processes that there have been. -/
structure Shape (s : Sys) : Prop where
  tidy : ∀ t, (s.call t).Tidy s.nproc
  bound : ∀ t p, s.proc t = some p → p < s.nproc
  gone : ∀ p, s.nproc ≤ p → s.fds p = none

lemma count_setCall (s : Sys) (t : Slot) (k : Call) (f : FileId) :
    (s.setCall t k).count f + (s.call t).held.count f = s.count f + k.held.count f := by
  have hsum := sum_update_add Finset.univ (fun k : Call => k.held.count f) s.call
    (Finset.mem_univ t) k
  have hnew : (s.setCall t k).count f
      = s.pointing f + ∑ x, (update s.call t k x).held.count f := rfl
  have hold : s.count f = s.pointing f + ∑ x, (s.call x).held.count f := rfl
  omega

lemma count_setFds (s : Sys) (hp : p < s.nproc) (tab : Option Table) (f : FileId) :
    (s.setFds p tab).count f + slots (s.fds p) f = s.count f + slots tab f := by
  have hsum := sum_update_add (Finset.range s.nproc) (fun x => slots x f) s.fds
    (Finset.mem_range.mpr hp) tab
  have hnew : (s.setFds p tab).count f
      = ∑ x ∈ Finset.range s.nproc, slots (update s.fds p tab x) f + s.inProgress f := rfl
  have hold : s.count f = ∑ x ∈ Finset.range s.nproc, slots (s.fds x) f + s.inProgress f := rfl
  omega

/-- The table of a new process. -/
lemma count_grow (s : Sys) (tab : Option Table) (f : FileId) :
    ({ s with nproc := s.nproc + 1 }.setFds s.nproc tab).count f = s.count f + slots tab f := by
  have hsum := sum_update_succ (fun x => slots x f) s.fds s.nproc tab
  have hnew : ({ s with nproc := s.nproc + 1 }.setFds s.nproc tab).count f
      = ∑ x ∈ Finset.range (s.nproc + 1), slots (update s.fds s.nproc tab x) f
        + s.inProgress f := rfl
  have hold : s.count f = ∑ x ∈ Finset.range s.nproc, slots (s.fds x) f + s.inProgress f := rfl
  omega

lemma fdsOf_eq_some : s.fdsOf t = some (p, tab) ↔ s.proc t = some p ∧ s.fds p = some tab := by
  unfold fdsOf
  simp only [Option.bind_eq_some_iff, Option.map_eq_some_iff, Prod.mk.injEq]
  constructor
  · rintro ⟨q, hq, x, hx, rfl, rfl⟩
    exact ⟨hq, hx⟩
  · rintro ⟨hp, htab⟩
    exact ⟨p, hp, tab, htab, rfl, rfl⟩

lemma count_pos (hs : Shape s) (htab : s.fds p = some tab) (hf : tab fd = some f) :
    0 < s.count f := by
  have hp : p < s.nproc := by
    by_contra hge
    rw [hs.gone p (Nat.not_lt.mp hge)] at htab
    cases htab
  have hsum := count_setFds s hp none f
  have hpos := slots_pos hf
  rw [htab] at hsum
  have hnone : slots none f = 0 := rfl
  omega

/-- A task in no call starts one with what it gets for it. -/
lemma count_start (hret : s.call t = .ret) : (s.setCall t k).count f = s.count f + k.held.count f := by
  have hsum := count_setCall s t k f
  rw [hret] at hsum
  have hnil : Call.ret.held.count f = 0 := rfl
  omega

/-- A call goes on without having touched a table. -/
lemma count_go (hcall : s.call t = k) (k' : Call) (f : FileId) :
    (s.setCall t k').count f + k.held.count f = s.count f + k'.held.count f := by
  rw [← hcall]
  exact count_setCall s t k' f

/-- It still holds the same files. -/
lemma count_keep (hcall : s.call t = k) (k' : Call) (hk : k'.held = k.held) :
    (s.setCall t k').count f = s.count f := by
  have hsum := count_go hcall (k') f
  rw [hk] at hsum
  omega

/-- The call also replaces the table of a process. -/
lemma count_go_fds (hcall : s.call t = k) (hp : p < s.nproc) (k' : Call)
    (tab : Option Table) (f : FileId) :
    ((s.setFds p tab).setCall t k').count f + k.held.count f + slots (s.fds p) f
      = s.count f + k'.held.count f + slots tab f := by
  have hcalls := count_setCall (s.setFds p tab) t k' f
  have hfds := count_setFds s hp tab f
  rw [show (s.setFds p tab).call t = k from hcall] at hcalls
  omega

/-- The number of `f` in a list with one more file in front. -/
lemma held_cons (f g : FileId) (l : List FileId) :
    (f :: l).count g = l.count g + if f = g then 1 else 0 := by
  rw [List.count_cons]
  simp

/-- A file that moves from the call to a free descriptor keeps its count. -/
lemma count_install {ok : Call} (hcall : s.call t = k) (hk : k.held = f :: ok.held)
    (hp : p < s.nproc) (htab : s.fds p = some tab) {tab' : Table}
    (hinstall : Vfs.fdInstall tab f = some tab') :
    ((s.setFds p (some tab')).setCall t ok).count g = s.count g := by
  have hsum := count_go_fds hcall hp ok (some tab') g
  have hslots := slots_install (f := g) hinstall
  rw [hk, held_cons, htab] at hsum
  omega

/-- The next section of the call drops a file that nobody closes. -/
def Drops (s : Sys) (t : Slot) : Call → Prop
  | .forget _ _ => True
  | .dup _ => ∀ x ∈ s.fdsOf t, ∀ fd, x.2 fd ≠ none
  | _ => False

/-- The conditions under which a step gives no reference up: `sys_ioctl` and `sys_usock_accept`
are not used on an open descriptor, `sys_dup` finds room, `proc_do_fork` gets a task once it
has copied open descriptors, no late table replaces one with open descriptors, and the slot of a
task is given back outside its calls only. -/
def Keeps (s : Sys) : Event → Prop
  | .next t => ¬ s.Drops t (s.call t)
  | .fdsInit t _ => ∀ p f ok fail tab, s.proc t = some p → s.call t = .late f ok fail →
      s.fds p = some tab → ∀ fd, tab fd = none
  | .forkFails t => ∀ p tab, s.call t = .forking p → s.fds p = some tab → ∀ fd, tab fd = none
  | .reclaim u => (s.call u).held = []
  | _ => True

/-- The call of `t` ends an installation: the file goes to a descriptor, or the call fails. -/
lemma counted_install (h : s.Counted) (hs : Shape s) {ok fail : Call} (hcall : s.call t = k)
    (hk : k.held = f :: ok.held) (hfds : s.fdsOf t = some (p, tab)) :
    (s.fdInstall t (p, tab) f ok fail).Counted ↔
      (∃ fd, tab fd = none) ∨ ∀ g, fail.held.count g = k.held.count g := by
  obtain ⟨hproc, htab⟩ := fdsOf_eq_some.mp hfds
  have hp := hs.bound t p hproc
  unfold fdInstall
  cases hinstall : Vfs.fdInstall tab f with
  | some tab' =>
    refine iff_of_true ?_ (.inl ?_)
    · exact h.congr fun g => count_install hcall hk hp htab hinstall
    · by_contra hfull
      have hnone := fdInstall_eq_none (g := f).mpr (not_exists.mp hfull)
      rw [hinstall] at hnone
      cases hnone
  | none =>
    have hfull := fdInstall_eq_none.mp hinstall
    show Agree s.files _ ↔ _
    constructor
    · intro h'
      right
      intro g
      have hnew := h'.refs g
      have hold := h.refs g
      have hsum := count_go hcall fail g
      dsimp only at hnew
      omega
    · rintro (⟨fd, hfree⟩ | hsame)
      · exact absurd hfree (hfull fd)
      · refine h.congr fun g => ?_
        have hsum := count_go hcall fail g
        have hg := hsame g
        dsimp only
        omega

lemma counted_put (h : s.Counted) (hs : Shape s) (hcall : s.call t = .put fd k) :
    (s.next t).Counted := by
  have hskip : (s.setCall t k).Counted := Agree.congr h fun g => count_keep hcall _ rfl
  unfold next
  rw [hcall]
  dsimp only
  split
  · next p tab hfds =>
    obtain ⟨hproc, htab⟩ := fdsOf_eq_some.mp hfds
    split
    · next f hfd =>
      refine Agree.congr h fun g => ?_
      have hsum := count_go_fds hcall (hs.bound t p hproc) (.close f k)
        (some (update tab fd none)) g
      have hslots := slots_update (f := g) tab fd none
      have hheld : (Call.close f k).held.count g = _ := held_cons f g k.held
      have hput : (Call.put fd k).held.count g = k.held.count g := rfl
      rw [hfd] at hslots
      rw [htab] at hsum
      simp only [Option.some.injEq, reduceCtorEq, if_false] at hslots
      omega
    · exact hskip
  · exact hskip

lemma counted_next (h : s.Counted) (hs : Shape s) : (s.next t).Counted ↔ s.Keeps (.next t) := by
  have htidy := hs.tidy t
  show _ ↔ ¬ s.Drops t (s.call t)
  unfold next
  cases hcall : s.call t with
  | ret | late _ _ _ | accepting _ | spawning _ | forking _ => exact iff_of_true h id
  | close f k =>
    refine iff_of_true ?_ id
    show Agree (s.files.close f) (s.setCall t k).count
    refine Agree.close h fun g => ?_
    have hsum := count_go hcall k g
    have hheld : (Call.close f k).held.count g = _ := held_cons f g k.held
    omega
  | put fd k =>
    have hput := counted_put h hs hcall
    unfold next at hput
    rw [hcall] at hput
    exact iff_of_true hput id
  | install f ok fail =>
    rw [hcall] at htidy
    refine iff_of_true ?_ id
    dsimp only
    split
    · next x hfds =>
      exact (counted_install h hs hcall rfl hfds).mpr (.inr htidy.2.2)
    · exact Agree.congr h fun g => count_keep hcall _ rfl
  | dup f =>
    dsimp only
    split
    · next x hfds =>
      refine (counted_install h hs hcall rfl hfds).trans ?_
      constructor
      · rintro (⟨fd, hfree⟩ | hsame) hdrops
        · exact hdrops x hfds fd hfree
        · have hself := hsame f
          simp [Call.held] at hself
      · intro hroom
        left
        by_contra hfull
        refine hroom fun y hfds' fd hfree => ?_
        rw [hfds] at hfds'
        cases hfds'
        exact hfull ⟨fd, hfree⟩
    · next hnone =>
      show Agree s.files _ ↔ _
      rw [Agree.drop h (d := fun g => if f = g then 1 else 0) fun g => ?_]
      · constructor
        · intro hd
          exact absurd (hd f) (by simp)
        · intro hroom
          refine absurd (fun y hfds' => ?_) hroom
          rw [hnone] at hfds'
          cases hfds'
      · have hsum := count_go hcall .ret g
        have hheld : (Call.dup f).held.count g = _ := held_cons f g []
        have hnil : Call.ret.held.count g = 0 := rfl
        have hnil' : ([] : List FileId).count g = 0 := rfl
        omega
  | forget f k =>
    show Agree s.files (s.setCall t k).count ↔ ¬ True
    rw [Agree.drop h (d := fun g => if f = g then 1 else 0) fun g => ?_]
    · refine iff_of_false (fun hd => ?_) (not_not.mpr trivial)
      exact absurd (hd f) (by simp)
    · have hsum := count_go hcall k g
      have hheld : (Call.forget f k).held.count g = _ := held_cons f g k.held
      omega

/-- A table that goes takes its references with it. -/
lemma counted_lose (h : s.Counted) (hcall : s.call t = k) (hk : k.held = []) (hp : p < s.nproc) :
    ((s.setFds p none).setCall t .ret).Counted ↔ ∀ g, slots (s.fds p) g = 0 := by
  refine Agree.drop h fun g => ?_
  have hsum := count_go_fds hcall hp .ret none g
  have hnil : Call.ret.held.count g = 0 := rfl
  have hnone : slots none g = 0 := rfl
  rw [hk, List.count_nil] at hsum
  omega

lemma slots_eq_zero : (∀ g, slots (some tab) g = 0) ↔ ∀ fd, tab fd = none := by
  constructor
  · intro hzero fd
    by_contra hsome
    obtain ⟨f, hf⟩ := Option.ne_none_iff_exists'.mp hsome
    have hpos := slots_pos hf
    rw [hzero f] at hpos
    exact Nat.lt_irrefl 0 hpos
  · intro hempty g
    rw [show tab = fun _ => none from funext hempty]
    exact slots_empty

section

variable (h : s.Counted)
include h

lemma counted_release (hcall : s.call t = k) (hk : k.held = []) (hp : p < s.nproc) :
    (s.release t p).Counted := by
  unfold release
  split
  · next tab htab =>
    refine Agree.congr h fun g => ?_
    have hsum := count_go_fds hcall hp (.release tab) none g
    have hheld := release_held tab g
    have hnone : slots none g = 0 := rfl
    rw [hk, List.count_nil, htab] at hsum
    omega
  · exact Agree.congr h fun g => count_keep hcall _ hk.symm

lemma counted_fdsInit (hp : p < s.nproc) {std : Fin 3 → Bool} {ok fail : Call}
    (hcall : s.call t = .late f ok fail) :
    (s.fdsInit t p std f ok fail).Counted ↔ ∀ g, slots (s.fds p) g = 0 := by
  have hinit := Agree.fdsInit h std
  have hsum := fun g => count_go_fds hcall hp (.install f ok fail)
    (some (vfsProcFdsInit s.files std).2) g
  have hheld : (Call.install f ok fail).held = (Call.late f ok fail).held := rfl
  show Agree (vfsProcFdsInit s.files std).1
    ((s.setFds p (some (vfsProcFdsInit s.files std).2)).setCall t (.install f ok fail)).count ↔ _
  refine Agree.drop hinit fun g => ?_
  have hg := hsum g
  rw [hheld] at hg
  omega

lemma counted_spawn (hret : s.call t = .ret) (std : Fin 3 → Bool) :
    (s.spawn t std).Counted := by
  have hinit := Agree.fdsInit h std
  have hgrow := fun g => count_grow s (some (vfsProcFdsInit s.files std).2) g
  have hcall : ({ s with nproc := s.nproc + 1 }.setFds s.nproc
      (some (vfsProcFdsInit s.files std).2)).call t = .ret := hret
  show Agree (vfsProcFdsInit s.files std).1 (({ s with nproc := s.nproc + 1 }.setFds s.nproc
      (some (vfsProcFdsInit s.files std).2)).setCall t (.spawning s.nproc)).count
  refine hinit.congr fun g => ?_
  rw [count_keep hcall (.spawning s.nproc) rfl, hgrow]

/-- A fork counts each descriptor that the child gets. -/
lemma counted_fork (hs : Shape s) (hret : s.call t = .ret) (copied : Bool) :
    (s.fork t copied).Counted := by
  have hempty : ({ s with nproc := s.nproc + 1 }.setCall t (.forking s.nproc)).Counted := by
    have hcall : ({ s with nproc := s.nproc + 1 } : Sys).call t = .ret := hret
    have hgrow := fun g => count_grow s none g
    have hsame : { s with nproc := s.nproc + 1 }.setFds s.nproc none = { s with nproc := s.nproc + 1 } := by
      unfold setFds
      rw [← hs.gone s.nproc le_rfl, update_eq_self]
    refine Agree.congr h fun g => ?_
    have hg := hgrow g
    rw [hsame] at hg
    have hnone : slots none g = 0 := rfl
    rw [count_keep hcall (.forking s.nproc) rfl, hg, hnone, Nat.add_zero]
  unfold fork
  split
  · next p tab hfds =>
    obtain ⟨hproc, htab⟩ := fdsOf_eq_some.mp hfds
    have href := Agree.refAll h tab fun fd f hf => count_pos hs htab hf
    have hcall : ({ s with nproc := s.nproc + 1 }.setFds s.nproc (some tab)).call t = .ret := hret
    show Agree (refAll s.files tab) (({ s with nproc := s.nproc + 1 }.setFds s.nproc
      (some tab)).setCall t (.forking s.nproc)).count
    refine href.congr fun g => ?_
    rw [count_keep hcall (.forking s.nproc) rfl, count_grow]
  · exact hempty

lemma counted_get (hs : Shape s) {c : FdCall}
    (hen : s.Enabled (.get t c fd)) : (s.act (.get t c fd)).Counted := by
  obtain ⟨f, hf⟩ := Option.isSome_iff_exists.mp hen.2
  obtain ⟨⟨p, tab⟩, hfds, hopen⟩ := Option.bind_eq_some_iff.mp hf
  have hpos := count_pos hs (fdsOf_eq_some.mp hfds).2 hopen
  have hact : s.act (.get t c fd) = { s with files := s.files.ref f }.setCall t (c.rest fd f) := by
    rw [act, hf]
  rw [hact]
  show Agree (s.files.ref f) (s.setCall t (c.rest fd f)).count
  refine Agree.ref h hpos fun g => ?_
  rw [count_start hen.1, c.held, held_cons, List.count_nil, Nat.zero_add]

/-- A call starts with one new file. -/
lemma counted_alloc (hret : s.call t = .ret) (hk : k.held = [s.files.fresh]) :
    ({ s with files := s.files.alloc }.setCall t k).Counted := by
  show Agree s.files.alloc (s.setCall t k).count
  refine Agree.alloc h fun g => ?_
  rw [count_start hret, hk, held_cons, List.count_nil, Nat.zero_add]

/-- When only one of two files can be had, it is closed again. -/
lemma counted_pair (hret : s.call t = .ret) (c : PairCall) (first second : Bool) :
    (s.pair t c first second).Counted := by
  have hone := counted_alloc h hret (k := .close s.files.fresh .ret) rfl
  cases first with
  | false =>
    cases second with
    | false => exact h
    | true => exact hone
  | true =>
    cases second with
    | false => exact hone
    | true =>
      show Agree s.files.alloc.alloc (s.setCall t (c.rest s.files.fresh (s.files.fresh + 1))).count
      have hfirst : Agree s.files.alloc fun g => s.count g + if s.files.fresh = g then 1 else 0 :=
        Agree.alloc h fun _ => rfl
      refine hfirst.alloc fun g => ?_
      have hfresh : s.files.alloc.fresh = s.files.fresh + 1 := rfl
      rw [count_start hret, c.held, held_cons, held_cons, List.count_nil, hfresh]
      omega

lemma counted_late (hs : Shape s) {std : Fin 3 → Bool}
    (hen : s.Enabled (.fdsInit t std)) :
    (s.act (.fdsInit t std)).Counted ↔ s.Keeps (.fdsInit t std) := by
  obtain ⟨p, hproc⟩ := Option.isSome_iff_exists.mp hen.1
  rw [act, Keeps, hproc]
  split
  · next q f ok fail hq hcall =>
    obtain rfl := Option.some.inj hq
    rw [counted_fdsInit h (hs.bound t p hproc) hcall]
    cases htab : s.fds p with
    | none =>
      refine iff_of_true (fun _ => rfl) ?_
      intro q f ok fail tab hq _ htab'
      obtain rfl := Option.some.inj hq
      rw [htab] at htab'
      cases htab'
    | some tab =>
      rw [slots_eq_zero]
      constructor
      · intro hempty q f ok fail tab' hq _ htab'
        obtain rfl := Option.some.inj hq
        rw [htab] at htab'
        cases htab'
        exact hempty
      · exact fun hkeeps => hkeeps p f ok fail tab rfl hcall htab
  · next hother =>
    refine iff_of_true h ?_
    intro q f ok fail tab hq hcall
    exact absurd hcall (hother p f ok fail rfl)

lemma counted_lateFails (hs : Shape s) : (s.act (.fdsInitFails t)).Counted := by
  have htidy := hs.tidy t
  rw [act]
  split
  · next f ok fail hcall =>
    rw [hcall] at htidy
    refine Agree.congr h fun g => ?_
    have hsum := count_go hcall fail g
    have hfail : fail.held.count g = (Call.late f ok fail).held.count g := htidy.2.2 g
    omega
  · exact h

lemma counted_accepted : (s.act (.accepted t)).Counted := by
  rw [act]
  split
  · next lf hcall =>
    show Agree s.files.alloc (s.setCall t (.accepted lf s.files.fresh)).count
    refine Agree.alloc h fun g => ?_
    have hsum := count_go hcall (.accepted lf s.files.fresh) g
    have hheld : (Call.accepted lf s.files.fresh).held.count g = _ :=
      held_cons s.files.fresh g (Call.accepting lf).held
    omega
  · exact h

lemma counted_forkFails (hs : Shape s) :
    (s.act (.forkFails t)).Counted ↔ s.Keeps (.forkFails t) := by
  have htidy := hs.tidy t
  rw [act, Keeps]
  split
  · next p hcall =>
    rw [hcall] at htidy
    rw [counted_lose h hcall rfl htidy]
    cases htab : s.fds p with
    | none =>
      refine iff_of_true (fun _ => rfl) ?_
      intro q tab hq htab'
      rw [hcall] at hq
      cases hq
      rw [htab] at htab'
      cases htab'
    | some tab =>
      rw [slots_eq_zero]
      constructor
      · intro hempty q tab' hq htab'
        rw [hcall] at hq
        cases hq
        rw [htab] at htab'
        cases htab'
        exact hempty
      · exact fun hkeeps => hkeeps p tab hcall htab
  · next hother =>
    refine iff_of_true h ?_
    intro p tab hcall
    exact absurd hcall (hother p)

/-- **One step.** It keeps the counts right if and only if it gives no reference up. -/
lemma counted_step (hs : Shape s) (hen : s.Enabled e) :
    (s.act e).Counted ↔ s.Keeps e := by
  have htidy := hs.tidy
  cases e with
  | get t c fd => exact iff_of_true (counted_get h hs hen) trivial
  | make t c => exact iff_of_true (counted_alloc h hen.1 c.held) trivial
  | pair t c first second => exact iff_of_true (counted_pair h hen.1 c first second) trivial
  | next t => exact counted_next h hs
  | fdsInit t std => exact counted_late h hs hen
  | fdsInitFails t => exact iff_of_true (counted_lateFails h hs) trivial
  | accepted t => exact iff_of_true (counted_accepted h) trivial
  | acceptFails t =>
    refine iff_of_true ?_ trivial
    rw [act]
    split
    · next lf hcall => exact Agree.congr h fun g => count_keep hcall _ rfl
    · exact h
  | spawn t std => exact iff_of_true (counted_spawn h hen std) trivial
  | spawned t u =>
    refine iff_of_true ?_ trivial
    rw [act]
    split
    · next p hcall => exact Agree.congr h fun g => count_keep hcall .ret rfl
    · exact h
  | spawnFails t =>
    refine iff_of_true ?_ trivial
    rw [act]
    split
    · next p hcall =>
      have hp := htidy t
      rw [hcall] at hp
      exact counted_release h hcall rfl hp
    · exact h
  | fork t copied => exact iff_of_true (counted_fork h hs hen.1 copied) trivial
  | forked t u =>
    refine iff_of_true ?_ trivial
    rw [act]
    split
    · next p hcall => exact Agree.congr h fun g => count_keep hcall .ret rfl
    · exact h
  | forkFails t => exact counted_forkFails h hs
  | execve t => exact iff_of_true h trivial
  | threadCreate t u => exact iff_of_true h trivial
  | reclaim u =>
    show Agree s.files (s.setCall u .ret).count ↔ (s.call u).held = []
    rw [Agree.drop h (d := fun g => (s.call u).held.count g) fun g => ?_]
    · rw [List.eq_nil_iff_forall_not_mem]
      simp only [List.count_eq_zero]
    · have hsum := count_setCall s u .ret g
      have hnil : Call.ret.held.count g = 0 := rfl
      omega
  | reap t p => exact iff_of_true (counted_release h hen.1 rfl hen.2) trivial

end

/-! ## Runs -/

namespace Shape

section

variable (h : Shape s)
include h

lemma files (files : Files) : Shape { s with files := files } :=
  ⟨h.tidy, h.bound, h.gone⟩

lemma setCall (hk : k.Tidy s.nproc) : Shape (s.setCall t k) := by
  refine ⟨fun u => ?_, h.bound, h.gone⟩
  show (update s.call t k u).Tidy s.nproc
  by_cases hu : u = t
  · rw [hu, update_self]
    exact hk
  · rw [update_of_ne hu]
    exact h.tidy u

lemma setFds (hp : p < s.nproc) {x : Option Table} : Shape (s.setFds p x) := by
  refine ⟨h.tidy, h.bound, fun q hq => ?_⟩
  have hne : q ≠ p := by
    rintro rfl
    exact absurd hp (Nat.not_lt.mpr hq)
  show update s.fds p x q = none
  rw [update_of_ne hne]
  exact h.gone q hq

lemma setProc {x : Option ProcId} (hx : ∀ p, x = some p → p < s.nproc) :
    Shape { s with proc := update s.proc u x } := by
  refine ⟨h.tidy, fun v p hv => ?_, h.gone⟩
  have hupdate : update s.proc u x v = some p := hv
  by_cases hvu : v = u
  · rw [hvu, update_self] at hupdate
    exact hx p hupdate
  · rw [update_of_ne hvu] at hupdate
    exact h.bound v p hupdate

lemma grow : Shape { s with nproc := s.nproc + 1 } :=
  ⟨fun t => (h.tidy t).mono (Nat.le_succ _), fun t p ht => Nat.lt_succ_of_lt (h.bound t p ht),
    fun p hp => h.gone p (Nat.le_of_succ_le hp)⟩

lemma fdInstall {ok fail : Call} (hok : ok.Tidy s.nproc) (hfail : fail.Tidy s.nproc)
    (hfds : s.fdsOf t = some (p, tab)) : Shape (s.fdInstall t (p, tab) f ok fail) := by
  have hp := h.bound t p (fdsOf_eq_some.mp hfds).1
  unfold Sys.fdInstall
  split
  · exact (h.setFds hp).setCall hok
  · exact h.setCall hfail

lemma release (hp : p < s.nproc) : Shape (s.release t p) := by
  unfold Sys.release
  split
  · exact (h.setFds hp).setCall (Call.tidy_release _)
  · exact h.setCall trivial

lemma next : Shape (s.next t) := by
  have htidy := h.tidy t
  unfold Sys.next
  cases hcall : s.call t with
  | ret | late _ _ _ | accepting _ | spawning _ | forking _ => exact h
  | close f k =>
    rw [hcall] at htidy
    exact (h.files _).setCall htidy
  | put fd k =>
    rw [hcall] at htidy
    dsimp only
    split
    · next p tab hfds =>
      split
      · exact (h.setFds (h.bound t p (fdsOf_eq_some.mp hfds).1)).setCall htidy
      · exact h.setCall htidy
    · exact h.setCall htidy
  | install f ok fail =>
    rw [hcall] at htidy
    dsimp only
    split
    · next x hfds => exact h.fdInstall htidy.1 htidy.2.1 hfds
    · exact h.setCall htidy
  | dup f =>
    dsimp only
    split
    · next x hfds => exact h.fdInstall trivial trivial hfds
    · exact h.setCall trivial
  | forget f k =>
    rw [hcall] at htidy
    exact h.setCall htidy

end

end Shape

lemma shape_step (h : Shape s) (hen : s.Enabled e) : Shape (s.act e) := by
  have htidy := h.tidy
  cases e with
  | get t c fd =>
    rw [act]
    split
    · exact (h.files _).setCall c.tidy
    · exact h
  | make t c => exact (h.files _).setCall c.tidy
  | pair t c first second =>
    cases first with
    | false =>
      cases second with
      | false => exact h
      | true => exact (h.files _).setCall trivial
    | true =>
      cases second with
      | false => exact (h.files _).setCall trivial
      | true => exact (h.files _).setCall c.tidy
  | next t => exact h.next
  | fdsInit t std =>
    rw [act]
    split
    · next p f ok fail hproc hcall =>
      have hlate := htidy t
      rw [hcall] at hlate
      have hinstall : (Call.install f ok fail).Tidy s.nproc := hlate
      exact ((h.files (vfsProcFdsInit s.files std).1).setFds (h.bound t p hproc)).setCall hinstall
    · exact h
  | fdsInitFails t =>
    rw [act]
    split
    · next f ok fail hcall =>
      have hlate := htidy t
      rw [hcall] at hlate
      exact h.setCall hlate.2.1
    · exact h
  | accepted t =>
    rw [act]
    split
    · exact (h.files _).setCall (Call.tidy_accepted _ _)
    · exact h
  | acceptFails t =>
    rw [act]
    split
    · exact h.setCall trivial
    · exact h
  | spawn t std =>
    have hgrow := (h.grow.files (vfsProcFdsInit s.files std).1).setFds
      (x := some (vfsProcFdsInit s.files std).2) (Nat.lt_succ_self s.nproc)
    exact hgrow.setCall (Nat.lt_succ_self s.nproc)
  | spawned t u =>
    rw [act]
    split
    · next p hcall =>
      have hp := htidy t
      rw [hcall] at hp
      refine (h.setProc fun q hq => ?_).setCall trivial
      rw [← Option.some.inj hq]
      exact hp
    · exact h
  | spawnFails t =>
    rw [act]
    split
    · next p hcall =>
      have hp := htidy t
      rw [hcall] at hp
      exact h.release hp
    · exact h
  | fork t copied =>
    show Shape (s.fork t copied)
    unfold fork
    split
    · next p tab hfds =>
      have hgrow := (h.grow.files (refAll s.files tab)).setFds (x := some tab)
        (Nat.lt_succ_self s.nproc)
      exact hgrow.setCall (Nat.lt_succ_self s.nproc)
    · exact h.grow.setCall (Nat.lt_succ_self s.nproc)
  | forked t u =>
    rw [act]
    split
    · next p hcall =>
      have hp := htidy t
      rw [hcall] at hp
      refine (h.setProc fun q hq => ?_).setCall trivial
      rw [← Option.some.inj hq]
      exact hp
    · exact h
  | forkFails t =>
    rw [act]
    split
    · next p hcall =>
      have hp := htidy t
      rw [hcall] at hp
      exact (h.setFds hp).setCall trivial
    · exact h
  | execve t => exact h
  | threadCreate t u => exact h.setProc fun p hp => h.bound t p hp
  | reclaim u =>
    refine (h.setProc fun p hp => ?_).setCall trivial
    cases hp
  | reap t p => exact h.release hen.2

/-- No process yet, and every task outside its calls. -/
structure Init (s : Sys) : Prop where
  files : s.files.fresh = 0 ∧ ∀ f, s.files.file f = ⟨0, false⟩
  fds : ∀ p, s.fds p = none
  proc : ∀ t, s.proc t = none
  call : ∀ t, s.call t = .ret

lemma Init.counted (h : s.Init) : s.Counted := by
  have hcount : ∀ f, s.count f = 0 := by
    intro f
    unfold count pointing inProgress
    simp [h.fds, h.call, slots, Call.held]
  constructor
  · intro f
    rw [h.files.2, hcount]
  · intro f
    rw [h.files.2, h.files.1]
    simp
  · exact fun f _ => hcount f

lemma Init.shape (h : s.Init) : Shape s := by
  refine ⟨fun t => ?_, fun t p ht => ?_, fun p _ => h.fds p⟩
  · rw [h.call]
    exact trivial
  · rw [h.proc] at ht
    cases ht

/-- In every run whose steps give no reference up, the count of every file is the number of its
descriptors and references in progress, and the file is destroyed exactly when that reaches
zero; a further step keeps this if and only if it gives no reference up either. -/
theorem file_refs {s₀ : Sys} {es : List Event} (h₀ : s₀.Init)
    (hrun : Run (Guarded Keeps Step) s₀ es s) :
    s.Counted ∧ ∀ e s', Step s e s' → (s'.Counted ↔ s.Keeps e) := by
  have hinv : s.Counted ∧ Shape s := by
    refine hrun.invariant (I := fun s => s.Counted ∧ Shape s) ⟨h₀.counted, h₀.shape⟩ ?_
    rintro s e s' ⟨hcounted, hshape⟩ ⟨hkeeps, hen, rfl⟩
    exact ⟨(counted_step hcounted hshape hen).mpr hkeeps, shape_step hshape hen⟩
  refine ⟨hinv.1, ?_⟩
  rintro e s' ⟨hen, rfl⟩
  exact counted_step hinv.1 hinv.2 hen

def boot : Sys where
  files := ⟨fun _ => ⟨0, false⟩, 0⟩
  fds := fun _ => none
  nproc := 0
  proc := fun _ => none
  call := fun _ => .ret

lemma boot_init : boot.Init := ⟨⟨rfl, fun _ => rfl⟩, fun _ => rfl, fun _ => rfl, fun _ => rfl⟩

/-- A process with the console on its first three descriptors asks the console for something
with `ioctl`. -/
def ioctlEvents : List Event :=
  [.spawn 0 fun _ => true, .spawned 0 1, .get 1 .ioctl 0, .next 1]

lemma ioctl_run : Run Step boot ioctlEvents (ioctlEvents.foldl act boot) :=
  Run.of_enables (fun _ _ h => ⟨h, rfl⟩) (by decide)

/-- All calls have returned, and the count of the console file is one too high. -/
theorem file_refs_ioctl :
    ∃ es s, Run Step boot es s ∧ (∀ t, s.call t = .ret) ∧ (s.files.file 0).refs = 2 ∧
      s.count 0 = 1 := by
  refine ⟨_, _, ioctl_run, ?_, ?_, ?_⟩
  · decide
  · decide
  · decide

/-- The process reads from the console instead, and closes it. -/
def closeEvents : List Event :=
  [.spawn 0 fun _ => true, .spawned 0 1, .get 1 .read 0, .next 1, .get 1 .close 0, .next 1, .next 1,
    .next 1]

instance (s : Sys) (t : Slot) : ∀ k, Decidable (s.Drops t k)
  | .forget _ _ => isTrue trivial
  | .dup _ => inferInstanceAs (Decidable (∀ _ ∈ _, ∀ _, _))
  | .ret | .close _ _ | .put _ _ | .install _ _ _ | .late _ _ _ | .accepting _ | .spawning _
  | .forking _ => isFalse id

lemma close_run : Run (Guarded Keeps Step) boot closeEvents (closeEvents.foldl act boot) := by
  have henables : Enables (fun s e => s.Keeps e ∧ s.Enabled e) act boot closeEvents := by
    refine ⟨⟨trivial, rfl⟩, ⟨trivial, ?_⟩, ⟨trivial, ?_⟩, ⟨?_, ?_⟩, ⟨trivial, ?_⟩, ⟨?_, ?_⟩,
      ⟨?_, ?_⟩, ⟨?_, ?_⟩, trivial⟩
    · decide
    · decide
    · show ¬ Drops _ _ _
      decide
    · decide
    · decide
    · show ¬ Drops _ _ _
      decide
    · decide
    · show ¬ Drops _ _ _
      decide
    · decide
    · show ¬ Drops _ _ _
      decide
    · decide
  exact Run.of_enables (fun _ _ h => ⟨h.1, h.2, rfl⟩) henables

/-- The theorem on this run: the console file is destroyed with its last descriptor. -/
theorem file_refs_close : ((closeEvents.foldl act boot).files.file 0).freed = true := by
  have hcounted := (file_refs boot_init close_run).1
  exact (hcounted.freed 0).mpr ⟨by decide, by decide⟩

end Sys

end Vfs
end MobilePhoneOs
