import MobilePhoneOs.Fs.VfsTheorems
import MobilePhoneOs.Kernel.Descriptors
import MobilePhoneOs.Kernel.PipePoolTheorems
import MobilePhoneOs.Kernel.UnixsockPoolTheorems

/-!
# Descriptor calls that fail

Which of the failing exits of the five calls give back what the call has taken. A pipe slot and
an endpoint that were handed out never come back, so a failing `sys_pipe` or `sys_socketpair`
leaves everything as it was only when it got none; a file that `vfs_fd_get` counted and a queue
that `mq_open` counted keep the count.
-/

namespace MobilePhoneOs

open Function (update update_self update_apply update_of_ne)
namespace Descriptors

open Ipc (Task)
open Ipc.Usock (Socks EpId FileMemory acceptSection endpointFile epAlloc epRelease epRelease_tables nextClient usocketPair)
open Vfs (Fd FileId Files Table PROC_FD_MAX)
open Ipc.PipePool (pipeMakeCall)
open List (finRange mem_range)

variable {m : Memory} {s s' : State} {f : FileId} {tab tab' : Table} {fd : Fd} {junk ufds : ℕ}

lemma Same.refl (s : State) : Same s s :=
  ⟨rfl, rfl, fun _ => rfl, rfl, List.prefix_refl _, rfl, rfl⟩

/-! ## Free descriptors -/

lemma freeFds_update (h : tab fd = none) :
    freeFds (update tab fd (some f)) + 1 = freeFds tab := by
  have hsum := sum_update_add Finset.univ (fun o : Option FileId => if o = none then 1 else 0) tab
    (Finset.mem_univ fd) (some f)
  rw [if_pos h, if_neg (Option.some_ne_none f)] at hsum
  unfold freeFds
  omega

lemma freeFds_pos (h : tab fd = none) : 1 ≤ freeFds tab := by
  have hupdate := freeFds_update (f := 0) h
  omega

lemma freeFds_zero (h : ∀ fd, tab fd ≠ none) : freeFds tab = 0 := by
  apply Finset.sum_eq_zero
  intro fd _
  rw [if_neg (h fd)]

/-- The slot that `vfs_fd_install` looks for. -/
lemma find_free (tab : Table) :
    (∃ fd, (finRange PROC_FD_MAX).find? (fun fd => tab fd = none) = some fd ∧ tab fd = none) ∨
      (finRange PROC_FD_MAX).find? (fun fd => tab fd = none) = none ∧ freeFds tab = 0 := by
  cases hfind : (finRange PROC_FD_MAX).find? (fun fd => tab fd = none) with
  | some fd => exact .inl ⟨fd, rfl, by simpa using List.find?_some hfind⟩
  | none =>
    rw [List.find?_eq_none] at hfind
    exact .inr ⟨rfl, freeFds_zero fun fd => by simpa using hfind fd (List.mem_finRange fd)⟩

/-- Every console file takes one descriptor at most. -/
lemma consoleFiles_free (l : List Bool) (files : Files) (tab : Table) :
    freeFds tab ≤ freeFds (Vfs.consoleFiles l files tab).2 + l.length := by
  induction l generalizing files tab with
  | nil =>
    rw [Vfs.consoleFiles, List.length_nil, Nat.add_zero]
  | cons b l ih =>
    rw [List.length_cons]
    cases b with
    | false =>
      have hrest := ih files tab
      rw [Vfs.consoleFiles]
      omega
    | true =>
      rw [Vfs.consoleFiles]
      unfold Vfs.fdInstall
      obtain ⟨fd, hfind, hnone⟩ | ⟨hfind, hzero⟩ := find_free tab
      · rw [hfind]
        have hrest := ih files.alloc (update tab fd (some files.fresh))
        have hupdate := freeFds_update (f := files.fresh) hnone
        simp only [Option.map_some]
        omega
      · omega

lemma vfsProcFdsInit_free (files : Files) (std : Fin 3 → Bool) :
    2 ≤ freeFds (Vfs.vfsProcFdsInit files std).2 := by
  have hconsole := consoleFiles_free (List.ofFn std) files fun _ => none
  have hall : freeFds (fun _ => none) = 16 := by decide
  rw [List.length_ofFn, hall] at hconsole
  unfold Vfs.vfsProcFdsInit
  omega

namespace State

/-! ## Installing a file -/

lemma vfsFdInstall_full (h : s.fds = some tab) (hfree : freeFds tab = 0) :
    s.vfsFdInstall f = (s, -EMFILE) := by
  unfold vfsFdInstall
  rw [h]
  obtain ⟨fd, -, hnone⟩ | ⟨hfind, -⟩ := find_free tab
  · have hpos := freeFds_pos hnone
    omega
  · simp only [hfind]

lemma vfsFdInstall_free (h : s.fds = some tab) (hfree : 1 ≤ freeFds tab) :
    ∃ (tab' : Table) (fd : ℕ), s.vfsFdInstall f = ({ s with fds := some tab' }, (fd : ℤ)) ∧
      freeFds tab' + 1 = freeFds tab := by
  unfold vfsFdInstall
  rw [h]
  obtain ⟨fd, hfind, hnone⟩ | ⟨-, hzero⟩ := find_free tab
  · exact ⟨update tab fd (some f), fd, by simp only [hfind], freeFds_update hnone⟩
  · omega

/-- What every exit of a call keeps: user memory and the flags of the two pools. -/
structure Keeps (s s' : State) : Prop where
  mem : s'.mem = s.mem
  root : s'.root = s.root
  pipeUsed : s'.pipes.pipeUsed = s.pipes.pipeUsed
  epUsed : s'.socks.epUsed = s.socks.epUsed

lemma Keeps.refl (s : State) : Keeps s s := ⟨rfl, rfl, rfl, rfl⟩

lemma Keeps.trans {s'' : State} (h : Keeps s s') (h' : Keeps s' s'') : Keeps s s'' where
  mem := h'.mem.trans h.mem
  root := h'.root.trans h.root
  pipeUsed := h'.pipeUsed.trans h.pipeUsed
  epUsed := h'.epUsed.trans h.epUsed

lemma destroy_keeps (s : State) (v : Vnode) : Keeps s (s.destroy v) := by
  cases v with
  | pipe i reader => exact ⟨rfl, rfl, rfl, rfl⟩
  | data e => exact ⟨rfl, rfl, rfl, congrArg Prod.fst (epRelease_tables s.socks e)⟩
  | listener e =>
    rw [destroy]
    cases (s.socks.ep e).lslot with
    | some i => exact ⟨rfl, rfl, rfl, (Ipc.Usock.usListenerDestroy_tables s.socks e i).1⟩
    | none => exact Keeps.refl s
  | other => exact Keeps.refl s

lemma fileClose_keeps (s : State) (f : FileId) : Keeps s (s.fileClose f) := by
  have hcount : Keeps s { s with files := s.files.close f } := ⟨rfl, rfl, rfl, rfl⟩
  unfold fileClose
  dsimp only
  split_ifs
  · exact hcount.trans (destroy_keeps _ _)
  · exact hcount

lemma vfsFdInstall_keeps (s : State) (f : FileId) : Keeps s (s.vfsFdInstall f).1 := by
  unfold vfsFdInstall
  split
  · exact Keeps.refl s
  · split
    · exact ⟨rfl, rfl, rfl, rfl⟩
    · exact Keeps.refl s

lemma fdInstallOf_keeps (m : Memory) (s : State) (f : FileId) :
    Keeps s (s.fdInstallOf m f).1 := by
  have hinit : Keeps s (s.fdsInit m.std) := ⟨rfl, rfl, rfl, rfl⟩
  unfold fdInstallOf
  split
  · exact vfsFdInstall_keeps s f
  · split_ifs
    · exact Keeps.refl s
    · exact hinit.trans (vfsFdInstall_keeps _ f)

/-- `fd_install_of` returns an error when there is no room; otherwise it takes one descriptor. -/
lemma fdInstallOf_spec (m : Memory) (s : State) (f : FileId) :
    (s.FdRoom m 1 ∧ 0 ≤ (s.fdInstallOf m f).2 ∧
        ((s.fdInstallOf m f).1.FdRoom m 1 ↔ s.FdRoom m 2)) ∨
      ¬ s.FdRoom m 1 ∧ s.fdInstallOf m f = (s, -EMFILE) ∧ ¬ s.FdRoom m 2 := by
  unfold fdInstallOf FdRoom
  cases hfds : s.fds with
  | some tab =>
    by_cases hfree : 1 ≤ freeFds tab
    · obtain ⟨tab', fd, heq, hcount⟩ := vfsFdInstall_free (f := f) hfds hfree
      rw [heq]
      refine .inl ⟨hfree, Int.natCast_nonneg fd, ?_⟩
      omega
    · rw [vfsFdInstall_full hfds (by omega)]
      exact .inr ⟨hfree, rfl, by omega⟩
  | none =>
    by_cases htable : m.table = false
    · simp [htable]
    · have hroom := vfsProcFdsInit_free s.files m.std
      obtain ⟨tab', fd, heq, hcount⟩ := vfsFdInstall_free (s := s.fdsInit m.std) (f := f) rfl
        (Nat.le_trans (by decide) hroom)
      rw [if_neg htable, heq]
      rw [Bool.not_eq_false] at htable
      refine .inl ⟨htable, Int.natCast_nonneg fd, ?_⟩
      simp only [htable, iff_true]
      omega

end State

/-! ## The two files of a pipe or a pair -/

lemma copyOut_fails (mem : Mm.Mem) (root junk va len : ℕ) (ksrc : ℕ → ℕ) :
    (Uaccess.copyOut mem root junk va ksrc len).1 ≠ 0 ↔
      ¬ (Uaccess.rangeOk va len = true ∧ Uaccess.checkRange mem root va len true = 0) := by
  unfold Uaccess.copyOut
  split_ifs with hbad
  · have hfault : ¬ (Uaccess.rangeOk va len = true ∧ Uaccess.checkRange mem root va len true = 0) := by
      rintro ⟨hrange, hcheck⟩
      rw [hrange, hcheck] at hbad
      simp at hbad
    simp [hfault, Uaccess.EFAULT]
  · rw [not_or, Bool.not_eq_false, not_not] at hbad
    simp [hbad]

lemma installPair_keeps (m : Memory) (junk ufds : ℕ) (s : State) (fa fb : FileId) :
    (installPair m junk ufds s fa fb).1.pipes.pipeUsed = s.pipes.pipeUsed ∧
      (installPair m junk ufds s fa fb).1.socks.epUsed = s.socks.epUsed := by
  have hfirst := State.fdInstallOf_keeps m s fa
  have hsecond := hfirst.trans (State.fdInstallOf_keeps m (s.fdInstallOf m fa).1 fb)
  unfold installPair
  simp only
  split_ifs
  · have hclose := hfirst.trans ((State.fileClose_keeps _ fb).trans (State.fileClose_keeps _ fa))
    exact ⟨hclose.pipeUsed, hclose.epUsed⟩
  · have hclose := hsecond.trans (State.fileClose_keeps _ fb)
    exact ⟨hclose.pipeUsed, hclose.epUsed⟩
  · exact ⟨hsecond.pipeUsed, hsecond.epUsed⟩
  · exact ⟨hsecond.pipeUsed, hsecond.epUsed⟩

/-- The rest of `sys_pipe` and `sys_socketpair` fails without two descriptors, or without a
place for their numbers. -/
lemma installPair_fails (m : Memory) (junk ufds : ℕ) (s : State) (fa fb : FileId) :
    (installPair m junk ufds s fa fb).2 < 0 ↔ ¬ (s.FdRoom m 2 ∧ s.Writable ufds 8) := by
  have hmem := (State.fdInstallOf_keeps m s fa).trans
    (State.fdInstallOf_keeps m (s.fdInstallOf m fa).1 fb)
  obtain ⟨-, hrc, hroom⟩ | ⟨-, hfail, hfull⟩ := State.fdInstallOf_spec m s fa
  · obtain ⟨hone, hrc', -⟩ | ⟨hnone, hfail, -⟩ :=
      State.fdInstallOf_spec m (s.fdInstallOf m fa).1 fb
    · have hcopy := copyOut_fails s.mem s.root junk ufds 8 (outBytes (s.fdInstallOf m fa).2
        ((s.fdInstallOf m fa).1.fdInstallOf m fb).2)
      unfold installPair
      simp only [hmem.mem, hmem.root, not_lt.mpr hrc, not_lt.mpr hrc', if_false]
      rw [← hroom]
      split_ifs with hfault
      · simp [EFAULT, State.Writable, hcopy.mp hfault]
      · simp [hone, State.Writable, not_not.mp (fun h => hfault (hcopy.mpr h))]
    · unfold installPair
      simp only [not_lt.mpr hrc, hfail, if_false]
      rw [← hroom]
      simp [EMFILE, hnone]
  · unfold installPair
    simp [hfail, EMFILE, hfull]

/-- With a flag taken that was clear before, only success is all right. -/
lemma installPair_atomic {fa fb : FileId}
    (hne : s'.pipes.pipeUsed ≠ s.pipes.pipeUsed ∨ s'.socks.epUsed ≠ s.socks.epUsed) :
    Atomic s (installPair m junk ufds s' fa fb) ↔ s'.FdRoom m 2 ∧ s'.Writable ufds 8 := by
  obtain ⟨hpipe, hep⟩ := installPair_keeps m junk ufds s' fa fb
  constructor
  · intro hatomic
    by_contra hfail
    have hsame := hatomic ((installPair_fails m junk ufds s' fa fb).mpr hfail)
    cases hne with
    | inl hne => exact hne (hpipe.symm.trans hsame.pipeUsed)
    | inr hne => exact hne (hep.symm.trans (congrArg Socks.epUsed hsame.socks))
  · intro hroom hneg
    exact absurd hroom ((installPair_fails m junk ufds s' fa fb).mp hneg)

/-! ## Pipes -/

/-- A pipe that was made holds a flag of `pipe_used` that was clear. -/
lemma pipeMake_made (h : s.PipeRoom m) :
    (pipeMakeCall s.pipes true m.pipe).2 = .made ∧
      ∃ slot, s.pipes.pipeUsed slot = false ∧
        (pipeMakeCall s.pipes true m.pipe).1.pipeUsed slot = true := by
  obtain ⟨hslot, hmem⟩ := h
  obtain ⟨slot, hfind⟩ := Option.ne_none_iff_exists'.mp hslot
  rw [pipeMakeCall, hfind, hmem]
  exact ⟨rfl, slot, (Ipc.PipePool.freeSlot_some hfind).2, update_self ..⟩

/-- A `pipe_make` that fails gives the flag back. -/
lemma pipeMake_fails (h : ¬ s.PipeRoom m) :
    (pipeMakeCall s.pipes true m.pipe).2 ≠ .made ∧
      (pipeMakeCall s.pipes true m.pipe).1.pipeUsed = s.pipes.pipeUsed ∧
      s.pipes.objs <+: (pipeMakeCall s.pipes true m.pipe).1.objs := by
  unfold State.PipeRoom at h
  rw [pipeMakeCall, if_neg (by decide)]
  cases hfind : Ipc.PipePool.freeSlot s.pipes.pipeUsed with
  | none => exact ⟨by simp, rfl, List.prefix_refl _⟩
  | some slot =>
    have hgiven := Ipc.PipePool.Sys.given_eq hfind
    rw [hfind] at h
    split_ifs with hpipe hends
    · exact ⟨by simp, hgiven, List.prefix_refl _⟩
    · exact ⟨by simp, hgiven, List.prefix_append _ _⟩
    · -- all five allocations went through
      have hall : m.pipe = ⟨true, true, true, true, true⟩ := by
        cases hm : m.pipe
        simp_all
      exact absurd ⟨Option.some_ne_none slot, hall⟩ h

lemma sysPipe_atomic (m : Memory) (junk ufds : ℕ) (s : State) :
    Atomic s (sysPipe m junk ufds s) ↔
      ¬ s.PipeRoom m ∨ s.FdRoom m 2 ∧ s.Writable ufds 8 := by
  by_cases hroom : s.PipeRoom m
  · obtain ⟨hmade, slot, hclear, htaken⟩ := pipeMake_made hroom
    rw [or_iff_right (not_not.mpr hroom)]
    unfold sysPipe
    simp only [hmade, ne_eq, not_true_eq_false, if_false]
    apply installPair_atomic
    left
    intro heq
    have hslot := congrFun heq slot
    rw [hclear] at hslot
    exact absurd (htaken.symm.trans hslot) (by decide)
  · obtain ⟨hfail, hused, hobjs⟩ := pipeMake_fails hroom
    rw [iff_true_right (.inl hroom)]
    unfold sysPipe
    simp only [hfail, ne_eq, not_false_eq_true, if_true]
    exact fun _ => ⟨rfl, rfl, fun _ => rfl, hused, hobjs, rfl, rfl⟩

/-! ## Socket pairs -/

lemma freeEps_update {socks : Socks} {e : EpId} (he : e < Ipc.Usock.USOCK_EP_MAX)
    (h : socks.epUsed e = false) {socks' : Socks}
    (hused : socks'.epUsed = update socks.epUsed e true) :
    freeEps socks' + 1 = freeEps socks := by
  have hsum := sum_update_add (Finset.range Ipc.Usock.USOCK_EP_MAX)
    (fun u : Bool => if u = true then 0 else 1) socks.epUsed (Finset.mem_range.mpr he) true
  rw [h, if_neg (by decide), if_pos rfl] at hsum
  unfold freeEps
  rw [hused]
  omega

/-- `ep_alloc` takes a free endpoint if there is one. -/
lemma epAlloc_spec (socks : Socks) :
    (freeEps socks = 0 ∧ epAlloc socks = none) ∨
      ∃ socks' e, epAlloc socks = some (socks', e) ∧ socks.epUsed e = false ∧
        socks'.epUsed = update socks.epUsed e true ∧
        freeEps socks' + 1 = freeEps socks := by
  cases halloc : epAlloc socks with
  | none =>
    refine .inl ⟨Finset.sum_eq_zero fun e he => ?_, rfl⟩
    rw [if_pos (Ipc.Usock.Pool.used_of_epAlloc_none halloc e (Finset.mem_range.mp he))]
  | some p =>
    obtain ⟨socks', e⟩ := p
    obtain ⟨hclear, hused, -⟩ := Ipc.Usock.Stream.epAlloc_some halloc
    have hlt : e < Ipc.Usock.USOCK_EP_MAX := by
      obtain ⟨i, hi, heq⟩ := Option.map_eq_some_iff.mp halloc
      obtain ⟨-, rfl⟩ := Prod.mk.inj heq
      exact mem_range.mp (List.mem_of_find?_eq_some hi)
    exact .inr ⟨socks', e, rfl, hclear, hused, freeEps_update hlt hclear hused⟩

lemma endpointFile_made (socks : Socks) (e : EpId) (mem : FileMemory) :
    (endpointFile socks e mem).2 = true ↔ mem = .ok := by
  cases mem <;> simp [endpointFile]

/-- With a free endpoint `usocket_pair` takes a flag for good, also when it fails. -/
lemma usocketPair_spec (socks : Socks) (ma mb : FileMemory) :
    (¬ 1 ≤ freeEps socks ∧ usocketPair socks ma mb = (socks, none)) ∨
      1 ≤ freeEps socks ∧ (usocketPair socks ma mb).1.epUsed ≠ socks.epUsed ∧
        ((usocketPair socks ma mb).2 = none ↔
          ¬ (2 ≤ freeEps socks ∧ ma = .ok ∧ mb = .ok)) := by
  unfold usocketPair
  obtain ⟨hzero, halloc⟩ | ⟨s₁, a, halloc, hclear, hused, hfree⟩ := epAlloc_spec socks
  · rw [halloc]
    exact .inl ⟨by omega, rfl⟩
  right
  rw [halloc]
  have htaken : ∀ socks' : Socks, socks'.epUsed = s₁.epUsed ∨ (∃ b, socks'.epUsed
      = update s₁.epUsed b true) → socks'.epUsed ≠ socks.epUsed := by
    intro socks' hcases heq
    have ha : socks'.epUsed a = true := by
      obtain h | ⟨b, h⟩ := hcases
      · rw [h, hused, update_self]
      · rw [h, hused, update_apply, update_self, ite_self]
    rw [heq, hclear] at ha
    cases ha
  refine ⟨by omega, ?_⟩
  dsimp only
  obtain ⟨hzero, halloc₂⟩ | ⟨s₂, b, halloc₂, -, hused₂, hfree₂⟩ := epAlloc_spec s₁
  · rw [halloc₂]
    have hrelease := congrArg Prod.fst (epRelease_tables s₁ a)
    exact ⟨htaken _ (.inl hrelease), iff_of_true rfl (by omega)⟩
  · rw [halloc₂]
    dsimp only
    -- linking the two changes no flag, and neither do the files
    have hfiles : ∀ linked : Socks, linked.epUsed = s₂.epUsed →
        (endpointFile (endpointFile linked a ma).1 b mb).1.epUsed
          = update s₁.epUsed b true := by
      intro linked hlinked
      have htables := (Ipc.Usock.Pool.endpointFile_tables (endpointFile linked a ma).1
        b mb).trans (Ipc.Usock.Pool.endpointFile_tables linked a ma)
      exact (congrArg Prod.fst htables).trans (hlinked.trans hused₂)
    split_ifs with hmade
    · rw [endpointFile_made, endpointFile_made] at hmade
      refine ⟨htaken _ (.inr ⟨b, hfiles _ rfl⟩), ?_⟩
      simp only [false_iff, not_not]
      exact ⟨by omega, hmade⟩
    · rw [endpointFile_made, endpointFile_made] at hmade
      have hrelease : ∀ made : Socks,
          (epRelease (epRelease made a) b).epUsed = made.epUsed := fun made =>
        congrArg Prod.fst
          ((epRelease_tables _ b).trans (epRelease_tables made a))
      exact ⟨htaken _ (.inr ⟨b, (hrelease _).trans (hfiles _ rfl)⟩),
        iff_of_true rfl fun h => hmade h.2⟩

lemma sysSocketpair_atomic (m : Memory) (junk ufds : ℕ) (s : State) :
    Atomic s (sysSocketpair m junk ufds s) ↔
      ¬ s.EpRoom 1 ∨ (s.EpRoom 2 ∧ m.a = .ok ∧ m.b = .ok) ∧ s.FdRoom m 2 ∧ s.Writable ufds 8 := by
  unfold State.EpRoom sysSocketpair
  obtain ⟨hnone, hpair⟩ | ⟨hone, hused, hout⟩ := usocketPair_spec s.socks m.a m.b
  · rw [hpair, iff_true_right (.inl hnone)]
    exact fun _ => Same.refl s
  · rw [or_iff_right (not_not.mpr hone)]
    cases hpair : (usocketPair s.socks m.a m.b).2 with
    | none =>
      rw [iff_false_right fun h => hout.mp hpair h.1]
      simp only [hpair]
      intro hatomic
      exact hused (congrArg Socks.epUsed (hatomic (by simp [ENFILE])).socks)
    | some ab =>
      have hfits : 2 ≤ freeEps s.socks ∧ m.a = .ok ∧ m.b = .ok := by
        by_contra hc
        rw [hout.mpr hc] at hpair
        cases hpair
      rw [and_iff_right hfits]
      simp only [hpair]
      apply installPair_atomic
      right
      exact hused

/-! ## Duplicates -/

lemma ref_refs (files : Files) (f : FileId) :
    ((files.ref f).file f).refs = (files.file f).refs + 1 := by
  simp [Files.ref]

lemma openFile_fds {i : ℤ} (h : s.openFile i = some f) :
    ∃ tab fd, s.fds = some tab ∧ tab fd = some f := by
  unfold State.openFile at h
  split at h
  · cases h
  next tab hfds =>
  split_ifs at h with hrange
  exact ⟨tab, _, hfds, h⟩

/-- A `sys_dup` without a free descriptor keeps the reference that `vfs_fd_get` took. -/
lemma sysDup_atomic (fd : ℕ) (s : State) :
    Atomic s (sysDup fd s) ↔
      s.openFile fd = none ∨ ∃ tab, s.fds = some tab ∧ 1 ≤ freeFds tab := by
  have hsame := Same.refl s
  unfold sysDup State.vfsFdGet
  cases hopen : s.openFile fd with
  | none =>
    rw [iff_true_right (.inl rfl)]
    split_ifs
    · exact fun _ => hsame
    · exact fun _ => hsame
  | some f =>
    obtain ⟨tab, fd', hfds, -⟩ := openFile_fds hopen
    have hlt : ¬ (s.fds = none ∨ fd ≥ PROC_FD_MAX) := by
      rw [hfds]
      unfold State.openFile at hopen
      rw [hfds] at hopen
      split_ifs at hopen with hrange
      rw [Int.toNat_natCast] at hrange
      simp only [reduceCtorEq, false_or, ge_iff_le, not_le]
      exact hrange.2
    rw [if_neg hlt, or_iff_right (Option.some_ne_none f)]
    simp only [Option.map_some]
    set s₁ : State := { s with files := s.files.ref f }
    constructor
    · intro hatomic
      refine ⟨tab, hfds, ?_⟩
      by_contra hfree
      rw [State.vfsFdInstall_full (s := s₁) hfds (by omega)] at hatomic
      have hrefs := (hatomic (by simp [EMFILE])).refs f
      rw [ref_refs] at hrefs
      omega
    · rintro ⟨tab', hfds', hfree⟩ hneg
      obtain ⟨_, n, heq, -⟩ := State.vfsFdInstall_free (s := s₁) (f := f) hfds' hfree
      rw [heq] at hneg
      exact absurd hneg (not_lt.mpr (Int.natCast_nonneg n))

/-! ## Message queues -/

lemma nameIn_ne_nil {uname : ℕ} {name : List UInt8} (h : nameIn s junk uname = .ok name) :
    name ≠ [] := by
  unfold nameIn at h
  simp only at h
  split_ifs at h with hlen hfault
  rw [← Except.ok.inj h]
  intro hnil
  have hzero := congrArg List.length hnil
  rw [List.length_map, List.length_range, List.length_nil] at hzero
  omega

/-- `mq_open` counts one more handle, or takes an entry, unless the pool is full. -/
lemma mqOpen_spec (pool : Ipc.Pool) {name : List UInt8} (hname : name ≠ []) :
    ((∃ id < Ipc.MQ_QUEUES_MAX, (pool id).used = false ∨
        Ipc.strncmpEq (pool id).name name Ipc.MQ_NAME_MAX = true) ∧
      (Ipc.mqOpen pool name).1 ≠ pool ∧
      ∃ id, (Ipc.mqOpen pool name).2 = .opened id ∨ (Ipc.mqOpen pool name).2 = .created id) ∨
    (¬ ∃ id < Ipc.MQ_QUEUES_MAX, (pool id).used = false ∨
        Ipc.strncmpEq (pool id).name name Ipc.MQ_NAME_MAX = true) ∧
      Ipc.mqOpen pool name = (pool, .nfile) := by
  have hchanged : ∀ (id : ℕ) (q : Ipc.Mqueue), q ≠ pool id → update pool id q ≠ pool := by
    intro id q hq heq
    apply hq
    rw [← congrFun heq id, update_self]
  unfold Ipc.mqOpen
  rw [if_neg hname]
  dsimp only
  cases hfind : (List.range Ipc.MQ_QUEUES_MAX).find? fun i =>
      (pool i).used && Ipc.strncmpEq (pool i).name name Ipc.MQ_NAME_MAX with
  | some id =>
    have hid := mem_range.mp (List.mem_of_find?_eq_some hfind)
    have hmatch := List.find?_some hfind
    rw [Bool.and_eq_true] at hmatch
    refine .inl ⟨⟨id, hid, .inr hmatch.2⟩, hchanged id _ ?_, id, .inl rfl⟩
    intro heq
    have hhandles := congrArg Ipc.Mqueue.handles heq
    simp at hhandles
  | none =>
    cases hempty : (List.range Ipc.MQ_QUEUES_MAX).find? fun i => !(pool i).used with
    | some id =>
      have hid := mem_range.mp (List.mem_of_find?_eq_some hempty)
      have hfree : (pool id).used = false := by simpa using List.find?_some hempty
      refine .inl ⟨⟨id, hid, .inl hfree⟩, hchanged id _ ?_, id, .inr rfl⟩
      intro heq
      have hused := congrArg Ipc.Mqueue.used heq
      rw [hfree] at hused
      cases hused
    | none =>
      rw [List.find?_eq_none] at hfind hempty
      refine .inr ⟨?_, rfl⟩
      rintro ⟨id, hid, hfree | hmatch⟩
      · exact hempty id (mem_range.mpr hid) (by rw [hfree]; rfl)
      · have hused := hempty id (mem_range.mpr hid)
        have hboth := hfind id (mem_range.mpr hid)
        rw [hmatch, Bool.and_true] at hboth
        rw [Bool.not_eq_true'] at hused
        exact hused (Bool.not_eq_true _ ▸ hboth)

/-- A `sys_msgget` without a free handle keeps what `mq_open` counted. -/
lemma sysMsgget_atomic (junk uname : ℕ) (s : State) :
    Atomic s (sysMsgget junk uname s) ↔
      ∀ name, nameIn s junk uname = .ok name → s.QueueRoom name → ∃ i, s.mqHandles i = 0 := by
  have hsame := Same.refl s
  unfold sysMsgget
  cases hname : nameIn s junk uname with
  | error e => exact iff_of_true (fun _ => hsame) fun _ h => by cases h
  | ok name =>
    simp only [Except.ok.injEq, forall_eq']
    obtain ⟨hroom, hchanged, id, hout⟩ | ⟨hfull, hopen⟩ :=
      mqOpen_spec s.queues (nameIn_ne_nil hname)
    · rw [imp_iff_right (show s.QueueRoom name from hroom)]
      have hinstall : Atomic s (installHandle { s with queues := (Ipc.mqOpen s.queues name).1 } id) ↔
          ∃ i, s.mqHandles i = 0 := by
        unfold installHandle Ipc.MqLife.mqHandleInstall
        cases hfind : (finRange Ipc.MqLife.PROC_MQ_MAX).find? fun i => s.mqHandles i = 0 with
        | some i =>
          refine iff_of_true (fun hneg => ?_) ⟨i, by simpa using List.find?_some hfind⟩
          simp only at hneg
          omega
        | none =>
          refine iff_of_false (fun hatomic => ?_) ?_
          · exact hchanged (hatomic (by simp [EMFILE])).queues
          · rintro ⟨i, hi⟩
            rw [List.find?_eq_none] at hfind
            simpa [hi] using hfind i (List.mem_finRange i)
      cases hout with
      | inl hout => simpa only [hout] using hinstall
      | inr hout => simpa only [hout] using hinstall
    · simp only [hopen]
      exact iff_of_true (fun _ => hsame) fun hroom => absurd hroom hfull

/-! ## Accepted connections -/

/-- What a round of the loop of `usock_accept` finds. -/
lemma acceptSection_spec (socks : Socks) (l : EpId) (t : Task) :
    (∃ i, (socks.ep l).state = .listener ∧ (socks.ep l).lslot = some i ∧
      ((nextClient socks i = none ∧ (acceptSection socks l t).2 = .parked) ∨
        ∃ b c, nextClient socks i = some (b, c) ∧
          acceptSection socks l t = (socks.setSlot i b none, .client c))) ∨
    (¬ ∃ i, (socks.ep l).state = .listener ∧ (socks.ep l).lslot = some i) ∧
      (acceptSection socks l t).2 = .closed := by
  unfold acceptSection
  dsimp only
  cases hslot : (socks.ep l).lslot with
  | none => exact .inr ⟨by simp, rfl⟩
  | some i =>
    cases hstate : (socks.ep l).state with
    | free | data => exact .inr ⟨by simp, rfl⟩
    | listener =>
      refine .inl ⟨i, rfl, rfl, ?_⟩
      dsimp only
      cases hnext : nextClient socks i with
      | none => exact .inl ⟨rfl, rfl⟩
      | some p => exact .inr ⟨p.1, p.2, rfl, rfl⟩

lemma destroy_files (s : State) (v : Vnode) : (s.destroy v).files = s.files := by
  cases v with
  | pipe _ _ | data _ | other => rfl
  | listener e =>
    rw [State.destroy]
    cases (s.socks.ep e).lslot with
    | some _ | none => rfl

/-- Closing a file leaves the other counts alone. -/
lemma fileClose_refs (s : State) {g : FileId} (h : g ≠ f) :
    ((s.fileClose f).files.file g).refs = (s.files.file g).refs := by
  have hclose : ((s.files.close f).file g).refs = (s.files.file g).refs := by
    simp [Files.close, update_of_ne h]
  unfold State.fileClose
  dsimp only
  split_ifs
  · rw [destroy_files]
    exact hclose
  · exact hclose

/-- A failing accept changes no reference count of a file that was there; the one that
`sys_usock_accept` took for the listener is still counted. -/
lemma acceptOn_spec (m : Memory) (t : Task) {lf : FileId} (hlf : lf < s.files.fresh) :
    (s.CanAccept m lf ∧ ∀ rc ∈ (acceptOn m t s lf).2, 0 ≤ rc) ∨
      ¬ s.CanAccept m lf ∧ ∃ rc < 0, (acceptOn m t s lf).2 = some rc ∧
        ((acceptOn m t s lf).1.files.file lf).refs = (s.files.file lf).refs := by
  unfold acceptOn usockAccept State.CanAccept State.Listens
  cases hv : (s.vnode lf).endpoint with
  | none =>
    refine .inr ⟨?_, -ENOTSOCK, by decide, rfl, rfl⟩
    rintro ⟨i, ⟨l, hl, -⟩, -⟩
    cases hl
  | some l =>
    simp only [Option.some.injEq, exists_eq_left']
    obtain ⟨i, hstate, hslot, ⟨hnext, hround⟩ | ⟨b, c, hnext, hround⟩⟩ | ⟨hnot, hround⟩ :=
      acceptSection_spec s.socks l t
    · simp only [hround]
      exact .inl ⟨⟨i, ⟨hstate, hslot⟩, .inl hnext⟩, by simp⟩
    · have honly : ∀ j, (s.socks.ep l).state = .listener ∧ (s.socks.ep l).lslot = some j → j = i :=
        fun j hj => Option.some.inj (hj.2.symm.trans hslot)
      have hcan : (∃ j, ((s.socks.ep l).state = .listener ∧ (s.socks.ep l).lslot = some j) ∧
          (nextClient s.socks j = none ∨ s.EpRoom 1 ∧ m.a = .ok ∧ s.FdRoom m 1)) ↔
            s.EpRoom 1 ∧ m.a = .ok ∧ s.FdRoom m 1 := by
        constructor
        · rintro ⟨j, hj, hcase⟩
          rw [honly j hj, hnext] at hcase
          exact hcase.resolve_left (Option.some_ne_none _)
        · exact fun h => ⟨i, ⟨hstate, hslot⟩, .inr h⟩
      rw [hcan]
      simp only [hround]
      obtain ⟨hzero, halloc⟩ | ⟨socks, srv, halloc, -, -, hfree⟩ :=
        epAlloc_spec (s.socks.setSlot i b none)
      · simp only [halloc]
        refine .inr ⟨fun h => ?_, -Ipc.Usock.ENOMEM, by decide, rfl, trivial⟩
        have hone : 1 ≤ freeEps s.socks := h.1
        have hsame : freeEps (s.socks.setSlot i b none) = freeEps s.socks := rfl
        omega
      · simp only [halloc]
        have hone : s.EpRoom 1 := by
          show 1 ≤ freeEps (s.socks.setSlot i b none)
          omega
        set linked : Socks := Ipc.Usock.linkClient _ c srv with hlinked
        cases hm : m.a with
        | noVnode | noFile =>
          refine .inr ⟨fun h => ?_, -Ipc.Usock.ENOMEM, by decide, rfl, rfl⟩
          cases h.2.1
        | ok =>
          simp only [endpointFile, Bool.true_eq_false, if_false, hone, true_and]
          set s₁ : State := State.fileAlloc _ (.data srv) with hs₁
          obtain ⟨hroom, hrc, -⟩ | ⟨hfull, hinstall, -⟩ :=
            State.fdInstallOf_spec m s₁ s.files.fresh
          · rw [if_neg (not_lt.mpr hrc)]
            refine .inl ⟨hroom, fun rc hmem => ?_⟩
            rw [← Option.some.inj hmem]
            exact hrc
          · rw [hinstall]
            have hneg : -EMFILE < 0 := by decide
            simp only [hneg, if_true]
            refine .inr ⟨hfull, -EMFILE, by decide, rfl, ?_⟩
            rw [fileClose_refs _ hlf.ne]
            show ((update s.files.file s.files.fresh _) lf).refs = _
            rw [update_of_ne hlf.ne]
    · simp only [hround]
      refine .inr ⟨?_, -EINVAL, by decide, rfl, trivial⟩
      rintro ⟨j, hj, -⟩
      exact hnot ⟨j, hj⟩

/-- A `sys_usock_accept` that fails with a file in hand never gives the file's reference back. -/
lemma acceptOn_atomic (m : Memory) (t : Task) (before : State) {lf : FileId}
    (hlf : lf < s.files.fresh)
    (hrefs : (s.files.file lf).refs = (before.files.file lf).refs + 1) :
    AtomicOrParked before (acceptOn m t s lf) ↔ s.CanAccept m lf := by
  obtain ⟨hcan, hrc⟩ | ⟨hcannot, rc, hneg, hout, hkept⟩ := acceptOn_spec m t hlf
  · exact iff_of_true (fun rc hmem hlt => absurd hlt (not_lt.mpr (hrc rc hmem))) hcan
  · refine iff_of_false (fun hatomic => ?_) hcannot
    have hsame := (hatomic rc hout hneg).refs lf
    omega

lemma sysUsockAccept_atomic (m : Memory) (t : Task) (fd : ℕ) (hs : s.Live) :
    AtomicOrParked s (sysUsockAccept m t fd s) ↔
      ∀ lf, s.openFile (Int.bmod fd (2 ^ 32)) = some lf → s.CanAccept m lf := by
  unfold sysUsockAccept State.vfsFdGet
  cases hopen : s.openFile (Int.bmod fd (2 ^ 32)) with
  | none =>
    refine iff_of_true ?_ nofun
    exact fun _ _ _ => Same.refl s
  | some lf =>
    obtain ⟨tab, fd', hfds, hfile⟩ := openFile_fds hopen
    simp only [Option.map_some, Option.some.injEq, forall_eq']
    exact acceptOn_atomic m t s (hs tab hfds fd' lf hfile) (ref_refs s.files lf)

/-! ## The five calls -/

/-- A call that returns an error leaves the descriptor table, the handles, the reference counts
and the pools as they were, when it fails before it has taken anything and only then: `sys_pipe`
without a pipe, `sys_socketpair` without a first endpoint, `sys_dup` and `sys_usock_accept`
without an open file, `sys_msgget` without a queue. An accept that has parked is in the same
position when it goes on. -/
theorem descriptor_calls_atomic (m : Memory) (junk : ℕ) (t : Task) (s : State) (hs : s.Live) :
    (∀ ufds, Atomic s (sysPipe m junk ufds s) ↔
      ¬ s.PipeRoom m ∨ s.FdRoom m 2 ∧ s.Writable ufds 8) ∧
    (∀ ufds, Atomic s (sysSocketpair m junk ufds s) ↔
      ¬ s.EpRoom 1 ∨ (s.EpRoom 2 ∧ m.a = .ok ∧ m.b = .ok) ∧ s.FdRoom m 2 ∧ s.Writable ufds 8) ∧
    (∀ uname, Atomic s (sysMsgget junk uname s) ↔
      ∀ name, nameIn s junk uname = .ok name → s.QueueRoom name → ∃ i, s.mqHandles i = 0) ∧
    (∀ fd, Atomic s (sysDup fd s) ↔
      s.openFile fd = none ∨ ∃ tab, s.fds = some tab ∧ 1 ≤ freeFds tab) ∧
    (∀ fd, AtomicOrParked s (sysUsockAccept m t fd s) ↔
      ∀ lf, s.openFile (Int.bmod fd (2 ^ 32)) = some lf → s.CanAccept m lf) ∧
    ∀ lf < s.files.fresh, 0 < (s.files.file lf).refs →
      (AtomicOrParked (s.unref lf) (acceptOn m t s lf) ↔ s.CanAccept m lf) := by
  refine ⟨fun ufds => sysPipe_atomic m junk ufds s, fun ufds => sysSocketpair_atomic m junk ufds s,
    fun uname => sysMsgget_atomic junk uname s, fun fd => sysDup_atomic fd s,
    fun fd => sysUsockAccept_atomic m t fd hs, fun lf hlf hrefs => ?_⟩
  apply acceptOn_atomic m t (s.unref lf) hlf
  have hless : (((s.unref lf).files.file lf).refs) = (s.files.file lf).refs - 1 := by
    simp [State.unref, Files.close]
  omega

/-! ## A process with one free descriptor -/

/-- All descriptors but the last are open on one file. -/
def crowded : State where
  fds := some fun fd => if fd = 15 then none else some 0
  mqHandles := fun _ => 0
  files := ⟨fun _ => ⟨15, false⟩, 1⟩
  vnode := fun _ => .other
  pipes := Ipc.PipePool.Sys.init
  socks := Socks.init
  queues := fun _ => Ipc.Mqueue.zero
  mem := fun _ => 0
  root := 0

def roomy : Memory := ⟨⟨true, true, true, true, true⟩, .ok, .ok, true, fun _ => true⟩

lemma live_crowded : crowded.Live := by
  intro tab htab fd f hf
  cases htab
  dsimp only at hf
  split_ifs at hf
  · cases hf
  · cases hf
    exact Nat.one_pos

/-- `sys_pipe` finds a descriptor for the read end and none for the write end. It returns
`-EMFILE`; the read end is installed and the pipe is still taken. -/
theorem sysPipe_half_done :
    ¬ ∀ (m : Memory) (junk ufds : ℕ) (s : State), s.Live → Atomic s (sysPipe m junk ufds s) := by
  intro hatomic
  have hsame := hatomic roomy 0 0 crowded live_crowded (by decide)
  have htaken : (sysPipe roomy 0 0 crowded).1.pipes.pipeUsed 0 = true := by decide
  rw [hsame.pipeUsed] at htaken
  cases htaken

/-- The theorem for this process: a `sys_dup` of the descriptor that is not open changes
nothing, a `sys_pipe` does. -/
theorem descriptor_calls_crowded :
    Atomic crowded (sysDup 15 crowded) ∧ ¬ Atomic crowded (sysPipe roomy 0 0 crowded) := by
  obtain ⟨hpipe, -, -, hdup, -⟩ := descriptor_calls_atomic roomy 0 0 crowded live_crowded
  have hone : freeFds (fun fd => if fd = 15 then none else some 0) = 1 := by decide
  refine ⟨(hdup 15).mpr (.inl (by decide)), fun hatomic => ?_⟩
  obtain hroom | ⟨hroom, -⟩ := (hpipe 0).mp hatomic
  · exact hroom ⟨by decide, rfl⟩
  · have htwo : 2 ≤ freeFds (fun fd => if fd = 15 then none else some 0) := hroom
    omega

end Descriptors
end MobilePhoneOs
