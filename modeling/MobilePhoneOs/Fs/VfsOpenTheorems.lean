import MobilePhoneOs.Fs.VfsOpen
import MobilePhoneOs.Fs.Ramfs

/-!
# What `vfs_open` leaves behind

Every reference that the call takes goes into the file or is given back, on every way out. The
namespace is another matter: nothing takes back a creation, and the test for `O_EXCL` comes behind
it.
-/

namespace MobilePhoneOs.Vfs.Open

open Mounts

variable {σ ν N D : Type} [DecidableEq ν] {ops : Ops σ ν N D} {ns : Namespace ν}

/-! ## References -/

/-- The counts with one more reference to `v`. -/
def bump (refs : ν → ℕ) (v : ν) : ν → ℕ := Function.update refs v (refs v + 1)

lemma bump_comm (refs : ν → ℕ) (v w : ν) : bump (bump refs v) w = bump (bump refs w) v := by
  by_cases h : v = w
  · rw [h]
  · rw [bump, bump, bump, bump, Function.update_of_ne h, Function.update_of_ne (Ne.symm h),
      Function.update_comm h]

variable {s : Sys σ ν} {refs : ν → ℕ}

variable {v : ν}

/-- A reference that is given back. -/
lemma unref_refs (h : s.refs = bump refs v) :
    (s.unref ops v).refs = refs := by
  have hleft : Function.update s.refs v (s.refs v - 1) = refs := by
    rw [h, bump, Function.update_self, Nat.add_sub_cancel, Function.update_idem,
      Function.update_eq_self]
  rw [Sys.unref]
  split
  · exact hleft
  · exact hleft

lemma unref_names (s : Sys σ ν) (v : ν) : ops.names (s.unref ops v).fs = ops.names s.fs := by
  rw [Sys.unref]
  split
  · exact ops.destroy_names _ _
  · rfl

lemma unref_data (s : Sys σ ν) (v : ν) : ops.data (s.unref ops v).fs = ops.data s.fs := by
  rw [Sys.unref]
  split
  · exact ops.destroy_data _ _
  · rfl

/-- The call has kept the namespace and the files of `s`, and the counts `refs` but for a
reference to the vnode it has answered with. -/
structure Quiet (ops : Ops σ ν N D) (s : Sys σ ν) (refs : ν → ℕ) (r : Sys σ ν × Except ℤ ν) :
    Prop where
  names : ops.names r.1.fs = ops.names s.fs
  data : ops.data r.1.fs = ops.data s.fs
  error : ∀ e, r.2 = .error e → r.1.refs = refs
  ok : ∀ v, r.2 = .ok v → r.1.refs = bump refs v

variable {t : Sys σ ν}

lemma Quiet.trans {r : Sys σ ν × Except ℤ ν}
    (h : Quiet ops t refs r) (hnames : ops.names t.fs = ops.names s.fs)
    (hdata : ops.data t.fs = ops.data s.fs) : Quiet ops s refs r :=
  ⟨h.names.trans hnames, h.data.trans hdata, h.error, h.ok⟩

variable {e : ℤ}

/-- The reference to `v` is given back with an error. -/
lemma Quiet.giveBack
    (hnames : ops.names t.fs = ops.names s.fs) (hdata : ops.data t.fs = ops.data s.fs)
    (href : t.refs = bump refs v) : Quiet ops s refs (t.unref ops v, .error e) :=
  ⟨(unref_names t v).trans hnames, (unref_data t v).trans hdata, fun _ _ => unref_refs href, nofun⟩

lemma vfsLookupAt_quiet (ops : Ops σ ν N D) (s : Sys σ ν) (dir : ν) (name : Str) :
    Quiet ops s s.refs (vfsLookupAt ops s dir name) := by
  have hnames := ops.lookup_names s.fs dir name
  have hdata := ops.lookup_data s.fs dir name
  rw [vfsLookupAt]
  split
  · exact ⟨rfl, rfl, fun _ _ => rfl, nofun⟩
  · generalize ops.lookup s.fs dir name = r at hnames hdata
    obtain ⟨fs, res⟩ := r
    cases res with
    | error e => exact ⟨hnames, hdata, fun _ _ => rfl, nofun⟩
    | ok v =>
      cases v with
      | none => exact ⟨hnames, hdata, fun _ _ => rfl, nofun⟩
      | some v =>
        refine ⟨hnames, hdata, nofun, fun w hw => ?_⟩
        rw [← Except.ok.inj hw]
        rfl

/-! ## Resolution -/

/-- A walk gives back each directory that it leaves. -/
lemma walk_quiet {cur : ν} (h : s.refs = bump refs cur)
    (cur_path : Str) (comps : List Str) : Quiet ops s refs (walk ops ns s cur cur_path comps) := by
  induction comps generalizing s cur cur_path with
  | nil =>
    refine ⟨rfl, rfl, nofun, fun v hv => ?_⟩
    rw [← Except.ok.inj hv]
    exact h
  | cons comp comps ih =>
    rw [walk]
    split
    · exact .giveBack rfl rfl h
    · simp only
      cases ns.mounted (pathJoin VFS_PATH_MAX cur_path comp) with
      | some next =>
        -- into a mounted filesystem
        have hcross : ((s.ref next).unref ops cur).refs = bump refs next := by
          apply unref_refs
          rw [bump_comm, ← h]
          rfl
        exact (ih hcross _).trans (unref_names _ _) (unref_data _ _)
      | none =>
        have hlookup := vfsLookupAt_quiet ops s cur comp
        generalize vfsLookupAt ops s cur comp = r at hlookup
        obtain ⟨t, res⟩ := r
        cases res with
        | error e =>
          have href := hlookup.error e rfl
          exact .giveBack hlookup.names hlookup.data (href.trans h)
        | ok next =>
          have href : (t.unref ops cur).refs = bump refs next := by
            apply unref_refs
            rw [hlookup.ok next rfl, h, bump_comm]
          apply (ih href _).trans
          · rw [unref_names, hlookup.names]
          · rw [unref_data, hlookup.data]

lemma vfsResolve_quiet (ops : Ops σ ν N D) (ns : Namespace ν) (s : Sys σ ν) (path : Str) :
    Quiet ops s s.refs (vfsResolve ops ns s path) := by
  rw [vfsResolve]
  split
  · exact ⟨rfl, rfl, fun _ _ => rfl, nofun⟩
  · split
    · exact ⟨rfl, rfl, fun _ _ => rfl, nofun⟩
    · next comps _ =>
      rw [resolveComps]
      split
      · exact ⟨rfl, rfl, fun _ _ => rfl, nofun⟩
      · next cur _ =>
        have hwalk : Quiet ops (s.ref cur) s.refs (walk ops ns (s.ref cur) cur [] comps) :=
          walk_quiet rfl [] comps
        exact hwalk.trans rfl rfl

/-! ## The checks behind the creation -/

/-- Behind the creation the namespace stays, the reference is the file's or is given back, and
what decides is whether the call is exclusive and the vnode opens. -/
structure Opened (ops : Ops σ ν N D) (s : Sys σ ν) (refs : ν → ℕ) (vn : ν) (flags : BitVec 32)
    (mem : Bool) (r : Sys σ ν × Except ℤ ν) : Prop where
  names : ops.names r.1.fs = ops.names s.fs
  error : ∀ e, r.2 = .error e → r.1.refs = refs
  ok : ∀ w, r.2 = .ok w → w = vn ∧ r.1.refs = bump refs vn ∧
    (flags &&& O_TRUNC = 0 → ops.data r.1.fs = ops.data s.fs)
  succeeds : (∃ w, r.2 = .ok w) ↔
    ¬ (flags &&& O_CREAT ≠ 0 ∧ flags &&& O_EXCL ≠ 0) ∧ Opens ops s vn flags mem

variable {flags : BitVec 32} {mem : Bool}

/-- A way out with the reference given back. -/
lemma Opened.fail {vn : ν}
    (hnames : ops.names t.fs = ops.names s.fs) (href : t.refs = bump refs vn)
    (hnot : ¬ (¬ (flags &&& O_CREAT ≠ 0 ∧ flags &&& O_EXCL ≠ 0) ∧ Opens ops s vn flags mem)) :
    Opened ops s refs vn flags mem (t.unref ops vn, .error e) := by
  refine ⟨(unref_names t vn).trans hnames, fun _ _ => unref_refs href, nofun, ?_⟩
  constructor
  · rintro ⟨w, hw⟩
    cases hw
  · intro h
    exact absurd h hnot

/-- The reference to the node goes to the open file, or is given back. -/
lemma openVnode_opened (ops : Ops σ ν N D) {vn : ν}
    (h : s.refs = bump refs vn) (flags : BitVec 32) (mem : Bool) :
    Opened ops s refs vn flags mem (openVnode ops s vn flags mem) := by
  rw [openVnode]
  by_cases hexcl : flags &&& O_CREAT ≠ 0 ∧ flags &&& O_EXCL ≠ 0
  · rw [if_pos hexcl]
    exact .fail rfl h fun hc => hc.1 hexcl
  rw [if_neg hexcl]
  cases hattr : ops.getattr s.fs vn with
  | error e =>
    apply Opened.fail rfl h
    rintro ⟨-, isDir, hget, -⟩
    rw [hattr] at hget
    cases hget
  | ok isDir =>
    simp only
    by_cases hdir : isDir = true ∧ flags &&& O_ACCMODE ≠ O_RDONLY
    · rw [if_pos hdir]
      apply Opened.fail rfl h
      rintro ⟨-, isDir', hget, hno, -⟩
      rw [hattr] at hget
      rw [← Except.ok.inj hget] at hno
      exact hno hdir
    rw [if_neg hdir]
    have hnames : ops.names (if flags &&& O_TRUNC ≠ 0 ∧ isDir = false then
        { s with fs := ops.truncate s.fs vn } else s).fs = ops.names s.fs := by
      split
      · exact ops.truncate_names _ _
      · rfl
    have href : (if flags &&& O_TRUNC ≠ 0 ∧ isDir = false then
        { s with fs := ops.truncate s.fs vn } else s).refs = bump refs vn := by
      split
      · exact h
      · exact h
    by_cases hmem : mem = false
    · rw [if_pos hmem]
      apply Opened.fail hnames href
      rintro ⟨-, -, -, -, hc⟩
      rw [hmem] at hc
      cases hc
    · rw [if_neg hmem]
      refine ⟨hnames, nofun, fun w hw => ⟨(Except.ok.inj hw).symm, href, fun htrunc => ?_⟩, ?_⟩
      · rw [if_neg fun hc => hc.1 htrunc]
      · constructor
        · intro _
          exact ⟨hexcl, isDir, hattr, hdir, by simpa using hmem⟩
        · intro _
          exact ⟨vn, rfl⟩

/-! ## The call -/

/-- What follows on the call of `vfs_create_at`. -/
def created (ops : Ops σ ν N D) (s : Sys σ ν) (pdir : ν) (base : Str) (flags : BitVec 32)
    (mem : Bool) : Sys σ ν × Except ℤ ν :=
  match vfsCreateAt ops s pdir base with
  | (s, .error e) => (s.unref ops pdir, .error e)
  | (s, .ok vn) => openVnode ops (s.unref ops pdir) vn flags mem

variable {path : Str}

variable {pdir : ν}

lemma Creates.unique {s₂ s₂' : Sys σ ν} {base base' : Str}
    {pdir' : ν} (h : Creates ops ns s path flags s₂ pdir base)
    (h' : Creates ops ns s path flags s₂' pdir' base') :
    s₂' = s₂ ∧ pdir' = pdir ∧ base' = base := by
  obtain ⟨parent, hsplit, hparent⟩ := h.parent
  obtain ⟨parent', hsplit', hparent'⟩ := h'.parent
  obtain ⟨rfl, rfl⟩ := Prod.mk.inj (Except.ok.inj (hsplit.symm.trans hsplit'))
  obtain ⟨rfl, hok⟩ := Prod.mk.inj (hparent.symm.trans hparent')
  exact ⟨rfl, (Except.ok.inj hok).symm, rfl⟩

/-- Before the creation only the reference to the parent has been taken. -/
lemma Creates.quiet {s₂ : Sys σ ν} {base : Str}
    (h : Creates ops ns s path flags s₂ pdir base) :
    ops.names s₂.fs = ops.names s.fs ∧ s₂.refs = bump s.refs pdir := by
  obtain ⟨parent, -, hparent⟩ := h.parent
  have hfirst := vfsResolve_quiet ops ns s path
  have hsecond := vfsResolve_quiet ops ns (vfsResolve ops ns s path).1 parent
  rw [hparent] at hsecond
  refine ⟨hsecond.names.trans hfirst.names, ?_⟩
  rw [hsecond.ok pdir rfl, hfirst.error ENOENT h.missing]

/-- The ways through the call: it fails with nothing done, it finds a vnode, or it creates. -/
lemma vfsOpen_cases (ops : Ops σ ν N D) (ns : Namespace ν) (s : Sys σ ν) (path : Str)
    (flags : BitVec 32) (mem : Bool) :
    ((∃ e, (vfsOpen ops ns s path flags mem).2 = .error e) ∧
        ops.names (vfsOpen ops ns s path flags mem).1.fs = ops.names s.fs ∧
        (vfsOpen ops ns s path flags mem).1.refs = s.refs ∧
        ∀ s₂ pdir base, ¬ Creates ops ns s path flags s₂ pdir base) ∨
      (∃ s₁ vn, vfsResolve ops ns s path = (s₁, .ok vn) ∧
        vfsOpen ops ns s path flags mem = openVnode ops s₁ vn flags mem) ∨
      (∃ s₂ pdir base, Creates ops ns s path flags s₂ pdir base ∧
        vfsOpen ops ns s path flags mem = created ops s₂ pdir base flags mem) := by
  have hquiet := vfsResolve_quiet ops ns s path
  by_cases hmode : flags &&& O_ACCMODE = 3
  · left
    rw [vfsOpen, if_pos hmode]
    exact ⟨⟨_, rfl⟩, rfl, rfl, fun _ _ _ hc => hc.mode hmode⟩
  rw [vfsOpen, if_neg hmode]
  cases hres : vfsResolve ops ns s path with
  | mk s₁ res =>
    rw [hres] at hquiet
    cases res with
    | ok vn => exact .inr (.inl ⟨s₁, vn, rfl, rfl⟩)
    | error e =>
      have hsame := hquiet.error e rfl
      simp only
      by_cases hcreat : e = ENOENT ∧ flags &&& O_CREAT ≠ 0
      · rw [if_pos hcreat, openCreate]
        have hmissing : Missing ops ns s path := by
          rw [Missing, hres, hcreat.1]
        cases hsplit : Paths.splitParent path with
        | error err =>
          refine .inl ⟨⟨_, rfl⟩, hquiet.names, hsame, fun _ _ _ hc => ?_⟩
          obtain ⟨parent, hc, -⟩ := hc.parent
          cases hsplit.symm.trans hc
        | ok pair =>
          obtain ⟨parent, base⟩ := pair
          simp only
          by_cases hleaf : badLeafName base = true
          · rw [if_pos hleaf]
            refine .inl ⟨⟨_, rfl⟩, hquiet.names, hsame, fun _ _ _ hc => ?_⟩
            obtain ⟨parent', hc', -⟩ := hc.parent
            have hbase := (Prod.mk.inj (Except.ok.inj (hsplit.symm.trans hc'))).2
            have hgood := hc.leaf
            rw [← hbase, hleaf] at hgood
            cases hgood
          · rw [if_neg hleaf]
            have hquiet₂ := vfsResolve_quiet ops ns s₁ parent
            cases hres₂ : vfsResolve ops ns s₁ parent with
            | mk s₂ res₂ =>
              rw [hres₂] at hquiet₂
              cases res₂ with
              | error e₂ =>
                refine .inl ⟨⟨_, rfl⟩, hquiet₂.names.trans hquiet.names,
                  (hquiet₂.error e₂ rfl).trans hsame, fun _ _ _ hc => ?_⟩
                obtain ⟨parent', hc', hres'⟩ := hc.parent
                obtain ⟨rfl, -⟩ := Prod.mk.inj (Except.ok.inj (hsplit.symm.trans hc'))
                rw [hres, hres₂] at hres'
                cases hres'
              | ok pdir =>
                have hgood : badLeafName base = false := by simpa using hleaf
                refine .inr (.inr ⟨s₂, pdir, base,
                  ⟨hmode, hcreat.2, hmissing, hgood, parent, hsplit, ?_⟩, rfl⟩)
                rw [hres]
                exact hres₂
      · rw [if_neg hcreat]
        refine .inl ⟨⟨e, rfl⟩, hquiet.names, hsame, fun _ _ _ hc => hcreat ⟨?_, hc.creat⟩⟩
        have hmissing := hc.missing
        rw [Missing, hres] at hmissing
        exact Except.error.inj hmissing

/-- What the way through the creation leaves. -/
lemma created_spec (h : s.refs = bump refs pdir)
    (base : Str) (flags : BitVec 32) (mem : Bool) :
    ops.names (created ops s pdir base flags mem).1.fs
        = ops.names (vfsCreateAt ops s pdir base).1.fs ∧
      (∀ e, (created ops s pdir base flags mem).2 = .error e →
        (created ops s pdir base flags mem).1.refs = refs) ∧
      ((∃ v, (created ops s pdir base flags mem).2 = .ok v) ↔
        ¬ (flags &&& O_CREAT ≠ 0 ∧ flags &&& O_EXCL ≠ 0) ∧
          ∃ vn, (vfsCreateAt ops s pdir base).2 = .ok vn ∧
            Opens ops ((vfsCreateAt ops s pdir base).1.unref ops pdir) vn flags mem) := by
  have hcreate : (∀ e, (vfsCreateAt ops s pdir base).2 = .error e →
        (vfsCreateAt ops s pdir base).1.refs = s.refs) ∧
      ∀ v, (vfsCreateAt ops s pdir base).2 = .ok v →
        (vfsCreateAt ops s pdir base).1.refs = bump s.refs v := by
    rw [vfsCreateAt]
    split
    · exact ⟨fun _ _ => rfl, nofun⟩
    · generalize ops.create s.fs pdir base = r
      obtain ⟨fs, res⟩ := r
      cases res with
      | error e => exact ⟨fun _ _ => rfl, nofun⟩
      | ok v =>
        refine ⟨nofun, fun w hw => ?_⟩
        rw [← Except.ok.inj hw]
        rfl
  rw [created]
  generalize vfsCreateAt ops s pdir base = r at hcreate
  obtain ⟨t, res⟩ := r
  cases res with
  | error e =>
    have href : (t.unref ops pdir).refs = refs := unref_refs ((hcreate.1 e rfl).trans h)
    refine ⟨unref_names t pdir, fun _ _ => href, ?_⟩
    constructor
    · rintro ⟨v, hv⟩
      cases hv
    · rintro ⟨-, vn, hvn, -⟩
      cases hvn
  | ok vn =>
    have href : (t.unref ops pdir).refs = bump refs vn := by
      apply unref_refs
      rw [hcreate.2 vn rfl, h, bump_comm]
    have hopened := openVnode_opened ops href flags mem
    refine ⟨hopened.names.trans (unref_names t pdir), hopened.error, hopened.succeeds.trans ?_⟩
    constructor
    · rintro ⟨hexcl, hopens⟩
      exact ⟨hexcl, vn, rfl, hopens⟩
    · rintro ⟨hexcl, w, hw, hopens⟩
      rw [← Except.ok.inj hw] at hopens
      exact ⟨hexcl, hopens⟩

/-! ## The law -/

/-- An exclusive call never succeeds. -/
lemma exclusive_fails
    (hcreat : flags &&& O_CREAT ≠ 0) (hexcl : flags &&& O_EXCL ≠ 0) :
    ¬ ∃ v, (vfsOpen ops ns s path flags mem).2 = .ok v := by
  intro hok
  obtain ⟨⟨e, he⟩, -⟩ | ⟨s₁, vn, hres, hopen⟩ | ⟨s₂, pdir, base, hcreates, hopen⟩ :=
    vfsOpen_cases ops ns s path flags mem
  · obtain ⟨v, hv⟩ := hok
    cases he.symm.trans hv
  · have hquiet := vfsResolve_quiet ops ns s path
    rw [hres] at hquiet
    rw [hopen] at hok
    exact ((openVnode_opened ops (hquiet.ok vn rfl) flags mem).succeeds.mp hok).1 ⟨hcreat, hexcl⟩
  · obtain ⟨-, -, hsucceeds⟩ := created_spec hcreates.quiet.2 base flags mem
    rw [hopen] at hok
    exact (hsucceeds.mp hok).1 ⟨hcreat, hexcl⟩

/-- Every reference is given back with an error. -/
lemma error_refs
    (h : (vfsOpen ops ns s path flags mem).2 = .error e) :
    (vfsOpen ops ns s path flags mem).1.refs = s.refs := by
  obtain ⟨-, -, hrefs, -⟩ | ⟨s₁, vn, hres, hopen⟩ | ⟨s₂, pdir, base, hcreates, hopen⟩ :=
    vfsOpen_cases ops ns s path flags mem
  · exact hrefs
  · have hquiet := vfsResolve_quiet ops ns s path
    rw [hres] at hquiet
    rw [hopen] at h ⊢
    exact (openVnode_opened ops (hquiet.ok vn rfl) flags mem).error e h
  · obtain ⟨-, herror, -⟩ := created_spec hcreates.quiet.2 base flags mem
    rw [hopen] at h ⊢
    exact herror e h

/-- An existing file is opened as it is. -/
lemma existing_opened {w : ν}
    (hexists : (vfsResolve ops ns s path).2 = .ok v)
    (h : (vfsOpen ops ns s path flags mem).2 = .ok w) :
    w = v ∧ (vfsOpen ops ns s path flags mem).1.refs = (s.ref v).refs ∧
      ops.names (vfsOpen ops ns s path flags mem).1.fs = ops.names s.fs ∧
      (flags &&& O_TRUNC = 0 →
        ops.data (vfsOpen ops ns s path flags mem).1.fs = ops.data s.fs) := by
  obtain ⟨⟨e, he⟩, -⟩ | ⟨s₁, vn, hres, hopen⟩ | ⟨s₂, pdir, base, hcreates, -⟩ :=
    vfsOpen_cases ops ns s path flags mem
  · cases he.symm.trans h
  · have hquiet := vfsResolve_quiet ops ns s path
    rw [hres] at hquiet hexists
    obtain rfl := Except.ok.inj hexists
    rw [hopen] at h ⊢
    have hopened := openVnode_opened ops (hquiet.ok vn rfl) flags mem
    obtain ⟨hvn, hrefs, hdata⟩ := hopened.ok w h
    exact ⟨hvn, hrefs, hopened.names.trans hquiet.names, fun ht => (hdata ht).trans hquiet.data⟩
  · cases hcreates.missing.symm.trans hexists

/-- An existing file whose attributes allow the mode is opened, unless the call is exclusive. -/
lemma existing_opens (hexists : (vfsResolve ops ns s path).2 = .ok v)
    (hmode : flags &&& O_ACCMODE ≠ 3) (hshared : ¬ (flags &&& O_CREAT ≠ 0 ∧ flags &&& O_EXCL ≠ 0))
    (hopens : Opens ops (vfsResolve ops ns s path).1 v flags mem) :
    (vfsOpen ops ns s path flags mem).2 = .ok v := by
  obtain ⟨isDir, hattr, hallowed, rfl⟩ := hopens
  rw [vfsOpen, if_neg hmode]
  cases hres : vfsResolve ops ns s path with
  | mk s₁ res =>
    rw [hres] at hexists hattr
    obtain rfl : res = .ok v := hexists
    show (openVnode ops s₁ v flags true).2 = .ok v
    rw [openVnode, if_neg hshared]
    simp only [hattr]
    rw [if_neg hallowed]
    rfl

/-- The namespace stays with an error exactly if what is created there is opened. -/
lemma unchanged_iff (s : Sys σ ν) (path : Str) (flags : BitVec 32) (mem : Bool) :
    (∀ e, (vfsOpen ops ns s path flags mem).2 = .error e →
        ops.names (vfsOpen ops ns s path flags mem).1.fs = ops.names s.fs) ↔
      ∀ s₂ pdir base, Creates ops ns s path flags s₂ pdir base →
        ops.names (vfsCreateAt ops s₂ pdir base).1.fs ≠ ops.names s₂.fs →
        flags &&& O_EXCL = 0 ∧ ∃ vn, (vfsCreateAt ops s₂ pdir base).2 = .ok vn ∧
          Opens ops ((vfsCreateAt ops s₂ pdir base).1.unref ops pdir) vn flags mem := by
  obtain ⟨-, hnames, -, hnone⟩ | ⟨s₁, vn, hres, hopen⟩ | ⟨s₂, pdir, base, hcreates, hopen⟩ :=
    vfsOpen_cases ops ns s path flags mem
  · exact ⟨fun _ s₂ pdir base hc => absurd hc (hnone s₂ pdir base), fun _ _ _ => hnames⟩
  · have hquiet := vfsResolve_quiet ops ns s path
    constructor
    · intro _ s₂ pdir base hc
      have hmissing := hc.missing
      rw [Missing, hres] at hmissing
      cases hmissing
    · intro _ _ _
      rw [hres] at hquiet
      rw [hopen]
      exact (openVnode_opened ops (hquiet.ok vn rfl) flags mem).names.trans hquiet.names
  · obtain ⟨hnames₂, hrefs₂⟩ := hcreates.quiet
    obtain ⟨hnames, -, hsucceeds⟩ := created_spec hrefs₂ base flags mem
    rw [hopen, hnames, ← hnames₂]
    constructor
    · intro h s₂' pdir' base' hc hchanged
      obtain ⟨rfl, rfl, rfl⟩ := hcreates.unique hc
      -- an error would have left the namespace alone
      cases hres : (created ops s₂' pdir' base' flags mem).2 with
      | error e => exact absurd (h e hres) hchanged
      | ok v =>
        obtain ⟨hexcl, hopens⟩ := hsucceeds.mp ⟨v, hres⟩
        refine ⟨?_, hopens⟩
        by_contra hne
        exact hexcl ⟨hcreates.creat, hne⟩
    · intro h e he
      by_contra hchanged
      obtain ⟨hexcl, hopens⟩ := h s₂ pdir base hcreates hchanged
      obtain ⟨v, hv⟩ := hsucceeds.mpr ⟨fun hc => hc.2 hexcl, hopens⟩
      cases he.symm.trans hv

/-- A call does what it is to do if and only if, being exclusive, it does not find its place free,
and otherwise opens what it creates. -/
theorem open_with_creation (ops : Ops σ ν N D) (ns : Namespace ν) (s : Sys σ ν) (path : Str)
    (flags : BitVec 32) (mem : Bool) :
    Lawful ops ns s path flags mem (vfsOpen ops ns s path flags mem) ↔
      Fine ops ns s path flags mem := by
  rw [Fine, ← unchanged_iff]
  constructor
  · intro h
    refine ⟨fun hcreat hexcl hfree => ?_, h.unchanged⟩
    exact exclusive_fails hcreat hexcl ((h.exclusive hcreat hexcl).mpr hfree)
  · rintro ⟨hnotfree, hunchanged⟩
    refine ⟨fun hcreat hexcl => ?_, hunchanged, fun e => error_refs, fun v w => existing_opened,
      fun v => existing_opens⟩
    constructor
    · intro hok
      exact absurd hok (exclusive_fails hcreat hexcl)
    · intro hfree
      exact absurd hfree (hnotfree hcreat hexcl)

/-! ## ramfs -/

section ramfs

open Ramfs

/-- The directories of a ramfs with the names of their children. -/
def ramfsNames (s : Fs) (n : NodeId) : List (Str × NodeId) :=
  (s.node n).children.map fun c => ((s.node c).name, c)

def ramfsData (s : Fs) (n : NodeId) : ℕ × (ℕ → UInt8) := ((s.node n).len, (s.node n).data)

/-- A node whose name, children and data stay. -/
lemma ramfs_setNode {s : Fs} {n : NodeId} {x : RamNode} (hname : x.name = (s.node n).name)
    (hchildren : x.children = (s.node n).children) :
    ramfsNames (s.setNode n x) = ramfsNames s ∧
      (x.len = (s.node n).len → x.data = (s.node n).data →
        ramfsData (s.setNode n x) = ramfsData s) := by
  have hnames : ∀ m, ((s.setNode n x).node m).name = (s.node m).name := by
    intro m
    by_cases hm : m = n
    · rw [hm, Fs.setNode_self, hname]
    · rw [Fs.setNode_of_ne _ _ hm]
  constructor
  · ext1 m
    have hkids : ((s.setNode n x).node m).children = (s.node m).children := by
      by_cases hm : m = n
      · rw [hm, Fs.setNode_self, hchildren]
      · rw [Fs.setNode_of_ne _ _ hm]
    simp only [ramfsNames, hkids, hnames]
  · intro hlen hdata
    ext1 m
    by_cases hm : m = n
    · rw [hm, ramfsData, ramfsData, Fs.setNode_self, hlen, hdata]
    · rw [ramfsData, ramfsData, Fs.setNode_of_ne _ _ hm]

lemma ramfsLookup_keeps (s : Fs) (dir : ShellId) (name : Str) :
    ramfsNames (ramfsLookup s dir name true).1 = ramfsNames s ∧
      ramfsData (ramfsLookup s dir name true).1 = ramfsData s := by
  rw [ramfsLookup]
  split
  · exact ⟨rfl, rfl⟩
  · split
    · exact ⟨rfl, rfl⟩
    · split
      · exact ⟨rfl, rfl⟩
      · next c _ =>
        -- the shell is counted in its node
        have hset := @ramfs_setNode { s with
          shell := Function.update s.shell s.nshell ⟨(s.node c).type, c, (s.node c).ino, 1⟩
          nshell := s.nshell + 1 } c { s.node c with vnLive := (s.node c).vnLive + 1 } rfl rfl
        exact ⟨hset.1, hset.2 rfl rfl⟩

lemma freeNode_keeps (s : Fs) (n : NodeId) :
    ramfsNames (freeNode s n) = ramfsNames s ∧ ramfsData (freeNode s n) = ramfsData s := by
  have hset := @ramfs_setNode s n { s.node n with frees := (s.node n).frees + 1 } rfl rfl
  exact ⟨hset.1, hset.2 rfl rfl⟩

lemma ramfsDestroy_keeps (s : Fs) (n : NodeId) :
    ramfsNames (ramfsDestroy s n) = ramfsNames s ∧
      ramfsData (ramfsDestroy s n) = ramfsData s := by
  have hset := @ramfs_setNode s n { s.node n with vnLive := (s.node n).vnLive - 1 } rfl rfl
  rw [ramfsDestroy]
  split
  · obtain ⟨hnames, hdata⟩ := freeNode_keeps
      (s.setNode n { s.node n with vnLive := (s.node n).vnLive - 1 }) n
    exact ⟨hnames.trans hset.1, hdata.trans (hset.2 rfl rfl)⟩
  · exact ⟨hset.1, hset.2 rfl rfl⟩

lemma ramfsTruncate_names (s : Fs) (v : ShellId) :
    ramfsNames (ramfsWrite s v 0 [] true).1 = ramfsNames s := by
  rw [ramfsWrite]
  split
  · rfl
  · rw [if_pos ⟨rfl, rfl⟩]
    exact (@ramfs_setNode s (s.shell v).priv { s.node (s.shell v).priv with len := 0 } rfl rfl).1

/-- A mounted ramfs that always has memory. -/
def ramfsOps : Ops Fs ShellId (NodeId → List (Str × NodeId)) (NodeId → ℕ × (ℕ → UInt8)) where
  dir s v := (s.shell v).type = .dir
  lookup s d c := ((ramfsLookup s d c true).1, match (ramfsLookup s d c true).2 with
    | .notdir => .error ENOTDIR
    | .noent => .error ENOENT
    | .found v => .ok (some v))
  create s d c := ((ramfsCreate s d c .file true true).1,
    match (ramfsCreate s d c .file true true).2 with
    | .notdir => .error ENOTDIR
    | .nametoolong => .error (num .ENAMETOOLONG)
    | .nomem => .error ENOMEM
    | .exist => .error EEXIST
    | .created v => .ok v)
  getattr s v := .ok ((s.shell v).type = .dir)
  truncate s v := (ramfsWrite s v 0 [] true).1
  destroy s v := ramfsDestroy s (s.shell v).priv
  names := ramfsNames
  data := ramfsData
  lookup_names s d c := (ramfsLookup_keeps s d c).1
  lookup_data s d c := (ramfsLookup_keeps s d c).2
  destroy_names s v := (ramfsDestroy_keeps s (s.shell v).priv).1
  destroy_data s v := (ramfsDestroy_keeps s (s.shell v).priv).2
  truncate_names := ramfsTruncate_names

/-- An empty ramfs at the root, whose vnode the mount holds. -/
def emptyRoot : Sys Fs ShellId := ⟨ramfsMount, fun v => if v = 0 then 1 else 0⟩

def onlyRoot : Namespace ShellId := ⟨some 0, fun _ => none⟩

/-- `O_WRONLY | O_CREAT | O_EXCL` of `/f` fails, and `/f` is there. -/
theorem exclusive_leaves_file :
    (vfsOpen ramfsOps onlyRoot emptyRoot [47, 102] 0xC1 true).2 = .error EEXIST ∧
      (vfsResolve ramfsOps onlyRoot emptyRoot [47, 102]).2 = .error ENOENT ∧
      ramfsNames (vfsOpen ramfsOps onlyRoot emptyRoot [47, 102] 0xC1 true).1.fs 0 = [([102], 1)] ∧
      ¬ Lawful ramfsOps onlyRoot emptyRoot [47, 102] 0xC1 true
        (vfsOpen ramfsOps onlyRoot emptyRoot [47, 102] 0xC1 true) := by
  have hnames : ramfsNames (vfsOpen ramfsOps onlyRoot emptyRoot [47, 102] 0xC1 true).1.fs 0
      = [([102], 1)] := rfl
  refine ⟨rfl, rfl, hnames, fun h => ?_⟩
  have hsame := congrFun (h.unchanged EEXIST rfl) 0
  cases hnames.symm.trans hsame

end ramfs
end MobilePhoneOs.Vfs.Open
