import Mathlib.Data.Option.Basic
import Mathlib.Data.List.Range
import MobilePhoneOs.Fs.Mount

/-!
# When the mount table is a map from mountpoints to mounts

While every mount that fails has the last slot, the slots below `nmounts` are the active mounts
and the table is a map from mountpoints to mounts. A step changes this map as it is to exactly
when it meets the condition.
-/

namespace MobilePhoneOs

open Function (update update_self update_of_ne)
namespace Vfs
namespace Mounts


/-! ## The table as a map -/

/-- The slots in use are the first ones, all active, with different mountpoints, the root first. -/
structure Table.Sound (t : Table) : Prop where
  bound : t.nmounts ≤ VFS_MOUNT_MAX
  active : ∀ i < t.nmounts, (t.mounts i).active = true
  paths : ∀ i < t.nmounts, ∀ j < t.nmounts, (t.mounts i).path = (t.mounts j).path → i = j
  root : t.have_root = true ↔ 0 < t.nmounts
  first : 0 < t.nmounts → (t.mounts 0).path = [SLASH]

namespace Table.Sound

variable {t u : Table} {path : Str} {i slot : ℕ} {m : Mount}

lemma find_iff (h : t.Sound) :
    t.findMountpoint path = some i ↔ i < t.nmounts ∧ (t.mounts i).path = path := by
  unfold Table.findMountpoint
  rw [List.find?_range_eq_some]
  simp only [Bool.and_eq_true, decide_eq_true_eq, List.mem_range, Bool.not_eq_true']
  constructor
  · exact fun hfind => ⟨hfind.2.1, hfind.1.2⟩
  · intro hat
    refine ⟨⟨h.active i hat.1, hat.2⟩, hat.1, fun j hj => ?_⟩
    -- an earlier slot with this mountpoint would be the same slot
    have hne : (t.mounts j).path ≠ path := fun hp =>
      absurd (h.paths j (by omega) i hat.1 (hp.trans hat.2.symm)) (by omega)
    simp [hne]

lemma find_none_iff (h : t.Sound) :
    t.findMountpoint path = none ↔ ∀ i < t.nmounts, (t.mounts i).path ≠ path := by
  constructor
  · intro hnone i hi hp
    have hsome := h.find_iff.mpr ⟨hi, hp⟩
    rw [hnone] at hsome
    cases hsome
  · intro hall
    cases hfind : t.findMountpoint path with
    | none => rfl
    | some i => exact absurd (h.find_iff.mp hfind).2 (hall i (h.find_iff.mp hfind).1)

lemma view_iff (h : t.Sound) :
    t.view path = some m ↔ ∃ i < t.nmounts, t.mounts i = m ∧ m.path = path := by
  unfold Table.view
  rw [Option.map_eq_some_iff]
  constructor
  · intro hview
    obtain ⟨i, hfind, hm⟩ := hview
    have hat := h.find_iff.mp hfind
    exact ⟨i, hat.1, hm, by rw [← hm]; exact hat.2⟩
  · intro hat
    obtain ⟨i, hi, hm, hp⟩ := hat
    exact ⟨i, h.find_iff.mpr ⟨hi, by rw [hm]; exact hp⟩, hm⟩

lemma view_at (h : t.Sound) (hi : i < t.nmounts) : t.view (t.mounts i).path = some (t.mounts i) :=
  h.view_iff.mpr ⟨i, hi, rfl, rfl⟩

/-- Two tables have the same view when they have the same mounts, by mountpoint. -/
lemma view_ext (h : u.Sound) {v : Str → Option Mount}
    (hv : ∀ path m, v path = some m ↔ ∃ i < u.nmounts, u.mounts i = m ∧ m.path = path) :
    u.view = v := by
  funext path
  apply Option.ext
  intro m
  rw [h.view_iff, hv]

/-- What a resolver can see is in a slot below `nmounts`. -/
lemma sees_iff (h : t.Sound) : t.Sees m ↔ ∃ i < t.nmounts, t.mounts i = m := by
  constructor
  · intro hsees
    rcases hsees with hfirst | hview
    · exact ⟨0, h.root.mp hfirst.1, hfirst.2.symm⟩
    · obtain ⟨path, hpath⟩ := hview
      obtain ⟨i, hi, hm, -⟩ := h.view_iff.mp hpath
      exact ⟨i, hi, hm⟩
  · intro hat
    obtain ⟨i, hi, hm⟩ := hat
    exact .inr ⟨m.path, h.view_iff.mpr ⟨i, hi, hm, rfl⟩⟩

end Table.Sound

/-! ## The three changes of the table -/

section Changes

variable {t u : Table} {r : Request} {path : Str} {slot : ℕ} {root : Vnode}

/-- What `vfs_mount` has checked when it claims a slot, and the table then. -/
lemma vfsMount_ok (h : t.vfsMount r = .ok u) :
    r.path.head? = some SLASH ∧ (r.path = [SLASH] ↔ t.have_root = false) ∧
      t.findMountpoint r.path = none ∧ t.nmounts < VFS_MOUNT_MAX ∧
      u = { t with
        mounts := update t.mounts t.nmounts r.entry
        nmounts := t.nmounts + 1
        have_root := t.have_root || r.path = [SLASH] } := by
  unfold Table.vfsMount at h
  split at h
  · cases h
  · rename_i hpath
    split at h
    · cases h
    split at h
    · cases h
    rename_i hagain
    split at h
    · cases h
    rename_i hnoroot
    split at h
    · cases h
    rename_i hfree
    split at h
    · cases h
    rename_i hroom
    have hu := (Except.ok.inj h).symm
    simp only [not_or, not_not] at hpath
    simp only [Bool.not_eq_true, Option.isSome_eq_false_iff, Option.isNone_iff_eq_none] at hfree
    refine ⟨hpath.1, ?_, hfree, by omega, hu⟩
    cases hroot : t.have_root with
    | true => simpa [hroot] using hagain
    | false => simpa [hroot] using hnoroot

/-- A mount takes the slot behind the last, for a path that has none. -/
lemma Table.Sound.claim (h : t.Sound) (hr : t.vfsMount r = .ok u) :
    u.Sound ∧ u.view = update t.view r.path (some r.entry) := by
  obtain ⟨-, hroot, hfind, hroom, hu⟩ := vfsMount_ok hr
  have hnew := h.find_none_iff.mp hfind
  have hcount : u.nmounts = t.nmounts + 1 := by rw [hu]
  have hold : ∀ i < t.nmounts, u.mounts i = t.mounts i := fun i hi => by
    rw [hu]
    exact update_of_ne (by omega) _ _
  have hlast : u.mounts t.nmounts = r.entry := by
    rw [hu]
    exact update_self ..
  have hsound : u.Sound := by
    refine ⟨by omega, fun i hi => ?_, fun i hi j hj hp => ?_, ?_, fun _ => ?_⟩
    · rcases Nat.lt_succ_iff_lt_or_eq.mp (hcount ▸ hi) with hlt | rfl
      · rw [hold i hlt]
        exact h.active i hlt
      · rw [hlast]
        rfl
    · rcases Nat.lt_succ_iff_lt_or_eq.mp (hcount ▸ hi) with hlt | rfl
      · rw [hold i hlt] at hp
        rcases Nat.lt_succ_iff_lt_or_eq.mp (hcount ▸ hj) with hjlt | rfl
        · rw [hold j hjlt] at hp
          exact h.paths i hlt j hjlt hp
        · rw [hlast] at hp
          exact absurd hp (hnew i hlt)
      · rw [hlast] at hp
        rcases Nat.lt_succ_iff_lt_or_eq.mp (hcount ▸ hj) with hjlt | rfl
        · rw [hold j hjlt] at hp
          exact absurd hp.symm (hnew j hjlt)
        · rfl
    · -- the first mount is the root, so some root there is
      refine iff_of_true ?_ (by omega)
      rw [hu]
      cases hr' : t.have_root with
      | true => simp
      | false => simp [hroot.mpr hr']
    · rcases Nat.eq_zero_or_pos t.nmounts with hz | hpos
      · have hnone : t.have_root = false := by
          rw [Bool.eq_false_iff]
          exact fun ht => absurd (h.root.mp ht) (by omega)
        rw [← hz, hlast]
        exact hroot.mpr hnone
      · rw [hold 0 hpos]
        exact h.first hpos
  refine ⟨hsound, hsound.view_ext fun path m => ?_⟩
  rw [hcount]
  by_cases hp : path = r.path
  · rw [hp, update_self, Option.some.injEq]
    constructor
    · intro hm
      exact ⟨t.nmounts, Nat.lt_succ_self _, hlast.trans hm, by rw [← hm]; rfl⟩
    · intro hat
      obtain ⟨i, hi, hm, hpath⟩ := hat
      rcases Nat.lt_succ_iff_lt_or_eq.mp hi with hlt | rfl
      · rw [hold i hlt] at hm
        rw [← hm] at hpath
        exact absurd hpath (hnew i hlt)
      · exact hlast.symm.trans hm
  · rw [update_of_ne hp, h.view_iff]
    constructor
    · intro hat
      obtain ⟨i, hi, hm, hpath⟩ := hat
      exact ⟨i, by omega, (hold i hi).trans hm, hpath⟩
    · intro hat
      obtain ⟨i, hi, hm, hpath⟩ := hat
      rcases Nat.lt_succ_iff_lt_or_eq.mp hi with hlt | rfl
      · exact ⟨i, hlt, (hold i hlt).symm.trans hm, hpath⟩
      · rw [hlast] at hm
        rw [← hm] at hpath
        exact absurd hpath.symm hp

lemma setRoot_self : (t.setRoot slot root).mounts slot = { t.mounts slot with root := some root } :=
  update_self ..

lemma setRoot_ne {i : ℕ} (h : i ≠ slot) : (t.setRoot slot root).mounts i = t.mounts i :=
  update_of_ne h ..

lemma setRoot_path (t : Table) (slot i : ℕ) (root : Vnode) :
    ((t.setRoot slot root).mounts i).path = (t.mounts i).path := by
  by_cases hi : i = slot
  · rw [hi, setRoot_self]
  · rw [setRoot_ne hi]

lemma withdraw_self :
    (t.withdraw slot path).mounts slot = { t.mounts slot with active := false } :=
  update_self ..

lemma withdraw_ne {i : ℕ} (h : i ≠ slot) : (t.withdraw slot path).mounts i = t.mounts i :=
  update_of_ne h ..

/-- The root of a slot is seen at its own path only. -/
lemma Table.Sound.setRoot (h : t.Sound) (hslot : slot < t.nmounts)
    (hpath : (t.mounts slot).path = path) :
    (t.setRoot slot root).Sound ∧ (t.setRoot slot root).view =
      update t.view path ((t.view path).map fun m => { m with root := some root }) := by
  have hsound : (t.setRoot slot root).Sound := by
    refine ⟨h.bound, fun i hi => ?_, fun i hi j hj hp => ?_, h.root, fun hpos => ?_⟩
    · by_cases his : i = slot
      · rw [his, setRoot_self]
        exact h.active slot hslot
      · rw [setRoot_ne his]
        exact h.active i hi
    · rw [setRoot_path, setRoot_path] at hp
      exact h.paths i hi j hj hp
    · rw [setRoot_path]
      exact h.first hpos
  refine ⟨hsound, hsound.view_ext fun q m => ?_⟩
  have hview : t.view path = some (t.mounts slot) := by
    rw [← hpath]
    exact h.view_at hslot
  by_cases hq : q = path
  · rw [hq, update_self, hview, Option.map_some, Option.some.injEq]
    constructor
    · intro hm
      exact ⟨slot, hslot, setRoot_self.trans hm, by rw [← hm]; exact hpath⟩
    · intro hat
      obtain ⟨i, hi, hm, hp⟩ := hat
      have his : i = slot := by
        apply h.paths i hi slot hslot
        rw [hpath, ← hp, ← hm, setRoot_path]
      rw [his, setRoot_self] at hm
      exact hm
  · rw [update_of_ne hq, h.view_iff]
    have hne : ∀ i, (t.mounts i).path = q → i ≠ slot := fun i hi his =>
      hq (hi.symm.trans (his ▸ hpath))
    constructor
    · intro hat
      obtain ⟨i, hi, hm, hp⟩ := hat
      have his := hne i (by rw [hm]; exact hp)
      exact ⟨i, hi, (setRoot_ne his).trans hm, hp⟩
    · intro hat
      obtain ⟨i, hi, hm, hp⟩ := hat
      have his : i ≠ slot := by
        apply hne i
        rw [← setRoot_path t slot i root, hm, hp]
      rw [setRoot_ne his] at hm
      exact ⟨i, hi, hm, hp⟩

/-- The last slot is withdrawn. -/
lemma Table.Sound.withdraw (h : t.Sound) (hlast : slot + 1 = t.nmounts)
    (hpath : (t.mounts slot).path = path) :
    (t.withdraw slot path).Sound ∧
      (t.withdraw slot path).view = update t.view path none := by
  have hold : ∀ i < t.nmounts - 1, (t.withdraw slot path).mounts i = t.mounts i :=
    fun i hi => withdraw_ne (by omega)
  have hfirst : path = [SLASH] ↔ slot = 0 := by
    constructor
    · intro hp
      apply h.paths slot (by omega) 0 (by omega)
      rw [hpath, h.first (by omega), hp]
    · intro hz
      rw [← hpath, hz]
      exact h.first (by omega)
  have hsound : (t.withdraw slot path).Sound := by
    refine ⟨(Nat.sub_le _ _).trans h.bound, fun i hi => ?_, fun i hi j hj hp => ?_, ?_,
      fun hpos => ?_⟩
    · rw [hold i hi]
      exact h.active i (lt_of_lt_of_le hi (Nat.sub_le _ _))
    · rw [hold i hi, hold j hj] at hp
      exact h.paths i (lt_of_lt_of_le hi (Nat.sub_le _ _)) j (lt_of_lt_of_le hj (Nat.sub_le _ _)) hp
    · show (if path = [SLASH] then false else t.have_root) = true ↔ 0 < t.nmounts - 1
      by_cases hp : path = [SLASH]
      · have hz := hfirst.mp hp
        simp only [hp, if_true, Bool.false_eq_true, false_iff]
        omega
      · have hz : slot ≠ 0 := fun hz => hp (hfirst.mpr hz)
        rw [if_neg hp, h.root]
        omega
    · rw [hold 0 hpos]
      exact h.first (lt_of_lt_of_le hpos (Nat.sub_le _ _))
  refine ⟨hsound, hsound.view_ext fun q m => ?_⟩
  show _ ↔ ∃ i < t.nmounts - 1, (t.withdraw slot path).mounts i = m ∧ m.path = q
  by_cases hq : q = path
  · -- no slot below the last has this mountpoint
    rw [hq, update_self]
    refine iff_of_false nofun fun hat => ?_
    obtain ⟨i, hi, hm, hp⟩ := hat
    rw [hold i hi] at hm
    have his := h.paths i (lt_of_lt_of_le hi (Nat.sub_le _ _)) slot (by omega)
      (by rw [hm, hp, hpath])
    omega
  · rw [update_of_ne hq, h.view_iff]
    constructor
    · intro hat
      obtain ⟨i, hi, hm, hp⟩ := hat
      have his : i ≠ slot := fun his => hq (by rw [← hp, ← hm, his]; exact hpath)
      exact ⟨i, by omega, (hold i (by omega)).trans hm, hp⟩
    · intro hat
      obtain ⟨i, hi, hm, hp⟩ := hat
      rw [hold i hi] at hm
      exact ⟨i, lt_of_lt_of_le hi (Nat.sub_le _ _), hm, hp⟩

/-- A withdrawal of any other slot takes the last mount with it. -/
lemma Table.Sound.withdraw_other (h : t.Sound) (hslot : slot < t.nmounts)
    (hpath : (t.mounts slot).path = path) (hne : slot + 1 ≠ t.nmounts) :
    (t.withdraw slot path).view ≠ update t.view path none := by
  intro hview
  have hlast : t.nmounts - 1 < t.nmounts := by omega
  have hother : (t.mounts (t.nmounts - 1)).path ≠ path := fun hp =>
    absurd (h.paths _ hlast slot hslot (hp.trans hpath.symm)) (by omega)
  have hkept := congrFun hview (t.mounts (t.nmounts - 1)).path
  rw [update_of_ne hother, h.view_at hlast] at hkept
  obtain ⟨i, hfind, hm⟩ := Option.map_eq_some_iff.mp hkept
  -- what is found has a slot below the last, which held another mount before
  have hi : i < t.nmounts - 1 := List.mem_range.mp (List.mem_of_find?_eq_some hfind)
  have hact := List.find?_some hfind
  simp only [Bool.and_eq_true, decide_eq_true_eq] at hact
  have his : i ≠ slot := by
    intro his
    rw [his, withdraw_self] at hact
    exact absurd hact.1 Bool.false_ne_true
  have hsame : (t.withdraw slot path).mounts i = t.mounts i := withdraw_ne his
  have hlt : i < t.nmounts := by omega
  have heq := h.paths i hlt _ hlast (by rw [← hsame, hm])
  omega

end Changes

/-! ## The tasks -/

/-- The slot holds a mount that has its root. -/
def Rooted (t : Table) (slot : ℕ) : Prop := slot < t.nmounts ∧ (t.mounts slot).root ≠ none

/-- The slot that a task works on. -/
def Phase.slot : Phase → Option ℕ
  | .mounting slot _ | .mounted slot | .crossing slot _ _ => some slot
  | _ => none

/-- A task in its mount function owns a mount without a root; a mount that has answered 0, or
that a resolver goes into, has one. -/
def PhaseOk (t : Table) : Phase → Prop
  | .mounting slot path =>
    slot < t.nmounts ∧ (t.mounts slot).path = path ∧ (t.mounts slot).root = none
  | .mounted slot | .crossing slot _ _ => Rooted t slot
  | .fault => False
  | _ => True

variable {t : Table} {p : Phase}

lemma PhaseOk.congr {u : Table} (h : PhaseOk t p)
    (hsame : ∀ i, p.slot = some i → i < u.nmounts ∧ u.mounts i = t.mounts i) : PhaseOk u p := by
  cases p with
  | mounting slot path =>
    obtain ⟨hlt, heq⟩ := hsame slot rfl
    exact ⟨hlt, by rw [heq]; exact h.2⟩
  | mounted slot | crossing slot _ _ =>
    obtain ⟨hlt, heq⟩ := hsame slot rfl
    exact ⟨hlt, by rw [heq]; exact h.2⟩
  | fault => exact h
  | idle | walk _ _ _ | looking _ _ _ _ | returned _ => trivial

lemma PhaseOk.slot_lt {i : ℕ} (h : PhaseOk t p) (hp : p.slot = some i) :
    i < t.nmounts := by
  cases p with
  | mounting slot path | mounted slot | crossing slot _ _ =>
    have hi : slot = i := Option.some.inj hp
    rw [← hi]
    exact h.1
  | fault | idle | walk _ _ _ | looking _ _ _ _ | returned _ => cases hp

/-- What holds in every state of a lawful run. -/
structure Inv {ι : Type} (s : State ι) : Prop where
  sound : s.table.Sound
  phase : ∀ k, PhaseOk s.table (s.phase k)
  alone : ∀ {k j slot p q}, s.phase k = .mounting slot p → s.phase j = .mounting slot q → k = j
  rootless : ∀ i < s.table.nmounts, (s.table.mounts i).root = none →
    ∃ k, s.phase k = .mounting i (s.table.mounts i).path

variable {ι : Type} [DecidableEq ι] {s u : State ι} {a : Act ι} {k : ι}

@[simp] lemma move_table (p : Phase) (t : Table) : (s.move k p t).table = t := rfl

lemma move_self (p : Phase) (t : Table) : (s.move k p t).phase k = p := update_self ..

lemma move_other {j : ι} (h : j ≠ k) (p : Phase) (t : Table) :
    (s.move k p t).phase j = s.phase j :=
  update_of_ne h ..

variable {path : Str}

omit [DecidableEq ι] in
/-- A task in its mount function shares its slot with nobody. -/
lemma Inv.slot_ne (h : Inv s) {slot : ℕ} (hk : s.phase k = .mounting slot path)
    {j : ι} (hj : j ≠ k) : (s.phase j).slot ≠ some slot := by
  intro hslot
  have hok := h.phase k
  rw [hk] at hok
  have hokj := h.phase j
  cases hp : s.phase j with
  | mounting slot' path' =>
    rw [hp] at hslot
    have hs : slot' = slot := Option.some.inj hslot
    rw [hs] at hp
    exact hj (h.alone hp hk)
  | mounted slot' | crossing slot' _ _ =>
    -- they work on a mount that has its root
    rw [hp] at hslot hokj
    have hs : slot' = slot := Option.some.inj hslot
    rw [hs] at hokj
    exact hokj.2 hok.2.2
  | fault | idle | walk _ _ _ | looking _ _ _ _ | returned _ =>
    rw [hp] at hslot
    cases hslot

/-- A step of `k` that leaves the slots of the others alone. -/
lemma Inv.move (h : Inv s) (hsound : t.Sound) (hp : PhaseOk t p)
    (hothers : ∀ j ≠ k, ∀ i, (s.phase j).slot = some i →
      i < t.nmounts ∧ t.mounts i = s.table.mounts i)
    (halone : ∀ slot path, p = .mounting slot path → ∀ j ≠ k, (s.phase j).slot ≠ some slot)
    (hrootless : ∀ i < t.nmounts, (t.mounts i).root = none → p = .mounting i (t.mounts i).path ∨
      ∃ j ≠ k, s.phase j = .mounting i (t.mounts i).path) : Inv (s.move k p t) := by
  refine ⟨hsound, fun j => ?_, fun {j l slot q q'} hj hl => ?_, fun i hi hroot => ?_⟩
  · by_cases hjk : j = k
    · rw [hjk, move_self]
      exact hp
    · rw [move_other hjk]
      exact (h.phase j).congr (hothers j hjk)
  · by_cases hjk : j = k
    · rw [hjk, move_self] at hj
      by_cases hlk : l = k
      · rw [hjk, hlk]
      · rw [move_other hlk] at hl
        exact absurd (by rw [hl]; rfl) (halone slot q hj l hlk)
    · rw [move_other hjk] at hj
      by_cases hlk : l = k
      · rw [hlk, move_self] at hl
        exact absurd (by rw [hj]; rfl) (halone slot q' hl j hjk)
      · rw [move_other hlk] at hl
        exact h.alone hj hl
  · rcases hrootless i hi hroot with hself | hother
    · exact ⟨k, by rw [move_self]; exact hself⟩
    · obtain ⟨j, hjk, hj⟩ := hother
      exact ⟨j, by rw [move_other hjk]; exact hj⟩

/-- A step of `k` outside its mount function that leaves the table alone. -/
lemma Inv.quiet (h : Inv s) (hk : ∀ slot path, s.phase k ≠ .mounting slot path)
    (hp : PhaseOk s.table p) (hnew : ∀ slot path, p ≠ .mounting slot path) :
    Inv (s.move k p s.table) := by
  apply h.move h.sound hp
  · exact fun j hj i hi => ⟨(h.phase j).slot_lt hi, rfl⟩
  · exact fun slot path he => absurd he (hnew slot path)
  · intro i hi hroot
    obtain ⟨j, hj⟩ := h.rootless i hi hroot
    refine .inr ⟨j, fun hjk => ?_, hj⟩
    exact hk i _ (hjk ▸ hj)

omit [DecidableEq ι] in
lemma Inv.mounting_iff (h : Inv s) :
    Mounting s path ↔ ∃ i, s.table.findMountpoint path = some i ∧ (s.table.mounts i).root = none := by
  constructor
  · intro hmounting
    obtain ⟨k, slot, hk⟩ := hmounting
    have hok := h.phase k
    rw [hk] at hok
    exact ⟨slot, h.sound.find_iff.mpr ⟨hok.1, hok.2.1⟩, hok.2.2⟩
  · intro hat
    obtain ⟨i, hfind, hroot⟩ := hat
    obtain ⟨hi, hp⟩ := h.sound.find_iff.mp hfind
    obtain ⟨k, hk⟩ := h.rootless i hi hroot
    exact ⟨k, i, by rw [hk, hp]⟩

/-! ## One step -/

/-- Nobody has stopped after a step of `k` exactly when `k` has not. -/
lemma Inv.running_iff (h : Inv s) :
    (∀ j, (s.move k p t).phase j ≠ .fault) ↔ p ≠ .fault := by
  constructor
  · intro hall
    rw [← move_self (s := s) (k := k) p t]
    exact hall k
  · intro hp j
    by_cases hjk : j = k
    · rw [hjk, move_self]
      exact hp
    · rw [move_other hjk]
      intro hf
      have hok := h.phase j
      rw [hf] at hok
      exact hok

variable {cur : Vnode} {cur_path : Str} {comps : List Str}

omit [DecidableEq ι] in
/-- The walk of a resolver comes to a NULL root exactly at a mountpoint whose mount function
still runs. -/
lemma Inv.visit_fault_iff (h : Inv s) :
    s.table.visit cur cur_path comps = .fault ↔ ∃ comp rest, comps = comp :: rest ∧
      cur.dir = true ∧ Mounting s (pathJoin VFS_PATH_MAX cur_path comp) := by
  cases comps with
  | nil => exact iff_of_false nofun fun he => by obtain ⟨_, _, hc, _⟩ := he; cases hc
  | cons comp rest =>
    rw [Table.visit]
    constructor
    · intro hfault
      split at hfault
      · cases hfault
      rename_i hdir
      split at hfault
      · cases hfault
      rename_i slot hfind
      split at hfault
      · rename_i hroot
        exact ⟨comp, rest, rfl, by simpa using hdir, h.mounting_iff.mpr ⟨slot, hfind, hroot⟩⟩
      · cases hfault
    · intro hat
      obtain ⟨comp', rest', hc, hdir, hmounting⟩ := hat
      obtain ⟨rfl, rfl⟩ := List.cons.inj hc
      obtain ⟨i, hfind, hroot⟩ := h.mounting_iff.mp hmounting
      rw [if_neg (by simp [hdir]), hfind]
      exact if_pos hroot

omit [DecidableEq ι] in
/-- `vfs_resolve` starts from a NULL root exactly when it gets that far while the mount function
of the root runs. -/
lemma Inv.resolve_fault_iff (h : Inv s) :
    s.table.vfsResolve path = .fault ↔ path.head? = some SLASH ∧
      (∃ comps, normalizePath path = .ok comps) ∧ Mounting s [SLASH] := by
  have hfirst : Mounting s [SLASH] ↔
      s.table.have_root = true ∧ (s.table.mounts 0).root = none := by
    rw [h.mounting_iff, h.sound.root]
    constructor
    · intro hat
      obtain ⟨i, hfind, hroot⟩ := hat
      obtain ⟨hi, hp⟩ := h.sound.find_iff.mp hfind
      have hpos : 0 < s.table.nmounts := by omega
      have hz := h.sound.paths i hi 0 hpos (hp.trans (h.sound.first hpos).symm)
      exact ⟨hpos, hz ▸ hroot⟩
    · exact fun hat => ⟨0, h.sound.find_iff.mpr ⟨hat.1, h.sound.first hat.1⟩, hat.2⟩
  rw [hfirst]
  unfold Table.vfsResolve
  by_cases hhead : path.head? = some SLASH
  · rw [if_neg (not_not.mpr hhead)]
    cases hnorm : normalizePath path with
    | error e => simp
    | ok comps =>
      cases hroot : s.table.have_root with
      | false => simp
      | true => cases hvn : (s.table.mounts 0).root <;> simp [hhead]
  · rw [if_pos hhead]
    exact iff_of_false nofun fun hat => hhead hat.1

/-- A step changes the active mounts as it is to, and follows no NULL root, exactly when it
meets the condition. -/
lemma lawful_iff (h : Inv s) (hs : Step s a u) : Lawful s a u ↔ Clean s a := by
  unfold Lawful
  cases hs with
  | refuse hk hr =>
    rw [h.running_iff]
    refine iff_of_true ⟨?_, nofun⟩ trivial
    simp only [State.expected, hr, move_table]
  | claim hk hr =>
    rw [h.running_iff]
    refine iff_of_true ⟨?_, nofun⟩ trivial
    simp only [State.expected, hr, move_table]
    exact (h.sound.claim hr).2
  | @filled k slot path root hk =>
    have hok := h.phase k
    rw [hk] at hok
    rw [h.running_iff]
    refine iff_of_true ⟨?_, nofun⟩ trivial
    simp only [State.expected, hk, move_table]
    exact (h.sound.setRoot hok.1 hok.2.1).2
  | @failed k slot path e hk =>
    have hok := h.phase k
    rw [hk] at hok
    rw [h.running_iff]
    simp only [State.expected, Clean, hk, move_table]
    constructor
    · intro hlawful slot' path' heq
      obtain ⟨rfl, rfl⟩ := Phase.mounting.inj heq
      by_contra hne
      exact h.sound.withdraw_other hok.1 hok.2.1 hne hlawful.1
    · exact fun hclean => ⟨(h.sound.withdraw (hclean slot path rfl) hok.2.1).2, nofun⟩
  | @finish k slot hk =>
    have hok := h.phase k
    rw [hk] at hok
    rw [h.running_iff]
    refine iff_of_true ⟨rfl, ?_⟩ trivial
    unfold Table.finish
    rw [if_neg hok.2]
    exact nofun
  | @resolve k path hk =>
    rw [h.running_iff, Ne, h.resolve_fault_iff]
    simp only [State.expected, Clean, move_table, true_and, not_and]
  | @visit k cur cur_path comps hk =>
    rw [h.running_iff, Ne, h.visit_fault_iff]
    simp only [State.expected, Clean, hk, move_table, true_and]
    constructor
    · intro hno cur' cur_path' comp rest heq hdir hmounting
      obtain ⟨rfl, rfl, rfl⟩ := Phase.walk.inj heq
      exact hno ⟨comp, rest, rfl, hdir, hmounting⟩
    · intro hclean hat
      obtain ⟨comp, rest, rfl, hdir, hmounting⟩ := hat
      exact hclean cur cur_path comp rest rfl hdir hmounting
  | @enter k slot cur_path comps hk =>
    have hok := h.phase k
    rw [hk] at hok
    rw [h.running_iff]
    refine iff_of_true ⟨rfl, ?_⟩ trivial
    unfold Table.enter
    cases hroot : (s.table.mounts slot).root with
    | none => exact absurd hroot hok.2
    | some next => exact nofun
  | lookup r hk =>
    rw [h.running_iff]
    refine iff_of_true ⟨rfl, ?_⟩ trivial
    cases r <;> exact nofun

lemma PhaseOk.visit (h : t.Sound)
    (hrun : t.visit cur cur_path comps ≠ .fault) : PhaseOk t (t.visit cur cur_path comps) := by
  cases comps with
  | nil => trivial
  | cons comp rest =>
    rw [Table.visit] at hrun ⊢
    by_cases hdir : cur.dir = true
    · rw [if_neg (by simp [hdir])] at hrun ⊢
      cases hfind : t.findMountpoint (pathJoin VFS_PATH_MAX cur_path comp) with
      | none => trivial
      | some slot =>
        simp only [hfind] at hrun ⊢
        by_cases hroot : (t.mounts slot).root = none
        · exact absurd (if_pos hroot) hrun
        · rw [if_neg hroot]
          exact ⟨(h.find_iff.mp hfind).1, hroot⟩
    · rw [if_pos (by simp [hdir])]
      trivial

lemma visit_ne_mounting {slot : ℕ} : t.visit cur cur_path comps ≠ .mounting slot path := by
  cases comps with
  | nil => exact nofun
  | cons comp rest =>
    rw [Table.visit]
    repeat' split
    all_goals exact nofun

lemma vfsResolve_settled : t.vfsResolve path = .fault ∨
    (PhaseOk t (t.vfsResolve path) ∧ ∀ slot q, t.vfsResolve path ≠ .mounting slot q) := by
  unfold Table.vfsResolve
  repeat' split
  all_goals first
    | exact .inl rfl
    | exact .inr ⟨trivial, nofun⟩

/-- A lawful step keeps what holds in every state. -/
lemma Inv.step (h : Inv s) (hs : Step s a u) (hl : Lawful s a u) : Inv u := by
  have hclean := (lawful_iff h hs).mp hl
  have hrun := hl.2
  cases hs with
  | refuse hk hr => exact h.quiet (fun slot path he => by rw [he] at hk; exact hk) trivial nofun
  | @claim k r t hk hr =>
    obtain ⟨-, -, -, -, ht⟩ := vfsMount_ok hr
    have hsound := (h.sound.claim hr).1
    have hold : ∀ i < s.table.nmounts, t.mounts i = s.table.mounts i := fun i hi => by
      rw [ht]
      exact update_of_ne (by omega) _ _
    have hnew : t.mounts s.table.nmounts = r.entry := by
      rw [ht]
      exact update_self ..
    have hcount : t.nmounts = s.table.nmounts + 1 := by rw [ht]
    apply h.move hsound
    · exact ⟨by omega, by rw [hnew]; rfl, by rw [hnew]; rfl⟩
    · intro j hj i hi
      have hlt := (h.phase j).slot_lt hi
      exact ⟨by omega, hold i hlt⟩
    · intro slot path heq j hj hi
      have hlt := (h.phase j).slot_lt hi
      have hslot := (Phase.mounting.inj heq).1
      omega
    · intro i hi hroot
      rcases Nat.lt_succ_iff_lt_or_eq.mp (hcount ▸ hi) with hlt | rfl
      · rw [hold i hlt] at hroot ⊢
        obtain ⟨j, hj⟩ := h.rootless i hlt hroot
        refine .inr ⟨j, fun hjk => ?_, hj⟩
        rw [hjk] at hj
        rw [hj] at hk
        exact hk
      · rw [hnew]
        exact .inl rfl
  | @filled k slot path root hk =>
    have hok := h.phase k
    rw [hk] at hok
    have hold : ∀ i ≠ slot, (s.table.setRoot slot root).mounts i = s.table.mounts i :=
      fun i hi => setRoot_ne hi
    have hnew : ((s.table.setRoot slot root).mounts slot).root = some root := by rw [setRoot_self]
    apply h.move (h.sound.setRoot hok.1 hok.2.1).1
    · exact ⟨hok.1, by rw [hnew]; exact nofun⟩
    · intro j hj i hi
      exact ⟨(h.phase j).slot_lt hi, hold i fun his => h.slot_ne hk hj (his ▸ hi)⟩
    · exact nofun
    · intro i hi hroot
      have his : i ≠ slot := by
        intro his
        rw [his, hnew] at hroot
        cases hroot
      rw [hold i his] at hroot ⊢
      obtain ⟨j, hj⟩ := h.rootless i hi hroot
      refine .inr ⟨j, fun hjk => his ?_, hj⟩
      rw [hjk, hk] at hj
      exact (Phase.mounting.inj hj).1.symm
  | @failed k slot path e hk =>
    have hok := h.phase k
    rw [hk] at hok
    have hlast := hclean slot path hk
    have hold : ∀ i ≠ slot, (s.table.withdraw slot path).mounts i = s.table.mounts i :=
      fun i hi => withdraw_ne hi
    apply h.move (h.sound.withdraw hlast hok.2.1).1 (by trivial)
    · intro j hj i hi
      have hlt := (h.phase j).slot_lt hi
      have his : i ≠ slot := fun his => h.slot_ne hk hj (his ▸ hi)
      exact ⟨by show i < s.table.nmounts - 1; omega, hold i his⟩
    · exact nofun
    · intro i hi hroot
      change i < s.table.nmounts - 1 at hi
      have his : i ≠ slot := by omega
      rw [hold i his] at hroot ⊢
      obtain ⟨j, hj⟩ := h.rootless i (by omega) hroot
      refine .inr ⟨j, fun hjk => his ?_, hj⟩
      rw [hjk, hk] at hj
      exact (Phase.mounting.inj hj).1.symm
  | @finish k slot hk =>
    have hok := h.phase k
    rw [hk] at hok
    have hfin : s.table.finish slot = .returned (.ok none) := if_neg hok.2
    rw [hfin]
    exact h.quiet (by rw [hk]; exact nofun) trivial nofun
  | @resolve k path hk =>
    have hne := h.running_iff.mp hrun
    obtain ⟨hp, hm⟩ := vfsResolve_settled.resolve_left hne
    exact h.quiet (fun slot path he => by rw [he] at hk; exact hk) hp hm
  | @visit k cur cur_path comps hk =>
    have hne := h.running_iff.mp hrun
    exact h.quiet (by rw [hk]; exact nofun) (PhaseOk.visit h.sound hne) fun _ _ => visit_ne_mounting
  | @enter k slot cur_path comps hk =>
    have hok := h.phase k
    rw [hk] at hok
    apply h.quiet (by rw [hk]; exact nofun)
    all_goals
      unfold Table.enter
      cases hroot : (s.table.mounts slot).root with
      | none => exact absurd hroot hok.2
      | some next => first | trivial | exact nofun
  | lookup r hk =>
    apply h.quiet (by rw [hk]; exact nofun)
    · cases r <;> trivial
    · cases r <;> exact nofun

/-! ## Runs -/

omit [DecidableEq ι] in
lemma inv_boot (fstypes : List Str) : Inv (boot fstypes : State ι) := by
  refine ⟨⟨Nat.zero_le _, nofun, nofun, ?_, nofun⟩, fun _ => trivial, nofun, nofun⟩
  exact iff_of_false Bool.false_ne_true (Nat.lt_irrefl 0)

/-- The runs whose steps all meet the condition are those in which every step changes the active
mounts as it is to and nobody follows a NULL root. In these the mounts that a resolver can see
without a root are just those whose mount function still runs. -/
theorem mount_table (fstypes : List Str) (as : List (Act ι)) (t : State ι) :
    (Run (Guarded Clean Step) (boot fstypes) as t ↔
        Run (fun s a u => Step s a u ∧ Lawful s a u) (boot fstypes) as t) ∧
      (Run (Guarded Clean Step) (boot fstypes) as t → ∀ m, t.table.Sees m →
        (m.root = none ↔ Mounting t m.path)) := by
  refine ⟨Run.guarded_iff (fun _ _ _ h hs hl => h.step hs hl) (fun _ _ _ h hs => lawful_iff h hs)
    (inv_boot fstypes), fun hrun m hsees => ?_⟩
  have hinv : Inv t := hrun.invariant (inv_boot fstypes)
    fun u a v h hs => h.step hs.2 ((lawful_iff h hs.2).mpr hs.1)
  obtain ⟨i, hi, rfl⟩ := hinv.sound.sees_iff.mp hsees
  constructor
  · intro hroot
    obtain ⟨k, hk⟩ := hinv.rootless i hi hroot
    exact ⟨k, i, hk⟩
  · intro hmounting
    obtain ⟨j, hfind, hroot⟩ := hinv.mounting_iff.mp hmounting
    have hat := hinv.sound.find_iff.mp hfind
    rw [← hinv.sound.paths j hat.1 i hi hat.2]
    exact hroot

/-- The root is mounted, and the mount of `/a` is in its mount function. -/
def underWay : List (Act Bool) :=
  [.mount false ⟨[114], [SLASH], none, 0, 0⟩, .filled false ⟨0, true⟩, .finish false,
    .mount false ⟨[114], [SLASH, 97], none, 0, 0⟩]

/-- `/b` is mounted by another task meanwhile and its call has answered 0; then the mount of `/a`
fails and takes that of `/b` with it. A resolver that comes to `/a` meanwhile follows a NULL
root. -/
theorem failed_mount_removes_other :
    (∃ t : State Bool, Run Step (boot [[114]])
        (underWay ++ [.mount true ⟨[114], [SLASH, 98], none, 0, 0⟩, .filled true ⟨1, true⟩,
          .finish true, .failed false .ENOMEM]) t ∧
      t.phase true = .returned (.ok none) ∧ t.table.view [SLASH, 98] = none) ∧
    ∃ t : State Bool, Run Step (boot [[114]])
        (underWay ++ [.resolve true [SLASH, 97], .visit true]) t ∧ t.phase true = .fault := by
  have h0 : Run Step (boot [[114]] : State Bool) [] _ := Run.nil
  have h1 := h0.snoc (Step.claim (k := false) (r := ⟨[114], [SLASH], none, 0, 0⟩) trivial rfl)
  have h2 := h1.snoc (Step.filled (k := false) ⟨0, true⟩ rfl)
  have h3 := h2.snoc (Step.finish (k := false) rfl)
  have h4 := h3.snoc (Step.claim (k := false) (r := ⟨[114], [SLASH, 97], none, 0, 0⟩) trivial rfl)
  constructor
  · have h5 := h4.snoc
      (Step.claim (k := true) (r := ⟨[114], [SLASH, 98], none, 0, 0⟩) trivial rfl)
    have h6 := h5.snoc (Step.filled (k := true) ⟨1, true⟩ rfl)
    have h7 := h6.snoc (Step.finish (k := true) rfl)
    exact ⟨_, h7.snoc (Step.failed (k := false) .ENOMEM rfl), rfl, rfl⟩
  · have h5 := h4.snoc (Step.resolve (k := true) [SLASH, 97] trivial)
    exact ⟨_, h5.snoc (Step.visit (rfl : _ = Phase.walk ⟨0, true⟩ [] [[97]])), rfl⟩

end Mounts
end Vfs
end MobilePhoneOs
