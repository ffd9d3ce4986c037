import MobilePhoneOs.Kernel.Abmgr
import Mathlib.Data.Fintype.Basic

/-!
# The A/B table in memory and on its device

Between two operations the flags of the table, the active index and the copy on the device
agree, as long as the active slot is not sealed anew, no table with another active slot is put
back, and no healthy evaluation vouches for a table that has not reached the device.
-/

namespace MobilePhoneOs

open Function (update update_self update_of_ne)
namespace Abmgr

open Bool (noConfusion)

variable {s t : Ab} {w : Write} {r : Res}

/-! ## The law -/

/-- The active index is the one slot with its flag set, and that slot is valid. -/
structure Consistent (s : Ab) : Prop where
  active : ∀ i, s.abmgr_active = some i ↔
    (s.tbl.slots i).active ∧ ∀ j ≠ i, ¬(s.tbl.slots j).active
  valid : ∀ i, s.abmgr_active = some i → (s.tbl.slots i).valid

/-- A re-attach yields the same active index and the same slots. -/
def Durable (s : Ab) : Prop :=
  ∀ w, (abmgr_attach true w s).2.abmgr_active = s.abmgr_active ∧
    (abmgr_attach true w s).2.tbl.slots = s.tbl.slots

/-- What a step leaves, and what its success stands for. -/
def Agrees (_ : World) (a : Act) (t : World) : Prop :=
  Consistent t.ab ∧ ∀ op v, a = .op op (.ok v) → Durable t.ab

/-- Everything but a loss of power. -/
def Powered (s : World) (a : Act) (t : World) : Prop :=
  Step s a t ∧ a ≠ .reboot ∧ ∀ op, a ≠ .op op .off

/-- The condition: the active slot is not sealed again, a table that is put back has its flag on
the active slot, and an evaluation that finds nothing to do finds the slots on the device. -/
def AgreesClean (s : World) : Act → Prop
  | .op (.slot_seal idx _ nsect _ readable _) _ =>
    s.ab.loaded → nsect ≠ 0 → readable → ∀ i, s.ab.stats.active = some i → i.val ≠ idx
  | .op (.put t _) _ =>
    s.ab.loaded → table_valid t → ∀ i, (t.slots i).active ↔ s.ab.stats.active = some i
  | .op (.evaluate _ _) _ =>
    ∀ i, s.ab.abmgr_active = some i → ¬(s.ab.tbl.slots i).exhausted →
      s.ab.disk.slots = s.ab.tbl.slots
  | _ => True

/-! ## Tables and writes -/

/-- At most one slot is active, and it is valid. -/
def Proper (t : AbTable) : Prop :=
  ∀ i, (t.slots i).active → (t.slots i).valid ∧ ∀ j ≠ i, ¬(t.slots j).active

def Header (t : AbTable) : Prop := t.magic = AB_MAGIC ∧ t.version = AB_TABLE_VERSION

@[simp] lemma sealed_slots (t : AbTable) : t.sealed.slots = t.slots := rfl

/-- A table whose checksum has been repaired is valid. -/
lemma sealed_valid {t : AbTable} (h : Header t) : table_valid t.sealed :=
  decide_eq_true ⟨h.1, h.2, rfl⟩

lemma header_of_valid {t : AbTable} (h : table_valid t) : Header t := by
  have hall := of_decide_eq_true h
  exact ⟨hall.1, hall.2.1⟩

lemma Proper.sealed {t : AbTable} (h : Proper t) : Proper t.sealed := h

lemma fin_two (i : Fin 2) : i = 0 ∨ i = 1 := by
  revert i
  decide

/-- The slot that is read back as the active one. -/
lemma activeSlot_iff {t : AbTable} (h : Proper t) (i : Fin 2) :
    t.activeSlot = some i ↔ (t.slots i).active := by
  unfold AbTable.activeSlot
  have hone := fun h0 => (h 0 h0).2 1 (by decide)
  rcases fin_two i with rfl | rfl
  · by_cases ha : (t.slots 0).active = true
    · simp [ha]
    · rw [if_neg ha]
      by_cases hb : (t.slots 1).active = true <;> simp [ha, hb]
  · by_cases ha : (t.slots 0).active = true
    · simp [ha, hone ha]
    · rw [if_neg ha]
      by_cases hb : (t.slots 1).active = true <;> simp [hb]

/-- What a write of the table does. -/
lemma table_write_spec (h : table_write w s = (r, t)) :
    t = { s with
        tbl := s.tbl.sealed
        disk := if w.landed then s.tbl.sealed else s.disk
        diskMoved := if w.landed then s.moved else s.diskMoved } ∧
      ((∃ v, r = .ok v) → w.landed = true) ∧ (r = .off ↔ ∃ l, w = .cut l) := by
  cases w with
  | ok =>
    cases h
    exact ⟨rfl, fun _ => rfl, by simp⟩
  | fail l =>
    cases h
    cases l <;> exact ⟨rfl, by simp, by simp⟩
  | cut l =>
    cases h
    cases l <;> exact ⟨rfl, by simp, by simp⟩

/-! ## The invariant -/

/-- The variables of the module fit together, and the device holds nothing but proper tables. -/
structure Inv (s : World) : Prop where
  flags : s.ab.loaded → ∀ i, s.ab.stats.active = some i ↔ (s.ab.tbl.slots i).active
  idle : ¬s.ab.loaded → ∀ i, ¬(s.ab.tbl.slots i).active
  valid : ∀ i, (s.ab.tbl.slots i).active → (s.ab.tbl.slots i).valid
  header : s.ab.loaded → Header s.ab.tbl
  mirror : s.ab.loaded → table_valid s.ab.disk
  disk : table_valid s.ab.disk → Proper s.ab.disk
  snaps : ∀ t ∈ s.snaps, Proper t

lemma Inv.proper {s : World} (h : Inv s) : Proper s.ab.tbl := by
  intro i hi
  refine ⟨h.valid i hi, fun j hj hact => ?_⟩
  by_cases hl : s.ab.loaded = true
  · have hsi := (h.flags hl i).mpr hi
    have hsj := (h.flags hl j).mpr hact
    exact hj (Option.some.inj (hsj.symm.trans hsi))
  · exact h.idle hl i hi

lemma Inv.consistent {s : World} (h : Inv s) : Consistent s.ab := by
  constructor
  · intro i
    unfold Ab.abmgr_active
    by_cases hl : s.ab.loaded = true
    · simp only [hl, if_true]
      rw [h.flags hl i]
      exact ⟨fun hi => ⟨hi, (h.proper i hi).2⟩, fun hi => hi.1⟩
    · simp [hl, h.idle hl]
  · intro i
    unfold Ab.abmgr_active
    by_cases hl : s.ab.loaded = true
    · simp only [hl, if_true]
      exact fun hi => h.valid i ((h.flags hl i).mp hi)
    · simp [hl]

variable {snaps : List AbTable}

variable {m : Ab}

/-- The variables of the module change, the device does not. -/
lemma Inv.memory (h : Inv ⟨s, snaps⟩) (hl : s.loaded = true) (hdisk : m.disk = s.disk)
    (hload : m.loaded = true) (hflags : ∀ i, m.stats.active = some i ↔ (m.tbl.slots i).active)
    (hvalid : ∀ i, (m.tbl.slots i).active → (m.tbl.slots i).valid) (hhead : Header m.tbl) :
    Inv ⟨m, snaps⟩ where
  flags := fun _ => hflags
  idle := fun hn => absurd hload hn
  valid := hvalid
  header := fun _ => hhead
  mirror := fun _ => by
    rw [hdisk]
    exact h.mirror hl
  disk := by
    rw [hdisk]
    exact h.disk
  snaps := h.snaps

/-- The table is not loaded. -/
lemma inv_unloaded (hl : m.loaded = false) (hidle : ∀ i, ¬(m.tbl.slots i).active)
    (hdisk : table_valid m.disk → Proper m.disk) (hsnaps : ∀ t ∈ snaps, Proper t) :
    Inv ⟨m, snaps⟩ where
  flags := fun h => by rw [hl] at h; cases h
  idle := fun _ => hidle
  valid := fun i hi => absurd hi (hidle i)
  header := fun h => by rw [hl] at h; cases h
  mirror := fun h => by rw [hl] at h; cases h
  disk := hdisk
  snaps := hsnaps

/-- One slot changes, and keeps its flag. -/
lemma Inv.setSlot (h : Inv ⟨s, snaps⟩) (hl : s.loaded = true) (i : Fin 2) (slot : AbSlot)
    (hact : s.stats.active = some i ↔ slot.active) (hv : slot.active → slot.valid) :
    Inv ⟨s.setSlot i slot, snaps⟩ := by
  refine h.memory hl rfl hl (fun j => ?_) (fun j => ?_) (h.header hl)
  · show s.stats.active = some j ↔ (update s.tbl.slots i slot j).active
    by_cases hj : j = i
    · rw [hj, update_self]
      exact hact
    · rw [update_of_ne hj]
      exact h.flags hl j
  · show (update s.tbl.slots i slot j).active → (update s.tbl.slots i slot j).valid
    by_cases hj : j = i
    · rw [hj, update_self]
      exact hv
    · rw [update_of_ne hj]
      exact h.valid j

/-- The device gives the state back when it holds its slots. -/
lemma durable_iff (h : Inv ⟨s, snaps⟩) (hl : s.loaded = true) :
    Durable s ↔ s.disk.slots = s.tbl.slots := by
  have hvalid := h.mirror hl
  have hattach : ∀ w, abmgr_attach true w s = (.ok 0, { s with
      tbl := s.disk, loaded := true, moved := s.diskMoved
      stats := { s.stats with active := s.disk.activeSlot, rollbacks := s.disk.rollbacks } }) :=
    fun w => if_pos ⟨rfl, hvalid⟩
  constructor
  · intro hd
    have := (hd .ok).2
    rwa [hattach] at this
  · intro hslots w
    rw [hattach]
    refine ⟨?_, hslots⟩
    show s.disk.activeSlot = if s.loaded then s.stats.active else none
    rw [if_pos hl]
    refine Option.ext fun i => ?_
    rw [activeSlot_iff (h.disk hvalid), hslots]
    exact (h.flags hl i).symm

/-- A write keeps the invariant; one that succeeds leaves the slots on the device. -/
lemma Inv.write (h : Inv ⟨s, snaps⟩) (hl : s.loaded = true)
    (hw : table_write_checked w s = (r, t)) :
    Inv ⟨t, snaps⟩ ∧ t.loaded = true ∧ ∀ v, r = .ok v → Durable t := by
  rw [table_write_checked, if_pos hl] at hw
  obtain ⟨rfl, hok, -⟩ := table_write_spec hw
  have hsealed : table_valid s.tbl.sealed := sealed_valid (h.header hl)
  have hinv : Inv ⟨{ s with
      tbl := s.tbl.sealed
      disk := if w.landed then s.tbl.sealed else s.disk
      diskMoved := if w.landed then s.moved else s.diskMoved }, snaps⟩ := by
    refine ⟨h.flags, h.idle, h.valid, h.header, fun _ => ?_, ?_, h.snaps⟩
    · split
      · exact hsealed
      · exact h.mirror hl
    · split
      · exact fun _ => h.proper.sealed
      · exact h.disk
  refine ⟨hinv, hl, fun v hv => (durable_iff hinv hl).mpr ?_⟩
  rw [if_pos (hok ⟨v, hv⟩), sealed_slots]

/-! ## The operations -/

lemma Inv.attach (h : Inv ⟨s, snaps⟩) {readable : Bool}
    (hrun : abmgr_attach readable w s = (r, t)) :
    Inv ⟨t, snaps⟩ ∧ ∀ v, r = .ok v → Durable t := by
  unfold abmgr_attach at hrun
  by_cases hv : readable = true ∧ table_valid s.disk = true
  · have hprop := h.disk hv.2
    simp only [hv, and_self, if_true] at hrun
    cases hrun
    have hinv : Inv ⟨{ s with
        tbl := s.disk, loaded := true, moved := s.diskMoved
        stats := { s.stats with active := s.disk.activeSlot, rollbacks := s.disk.rollbacks } },
        snaps⟩ :=
      ⟨fun _ => activeSlot_iff hprop, fun hn => absurd rfl hn, fun i hi => (hprop i hi).1,
        fun _ => header_of_valid hv.2, fun _ => hv.2, fun _ => hprop, h.snaps⟩
    exact ⟨hinv, fun _ _ => (durable_iff hinv rfl).mpr rfl⟩
  · simp only [if_neg hv] at hrun
    -- the empty table, and the device with or without it
    have hidle : ∀ i, ¬(formatted.sealed.slots i).active := fun i => by
      simp [formatted, zeroTable, emptySlot]
    have hprop : Proper formatted.sealed := fun i hi => absurd hi (hidle i)
    have hvalid : table_valid formatted.sealed := sealed_valid ⟨rfl, rfl⟩
    rcases hw : table_write w { s with loaded := false, tbl := formatted } with ⟨r', t'⟩
    rw [hw] at hrun
    obtain ⟨rfl, hok, -⟩ := table_write_spec hw
    have hdisk : table_valid (if w.landed then formatted.sealed else s.disk) →
        Proper (if w.landed then formatted.sealed else s.disk) := by
      split
      · exact fun _ => hprop
      · exact h.disk
    cases r' with
    | ok v =>
      cases hrun
      have hland := hok ⟨v, rfl⟩
      have hinv : Inv ⟨{ s with
          loaded := true, tbl := formatted.sealed
          disk := if w.landed then formatted.sealed else s.disk
          diskMoved := if w.landed then s.moved else s.diskMoved
          stats := { s.stats with active := none, rollbacks := 0 } }, snaps⟩ := by
        refine ⟨fun _ i => ?_, fun hn => absurd rfl hn, fun i hi => absurd hi (hidle i),
          fun _ => ⟨rfl, rfl⟩, fun _ => ?_, hdisk, h.snaps⟩
        · exact iff_of_false (by simp) (hidle i)
        · rw [if_pos hland]
          exact hvalid
      refine ⟨hinv, fun _ _ => (durable_iff hinv rfl).mpr ?_⟩
      rw [if_pos hland]
    | err e =>
      cases hrun
      exact ⟨inv_unloaded rfl hidle hdisk h.snaps, fun _ hv => Res.noConfusion hv⟩
    | off =>
      cases hrun
      exact ⟨inv_unloaded rfl hidle hdisk h.snaps, fun _ hv => Res.noConfusion hv⟩

/-- What an operation under the condition leaves. -/
def Kept (snaps : List AbTable) (r : Res) (t : Ab) : Prop :=
  Inv ⟨t, snaps⟩ ∧ ∀ v, r = .ok v → Durable t

/-- An operation that is refused changes nothing. -/
lemma Inv.refused (h : Inv ⟨s, snaps⟩) (e : Errno) : Kept snaps (.err e) s :=
  ⟨h, fun _ hv => Res.noConfusion hv⟩

lemma Inv.seal (h : Inv ⟨s, snaps⟩) {idx lba nsect seq : ℕ} {readable : Bool}
    (hclean : s.loaded → nsect ≠ 0 → readable → ∀ i, s.stats.active = some i → i.val ≠ idx)
    (hrun : abmgr_slot_seal idx lba nsect seq readable w s = (r, t)) : Kept snaps r t := by
  unfold abmgr_slot_seal at hrun
  split at hrun
  · rename_i hargs
    obtain ⟨hl, hidx, hn⟩ := hargs
    split at hrun
    · rename_i hread
      have hne : s.stats.active ≠ some ⟨idx, hidx⟩ := fun ha => hclean hl hn hread _ ha rfl
      have hm := h.setSlot hl ⟨idx, hidx⟩
        ⟨payload_crc s.payload lba nsect, seq, lba, nsect, 0, false, false, true⟩
        (iff_of_false hne Bool.false_ne_true) fun hact => absurd hact Bool.false_ne_true
      have hw := hm.write hl hrun
      exact ⟨hw.1, hw.2.2⟩
    · cases hrun
      exact h.refused _
  · cases hrun
    exact h.refused _

variable {i : Fin 2}

/-- The loaded module behind an active index. -/
lemma active_some (h : s.abmgr_active = some i) :
    s.loaded = true ∧ s.stats.active = some i := by
  unfold Ab.abmgr_active at h
  split at h
  · rename_i hl
    exact ⟨hl, h⟩
  · cases h

lemma Inv.boot_begin (h : Inv ⟨s, snaps⟩) (hrun : abmgr_boot_begin w s = (r, t)) :
    Kept snaps r t := by
  unfold abmgr_boot_begin at hrun
  cases ha : s.abmgr_active with
  | none =>
    rw [ha] at hrun
    cases hrun
    exact h.refused _
  | some i =>
    rw [ha] at hrun
    obtain ⟨hl, hact⟩ := active_some ha
    have hslot := (h.flags hl i).mp hact
    have hm := h.setSlot hl i { s.tbl.slots i with
        boot_attempts := if (s.tbl.slots i).boot_attempts < 255
          then (s.tbl.slots i).boot_attempts + 1 else (s.tbl.slots i).boot_attempts }
      (iff_of_true hact hslot) (h.valid i)
    have hw := hm.write hl hrun
    exact ⟨hw.1, hw.2.2⟩

lemma Inv.confirm (h : Inv ⟨s, snaps⟩) (hrun : abmgr_confirm w s = (r, t)) : Kept snaps r t := by
  unfold abmgr_confirm at hrun
  cases ha : s.abmgr_active with
  | none =>
    rw [ha] at hrun
    cases hrun
    exact h.refused _
  | some i =>
    rw [ha] at hrun
    obtain ⟨hl, hact⟩ := active_some ha
    have hslot := (h.flags hl i).mp hact
    have hm := h.setSlot hl i { s.tbl.slots i with
        confirmed := true, boot_attempts := 0, seq := ((s.tbl.slots i).seq + 1) % 2 ^ 32 }
      (iff_of_true hact hslot) (h.valid i)
    have hm' := hm.memory hl (m := { s.setSlot i { s.tbl.slots i with
        confirmed := true, boot_attempts := 0, seq := ((s.tbl.slots i).seq + 1) % 2 ^ 32 } with
      stats := { s.stats with confirms := (s.stats.confirms + 1) % 2 ^ 32 } })
      rfl hl (hm.flags hl) hm.valid (hm.header hl)
    have hw := hm'.write hl hrun
    exact ⟨hw.1, hw.2.2⟩

/-- A valid slot is brought up when no other is active. -/
lemma Inv.bringUp (h : Inv ⟨s, snaps⟩) (hl : s.loaded = true) {other : Fin 2}
    (hdisk : m.disk = s.disk) (hload : m.loaded = true) (hhead : Header m.tbl)
    (hothers : ∀ j ≠ other, ¬(m.tbl.slots j).active) (hvalid : (m.tbl.slots other).valid)
    (hrun : bringUp other w m = (r, t)) : Kept snaps r t := by
  set u : Ab := { m.setSlot other { m.tbl.slots other with active := true, boot_attempts := 0 } with
    stats := { m.stats with active := some other, switches := (m.stats.switches + 1) % 2 ^ 32 } }
    with hu
  have hslots : ∀ j, u.tbl.slots j = if j = other then
      { m.tbl.slots other with active := true, boot_attempts := 0 } else m.tbl.slots j := by
    intro j
    show update m.tbl.slots other _ j = _
    by_cases hj : j = other
    · rw [hj, update_self, if_pos rfl]
    · rw [update_of_ne hj, if_neg hj]
  have hm : Inv ⟨u, snaps⟩ := by
    refine h.memory hl hdisk hload (fun j => ?_) (fun j => ?_) hhead
    · rw [hslots]
      by_cases hj : j = other
      · rw [if_pos hj, hj]
        exact iff_of_true rfl rfl
      · rw [if_neg hj]
        exact iff_of_false (fun ha => hj (Option.some.inj ha).symm) (hothers j hj)
    · rw [hslots]
      by_cases hj : j = other
      · rw [if_pos hj]
        exact fun _ => hvalid
      · rw [if_neg hj]
        exact fun ha => absurd ha (hothers j hj)
  have hw := hm.write hload hrun
  exact ⟨hw.1, hw.2.2⟩

lemma fin_other {j : Fin 2} (h : j ≠ 1 - i) : j = i := by
  revert i j
  decide

lemma other_ne (i : Fin 2) : 1 - i ≠ i := by
  revert i
  decide

lemma Inv.switch (h : Inv ⟨s, snaps⟩) (hrun : abmgr_switch w s = (r, t)) : Kept snaps r t := by
  unfold abmgr_switch at hrun
  by_cases hl : s.loaded = true
  · rw [if_pos hl] at hrun
    cases ha : s.stats.active with
    | none =>
      rw [ha] at hrun
      have hnone : ∀ j, ¬(s.tbl.slots j).active := fun j hj => by
        have := (h.flags hl j).mpr hj
        simp only [ha] at this
        cases this
      simp only at hrun
      split at hrun
      · rename_i hv
        exact h.bringUp hl rfl hl (h.header hl) (fun j _ => hnone j) hv hrun
      · split at hrun
        · rename_i hv
          exact h.bringUp hl rfl hl (h.header hl) (fun j _ => hnone j) hv hrun
        · cases hrun
          exact h.refused _
    | some i =>
      rw [ha] at hrun
      simp only at hrun
      split at hrun
      · rename_i hv
        set m := s.setSlot i { s.tbl.slots i with active := false } with hm
        have hself : m.tbl.slots i = { s.tbl.slots i with active := false } :=
          update_self i _ s.tbl.slots
        have hother : m.tbl.slots (1 - i) = s.tbl.slots (1 - i) :=
          update_of_ne (other_ne i) _ s.tbl.slots
        refine h.bringUp hl (m := m) rfl hl (h.header hl) (fun j hj => ?_) (by rwa [hother]) hrun
        rw [fin_other hj, hself]
        exact Bool.false_ne_true
      · cases hrun
        exact h.refused _
  · rw [if_neg hl] at hrun
    cases hrun
    exact h.refused _

lemma Inv.put (h : Inv ⟨s, snaps⟩) {tab : AbTable} (htab : tab ∈ snaps)
    (hclean : s.loaded → table_valid tab → ∀ i, (tab.slots i).active ↔ s.stats.active = some i)
    (hrun : abmgr_table_put tab w s = (r, t)) : Kept snaps r t := by
  unfold abmgr_table_put at hrun
  split at hrun
  · rename_i hacc
    have hm := h.memory hacc.1 (m := { s with tbl := tab }) rfl hacc.1
      (fun i => (hclean hacc.1 hacc.2 i).symm) (fun i hi => (h.snaps tab htab i hi).1)
      (header_of_valid hacc.2)
    have hw := hm.write hacc.1 hrun
    exact ⟨hw.1, hw.2.2⟩
  · cases hrun
    exact h.refused _

variable {w₁ w₂ : Write}

lemma Inv.evaluate (h : Inv ⟨s, snaps⟩)
    (hclean : ∀ i, s.abmgr_active = some i → ¬(s.tbl.slots i).exhausted →
      s.disk.slots = s.tbl.slots)
    (hrun : abmgr_evaluate w₁ w₂ s = (r, t)) : Kept snaps r t := by
  unfold abmgr_evaluate at hrun
  cases ha : s.abmgr_active with
  | none =>
    rw [ha] at hrun
    cases hrun
    exact h.refused _
  | some i =>
    rw [ha] at hrun
    obtain ⟨hl, hact⟩ := active_some ha
    simp only at hrun
    by_cases hex : (s.tbl.slots i).exhausted = true
    · rw [if_pos hex] at hrun
      have hbump : Inv ⟨s.bump, snaps⟩ := h.memory hl rfl hl (h.flags hl) h.valid (h.header hl)
      rcases hw₁ : table_write_checked w₁ s.bump with ⟨r₁, u⟩
      rw [hw₁] at hrun
      obtain ⟨hu, hlu, -⟩ := hbump.write hl hw₁
      cases r₁ with
      | off =>
        cases hrun
        exact ⟨hu, fun _ hv => Res.noConfusion hv⟩
      | ok _ | err _ =>
        simp only [switchBack] at hrun
        -- the count of switches is not read
        set v : Ab := if (u.tbl.slots (1 - i)).valid then { u with moved := u.moved + 1 } else u
          with hv
        have hinv : Inv ⟨v, snaps⟩ := by
          rw [hv]
          split
          · exact hu.memory hlu rfl hlu (hu.flags hlu) hu.valid (hu.header hlu)
          · exact hu
        rcases hw₂ : abmgr_switch w₂ v with ⟨r₂, t'⟩
        rw [hw₂] at hrun
        have hkept := hinv.switch hw₂
        cases r₂ <;> cases hrun
        · exact ⟨hkept.1, fun _ _ => hkept.2 _ rfl⟩
        · exact hkept
        · exact hkept
    · rw [if_neg hex] at hrun
      cases hrun
      exact ⟨h, fun _ _ => (durable_iff h hl).mpr (hclean i ha hex)⟩

/-! ## Steps and runs -/

variable {a : Act}

/-- A step under the condition keeps the invariant and leaves what its success stands for. -/
lemma Inv.step {s t : World} (h : Inv s) (hstep : Powered s a t) (hok : AgreesClean s a) :
    Inv t ∧ ∀ op v, a = .op op (.ok v) → Durable t.ab := by
  obtain ⟨hstep, hreboot, hon⟩ := hstep
  cases hstep with
  | @op op r ab hput hrun hne =>
    have hkept : Kept s.snaps r ab := by
      cases op with
      | attach readable w => exact h.attach hrun
      | slot_seal idx lba nsect seq readable w => exact h.seal hok hrun
      | boot_begin w => exact h.boot_begin hrun
      | confirm w => exact h.confirm hrun
      | switch w => exact h.switch hrun
      | evaluate w₁ w₂ => exact h.evaluate hok hrun
      | put tab w => exact h.put (hput tab w rfl) hok hrun
    refine ⟨hkept.1, fun op' v ha => ?_⟩
    cases ha
    exact hkept.2 v rfl
  | lost hput hrun => exact absurd rfl (hon _)
  | get hloaded =>
    refine ⟨⟨h.flags, h.idle, h.valid, h.header, h.mirror, h.disk, fun tab htab => ?_⟩,
      fun op v ha => Act.noConfusion ha⟩
    rcases List.mem_cons.mp htab with rfl | htab
    · exact h.proper
    · exact h.snaps tab htab
  | reboot => exact absurd rfl hreboot

/-- What a step that obeys the law says of the state before it. -/
lemma agreesClean_of_agrees {s t : World} (h : Inv s) (hstep : Powered s a t)
    (hlaw : Agrees s a t) : AgreesClean s a := by
  obtain ⟨hstep, -, hon⟩ := hstep
  obtain ⟨hcons, hdur⟩ := hlaw
  cases hstep with
  | @op op r ab hput hrun hne =>
    cases op with
    | attach readable w => trivial
    | slot_seal idx lba nsect seq readable w =>
      intro hl hn hread i hi hidx
      subst hidx
      -- the flag of the active slot is gone
      have hargs : s.ab.loaded = true ∧ i.val < 2 ∧ nsect ≠ 0 := ⟨hl, i.isLt, hn⟩
      have hw : table_write w (s.ab.setSlot i ⟨payload_crc s.ab.payload lba nsect, seq, lba, nsect,
          0, false, false, true⟩) = (r, ab) := by
        have hrun : abmgr_slot_seal i lba nsect seq readable w s.ab = (r, ab) := hrun
        rw [abmgr_slot_seal, dif_pos hargs, if_pos hread, table_write_checked] at hrun
        rwa [if_pos (show (Ab.setSlot _ _ _).loaded = true from hl)] at hrun
      obtain ⟨rfl, -, -⟩ := table_write_spec hw
      have hactive : (if s.ab.loaded then s.ab.stats.active else none) = some i := by
        rw [if_pos hl]
        exact hi
      have hflag : (update s.ab.tbl.slots i ⟨payload_crc s.ab.payload lba nsect, seq, lba,
          nsect, 0, false, false, true⟩ i).active = true := ((hcons.active i).mp hactive).1
      rw [update_self] at hflag
      cases hflag
    | boot_begin w => trivial
    | confirm w => trivial
    | switch w => trivial
    | evaluate w₁ w₂ =>
      intro i ha hex
      obtain ⟨hl, -⟩ := active_some ha
      have hrun : abmgr_evaluate w₁ w₂ s.ab = (r, ab) := hrun
      rw [abmgr_evaluate, ha] at hrun
      simp only [if_neg hex] at hrun
      cases hrun
      exact (durable_iff h hl).mp (hdur _ _ rfl)
    | put tab w =>
      intro hl hacc i
      have hrun : abmgr_table_put tab w s.ab = (r, ab) := hrun
      rw [abmgr_table_put, if_pos ⟨hl, hacc⟩, table_write_checked,
        if_pos (show ({ s.ab with tbl := tab } : Ab).loaded = true from hl)] at hrun
      obtain ⟨rfl, -, -⟩ := table_write_spec hrun
      have hactive := hcons.active i
      change (if s.ab.loaded then s.ab.stats.active else none) = some i ↔ (tab.slots i).active = true ∧
        ∀ j ≠ i, ¬(tab.slots j).active = true at hactive
      rw [if_pos hl] at hactive
      have hprop := h.snaps tab (hput tab w rfl)
      exact ⟨fun hi => hactive.mpr ⟨hi, (hprop i hi).2⟩, fun hi => (hactive.mp hi).1⟩
  | lost hput hrun => exact absurd rfl (hon _)
  | get hloaded => trivial
  | reboot => trivial

lemma inv_blank (payload : ℕ → List UInt8) : Inv ⟨blank payload, []⟩ :=
  inv_unloaded rfl (fun _ => Bool.false_ne_true)
    (fun _ i hi => absurd hi (by simp [blank, zeroTable, emptySlot])) fun t ht => by cases ht

/-- From an empty device on, in the runs without a loss of power, the law is obeyed all along
exactly when every step meets the condition. -/
theorem slots_agree (payload : ℕ → List UInt8) (as : List Act) (t : World) :
    Run (Guarded AgreesClean Powered) ⟨blank payload, []⟩ as t ↔
      Run (fun s a u => Powered s a u ∧ Agrees s a u) ⟨blank payload, []⟩ as t := by
  refine Run.guarded_iff (I := Inv) (fun s a u hi hs hk => ?_) (fun s a u hi hs => ?_)
    (inv_blank payload)
  · exact (hi.step hs (agreesClean_of_agrees hi hs hk)).1
  · refine ⟨agreesClean_of_agrees hi hs, fun hok => ?_⟩
    obtain ⟨hinv, hdur⟩ := hi.step hs hok
    exact ⟨hinv.consistent, hdur⟩

/-- The active slot is sealed again: it stays the active one, and its flag is gone. -/
theorem reseal_clears_active : ∃ as t, Run Powered ⟨blank fun _ => [], []⟩ as t ∧
    t.ab.abmgr_active = some 0 ∧ (t.ab.tbl.slots 0).active = false := by
  have hput : ∀ {op : Op}, (∀ t w, op ≠ .put t w) → ∀ t w, op = .put t w → t ∈ ([] : List AbTable) :=
    fun hop t w he => absurd he (hop t w)
  have step : ∀ {s : Ab} (op : Op), (∀ t w, op ≠ .put t w) → (op.run s).1 ≠ .off →
      Powered ⟨s, []⟩ (.op op (op.run s).1) ⟨(op.run s).2, []⟩ := fun op hop hon =>
    ⟨.op (hput hop) rfl hon, fun he => Act.noConfusion he, fun _ he => hon (Act.op.inj he).2⟩
  have h0 : Run Powered ⟨blank fun _ => [], []⟩ [] _ := .nil
  have h1 := h0.snoc (step (.attach true .ok) (by simp) (by decide))
  have h2 := h1.snoc (step (.slot_seal 0 64 1 1 true .ok) (by simp) (by decide))
  have h3 := h2.snoc (step (.switch .ok) (by simp) (by decide))
  have h4 := h3.snoc (step (.slot_seal 0 64 1 2 true .ok) (by simp) (by decide))
  exact ⟨_, _, h4, by decide, by decide⟩

/-! ## Power losses and the count of roll-backs -/

/-- The operation with every write succeeding. -/
def Op.completed : Op → Op
  | .attach readable _ => .attach readable .ok
  | .slot_seal idx lba nsect seq readable _ => .slot_seal idx lba nsect seq readable .ok
  | .boot_begin _ => .boot_begin .ok
  | .confirm _ => .confirm .ok
  | .switch _ => .switch .ok
  | .evaluate _ _ => .evaluate .ok .ok
  | .put t _ => .put t .ok

/-- The table that a re-attach yields. -/
def reattached (s : Ab) : AbTable := (abmgr_attach true .ok s).2.tbl

/-- After a power loss in an operation the table is the one from before it or the one that it
would have left, and the counter on the device is the number of switches by `abmgr_evaluate`
that the table there has been through. -/
def Recovers (s : World) (a : Act) (t : World) : Prop :=
  (∀ op, a = .op op .off → reattached t.ab = reattached s.ab ∨
    reattached t.ab = reattached (op.completed.run s.ab).2) ∧
  t.ab.disk.rollbacks = t.ab.diskMoved

/-- Every step in which the table sector can be read. -/
def Readable (s : World) (a : Act) (t : World) : Prop :=
  Step s a t ∧ ∀ w r, a ≠ .op (.attach false w) r

/-- The counters and the switches they count; a device without a table has seen none. -/
structure Counted (s : Ab) : Prop where
  disk : s.disk.rollbacks = s.diskMoved
  tbl : s.loaded → s.tbl.rollbacks = s.moved
  stats : s.loaded → s.stats.rollbacks = s.moved
  header : s.loaded → Header s.tbl
  mirror : ¬table_valid s.disk → s.loaded = false ∧ s.moved = 0 ∧ s.diskMoved = 0

/-- What a re-attach yields depends on the device. -/
lemma reattached_eq (s : Ab) :
    reattached s = if table_valid s.disk then s.disk else formatted.sealed := by
  by_cases hv : table_valid s.disk = true
  · have hrun : abmgr_attach true .ok s = (.ok 0, { s with
        tbl := s.disk, loaded := true, moved := s.diskMoved
        stats := { s.stats with active := s.disk.activeSlot, rollbacks := s.disk.rollbacks } }) :=
      if_pos ⟨rfl, hv⟩
    rw [reattached, hrun, if_pos hv]
  · have hrun : abmgr_attach true .ok s = (.ok 0, { s with
        loaded := true, tbl := formatted.sealed, disk := formatted.sealed, diskMoved := s.moved
        stats := { s.stats with active := none, rollbacks := 0 } }) :=
      if_neg fun h => hv h.2
    rw [reattached, hrun, if_neg hv]

/-- The write of a table with the counters in order, and what a cut in it leaves. -/
lemma Counted.write (h : Counted s) (hcount : s.tbl.rollbacks = s.moved) (hhead : Header s.tbl)
    (hw : table_write w s = (r, t)) :
    Counted t ∧ (r = .off → t.disk = s.disk ∨ t.disk = (table_write .ok s).2.disk) := by
  obtain ⟨rfl, -, -⟩ := table_write_spec hw
  have hdone : (table_write .ok s).2.disk = s.tbl.sealed := rfl
  refine ⟨⟨?_, h.tbl, h.stats, h.header, ?_⟩, fun _ => ?_⟩
  · split
    · exact hcount
    · exact h.disk
  · split
    · exact fun hn => absurd (sealed_valid hhead) hn
    · exact h.mirror
  · split
    · exact .inr hdone.symm
    · exact .inl rfl

/-- The variables of the loaded module change, the device does not. -/
lemma Counted.memory (h : Counted s) (hl : s.loaded = true) (hdisk : m.disk = s.disk)
    (hmoved : m.diskMoved = s.diskMoved) (htbl : m.tbl.rollbacks = m.moved)
    (hstats : m.stats.rollbacks = m.moved) (hhead : Header m.tbl) : Counted m where
  disk := by rw [hdisk, hmoved]; exact h.disk
  tbl := fun _ => htbl
  stats := fun _ => hstats
  header := fun _ => hhead
  mirror := fun hn => by
    rw [hdisk] at hn
    rw [(h.mirror hn).1] at hl
    cases hl

/-- The machine starts afresh, with what the device holds. -/
lemma Counted.restart (h : Counted s) (hdisk : t.disk = s.disk)
    (hmoved : t.diskMoved = s.diskMoved) : Counted t.reset where
  disk := by
    show t.disk.rollbacks = t.diskMoved
    rw [hdisk, hmoved]
    exact h.disk
  tbl := fun hl => noConfusion hl
  stats := fun hl => noConfusion hl
  header := fun hl => noConfusion hl
  mirror := fun hn => by
    have hzero : t.diskMoved = 0 := by
      rw [hmoved]
      refine (h.mirror ?_).2.2
      rw [← hdisk]
      exact hn
    exact ⟨rfl, hzero, hzero⟩

/-- What an operation under the condition leaves; `done` is the state that it leaves when all
its writes succeed. -/
structure Recovered (s : Ab) (r : Res) (t done : Ab) : Prop where
  on : r ≠ .off → Counted t
  off : r = .off → Counted t.reset ∧ (t.disk = s.disk ∨ t.disk = done.disk)

lemma Counted.recovered {done : Ab} (h : Counted t)
    (hcut : r = .off → t.disk = s.disk ∨ t.disk = done.disk) : Recovered s r t done :=
  ⟨fun _ => h, fun hoff => ⟨h.restart rfl rfl, hcut hoff⟩⟩

section

variable (h : Counted s)
include h

lemma Counted.refused {e : Errno} {done : Ab} : Recovered s (.err e) s done :=
  h.recovered fun hoff => Res.noConfusion hoff

/-- The variables change and the table is written, once. -/
lemma Counted.single (hl : s.loaded = true) {m : Ab} (hdisk : m.disk = s.disk)
    (hmoved : m.diskMoved = s.diskMoved) (hload : m.loaded = true)
    (htbl : m.tbl.rollbacks = m.moved) (hstats : m.stats.rollbacks = m.moved)
    (hhead : Header m.tbl) (hw : table_write_checked w m = (r, t)) :
    Recovered s r t (table_write_checked .ok m).2 := by
  have hm := h.memory hl hdisk hmoved htbl hstats hhead
  rw [table_write_checked, if_pos hload] at hw
  rw [table_write_checked, if_pos hload]
  obtain ⟨ht, hcut⟩ := hm.write htbl hhead hw
  rw [hdisk] at hcut
  exact ht.recovered hcut

lemma Counted.attach (hrun : abmgr_attach true w s = (r, t)) :
    Recovered s r t (abmgr_attach true .ok s).2 := by
  by_cases hv : table_valid s.disk = true
  · have hattach : abmgr_attach true w s = (.ok 0, { s with
        tbl := s.disk, loaded := true, moved := s.diskMoved
        stats := { s.stats with active := s.disk.activeSlot, rollbacks := s.disk.rollbacks } }) :=
      if_pos ⟨rfl, hv⟩
    rw [hattach] at hrun
    cases hrun
    have hnew : Counted { s with
        tbl := s.disk, loaded := true, moved := s.diskMoved
        stats := { s.stats with active := s.disk.activeSlot, rollbacks := s.disk.rollbacks } } :=
      ⟨h.disk, fun _ => h.disk, fun _ => h.disk, fun _ => header_of_valid hv,
        fun hn => absurd hv hn⟩
    exact hnew.recovered fun hoff => Res.noConfusion hoff
  · have hfresh : ¬(true = true ∧ table_valid s.disk = true) := fun hc => hv hc.2
    obtain ⟨-, hmoved, hdm⟩ := h.mirror hv
    have hm : Counted { s with loaded := false, tbl := formatted } :=
      ⟨h.disk, fun hl => noConfusion hl, fun hl => noConfusion hl,
        fun hl => noConfusion hl, fun _ => ⟨rfl, hmoved, hdm⟩⟩
    rcases hw : table_write w { s with loaded := false, tbl := formatted } with ⟨r', u⟩
    obtain ⟨hu, hcut⟩ := hm.write hmoved.symm ⟨rfl, rfl⟩ hw
    have hdone : (abmgr_attach true .ok s).2.disk = formatted.sealed := by
      rw [abmgr_attach, if_neg hfresh]
      rfl
    unfold abmgr_attach at hrun
    rw [if_neg hfresh, hw] at hrun
    obtain ⟨hspec, hok, -⟩ := table_write_spec hw
    cases r' with
    | ok v =>
      cases hrun
      have hland := hok ⟨v, rfl⟩
      have hvalid : table_valid u.disk := by
        rw [hspec]
        rw [if_pos hland]
        exact sealed_valid ⟨rfl, rfl⟩
      have htbl : u.tbl = formatted.sealed := by rw [hspec]
      have hum : u.moved = 0 := by rw [hspec]; exact hmoved
      have hnew : Counted { u with
          loaded := true, stats := { u.stats with active := none, rollbacks := 0 } } := by
        refine ⟨hu.disk, fun _ => ?_, fun _ => hum.symm, fun _ => ?_, fun hn => absurd hvalid hn⟩
        · rw [htbl, hum]
          rfl
        · rw [htbl]
          exact ⟨rfl, rfl⟩
      exact hnew.recovered fun hoff => Res.noConfusion hoff
    | err e =>
      cases hrun
      exact hu.recovered fun hoff => Res.noConfusion hoff
    | off =>
      cases hrun
      exact hu.recovered fun _ => by rw [hdone]; exact hcut rfl

lemma Counted.seal {idx lba nsect seq : ℕ} {readable : Bool}
    (hrun : abmgr_slot_seal idx lba nsect seq readable w s = (r, t)) :
    Recovered s r t (abmgr_slot_seal idx lba nsect seq readable .ok s).2 := by
  unfold abmgr_slot_seal at hrun ⊢
  by_cases hargs : s.loaded = true ∧ idx < 2 ∧ nsect ≠ 0
  · have hl := hargs.1
    simp only [dif_pos hargs] at hrun ⊢
    by_cases hread : readable = true
    · simp only [if_pos hread] at hrun ⊢
      exact h.single hl rfl rfl hl (h.tbl hl) (h.stats hl) (h.header hl) hrun
    · simp only [if_neg hread] at hrun ⊢
      cases hrun
      exact h.refused
  · simp only [dif_neg hargs] at hrun ⊢
    cases hrun
    exact h.refused

lemma Counted.boot_begin (hrun : abmgr_boot_begin w s = (r, t)) :
    Recovered s r t (abmgr_boot_begin .ok s).2 := by
  unfold abmgr_boot_begin at hrun ⊢
  cases ha : s.abmgr_active with
  | none =>
    rw [ha] at hrun
    cases hrun
    exact h.refused
  | some i =>
    rw [ha] at hrun
    have hl := (active_some ha).1
    exact h.single hl rfl rfl hl (h.tbl hl) (h.stats hl) (h.header hl) hrun

lemma Counted.confirm (hrun : abmgr_confirm w s = (r, t)) :
    Recovered s r t (abmgr_confirm .ok s).2 := by
  unfold abmgr_confirm at hrun ⊢
  cases ha : s.abmgr_active with
  | none =>
    rw [ha] at hrun
    cases hrun
    exact h.refused
  | some i =>
    rw [ha] at hrun
    have hl := (active_some ha).1
    exact h.single hl rfl rfl hl (h.tbl hl) (h.stats hl) (h.header hl) hrun

lemma Counted.switch (hrun : abmgr_switch w s = (r, t)) :
    Recovered s r t (abmgr_switch .ok s).2 := by
  unfold abmgr_switch bringUp at hrun ⊢
  by_cases hl : s.loaded = true
  · rw [if_pos hl] at hrun ⊢
    cases ha : s.stats.active with
    | none =>
      simp only [ha] at hrun ⊢
      by_cases h0 : (s.tbl.slots 0).valid = true
      · simp only [if_pos h0] at hrun ⊢
        exact h.single hl rfl rfl hl (h.tbl hl) (h.stats hl) (h.header hl) hrun
      · by_cases h1 : (s.tbl.slots 1).valid = true
        · simp only [if_neg h0, if_pos h1] at hrun ⊢
          exact h.single hl rfl rfl hl (h.tbl hl) (h.stats hl) (h.header hl) hrun
        · simp only [if_neg h0, if_neg h1] at hrun ⊢
          cases hrun
          exact h.refused
    | some i =>
      simp only [ha] at hrun ⊢
      by_cases ho : (s.tbl.slots (1 - i)).valid = true
      · simp only [if_pos ho] at hrun ⊢
        exact h.single hl rfl rfl hl (h.tbl hl) (h.stats hl) (h.header hl) hrun
      · simp only [if_neg ho] at hrun ⊢
        cases hrun
        exact h.refused
  · rw [if_neg hl] at hrun ⊢
    cases hrun
    exact h.refused

lemma Counted.put {tab : AbTable}
    (hclean : s.loaded → table_valid tab → tab.rollbacks = s.stats.rollbacks)
    (hrun : abmgr_table_put tab w s = (r, t)) :
    Recovered s r t (abmgr_table_put tab .ok s).2 := by
  unfold abmgr_table_put at hrun ⊢
  by_cases hacc : s.loaded = true ∧ table_valid tab = true
  · simp only [if_pos hacc] at hrun ⊢
    exact h.single hacc.1 rfl rfl hacc.1 ((hclean hacc.1 hacc.2).trans (h.stats hacc.1))
      (h.stats hacc.1) (header_of_valid hacc.2) hrun
  · simp only [if_neg hacc] at hrun ⊢
    cases hrun
    exact h.refused

end

section

variable (hl : s.loaded = true) {i : Fin 2} (ha : s.stats.active = some i)
  (ho : (s.tbl.slots (1 - i)).valid = true)
include hl ha ho

/-- A switch to the other slot. -/
lemma switch_run :
    abmgr_switch w s = table_write w { s with
      tbl := raised s.tbl i
      stats := { s.stats with
        active := some (1 - i), switches := (s.stats.switches + 1) % 2 ^ 32 } } := by
  unfold abmgr_switch
  rw [if_pos hl, ha]
  simp only [if_pos ho]
  have hm : ({ s with
      tbl := raised s.tbl i
      stats := { s.stats with
        active := some (1 - i), switches := (s.stats.switches + 1) % 2 ^ 32 } } : Ab).loaded := hl
  exact if_pos hm

lemma switchBack_eq :
    switchBack i w s = match table_write w (s.leaving i) with
      | (.ok _, t) => (.ok 1, t)
      | r => r := by
  have hswitch : abmgr_switch w { s with moved := s.moved + 1 } = table_write w (s.leaving i) :=
    switch_run (s := { s with moved := s.moved + 1 }) hl ha ho
  unfold switchBack
  rw [if_pos ho]
  exact congrArg (fun r => match r with | (.ok _, t) => (Res.ok 1, t) | r => r) hswitch

end

/-- A due roll-back whose first write does not lose the power. -/
lemma evaluate_due {u : Ab} {r₁ : Res} (ha : s.abmgr_active = some i)
    (hex : (s.tbl.slots i).exhausted = true) (hw : table_write w₁ s.bump = (r₁, u))
    (hon : r₁ ≠ .off) : abmgr_evaluate w₁ w₂ s = switchBack i w₂ u := by
  have hl : s.bump.loaded = true := (active_some ha).1
  unfold abmgr_evaluate table_write_checked
  rw [ha, if_pos hl, hw]
  simp only [if_pos hex]

/-- A roll-back under the condition. -/
lemma Counted.evaluate (h : Counted s)
    (hclean : ∀ i, s.abmgr_active = some i → (s.tbl.slots i).exhausted →
      (s.tbl.slots (1 - i)).valid ∧ s.stats.rollbacks + 1 < 2 ^ 32 ∧
        (w₁ = .cut false ∨ (∀ l, w₁ ≠ .cut l) ∧ (w₁.landed → w₂.landed)))
    (hrun : abmgr_evaluate w₁ w₂ s = (r, t)) :
    Recovered s r t (abmgr_evaluate .ok .ok s).2 := by
  cases ha : s.abmgr_active with
  | none =>
    rw [abmgr_evaluate, ha] at hrun
    cases hrun
    exact h.refused
  | some i =>
    obtain ⟨hl, hact⟩ := active_some ha
    by_cases hex : (s.tbl.slots i).exhausted = true
    · obtain ⟨ho, hroom, hwrites⟩ := hclean i ha hex
      rcases hw₁ : table_write w₁ s.bump with ⟨r₁, u⟩
      obtain ⟨hu, -, hoff₁⟩ := table_write_spec hw₁
      rcases hwrites with hcut | ⟨hon, hboth⟩
      · -- the power is lost before the counter is on the device
        subst hcut
        obtain rfl := hoff₁.mpr ⟨false, rfl⟩
        rw [abmgr_evaluate, ha, table_write_checked, if_pos (show s.bump.loaded = true from hl),
          hw₁] at hrun
        simp only [if_pos hex] at hrun
        cases hrun
        have hdisk : t.disk = s.disk := by rw [hu]; rfl
        have hmoved : t.diskMoved = s.diskMoved := by rw [hu]; rfl
        exact ⟨fun hne => absurd rfl hne, fun _ => ⟨h.restart hdisk hmoved, .inl hdisk⟩⟩
      · have hon₁ : r₁ ≠ .off := fun hoff => by
          obtain ⟨l, hl⟩ := hoff₁.mp hoff
          exact hon l hl
        have hlu : u.loaded = true := by rw [hu]; exact hl
        have hau : u.stats.active = some i := by rw [hu]; exact hact
        have hou : (u.tbl.slots (1 - i)).valid = true := by rw [hu]; exact ho
        have htu : u.tbl = s.bump.tbl.sealed := by rw [hu]
        have hdu : w₁.landed = false → u.disk = s.disk ∧ u.diskMoved = s.diskMoved := fun hw => by
          rw [hu]
          simp only [hw, Bool.false_eq_true, if_false]
          exact ⟨rfl, rfl⟩
        have hnext : (s.stats.rollbacks + 1) % 2 ^ 32 = s.moved + 1 := by
          rw [Nat.mod_eq_of_lt hroom, h.stats hl]
        have htbl : (u.leaving i).tbl.rollbacks = s.moved + 1 := by
          show u.tbl.rollbacks = _
          rw [htu]
          exact hnext
        have hstats : u.stats.rollbacks = s.moved + 1 := by
          rw [hu]
          exact hnext
        have hum : u.moved = s.moved := by rw [hu]; rfl
        have hhead : Header (u.leaving i).tbl := by
          show Header u.tbl
          rw [htu]
          exact h.header hl
        rw [evaluate_due ha hex hw₁ hon₁, switchBack_eq hlu hau hou] at hrun
        rcases hw₂ : table_write w₂ (u.leaving i) with ⟨r₂, v⟩
        obtain ⟨hv, -, hoff₂⟩ := table_write_spec hw₂
        have hdisk : v.disk = if w₂.landed then (u.leaving i).tbl.sealed else u.disk := by rw [hv]; rfl
        have hdm : v.diskMoved = if w₂.landed then s.moved + 1 else u.diskMoved := by
          rw [hv, ← hum]
          rfl
        have htv : v.tbl = (u.leaving i).tbl.sealed := by rw [hv]
        have hmoved : v.moved = s.moved + 1 := by
          rw [hv, ← hum]
          rfl
        -- where the switch is lost, so is the counter
        have hlost : ¬w₂.landed = true → v.disk = s.disk ∧ v.diskMoved = s.diskMoved := fun hn => by
          have hw₁ := hdu (Bool.not_eq_true _ ▸ fun hl₁ => hn (hboth hl₁))
          rw [hdisk, hdm, if_neg hn, if_neg hn]
          exact hw₁
        have hcounted : Counted v := by
          refine ⟨?_, fun _ => ?_, fun _ => ?_, fun _ => ?_, fun hinv => ?_⟩
          · by_cases hl₂ : w₂.landed = true
            · rw [hdisk, hdm, if_pos hl₂, if_pos hl₂]
              exact htbl
            · rw [(hlost hl₂).1, (hlost hl₂).2]
              exact h.disk
          · rw [hmoved, htv]
            exact htbl
          · rw [hmoved]
            have hsv : v.stats.rollbacks = u.stats.rollbacks := by rw [hv]; rfl
            exact hsv.trans hstats
          · rw [htv]
            exact hhead
          · by_cases hl₂ : w₂.landed = true
            · rw [hdisk, if_pos hl₂] at hinv
              exact absurd (sealed_valid hhead) hinv
            · rw [(hlost hl₂).1] at hinv
              rw [(h.mirror hinv).1] at hl
              cases hl
        rw [hw₂] at hrun
        cases r₂ with
        | ok x =>
          cases hrun
          exact hcounted.recovered fun hoff => Res.noConfusion hoff
        | err e =>
          cases hrun
          exact hcounted.recovered fun hoff => Res.noConfusion hoff
        | off =>
          cases hrun
          refine hcounted.recovered fun _ => ?_
          by_cases hl₂ : w₂.landed = true
          · refine .inr ?_
            -- the table is the same whether or not the first write was lost
            have hdone : (abmgr_evaluate .ok .ok s).2.disk = (raised s.bump.tbl.sealed i).sealed := by
              set b := ({ s.bump with tbl := s.bump.tbl.sealed } : Ab).land with hb
              have hw : table_write .ok s.bump = (.ok 0, b) := rfl
              have hback := switchBack_eq (s := b) (w := .ok) hl hact ho
              rw [evaluate_due ha hex hw (fun hoff => Res.noConfusion hoff), hback]
              rfl
            rw [hdisk, if_pos hl₂, hdone]
            show (raised u.tbl i).sealed = _
            rw [htu]
          · exact .inl (hlost hl₂).1
    · rw [abmgr_evaluate, ha] at hrun
      simp only [if_neg hex] at hrun
      cases hrun
      exact h.recovered fun hoff => Res.noConfusion hoff

/-- A step under the condition keeps the counters and recovers from a power loss. -/
lemma Counted.step {s t : World} (h : Counted s.ab) (hstep : Readable s a t)
    (hok : RecoversClean s a) : Counted t.ab ∧ Recovers s a t := by
  obtain ⟨hstep, hread⟩ := hstep
  have hop : ∀ {op : Op} {r : Res} {ab : Ab}, op.run s.ab = (r, ab) → (∀ w, op ≠ .attach false w) →
      RecoversClean s (.op op r) → Recovered s.ab r ab (op.completed.run s.ab).2 := by
    intro op r ab hrun hne hok
    cases op with
    | attach readable w =>
      cases readable with
      | true => exact h.attach hrun
      | false => exact absurd rfl (hne w)
    | slot_seal idx lba nsect seq readable w => exact h.seal hrun
    | boot_begin w => exact h.boot_begin hrun
    | confirm w => exact h.confirm hrun
    | switch w => exact h.switch hrun
    | evaluate w₁ w₂ => exact h.evaluate hok hrun
    | put tab w => exact h.put hok hrun
  cases hstep with
  | @op op r ab hput hrun hon =>
    have hcount := (hop hrun (fun w he => hread w r (congrArg (Act.op · r) he)) hok).on hon
    refine ⟨hcount, fun op' he => ?_, hcount.disk⟩
    exact absurd (Act.op.inj he).2 hon
  | @lost op ab hput hrun =>
    obtain ⟨hcount, hdisk⟩ := (hop hrun (fun w he => hread w _ (congrArg (Act.op · _) he)) hok).off rfl
    refine ⟨hcount, fun op' he => ?_, hcount.disk⟩
    obtain rfl := (Act.op.inj he).1
    simp only [reattached_eq]
    have hreset : ab.reset.disk = ab.disk := rfl
    rcases hdisk with hd | hd
    · exact .inl (by rw [hreset, hd])
    · exact .inr (by rw [hreset, hd])
  | get hloaded => exact ⟨h, fun op he => Act.noConfusion he, h.disk⟩
  | reboot =>
    have hreset : Counted s.ab.reset := h.restart rfl rfl
    exact ⟨hreset, fun op he => Act.noConfusion he, hreset.disk⟩

lemma counted_blank (payload : ℕ → List UInt8) : Counted (blank payload) :=
  ⟨rfl, fun hl => noConfusion hl, fun hl => noConfusion hl, fun hl => noConfusion hl,
    fun _ => ⟨rfl, rfl, rfl⟩⟩

/-- In every run from an empty device whose steps meet the condition, with writes that fail and
power losses anywhere, every step recovers and the counter on the device is right. -/
theorem rollbacks_counted (payload : ℕ → List UInt8) (as : List Act) (t : World)
    (hrun : Run (Guarded RecoversClean Readable) ⟨blank payload, []⟩ as t) :
    Run (fun s a u => Readable s a u ∧ Recovers s a u) ⟨blank payload, []⟩ as t ∧
      t.ab.disk.rollbacks = t.ab.diskMoved := by
  have hall : Run (fun s a u => Readable s a u ∧ Recovers s a u) ⟨blank payload, []⟩ as t ∧
      Counted t.ab := by
    induction hrun with
    | nil => exact ⟨.nil, counted_blank payload⟩
    | snoc _ hs ih =>
      obtain ⟨hcount, hrec⟩ := ih.2.step hs.2 hs.1
      exact ⟨.snoc ih.1 ⟨hs.2, hrec⟩, hcount⟩
  exact ⟨hall.1, hall.2.disk⟩

/-- A roll-back whose first write is lost: the second one brings the counter along. -/
theorem rollbacks_counted_once : ∃ as t, Run (Guarded RecoversClean Readable) ⟨blank fun _ => [], []⟩
    as t ∧ t.ab.disk.rollbacks = 1 ∧ t.ab.disk.rollbacks = t.ab.diskMoved := by
  have step : ∀ {s : Ab} (op : Op), (∀ t w, op ≠ .put t w) → (∀ w, op ≠ .attach false w) →
      (op.run s).1 ≠ .off → RecoversClean ⟨s, []⟩ (.op op (op.run s).1) →
      Guarded RecoversClean Readable ⟨s, []⟩ (.op op (op.run s).1) ⟨(op.run s).2, []⟩ :=
    fun op hop hread hon hok => ⟨hok, .op (fun t w he => absurd he (hop t w)) rfl hon,
      fun w r he => hread w (Act.op.inj he).1⟩
  have h0 : Run (Guarded RecoversClean Readable) ⟨blank fun _ => [], []⟩ [] _ := .nil
  have h1 := h0.snoc (step (.attach true .ok) (by simp) (by simp) (by decide) trivial)
  have h2 := h1.snoc (step (.slot_seal 0 64 1 1 true .ok) (by simp) (by simp) (by decide)
    trivial)
  have h3 := h2.snoc (step (.slot_seal 1 65 1 1 true .ok) (by simp) (by simp) (by decide)
    trivial)
  have h4 := h3.snoc (step (.switch .ok) (by simp) (by simp) (by decide) trivial)
  have h5 := h4.snoc (step (.boot_begin .ok) (by simp) (by simp) (by decide) trivial)
  have h6 := h5.snoc (step (.boot_begin .ok) (by simp) (by simp) (by decide) trivial)
  have h7 := h6.snoc (step (.boot_begin .ok) (by simp) (by simp) (by decide) trivial)
  have h8 := h7.snoc (step (.evaluate (.fail false) .ok) (by simp) (by simp) (by decide) (by
    simp only [RecoversClean]
    decide))
  exact ⟨_, _, h8, by decide, (rollbacks_counted _ _ _ h8).2⟩

/-- Three unconfirmed boots of the only sealed slot: the evaluation has nowhere to switch to and
counts a roll-back on the device all the same. With a second sealed slot, and the power lost
between the two writes, the table is neither the one from before nor the one from after. -/
theorem rollback_miscounted :
    (∃ as t, Run Readable ⟨blank fun _ => [], []⟩ as t ∧
      t.ab.abmgr_active = some 0 ∧ t.ab.diskMoved = 0 ∧ t.ab.disk.rollbacks = 1) ∧
    ∃ as s t, Run Readable ⟨blank fun _ => [], []⟩ as s ∧
      Readable s (.op (.evaluate .ok (.cut false)) .off) t ∧
      (reattached s.ab).rollbacks = 0 ∧
      ((reattached t.ab).rollbacks = 1 ∧ ((reattached t.ab).slots 0).active = true) ∧
      ((reattached ((Op.evaluate .ok .ok).run s.ab).2).slots 0).active = false := by
  have hput : ∀ {op : Op}, (∀ t w, op ≠ .put t w) → ∀ t w, op = .put t w → t ∈ ([] : List AbTable) :=
    fun hop t w he => absurd he (hop t w)
  have step : ∀ {s : Ab} (op : Op), (∀ t w, op ≠ .put t w) → (∀ w, op ≠ .attach false w) →
      (op.run s).1 ≠ .off →
      Readable ⟨s, []⟩ (.op op (op.run s).1) ⟨(op.run s).2, []⟩ := fun op hop hread hon =>
    ⟨.op (hput hop) rfl hon, fun w r he => hread w (Act.op.inj he).1⟩
  have h0 : Run Readable ⟨blank fun _ => [], []⟩ [] _ := .nil
  have h1 := h0.snoc (step (.attach true .ok) (by simp) (by simp) (by decide))
  have h2 := h1.snoc (step (.slot_seal 0 64 1 1 true .ok) (by simp) (by simp) (by decide))
  constructor
  · have h3 := h2.snoc (step (.switch .ok) (by simp) (by simp) (by decide))
    have h4 := h3.snoc (step (.boot_begin .ok) (by simp) (by simp) (by decide))
    have h5 := h4.snoc (step (.boot_begin .ok) (by simp) (by simp) (by decide))
    have h6 := h5.snoc (step (.boot_begin .ok) (by simp) (by simp) (by decide))
    have h7 := h6.snoc (step (.evaluate .ok .ok) (by simp) (by simp) (by decide))
    exact ⟨_, _, h7, by decide, by decide, by decide⟩
  · have h3 := h2.snoc (step (.slot_seal 1 65 1 1 true .ok) (by simp) (by simp) (by decide))
    have h4 := h3.snoc (step (.switch .ok) (by simp) (by simp) (by decide))
    have h5 := h4.snoc (step (.boot_begin .ok) (by simp) (by simp) (by decide))
    have h6 := h5.snoc (step (.boot_begin .ok) (by simp) (by simp) (by decide))
    have h7 := h6.snoc (step (.boot_begin .ok) (by simp) (by simp) (by decide))
    refine ⟨_, _, _, h7, ⟨.lost (hput (by simp)) (Prod.ext (by decide) rfl), by simp⟩,
      by decide +kernel, by decide +kernel, by decide +kernel⟩

end Abmgr
end MobilePhoneOs
