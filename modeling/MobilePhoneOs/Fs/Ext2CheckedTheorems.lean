import MobilePhoneOs.Fs.Ext2Checked
import MobilePhoneOs.Fs.Ext2MkfsTheorems

/-!
# ext2 on hostile media

The loops of the driver end on every disk, and what they index is inside the arrays exactly when
the records that they come to fit in their blocks and the inode numbers in the descriptors. A
transfer that fails only ends a call early, so the contents of the disk decide.
-/

namespace MobilePhoneOs

open List (forall_mem_cons mem_append mem_cons mem_map mem_singleton not_mem_nil)

/-! ## Accesses -/

section

variable {ε : Type} {l l' : List Access}

lemma access_inside (h : ∀ a ∈ l, a.Inside) : access l = (.ok () : Except (Stop ε) Unit) :=
  if_pos h

lemma access_oob (h : ¬ ∀ a ∈ l, a.Inside) : access l = (.error .oob : Except (Stop ε) Unit) :=
  if_neg h

end

namespace Fs
namespace Ext2

open Mem Prog

namespace Checked

variable {α β : Type} {fs : E2Fs} {d d' d₀ : Dev} {n dir : Inode} {ino fb : ℕ}

lemma grp_inside {g : ℕ} : (grp g).Inside ↔ g < E2_NGROUP_MAX := by
  simp only [grp, Access.Inside]
  omega

lemma block_inside {i m : ℕ} : (block i m).Inside ↔ m = 0 ∨ i + m ≤ E2_BSIZE := Iff.rfl

/-- A record does not cross its sector. -/
lemma recordAccesses_inside (fs : E2Fs) (ino : ℕ) : ∀ a ∈ recordAccesses fs ino, a.Inside := by
  have hsect := inodeOff_sector fs ino
  unfold recordAccesses
  simp only [if_pos hsect, forall_mem_cons]
  exact ⟨.inr hsect, .inr (Nat.le_refl _), fun _ h => absurd h not_mem_nil⟩

lemma fieldAccesses_inside : ∀ a ∈ fieldAccesses, a.Inside := by decide

lemma storeAccesses_inside (h : inoGroup ino < E2_NGROUP_MAX) :
    ∀ a ∈ storeAccesses fs ino, a.Inside := by
  intro a ha
  rcases mem_append.mp ha with hf | hs
  · exact fieldAccesses_inside a hf
  · rcases mem_cons.mp hs with rfl | hr
    · exact grp_inside.mpr h
    · exact recordAccesses_inside fs ino a hr

lemma ballocAccesses_inside (h : fs.ngroups ≤ E2_NGROUP_MAX) :
    ∀ a ∈ ballocAccesses fs, a.Inside := by
  intro a ha
  rcases mem_append.mp ha with hg | hb
  · obtain ⟨g, hlt, rfl⟩ := mem_map.mp hg
    exact grp_inside.mpr (Nat.lt_of_lt_of_le (List.mem_range.mp hlt) h)
  · obtain ⟨rel, hrel, rfl⟩ := mem_map.mp hb
    have hlt : rel < 8192 := List.mem_range.mp hrel
    refine .inr ?_
    show rel >>> 3 + 1 ≤ 1024
    rw [Nat.shiftRight_eq_div_pow]
    omega

/-- The slots on the way to a block that its level can hold. -/
lemma slots_lt (m idx : ℕ) (h : idx < P ^ (m + 1)) : ∀ s ∈ slots m idx, s < P := by
  have hP : 0 < P := by decide
  induction m generalizing idx with
  | zero => exact fun _ hs => absurd hs not_mem_nil
  | succ m ih =>
    intro s hs
    have hstride : stride (m + 2) = P ^ (m + 1) := rfl
    rcases mem_cons.mp hs with rfl | hs
    · rw [hstride]
      exact Nat.div_lt_of_lt_mul h
    · exact ih _ (hstride ▸ Nat.mod_lt _ (Nat.pow_pos hP)) s hs

lemma walkAccesses_inside (h : fb < 2 ^ 32) : ∀ a ∈ walkAccesses fb, a.Inside := by
  have hplace : (place fb).root < 15 ∧ (place fb).idx < P ^ ((place fb).level - 1 + 1) := by
    have hP : P = 256 := rfl
    unfold place
    split_ifs <;> simp only [hP] at * <;> omega
  intro a ha
  rcases mem_cons.mp ha with rfl | ha
  · exact .inr hplace.1
  · obtain ⟨s, hs, rfl⟩ := mem_map.mp ha
    have hlt : s < 256 := slots_lt _ _ hplace.2 s hs
    refine .inr ?_
    show s * 4 + 4 ≤ 1024
    omega

/-! ## The block map -/

lemma bmapRoot_find (d : Dev) (c : Cell) :
    bmapRoot fs false d c = (.ok (decide (c.ptr ≠ 0)), d, c) := by
  unfold bmapRoot
  by_cases hc : c.ptr = 0 <;> simp [hc]

variable {ab : ℕ}

/-- A walk of the block map that answers has read what is on the disk. -/
lemma bmapLevel_ok {m idx : ℕ} {c c' : Cell}
    (h : bmapLevel fs false m idx d c = (.ok ab, d', c')) :
    SameDev d d' ∧ c' = c ∧ bmapLevel fs false m idx (quiet d) c = (.ok ab, quiet d, c) := by
  induction m generalizing idx d c ab d' c' with
  | zero =>
    simp only [bmapLevel, bmapRoot_find] at h ⊢
    by_cases hc : c.ptr = 0
    · simp only [hc, ne_eq, not_true_eq_false, decide_false] at h ⊢
      cases h
      exact ⟨.refl d, rfl, rfl⟩
    · simp only [hc, ne_eq, not_false_eq_true, decide_true] at h ⊢
      cases h
      exact ⟨.refl d, rfl, rfl⟩
  | succ m ih =>
    simp only [bmapLevel, bmapRoot_find] at h ⊢
    by_cases hc : c.ptr = 0
    · simp only [hc, ne_eq, not_true_eq_false, decide_false] at h ⊢
      cases h
      exact ⟨.refl d, rfl, rfl⟩
    simp only [hc, ne_eq, not_false_eq_true, decide_true] at h ⊢
    cases hread : blkRead d c.ptr with
    | mk r d₁ =>
      rw [hread] at h
      cases r with
      | error e => cases h
      | ok ib =>
        obtain ⟨hd₁, rfl⟩ := blkRead_inv hread
        rw [blkRead_quiet (blkRead_lt hread)]
        simp only at h ⊢
        cases hlevel : bmapLevel fs false m (idx % stride (m + 2)) d₁
            ⟨load (blkView d c.ptr) (idx / stride (m + 2) * 4) 4, false⟩ with
        | mk r rest =>
          rw [hlevel] at h
          cases r with
          | error e => cases h
          | ok out =>
            obtain ⟨hd₂, hchild, hquiet⟩ := ih hlevel
            rw [hd₁.quiet_eq] at hquiet
            rw [hquiet]
            simp only [hchild, Bool.false_eq_true, if_false] at h ⊢
            cases h
            exact ⟨hd₁.trans hd₂, rfl, rfl⟩

/-- Without failures the device stays as it is. -/
lemma bmapLevel_quiet (m idx : ℕ) (c : Cell) :
    (bmapLevel fs false m idx (quiet d) c).2 = (quiet d, c) := by
  induction m generalizing idx c with
  | zero =>
    simp only [bmapLevel, bmapRoot_find]
    by_cases hc : c.ptr = 0 <;> simp [hc]
  | succ m ih =>
    simp only [bmapLevel, bmapRoot_find]
    by_cases hc : c.ptr = 0
    · simp [hc]
    simp only [hc, ne_eq, not_false_eq_true, decide_true]
    by_cases hin : c.ptr * E2_SECT_PER_BLK < d.nsect
    · rw [blkRead_quiet hin]
      simp only
      have hchild := ih (idx % stride (m + 2))
        ⟨load (blkView d c.ptr) (idx / stride (m + 2) * 4) 4, false⟩
      cases hlevel : bmapLevel fs false m (idx % stride (m + 2)) (quiet d)
          ⟨load (blkView d c.ptr) (idx / stride (m + 2) * 4) 4, false⟩ with
      | mk r rest =>
        rw [hlevel] at hchild
        obtain rfl : rest = _ := hchild
        cases r with
        | error e => rfl
        | ok out => rfl
    · rw [blkRead, if_pos (show c.ptr * E2_SECT_PER_BLK ≥ (quiet d).nsect from Nat.le_of_not_lt hin)]

/-- What `bmap` finds does not depend on the transfers that succeed. -/
lemma bmap_ok {n' : Inode} (h : bmap fs n fb false d = (.ok ab, d', n')) :
    SameDev d d' ∧ (bmap fs n fb false (quiet d)).1 = .ok ab := by
  unfold bmap at h ⊢
  by_cases hbig : (fb + 1) % 2 ^ 32 * E2_BSIZE > E2_MAX_FILE
  · rw [if_pos hbig] at h
    cases h
  rw [if_neg hbig] at h ⊢
  simp only at h ⊢
  cases hlevel : bmapLevel fs false ((place fb).level - 1) (place fb).idx d
      ⟨n.blk (place fb).root, false⟩ with
  | mk r rest =>
    obtain ⟨d₁, c⟩ := rest
    rw [hlevel] at h
    cases r with
    | error e => cases h
    | ok out =>
      obtain ⟨hd₁, rfl, hquiet⟩ := bmapLevel_ok hlevel
      rw [hquiet]
      cases h
      exact ⟨hd₁, rfl⟩

lemma bmap_quiet (fs : E2Fs) (n : Inode) (fb : ℕ) (d : Dev) :
    (bmap fs n fb false (quiet d)).2.1 = quiet d := by
  unfold bmap
  by_cases hbig : (fb + 1) % 2 ^ 32 * E2_BSIZE > E2_MAX_FILE
  · rw [if_pos hbig]
  rw [if_neg hbig]
  simp only
  have hlevel : (bmapLevel fs false ((place fb).level - 1) (place fb).idx (quiet d)
      ⟨n.blk (place fb).root, false⟩).2 = (quiet d, ⟨n.blk (place fb).root, false⟩) :=
    bmapLevel_quiet _ _ _
  cases hrun : bmapLevel fs false ((place fb).level - 1) (place fb).idx (quiet d)
      ⟨n.blk (place fb).root, false⟩ with
  | mk r rest =>
    rw [hrun] at hlevel
    obtain rfl : rest = _ := hlevel
    cases r with
    | error e => rfl
    | ok out => rfl

/-! ## Blocks of a directory -/

lemma bmapFind_quiet (hfb : fb < 2 ^ 32) (hab : (bmap fs n fb false (quiet d)).1 = .ok ab) :
    bmapFind fs n fb (quiet d) = (.ok ab, quiet d) := by
  have hrun : bmapRun fs n fb false (quiet d)
      = (.ok (ab, (bmap fs n fb false (quiet d)).2.2), quiet d) := by
    have hdev := bmap_quiet fs n fb d
    unfold bmapRun
    rcases hbmap : bmap fs n fb false (quiet d) with ⟨r, d₁, n₁⟩
    rw [hbmap] at hab hdev
    obtain rfl : r = .ok ab := hab
    obtain rfl : d₁ = quiet d := hdev
    rfl
  unfold bmapFind
  rw [access_inside (walkAccesses_inside hfb)]
  exact bind_ok (lift_ok hrun)

lemma wp_bmapFind (hfb : fb < 2 ^ 32) :
    wp (bmapFind fs n fb) (fun ab d' => SameDev d d' ∧ (bmap fs n fb false (quiet d)).1 = .ok ab)
      (fun e _ => Orderly e) d := by
  unfold bmapFind
  rw [access_inside (walkAccesses_inside hfb)]
  refine wp_bind.mpr (wp_ofExcept_ok.mpr (wp_bind.mpr (wp_lift.mpr (wp_of_run ?_ ?_))))
  · intro x d' h
    unfold bmapRun at h
    split at h
    · rename_i ab d₁ n₁ hrun
      cases h
      exact bmap_ok hrun
    · cases h
  · exact fun e _ _ => ⟨e, rfl⟩

variable {k : ℕ}

lemma blockAt_some {bb : ℕ → UInt8} (h : blockAt fs d dir k = some bb) :
    ∃ ab, (bmap fs dir k false (quiet d)).1 = .ok ab ∧ ab ≠ 0 ∧
      ab * E2_SECT_PER_BLK < d.nsect ∧ bb = blkView d ab := by
  unfold blockAt at h
  split at h
  · rename_i ab hab
    split_ifs at h with hc
    exact ⟨ab, hab, hc.1, hc.2, (Option.some.inj h).symm⟩
  · cases h

lemma blockAt_of (hab : (bmap fs dir k false (quiet d)).1 = .ok ab) (h0 : ab ≠ 0)
    (hin : ab * E2_SECT_PER_BLK < d.nsect) : blockAt fs d dir k = some (blkView d ab) := by
  unfold blockAt
  rw [hab]
  exact if_pos ⟨h0, hin⟩

lemma blockAt_congr (h : SameDev d d') (dir : Inode) (k : ℕ) :
    blockAt fs d' dir k = blockAt fs d dir k := by
  unfold blockAt
  rw [h.quiet_eq, h.nsect]
  split
  · rw [h.blkView]
  · rfl

/-! ## Records -/

/-- What the checked read of a record comes to. -/
lemma recordAt_eq (bb : ℕ → UInt8) (off : ℕ) : recordAt bb off =
    if ¬ RecordFits bb off then .error .oob
    else if HeaderOk bb off then .ok (load bb (off + 4) 2, direntOf bb off)
    else .error (.err .eio) := by
  unfold recordAt
  by_cases hlen : off + 6 ≤ E2_BSIZE
  · have hin : ∀ a ∈ [block (off + 4) 2], a.Inside := by
      intro a ha
      rw [mem_singleton.mp ha, block_inside]
      omega
    rw [access_inside hin]
    by_cases hhead : HeaderOk bb off
    · have hpass : ¬ (load bb (off + 4) 2 < 8 ∨ off % 4 ≠ 0 ∨
          off + load bb (off + 4) 2 > E2_BSIZE) := by
        obtain ⟨h1, h2, h3⟩ := hhead
        omega
      have hrest : (∀ a ∈ [block off 4, block (off + 7) 1, block (off + 6) 1,
          block (off + 8) (load bb (off + 6) 1)], a.Inside) ↔ RecordFits bb off := by
        simp only [forall_mem_cons, block_inside, RecordFits, HeaderOk]
        constructor
        · intro h
          exact ⟨hlen, fun _ => by omega⟩
        · intro h
          exact ⟨by omega, by omega, by omega, by omega, fun _ hc => absurd hc not_mem_nil⟩
      rw [if_neg hpass, if_pos hhead]
      by_cases hfits : RecordFits bb off
      · rw [access_inside (hrest.mpr hfits), if_neg (not_not.mpr hfits)]
        rfl
      · rw [access_oob (fun h => hfits (hrest.mp h)), if_pos hfits]
        rfl
    · have hstop : load bb (off + 4) 2 < 8 ∨ off % 4 ≠ 0 ∨
          off + load bb (off + 4) 2 > E2_BSIZE := by
        unfold HeaderOk at hhead
        omega
      have hfits : RecordFits bb off := ⟨hlen, fun h => absurd h hhead⟩
      show (if load bb (off + 4) 2 < 8 ∨ _ then _ else _) = _
      rw [if_pos hstop, if_neg (not_not.mpr hfits), if_neg hhead]
  · have hout : ¬ ∀ a ∈ [block (off + 4) 2], a.Inside := by
      intro h
      have hin := h _ (mem_singleton.mpr rfl)
      rw [block_inside] at hin
      omega
    rw [access_oob hout, if_pos fun hfits => hlen hfits.1]
    rfl

/-- The logical block that `dir_ent_at` reads. -/
lemma blockOf_lt (doff : ℕ) : doff / E2_BSIZE % 2 ^ 32 < 2 ^ 32 := Nat.mod_lt _ (by decide)

lemma wp_dirEntAt (doff : ℕ) : wp (dirEntAt fs dir doff)
    (fun x d' => SameDev d d' ∧ ∃ bb, blockAt fs d dir (doff / E2_BSIZE % 2 ^ 32) = some bb ∧
      recordAt bb (doff % E2_BSIZE) = .ok x)
    (fun e _ => Orderly e ∨ ∃ bb, blockAt fs d dir (doff / E2_BSIZE % 2 ^ 32) = some bb ∧
      recordAt bb (doff % E2_BSIZE) = .error e) d := by
  refine (wp_bmapFind (blockOf_lt doff)).bind (fun ab d₁ hab => ?_) fun e _ he => .inl he
  obtain ⟨hd₁, hab⟩ := hab
  by_cases h0 : ab = 0
  · rw [if_pos h0]
    exact .inl ⟨.eio, rfl⟩
  rw [if_neg h0]
  refine wp_bind.mpr (wp_lift.mpr (wp_of_run ?_ fun e _ _ => .inl ⟨e, rfl⟩))
  intro bb d₂ hread
  obtain ⟨hd₂, rfl⟩ := blkRead_inv hread
  have hblock := blockAt_of hab h0 (hd₁.nsect ▸ blkRead_lt hread)
  rw [← hd₁.blkView] at hblock
  cases hrec : recordAt (blkView d₁ ab) (doff % E2_BSIZE) with
  | error e => exact .inr ⟨_, hblock, hrec⟩
  | ok x => exact ⟨hd₁.trans hd₂, _, hblock, hrec⟩

/-- On a device that does not fail the record in the block decides. -/
lemma dirEntAt_quiet {doff : ℕ} {bb : ℕ → UInt8}
    (h : blockAt fs d dir (doff / E2_BSIZE % 2 ^ 32) = some bb) :
    dirEntAt fs dir doff (quiet d) = (recordAt bb (doff % E2_BSIZE), quiet d) := by
  obtain ⟨ab, hab, h0, hin, rfl⟩ := blockAt_some h
  have hfind : bmapFind fs dir (doff / E2_BSIZE % 2 ^ 32) (quiet d) = (.ok ab, quiet d) := by
    exact bmapFind_quiet (blockOf_lt doff) hab
  unfold dirEntAt
  rw [bind_ok hfind, if_neg h0, bind_ok (lift_ok (blkRead_quiet hin))]
  rfl

/-! ## Scans -/

variable {v : Scan β α} {doff : ℕ} {b : β}

variable {fuel : ℕ}

/-- A scan answers at a record or at the end, it ends, and it leaves the block only at a record
that does not fit. -/
lemma wp_scanFrom (hd : SameDev d₀ d) (hv : Visits fs d₀ dir v doff b)
    (hfuel : dir.size ≤ doff + fuel) : wp (scanFrom fs dir v fuel doff b)
      (fun a d' => SameDev d₀ d' ∧ (Hits fs d₀ dir v a ∨ ∃ b, a = v.finish b))
      (fun e _ => Orderly e ∨ e = .oob ∧ ¬ ScanFits fs d₀ dir v) d := by
  induction fuel generalizing d doff b with
  | zero =>
    rw [scanFrom, if_neg (by omega)]
    exact ⟨hd, .inr ⟨b, rfl⟩⟩
  | succ fuel ih =>
    rw [scanFrom]
    by_cases hdoff : doff < dir.size
    · rw [if_pos hdoff]
      refine (wp_dirEntAt doff).bind (fun x d₁ hx => ?_) fun e _ he => ?_
      · obtain ⟨hd₁, bb, hblock, hrec⟩ := hx
        rw [blockAt_congr hd] at hblock
        rw [recordAt_eq] at hrec
        split_ifs at hrec with hfits hhead
        cases hrec
        cases hvisit : v.visit b doff (direntOf bb (doff % E2_BSIZE)) with
        | inl b' =>
          have hpos : 8 ≤ load bb (doff % E2_BSIZE + 4) 2 := hhead.1
          exact ih (hd.trans hd₁) (hv.next hdoff hblock hhead hvisit) (by omega)
        | inr a => exact ⟨hd.trans hd₁, .inl ⟨doff, b, bb, hv, hdoff, hblock, hhead, hvisit⟩⟩
      · rcases he with he | ⟨bb, hblock, hrec⟩
        · exact .inl he
        rw [blockAt_congr hd] at hblock
        rw [recordAt_eq] at hrec
        by_cases hfits : RecordFits bb (doff % E2_BSIZE)
        · rw [if_neg (not_not.mpr hfits)] at hrec
          split_ifs at hrec with hhead
          cases hrec
          exact .inl ⟨.eio, rfl⟩
        · rw [if_pos hfits] at hrec
          cases hrec
          exact .inr ⟨rfl, fun hall => hfits (hall doff b bb hv hdoff hblock)⟩
    · rw [if_neg hdoff]
      exact ⟨hd, .inr ⟨b, rfl⟩⟩

lemma wp_scan (hd : SameDev d₀ d) : wp (scan fs dir v)
    (fun a d' => SameDev d₀ d' ∧ (Hits fs d₀ dir v a ∨ ∃ b, a = v.finish b))
    (fun e _ => Orderly e ∨ e = .oob ∧ ¬ ScanFits fs d₀ dir v) d :=
  wp_scanFrom hd .start (by omega)

/-- A scan that stays inside comes to every record that it visits. -/
lemma scan_visits (hsafe : ¬ Oob (scan fs dir v) (quiet d)) (hv : Visits fs d dir v doff b) :
    ∃ fuel, dir.size ≤ doff + fuel ∧
      scan fs dir v (quiet d) = scanFrom fs dir v fuel doff b (quiet d) := by
  induction hv with
  | start => exact ⟨dir.size, by omega, rfl⟩
  | @next doff b b' bb hv hdoff hblock hhead hvisit ih =>
    obtain ⟨fuel, hfuel, heq⟩ := ih
    obtain ⟨fuel, rfl⟩ : ∃ k, fuel = k + 1 := ⟨fuel - 1, by omega⟩
    have hpos : 8 ≤ load bb (doff % E2_BSIZE + 4) 2 := hhead.1
    refine ⟨fuel, by omega, heq.trans ?_⟩
    rw [scanFrom, if_pos hdoff] at heq ⊢
    have hent := dirEntAt_quiet hblock
    rw [recordAt_eq] at hent
    by_cases hfits : RecordFits bb (doff % E2_BSIZE)
    · rw [if_neg (not_not.mpr hfits), if_pos hhead] at hent
      rw [bind_ok hent]
      simp only [hvisit]
    · rw [if_pos hfits] at hent
      rw [bind_error hent] at heq
      exact absurd ⟨_, heq⟩ hsafe

lemma scanFits_of_safe (hsafe : ¬ Oob (scan fs dir v) (quiet d)) : ScanFits fs d dir v := by
  intro doff b bb hv hdoff hblock
  by_contra hfits
  obtain ⟨fuel, hfuel, heq⟩ := scan_visits hsafe hv
  obtain ⟨fuel, rfl⟩ : ∃ k, fuel = k + 1 := ⟨fuel - 1, by omega⟩
  have hent := dirEntAt_quiet hblock
  rw [recordAt_eq, if_pos hfits] at hent
  rw [scanFrom, if_pos hdoff, bind_error hent] at heq
  exact hsafe ⟨_, heq⟩

/-- A scan that stays inside answers as the record that it hits says. -/
lemma scan_hits {a : α} (hsafe : ¬ Oob (scan fs dir v) (quiet d)) (h : Hits fs d dir v a) :
    scan fs dir v (quiet d) = (.ok a, quiet d) := by
  obtain ⟨doff, b, bb, hv, hdoff, hblock, hhead, hvisit⟩ := h
  obtain ⟨fuel, hfuel, heq⟩ := scan_visits hsafe hv
  obtain ⟨fuel, rfl⟩ : ∃ k, fuel = k + 1 := ⟨fuel - 1, by omega⟩
  have hfits := scanFits_of_safe hsafe doff b bb hv hdoff hblock
  have hent := dirEntAt_quiet hblock
  rw [recordAt_eq, if_neg (not_not.mpr hfits), if_pos hhead] at hent
  rw [heq, scanFrom, if_pos hdoff, bind_ok hent]
  simp only [hvisit]
  rfl

/-! ## The search for room -/

variable {bb : ℕ → UInt8} {need off : ℕ}

/-- The two tests for room are one. -/
lemma room_ite {α : Type} (bb : ℕ → UInt8) (need off : ℕ) (x y : α) :
    (if load bb off 4 ≠ 0 then
      if load bb (off + 4) 2 ≥ recNeed (load bb (off + 6) 1) + need then x else y
    else if load bb (off + 4) 2 ≥ need then x else y) = if HasRoom bb need off then x else y := by
  by_cases hlive : load bb off 4 ≠ 0
  · have hroom : HasRoom bb need off ↔
        load bb (off + 4) 2 ≥ recNeed (load bb (off + 6) 1) + need := by
      rw [HasRoom, if_pos hlive]
    rw [if_pos hlive]
    exact (if_congr hroom rfl rfl).symm
  · have hroom : HasRoom bb need off ↔ load bb (off + 4) 2 ≥ need := by
      rw [HasRoom, if_neg hlive]
    rw [if_neg hlive]
    exact (if_congr hroom rfl rfl).symm

/-- One round of the search, at a record whose length and name length are in the block. -/
lemma roomScan_round (fuel : ℕ) (hoff : off < E2_BSIZE) (hin : off + 7 ≤ E2_BSIZE) :
    roomScan bb need (fuel + 1) off =
      if 8 ≤ load bb (off + 4) 2 ∧ off + load bb (off + 4) 2 ≤ E2_BSIZE then
        if HasRoom bb need off then .ok (some off)
        else roomScan bb need fuel (off + load bb (off + 4) 2)
      else .error (.err .eio) := by
  have hhead : ∀ a ∈ [block (off + 4) 2, block (off + 6) 1], a.Inside := by
    simp only [forall_mem_cons, block_inside]
    exact ⟨by omega, by omega, fun _ hc => absurd hc not_mem_nil⟩
  rw [roomScan, if_pos hoff, access_inside hhead]
  show (if load bb (off + 4) 2 < 8 ∨ _ then _ else _) = _
  by_cases hlen : 8 ≤ load bb (off + 4) 2 ∧ off + load bb (off + 4) 2 ≤ E2_BSIZE
  · have hrest : ∀ a ∈ [block off 4], a.Inside := by
      intro a ha
      rw [mem_singleton.mp ha, block_inside]
      omega
    rw [if_neg (by omega), if_pos hlen, access_inside hrest]
    exact room_ite bb need off _ _
  · rw [if_pos (by omega), if_neg hlen]

lemma roomScan_out (fuel : ℕ) (hoff : off < E2_BSIZE) (hout : ¬ off + 7 ≤ E2_BSIZE) :
    roomScan bb need (fuel + 1) off = .error .oob := by
  have hhead : ¬ ∀ a ∈ [block (off + 4) 2, block (off + 6) 1], a.Inside := by
    intro h
    have hin := h (block (off + 6) 1) (by simp)
    rw [block_inside] at hin
    omega
  rw [roomScan, if_pos hoff, access_oob hhead]
  rfl

/-- The search ends. It leaves the block at a record that does not fit, it finds a record with
room, or the block is full. -/
lemma roomScan_spec (hw : Walks bb need off) (hle : off ≤ E2_BSIZE)
    (hfuel : E2_BSIZE ≤ off + fuel) :
    match roomScan bb need fuel off with
    | .ok (some x) => x + load bb (x + 4) 2 ≤ E2_BSIZE ∧ HasRoom bb need x
    | .ok none => Walks bb need E2_BSIZE
    | .error e => Orderly e ∨
        e = .oob ∧ ∃ x, Walks bb need x ∧ x < E2_BSIZE ∧ ¬ x + 7 ≤ E2_BSIZE := by
  induction fuel generalizing off with
  | zero =>
    obtain rfl : off = E2_BSIZE := by omega
    exact hw
  | succ fuel ih =>
    by_cases hoff : off < E2_BSIZE
    · by_cases hin : off + 7 ≤ E2_BSIZE
      · rw [roomScan_round fuel hoff hin]
        by_cases hlen : 8 ≤ load bb (off + 4) 2 ∧ off + load bb (off + 4) 2 ≤ E2_BSIZE
        · rw [if_pos hlen]
          by_cases hroom : HasRoom bb need off
          · rw [if_pos hroom]
            exact ⟨hlen.2, hroom⟩
          · rw [if_neg hroom]
            exact ih (hw.next hoff hlen hroom) hlen.2 (by omega)
        · rw [if_neg hlen]
          exact .inl ⟨.eio, rfl⟩
      · rw [roomScan_out fuel hoff hin]
        exact .inr ⟨rfl, off, hw, hoff, hin⟩
    · obtain rfl : off = E2_BSIZE := by omega
      rw [roomScan, if_neg hoff]
      exact hw

section

variable (hsafe : roomScan bb need E2_BSIZE 0 ≠ .error .oob)
include hsafe

/-- A search that stays inside comes to every offset of its walk. -/
lemma roomScan_walks (hw : Walks bb need off) : off ≤ E2_BSIZE ∧ ∃ fuel, E2_BSIZE ≤ off + fuel ∧
      roomScan bb need E2_BSIZE 0 = roomScan bb need fuel off := by
  induction hw with
  | start => exact ⟨Nat.zero_le _, E2_BSIZE, by omega, rfl⟩
  | @next off hw hoff hlen hroom ih =>
    obtain ⟨-, fuel, hfuel, heq⟩ := ih
    obtain ⟨fuel, rfl⟩ : ∃ k, fuel = k + 1 := ⟨fuel - 1, by omega⟩
    refine ⟨hlen.2, fuel, by omega, heq.trans ?_⟩
    by_cases hin : off + 7 ≤ E2_BSIZE
    · rw [roomScan_round fuel hoff hin, if_pos hlen, if_neg hroom]
    · rw [roomScan_out fuel hoff hin] at heq
      exact absurd heq hsafe

lemma roomScan_fits (hw : Walks bb need off) (hoff : off < E2_BSIZE) : off + 7 ≤ E2_BSIZE := by
  obtain ⟨-, fuel, hfuel, heq⟩ := roomScan_walks hsafe hw
  obtain ⟨fuel, rfl⟩ : ∃ k, fuel = k + 1 := ⟨fuel - 1, by omega⟩
  by_contra hin
  exact hsafe (heq.trans (roomScan_out fuel hoff hin))

lemma roomScan_full (hw : Walks bb need E2_BSIZE) : roomScan bb need E2_BSIZE 0 = .ok none := by
  obtain ⟨-, fuel, -, heq⟩ := roomScan_walks hsafe hw
  rw [heq]
  cases fuel with
  | zero => rw [roomScan, if_neg (Nat.lt_irrefl _)]
  | succ fuel => rw [roomScan, if_neg (Nat.lt_irrefl _)]

end

/-! ## Entries that are added -/

variable {alloc : Bool}

/-- A block that `bmap` finds lies below the largest file. -/
lemma bmap_fits (h : (bmap fs n fb alloc d).1 = .ok ab) :
    (fb + 1) % 2 ^ 32 * E2_BSIZE ≤ E2_MAX_FILE := by
  by_contra hbig
  rw [bmap, if_pos (Nat.lt_of_not_le hbig)] at h
  cases h

/-- The blocks of the largest file. -/
def maxBlocks : ℕ := E2_MAX_FILE / E2_BSIZE

lemma succ_le_maxBlocks (h : (bmap fs n fb alloc d).1 = .ok ab)
    (hfb : fb ≤ maxBlocks) : fb + 1 ≤ maxBlocks := by
  have hle : fb ≤ 16384 := hfb
  have hfits : (fb + 1) % 4294967296 * 1024 ≤ 16777216 := bmap_fits h
  show fb + 1 ≤ 16384
  omega

variable {bi : ℕ}

lemma Tries.le (h : Tries fs d dir need bi) : bi ≤ maxBlocks := by
  induction h with
  | start => exact Nat.zero_le _
  | @hole bi h hhole ih =>
    cases hbmap : (bmap fs dir bi false (quiet d)).1 with
    | error e =>
      rw [HoleAt, hbmap] at hhole
      cases hhole
    | ok ab => exact succ_le_maxBlocks hbmap ih
  | full h hblock hfull ih =>
    obtain ⟨ab, hab, -⟩ := blockAt_some hblock
    exact succ_le_maxBlocks hab ih

lemma lt_of_le_maxBlocks (h : bi ≤ maxBlocks) : bi < 2 ^ 32 :=
  Nat.lt_of_le_of_lt h (by decide)

/-- The search over the blocks. -/
lemma wp_dirRoom (hd : SameDev d₀ d) (ht : Tries fs d₀ dir need bi)
    (hk : bi + k = dir.size / E2_BSIZE) : wp (dirRoom fs dir need k bi)
      (fun r d' => SameDev d₀ d' ∧ match r with
        | some (_, bb, off) => off + load bb (off + 4) 2 ≤ E2_BSIZE ∧ HasRoom bb need off
        | none => dir.size / E2_BSIZE ≤ maxBlocks)
      (fun e _ => Orderly e ∨ e = .oob ∧ ¬ RoomFits fs d₀ dir need) d := by
  induction k generalizing d bi with
  | zero =>
    refine ⟨hd, ?_⟩
    rw [← hk]
    exact ht.le
  | succ k ih =>
    rw [dirRoom]
    refine (wp_bmapFind (lt_of_le_maxBlocks ht.le)).bind (fun ab d₁ hab => ?_) fun e _ he => .inl he
    obtain ⟨hd₁, hab⟩ := hab
    rw [hd.quiet_eq] at hab
    by_cases h0 : ab = 0
    · rw [if_pos h0]
      have hhole : HoleAt fs d₀ dir bi := by
        rw [HoleAt, hab, h0]
        rfl
      exact ih (hd.trans hd₁) (ht.hole hhole) (by omega)
    rw [if_neg h0]
    refine wp_bind.mpr (wp_lift.mpr (wp_of_run ?_ fun e _ _ => .inl ⟨e, rfl⟩))
    intro bb d₂ hread
    obtain ⟨hd₂, rfl⟩ := blkRead_inv hread
    have hsame := hd.trans hd₁
    have hblock := blockAt_of hab h0 (hsame.nsect ▸ blkRead_lt hread)
    rw [← hsame.blkView] at hblock
    have hstart : Walks (blkView d₁ ab) need 0 := .start
    have hscan := roomScan_spec hstart (Nat.zero_le _) (Nat.le_of_eq (Nat.zero_add E2_BSIZE).symm)
    generalize hroom : roomScan (blkView d₁ ab) need E2_BSIZE 0 = r at hscan
    rcases r with e | _ | off
    · refine wp_bind.mpr (wp_ofExcept_error.mpr (hscan.imp_right fun hout => ?_))
      obtain ⟨rfl, x, hwalk, hlt, hout⟩ := hout
      exact ⟨rfl, fun hall => hout (hall bi _ x ht (by omega) hblock hwalk hlt)⟩
    · exact ih (hsame.trans hd₂) (ht.full hblock hscan) (by omega)
    · exact ⟨hsame.trans hd₂, hscan⟩

/-- On a device that does not fail the search in the block decides. -/
lemma dirRoom_block (need k : ℕ) (hbi : bi < 2 ^ 32) (h : blockAt fs d dir bi = some bb) :
    ∃ ab, dirRoom fs dir need (k + 1) bi (quiet d) =
      match roomScan bb need E2_BSIZE 0 with
      | .error e => (.error e, quiet d)
      | .ok (some off) => (.ok (some (ab, bb, off)), quiet d)
      | .ok none => dirRoom fs dir need k (bi + 1) (quiet d) := by
  obtain ⟨ab, hab, h0, hin, rfl⟩ := blockAt_some h
  have hget : getBlock ab (quiet d) = (.ok (blkView d ab), quiet d) := blkRead_quiet hin
  refine ⟨ab, ?_⟩
  rw [dirRoom, bind_ok (bmapFind_quiet hbi hab), if_neg h0, bind_ok (lift_ok hget)]
  rcases roomScan (blkView d ab) need E2_BSIZE 0 with e | _ | off
  · rfl
  · rfl
  · rfl

/-- A search that stays inside comes to every block that it tries. -/
lemma dirRoom_tries
    (hsafe : ¬ Oob (dirRoom fs dir need (dir.size / E2_BSIZE) 0) (quiet d))
    (ht : Tries fs d dir need bi) (hbi : bi ≤ dir.size / E2_BSIZE) :
    dirRoom fs dir need (dir.size / E2_BSIZE) 0 (quiet d)
      = dirRoom fs dir need (dir.size / E2_BSIZE - bi) bi (quiet d) := by
  induction ht with
  | start => rfl
  | @hole bi ht hhole ih =>
    rw [ih (by omega)]
    obtain ⟨k, hk⟩ : ∃ k, dir.size / E2_BSIZE - bi = k + 1 := 
      Nat.exists_eq_succ_of_ne_zero (by omega)
    have hrest : dir.size / E2_BSIZE - (bi + 1) = k := by omega
    have hab : (bmap fs dir bi false (quiet d)).1 = .ok 0 := by
      unfold HoleAt at hhole
      cases hbmap : (bmap fs dir bi false (quiet d)).1 with
      | error e =>
        rw [hbmap] at hhole
        cases hhole
      | ok ab =>
        rw [hbmap] at hhole
        exact congrArg _ (Option.some.inj hhole)
    rw [hk, hrest, dirRoom, bind_ok (bmapFind_quiet (lt_of_le_maxBlocks ht.le) hab), if_pos rfl]
  | @full bi bb ht hblock hfull ih =>
    have heq := ih (by omega)
    obtain ⟨k, hk⟩ : ∃ k, dir.size / E2_BSIZE - bi = k + 1 := 
      Nat.exists_eq_succ_of_ne_zero (by omega)
    have hrest : dir.size / E2_BSIZE - (bi + 1) = k := by omega
    obtain ⟨ab, hround⟩ := dirRoom_block need k (lt_of_le_maxBlocks ht.le) hblock
    rw [hk, hround] at heq
    by_cases hout : roomScan bb need E2_BSIZE 0 = .error .oob
    · rw [hout] at heq
      exact absurd ⟨_, heq⟩ hsafe
    · rw [roomScan_full hout hfull] at heq
      rw [heq, hrest]

lemma roomFits_of_safe (hsafe : ¬ Oob (dirRoom fs dir need (dir.size / E2_BSIZE) 0) (quiet d)) :
    RoomFits fs d dir need := by
  intro bi bb off ht hbi hblock hwalk hoff
  have heq := dirRoom_tries hsafe ht (Nat.le_of_lt hbi)
  obtain ⟨k, hk⟩ : ∃ k, dir.size / E2_BSIZE - bi = k + 1 := 
      Nat.exists_eq_succ_of_ne_zero (by omega)
  obtain ⟨ab, hround⟩ := dirRoom_block need k (lt_of_le_maxBlocks ht.le) hblock
  rw [hk, hround] at heq
  refine roomScan_fits (fun hout => hsafe ?_) hwalk hoff
  rw [hout] at heq
  exact ⟨_, heq⟩

/-- The inode that `bmap` answers with keeps its number. -/
lemma bmapRun_ino {x : ℕ × Inode} (h : bmapRun fs n fb alloc d = (.ok x, d')) :
    x.2.ino = n.ino := by
  unfold bmapRun at h
  split at h
  · rename_i ab d₁ n₁ hrun
    cases h
    unfold bmap at hrun
    split_ifs at hrun
    · cases hrun
    simp only at hrun
    split at hrun
    · cases hrun
    split_ifs at hrun
    · split at hrun
      · cases hrun
      · cases hrun
        rfl
    · cases hrun
      rfl
  · cases h

lemma entAccesses_inside {nlen : ℕ} (h : off + recNeed nlen ≤ E2_BSIZE) :
    ∀ a ∈ entAccesses off nlen, a.Inside := by
  have hneed : 8 + nlen ≤ recNeed nlen := by
    unfold recNeed
    omega
  simp only [entAccesses, forall_mem_cons, block_inside]
  exact ⟨by omega, by omega, by omega, by omega, by omega, fun _ hc => absurd hc not_mem_nil⟩

/-- An addition leaves its block only when no record has room that fits. -/
lemma wp_dirAddEntry {name : List UInt8} {ftype : ℕ} (hgroups : fs.ngroups ≤ E2_NGROUP_MAX)
    (hdir : inoGroup dir.ino < E2_NGROUP_MAX) (hname : name.length < 255) (hd : SameDev d₀ d) :
    wp (dirAddEntry fs dir ino name ftype) (fun _ _ => True)
      (fun e _ => Orderly e ∨ e = .oob ∧ ¬ RoomFits fs d₀ dir (recNeed name.length)) d := by
  have hlift {α : Type} (x : Prog Errno Dev α) (d : Dev) : wp (lift x) (fun _ _ => True)
      (fun e _ => Orderly e ∨ e = .oob ∧ ¬ RoomFits fs d₀ dir (recNeed name.length)) d :=
    wp_lift.mpr (wp_of_run (fun _ _ _ => trivial) fun e _ _ => .inl ⟨e, rfl⟩)
  refine (wp_dirRoom hd .start (Nat.zero_add _)).bind (fun r d₁ hr => ?_) fun e _ he => he
  rcases r with _ | ⟨ab, bb, off⟩
  · -- a new block: the walk, the bitmaps and the record of the directory are inside
    have hall : ∀ a ∈ walkAccesses (dir.size / E2_BSIZE) ++ ballocAccesses fs ++
        storeAccesses fs dir.ino, a.Inside := by
      intro a ha
      rcases mem_append.mp ha with ha | ha
      · rcases mem_append.mp ha with ha | ha
        · exact walkAccesses_inside (lt_of_le_maxBlocks hr.2) a ha
        · exact ballocAccesses_inside hgroups a ha
      · exact storeAccesses_inside hdir a ha
    have hent : ∀ a ∈ entAccesses 0 name.length, a.Inside := by
      refine entAccesses_inside ?_
      show 0 + (8 + name.length + 3) / 4 * 4 ≤ 1024
      omega
    simp only [bmapAlloc, access_inside hall]
    refine wp_bind.mpr (wp_bind.mpr (wp_ofExcept_ok.mpr (wp_lift.mpr (wp_of_run ?_
      fun e _ _ => .inl ⟨e, rfl⟩))))
    intro x d₂ hrun
    have hino : inoGroup x.2.ino < E2_NGROUP_MAX := by
      rw [bmapRun_ino hrun]
      exact hdir
    rw [access_inside hent]
    refine wp_bind.mpr (wp_ofExcept_ok.mpr (wp_bind.mpr ((hlift _ _).mono ?_ fun _ _ he => he)))
    intro _ d₃ _
    rw [access_inside (storeAccesses_inside hino)]
    exact wp_bind.mpr (wp_ofExcept_ok.mpr (hlift _ _))
  · obtain ⟨-, hin, hroom⟩ := hr
    unfold HasRoom at hroom
    by_cases hlive : load bb off 4 ≠ 0
    · rw [if_pos hlive] at hroom
      have hneed : 8 ≤ recNeed name.length := by
        unfold recNeed
        omega
      have hent : ∀ a ∈ block off 2 ::
          entAccesses (off + recNeed (load bb (off + 6) 1)) name.length, a.Inside := by
        rw [forall_mem_cons]
        exact ⟨block_inside.mpr (by omega), entAccesses_inside (by omega)⟩
      simp only [if_pos hlive, access_inside hent]
      exact wp_bind.mpr (wp_ofExcept_ok.mpr (hlift _ _))
    · rw [if_neg hlive] at hroom
      have hent : ∀ a ∈ entAccesses off name.length, a.Inside := entAccesses_inside (by omega)
      simp only [if_neg hlive, access_inside hent]
      exact wp_bind.mpr (wp_ofExcept_ok.mpr (hlift _ _))

/-! ## Entries that are removed -/

/-- The walk to the record in front of one that ends inside the block. -/
lemma prevScan_spec (bb : ℕ → UInt8) {inBlock : ℕ} (hin : inBlock + 8 ≤ E2_BSIZE)
    (hfuel : inBlock ≤ off + fuel) :
    match prevScan bb inBlock fuel off with
    | .ok _ => True
    | .error e => Orderly e := by
  induction fuel generalizing off with
  | zero =>
    rw [prevScan, if_neg (by omega)]
    exact ⟨.eio, rfl⟩
  | succ fuel ih =>
    by_cases hoff : off < inBlock
    · have hlen : ∀ a ∈ [block (off + 4) 2], a.Inside := by
        intro a ha
        rw [mem_singleton.mp ha, block_inside]
        omega
      have hnum : ∀ a ∈ [block off 2], a.Inside := by
        intro a ha
        rw [mem_singleton.mp ha, block_inside]
        omega
      have hround : prevScan bb inBlock (fuel + 1) off =
          if load bb (off + 4) 2 < 8 ∨ off + load bb (off + 4) 2 > E2_BSIZE then
            .error (.err .eio)
          else if off + load bb (off + 4) 2 = inBlock then .ok off
          else prevScan bb inBlock fuel (off + load bb (off + 4) 2) := by
        rw [prevScan, if_pos hoff, access_inside hlen, access_inside hnum]
        rfl
      rw [hround]
      by_cases hstop : load bb (off + 4) 2 < 8 ∨ off + load bb (off + 4) 2 > E2_BSIZE
      · rw [if_pos hstop]
        exact ⟨.eio, rfl⟩
      rw [if_neg hstop]
      by_cases hend : off + load bb (off + 4) 2 = inBlock
      · rw [if_pos hend]
        trivial
      · rw [if_neg hend]
        exact ih (by omega)
    · rw [prevScan, if_neg hoff]
      exact ⟨.eio, rfl⟩

lemma wp_dirRemoveEntry (hdoff : doff % E2_BSIZE + 8 ≤ E2_BSIZE) :
    wp (dirRemoveEntry fs dir doff) (fun _ _ => True) (fun e _ => Orderly e) d := by
  have hlift {α : Type} (x : Prog Errno Dev α) (d : Dev) :
      wp (lift x) (fun _ _ => True) (fun e _ => Orderly e) d :=
    wp_lift.mpr (wp_of_run (fun _ _ _ => trivial) fun e _ _ => ⟨e, rfl⟩)
  refine (wp_bmapFind (blockOf_lt doff)).bind (fun ab d₁ _ => ?_) fun e _ he => he
  by_cases h0 : ab = 0
  · rw [if_pos h0]
    exact ⟨.eio, rfl⟩
  rw [if_neg h0]
  refine (hlift (getBlock ab) d₁).bind (fun bb d₂ _ => ?_) fun e _ he => he
  have hlen : ∀ a ∈ [block (doff % E2_BSIZE + 4) 2], a.Inside := by
    intro a ha
    rw [mem_singleton.mp ha, block_inside]
    omega
  rw [access_inside hlen]
  refine wp_bind.mpr (wp_ofExcept_ok.mpr ?_)
  by_cases hfirst : doff % E2_BSIZE = 0
  · have hnum : ∀ a ∈ [block 0 4], a.Inside := by decide
    rw [if_pos hfirst, access_inside hnum]
    exact wp_bind.mpr (wp_ofExcept_ok.mpr (hlift _ _))
  · rw [if_neg hfirst]
    have hprev := prevScan_spec bb hdoff (show doff % E2_BSIZE ≤ 0 + E2_BSIZE by omega)
    generalize prevScan bb (doff % E2_BSIZE) E2_BSIZE 0 = r at hprev
    cases r with
    | error e => exact wp_bind.mpr hprev
    | ok off => exact wp_bind.mpr (wp_ofExcept_ok.mpr (hlift _ _))

/-! ## Inodes -/

lemma wp_inodeLoad (fs : E2Fs) (ino : ℕ) (d : Dev) : wp (inodeLoad fs ino)
    (fun n _ => n.ino = ino ∧ inoGroup ino < E2_NGROUP_MAX)
    (fun e _ => Orderly e ∨ e = .oob ∧ ¬ inoGroup ino < E2_NGROUP_MAX) d := by
  refine wp_bind.mpr (wp_bind.mpr ?_)
  by_cases hg : inoGroup ino < E2_NGROUP_MAX
  · have hgrp : ∀ a ∈ [grp (inoGroup ino)], a.Inside := by
      intro a ha
      rw [mem_singleton.mp ha]
      exact grp_inside.mpr hg
    rw [access_inside hgrp, access_inside (recordAccesses_inside fs ino),
      access_inside fieldAccesses_inside]
    refine wp_ofExcept_ok.mpr (wp_bind.mpr (wp_ofExcept_ok.mpr (wp_lift.mpr (wp_of_run ?_ ?_))))
    · exact fun raw d' _ => wp_bind.mpr (wp_ofExcept_ok.mpr ⟨rfl, hg⟩)
    · exact fun e d' _ => .inl ⟨e, rfl⟩
  · have hgrp : ¬ ∀ a ∈ [grp (inoGroup ino)], a.Inside := fun h =>
      hg (grp_inside.mp (h _ (mem_singleton.mpr rfl)))
    rw [access_oob hgrp]
    exact .inr ⟨rfl, hg⟩

lemma inodeLoad_oob (fs : E2Fs) (d : Dev) (hg : ¬ inoGroup ino < E2_NGROUP_MAX) : Oob (inodeLoad fs ino) d := by
  have hgrp : ¬ ∀ a ∈ [grp (inoGroup ino)], a.Inside := fun h =>
    hg (grp_inside.mp (h _ (mem_singleton.mpr rfl)))
  unfold inodeLoad inodeGather
  rw [access_oob hgrp]
  exact Oob.bind ⟨d, rfl⟩ _

/-! ## Calls -/

/-- No hit of `dir_find` is without an entry. -/
lemma wp_lookup {km : Kmem} {name : List UInt8} (hd : SameDev d₀ d) :
    wp (Checked.lookup fs km dir name) (fun n _ => inoGroup n.ino < E2_NGROUP_MAX)
      (fun e _ => Orderly e ∨ e = .oob ∧ ¬ (Call.lookup km dir name).Fits fs d₀) d := by
  unfold Checked.lookup
  by_cases hname : name = []
  · rw [if_pos hname]
    exact .inl ⟨.enoent, rfl⟩
  rw [if_neg hname]
  refine (wp_scan hd).bind (fun r d₁ hr => ?_) fun e _ he => ?_
  · cases r with
    | none => exact .inl ⟨.enoent, rfl⟩
    | some x =>
      simp only
      obtain ⟨hd₁, hhit | ⟨b, hend⟩⟩ := hr
      · by_cases hmem : km.inode = false
        · rw [if_pos hmem]
          exact .inl ⟨.enomem, rfl⟩
        rw [if_neg hmem]
        refine (wp_inodeLoad fs x.2.ino d₁).bind (fun n d₂ hn => ?_) fun e _ he => ?_
        · split_ifs
          · exact .inl ⟨.enomem, rfl⟩
          · rw [← hn.1] at hn
            exact hn.2
        · refine he.imp_right fun he => ⟨he.1, fun hall => he.2 ?_⟩
          exact (hall hname).2 (Bool.eq_true_of_not_eq_false hmem) x hhit
      · cases hend
  · exact he.imp_right fun he => ⟨he.1, fun hall => he.2 (hall hname).1⟩

/-- Every call ends, and leaves its arrays only where the contents of the disk do not fit. -/
lemma wp_run (hgroups : fs.ngroups ≤ E2_NGROUP_MAX) (call : Call) (hd : SameDev d₀ d) :
    wp (call.run fs) (fun _ _ => True)
      (fun e _ => Orderly e ∨ e = .oob ∧ ¬ call.Fits fs d₀) d := by
  cases call with
  | load ino =>
    exact (wp_inodeLoad fs ino d).bind (fun _ _ _ => trivial) fun e _ he => he
  | lookup km dir name =>
    exact (wp_lookup hd).bind (fun _ _ _ => trivial) fun e _ he => he
  | readdir dir idx =>
    refine wp.bind (Q := fun _ _ => True) ?_ (fun _ _ _ => trivial) fun e _ he => he
    refine (wp_scan hd).bind (fun r d₁ _ => ?_) fun e _ he => he
    cases r with
    | none => exact .inl ⟨.enoent, rfl⟩
    | some ent => trivial
  | isEmpty dir =>
    refine wp.bind (Q := fun _ _ => True) (wp_rescue ?_) (fun _ _ _ => trivial) fun e _ he => he
    refine (wp_scan hd).mono (fun _ _ _ => trivial) fun e _ he => ?_
    rcases he with ⟨e', rfl⟩ | ⟨rfl, hfits⟩
    · exact .inl ⟨e', rfl, trivial⟩
    · exact .inr ⟨fun _ => by simp, .inr ⟨rfl, hfits⟩⟩
  | add dir ino name ftype hname => exact wp_dirAddEntry hgroups dir.group hname hd
  | remove dir doff hdoff =>
    exact (wp_dirRemoveEntry hdoff).mono (fun _ _ _ => trivial) fun e _ he => .inl he

/-- A call that stays inside on a device that does not fail. -/
lemma fits_of_safe (call : Call) (hsafe : ¬ Oob (call.run fs) (quiet d)) : call.Fits fs d := by
  cases call with
  | load ino =>
    by_contra hg
    exact hsafe ((inodeLoad_oob fs (quiet d) hg).bind _)
  | lookup km dir name =>
    intro hname
    have hscan : ¬ Oob (scan fs dir (findScan name)) (quiet d) := by
      intro hout
      refine hsafe (Oob.bind ?_ _)
      rw [Checked.lookup, if_neg hname]
      exact hout.bind _
    refine ⟨scanFits_of_safe hscan, fun hmem x hhit => ?_⟩
    by_contra hg
    refine hsafe (Oob.bind ?_ _)
    have hfind : dirFind fs dir name (quiet d) = (.ok (some x), quiet d) := scan_hits hscan hhit
    obtain ⟨d', hload⟩ := (inodeLoad_oob fs (quiet d) hg).bind fun n =>
      if km.shell = false then fail (.err .enomem) else pure n
    refine ⟨d', ?_⟩
    rw [Checked.lookup, if_neg hname, bind_ok hfind]
    simp only [hmem, Bool.true_eq_false, if_false]
    exact hload
  | readdir dir idx => exact scanFits_of_safe fun hout => hsafe ((hout.bind _).bind _)
  | isEmpty dir => exact scanFits_of_safe fun hout => hsafe ((hout.rescue true).bind _)
  | add dir ino name ftype hname => exact roomFits_of_safe fun hout => hsafe (hout.bind _)
  | remove dir doff hdoff => trivial

/-! ## Mounted volumes -/

lemma sbParse_groups {sb : ℕ → UInt8} {x : ℕ × ℕ} (h : sbParse sb = .ok x) :
    x.2 ≤ E2_NGROUP_MAX := by
  unfold sbParse at h
  split_ifs at h
  dsimp only at h
  split_ifs at h with hblocks hgroups
  cases h
  exact Nat.le_of_not_lt (not_or.mp hgroups).2

lemma mount_groups {km : MountMem} {root : Inode} (h : mount km d = (.ok (fs, root), d')) :
    fs.ngroups ≤ E2_NGROUP_MAX ∧ root.ino = E2_ROOT_INO := by
  have hmount : wp (mount km) (fun x _ => x.1.ngroups ≤ E2_NGROUP_MAX ∧ x.2.ino = E2_ROOT_INO)
      (fun _ _ => True) d := by
    refine wp_bind.mpr (wp_of_run (fun sb d₁ _ => ?_) fun _ _ _ => trivial)
    cases hparse : sbParse sb with
    | error e => trivial
    | ok x =>
      obtain ⟨blocks, ngroups⟩ := x
      by_cases hbig : 2 + gdtBlocks ngroups + ngroups * (3 + E2_IPG / 8) > blocks
      · simp only [if_pos hbig]
        trivial
      by_cases hmem : km.fs = false
      · simp only [if_neg hbig, if_pos hmem]
        trivial
      simp only [if_neg hbig, if_neg hmem]
      refine wp_bind.mpr (wp_of_run (fun grp d₂ _ => ?_) fun _ _ _ => trivial)
      by_cases hinode : km.inode = false
      · rw [if_pos hinode]
        trivial
      rw [if_neg hinode]
      refine wp_bind.mpr (wp_of_run (fun root d₃ hload => ?_) fun _ _ _ => trivial)
      obtain ⟨-, rfl⟩ := inodeLoad_inv hload
      split_ifs
      · trivial
      · trivial
      · exact ⟨sbParse_groups hparse, rfl⟩
  exact hmount.ok h

/-- On a mounted volume, whatever is on the disk, every call ends; and whichever transfers fail,
it indexes inside its arrays exactly when the contents fit. -/
theorem mounted_inside {km : MountMem} {root : Inode} (hmount : mount km d₀ = (.ok (fs, root), d'))
    (call : Call) (d : Dev) : ¬ Spins (call.run fs) d ∧
      ((∀ faults, ¬ Oob (call.run fs) { d with faults := faults }) ↔ call.Fits fs d) := by
  have hgroups := (mount_groups hmount).1
  constructor
  · refine (wp_run hgroups call (.refl d)).not_spins fun s' he => ?_
    rcases he with ⟨e', he⟩ | ⟨he, -⟩
    · cases he
    · cases he
  · constructor
    · exact fun hsafe => fits_of_safe call (hsafe [])
    · intro hfits faults
      have hsame : SameDev d { d with faults := faults } := ⟨rfl, rfl⟩
      refine (wp_run hgroups call hsame).not_oob fun s' he => ?_
      rcases he with ⟨e', he⟩ | ⟨-, hout⟩
      · cases he
      · exact hout hfits

/-! ## A crafted card -/

theorem mounted_inside_fresh : ∃ d₁ fs root, mount allMem freshDev = (.ok (fs, root), d₁) ∧
    ¬ Spins ((Call.lookup ⟨true, true⟩ root [97]).run fs) d₁ ∧
      ((∀ faults, ¬ Oob ((Call.lookup ⟨true, true⟩ root [97]).run fs) { d₁ with faults := faults }) ↔
        (Call.lookup ⟨true, true⟩ root [97]).Fits fs d₁) :=
  ⟨mountedDev, freshMount.1, freshMount.2, mount_fresh, mounted_inside mount_fresh _ mountedDev⟩

/-- The volume with a first record of 1019 bytes in the root directory. -/
@[irreducible] def craftedDev : Dev :=
  { freshDev with data := put freshDev.data (rootBlock * E2_BSIZE + 4) 2 1019 }

/-- Its geometry and root directory. -/
@[irreducible] def craftedMount : E2Fs × Inode :=
  (mount allMem craftedDev).1.toOption.getD (⟨0, 0, fun _ => ⟨0, 0, 0⟩⟩, ⟨0, false, 0, 0, fun _ => 0⟩)

/-- The volume is mounted, and a lookup reads the length of a record behind the block. -/
theorem mounted_outside : ∃ d₁ fs root, mount allMem craftedDev = (.ok (fs, root), d₁) ∧
    Oob ((Call.lookup ⟨true, true⟩ root [97]).run fs) d₁ := by
  have hok : (mount allMem craftedDev).1.toOption.isSome = true := by decide +kernel
  have hmount : mount allMem craftedDev
      = (.ok (craftedMount.1, craftedMount.2), (mount allMem craftedDev).2) := by
    unfold craftedMount
    exact ok_of_isSome _ hok
  have hout : leftArray ((Call.lookup ⟨true, true⟩ craftedMount.2 [97]).run craftedMount.1
      (mount allMem craftedDev).2) = true := by decide +kernel
  exact ⟨_, _, _, hmount, oob_of_leftArray hout⟩

end Checked
end Ext2
end Fs
end MobilePhoneOs
