import MobilePhoneOs.Drivers.BlockRace
import MobilePhoneOs.Drivers.BlockTheorems

/-!
# When the lines of the block cache are right

A step changes one line, one device, or nothing the law speaks of; for each kind the law after
it is the condition on it. The runs in which no valid line ever differs from its sector are
therefore exactly those whose steps meet the condition, and the same holds of the law that
leaves out the lines whose update is under way.
-/

namespace MobilePhoneOs.Block.Race

open Mem Blk

variable {ι : Type} [DecidableEq ι] {s t : State ι} {a : Act ι}

/-! ## What stays true without any condition -/

/-- Valid lines stand at their place, a caller that works on a cache owns it through its
device, and the lock has one holder. -/
structure Inv (s : State ι) : Prop where
  placed : ∀ c idx, (s.blk.caches c idx).valid →
    (s.blk.caches c idx).lba % CACHE_ENTRIES = idx
  fetcher : ∀ {k w c}, s.phase k = .fetched w c → s.blk.cache_for w.req.bd = some c
  filler : ∀ {k w c chunk i}, s.phase k = .fill w c chunk i → s.blk.cache_for w.req.bd = some c
  alone : ∀ {k k' w w' c}, s.phase k = .fetched w c → s.phase k' = .fetched w' c → k = k'

variable {b : Blk} {c idx : ℕ}

variable {cl : CacheLine}

/-- The lines stay placed when one line is set to a placed one. -/
lemma placed_setLine
    (h : ∀ c idx, (b.caches c idx).valid → (b.caches c idx).lba % CACHE_ENTRIES = idx)
    (hcl : cl.valid → cl.lba % CACHE_ENTRIES = idx) :
    ∀ c' i, ((b.setLine c idx cl).caches c' i).valid →
      ((b.setLine c idx cl).caches c' i).lba % CACHE_ENTRIES = i := by
  intro c' i
  by_cases hat : c' = c ∧ i = idx
  · obtain ⟨rfl, rfl⟩ := hat
    rw [setLine_self]
    exact hcl
  · rw [setLine_other hat]
    exact h c' i

lemma move_phase (k : ι) (p : Phase) (b : Blk) : (s.move k p b).phase k = p := by
  simp [State.move]

variable {k : ι}

variable {j : ι}

lemma move_other (h : j ≠ k) (p : Phase) (b : Blk) : (s.move k p b).phase j = s.phase j := by
  simp [State.move, h]

variable {p : Phase}

/-- A caller moves to a phase that keeps the rules. -/
lemma Inv.move (h : Inv s) (hreg : b.bdevs = s.blk.bdevs)
    (hplaced : ∀ c idx, (b.caches c idx).valid → (b.caches c idx).lba % CACHE_ENTRIES = idx)
    (hfetch : ∀ {w c}, p = .fetched w c → s.blk.cache_for w.req.bd = some c ∧ s.Free c)
    (hfill : ∀ {w c chunk i}, p = .fill w c chunk i → s.blk.cache_for w.req.bd = some c) :
    Inv (s.move k p b) := by
  have hcache : ∀ bd, (s.move k p b).blk.cache_for bd = s.blk.cache_for bd := fun bd => by
    show b.cache_for bd = _
    rw [cache_for, hreg, cache_for]
  refine ⟨hplaced, fun {j w c} hj => ?_, fun {j w c chunk i} hj => ?_, fun {j j' w w' c} hj hj' => ?_⟩
  · rw [hcache]
    by_cases hjk : j = k
    · subst hjk
      rw [move_phase] at hj
      exact (hfetch hj).1
    · rw [move_other hjk] at hj
      exact h.fetcher hj
  · rw [hcache]
    by_cases hjk : j = k
    · subst hjk
      rw [move_phase] at hj
      exact hfill hj
    · rw [move_other hjk] at hj
      exact h.filler hj
  · by_cases hjk : j = k
    · subst hjk
      by_cases hjk' : j' = j
      · exact hjk'.symm
      · rw [move_phase] at hj
        rw [move_other hjk'] at hj'
        exact absurd hj' ((hfetch hj).2 j' w')
    · rw [move_other hjk] at hj
      by_cases hjk' : j' = k
      · subst hjk'
        rw [move_phase] at hj'
        exact absurd hj ((hfetch hj').2 j w)
      · rw [move_other hjk'] at hj'
        exact h.alone hj hj'

variable {w : Work}

/-- A read through the cache goes through the cache of its device. -/
lemma through_eq (h : w.through b = some c) :
    b.cache_for w.req.bd = some c ∧ w.req.write = false := by
  unfold Work.through at h
  split at h
  · rename_i hc
    exact ⟨h, by simpa using hc.1⟩
  · cases h

lemma write_blocks_caches (b : Blk) (bd lba n : ℕ) (buf : ℕ → UInt8) (x : Xfer) :
    (b.write_blocks bd lba n buf x).2.caches = b.caches := by
  cases x <;> rfl

lemma write_blocks_bdevs (b : Blk) (bd lba n : ℕ) (buf : ℕ → UInt8) (x : Xfer) :
    (b.write_blocks bd lba n buf x).2.bdevs = b.bdevs := by
  cases x <;> rfl

variable {bd lba : ℕ}

variable {x : Xfer}

/-- A write touches no other device. -/
lemma write_blocks_other {bd' n : ℕ} {buf : ℕ → UInt8}
    (h : bd' ≠ bd) : (b.write_blocks bd lba n buf x).2.content bd' = b.content bd' := by
  cases x <;> simp [write_blocks, h]

/-- The rules need no condition. -/
lemma Inv.step (h : Inv s) (hstep : Step s a t) : Inv t := by
  cases hstep with
  | call call hk =>
    refine h.move rfl h.placed ?_ ?_
    all_goals
      intros
      cases call <;> simp only [enter, enter.go] at * <;> split at * <;> try split at *
      all_goals contradiction
  | done hk hleft =>
    refine h.move rfl h.placed ?_ ?_
    all_goals
      intros
      simp only [Work.finish] at *
      split at * <;> contradiction
  | hit hk hleft hc hfree hdata =>
    exact h.move rfl h.placed (fun hp => by cases hp) fun hp => by cases hp
  | @miss k w c x hk hleft hc hfree hmiss =>
    refine h.move rfl (placed_setLine h.placed (h.placed c _)) (fun hp => ?_) fun hp => ?_
    · split at hp
      · cases hp
        exact ⟨(through_eq hc).1, hfree⟩
      · cases hp
    · split at hp <;> cases hp
  | @tag k w c hk =>
    exact h.move rfl (placed_setLine h.placed fun _ => rfl) (fun hp => by cases hp) fun hp => by
      cases hp
  | read x hk hleft hc hw =>
    refine h.move rfl h.placed (fun hp => ?_) fun hp => ?_
    all_goals split at hp <;> cases hp
  | @write k w x hk hleft hw =>
    refine h.move (write_blocks_bdevs _ _ _ _ _ _) ?_ (fun hp => ?_) fun hp => ?_
    · rw [write_blocks_caches]
      exact h.placed
    · split at hp
      · split at hp <;> cases hp
      · cases hp
    · split at hp
      · split at hp
        · rename_i hc
          cases hp
          exact hc
        · cases hp
      · cases hp
  | @fill k w c chunk i hk hi hfree =>
    refine h.move rfl (placed_setLine h.placed fun _ => rfl) (fun hp => by cases hp) fun hp => ?_
    cases hp
    exact h.filler hk
  | filled hk => exact h.move rfl h.placed (fun hp => by cases hp) fun hp => by cases hp

/-! ## The literal law -/

/-- A copied sector is held where the copied bytes are. -/
lemma holds_copy {old data : ℕ → UInt8} :
    b.Holds bd lba (copy old 0 BLK_SECTOR_SIZE data) ↔ b.Holds bd lba data := by
  constructor
  · exact fun h i hi => (copy_zero hi).symm.trans (h i hi)
  · exact fun h i hi => (copy_zero hi).trans (h i hi)

/-- Setting a line keeps the law when the line meets it. -/
lemma exact_line (h : Exact s)
    (hc : s.blk.cache_for bd = some c) :
    Exact (s.move k p (s.blk.setLine c idx cl)) ↔
      (cl.valid → s.blk.Holds bd cl.lba cl.data) := by
  constructor
  · intro hex hv
    have hself : (s.blk.setLine c idx cl).caches c idx = cl := setLine_self
    have hline := hex bd c idx hc
    have hline : (s.blk.setLine c idx cl |>.caches c idx).valid → s.blk.Holds bd
        (s.blk.setLine c idx cl |>.caches c idx).lba
        (s.blk.setLine c idx cl |>.caches c idx).data := hline
    rw [hself] at hline
    exact hline hv
  · intro hcl bd' c' i hc' hv
    change ((s.blk.setLine c idx cl).caches c' i).valid at hv
    show s.blk.Holds bd' ((s.blk.setLine c idx cl).caches c' i).lba
      ((s.blk.setLine c idx cl).caches c' i).data
    by_cases hat : c' = c ∧ i = idx
    · obtain ⟨rfl, rfl⟩ := hat
      have hbd : bd' = bd := cache_for_inj (s := s.blk) hc' hc
      rw [setLine_self] at hv ⊢
      rw [hbd]
      exact hcl hv
    · rw [setLine_other hat] at hv ⊢
      exact h bd' c' i hc' hv

/-- A write keeps the law when it leaves the sectors of the valid lines as they are. -/
lemma exact_write (h : Exact s) :
    Exact (s.move k p (s.blk.write_blocks w.req.bd w.cur (w.chunk s.blk) (w.sector 0) x).2) ↔
      ∀ c idx, s.blk.cache_for w.req.bd = some c → (s.blk.caches c idx).valid →
        Leaves s.blk w x (s.blk.caches c idx).lba := by
  set b := (s.blk.write_blocks w.req.bd w.cur (w.chunk s.blk) (w.sector 0) x).2 with hb
  have hca : b.caches = s.blk.caches := write_blocks_caches _ _ _ _ _ _
  have hcf : ∀ bd, b.cache_for bd = s.blk.cache_for bd := fun bd => by
    rw [cache_for, hb, write_blocks_bdevs, cache_for]
  constructor
  · intro hex c idx hc hv i hi
    have hnew := hex w.req.bd c idx ((hcf _).trans hc) (by
      show (b.caches c idx).valid
      rwa [hca])
    change b.Holds w.req.bd (b.caches c idx).lba (b.caches c idx).data at hnew
    rw [hca] at hnew
    exact (hnew i hi).symm.trans (h w.req.bd c idx hc hv i hi)
  · intro hleaves bd c idx hc hv
    change b.cache_for bd = some c at hc
    change (b.caches c idx).valid at hv
    show b.Holds bd (b.caches c idx).lba (b.caches c idx).data
    rw [hca] at hv ⊢
    rw [hcf] at hc
    intro i hi
    rcases eq_or_ne bd w.req.bd with rfl | hbd
    · exact (h _ c idx hc hv i hi).trans (hleaves c idx hc hv i hi).symm
    · rw [hb, write_blocks_other hbd]
      exact h bd c idx hc hv i hi

/-- A step keeps the literal law exactly when it meets the condition. -/
lemma exact_step (hi : Inv s) (h : Exact s) (hstep : Step s a t) : Exact t ↔ ExactClean s a := by
  cases hstep with
  | call call hk => exact iff_of_true h trivial
  | done hk hleft => exact iff_of_true h (by simp only [ExactClean, hk])
  | hit hk hleft hc hfree hdata => exact iff_of_true h (by simp only [ExactClean, hk])
  | @miss k w c x hk hleft hc hfree hmiss =>
    simp only [ExactClean, hk, (through_eq hc).2, hc]
    rw [fetch, exact_line h (through_eq hc).1, holds_copy]
  | @tag k w c hk =>
    simp only [ExactClean, hk]
    rw [tag, exact_line h (hi.fetcher hk)]
    exact ⟨fun hh => hh rfl, fun hh _ => hh⟩
  | read x hk hleft hc hw => exact iff_of_true h (by simp only [ExactClean, hk, hw, hc])
  | @write k w x hk hleft hw =>
    simp only [ExactClean, hk, hw]
    exact exact_write h
  | @fill k w c chunk i hk hlt hfree =>
    simp only [ExactClean, hk]
    rw [cache_fill_write, exact_line h (hi.filler hk), holds_copy]
    simp [hlt]
  | @filled k w c chunk hk =>
    refine iff_of_true h ?_
    simp only [ExactClean, hk]
    exact fun hlt => absurd hlt (Nat.lt_irrefl _)

/-! ## The law of settled lines -/

/-- A line may differ while its update is under way. -/
def Excused (s : State ι) (bd c idx lba : ℕ) : Prop :=
  Fetching s c idx ∨ ∃ k, Pending s k bd lba

omit [DecidableEq ι] in
lemma settled_iff : Settled s ↔ ∀ bd c idx, s.blk.cache_for bd = some c →
    (s.blk.caches c idx).valid → Excused s bd c idx (s.blk.caches c idx).lba ∨
      s.blk.Holds bd (s.blk.caches c idx).lba (s.blk.caches c idx).data := by
  simp only [Settled, Excused, or_assoc]

lemma fetching_of_move
    (hp : ∀ w, p = .fetched w c → w.cur % CACHE_ENTRIES ≠ idx)
    (h : Fetching (s.move k p b) c idx) : Fetching s c idx := by
  obtain ⟨j, w, hj, hw⟩ := h
  by_cases hjk : j = k
  · subst hjk
    rw [move_phase] at hj
    exact absurd hw (hp w hj)
  · rw [move_other hjk] at hj
    exact ⟨j, w, hj, hw⟩

lemma fetching_move
    (hk : ∀ w, s.phase k = .fetched w c → w.cur % CACHE_ENTRIES ≠ idx) (h : Fetching s c idx) :
    Fetching (s.move k p b) c idx := by
  obtain ⟨j, w, hj, hw⟩ := h
  have hjk : j ≠ k := fun e => hk w (e ▸ hj) hw
  exact ⟨j, w, by rwa [move_other hjk], hw⟩

lemma pending_of_move
    (hp : ∀ w c n i, p = .fill w c n i → w.req.bd = bd → ¬(w.cur + i ≤ lba ∧ lba < w.cur + n))
    (h : Pending (s.move k p b) j bd lba) : j ≠ k ∧ Pending s j bd lba := by
  obtain ⟨w, c, n, i, hj, hbd, hlo, hhi⟩ := h
  by_cases hjk : j = k
  · subst hjk
    rw [move_phase] at hj
    exact absurd ⟨hlo, hhi⟩ (hp w c n i hj hbd)
  · rw [move_other hjk] at hj
    exact ⟨hjk, w, c, n, i, hj, hbd, hlo, hhi⟩

lemma pending_move (hjk : j ≠ k)
    (h : Pending s j bd lba) : Pending (s.move k p b) j bd lba := by
  obtain ⟨w, c, n, i, hj, hrest⟩ := h
  exact ⟨w, c, n, i, by rwa [move_other hjk], hrest⟩

/-- What a caller that neither fetches nor fills excuses. -/
def Plain (p : Phase) : Prop :=
  (∀ w c, p ≠ .fetched w c) ∧ ∀ w c n i, p = .fill w c n i → i = n

lemma plain_idle : Plain .idle := by
  simp [Plain]

lemma plain_loop (w : Work) : Plain (.loop w) := by
  simp [Plain]

/-- A caller that leaves a plain phase takes no excuse away. -/
lemma Excused.keep (hk : Plain (s.phase k))
    (h : Excused s bd c idx lba) : Excused (s.move k p b) bd c idx lba := by
  rcases h with h | ⟨j, hj⟩
  · exact .inl (fetching_move (fun w hw => absurd hw (hk.1 w c)) h)
  · refine .inr ⟨j, pending_move (fun e => ?_) hj⟩
    obtain ⟨w, c', n, i, hw, -, hlo, hhi⟩ := hj
    have := hk.2 w c' n i (e ▸ hw)
    omega

/-- A caller that enters a plain phase gives none. -/
lemma Excused.of_move (hp : Plain p)
    (h : Excused (s.move k p b) bd c idx lba) : Excused s bd c idx lba := by
  rcases h with h | ⟨j, hj⟩
  · exact .inl (fetching_of_move (fun w hw => absurd hw (hp.1 w c)) h)
  · refine .inr ⟨j, (pending_of_move (fun w c' n i hw _ => ?_) hj).2⟩
    have := hp.2 w c' n i hw
    omega

/-- Nothing but the phase of a caller changes, from one plain phase to any other. -/
lemma settled_same (h : Settled s) (hk : Plain (s.phase k)) :
    Settled (s.move k p s.blk) := by
  rw [settled_iff] at h ⊢
  exact fun bd c idx hc hv => (h bd c idx hc hv).imp_left fun he => he.keep hk

/-- Setting a line keeps the law when the line meets it and no other line loses its excuse. -/
lemma settled_line (h : Settled s)
    (hc : s.blk.cache_for bd = some c)
    (hkeep : ∀ bd' c' i, s.blk.cache_for bd' = some c' → (s.blk.caches c' i).valid →
      ¬(c' = c ∧ i = idx) → Excused s bd' c' i (s.blk.caches c' i).lba →
      Excused (s.move k p (s.blk.setLine c idx cl)) bd' c' i (s.blk.caches c' i).lba) :
    Settled (s.move k p (s.blk.setLine c idx cl)) ↔ (cl.valid →
      Excused (s.move k p (s.blk.setLine c idx cl)) bd c idx cl.lba ∨
        s.blk.Holds bd cl.lba cl.data) := by
  set t := s.move k p (s.blk.setLine c idx cl) with ht
  have hself : t.blk.caches c idx = cl := setLine_self
  have hother : ∀ {c' i}, ¬(c' = c ∧ i = idx) → t.blk.caches c' i = s.blk.caches c' i :=
    fun hat => setLine_other hat
  rw [settled_iff] at h ⊢
  constructor
  · intro hset hv
    have hline := hset bd c idx hc (by rwa [hself])
    rwa [hself] at hline
  · intro hcl bd' c' i hc' hv
    by_cases hat : c' = c ∧ i = idx
    · obtain ⟨rfl, rfl⟩ := hat
      have hbd : bd' = bd := cache_for_inj (s := s.blk) hc' hc
      rw [hself] at hv ⊢
      rw [hbd]
      exact hcl hv
    · rw [hother hat] at hv ⊢
      exact (h bd' c' i hc' hv).imp_left (hkeep bd' c' i hc' hv hat)

/-- A write that fails keeps the law when it leaves the sectors of the settled lines as they
are. -/
lemma settled_failed_write (h : Settled s)
    (hk : s.phase k = .loop w) :
    Settled (s.move k .idle (s.blk.write_blocks w.req.bd w.cur (w.chunk s.blk) (w.sector 0) x).2) ↔
      ∀ c idx, s.blk.cache_for w.req.bd = some c → (s.blk.caches c idx).valid →
        Excused s w.req.bd c idx (s.blk.caches c idx).lba ∨
          Leaves s.blk w x (s.blk.caches c idx).lba := by
  set b := (s.blk.write_blocks w.req.bd w.cur (w.chunk s.blk) (w.sector 0) x).2 with hb
  have hca : b.caches = s.blk.caches := write_blocks_caches _ _ _ _ _ _
  have hcf : ∀ bd, b.cache_for bd = s.blk.cache_for bd := fun bd => by
    rw [cache_for, hb, write_blocks_bdevs, cache_for]
  have hplain : Plain (s.phase k) := hk ▸ plain_loop w
  rw [settled_iff] at h ⊢
  constructor
  · intro hset c idx hc hv
    have hnew := hset w.req.bd c idx ((hcf _).trans hc) (by
      show (b.caches c idx).valid
      rwa [hca])
    change Excused _ w.req.bd c idx (b.caches c idx).lba ∨
      b.Holds w.req.bd (b.caches c idx).lba (b.caches c idx).data at hnew
    rw [hca] at hnew
    rcases hnew with hex | hnew
    · exact .inl (hex.of_move plain_idle)
    · refine (h w.req.bd c idx hc hv).imp_right fun hold i hi => ?_
      exact (hnew i hi).symm.trans (hold i hi)
  · intro hleaves bd c idx hc hv
    change b.cache_for bd = some c at hc
    change (b.caches c idx).valid at hv
    show Excused _ bd c idx (b.caches c idx).lba ∨
      b.Holds bd (b.caches c idx).lba (b.caches c idx).data
    rw [hca] at hv ⊢
    rw [hcf] at hc
    rcases h bd c idx hc hv with hex | hold
    · exact .inl (hex.keep hplain)
    rcases eq_or_ne bd w.req.bd with rfl | hbd
    · rcases hleaves c idx hc hv with hex | hl
      · exact .inl (hex.keep hplain)
      · exact .inr fun i hi => (hold i hi).trans (hl i hi).symm
    · refine .inr fun i hi => ?_
      rw [hb, write_blocks_other hbd]
      exact hold i hi

/-- A write that succeeds keeps the law: the lines of its sectors are about to be filled. -/
lemma settled_write (h : Settled s) (hk : s.phase k = .loop w) :
    Settled (s.move k
      (match s.blk.cache_for w.req.bd with
        | some c => .fill w c (w.chunk s.blk) 0
        | none => .loop (w.next (w.chunk s.blk) w.buf))
      (s.blk.overwrite w.req.bd w.cur (w.chunk s.blk) (w.sector 0))) := by
  have hplain : Plain (s.phase k) := hk ▸ plain_loop w
  rw [settled_iff] at h ⊢
  intro bd c idx hc hv
  change s.blk.cache_for bd = some c at hc
  rcases h bd c idx hc hv with hex | hold
  · exact .inl (hex.keep hplain)
  rcases eq_or_ne bd w.req.bd with rfl | hbd
  · by_cases hin : w.cur ≤ (s.blk.caches c idx).lba ∧
        (s.blk.caches c idx).lba < w.cur + w.chunk s.blk
    · refine .inl (.inr ⟨k, w, c, w.chunk s.blk, 0, ?_, rfl, hin⟩)
      rw [move_phase, hc]
    · refine .inr fun i hi => (hold i hi).trans ?_
      show _ = (s.blk.overwrite _ _ _ _).content _ _
      rw [overwrite_content, Function.update_self]
      unfold BLK_SECTOR_SIZE at hi ⊢
      rcases Nat.lt_or_ge (s.blk.caches c idx).lba w.cur with hlt | hge
      · exact (copy_of_lt (by omega)).symm
      · exact (copy_of_ge (by omega)).symm
  · refine .inr fun i hi => (hold i hi).trans ?_
    show _ = (s.blk.overwrite _ _ _ _).content _ _
    rw [overwrite_content, Function.update_of_ne hbd]
    rfl

/-- A step keeps the law of settled lines exactly when it meets the condition. -/
lemma settled_step (hi : Inv s) (h : Settled s) (hstep : Step s a t) :
    Settled t ↔ SettledClean s a := by
  cases hstep with
  | call call hk => exact iff_of_true (settled_same h (hk ▸ plain_idle)) trivial
  | done hk hleft =>
    exact iff_of_true (settled_same h (hk ▸ plain_loop _)) (by simp only [SettledClean, hk])
  | hit hk hleft hc hfree hdata =>
    exact iff_of_true (settled_same h (hk ▸ plain_loop _)) (by simp only [SettledClean, hk])
  | @miss k w c x hk hleft hc hfree hmiss =>
    have hplain : Plain (s.phase k) := hk ▸ plain_loop w
    rw [fetch, settled_line h (through_eq hc).1 fun _ _ _ _ _ _ he => he.keep hplain]
    cases x with
    | ok =>
      -- the line is excused while the lock is held
      refine iff_of_true (fun _ => .inl (.inl ⟨k, w, ?_, rfl⟩)) trivial
      rw [move_phase]
      rfl
    | fail junk part =>
      simp only [SettledClean, hk, (through_eq hc).2, hc]
      refine forall_congr' fun _ => ?_
      rw [holds_copy]
      refine or_congr_left ⟨fun he => ?_, fun he => Excused.keep hplain (.inr he)⟩
      rcases he.of_move plain_idle with hf | hp
      · obtain ⟨j, v, hj, -⟩ := hf
        exact absurd hj (hfree j v)
      · exact hp
  | @tag k w c hk =>
    have hkeep : ∀ bd' c' i, s.blk.cache_for bd' = some c' → (s.blk.caches c' i).valid →
        ¬(c' = c ∧ i = w.cur % CACHE_ENTRIES) → Excused s bd' c' i (s.blk.caches c' i).lba →
        Excused (s.move k (.loop (w.next 1 (copy w.buf w.off BLK_SECTOR_SIZE
          (s.blk.lineOf c w.cur).data))) (s.blk.tag c w.cur)) bd' c' i (s.blk.caches c' i).lba := by
      intro bd' c' i _ _ hne he
      rcases he with hf | ⟨j, hj⟩
      · refine .inl (fetching_move (fun v hv hvi => hne ?_) hf)
        rw [hk] at hv
        cases hv
        exact ⟨rfl, hvi.symm⟩
      · refine .inr ⟨j, pending_move (fun e => ?_) hj⟩
        obtain ⟨v, c'', n, l, hv, -⟩ := hj
        rw [e, hk] at hv
        cases hv
    rw [tag, settled_line h (hi.fetcher hk) hkeep]
    simp only [SettledClean, hk, forall_true_left]
    refine or_congr_left ⟨fun he => ?_, Or.inr ∘ Exists.imp fun j hj => pending_move (fun e => ?_) hj⟩
    · rcases he with ⟨j, v, hj, -⟩ | ⟨j, hj⟩
      · by_cases hjk : j = k
        · subst hjk
          rw [move_phase] at hj
          cases hj
        · rw [move_other hjk] at hj
          exact absurd (hi.alone hj hk) hjk
      · exact ⟨j, (pending_of_move (fun v c' n i hv => by cases hv) hj).2⟩
    · obtain ⟨v, c', n, l, hv, -⟩ := hj
      rw [e, hk] at hv
      cases hv
  | @read k w x hk hleft hc hw =>
    refine iff_of_true (settled_same h (hk ▸ plain_loop _)) ?_
    cases x with
    | ok => trivial
    | fail junk part => simp only [SettledClean, hk, hw, hc]
  | @write k w x hk hleft hw =>
    cases x with
    | ok => exact iff_of_true (settled_write h hk) trivial
    | fail junk part =>
      simp only [SettledClean, hk, hw, ← or_assoc]
      exact settled_failed_write h hk
  | @fill k w c chunk i hk hlt hfree =>
    have hkeep : ∀ bd' c' j, s.blk.cache_for bd' = some c' → (s.blk.caches c' j).valid →
        ¬(c' = c ∧ j = (w.cur + i) % CACHE_ENTRIES) →
        Excused s bd' c' j (s.blk.caches c' j).lba →
        Excused (s.move k (.fill w c chunk (i + 1))
          (s.blk.cache_fill_write c (w.cur + i) (w.sector i))) bd' c' j (s.blk.caches c' j).lba := by
      intro bd' c' j hc' hv hne he
      rcases he with hf | ⟨l, hl⟩
      · refine .inl (fetching_move (fun v hv' => ?_) hf)
        rw [hk] at hv'
        cases hv'
      · refine .inr ⟨l, ?_⟩
        by_cases hlk : l = k
        · -- a sector that the caller itself has still to fill is not the one it fills now
          subst hlk
          obtain ⟨v, c'', n, m, hv', hbd, hlo, hhi⟩ := hl
          rw [hk] at hv'
          cases hv'
          refine ⟨w, c, chunk, i + 1, move_phase _ _ _, hbd, ?_, hhi⟩
          rcases Nat.lt_or_ge (w.cur + i) (s.blk.caches c' j).lba with hgt | hle
          · omega
          · have hlba : (s.blk.caches c' j).lba = w.cur + i := by omega
            have hcc : c = c' := Option.some.inj ((hi.filler hk).symm.trans (hbd ▸ hc'))
            exact absurd ⟨hcc.symm, by rw [← hlba]; exact (hi.placed c' j hv).symm⟩ hne
        · exact pending_move hlk hl
    rw [cache_fill_write, settled_line h (hi.filler hk) hkeep, holds_copy]
    simp only [SettledClean, hk, hlt, forall_true_left]
    refine or_congr_left ⟨fun he => ?_, Or.inr ∘ Exists.imp fun j hj => pending_move hj.1 hj.2⟩
    rcases he with ⟨j, v, hj, -⟩ | ⟨j, hj⟩
    · by_cases hjk : j = k
      · subst hjk
        rw [move_phase] at hj
        cases hj
      · rw [move_other hjk] at hj
        exact absurd hj (hfree j v)
    · obtain ⟨hjk, hj⟩ := pending_of_move (fun v c' n m hv _ => by cases hv; omega) hj
      exact ⟨j, hjk, hj⟩
  | @filled k w c chunk hk =>
    have hplain : Plain (s.phase k) := by
      rw [hk]
      constructor
      · intro v c' hv
        cases hv
      · intro v c' n i hv
        cases hv
        rfl
    refine iff_of_true (settled_same h hplain) ?_
    simp only [SettledClean, hk]
    exact fun hlt => absurd hlt (Nat.lt_irrefl _)

/-! ## Runs -/

omit [DecidableEq ι] in
lemma inv_boot (dev : ℕ → BlockDevice) (regs : List ℕ) : Inv (boot dev regs : State ι) := by
  have hca : (boot dev regs : State ι).blk.caches = (Blk.boot dev).caches :=
    (registered_spec dev regs).2.1
  refine ⟨fun c idx hv => ?_, ?_, ?_, ?_⟩
  rotate_left
  · exact fun {k w c} hk => by cases hk
  · exact fun {k w c n i} hk => by cases hk
  · exact fun {k k' w w' c} hk _ => by cases hk
  rw [hca] at hv
  exact absurd hv (by simp [Blk.boot])

omit [DecidableEq ι] in
lemma exact_boot (dev : ℕ → BlockDevice) (regs : List ℕ) : Exact (boot dev regs : State ι) := by
  have hca : (boot dev regs : State ι).blk.caches = (Blk.boot dev).caches :=
    (registered_spec dev regs).2.1
  intro bd c idx _ hv
  rw [hca] at hv
  exact absurd hv (by simp [Blk.boot])

omit [DecidableEq ι] in
lemma Exact.settled (h : Exact s) : Settled s := fun bd c idx hc hv =>
  .inr (.inr (h bd c idx hc hv))

omit [DecidableEq ι] in
/-- With no update under way the settled law is the literal one. -/
lemma Settled.exact (h : Settled s) (hq : Quiet s) : Exact s := by
  intro bd c idx hc hv
  rcases h bd c idx hc hv with ⟨k, w, hk, -⟩ | ⟨k, w, c', n, i, hk, -⟩ | hhold
  · rcases hq k with hq | ⟨v, hq⟩ <;> rw [hq] at hk <;> cases hk
  · rcases hq k with hq | ⟨v, hq⟩ <;> rw [hq] at hk <;> cases hk
  · exact hhold

/-- The runs in which no valid line ever differs from its sector are those whose steps meet
`ExactClean`; the runs in which none differs but while its update is under way are those whose
steps meet `SettledClean`, and in these no line differs whenever no update is under way. -/
theorem lines_right (dev : ℕ → BlockDevice) (regs : List ℕ) (as : List (Act ι)) (t : State ι) :
    (Run (Guarded ExactClean Step) (boot dev regs) as t ↔
        Run (fun s a u => Step s a u ∧ Exact u) (boot dev regs) as t) ∧
      (Run (Guarded SettledClean Step) (boot dev regs) as t ↔
        Run (fun s a u => Step s a u ∧ Settled u) (boot dev regs) as t) ∧
      (Run (Guarded SettledClean Step) (boot dev regs) as t → Quiet t → Exact t) := by
  have hboot := inv_boot (ι := ι) dev regs
  have hexact := exact_boot (ι := ι) dev regs
  refine ⟨Run.guarded_iff (I := fun u => Inv u ∧ Exact u) (fun _ _ _ hi hs he => ⟨hi.1.step hs, he⟩)
    (fun _ _ _ hi => exact_step hi.1 hi.2) ⟨hboot, hexact⟩,
    Run.guarded_iff (I := fun u => Inv u ∧ Settled u) (fun _ _ _ hi hs he => ⟨hi.1.step hs, he⟩)
      (fun _ _ _ hi => settled_step hi.1 hi.2) ⟨hboot, hexact.settled⟩, fun hrun hq => ?_⟩
  have hset : Inv t ∧ Settled t :=
    hrun.invariant (I := fun u => Inv u ∧ Settled u) ⟨hboot, hexact.settled⟩
      fun u a v hu hs => ⟨hu.1.step hs.2, (settled_step hu.1 hu.2 hs.2).mpr hs.1⟩
  exact hset.2.exact hq

/-- A disk whose sectors hold their own numbers. -/
def numbered : BlockDevice := ⟨32, 8, fun i => UInt8.ofNat (i / 512), by decide⟩

/-- Sector 0 is cached, then the read of sector 16 fails: nothing is under way any more, and a
lookup of sector 0 finds what the failed transfer left. -/
theorem failed_miss_corrupts :
    ∃ (as : List (Act Bool)) (t : State Bool) (data : ℕ → UInt8),
      Run Step (boot (fun _ => numbered) [0]) as t ∧ (∀ k, t.phase k = .idle) ∧
        t.blk.cache_for 0 = some 0 ∧ t.blk.lookup 0 0 = some data ∧
        data 0 ≠ t.blk.content 0 0 := by
  let buf : ℕ → UInt8 := fun _ => 0
  let first : Work := .ofReq ⟨0, 0, 1, buf, false⟩ none
  let second : Work := .ofReq ⟨0, 16, 1, buf, false⟩ none
  have h0 : Run Step (boot (fun _ => numbered) [0] : State Bool) [] _ := Run.nil
  have h1 := h0.snoc (Step.call (k := false) (.read 0 0 buf 512) rfl)
  have h2 := h1.snoc (Step.miss (k := false) (w := first) (c := 0) .ok rfl (by decide) (by rfl)
    (fun k w hk => by cases k <;> cases hk) (by rfl))
  have h3 := h2.snoc (Step.tag (k := false) (w := first) (c := 0) rfl)
  have h4 := h3.snoc (Step.done (k := false) (w := first.next 1 _) rfl (by rfl))
  have h5 := h4.snoc (Step.call (k := false) (.read 0 16 buf 512) rfl)
  have h6 := h5.snoc (Step.miss (k := false) (w := second) (c := 0)
    (.fail (fun _ => 16) fun _ => false) rfl (by decide) (by rfl)
    (fun k w hk => by cases k <;> cases hk) (if_neg (by decide)))
  refine ⟨_, _, _, h6, ?_, by rfl, if_pos (by decide), by decide⟩
  intro k
  cases k <;> rfl

end MobilePhoneOs.Block.Race
