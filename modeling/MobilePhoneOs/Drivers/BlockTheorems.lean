import MobilePhoneOs.Drivers.Block
import Mathlib.Data.List.Induction

/-!
# The cache of the block layer refines the devices

Every valid line holds the bytes of its sector. A read keeps this because a miss tags the line
with what the driver has just read, a write because each sector of a transfer is filled in
behind it. Over it every call answers, and leaves on the devices, what a plain store would.
-/

namespace MobilePhoneOs.Block

open Mem Prog Blk
open Function (update update_self)
open Nat (mod_eq_of_lt)

/-! ## The coherence of the lines -/

/-- Every valid line stands at its place and holds the bytes of its sector, but for the
`stale` sectors. -/
def Coherent (stale : ℕ → ℕ → Prop) (s : Blk) : Prop :=
  ∀ bd c idx, s.cache_for bd = some c → (s.caches c idx).valid →
    (s.caches c idx).lba % CACHE_ENTRIES = idx ∧
      (stale bd (s.caches c idx).lba ∨ s.Holds bd (s.caches c idx).lba (s.caches c idx).data)

variable {s t : Blk} {stale stale' : ℕ → ℕ → Prop} {bd bd' c c' idx lba : ℕ} {cl : CacheLine}

@[simp] lemma setLine_self : (s.setLine c idx cl).caches c idx = cl := if_pos ⟨rfl, rfl⟩

lemma setLine_other {i : ℕ} (h : ¬(c' = c ∧ i = idx)) :
    (s.setLine c idx cl).caches c' i = s.caches c' i := if_neg h

@[simp] lemma setLine_lineOf : (s.setLine c (lba % CACHE_ENTRIES) cl).lineOf c lba = cl :=
  setLine_self

@[simp] lemma setData_content (data : ℕ → UInt8) :
    (s.setData bd data).content = update s.content bd data := by
  funext b
  rcases eq_or_ne b bd with rfl | hb
  · simp [content, setData]
  · simp [content, setData, hb]

lemma setLine_setLine (cl' : CacheLine) :
    (s.setLine c idx cl).setLine c idx cl' = s.setLine c idx cl' := by
  have hcaches : ((s.setLine c idx cl).setLine c idx cl').caches = (s.setLine c idx cl').caches := by
    funext c' i
    by_cases hat : c' = c ∧ i = idx
    · obtain ⟨rfl, rfl⟩ := hat
      rw [setLine_self, setLine_self]
    · rw [setLine_other hat, setLine_other hat, setLine_other hat]
  exact congrArg (fun ca => { s with caches := ca }) hcaches

/-- The index of a registered device tells which device it is. -/
lemma cache_for_eq (h : s.cache_for bd = some c) : s.bdevs[c]? = some bd := by
  obtain ⟨hlt, hp, -⟩ := List.findIdx?_eq_some_iff_getElem.mp h
  rw [List.getElem?_eq_getElem hlt, of_decide_eq_true hp]

lemma cache_for_inj (h : s.cache_for bd = some c) (h' : s.cache_for bd' = some c) : bd = bd' :=
  Option.some.inj ((cache_for_eq h).symm.trans (cache_for_eq h'))

lemma Coherent.mono (h : Coherent stale s) (hs : ∀ bd l, stale bd l → stale' bd l) :
    Coherent stale' s := fun bd c idx hc hv =>
  ⟨(h bd c idx hc hv).1, (h bd c idx hc hv).2.imp_left (hs bd _)⟩

/-- A fetch and its tag make the line that `cache_fill_write` would. -/
lemma tag_fetch (bytes : ℕ → UInt8) :
    (s.fetch c lba bytes).tag c lba = s.cache_fill_write c lba bytes := by
  unfold tag fetch cache_fill_write
  rw [setLine_lineOf, setLine_setLine]

/-- A sector that is filled with its own bytes is coherent from then on. -/
lemma Coherent.fill (h : Coherent stale s) (hc : s.cache_for bd = some c) {data : ℕ → UInt8}
    (hdata : s.Holds bd lba data)
    (hs : ∀ bd' l, stale bd' l → ¬(bd' = bd ∧ l = lba) → stale' bd' l) :
    Coherent stale' (s.cache_fill_write c lba data) := by
  intro bd' c' idx hc' hv
  by_cases hat : c' = c ∧ idx = lba % CACHE_ENTRIES
  · -- the line just filled
    obtain ⟨rfl, rfl⟩ := hat
    have hbd : bd' = bd := cache_for_inj hc' hc
    have hline : (s.cache_fill_write c' lba data).caches c' (lba % CACHE_ENTRIES)
        = ⟨true, lba, copy (s.lineOf c' lba).data 0 BLK_SECTOR_SIZE data⟩ := setLine_self
    rw [hline]
    refine ⟨rfl, .inr ?_⟩
    rw [hbd]
    intro i hi
    exact (copy_zero hi).trans (hdata i hi)
  · have hline : (s.cache_fill_write c lba data).caches c' idx = s.caches c' idx :=
      setLine_other hat
    rw [hline] at hv ⊢
    obtain ⟨hidx, hst⟩ := h bd' c' idx hc' hv
    refine ⟨hidx, hst.imp_left fun hst => hs _ _ hst ?_⟩
    rintro ⟨rfl, hl⟩
    -- another line of the same cache stands for another sector
    have hcc : c' = c := Option.some.inj (hc'.symm.trans hc)
    exact hat ⟨hcc, hl ▸ hidx.symm⟩

/-- Overwriting sectors makes their lines stale, and no others. -/
lemma Coherent.overwrite (h : Coherent stale s) (n : ℕ) (buf : ℕ → UInt8) :
    Coherent (fun bd' l => stale bd' l ∨ (bd' = bd ∧ lba ≤ l ∧ l < lba + n))
      (s.setData bd (copy (s.content bd) (lba * BLK_SECTOR_SIZE) (n * BLK_SECTOR_SIZE) buf)) := by
  intro bd' c idx hc hv
  obtain ⟨hidx, hst⟩ := h bd' c idx hc hv
  refine ⟨hidx, ?_⟩
  rcases hst with hst | hst
  · exact .inl (.inl hst)
  show (stale bd' (s.caches c idx).lba ∨ _) ∨ Holds _ bd' (s.caches c idx).lba (s.caches c idx).data
  by_cases hin : bd' = bd ∧ lba ≤ (s.caches c idx).lba ∧ (s.caches c idx).lba < lba + n
  · exact .inl (.inr hin)
  · refine .inr fun i hi => (hst i hi).trans ?_
    rw [setData_content]
    rcases eq_or_ne bd' bd with rfl | hbd
    · rw [update_self]
      unfold BLK_SECTOR_SIZE at hi ⊢
      rcases Nat.lt_or_ge (s.caches c idx).lba lba with hlt | hge
      · exact (copy_of_lt (by omega)).symm
      · exact (copy_of_ge (by omega)).symm
    · rw [Function.update_of_ne hbd]

/-! ## The transfers -/

/-- What a read leaves alone. -/
structure Kept (s t : Blk) : Prop where
  dev : t.dev = s.dev
  bdevs : t.bdevs = s.bdevs
  xfers : t.xfers = s.xfers

lemma Kept.refl : Kept s s := ⟨rfl, rfl, rfl⟩

lemma Kept.trans {u : Blk} (h : Kept s t) (h' : Kept t u) : Kept s u :=
  ⟨h'.dev.trans h.dev, h'.bdevs.trans h.bdevs, h'.xfers.trans h.xfers⟩

lemma Kept.content (h : Kept s t) : t.content = s.content := by
  funext bd
  rw [Blk.content, h.dev, Blk.content]

lemma Kept.cache_for (h : Kept s t) (bd : ℕ) : t.cache_for bd = s.cache_for bd := by
  rw [Blk.cache_for, h.bdevs, Blk.cache_for]

lemma Kept.fill (data : ℕ → UInt8) : Kept s (s.cache_fill_write c lba data) := ⟨rfl, rfl, rfl⟩

/-- No line is stale between two calls. -/
abbrev Clean : Blk → Prop := Coherent fun _ _ => False

/-- What is relied on between two transfers: the drivers succeed. -/
structure Ready (s : Blk) : Prop where
  clean : Clean s
  succeed : s.xfers = []

lemma Ready.of_kept (h : Ready s) (hk : Kept s t) (hc : Clean t) : Ready t :=
  ⟨hc, hk.xfers.trans h.succeed⟩

variable {E : BlkErr → Blk → Prop}

lemma wp_nextXfer (h : s.xfers = []) {Q : Xfer → Blk → Prop} :
    wp nextXfer Q E s ↔ Q .ok s := by
  show Q (s.xfers.headD .ok) { s with xfers := s.xfers.tail } ↔ _
  rw [h]
  have : { s with xfers := [].tail } = s := by rw [List.tail_nil, ← h]
  rw [this]
  rfl

/-- A read through the cache answers the bytes of the sector. -/
lemma wp_cache_read_sector (h : Ready s) (hc : s.cache_for bd = some c) :
    wp (cache_read_sector bd c lba)
      (fun data t => s.Holds bd lba data ∧ Kept s t ∧ Ready t) (fun _ _ => False) s := by
  rw [cache_read_sector, wp_bind, wp_gets]
  by_cases hhit : (s.lineOf c lba).valid ∧ (s.lineOf c lba).lba = lba
  · rw [lookup, if_pos hhit]
    have hline := (h.clean bd c _ hc hhit.1).2.resolve_left id
    have hl : (s.caches c (lba % CACHE_ENTRIES)).lba = lba := hhit.2
    rw [hl] at hline
    exact ⟨hline, .refl, h⟩
  · rw [lookup, if_neg hhit]
    simp only [wp_bind, wp_nextXfer h.succeed, wp_gets, wp_modify, read_blocks, if_true]
    rw [tag_fetch]
    have hbytes : s.Holds bd lba fun i => s.content bd (lba * BLK_SECTOR_SIZE + i) :=
      fun _ _ => rfl
    refine ⟨?_, .fill _, h.of_kept (.fill _) (h.clean.fill hc hbytes fun _ _ hst _ => hst)⟩
    intro i hi
    rw [cache_fill_write, setLine_lineOf]
    show copy _ 0 BLK_SECTOR_SIZE (fun i => s.content bd (lba * BLK_SECTOR_SIZE + i)) i = _
    exact copy_zero hi

/-- The state after sectors have been overwritten on a device. -/
def Blk.overwrite (s : Blk) (bd lba n : ℕ) (buf : ℕ → UInt8) : Blk :=
  s.setData bd (copy (s.content bd) (lba * BLK_SECTOR_SIZE) (n * BLK_SECTOR_SIZE) buf)

/-- The lines of the sectors of a transfer are filled in one after another. -/
lemma wp_fillLines (h : Clean s) (n : ℕ) (buf : ℕ → UInt8) :
    wp (fillLines (s.cache_for bd) lba n buf)
      (fun _ t => Kept (s.overwrite bd lba n buf) t ∧ Clean t) (fun _ _ => False)
      (s.overwrite bd lba n buf) := by
  set d := s.overwrite bd lba n buf with hd
  have hover : Coherent (fun bd' l => False ∨ (bd' = bd ∧ lba ≤ l ∧ l < lba + n)) d :=
    h.overwrite n buf
  cases hc : s.cache_for bd with
  | none =>
    refine ⟨.refl, fun bd' c idx hc' hv => ?_⟩
    obtain ⟨hidx, hst⟩ := hover bd' c idx hc' hv
    refine ⟨hidx, hst.imp_left fun hst => hst.resolve_right ?_⟩
    rintro ⟨rfl, -⟩
    exact absurd (hc.symm.trans hc') (by simp)
  | some c =>
    -- after `k` rounds the sectors from `lba + k` on are stale
    refine wp.mono (Q := fun _ t => Kept d t ∧
      Coherent (fun bd' l => False ∨ (bd' = bd ∧ lba + n ≤ l ∧ l < lba + n)) t)
      (E := fun _ _ => False) (wp_forN (I := fun k t => Kept d t ∧
        Coherent (fun bd' l => False ∨ (bd' = bd ∧ lba + k ≤ l ∧ l < lba + n)) t)
        ⟨.refl, hover⟩ ?_) ?_ fun _ _ he => he
    · intro k hk t ⟨hkept, hcoh⟩
      have hct : t.cache_for bd = some c := (hkept.cache_for bd).trans hc
      refine ⟨hkept.trans (.fill _), hcoh.fill hct ?_ fun bd' l hst hne => ?_⟩
      · intro i hi
        rw [hkept.content, hd, overwrite, setData_content, update_self, Nat.add_mul,
          Nat.add_assoc]
        refine (copy_add ?_).symm
        calc k * BLK_SECTOR_SIZE + i < k * BLK_SECTOR_SIZE + BLK_SECTOR_SIZE := by omega
          _ = (k + 1) * BLK_SECTOR_SIZE := (Nat.succ_mul k _).symm
          _ ≤ n * BLK_SECTOR_SIZE := Nat.mul_le_mul_right _ hk
      · refine hst.imp_right fun ⟨hbd, hlo, hhi⟩ => ⟨hbd, ?_, hhi⟩
        omega
    · refine fun _ t ht => ⟨ht.1, ht.2.mono fun bd' l hst => ?_⟩
      rcases hst with hst | hst
      · exact hst
      · omega

lemma wp_transfer_write (h : Ready s) {req : BlkRequest} (hw : req.write = true) {cur n off : ℕ}
    (buf : ℕ → UInt8) :
    wp (transfer (s.cache_for req.bd) req cur n off buf)
      (fun buf' t => buf' = buf ∧ Kept (s.overwrite req.bd cur n fun i => buf (off + i)) t ∧ Ready t)
      (fun _ _ => False) s := by
  rw [transfer, wp_bind, wp_nextXfer h.succeed, if_pos hw, wp_bind]
  show wp _ _ _ (s.overwrite req.bd cur n fun i => buf (off + i))
  rw [if_pos (by rfl)]
  refine (wp_fillLines h.clean n fun i => buf (off + i)).bind (fun _ t ht => ?_) fun _ _ he => he
  exact ⟨rfl, ht.1, ht.2, ht.1.xfers.trans h.succeed⟩

lemma wp_transfer_read (h : Ready s) {req : BlkRequest} (hr : req.write = false) {cur n off : ℕ}
    (buf : ℕ → UInt8) (c : Option ℕ) :
    wp (transfer c req cur n off buf)
      (fun buf' t => t = s ∧ buf' = copy buf off (n * BLK_SECTOR_SIZE) fun i =>
        s.content req.bd (cur * BLK_SECTOR_SIZE + i))
      (fun _ _ => False) s := by
  rw [transfer, wp_bind, wp_nextXfer h.succeed, if_neg (by simp [hr]), wp_bind, wp_gets]
  exact ⟨rfl, rfl⟩

/-! ## The loop of a request -/

lemma overwrite_max {n : ℕ} {buf : ℕ → UInt8} (bd' : ℕ) :
    ((s.overwrite bd lba n buf).dev bd').max_sectors = (s.dev bd').max_sectors := by
  rcases eq_or_ne bd' bd with rfl | hb
  · simp [overwrite, setData]
  · simp [overwrite, setData, hb]

/-- Two writes next to each other are one write. -/
lemma overwrite_overwrite {m n : ℕ} {x y z : ℕ → UInt8}
    (hx : ∀ i < m * BLK_SECTOR_SIZE, x i = z i)
    (hy : ∀ i < n * BLK_SECTOR_SIZE, y i = z (m * BLK_SECTOR_SIZE + i)) :
    (s.overwrite bd lba m x).overwrite bd (lba + m) n y = s.overwrite bd lba (m + n) z := by
  have hcopy := copy_append (b := s.content bd) (p := lba * BLK_SECTOR_SIZE) hx hy
  rw [overwrite, overwrite, overwrite, setData_content, update_self, Nat.add_mul lba m,
    Nat.add_mul m n, hcopy]
  simp only [setData, update_self, Function.update_idem]

/-- What is overwritten depends on the devices and the registry only. -/
lemma Kept.overwrite (h : Kept s t) (bd lba n : ℕ) (buf : ℕ → UInt8) :
    Kept (s.overwrite bd lba n buf) (t.overwrite bd lba n buf) := by
  refine ⟨?_, h.bdevs, h.xfers⟩
  show update t.dev bd _ = update s.dev bd _
  rw [h.content, h.dev]

lemma overwrite_zero {buf : ℕ → UInt8} : Kept (s.overwrite bd lba 0 buf) s := by
  have hcopy : copy (s.content bd) (lba * BLK_SECTOR_SIZE) (0 * BLK_SECTOR_SIZE) buf
      = (s.dev bd).data := funext fun i => if_neg (by omega)
  refine ⟨?_, rfl, rfl⟩
  show s.dev = update s.dev bd _
  rw [hcopy]
  exact (Function.update_eq_self _ _).symm

/-- Chunk after chunk, a read copies what one transfer would. -/
lemma wp_submitLoop_read (h : Ready s) {req : BlkRequest} (hr : req.write = false)
    (hmax : 0 < (s.dev req.bd).max_sectors) {fuel cur left off : ℕ} (hfuel : left ≤ fuel)
    (hcur : cur + left < 2 ^ 64) (buf : ℕ → UInt8) :
    wp (submitLoop (s.cache_for req.bd) req fuel cur left off buf)
      (fun buf' t => Kept s t ∧ Ready t ∧ buf' = copy buf off (left * BLK_SECTOR_SIZE) fun i =>
        s.content req.bd (cur * BLK_SECTOR_SIZE + i))
      (fun _ _ => False) s := by
  induction fuel generalizing s cur left off buf with
  | zero =>
    obtain rfl : left = 0 := by omega
    rw [submitLoop, if_pos rfl]
    refine ⟨.refl, h, funext fun i => ?_⟩
    rw [copy, if_neg (by omega)]
  | succ fuel ih =>
    rw [submitLoop]
    by_cases hleft : left = 0
    · subst hleft
      rw [if_pos rfl]
      refine ⟨.refl, h, funext fun i => ?_⟩
      rw [copy, if_neg (by omega)]
    rw [if_neg hleft, wp_bind, wp_gets]
    set chunk := min left (s.dev req.bd).max_sectors with hchunk
    have hpos : 0 < chunk := by omega
    -- what the rest of the loop does after `m` sectors have been copied
    have hrest : ∀ {m : ℕ} {x : ℕ → UInt8} {t : Blk}, 0 < m → m ≤ left → Kept s t → Ready t →
        (∀ i < m * BLK_SECTOR_SIZE, x i = s.content req.bd (cur * BLK_SECTOR_SIZE + i)) →
        wp (submitLoop (s.cache_for req.bd) req fuel ((cur + m) % 2 ^ 64) (left - m)
          (off + m * BLK_SECTOR_SIZE) (copy buf off (m * BLK_SECTOR_SIZE) x))
          (fun buf' t => Kept s t ∧ Ready t ∧ buf' = copy buf off (left * BLK_SECTOR_SIZE) fun i =>
            s.content req.bd (cur * BLK_SECTOR_SIZE + i)) (fun _ _ => False) t := by
      intro m x t hm hml hk ht hx
      rw [mod_eq_of_lt (by omega), ← hk.cache_for]
      refine (ih ht (by rwa [hk.dev]) (by omega) (by omega) _).mono ?_ fun _ _ he => he
      rintro buf' u ⟨hku, hu, rfl⟩
      refine ⟨hk.trans hku, hu, ?_⟩
      have hsplit : left * BLK_SECTOR_SIZE
          = m * BLK_SECTOR_SIZE + (left - m) * BLK_SECTOR_SIZE := by
        rw [← Nat.add_mul, Nat.add_sub_cancel' hml]
      rw [hsplit]
      refine copy_append hx fun i _ => ?_
      rw [hk.content, Nat.add_mul, Nat.add_assoc]
    by_cases hone : chunk = 1
    · cases hc : s.cache_for req.bd with
      | some c =>
        simp only [hr, hone, Bool.not_false, and_self, if_true, wp_bind]
        refine (wp_cache_read_sector h hc).mono ?_ fun _ _ he => he
        rintro sec t ⟨hsec, hk, ht⟩
        have hone := hrest (m := 1) Nat.one_pos (by omega) hk ht fun i hi => hsec i (by omega)
        rwa [Nat.one_mul, hc] at hone
      | none =>
        simp only [ite_self, wp_bind]
        refine (wp_transfer_read h hr buf none).mono ?_ fun _ _ he => he
        rintro buf' t ⟨rfl, rfl⟩
        have hall := hrest (m := chunk) hpos (by omega) .refl h fun i _ => rfl
        rwa [hc] at hall
    · simp only [hone, and_false, if_false, wp_bind]
      refine (wp_transfer_read h hr buf _).mono ?_ fun _ _ he => he
      rintro buf' t ⟨rfl, rfl⟩
      exact hrest (m := chunk) hpos (by omega) .refl h fun i _ => rfl

/-- Chunk after chunk, a write leaves what one transfer would. -/
lemma wp_submitLoop_write (h : Ready s) {req : BlkRequest} (hw : req.write = true)
    (hmax : 0 < (s.dev req.bd).max_sectors) {fuel cur left off : ℕ} (hfuel : left ≤ fuel)
    (hcur : cur + left < 2 ^ 64) (buf : ℕ → UInt8) :
    wp (submitLoop (s.cache_for req.bd) req fuel cur left off buf)
      (fun _ t => Kept (s.overwrite req.bd cur left fun i => buf (off + i)) t ∧ Ready t)
      (fun _ _ => False) s := by
  induction fuel generalizing s cur left off with
  | zero =>
    obtain rfl : left = 0 := by omega
    rw [submitLoop, if_pos rfl]
    exact ⟨overwrite_zero, h⟩
  | succ fuel ih =>
    rw [submitLoop]
    by_cases hleft : left = 0
    · subst hleft
      rw [if_pos rfl]
      exact ⟨overwrite_zero, h⟩
    rw [if_neg hleft, wp_bind, wp_gets]
    set chunk := min left (s.dev req.bd).max_sectors with hchunk
    simp only [hw, Bool.not_true, Bool.false_eq_true, false_and, if_false, wp_bind]
    refine (wp_transfer_write h hw buf).mono ?_ fun _ _ he => he
    rintro buf' t ⟨rfl, hk, ht⟩
    have hct : t.cache_for req.bd = s.cache_for req.bd := hk.cache_for _
    have hmax' : 0 < (t.dev req.bd).max_sectors := by
      rw [hk.dev, overwrite_max]
      exact hmax
    rw [mod_eq_of_lt (by omega), ← hct]
    refine (ih ht hmax' (by omega) (by omega)).mono ?_ fun _ _ he => he
    rintro - u ⟨hku, hu⟩
    refine ⟨?_, hu⟩
    have hall := (hk.overwrite req.bd (cur + chunk) (left - chunk) fun i => buf' (off + chunk * BLK_SECTOR_SIZE + i)).trans hku
    rw [overwrite_overwrite (z := fun i => buf' (off + i)) (fun _ _ => rfl)
      (fun i _ => by rw [Nat.add_assoc]), Nat.add_sub_cancel' (by omega)] at hall
    exact hall

section

variable (h : Ready s) (hmax : 0 < (s.dev bd).max_sectors) {n : ℕ} (hin : lba + n < 2 ^ 64)
  (buf : ℕ → UInt8)
include h hmax hin buf

lemma wp_submit_read :
    wp (block_submit ⟨bd, lba, n, buf, false⟩)
      (fun buf' t => Kept s t ∧ Ready t ∧ buf' = copy buf 0 (n * BLK_SECTOR_SIZE) fun i =>
        s.content bd (lba * BLK_SECTOR_SIZE + i))
      (fun _ _ => False) s := by
  rw [block_submit, wp_bind, wp_gets]
  exact wp_submitLoop_read h rfl hmax (Nat.le_refl n) hin buf

lemma wp_submit_write :
    wp (block_submit ⟨bd, lba, n, buf, true⟩)
      (fun _ t => Kept (s.overwrite bd lba n buf) t ∧ Ready t) (fun _ _ => False) s := by
  rw [block_submit, wp_bind, wp_gets]
  have hloop := @wp_submitLoop_write s h ⟨bd, lba, n, buf, true⟩ rfl hmax n lba n 0
    (Nat.le_refl n) hin buf
  simpa only [Nat.zero_add] using hloop

end

/-! ## The entry points -/

/-- A byte count is its whole sectors and a short tail. -/
lemma bytes_eq (bytes : ℕ) :
    bytes / BLK_SECTOR_SIZE * BLK_SECTOR_SIZE + bytes % BLK_SECTOR_SIZE = bytes :=
  Nat.div_add_mod' bytes BLK_SECTOR_SIZE

lemma sectors_of_dvd {bytes : ℕ} (h : bytes % BLK_SECTOR_SIZE = 0) :
    sectors bytes = bytes / BLK_SECTOR_SIZE := by
  rw [sectors, if_pos h, Nat.add_zero]

lemma sectors_of_tail {bytes : ℕ} (h : bytes % BLK_SECTOR_SIZE ≠ 0) :
    sectors bytes = bytes / BLK_SECTOR_SIZE + 1 := by
  rw [sectors, if_neg h]

lemma wp_checkRange {bytes : ℕ} (hb : bytes ≠ 0)
    (hin : lba + sectors bytes ≤ (s.dev bd).capacity_sectors) {Q : Unit → Blk → Prop} (hQ : Q () s) : wp (checkRange bd lba bytes) Q E s := by
  have hlt := (s.dev bd).capacity_lt
  rw [checkRange, if_neg hb, wp_bind, wp_gets, mod_eq_of_lt (by omega), if_neg (by omega)]
  exact hQ

section

variable (h : Ready s) (hmax : 0 < (s.dev bd).max_sectors) {n : ℕ} (hin : lba + n < 2 ^ 64)
  (buf : ℕ → UInt8)
include h hmax hin buf

lemma wp_submitWhole_read :
    wp (submitWhole ⟨bd, lba, n, buf, false⟩)
      (fun buf' t => Kept s t ∧ Ready t ∧ buf' = copy buf 0 (n * BLK_SECTOR_SIZE) fun i =>
        s.content bd (lba * BLK_SECTOR_SIZE + i))
      (fun _ _ => False) s := by
  rw [submitWhole]
  by_cases hn : n = 0
  · rw [if_pos hn]
    refine ⟨.refl, h, funext fun i => ?_⟩
    rw [copy, if_neg (by rw [hn]; omega)]
  · rw [if_neg hn]
    exact wp_submit_read h hmax hin buf

lemma wp_submitWhole_write :
    wp (submitWhole ⟨bd, lba, n, buf, true⟩)
      (fun _ t => Kept (s.overwrite bd lba n buf) t ∧ Ready t) (fun _ _ => False) s := by
  rw [submitWhole]
  by_cases hn : n = 0
  · rw [if_pos hn, hn]
    exact ⟨overwrite_zero, h⟩
  · rw [if_neg hn]
    exact wp_submit_write h hmax hin buf

end

lemma block_read_empty (buf : ℕ → UInt8) : block_read bd lba buf 0 s = (.error .inval, s) := rfl

lemma block_write_empty (buf : ℕ → UInt8) : block_write bd lba buf 0 s = (.error .inval, s) := rfl

section

variable (h : Ready s) (hmax : 0 < (s.dev bd).max_sectors) {bytes : ℕ} (hb : bytes ≠ 0)
  (hin : lba + sectors bytes ≤ (s.dev bd).capacity_sectors) (buf : ℕ → UInt8)
include h hmax hb hin buf

/-- A read in range puts the bytes of the device into the caller's buffer, and no more. -/
lemma wp_block_read :
    wp (block_read bd lba buf bytes)
      (fun buf' t => Kept s t ∧ Ready t ∧
        buf' = copy buf 0 bytes fun i => s.content bd (lba * BLK_SECTOR_SIZE + i))
      (fun _ _ => False) s := by
  have hlt := (s.dev bd).capacity_lt
  have hbytes := bytes_eq bytes
  set whole := bytes / BLK_SECTOR_SIZE with hwhole
  set tail := bytes % BLK_SECTOR_SIZE with htail
  have hsect : whole ≤ sectors bytes := Nat.le_add_right _ _
  rw [block_read, wp_bind]
  refine wp_checkRange hb hin ?_
  rw [wp_bind]
  refine (wp_submitWhole_read h hmax (by omega) buf).mono ?_ fun _ _ he => he
  rintro buf' t ⟨hk, ht, rfl⟩
  by_cases hz : tail = 0
  · rw [if_pos hz]
    have : whole * BLK_SECTOR_SIZE = bytes := by omega
    exact ⟨hk, ht, by rw [← hwhole, this]⟩
  rw [if_neg hz, wp_bind]
  have hsuc : sectors bytes = whole + 1 := sectors_of_tail hz
  rw [← hwhole, mod_eq_of_lt (by omega)]
  refine (wp_submit_read ht (by rwa [hk.dev]) (by omega) fun _ => 0).mono ?_ fun _ _ he => he
  rintro sec u ⟨hku, hu, rfl⟩
  refine ⟨hk.trans hku, hu, ?_⟩
  have htl : tail < BLK_SECTOR_SIZE := Nat.mod_lt _ (by decide)
  have hcopy := copy_append (b := buf) (p := 0) (m := whole * BLK_SECTOR_SIZE) (n := tail)
    (x := fun i => s.content bd (lba * BLK_SECTOR_SIZE + i))
    (y := copy (fun _ => 0) 0 (1 * BLK_SECTOR_SIZE) fun i =>
      t.content bd ((lba + whole) * BLK_SECTOR_SIZE + i))
    (z := fun i => s.content bd (lba * BLK_SECTOR_SIZE + i)) (fun _ _ => rfl) fun i hi => by
      rw [copy, if_pos (by omega), hk.content, Nat.add_mul, Nat.add_assoc, Nat.sub_zero]
  rw [hbytes, Nat.zero_add] at hcopy
  rw [← htail]
  exact hcopy

/-- A write in range leaves the caller's bytes on the device, padded to the end of their last
sector. -/
lemma wp_block_write :
    wp (block_write bd lba buf bytes)
      (fun _ t => Kept (s.overwrite bd lba (sectors bytes) (padded buf bytes)) t ∧ Ready t)
      (fun _ _ => False) s := by
  have hlt := (s.dev bd).capacity_lt
  have hbytes := bytes_eq bytes
  set whole := bytes / BLK_SECTOR_SIZE with hwhole
  set tail := bytes % BLK_SECTOR_SIZE with htail
  have hsect : whole ≤ sectors bytes := Nat.le_add_right _ _
  rw [block_write, wp_bind]
  refine wp_checkRange hb hin ?_
  rw [wp_bind]
  refine (wp_submitWhole_write h hmax (by omega) buf).mono ?_ fun _ _ he => he
  rintro - t ⟨hk, ht⟩
  have hpad : ∀ i < whole * BLK_SECTOR_SIZE, buf i = padded buf bytes i := fun i hi =>
    (if_pos (by omega)).symm
  by_cases hz : tail = 0
  · rw [if_pos hz]
    refine ⟨?_, ht⟩
    rw [sectors_of_dvd hz, ← hwhole, overwrite, ← copy_congr hpad]
    exact hk
  rw [if_neg hz, wp_bind]
  have hsuc : sectors bytes = whole + 1 := sectors_of_tail hz
  rw [← hwhole, mod_eq_of_lt (by omega)]
  have hmax' : 0 < (t.dev bd).max_sectors := by
    rw [hk.dev, overwrite_max]
    exact hmax
  refine (wp_submit_write ht hmax' (by omega) _).mono ?_ fun _ _ he => he
  rintro - u ⟨hku, hu⟩
  refine ⟨?_, hu⟩
  have hall := (hk.overwrite bd (lba + whole) 1 (tailSector buf whole tail)).trans hku
  rw [overwrite_overwrite hpad ?_, ← hsuc] at hall
  · exact hall
  · intro i hi
    rw [tailSector, copy, padded]
    by_cases hit : i < tail
    · rw [if_pos (by omega), if_pos (by omega), Nat.sub_zero]
    · rw [if_neg (by omega), if_neg (by omega)]

end

/-! ## Sequences of calls -/

/-- The states in which the layer is used: lines are coherent, drivers succeed, and what a
caller reaches through the registry can move a sector. -/
structure Sound (s : Blk) (known : List ℕ) : Prop where
  ready : Ready s
  progress : ∀ bd ∈ known, 0 < (s.dev bd).max_sectors

variable {known : List ℕ}

lemma Sound.of_kept (h : Sound s known) (hk : Kept s t) (ht : Ready t) :
    Sound t known := ⟨ht, fun bd hbd => by rw [hk.dev]; exact h.progress bd hbd⟩

/-- A call on one of the `known` devices whose sectors lie on it. -/
def Fits (dev : ℕ → BlockDevice) (known : List ℕ) : Call → Prop
  | .read bd lba _ bytes | .write bd lba _ bytes =>
    bd ∈ known ∧ lba + sectors bytes ≤ (dev bd).capacity_sectors

lemma overwrite_content {n : ℕ} {buf : ℕ → UInt8} :
    (s.overwrite bd lba n buf).content = update s.content bd
      (copy (s.content bd) (lba * BLK_SECTOR_SIZE) (n * BLK_SECTOR_SIZE) buf) :=
  setData_content _

lemma overwrite_capacity {n : ℕ} {buf : ℕ → UInt8} (bd' : ℕ) :
    ((s.overwrite bd lba n buf).dev bd').capacity_sectors = (s.dev bd').capacity_sectors := by
  rcases eq_or_ne bd' bd with rfl | hb
  · simp [overwrite, setData]
  · simp [overwrite, setData, hb]

/-- One call answers and leaves what the plain store does. -/
lemma serve_spec (h : Sound s known) {call : Call} (hfit : Fits s.dev known call) :
    (serve s call).1 = (Store.serve s.content call).1 ∧
      (serve s call).2.content = (Store.serve s.content call).2 ∧
      Sound (serve s call).2 known ∧
      ∀ call', Fits s.dev known call' → Fits (serve s call).2.dev known call' := by
  cases call with
  | read bd lba buf bytes =>
    obtain ⟨hbd, hin⟩ := hfit
    by_cases hb : bytes = 0
    · subst hb
      rw [serve, block_read_empty, Store.serve, if_pos rfl]
      exact ⟨rfl, rfl, h, fun _ hc => hc⟩
    · have hread := wp_block_read h.ready (h.progress bd hbd) hb hin buf
      rw [Store.serve, if_neg hb, serve]
      unfold wp at hread
      rcases hrun : block_read bd lba buf bytes s with ⟨_ | buf', t⟩
      · rw [hrun] at hread
        exact hread.elim
      · rw [hrun] at hread
        obtain ⟨hk, ht, rfl⟩ := hread
        exact ⟨rfl, hk.content, h.of_kept hk ht, fun call' hc => by rwa [hk.dev]⟩
  | write bd lba buf bytes =>
    obtain ⟨hbd, hin⟩ := hfit
    by_cases hb : bytes = 0
    · subst hb
      rw [serve, block_write_empty, Store.serve, if_pos rfl]
      exact ⟨rfl, rfl, h, fun _ hc => hc⟩
    · have hwrite := wp_block_write h.ready (h.progress bd hbd) hb hin buf
      rw [Store.serve, if_neg hb, serve]
      unfold wp at hwrite
      rcases hrun : block_write bd lba buf bytes s with ⟨_ | _, t⟩
      · rw [hrun] at hwrite
        exact hwrite.elim
      · rw [hrun] at hwrite
        obtain ⟨hk, ht⟩ := hwrite
        refine ⟨rfl, hk.content.trans overwrite_content, ⟨ht, fun b hb' => ?_⟩, fun call' hc => ?_⟩
        · rw [hk.dev, overwrite_max]
          exact h.progress b hb'
        · rw [hk.dev]
          cases call' <;> exact ⟨hc.1, by rw [overwrite_capacity]; exact hc.2⟩

/-- Calls one after another do too. -/
lemma serveAll_spec (h : Sound s known) {calls : List Call}
    (hfit : ∀ call ∈ calls, Fits s.dev known call) :
    (serveAll s calls).1 = (Store.serveAll s.content calls).1 ∧
      (serveAll s calls).2.content = (Store.serveAll s.content calls).2 := by
  induction calls generalizing s with
  | nil => exact ⟨rfl, rfl⟩
  | cons call calls ih =>
    obtain ⟨hans, hcont, hsound, hkeep⟩ := serve_spec h (hfit call List.mem_cons_self)
    obtain ⟨hrest, hlast⟩ := ih hsound fun call' hc =>
      hkeep call' (hfit call' (List.mem_cons_of_mem _ hc))
    rw [hcont] at hrest hlast
    refine ⟨?_, hlast⟩
    show (serve s call).1 :: (serveAll (serve s call).2 calls).1
      = (Store.serve s.content call).1 :: _
    rw [hans, hrest]
    rfl

/-! ## From boot -/

lemma register_dev (s : Blk) (bd : ℕ) : (s.block_register bd).dev = s.dev := by
  unfold block_register
  split_ifs <;> rfl

lemma register_caches (s : Blk) (bd : ℕ) : (s.block_register bd).caches = s.caches := by
  unfold block_register
  split_ifs <;> rfl

lemma register_xfers (s : Blk) (bd : ℕ) : (s.block_register bd).xfers = s.xfers := by
  unfold block_register
  split_ifs <;> rfl

/-- What is registered can move a sector. -/
lemma register_progress {s : Blk} (h : ∀ b ∈ s.bdevs, 0 < (s.dev b).max_sectors) (bd : ℕ) :
    ∀ b ∈ (s.block_register bd).bdevs, 0 < (s.dev b).max_sectors := by
  unfold block_register
  split_ifs with hbad hfull
  · exact h
  · exact h
  · intro b hb
    rcases List.mem_append.mp hb with hb | hb
    · exact h b hb
    · obtain rfl := List.mem_singleton.mp hb
      exact Nat.pos_of_ne_zero fun hz => hbad (.inl hz)

/-- The layer after registrations, in any order and with repetitions. -/
def registered (dev : ℕ → BlockDevice) (regs : List ℕ) : Blk :=
  regs.foldl Blk.block_register (boot dev)

lemma registered_spec (dev : ℕ → BlockDevice) (regs : List ℕ) :
    (registered dev regs).dev = dev ∧ (registered dev regs).caches = (boot dev).caches ∧
      (registered dev regs).xfers = [] ∧
      ∀ b ∈ (registered dev regs).bdevs, 0 < (dev b).max_sectors := by
  induction regs using List.reverseRecOn with
  | nil => exact ⟨rfl, rfl, rfl, by simp [registered, boot]⟩
  | append_singleton regs bd ih =>
    obtain ⟨hdev, hca, hx, hp⟩ := ih
    have hlast : registered dev (regs ++ [bd]) = (registered dev regs).block_register bd := by
      simp [registered, List.foldl_append]
    rw [hlast, register_dev, register_caches, register_xfers]
    refine ⟨hdev, hca, hx, ?_⟩
    have := register_progress (s := registered dev regs) (by rwa [hdev]) bd
    rwa [hdev] at this

/-- Every sequence of calls in range, on registered devices whose drivers succeed, answers and
leaves on the devices what a plain store of the bytes last written would, and so does the same
sequence on a layer without a cache. -/
theorem serveAll_refines (dev : ℕ → BlockDevice) (regs : List ℕ) (calls : List Call)
    (hin : ∀ call ∈ calls, call.InRange (registered dev regs)) :
    (serveAll (registered dev regs) calls).1
        = (Store.serveAll (fun bd => (dev bd).data) calls).1 ∧
      (serveAll (registered dev regs) calls).2.content
        = (Store.serveAll (fun bd => (dev bd).data) calls).2 ∧
      (serveAll (registered dev regs).uncached calls).1
        = (serveAll (registered dev regs) calls).1 ∧
      (serveAll (registered dev regs).uncached calls).2.content
        = (serveAll (registered dev regs) calls).2.content := by
  set s := registered dev regs with hs
  obtain ⟨hdev, hcaches, hx, hp⟩ := registered_spec dev regs
  have hclean : Clean s := fun bd c idx _ hv => by
    rw [hcaches] at hv
    exact absurd hv (by simp [boot])
  have hfit : ∀ call ∈ calls, Fits s.dev s.bdevs call := fun call hc => by
    have := hin call hc
    cases call <;> exact this
  have hsound : Sound s s.bdevs := ⟨⟨hclean, hx⟩, by rw [hdev]; exact hp⟩
  -- without a cache no line belongs to a device
  have huncached : Sound s.uncached s.bdevs :=
    ⟨⟨fun bd c idx hc _ => by simp [cache_for, uncached] at hc, hx⟩, hsound.progress⟩
  have hcontent : s.content = fun bd => (dev bd).data := by
    funext bd
    rw [content, hdev]
  obtain ⟨hans, hcont⟩ := serveAll_spec hsound hfit
  have hfit' : ∀ call ∈ calls, Fits s.uncached.dev s.bdevs call := hfit
  obtain ⟨hans', hcont'⟩ := serveAll_spec huncached hfit'
  have hsame : s.uncached.content = s.content := rfl
  rw [hsame, ← hans] at hans'
  rw [hsame, ← hcont] at hcont'
  rw [hcontent] at hans hcont
  exact ⟨hans, hcont, hans', hcont'⟩

/-- A disk of 64 sectors that moves at most three at a time. -/
def smallDisk : BlockDevice := ⟨64, 3, fun i => UInt8.ofNat i, by decide⟩

/-- A read of seven sectors in chunks of three, whose tail goes through the cache, between a
write with a short tail and a cached read of it. -/
def mixedCalls : List Call :=
  [.write 0 4 (fun _ => 7) 700, .read 0 0 (fun _ => 0) 3584, .read 0 5 (fun _ => 0) 100]

theorem serveAll_refines_smallDisk :
    (serveAll (registered (fun _ => smallDisk) [0]) mixedCalls).1
        = (Store.serveAll (fun _ => smallDisk.data) mixedCalls).1 ∧
      (serveAll (registered (fun _ => smallDisk) [0]) mixedCalls).2.content
        = (Store.serveAll (fun _ => smallDisk.data) mixedCalls).2 := by
  have hin : ∀ call ∈ mixedCalls, call.InRange (registered (fun _ => smallDisk) [0]) := by
    intro call hc
    simp only [mixedCalls, List.mem_cons, List.not_mem_nil, or_false] at hc
    rcases hc with rfl | rfl | rfl <;> exact ⟨by decide, by decide⟩
  have h := serveAll_refines (fun _ => smallDisk) [0] mixedCalls hin
  exact ⟨h.1, h.2.1⟩

end MobilePhoneOs.Block
