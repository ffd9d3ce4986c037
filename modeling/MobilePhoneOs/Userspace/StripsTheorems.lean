import MobilePhoneOs.Userspace.CompositorTheorems
import MobilePhoneOs.Userspace.PixelsTheorems

/-!
# When the strips are as good as a redraw

A tick is compared with a redraw pixel by pixel. As the colours on the surfaces are up to the
applications, the two agree for all of them only where they take their pixels from the same place.
-/

namespace MobilePhoneOs

open Function (update update_self update_of_ne)
namespace Ui
namespace Pix

open Layer
open Compositor (flushed ready)

variable {s t : Compositor}

/-! ## Windows are placed -/

lemma newWindow_placed (cl : Client) (a b shm_id : ℤ) : Placed (s.newWindow cl a b shm_id) := by
  have hok := newWindow_ok (s := s) cl a b shm_id
  refine ⟨?_, hok.right, ?_, ?_, hok.pos, nofun⟩
  · show 2 ≤ (UI_SCREEN_W - min _ (UI_SCREEN_W - 8)) / 2
    unfold UI_SCREEN_W
    omega
  · show 2 ≤ UI_STATUS_H + 32
    decide
  · show UI_STATUS_H + 32 + min _ (UI_SCREEN_H - UI_STATUS_H - UI_HOME_H - 8) ≤ UI_SCREEN_H
    unfold UI_SCREEN_H UI_STATUS_H UI_HOME_H
    omega

/-- The rectangle of a `UI_FLUSH`, cut to the window. -/
lemma flushed_clean (w : Window) (a b c d : ℤ) :
    let r := flushed { w with has_dirty := false } a b c d
    flushed w a b c d = if w.has_dirty then
      { w with dx0 := min r.dx0 w.dx0, dy0 := min r.dy0 w.dy0, dx1 := max r.dx1 w.dx1,
               dy1 := max r.dy1 w.dy1 }
    else { w with dx0 := r.dx0, dy0 := r.dy0, dx1 := r.dx1, dy1 := r.dy1, has_dirty := true } := by
  rfl

variable {w : Window}

lemma flushed_clean_inside (hpos : 0 < w.w ∧ 0 < w.h) (a b c d : ℤ) :
    let r := flushed { w with has_dirty := false } a b c d
    (r.dx0 < r.dx1 ∧ r.dx1 ≤ w.w) ∧ r.dy0 < r.dy1 ∧ r.dy1 ≤ w.h := by
  simp only [flushed, Bool.false_eq_true, if_false]
  split <;> omega

lemma flushed_placed (h : Placed w) (a b c d : ℤ) : Placed (flushed w a b c d) := by
  have hr := flushed_clean_inside h.pos a b c d
  have hright := h.right
  have hbottom := h.bottom
  have hold := h.strip
  rw [flushed_clean]
  split
  · rename_i hdirty
    refine ⟨h.left, h.right, h.top, h.bottom, h.pos, fun _ => ?_⟩
    have hold := hold hdirty
    simp only [StripInside] at hold ⊢
    omega
  · refine ⟨h.left, h.right, h.top, h.bottom, h.pos, fun _ => ?_⟩
    simp only [StripInside]
    omega

lemma stable_placed : Stable Placed where
  opened _ := newWindow_placed
  flushed _ a b c d h := flushed_placed h a b c d
  seen _ _ h := ⟨h.left, h.right, h.top, h.bottom, h.pos, h.strip⟩
  presented _ h := ⟨h.left, h.right, h.top, h.bottom, h.pos, nofun⟩

variable {a b d : ℤ}

/-- The rectangle of a window grows until it is presented. -/
lemma flushed_inDirty {c : ℤ} {x y : ℕ}
    (h : (w.has_dirty = true ∧ InDirty w x y) ∨
      InDirty (flushed { w with has_dirty := false } a b c d) x y) :
    InDirty (flushed w a b c d) x y := by
  rw [flushed_clean]
  split
  · simp only [InDirty] at h ⊢
    omega
  · rename_i hclean
    rcases h with ⟨hdirty, -⟩ | hnew
    · exact absurd hdirty hclean
    · exact hnew

/-! ## What is presented -/

variable {i : WinIdx}

lemma mem_presented :
    i ∈ presented s ↔ s.win_dirty_mask i = true ∧ s.ready i = true := by
  rw [presented, List.mem_filter, List.mem_filter]
  simp

lemma ready_iff : s.ready i = true ↔ Shown s i ∧ (s.wins i).has_dirty = true := by
  simp only [ready, Shown, Bool.and_eq_true, and_assoc]

lemma presented_sorted : (presented s).Pairwise (· < ·) :=
  ((List.pairwise_lt_finRange _).filter _).filter _

variable {p : ℕ × ℕ}

variable {v : Src}

lemma strip_some : strip s i p = some v ↔
    InStrip (s.wins i) p ∧ v = .px i (p.1 - (s.wins i).x) (p.2 - (s.wins i).y) := by
  rw [strip]
  split
  · rename_i hr
    rw [Option.some.injEq]
    exact ⟨fun hv => ⟨hr, hv.symm⟩, fun hv => hv.2.symm⟩
  · rename_i hr
    exact ⟨fun hv => absurd hv (by simp), fun hv => absurd hv.1 hr⟩

lemma strip_eq_none : strip s i p = none ↔ ¬ InStrip (s.wins i) p := by
  rw [← not_iff_not, not_not, ← ne_eq, Option.ne_none_iff_exists']
  constructor
  · rintro ⟨v, hv⟩
    exact (strip_some.mp hv).1
  · exact fun h => ⟨_, strip_some.mpr ⟨h, rfl⟩⟩

lemma strips_eq_none :
    strips s p = none ↔ ∀ i ∈ presented s, ¬ InStrip (s.wins i) p := by
  rw [strips, stack_eq_none, List.forall_mem_map]
  exact forall₂_congr fun i _ => strip_eq_none

/-- A pixel in several strips is from the last one. -/
lemma strips_some (h : LastStrip s i p) :
    strips s p = some (.px i (p.1 - (s.wins i).x) (p.2 - (s.wins i).y)) := by
  obtain ⟨hi, hin, hlast⟩ := h
  obtain ⟨xs, ys, heq⟩ := List.append_of_mem hi
  have hsorted := presented_sorted (s := s)
  rw [heq, List.pairwise_append, List.pairwise_cons] at hsorted
  rw [strips, heq, List.map_append, List.map_cons]
  refine stack_eq_some.mpr ⟨_, _, _, rfl, strip_some.mpr ⟨hin, rfl⟩, ?_⟩
  rw [List.forall_mem_map]
  exact fun j hj => strip_eq_none.mpr (hlast j (by rw [heq]; simp [hj]) (hsorted.2.1.1 j hj))

/-- Where there are strips, one of them is the last. -/
lemma exists_lastStrip (h : strips s p ≠ none) : ∃ i, LastStrip s i p := by
  obtain ⟨v, hv⟩ := Option.ne_none_iff_exists'.mp h
  obtain ⟨xs, l, ys, hmap, hl, hys⟩ := stack_eq_some.mp hv
  obtain ⟨is, js, heq, rfl, hjs⟩ := List.map_eq_append_iff.mp hmap
  obtain ⟨i, ks, rfl, rfl, rfl⟩ := List.map_eq_cons_iff.mp hjs
  refine ⟨i, by rw [heq]; simp, (strip_some.mp hl).1, fun j hj hij => ?_⟩
  have hsorted := presented_sorted (s := s)
  rw [heq, List.pairwise_append] at hsorted
  rw [heq, List.mem_append, List.mem_cons] at hj
  rcases hj with hj | rfl | hj
  · exact absurd hij (lt_asymm (hsorted.2.2 j hj i (by simp)))
  · exact absurd hij (lt_irrefl j)
  · exact strip_eq_none.mp (hys _ (List.mem_map.mpr ⟨j, hj, rfl⟩))

/-- A strip that lies in its window is copied from the dirty rectangle. -/
lemma inStrip_of_inDirty (hr : Rect w.x w.y w.w w.h p)
    (h : InDirty w (p.1 - w.x) (p.2 - w.y)) : InStrip w p := by
  simp only [InStrip, InDirty, Rect] at *
  omega

/-! ## One tick -/

/-- The colours of two pixels are the same for all surfaces only if they are the same pixel. -/
lemma src_ext {v' : Src} (h : ∀ surf : Surfaces, v.color surf = v'.color surf) : v = v' := by
  cases v with
  | ink c =>
    cases v' with
    | ink c' => exact congrArg Src.ink (h fun _ _ _ => 0)
    | px i x y => exact absurd (h fun _ _ _ => c + 1) (Nat.succ_ne_self c).symm
  | px i x y =>
    cases v' with
    | ink c => exact absurd (h fun _ _ _ => c + 1) (Nat.succ_ne_self c)
    | px i' x' y' =>
      have hone := h fun j k l => if Src.px j k l = .px i x y then 1 else 0
      simp only [Src.color, if_true] at hone
      by_contra hne
      rw [if_neg (Ne.symm hne)] at hone
      exact absurd hone (by decide)

/-- The stage holds what a redraw painted, with the colours that the surfaces had. -/
def Painted (s : Compositor) (drawn : Chrome) (surf : Surfaces) (px : Picture) : Prop :=
  ∀ p v, OnStage p → redrawStage s drawn p = some v → px p = v.color surf

variable {ch : Chrome}

lemma exact_iff {S : Screen} {px : Picture} :
    Exact S ch px ↔ Painted S.comp ch S.surf px := by
  constructor
  · intro h p v hp hv
    rw [h p hp, paint_some hv]
  · intro h p hp
    obtain ⟨v, hv⟩ := Option.ne_none_iff_exists'.mp (redrawStage_ne_none (s := S.comp) ch hp)
    rw [paint_some hv]
    exact h p v hp hv

variable {S T : Screen}

lemma shown_placed (hplaced : All Placed s) (i : WinIdx) (h : Shown s i) : Placed (s.wins i) :=
  hplaced i h.1

/-- The strips bring the stage up to date. -/
lemma afterStrips_painted (hplaced : All Placed S.comp)
    (hhonest : Honest S.comp S.synced S.surf) (hpx : Painted S.comp S.drawn S.synced S.px)
    (hstrips : ClearStrips S.comp ch) (hrest : Unmoved S.comp S.drawn ch) :
    Painted S.comp ch S.surf S.afterStrips := by
  intro p v hp hv
  rw [Screen.afterStrips]
  by_cases hnone : strips S.comp p = none
  · -- away from the strips a redraw paints what is there
    have hsame := hrest p hp (strips_eq_none.mp hnone)
    rw [paint_none hnone, hpx p v hp (hsame.trans hv)]
    cases v with
    | ink c => rfl
    | px i x y =>
      obtain ⟨hshows, rfl, rfl⟩ := (redrawStage_px (shown_placed hplaced) hp).mp hv
      by_contra hne
      obtain ⟨hi, hdirty⟩ := hhonest i _ _ hshows.shown (Ne.symm hne)
      exact strips_eq_none.mp hnone i hi (inStrip_of_inDirty hshows.surface hdirty)
  · obtain ⟨i, hlast⟩ := exists_lastStrip hnone
    have hpxs := (redrawStage_px (shown_placed hplaced) hp).mpr ⟨hstrips i p hlast, rfl, rfl⟩
    rw [paint_some (strips_some hlast), Option.some.inj (hv.symm.trans hpxs)]

/-- The screen with the stage as a redraw left it, and all surfaces as they were then. -/
def still (s : Compositor) (drawn : Chrome) (surf : Surfaces) : Screen :=
  ⟨s, surf, (redrawStage s drawn).paint (Src.color surf) fun _ => 0, drawn, surf⟩

lemma still_px {drawn : Chrome} {surf : Surfaces}
    (hv : redrawStage s drawn p = some v) : (still s drawn surf).px p = v.color surf := by
  show (redrawStage s drawn).paint (Src.color surf) (fun _ => 0) p = Src.color surf v
  rw [paint_some hv]

/-- The condition is needed already when no surface has changed. -/
lemma clear_of_exact {drawn : Chrome} (hplaced : All Placed s)
    (h : ∀ surf, Exact (still s drawn surf) ch (still s drawn surf).afterStrips) :
    ClearStrips s ch ∧ Unmoved s drawn ch := by
  have hpainted : ∀ surf, Painted s ch surf (still s drawn surf).afterStrips := by
    intro surf
    exact (@exact_iff ch (still s drawn surf) _).mp (h surf)
  constructor
  · intro i p hlast
    have hstrip := (hplaced i (ready_iff.mp (mem_presented.mp hlast.1).2).1.1).strip
      (ready_iff.mp (mem_presented.mp hlast.1).2).2
    have hin := hlast.2.1
    have hp : OnStage p := by
      simp only [InStrip, Rect, StripInside] at hin hstrip
      exact ⟨by omega, by omega⟩
    obtain ⟨v, hv⟩ := Option.ne_none_iff_exists'.mp (redrawStage_ne_none (s := s) ch hp)
    have hsame : v = .px i (p.1 - (s.wins i).x) (p.2 - (s.wins i).y) := by
      apply src_ext
      intro surf
      rw [← hpainted surf p v hp hv]
      exact paint_some (strips_some hlast)
    exact ((redrawStage_px (shown_placed hplaced) hp).mp (hsame ▸ hv)).1
  · intro p hp hnone
    obtain ⟨v, hv⟩ := Option.ne_none_iff_exists'.mp (redrawStage_ne_none (s := s) ch hp)
    obtain ⟨v', hv'⟩ := Option.ne_none_iff_exists'.mp (redrawStage_ne_none (s := s) drawn hp)
    have hsame : v' = v := by
      apply src_ext
      intro surf
      rw [← hpainted surf p v hp hv, ← still_px hv']
      exact (paint_none (strips_eq_none.mpr hnone)).symm
    rw [hv, hv', hsame]

/-! ## Runs -/

/-- The window without its dirty rectangle. -/
def look (w : Window) : Window := { w with has_dirty := false, dx0 := 0, dy0 := 0, dx1 := 0, dy1 := 0 }

/-- Frames and ticks leave what a redraw looks at. -/
structure SameLook (s t : Compositor) : Prop where
  wins : ∀ i, look (t.wins i) = look (s.wins i)
  focused : t.focused = s.focused
  mode : t.mode = s.mode
  pin : t.pin = s.pin
  until_ms : t.until_ms = s.until_ms

lemma SameLook.refl : SameLook s s := ⟨fun _ => rfl, rfl, rfl, rfl, rfl⟩

lemma SameLook.trans {u : Compositor} (h : SameLook s t) (h' : SameLook t u) : SameLook s u :=
  ⟨fun i => (h'.wins i).trans (h.wins i), h'.focused.trans h.focused, h'.mode.trans h.mode,
    h'.pin.trans h.pin, h'.until_ms.trans h.until_ms⟩

lemma SameLook.setWin (hw : look w = look (s.wins i)) :
    SameLook s (s.setWin i w) := by
  refine ⟨fun j => ?_, rfl, rfl, rfl, rfl⟩
  show look (update s.wins i w j) = _
  by_cases hj : j = i
  · rw [hj, update_self, hw]
  · rw [update_of_ne hj]

lemma SameLook.shown (h : SameLook s t) : Shown t i ↔ Shown s i := by
  have hw := h.wins i
  simp only [look, Window.mk.injEq] at hw
  simp only [Shown, hw]

lemma SameLook.drawWindow (h : SameLook s t) (i : WinIdx) : drawWindow t i = drawWindow s i := by
  have hw := h.wins i
  simp only [look, Window.mk.injEq] at hw
  have hblit : blitWindow i (t.wins i) = blitWindow i (s.wins i) := by
    funext p
    simp only [blitWindow, hw]
  by_cases hs : Shown s i
  · rw [Pix.drawWindow, Pix.drawWindow, if_pos (h.shown.mpr hs), if_pos hs]
    simp only [hblit, hw, h.focused]
  · rw [Pix.drawWindow, Pix.drawWindow, if_neg fun ht => hs (h.shown.mp ht), if_neg hs]

lemma SameLook.drawBanner (h : SameLook s t) (ch : Chrome) (k : Fin MAX_BANNERS) :
    drawBanner t ch k = drawBanner s ch k := by
  have hexpired : t.expired ch.now k = s.expired ch.now k := by
    rw [Compositor.expired, Compositor.expired, h.until_ms]
  rw [Pix.drawBanner, Pix.drawBanner, hexpired]

lemma SameLook.redrawStage (h : SameLook s t) (ch : Chrome) : redrawStage t ch = redrawStage s ch := by
  have hwins : drawAppWindows t = drawAppWindows s := by
    rw [drawAppWindows, drawAppWindows, h.focused, funext h.drawWindow]
  have hbanners : drawBanners t ch = drawBanners s ch := by
    rw [drawBanners, drawBanners, funext (h.drawBanner ch)]
  rw [Pix.redrawStage, Pix.redrawStage, h.mode, h.pin, hwins, hbanners]

lemma presentAll_sameLook (dirty : List WinIdx) : SameLook s (s.presentAll dirty).1 := by
  induction dirty generalizing s with
  | nil => exact .refl
  | cons i dirty ih =>
    rw [Compositor.presentAll]
    split
    · have hset : SameLook s (s.setWin i { s.wins i with has_dirty := false }) := .setWin rfl
      have hstrip : SameLook s (s.presentWindowStrip i).1 :=
        ⟨hset.wins, hset.focused, hset.mode, hset.pin, hset.until_ms⟩
      exact hstrip.trans ih
    · exact ih

lemma presentAll_need_redraw (dirty : List WinIdx) :
    (s.presentAll dirty).1.need_redraw = s.need_redraw := by
  induction dirty generalizing s with
  | nil => rfl
  | cons i dirty ih =>
    rw [Compositor.presentAll]
    split
    · exact ih
    · exact ih

lemma renderTick_sameLook (hquiet : s.need_redraw = false) (now : ℕ) :
    SameLook s (s.renderTick now).1 ∧ (s.renderTick now).1.need_redraw = false := by
  have hlook := presentAll_sameLook (s := { s with win_dirty_mask := fun _ => false })
    ((List.finRange MAX_WINS).filter s.win_dirty_mask)
  have hneed := presentAll_need_redraw (s := { s with win_dirty_mask := fun _ => false })
    ((List.finRange MAX_WINS).filter s.win_dirty_mask)
  have hneed := hneed.trans hquiet
  unfold Compositor.renderTick Compositor.recompose
  simp only [hneed, Bool.false_eq_true, if_false]
  split
  · exact ⟨⟨hlook.wins, hlook.focused, hlook.mode, hlook.pin, hlook.until_ms⟩, rfl⟩
  · exact ⟨⟨hlook.wins, hlook.focused, hlook.mode, hlook.pin, hlook.until_ms⟩, hneed⟩

variable {c : Fin MAX_CLIENTS} {c' : ℤ}

lemma flush_eq (hi : s.winOf c = some i) :
    (s.clientMsg c (.UI_FLUSH a b c' d)).1 = { s.setWin i (flushed (s.wins i) a b c' d) with
      win_dirty_mask := update s.win_dirty_mask i true } := by
  rw [Compositor.clientMsg, hi]

lemma look_flushed (w : Window) (a b c d : ℤ) : look (flushed w a b c d) = look w := by
  rw [flushed_clean]
  split <;> rfl

lemma flush_sameLook (hi : s.winOf c = some i) :
    SameLook s (s.clientMsg c (.UI_FLUSH a b c' d)).1 := by
  rw [flush_eq hi]
  have hset := SameLook.setWin (s := s) (look_flushed (s.wins i) a b c' d)
  exact ⟨hset.wins, hset.focused, hset.mode, hset.pin, hset.until_ms⟩

/-- The invariant between two redraws: what the stage lacks of a redraw is in dirty rectangles. -/
structure Synced (S : Screen) : Prop where
  placed : All Placed S.comp
  quiet : S.comp.need_redraw = false
  honest : Honest S.comp S.synced S.surf
  px : Painted S.comp S.drawn S.synced S.px

lemma Redrawn.synced_inv (h : Redrawn S) (hplaced : All Placed S.comp) : Synced S := by
  refine ⟨hplaced, h.quiet, fun i x y _ hne => absurd (by rw [h.synced]) hne, fun p v hp hv => ?_⟩
  obtain ⟨old, hold⟩ := h.px
  rw [hold, paint_some hv, h.synced]

/-- What was painted since the last strip lies in the rectangle of the flush. -/
lemma flush_honest {synced surf surf' : Surfaces}
    (hi : s.winOf c = some i) (h : Honest s synced surf)
    (hpaint : ∀ j x y, Shown s j → surf' j x y ≠ surf j x y → j = i ∧
      InDirty (flushed { s.wins i with has_dirty := false } a b c' d) x y) :
    Honest (s.clientMsg c (.UI_FLUSH a b c' d)).1 synced surf' := by
  intro j x y hshown hne
  have hshown' := (flush_sameLook hi).shown.mp hshown
  rw [mem_presented, ready_iff, and_iff_right hshown]
  have hcases : (j ∈ presented s ∧ InDirty (s.wins j) x y) ∨ (j = i ∧
      InDirty (flushed { s.wins i with has_dirty := false } a b c' d) x y) := by
    by_cases hsurf : surf' j x y = surf j x y
    · exact .inl (h j x y hshown' (by rwa [← hsurf]))
    · exact .inr (hpaint j x y hshown' hsurf)
  rw [flush_eq hi]
  show (update s.win_dirty_mask i true j = true ∧
    (update s.wins i (flushed (s.wins i) a b c' d) j).has_dirty = true) ∧
      InDirty (update s.wins i (flushed (s.wins i) a b c' d) j) x y
  by_cases hj : j = i
  · subst hj
    rw [update_self, update_self]
    refine ⟨⟨rfl, ?_⟩, flushed_inDirty ?_⟩
    · rw [flushed_clean]
      split
      · rename_i hdirty
        exact hdirty
      · rfl
    · exact hcases.imp (fun hold => ⟨(ready_iff.mp (mem_presented.mp hold.1).2).2, hold.2⟩)
        And.right
  · obtain ⟨hold, hin⟩ := hcases.resolve_right fun hnew => hj hnew.1
    rw [update_of_ne hj, update_of_ne hj]
    exact ⟨⟨(mem_presented.mp hold).1, (ready_iff.mp (mem_presented.mp hold).2).2⟩, hin⟩

/-- A clear tick brings the stage up to date. -/
lemma Synced.painted (h : Synced S) (hclear : Clear S.comp S.drawn ch) :
    Painted S.comp ch S.surf S.afterStrips :=
  afterStrips_painted h.placed h.honest h.px hclear.strips fun p _ _ => by
    rw [hclear.steady.redrawStage]

lemma Synced.lawful (h : Synced S) {e : Ev} (hclear : ClearTick S e) : Lawful S e := by
  cases e with
  | frame => trivial
  | tick ch =>
    refine ⟨exact_iff.mpr (h.painted hclear), fun i hi => ?_⟩
    have hready := ready_iff.mp (mem_presented.mp hi).2
    exact (h.placed i hready.1.1).strip hready.2

/-- The repainted status bar is that of a redraw. -/
lemma afterTick_painted (h : Painted S.comp ch S.surf S.afterStrips) :
    Painted S.comp ch S.surf (S.afterTick ch) := by
  intro p v hp hv
  rw [Screen.afterTick]
  split
  · cases hbar : drawStatusBar ch p with
    | none =>
      rw [paint_none hbar]
      exact h p v hp hv
    | some u => rw [paint_some hbar, Option.some.inj (hv.symm.trans (redrawStage_status hp hbar))]
  · exact h p v hp hv

lemma Synced.step {e : Ev} (h : Synced S) (hs : Guarded ClearTick Between S e T) : Synced T := by
  obtain ⟨hclear, hs⟩ := hs
  cases e with
  | frame c a b c' d surf =>
    obtain ⟨i, hi, hpaint, rfl⟩ := hs
    refine ⟨h.placed.clientMsg stable_placed c _, ?_, flush_honest hi h.honest hpaint, ?_⟩
    · rw [flush_eq hi]
      exact h.quiet
    · intro p v hp hv
      refine h.px p v hp ?_
      rw [← hv]
      rw [(flush_sameLook hi).redrawStage]
  | tick ch =>
    obtain ⟨hquiet, rfl⟩ := hs
    obtain ⟨hlook, hneed⟩ := renderTick_sameLook hquiet ch.now
    refine ⟨?_, hneed, fun i x y _ hne => absurd rfl hne, fun p v hp hv => ?_⟩
    · exact h.placed.step stable_placed (a := (.render ch.now, _)) ⟨trivial, rfl⟩
    · rw [hlook.redrawStage] at hv
      exact afterTick_painted (h.painted hclear) p v hp hv

/-- A run whose ticks are clear is lawful. -/
lemma Synced.run {es : List Ev} (h : Synced S) (hrun : Run (Guarded ClearTick Between) S es T) :
    Synced T ∧ Run (fun S e T => Between S e T ∧ Lawful S e) S es T := by
  induction hrun with
  | nil => exact ⟨h, .nil⟩
  | snoc _ hs ih => exact ⟨ih.1.step hs, ih.2.snoc ⟨hs.2, ih.1.lawful hs.1⟩⟩

/-- In every state of the compositor the strips lie in their windows and on the stage; a tick
leaves what a redraw would, for all surfaces, exactly when its strips are clear and nothing else
has moved; and after a redraw every run of frames and ticks whose ticks are clear has the stage of
a redraw at each of them. -/
theorem strips_exact {stage : Stage} {x y : ℤ} {as : List (Event × List Out)}
    (hreach : Run Step (boot stage x y) as s) :
    (∀ i ∈ presented s, StripInside (s.wins i)) ∧
    (∀ drawn ch, (∀ surf synced px, Honest s synced surf → Lawful
      ⟨s, surf, (redrawStage s drawn).paint (Src.color synced) px, drawn, synced⟩ (.tick ch)) ↔
        ClearStrips s ch ∧ Unmoved s drawn ch) ∧
    ∀ S es T, S.comp = s → Redrawn S → Run (Guarded ClearTick Between) S es T →
      Run (fun S e T => Between S e T ∧ Lawful S e) S es T := by
  have hplaced : All Placed s :=
    hreach.invariant (fun _ hu => absurd hu Bool.false_ne_true) fun _ _ _ h hs => h.step stable_placed hs
  have hinside : ∀ i ∈ presented s, StripInside (s.wins i) := by
    intro i hi
    have hready := ready_iff.mp (mem_presented.mp hi).2
    exact (hplaced i hready.1.1).strip hready.2
  refine ⟨hinside, fun drawn ch => ⟨fun h => ?_, fun ⟨hstrips, hrest⟩ surf synced px hhonest => ?_⟩, ?_⟩
  · exact clear_of_exact hplaced fun surf => (h surf surf _ fun _ _ _ _ hne => absurd rfl hne).1
  · refine ⟨exact_iff.mpr
      (afterStrips_painted hplaced hhonest (fun p v hp hv => ?_) hstrips hrest), hinside⟩
    exact paint_some hv
  · rintro S es T rfl hredrawn hrun
    exact ((hredrawn.synced_inv hplaced).run hrun).2

/-! ## One window -/

/-- A chrome with nothing to tell. -/
def plain : Chrome where
  sig_bars := 0
  call_state := []
  call_state_lt := by decide
  batt_pct := 0
  batt_pct_lt := by decide
  batt_charging := false
  unread_sms := 0
  epoch := 0
  now := 1000
  text := fun _ => []
  text_lt := fun _ => by decide
  kind := fun _ => 0

def first : Fin MAX_CLIENTS := ⟨0, by decide⟩

/-- An application has opened a window and shows it. -/
def up : Compositor :=
  let s := (boot (fun _ _ => false) 0 0).accept 3 true
  let s := (s.clientMsg first (.UI_OPEN 0 0 0 (some 5))).1
  let s := (s.clientMsg first .UI_SHOW).1
  (s.renderTick 1000).1

lemma Step.of_act {e : Event} (h : s.Enabled e) : Step s (e, (s.act e).2) (s.act e).1 := ⟨h, rfl⟩

lemma up_reached : ∃ as, Run Step (boot (fun _ _ => false) 0 0) as up := by
  have haccept := Run.single (Step.of_act (s := boot (fun _ _ => false) 0 0)
    (e := .accept 3 true) trivial)
  have hopen := haccept.snoc (Step.of_act (e := .msg first (.UI_OPEN 0 0 0 (some 5))) rfl)
  have hshow := hopen.snoc (Step.of_act (e := .msg first .UI_SHOW) rfl)
  exact ⟨_, hshow.snoc (Step.of_act (e := .render 1000) trivial)⟩

lemma still_redrawn (hquiet : s.need_redraw = false) (drawn : Chrome) (surf : Surfaces) :
    Redrawn (still s drawn surf) := ⟨hquiet, ⟨_, rfl⟩, rfl⟩

def w0 : WinIdx := ⟨0, by decide⟩

/-- The application has flushed a rectangle. -/
def flushedUp (a b c d : ℤ) (surf : Surfaces) : Screen :=
  { still up plain surf with comp := (up.clientMsg first (.UI_FLUSH a b c d)).1 }

lemma flush_between (a b c d : ℤ) (surf : Surfaces) :
    Between (still up plain surf) (.frame first a b c d surf) (flushedUp a b c d surf) :=
  ⟨w0, rfl, fun _ _ _ _ hne => absurd rfl hne, rfl⟩

lemma flushedUp_eq (a b c d : ℤ) (surf : Surfaces) :
    flushedUp a b c d surf = still (flushedUp a b c d surf).comp plain surf := by
  have hlook : SameLook up (flushedUp a b c d surf).comp := flush_sameLook (i := w0) rfl
  rw [still, hlook.redrawStage]
  rfl

lemma presented_up (a b c d : ℤ) (surf : Surfaces) : presented (flushedUp a b c d surf).comp = [w0] :=
  rfl

/-- A rectangle below the title is clear. -/
lemma clear_below_title (surf : Surfaces) :
    Clear (flushedUp 10 30 20 20 surf).comp plain plain := by
  refine ⟨fun i p hlast => ?_, ⟨fun _ _ => .rfl, rfl, rfl, rfl, fun _ => rfl, fun _ => rfl,
    fun _ => rfl, fun _ _ => rfl, fun _ _ => rfl⟩⟩
  obtain ⟨hi, hin, -⟩ := hlast
  rw [presented_up, List.mem_singleton] at hi
  subst hi
  have hin : Rect 170 86 20 20 p := hin
  obtain ⟨⟨hl, hr⟩, ht, hb⟩ := hin
  refine ⟨rfl, ⟨rfl, rfl, rfl⟩, ?_, ?_, fun j hafter => absurd rfl hafter.1, ?_, fun k hk => ?_⟩
  · show Rect 160 56 480 360 p
    exact ⟨⟨by omega, by omega⟩, by omega, by omega⟩
  · show 56 + 20 ≤ p.2
    omega
  · show 24 ≤ p.2 ∧ p.2 < 600 - 24
    omega
  · exact absurd (show true = false from hk) (by decide)

/-- The surface with a rectangle in another colour. -/
def painted : Surfaces := fun i x y =>
  if i = w0 ∧ (10 ≤ x ∧ x < 30) ∧ 30 ≤ y ∧ y < 50 then 9 else 7

lemma painted_between : Between (still up plain fun _ _ _ => 7) (.frame first 10 30 20 20 painted)
    { flushedUp 10 30 20 20 fun _ _ _ => 7 with surf := painted } := by
  refine ⟨w0, rfl, fun j x y _ hne => ?_, rfl⟩
  by_contra hout
  exact hne (if_neg hout)

/-- The application paints a rectangle below the title and flushes it. -/
theorem strips_exact_below_title :
    ∃ T, Run (fun S e T => Between S e T ∧ Lawful S e) (still up plain fun _ _ _ => 7)
      ([.frame first 10 30 20 20 painted] ++ [.tick plain]) T := by
  obtain ⟨as, hreach⟩ := up_reached
  have hpaint : Run (Guarded ClearTick Between) (still up plain fun _ _ _ => 7)
      [.frame first 10 30 20 20 painted] _ := Run.single ⟨trivial, painted_between⟩
  exact ⟨_, (strips_exact hreach).2.2 _ _ _ rfl (still_redrawn rfl _ _)
    (hpaint.snoc ⟨clear_below_title fun _ _ _ => 7, rfl, rfl⟩)⟩

/-- The application flushes its whole window: the strip covers the title. -/
theorem strip_covers_title : ¬ ∀ stage x y as s S es T ch U, Run Step (boot stage x y) as s →
    S.comp = s → Redrawn S → Run Between S es T → Between T (.tick ch) U →
      Lawful T (.tick ch) := by
  intro hall
  obtain ⟨as, hreach⟩ := up_reached
  have hlawful : ∀ surf, Lawful (flushedUp 0 0 0 0 surf) (.tick plain) := fun surf =>
    hall _ _ _ _ _ (still up plain surf) _ _ plain _ hreach rfl (still_redrawn rfl _ _)
      (.single (flush_between _ _ _ _ _)) ⟨rfl, rfl⟩
  have hplaced : All Placed (flushedUp 0 0 0 0 fun _ _ _ => 0).comp := by
    have hup : All Placed up :=
      hreach.invariant (fun _ hu => absurd hu Bool.false_ne_true) fun _ _ _ h hs =>
        h.step stable_placed hs
    exact hup.clientMsg stable_placed _ _
  have hclear : ClearStrips _ plain ∧ Unmoved _ plain plain := clear_of_exact hplaced fun surf => by
    have hexact := (hlawful surf).1
    rw [flushedUp_eq] at hexact
    exact hexact
  have hshows := hclear.1 w0 (160, 56) ⟨by rw [presented_up]; simp, ?_, ?_⟩
  · exact absurd hshows.title (by decide)
  · show Rect 160 56 480 360 (160, 56)
    decide
  · intro j hj hlt
    rw [presented_up, List.mem_singleton] at hj
    exact absurd hlt (by rw [hj]; exact lt_irrefl _)

end Pix
end Ui
end MobilePhoneOs
