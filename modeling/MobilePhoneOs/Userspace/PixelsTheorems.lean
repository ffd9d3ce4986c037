import MobilePhoneOs.Userspace.Strips

/-!
# Where a redraw shows the surface of a window

The layers of a redraw are gone through from the top: banners, bars, windows. What they leave of
a window is exactly where a strip of the window may be copied.
-/

namespace MobilePhoneOs

open List (length_cons mem_append mem_cons mem_map not_mem_nil)
namespace Ui
namespace Pix

open Layer
open Option (ne_none_iff_exists' none_or or_eq_none_iff or_eq_some_iff)

variable {s t : Compositor}

/-! ## Drawing calls -/

def Src.Ink (v : Src) : Prop := ∃ c, v = .ink c

variable {i : WinIdx} {x y : ℕ}

lemma not_ink_px : ¬ (Src.px i x y).Ink := nofun

/-- A layer with colours of the compositor in the area `A`. -/
abbrev InkIn (A : ℕ × ℕ → Prop) : Paint → Prop := Paints fun p v => v.Ink ∧ A p

variable {p : ℕ × ℕ}

lemma uiFill_some {w h c : ℕ} (hp : OnStage p) (hr : Rect x y w h p) :
    uiFill x y w h c p = some (.ink c) := if_pos ⟨hr, hp⟩

lemma uiFill_inkIn (x y w h c : ℕ) : InkIn (Rect x y w h) (uiFill x y w h c) := by
  intro p v hv
  rw [uiFill] at hv
  split at hv
  · rename_i hr
    exact ⟨⟨c, (Option.some.inj hv).symm⟩, hr.1⟩
  · exact absurd hv (by simp)

lemma inkIn_none (A : ℕ × ℕ → Prop) : InkIn A (stack []) := paints_none _

lemma InkIn.mono {A B : ℕ × ℕ → Prop} {l : Paint} (h : InkIn A l) (hAB : ∀ p, A p → B p) :
    InkIn B l := Paints.mono h fun p _ hv => ⟨hv.1, hAB p hv.2⟩

/-- The four fills of `ui_rect` are the edge. -/
lemma uiRect_inkIn (x y w h c : ℕ) : InkIn (Edge x y w h) (uiRect x y w h c) := by
  rw [uiRect]
  split
  · exact inkIn_none _
  · refine paints_stack fun l hl => ?_
    simp only [mem_cons, not_mem_nil, or_false] at hl
    rcases hl with rfl | rfl | rfl | rfl
    · exact (uiFill_inkIn _ _ _ _ _).mono fun p hp => .inl hp
    · exact (uiFill_inkIn _ _ _ _ _).mono fun p hp => .inr (.inl hp)
    · exact (uiFill_inkIn _ _ _ _ _).mono fun p hp => .inr (.inr (.inl hp))
    · exact (uiFill_inkIn _ _ _ _ _).mono fun p hp => .inr (.inr (.inr hp))

/-- The edge of a rectangle that is not empty is drawn. -/
lemma uiRect_ne_none {w h c : ℕ} (hw : 0 < w) (hh : 0 < h) (hp : OnStage p)
    (he : Edge x y w h p) : uiRect x y w h c p ≠ none := by
  rw [uiRect, if_neg (by omega)]
  rcases he with he | he | he | he
  · exact stack_ne_none (l := uiFill x y w 1 c) (by simp) (by rw [uiFill_some hp he]; nofun)
  · exact stack_ne_none (l := uiFill x (y + h - 1) w 1 c) (by simp)
      (by rw [uiFill_some hp he]; nofun)
  · exact stack_ne_none (l := uiFill x y 1 h c) (by simp) (by rw [uiFill_some hp he]; nofun)
  · exact stack_ne_none (l := uiFill (x + w - 1) y 1 h c) (by simp)
      (by rw [uiFill_some hp he]; nofun)

/-- A text stays in a box of eight columns for each character. -/
lemma uiText_inkIn (x y : ℕ) (str : Str) (fg bg : ℕ) :
    InkIn (Rect x y (uiTextW str) 8) (uiText x y str fg bg) := by
  induction str generalizing x with
  | nil => exact inkIn_none _
  | cons c str ih =>
    rw [uiText]
    refine paints_stack fun l hl => ?_
    simp only [mem_cons, not_mem_nil, or_false] at hl
    rcases hl with rfl | rfl
    · intro p v hv
      rw [uiGlyph] at hv
      split at hv
      · rename_i hr
        refine ⟨⟨_, (Option.some.inj hv).symm⟩, ?_⟩
        simp only [Rect, uiTextW, length_cons] at hr ⊢
        omega
      · exact absurd hv (by simp)
    · refine (ih (x + 8)).mono fun p hp => ?_
      simp only [Rect, uiTextW, length_cons] at hp ⊢
      omega

/-- The text is drawn in the whole of its box. -/
lemma uiText_ne_none {str : Str} {fg bg : ℕ} (hp : OnStage p)
    (hr : Rect x y (uiTextW str) 8 p) : uiText x y str fg bg p ≠ none := by
  induction str generalizing x with
  | nil =>
    simp only [Rect, uiTextW, List.length_nil] at hr
    omega
  | cons c str ih =>
    rw [uiText]
    by_cases hc : p.1 < x + 8
    · refine stack_ne_none (l := uiGlyph x y c fg bg) (by simp) ?_
      rw [uiGlyph, if_pos]
      · nofun
      · simp only [Rect, uiTextW, length_cons] at hr ⊢
        exact ⟨by omega, hp⟩
    · refine stack_ne_none (l := uiText (x + 8) y str fg bg) (by simp) (ih ?_)
      simp only [Rect, uiTextW, length_cons] at hr ⊢
      omega

lemma uiButton_inkIn (x y w h : ℕ) (txt : Str) (pressed : Bool) :
    InkIn (fun _ => True) (uiButton x y w h txt pressed) := by
  refine paints_stack fun l hl => ?_
  simp only [mem_cons, not_mem_nil, or_false] at hl
  rcases hl with rfl | rfl | rfl
  · exact (uiFill_inkIn _ _ _ _ _).mono fun _ _ => trivial
  · exact (uiRect_inkIn _ _ _ _ _).mono fun _ _ => trivial
  · exact (uiText_inkIn _ _ _ _ _).mono fun _ _ => trivial

/-! ## Bars and banners -/

/-- Every part of the status bar lies in its rows. -/
lemma drawStatusBar_inkIn (ch : Chrome) : InkIn (fun p => p.2 < UI_STATUS_H) (drawStatusBar ch) := by
  have hrow : ∀ x w (p : ℕ × ℕ), Rect x 8 w 8 p → p.2 < UI_STATUS_H := by
    intro x w p hp
    have hh : UI_STATUS_H = 24 := rfl
    simp only [Rect] at hp
    omega
  refine paints_stack fun l hl => ?_
  rcases mem_append.mp hl with hl | hl
  · rcases mem_append.mp hl with hl | hl
    · rw [List.mem_singleton.mp hl]
      refine (uiFill_inkIn _ _ _ _ _).mono fun p hp => ?_
      simp only [Rect] at hp
      omega
    · obtain ⟨i, hi, rfl⟩ := mem_map.mp hl
      have hi := List.mem_range.mp hi
      refine (uiFill_inkIn _ _ _ _ _).mono fun p hp => ?_
      have hh : UI_STATUS_H = 24 := rfl
      simp only [Rect] at hp
      omega
  · simp only [mem_cons, not_mem_nil, or_false] at hl
    rcases hl with rfl | rfl | rfl
    · split
      · exact (uiText_inkIn _ _ _ _ _).mono (hrow _ _)
      · exact inkIn_none _
    · exact (uiText_inkIn _ _ _ _ _).mono (hrow _ _)
    · split
      · exact (uiText_inkIn _ _ _ _ _).mono (hrow _ _)
      · exact inkIn_none _

/-- The fill under the status bar leaves no gap. -/
lemma drawStatusBar_ne_none (ch : Chrome) (hp : OnStage p) (hrow : p.2 < UI_STATUS_H) :
    drawStatusBar ch p ≠ none := by
  have hfill : uiFill 0 0 UI_SCREEN_W UI_STATUS_H panel p = some (.ink panel) := by
    refine uiFill_some hp ⟨⟨Nat.zero_le _, ?_⟩, Nat.zero_le _, ?_⟩
    · rw [Nat.zero_add]
      exact hp.1
    · rw [Nat.zero_add]
      exact hrow
  exact stack_ne_none (l := uiFill 0 0 UI_SCREEN_W UI_STATUS_H panel) (by simp)
    (by rw [hfill]; nofun)

lemma drawHomeBar_inkIn : InkIn (fun p => UI_SCREEN_H - UI_HOME_H ≤ p.2) drawHomeBar := by
  refine paints_stack fun l hl => ?_
  have hb : UI_HOME_H = 24 := rfl
  simp only [mem_cons, not_mem_nil, or_false] at hl
  rcases hl with rfl | rfl
  all_goals
    refine (uiFill_inkIn _ _ _ _ _).mono fun p hp => ?_
    simp only [Rect] at hp
    omega

lemma drawHomeBar_ne_none (hp : OnStage p) (hrow : UI_SCREEN_H - UI_HOME_H ≤ p.2) :
    drawHomeBar p ≠ none := by
  obtain ⟨hx, hy⟩ := hp
  have hfill : uiFill 0 (UI_SCREEN_H - UI_HOME_H) UI_SCREEN_W UI_HOME_H panel p
      = some (.ink panel) :=
    uiFill_some ⟨hx, hy⟩ ⟨⟨Nat.zero_le _, by omega⟩, hrow, by omega⟩
  exact stack_ne_none (l := uiFill 0 (UI_SCREEN_H - UI_HOME_H) UI_SCREEN_W UI_HOME_H panel)
    (by simp) (by rw [hfill]; nofun)

/-- A banner that has not expired stays in its box: its text is shorter than the box. -/
lemma drawBanner_inkIn (s : Compositor) (ch : Chrome) (k : Fin MAX_BANNERS) :
    InkIn (fun p => s.expired ch.now k = false ∧ Rect 8 (bannerY k) (UI_SCREEN_W - 16) 22 p)
      (drawBanner s ch k) := by
  rw [drawBanner]
  split
  · exact inkIn_none _
  · rename_i hexp
    have hexp : s.expired ch.now k = false := by simpa using hexp
    have hw : UI_SCREEN_W = 800 := rfl
    refine paints_stack fun l hl => ?_
    simp only [mem_cons, not_mem_nil, or_false] at hl
    rcases hl with rfl | rfl | rfl
    · exact (uiFill_inkIn _ _ _ _ _).mono fun p hp => ⟨hexp, hp⟩
    · refine (uiRect_inkIn _ _ _ _ _).mono fun p hp => ⟨hexp, ?_⟩
      simp only [Edge, Rect] at hp ⊢
      omega
    · refine (uiText_inkIn _ _ _ _ _).mono fun p hp => ⟨hexp, ?_⟩
      have hlen := ch.text_lt k
      simp only [Rect, uiTextW] at hp ⊢
      omega

/-- What the banners leave open is what no live banner's box contains. -/
lemma drawBanners_eq_none (ch : Chrome) (hp : OnStage p) :
    drawBanners s ch p = none ↔
      ∀ k, s.expired ch.now k = false → ¬ Rect 8 (bannerY k) (UI_SCREEN_W - 16) 22 p := by
  rw [drawBanners, stack_eq_none]
  constructor
  · intro h k hexp hr
    have hnone := h _ (mem_map.mpr ⟨k, List.mem_finRange k, rfl⟩)
    rw [drawBanner, if_neg (by simp [hexp]), stack_eq_none] at hnone
    have hfill := hnone (uiFill 8 (bannerY k) (UI_SCREEN_W - 16) 22 panel) (by simp)
    rw [uiFill_some hp hr] at hfill
    exact absurd hfill (by simp)
  · intro h l hl
    obtain ⟨k, -, rfl⟩ := mem_map.mp hl
    by_contra hc
    obtain ⟨v, hv⟩ := ne_none_iff_exists'.mp hc
    obtain ⟨-, hexp, hr⟩ := drawBanner_inkIn s ch k p v hv
    exact h k hexp hr

lemma drawBanners_inkIn (s : Compositor) (ch : Chrome) : InkIn (fun _ => True) (drawBanners s ch) := by
  refine paints_stack fun l hl => ?_
  obtain ⟨k, -, rfl⟩ := mem_map.mp hl
  exact (drawBanner_inkIn s ch k).mono fun _ _ => trivial

/-! ## The screens of the compositor -/

/-- Nothing on the lock screen comes from the surface of an application. -/
lemma drawLockScreen_inkIn (pin : Str) : InkIn (fun _ => True) (drawLockScreen pin) := by
  refine paints_stack fun l hl => ?_
  rcases mem_append.mp hl with hl | hl
  · simp only [mem_cons, not_mem_nil, or_false] at hl
    rcases hl with rfl | rfl | rfl
    · exact (uiFill_inkIn _ _ _ _ _).mono fun _ _ => trivial
    · exact (uiText_inkIn _ _ _ _ _).mono fun _ _ => trivial
    · exact (uiText_inkIn _ _ _ _ _).mono fun _ _ => trivial
  · obtain ⟨r, -, hl⟩ := List.mem_flatMap.mp hl
    obtain ⟨c, -, rfl⟩ := mem_map.mp hl
    exact uiButton_inkIn _ _ _ _ _ _

lemma drawIcon_inkIn (ch : Chrome) (r c : ℕ) : InkIn (fun _ => True) (drawIcon ch r c) := by
  refine paints_stack fun l hl => ?_
  simp only [mem_cons, not_mem_nil, or_false] at hl
  rcases hl with rfl | rfl | rfl
  · exact uiButton_inkIn _ _ _ _ _ _
  · exact (uiText_inkIn _ _ _ _ _).mono fun _ _ => trivial
  · split
    · refine paints_stack fun l hl => ?_
      simp only [mem_cons, not_mem_nil, or_false] at hl
      rcases hl with rfl | rfl
      · exact (uiFill_inkIn _ _ _ _ _).mono fun _ _ => trivial
      · exact (uiText_inkIn _ _ _ _ _).mono fun _ _ => trivial
    · exact inkIn_none _

/-- Nothing on the home screen comes from the surface of an application. -/
lemma drawHomeScreen_inkIn (ch : Chrome) : InkIn (fun _ => True) (drawHomeScreen ch) := by
  refine paints_stack fun l hl => ?_
  rcases mem_append.mp hl with hl | hl
  · simp only [mem_cons, not_mem_nil, or_false] at hl
    rcases hl with rfl | rfl
    · exact (uiFill_inkIn _ _ _ _ _).mono fun _ _ => trivial
    · exact (uiText_inkIn _ _ _ _ _).mono fun _ _ => trivial
  · obtain ⟨r, -, hl⟩ := List.mem_flatMap.mp hl
    obtain ⟨c, -, rfl⟩ := mem_map.mp hl
    exact drawIcon_inkIn _ _ _

/-! ## Windows -/

/-- The layers over the surface of a window. -/
def decoration (s : Compositor) (i : WinIdx) : Paint :=
  let w := s.wins i
  stack [uiFill w.x w.y w.w UI_TITLE_H (if s.focused = some i then accent else panel),
    uiText (w.x + 4) (w.y + 6) w.name 0xffffffff accent,
    if s.focused = some i then uiRect (w.x - 2) (w.y - 2) (w.w + 4) (w.h + 4) accent else stack []]

/-- Title, name and focus ring lie over the copied surface. -/
lemma drawWindow_eq (h : Shown s i) (p : ℕ × ℕ) :
    drawWindow s i p = (decoration s i p).or (blitWindow i (s.wins i) p) := by
  rw [drawWindow, if_pos h]
  rfl

/-- The area of the layers over the surface. -/
def Decorated (s : Compositor) (i : WinIdx) (p : ℕ × ℕ) : Prop :=
  let w := s.wins i
  Rect w.x w.y w.w UI_TITLE_H p ∨ Rect (w.x + 4) (w.y + 6) (uiTextW w.name) 8 p ∨
    (s.focused = some i ∧ Edge (w.x - 2) (w.y - 2) (w.w + 4) (w.h + 4) p)

/-- The decoration stays in its own area. -/
lemma decoration_inkIn (s : Compositor) (i : WinIdx) : InkIn (Decorated s i) (decoration s i) := by
  refine paints_stack fun l hl => ?_
  simp only [mem_cons, not_mem_nil, or_false] at hl
  rcases hl with rfl | rfl | rfl
  · exact (uiFill_inkIn _ _ _ _ _).mono fun p hp => .inl hp
  · exact (uiText_inkIn _ _ _ _ _).mono fun p hp => .inr (.inl hp)
  · split
    · rename_i hfocus
      exact (uiRect_inkIn _ _ _ _ _).mono fun p hp => .inr (.inr ⟨hfocus, hp⟩)
    · exact inkIn_none _

/-- The decoration leaves no hole in its area, so a pixel shows through exactly outside it. -/
lemma decoration_eq_none (hp : OnStage p) :
    decoration s i p = none ↔ ¬ Decorated s i p := by
  constructor
  · intro hnone hdec
    have hall := stack_eq_none.mp hnone
    rcases hdec with hr | hr | ⟨hfocus, he⟩
    · have hfill := hall (uiFill (s.wins i).x (s.wins i).y (s.wins i).w UI_TITLE_H
        (if s.focused = some i then accent else panel)) (by simp)
      rw [uiFill_some hp hr] at hfill
      exact absurd hfill (by simp)
    · exact uiText_ne_none hp hr (hall (uiText ((s.wins i).x + 4) ((s.wins i).y + 6)
        (s.wins i).name 0xffffffff accent) (by simp))
    · have hedge := hall (if s.focused = some i then
        uiRect ((s.wins i).x - 2) ((s.wins i).y - 2) ((s.wins i).w + 4) ((s.wins i).h + 4) accent
        else stack []) (by simp)
      rw [if_pos hfocus] at hedge
      exact uiRect_ne_none (Nat.succ_pos _) (Nat.succ_pos _) hp he hedge
  · intro hdec
    by_contra hc
    obtain ⟨v, hv⟩ := ne_none_iff_exists'.mp hc
    exact hdec (decoration_inkIn s i p v hv).2

/-- For a window on the screen no clipping takes place. -/
lemma blitWindow_some {w : Window} (hw : Placed w) {v : Src} :
    blitWindow i w p = some v ↔ Rect w.x w.y w.w w.h p ∧ v = .px i (p.1 - w.x) (p.2 - w.y) := by
  have hright := hw.right
  have hbottom := hw.bottom
  have hcw : min w.w (UI_SCREEN_W - w.x) = w.w := by omega
  have hch : min w.h (UI_SCREEN_H - w.y) = w.h := by omega
  rw [blitWindow, hcw, hch]
  split
  · rename_i hr
    rw [Option.some.injEq]
    exact ⟨fun hv => ⟨hr, hv.symm⟩, fun hv => hv.2.symm⟩
  · rename_i hr
    exact ⟨fun hv => absurd hv (by simp), fun hv => absurd hv.1 hr⟩

/-- A pixel of the surface is seen where the decoration does not lie over it. -/
lemma drawWindow_px {j : WinIdx} (hw : Shown s i → Placed (s.wins i))
    (hp : OnStage p) : drawWindow s i p = some (.px j x y) ↔
      Shown s i ∧ ¬ Decorated s i p ∧ Rect (s.wins i).x (s.wins i).y (s.wins i).w (s.wins i).h p ∧
        j = i ∧ x = p.1 - (s.wins i).x ∧ y = p.2 - (s.wins i).y := by
  by_cases hs : Shown s i
  · rw [drawWindow_eq hs, or_eq_some_iff, decoration_eq_none hp, blitWindow_some (hw hs),
      Src.px.injEq]
    constructor
    · rintro (hdec | hrest)
      · exact absurd (decoration_inkIn s i p _ hdec).1 not_ink_px
      · exact ⟨hs, hrest⟩
    · exact fun h => .inr h.2
  · rw [drawWindow, if_neg hs]
    exact ⟨fun h => absurd h (by simp [stack]), fun h => absurd h.1 hs⟩

/-- A window is transparent exactly where it covers nothing. -/
lemma drawWindow_eq_none (hw : Shown s i → Placed (s.wins i))
    (hp : OnStage p) : drawWindow s i p = none ↔ (Shown s i → ¬ Covers s i p) := by
  by_cases hs : Shown s i
  · rw [drawWindow_eq hs, or_eq_none_iff, decoration_eq_none hp]
    have hblit : blitWindow i (s.wins i) p = none ↔
        ¬ Rect (s.wins i).x (s.wins i).y (s.wins i).w (s.wins i).h p := by
      constructor
      · intro hnone hr
        rw [(blitWindow_some (hw hs)).mpr ⟨hr, rfl⟩] at hnone
        exact absurd hnone (by simp)
      · intro hr
        by_contra hc
        obtain ⟨v, hv⟩ := ne_none_iff_exists'.mp hc
        exact hr ((blitWindow_some (hw hs)).mp hv).1
    rw [hblit]
    constructor
    · rintro ⟨hdec, hr⟩ - (hc | hc)
      · exact hr hc
      · exact hdec hc
    · exact fun h => ⟨fun hc => h hs (.inr hc), fun hc => h hs (.inl hc)⟩
  · rw [drawWindow, if_neg hs]
    exact ⟨fun _ h => absurd h hs, fun _ => rfl⟩

/-- The part of the surface that the title leaves. -/
lemma not_decorated_iff (hw : Placed (s.wins i))
    (hr : Rect (s.wins i).x (s.wins i).y (s.wins i).w (s.wins i).h p) :
    ¬ Decorated s i p ↔ (s.wins i).y + UI_TITLE_H ≤ p.2 := by
  have hleft := hw.left
  have ht : UI_TITLE_H = 20 := rfl
  simp only [Decorated, Rect, Edge, ht] at *
  constructor
  · intro h
    omega
  · intro h
    omega

/-! ## The order of the windows -/

/-- The slots in ascending order, the focused one last: what comes behind `i` is drawn over it. -/
lemma drawOrder_split (focused : Option WinIdx) (i : WinIdx) :
    ∃ xs ys, drawOrder focused = xs ++ i :: ys ∧ i ∉ xs ∧ ∀ j, j ∈ ys ↔ After focused i j := by
  have hnone : ∀ i : WinIdx, drawOrder none = (drawOrder none).takeWhile (· ≠ i) ++
      i :: ((drawOrder none).dropWhile (· ≠ i)).tail ∧ i ∉ (drawOrder none).takeWhile (· ≠ i) ∧
        ∀ j : WinIdx, j ∈ ((drawOrder none).dropWhile (· ≠ i)).tail ↔ After none i j := by
    decide
  have hsome : ∀ k i : WinIdx, drawOrder (some k) = (drawOrder (some k)).takeWhile (· ≠ i) ++
      i :: ((drawOrder (some k)).dropWhile (· ≠ i)).tail ∧
        i ∉ (drawOrder (some k)).takeWhile (· ≠ i) ∧
        ∀ j : WinIdx, j ∈ ((drawOrder (some k)).dropWhile (· ≠ i)).tail ↔ After (some k) i j := by
    decide
  cases focused with
  | none => exact ⟨_, _, hnone i⟩
  | some k => exact ⟨_, _, hsome k i⟩

/-- A stack of windows is transparent where none of them covers. -/
lemma stack_drawWindow_none {is : List WinIdx} (hw : ∀ i, Shown s i → Placed (s.wins i)) (hp : OnStage p) : stack (is.map (drawWindow s)) p = none ↔
      ∀ i ∈ is, Shown s i → ¬ Covers s i p := by
  rw [stack_eq_none, List.forall_mem_map]
  exact forall₂_congr fun i _ => drawWindow_eq_none (hw i) hp

/-- A window paints no surface but its own. -/
lemma stack_drawWindow_px {is : List WinIdx}
    (hw : ∀ i, Shown s i → Placed (s.wins i)) (hp : OnStage p)
    (h : stack (is.map (drawWindow s)) p = some (.px i x y)) : i ∈ is := by
  obtain ⟨xs, l, ys, hmap, hl, -⟩ := stack_eq_some.mp h
  have hmem : l ∈ is.map (drawWindow s) := by rw [hmap]; simp
  obtain ⟨j, hj, rfl⟩ := mem_map.mp hmem
  obtain ⟨-, -, -, rfl, -⟩ := (drawWindow_px (hw j) hp).mp hl
  exact hj

lemma not_after_self (focused : Option WinIdx) (i : WinIdx) : ¬ After focused i i := by
  rintro ⟨hne, heq | hlt⟩
  · exact hne heq
  · exact lt_irrefl i hlt

/-- A pixel of `i` is seen when no window drawn after `i` covers it; those before do not matter. -/
lemma drawAppWindows_px (hw : ∀ i, Shown s i → Placed (s.wins i)) (hp : OnStage p) : drawAppWindows s p = some (.px i x y) ↔
      (Shown s i ∧ Rect (s.wins i).x (s.wins i).y (s.wins i).w (s.wins i).h p ∧
        (s.wins i).y + UI_TITLE_H ≤ p.2 ∧ ∀ j, After s.focused i j → Shown s j → ¬ Covers s j p) ∧
          x = p.1 - (s.wins i).x ∧ y = p.2 - (s.wins i).y := by
  obtain ⟨xs, ys, hsplit, hxs, hys⟩ := drawOrder_split s.focused i
  rw [drawAppWindows, stack_cons, hsplit, List.map_append, List.map_cons, stack_append, stack_cons,
    or_eq_some_iff, or_eq_some_iff, or_eq_some_iff,
    stack_drawWindow_none hw hp, drawWindow_px (hw i) hp]
  constructor
  · rintro (((hlater | ⟨hcover, hs, hdec, hr, -, hx, hy⟩) | ⟨-, hearlier⟩) | ⟨-, hfill⟩)
    · exact absurd ((hys i).mp (stack_drawWindow_px hw hp hlater)) (not_after_self _ _)
    · exact ⟨⟨hs, hr, (not_decorated_iff (hw i hs) hr).mp hdec,
        fun j hj => hcover j ((hys j).mpr hj)⟩, hx, hy⟩
    · exact absurd (stack_drawWindow_px hw hp hearlier) hxs
    · exact absurd (uiFill_inkIn _ _ _ _ _ p _ hfill).1 not_ink_px
  · rintro ⟨⟨hs, hr, htitle, hcover⟩, hx, hy⟩
    exact .inl (.inl (.inr ⟨fun j hj => hcover j ((hys j).mp hj),
      hs, (not_decorated_iff (hw i hs) hr).mpr htitle, hr, rfl, hx, hy⟩))

/-! ## The whole stage -/

/-- What `redraw_stage` starts from. -/
def base (s : Compositor) (ch : Chrome) : Paint :=
  match s.mode with
  | .lock => drawLockScreen (cstr s.pin)
  | .home => drawHomeScreen ch
  | .app => drawAppWindows s

/-- From the top: banners, home bar, status bar, and the screen of the mode. -/
lemma redrawStage_eq (s : Compositor) (ch : Chrome) (p : ℕ × ℕ) : redrawStage s ch p =
    (((drawBanners s ch p).or (if s.mode ≠ .lock then drawHomeBar p else none)).or
      (drawStatusBar ch p)).or (base s ch p) := by
  rw [redrawStage, stack_cons, stack_cons, stack_cons, stack_cons]
  show (((Option.or none _).or _).or _).or _ = _
  rw [none_or]
  split <;> rfl

variable {ch : Chrome}

/-- Only in app mode does a surface get on the stage. -/
lemma base_px :
    base s ch p = some (.px i x y) ↔ s.mode = .app ∧ drawAppWindows s p = some (.px i x y) := by
  rw [base]
  cases s.mode with
  | lock => exact ⟨fun h => absurd (drawLockScreen_inkIn _ p _ h).1 not_ink_px, nofun⟩
  | home => exact ⟨fun h => absurd (drawHomeScreen_inkIn _ p _ h).1 not_ink_px, nofun⟩
  | app => exact ⟨fun h => ⟨rfl, h⟩, And.right⟩

/-- The status bar covers exactly its rows. -/
lemma drawStatusBar_eq_none (hp : OnStage p) :
    drawStatusBar ch p = none ↔ UI_STATUS_H ≤ p.2 := by
  constructor
  · intro hnone
    by_contra hlt
    exact drawStatusBar_ne_none ch hp (not_le.mp hlt) hnone
  · intro hrow
    by_contra hc
    obtain ⟨v, hv⟩ := ne_none_iff_exists'.mp hc
    exact absurd (drawStatusBar_inkIn ch p v hv).2 (not_lt.mpr hrow)

/-- The home bar covers exactly its rows. -/
lemma drawHomeBar_eq_none (hp : OnStage p) :
    drawHomeBar p = none ↔ p.2 < UI_SCREEN_H - UI_HOME_H := by
  constructor
  · intro hnone
    by_contra hge
    exact drawHomeBar_ne_none hp (not_lt.mp hge) hnone
  · intro hrow
    by_contra hc
    obtain ⟨v, hv⟩ := ne_none_iff_exists'.mp hc
    exact absurd (drawHomeBar_inkIn p v hv).2 (not_le.mpr hrow)

/-- Where a redraw leaves a surface to be seen. -/
lemma redrawStage_px
    (hw : ∀ i, Shown s i → Placed (s.wins i)) (hp : OnStage p) :
    redrawStage s ch p = some (.px i x y) ↔
      Shows s ch i p ∧ x = p.1 - (s.wins i).x ∧ y = p.2 - (s.wins i).y := by
  simp only [redrawStage_eq, or_eq_some_iff, or_eq_none_iff,
    drawBanners_eq_none ch hp, drawStatusBar_eq_none hp, base_px, drawAppWindows_px hw hp]
  constructor
  · rintro (((hb | ⟨-, hh⟩) | ⟨-, hst⟩) | ⟨⟨⟨hb, hh⟩, hst⟩, happ, ⟨hs, hr, ht, hcover⟩, hx, hy⟩)
    · exact absurd (drawBanners_inkIn s ch p _ hb).1 not_ink_px
    · split at hh
      · exact absurd (drawHomeBar_inkIn p _ hh).1 not_ink_px
      · exact absurd hh (by simp)
    · exact absurd (drawStatusBar_inkIn ch p _ hst).1 not_ink_px
    · rw [if_pos (by rw [happ]; nofun), drawHomeBar_eq_none hp] at hh
      exact ⟨⟨happ, hs, hr, ht, hcover, ⟨hst, hh⟩, hb⟩, hx, hy⟩
  · rintro ⟨hshows, hx, hy⟩
    refine .inr ⟨⟨⟨hshows.banners, ?_⟩, hshows.bars.1⟩, hshows.app,
      ⟨hshows.shown, hshows.surface, hshows.title, hshows.windows⟩, hx, hy⟩
    rw [if_pos (by rw [hshows.app]; nofun)]
    exact (drawHomeBar_eq_none hp).mpr hshows.bars.2

lemma uiFill_rows {h c : ℕ} (hp : OnStage p) (hy : y ≤ p.2) (hlt : p.2 < y + h) :
    uiFill 0 y UI_SCREEN_W h c p = some (.ink c) :=
  uiFill_some hp ⟨⟨Nat.zero_le _, by rw [Nat.zero_add]; exact hp.1⟩, hy, hlt⟩

/-- A redraw leaves no pixel of the stage as it was. -/
lemma redrawStage_ne_none (ch : Chrome) (hp : OnStage p) : redrawStage s ch p ≠ none := by
  have hy := hp.2
  intro hnone
  simp only [redrawStage_eq, or_eq_none_iff, drawStatusBar_eq_none hp] at hnone
  obtain ⟨⟨⟨-, hhome⟩, hrow⟩, hbase⟩ := hnone
  rw [base] at hbase
  cases hmode : s.mode with
  | lock =>
    rw [hmode] at hbase
    exact stack_ne_none (l := uiFill 0 UI_STATUS_H UI_SCREEN_W (UI_SCREEN_H - UI_STATUS_H) bg)
      (by simp) (by rw [uiFill_rows hp hrow (by omega)]; nofun) hbase
  | home =>
    rw [if_pos (by rw [hmode]; nofun), drawHomeBar_eq_none hp] at hhome
    rw [hmode] at hbase
    exact stack_ne_none
      (l := uiFill 0 UI_STATUS_H UI_SCREEN_W (UI_SCREEN_H - UI_STATUS_H - UI_HOME_H) bg)
      (by simp) (by rw [uiFill_rows hp hrow (by omega)]; nofun) hbase
  | app =>
    rw [if_pos (by rw [hmode]; nofun), drawHomeBar_eq_none hp] at hhome
    rw [hmode] at hbase
    exact stack_ne_none
      (l := uiFill 0 UI_STATUS_H UI_SCREEN_W (UI_SCREEN_H - UI_STATUS_H - UI_HOME_H) bg)
      (by simp) (by rw [uiFill_rows hp hrow (by omega)]; nofun) hbase

/-- In the rows of the status bar a redraw leaves the status bar. -/
lemma redrawStage_status {v : Src} (hp : OnStage p)
    (hv : drawStatusBar ch p = some v) : redrawStage s ch p = some v := by
  have hrow := (drawStatusBar_inkIn ch p v hv).2
  have hh : UI_SCREEN_H = 600 := rfl
  have hs : UI_STATUS_H = 24 := rfl
  have hb : UI_HOME_H = 24 := rfl
  have hbanners : drawBanners s ch p = none := by
    refine (drawBanners_eq_none ch hp).mpr fun k _ hr => ?_
    simp only [Rect, bannerY] at hr
    omega
  have hhome : (if s.mode ≠ .lock then drawHomeBar p else none) = none := by
    split
    · exact (drawHomeBar_eq_none hp).mpr (by omega)
    · rfl
  rw [redrawStage_eq, hbanners, hhome, hv, none_or, none_or, Option.some_or]

/-! ## What is shown of the phone -/

section Steady

variable {drawn ch : Chrome}

/-- The bar draws nothing of the phone beyond what `Steady` keeps: how many of the four bars are
lit, the clock, and the charge when it is known. -/
lemma Steady.drawStatusBar (h : Steady s drawn ch) : drawStatusBar drawn = drawStatusBar ch := by
  have hbars : ((List.range 4).map fun i => uiFill (6 + i * 7) (UI_STATUS_H - 4 - (4 + i * 3)) 4
        (4 + i * 3) (if i < drawn.sig_bars then fg else 0xff3d444d)) =
      (List.range 4).map fun i => uiFill (6 + i * 7) (UI_STATUS_H - 4 - (4 + i * 3)) 4
        (4 + i * 3) (if i < ch.sig_bars then fg else 0xff3d444d) := by
    refine List.map_congr_left fun i hi => ?_
    simp only [h.bars i (List.mem_range.mp hi)]
  rw [Pix.drawStatusBar, Pix.drawStatusBar, h.call, h.clock]
  simp only [hbars]
  by_cases hpct : drawn.batt_pct = 0
  · rw [if_neg (not_not.mpr hpct), if_neg (not_not.mpr (h.batt_pct ▸ hpct))]
  · have hbattery : battery drawn = battery ch := by
      rw [battery, battery, h.batt_pct, h.batt_charging hpct]
    rw [hbattery, h.batt_pct, h.batt_charging hpct]

/-- The badge shows at most nine messages. -/
lemma Steady.drawHomeScreen (h : Steady s drawn ch) (hmode : s.mode = .home) :
    drawHomeScreen drawn = drawHomeScreen ch := by
  have hunread := h.unread hmode
  have hicon : drawIcon drawn = drawIcon ch := by
    funext r c
    have hzero : drawn.unread_sms ≠ 0 ↔ ch.unread_sms ≠ 0 := by omega
    have hdigit : (if drawn.unread_sms > 9 then 9 else drawn.unread_sms) =
        if ch.unread_sms > 9 then 9 else ch.unread_sms := by
      split <;> split <;> omega
    simp only [drawIcon, hzero, hdigit]
  rw [Pix.drawHomeScreen, Pix.drawHomeScreen, hicon]

/-- An expired banner may have changed its text. -/
lemma Steady.drawBanners (h : Steady s drawn ch) : drawBanners s drawn = drawBanners s ch := by
  have hbanner : drawBanner s drawn = drawBanner s ch := by
    funext k
    rw [drawBanner, drawBanner, h.expired]
    cases hexpired : s.expired ch.now k with
    | false => rw [h.text k hexpired, h.kind k hexpired]
    | true => rfl
  rw [Pix.drawBanners, Pix.drawBanners, hbanner]

/-- While the phone looks the same, a redraw at a later time gives the same picture. -/
lemma Steady.redrawStage (h : Steady s drawn ch) : redrawStage s drawn = redrawStage s ch := by
  have hbase : base s drawn = base s ch := by
    rw [base, base]
    cases hmode : s.mode with
    | lock => rfl
    | home => exact h.drawHomeScreen hmode
    | app => rfl
  funext p
  rw [redrawStage_eq, redrawStage_eq, h.drawStatusBar, h.drawBanners, hbase]

end Steady

end Pix
end Ui
end MobilePhoneOs
