import MobilePhoneOs.Userspace.Compositor

/-!
# The entry of the PIN (`tap_lock`, `input_thread`)

A reset clears the first byte of `pin` alone, and a digit is written over the NUL that ends the
string. The buffer reads as the digits tapped since the reset as long as each digit finds a NUL
behind it; a byte left there by an earlier entry joins the string.
-/

namespace MobilePhoneOs

open Function (update update_self update_apply update_of_ne)
namespace Ui

/-! ## What the keys mean -/

/-- The entry after one more key. -/
def enter (entry : Str) : Key → Str
  | .digit d => if entry.length < 4 then entry ++ [d] else entry
  | .back => entry.dropLast
  | .ok => []

/-- The entry after the keys tapped since the reset. -/
def entered (keys : List Key) : Str := keys.foldl enter []

/-- The key of the lock screen that a section is a tap on. -/
def Compositor.tapped (s : Compositor) : Event → Option Key
  | .syn _ code =>
    if code = SYN_REPORT ∧ s.down = true ∧ s.last_down = false ∧ s.mode = .lock then
      (keyAt s.abs_x s.abs_y).map fun rc => keyOf rc.1 rc.2
    else none
  | _ => none

/-- The power key goes down. -/
def Event.isPower : Event → Bool
  | .key code value => code = KEY_POWER ∧ value = 1
  | _ => false

/-- The keys tapped since the last reset, by OK or by the power key. -/
def Compositor.keysAfter (s : Compositor) (keys : List Key) (e : Event) : List Key :=
  if e.isPower then []
  else
    match s.tapped e with
    | some .ok => []
    | some k => keys ++ [k]
    | none => keys

/-- A section, beside the keys tapped since the last reset. -/
def EntryStep (p : Compositor × List Key) (a : Event × List Out) (q : Compositor × List Key) :
    Prop :=
  Step p.1 a q.1 ∧ q.2 = p.1.keysAfter p.2 a.1

/-- The string that a tap on OK compares is what was entered. -/
def Faithful (p : Compositor × List Key) : Prop := cstr p.1.pin = entered p.2

/-- The condition on a section: where a digit is accepted, the byte behind its place is NUL. -/
def Blank (p : Compositor × List Key) (a : Event × List Out) : Prop :=
  ∀ d, p.1.tapped a.1 = some (.digit d) → (entered p.2).length < 4 →
    p.1.pin ((entered p.2).length + 1) = NUL

/-! ## Strings in the buffer -/

/-- The buffer holds the string and its NUL. -/
structure Reads (pin : ℕ → Char) (t : Str) : Prop where
  short : t.length ≤ 4
  chars : (List.range t.length).map pin = t
  plain : NUL ∉ t
  ends : pin t.length = NUL

lemma cstr_append {pin : ℕ → Char} {n m : ℕ} (h : n + m = 8) (hpos : ∀ i < n, pin i ≠ NUL) :
    cstr pin = (List.range n).map pin ++
      ((List.range m).map fun i => pin (n + i)).takeWhile (· ≠ NUL) := by
  unfold cstr
  rw [← h, List.range_add, List.map_append, List.map_map]
  apply List.takeWhile_append_of_pos
  intro c hc
  obtain ⟨i, hi, hpin⟩ := List.mem_map.mp hc
  rw [← hpin]
  exact decide_eq_true (hpos i (List.mem_range.mp hi))

variable {t : Str}

lemma Reads.pos {pin : ℕ → Char} (h : Reads pin t) {i : ℕ} (hi : i < t.length) :
    pin i ≠ NUL := by
  intro hnul
  apply h.plain
  rw [← h.chars, ← hnul]
  exact List.mem_map_of_mem (List.mem_range.mpr hi)

lemma Reads.cstr {pin : ℕ → Char} (h : Reads pin t) : cstr pin = t := by
  have hshort := h.short
  obtain ⟨m, hm⟩ : ∃ m, t.length + (m + 1) = 8 := ⟨7 - t.length, by omega⟩
  rw [cstr_append hm fun i hi => h.pos hi, h.chars, List.range_succ_eq_map, List.map_cons,
    Nat.add_zero, h.ends]
  exact List.append_nil t

/-- A string goes on until its NUL. -/
lemma lt_cstr_length {pin : ℕ → Char} {n : ℕ} (hn : n < 8) (h : ∀ i ≤ n, pin i ≠ NUL) :
    n < (cstr pin).length := by
  have hsum : n + 1 + (7 - n) = 8 := by omega
  rw [cstr_append hsum fun i hi => h i (by omega), List.length_append, List.length_map,
    List.length_range]
  omega

lemma map_range_update (pin : ℕ → Char) {n k : ℕ} (hk : n ≤ k) (c : Char) :
    (List.range n).map (update pin k c) = (List.range n).map pin := by
  apply List.map_congr_left
  intro i hi
  have hlt : i < n := List.mem_range.mp hi
  exact update_of_ne (Nat.ne_of_lt (Nat.lt_of_lt_of_le hlt hk)) c pin

lemma reads_nil {pin : ℕ → Char} (h : pin 0 = NUL) : Reads pin [] :=
  ⟨by simp, rfl, by simp, h⟩

lemma reads_cleared (pin : ℕ → Char) : Reads (update pin 0 NUL) [] := by
  apply reads_nil
  rw [update_self]

/-- A digit at the end of the string: the string is as long as it should be exactly when the byte
behind is NUL. -/
lemma Reads.digit {pin : ℕ → Char} (h : Reads pin t) {d : Char} (hd : d ≠ NUL)
    (hlt : t.length < 4) :
    (pin (t.length + 1) = NUL → Reads (update pin t.length d) (t ++ [d])) ∧
    (Ui.cstr (update pin t.length d) = t ++ [d] → pin (t.length + 1) = NUL) := by
  have hnext : update pin t.length d (t.length + 1) = pin (t.length + 1) :=
    update_of_ne (by omega) d pin
  have hlen : (t ++ [d]).length = t.length + 1 := by simp
  constructor
  · intro hnul
    refine ⟨by omega, ?_, ?_, ?_⟩
    · rw [hlen, List.range_succ, List.map_append, map_range_update pin le_rfl, h.chars]
      simp
    · have hne : NUL ≠ d := Ne.symm hd
      simp [h.plain, hne]
    · rw [hlen, hnext]
      exact hnul
  · intro hread
    by_contra hne
    have hpos : ∀ i ≤ t.length + 1, update pin t.length d i ≠ NUL := by
      intro i hi
      by_cases hend : i = t.length
      · rw [hend, update_self]
        exact hd
      · rw [update_of_ne hend]
        by_cases hin : i < t.length
        · exact h.pos hin
        · have hi : i = t.length + 1 := by omega
          rw [hi]
          exact hne
    have hlong := lt_cstr_length (by omega) hpos
    rw [hread, hlen] at hlong
    omega

/-- The back key takes the last digit away. -/
lemma Reads.back {pin : ℕ → Char} (h : Reads pin t) :
    Reads (if t.length ≠ 0 then update pin (t.length - 1) NUL else pin) t.dropLast := by
  by_cases hzero : t.length = 0
  · rw [if_neg (not_not_intro hzero), List.length_eq_zero_iff.mp hzero]
    have hend := h.ends
    rw [hzero] at hend
    exact reads_nil hend
  · rw [if_pos hzero]
    have hshort := h.short
    have hlen : t.dropLast.length = t.length - 1 := List.length_dropLast
    refine ⟨by omega, ?_, ?_, ?_⟩
    · rw [hlen, map_range_update pin le_rfl]
      have hone : t.length = t.length - 1 + 1 := by omega
      have hchars := h.chars
      rw [hone, List.range_succ, List.map_append] at hchars
      rw [← hchars]
      simp
    · exact fun hin => h.plain (List.mem_of_mem_dropLast hin)
    · rw [hlen, update_self]

/-! ## The buffer in the sections -/

/-- What a key does to the buffer. -/
def pressed (pin : ℕ → Char) : Key → ℕ → Char
  | .digit d => if (cstr pin).length < 4 then update pin (cstr pin).length d else pin
  | .back =>
    if (cstr pin).length ≠ 0 then update pin ((cstr pin).length - 1) NUL else pin
  | .ok => update pin 0 NUL

section Frame

variable {s : Compositor}

lemma dropWindow_pin (i : WinIdx) : (s.dropWindow i).pin = s.pin := by
  unfold Compositor.dropWindow
  split
  · dsimp only
    split <;> rfl
  · rfl

/-- No message of a client reaches the buffer. -/
lemma clientMsg_pin (c : Fin MAX_CLIENTS) (m : Msg) : (s.clientMsg c m).1.pin = s.pin := by
  cases m with
  | UI_HELLO _ | UI_NOTIFY _ | other => rfl
  | UI_OPEN _ _ _ _ | UI_FLUSH _ _ _ _ | UI_SHOW =>
    unfold Compositor.clientMsg
    dsimp only
    split <;> rfl
  | UI_HIDE =>
    unfold Compositor.clientMsg
    dsimp only
    split
    · split <;> rfl
    · rfl
  | UI_CLOSE =>
    unfold Compositor.clientMsg
    dsimp only
    split
    · exact dropWindow_pin _
    · rfl

lemma clientGone_pin (c : Fin MAX_CLIENTS) : (s.clientGone c).pin = s.pin := by
  unfold Compositor.clientGone
  split
  · exact dropWindow_pin _
  · rfl

lemma accept_pin (fd : ℤ) (thread : Bool) : (s.accept fd thread).pin = s.pin := by
  unfold Compositor.accept
  split
  · split <;> rfl
  · rfl

lemma presentAll_pin (dirty : List WinIdx) : (s.presentAll dirty).1.pin = s.pin := by
  induction dirty generalizing s with
  | nil => rfl
  | cons i dirty ih =>
    unfold Compositor.presentAll
    split
    · exact ih
    · exact ih

lemma renderTick_pin (now : ℕ) : (s.renderTick now).1.pin = s.pin := by
  have hrest : ∀ t : Compositor, (t.recompose now).1.pin = t.pin := by
    intro t
    unfold Compositor.recompose
    split
    · rfl
    · split <;> rfl
  exact (hrest _).trans (presentAll_pin _)

lemma tapHome_pin (x y : ℤ) : (s.tapHome x y).1.pin = s.pin := by
  unfold Compositor.tapHome
  split
  · unfold Compositor.launchApp
    split <;> rfl
  · rfl

lemma tapApp_pin (x y : ℤ) (down : Bool) : (s.tapApp x y down).1.pin = s.pin := by
  unfold Compositor.tapApp
  split
  · rfl
  · split
    · rfl
    · dsimp only
      split <;> rfl

lemma tapLock_pin (now : ℕ) (x y : ℤ) : (s.tapLock now x y).pin =
    (((keyAt x y).map fun rc => keyOf rc.1 rc.2).map (pressed s.pin)).getD s.pin := by
  unfold Compositor.tapLock
  cases keyAt x y with
  | none => rfl
  | some rc =>
    show (match keyOf rc.1 rc.2 with | .digit d => _ | .back => _ | .ok => _ : Compositor).pin =
      pressed s.pin (keyOf rc.1 rc.2)
    cases keyOf rc.1 rc.2 with
    | digit d =>
      dsimp only [pressed]
      split <;> rfl
    | back =>
      dsimp only [pressed]
      split <;> rfl
    | ok =>
      dsimp only [pressed]
      split <;> rfl

/-- The finger goes down on the lock screen. -/
def TapsLock (s : Compositor) (code : ℤ) : Prop :=
  code = SYN_REPORT ∧ s.down = true ∧ s.last_down = false ∧ s.mode = .lock

lemma tapped_syn {code : ℤ} (h : TapsLock s code) (now : ℕ) :
    s.tapped (.syn now code) = (keyAt s.abs_x s.abs_y).map fun rc => keyOf rc.1 rc.2 :=
  if_pos h

lemma tapped_syn_none {code : ℤ} (h : ¬ TapsLock s code) (now : ℕ) :
    s.tapped (.syn now code) = none :=
  if_neg h

/-- A touch changes the buffer by the key that it taps on the lock screen, if any. -/
lemma syn_pin (now : ℕ) (code : ℤ) : (s.syn now code).1.pin =
    ((s.tapped (.syn now code)).map (pressed s.pin)).getD s.pin := by
  by_cases htaps : TapsLock s code
  · obtain ⟨hcode, hdown, hlast, hmode⟩ := htaps
    have hmoved : ¬ (code ≠ SYN_REPORT ∨ s.down = s.last_down) := by
      simp [hcode, hdown, hlast]
    rw [tapped_syn ⟨hcode, hdown, hlast, hmode⟩, ← tapLock_pin now]
    unfold Compositor.syn
    rw [if_neg hmoved]
    rw [if_pos hdown, hmode]
  · rw [tapped_syn_none htaps]
    unfold Compositor.syn
    by_cases hidle : code ≠ SYN_REPORT ∨ s.down = s.last_down
    · rw [if_pos hidle]
      rfl
    · rw [if_neg hidle]
      by_cases hdown : s.down = true
      · rw [if_pos hdown]
        -- the mode decides what the tap is for
        split
        · next hmode =>
          apply absurd _ htaps
          simp only [not_or, not_not, hdown] at hidle
          exact ⟨hidle.1, hdown, by simpa using hidle.2, hmode⟩
        · exact tapHome_pin _ _
        · exact tapApp_pin _ _ _
      · rw [if_neg hdown]
        exact tapApp_pin _ _ _

/-- A section changes the buffer as its key says, and the power key clears it. -/
lemma act_pin (e : Event) : (s.act e).1.pin =
    if e.isPower then update s.pin 0 NUL
    else ((s.tapped e).map (pressed s.pin)).getD s.pin := by
  cases e with
  | accept fd thread => exact accept_pin fd thread
  | msg c m => exact clientMsg_pin c m
  | gone c => exact clientGone_pin c
  | modem now => rfl
  | abs code value =>
    show (s.abs code value).pin = s.pin
    unfold Compositor.abs
    split
    · rfl
    · split <;> rfl
  | key code value =>
    show (s.key code value).pin = if decide (code = KEY_POWER ∧ value = 1) = true then _ else s.pin
    unfold Compositor.key
    by_cases htouch : code = BTN_TOUCH
    · have hno : ¬ (code = KEY_POWER ∧ value = 1) := by
        intro hpower
        rw [htouch] at hpower
        exact absurd hpower.1 (by decide)
      rw [if_pos htouch, decide_eq_false hno]
      rfl
    · rw [if_neg htouch]
      by_cases hpower : code = KEY_POWER ∧ value = 1
      · rw [if_pos hpower, decide_eq_true hpower]
        rfl
      · rw [if_neg hpower, decide_eq_false hpower]
        rfl
  | syn now code => exact syn_pin now code
  | render now => exact renderTick_pin now

/-- The keys of the numpad are no NUL. -/
lemma tapped_ne_nul {e : Event} {d : Char} (h : s.tapped e = some (.digit d)) : d ≠ NUL := by
  have hkeys : ∀ rc ∈ (List.range UI_NUMPAD_ROWS).flatMap fun r =>
      (List.range UI_NUMPAD_COLS).map fun c => (r, c), keyOf rc.1 rc.2 ≠ .digit NUL := by decide
  cases e with
  | syn now code =>
    by_cases htaps : TapsLock s code
    · rw [tapped_syn htaps] at h
      obtain ⟨rc, hat, hkey⟩ := Option.map_eq_some_iff.mp h
      intro hnul
      rw [hnul] at hkey
      unfold keyAt cellAt at hat
      exact hkeys rc (List.mem_of_find?_eq_some hat) hkey
    · rw [tapped_syn_none htaps] at h
      exact absurd h (Option.some_ne_none _).symm
  | _ => exact absurd h (Option.some_ne_none _).symm

end Frame

/-! ## Runs -/

/-- The buffer has the entry, and NUL where no digit is ever written. -/
def EntryInv (p : Compositor × List Key) : Prop :=
  Reads p.1.pin (entered p.2) ∧ ∀ i ≥ 4, p.1.pin i = NUL

lemma entered_append (keys : List Key) (k : Key) :
    entered (keys ++ [k]) = enter (entered keys) k := by
  unfold entered
  rw [List.foldl_append]
  rfl

/-- Only a digit in the first four places is written behind the string. -/
lemma pressed_above {pin : ℕ → Char} (h : ∀ i ≥ 4, pin i = NUL) (k : Key) :
    ∀ i ≥ 4, pressed pin k i = NUL := by
  intro i hi
  cases k with
  | digit d =>
    unfold pressed
    dsimp only
    split
    · rw [update_of_ne (by omega)]
      exact h i hi
    · exact h i hi
  | back =>
    unfold pressed
    dsimp only
    split
    · rw [update_apply]
      split
      · rfl
      · exact h i hi
    · exact h i hi
  | ok =>
    have hne : i ≠ 0 := by omega
    exact (update_of_ne hne NUL pin).trans (h i hi)

/-- After a key the buffer has the entry exactly when an accepted digit found NUL behind it. -/
lemma pressed_reads {pin : ℕ → Char} (h : Reads pin t) {k : Key}
    (hk : k ≠ .digit NUL) :
    ((∀ d, k = .digit d → t.length < 4 → pin (t.length + 1) = NUL) →
      Reads (pressed pin k) (enter t k)) ∧
    (cstr (pressed pin k) = enter t k →
      ∀ d, k = .digit d → t.length < 4 → pin (t.length + 1) = NUL) := by
  cases k with
  | digit d =>
    have hd : d ≠ NUL := fun hnul => hk (congrArg Key.digit hnul)
    unfold pressed enter
    dsimp only
    rw [h.cstr]
    by_cases hlt : t.length < 4
    · obtain ⟨hto, hfrom⟩ := h.digit hd hlt
      rw [if_pos hlt, if_pos hlt]
      exact ⟨fun hblank => hto (hblank d rfl hlt), fun hread _ _ _ => hfrom hread⟩
    · rw [if_neg hlt, if_neg hlt]
      exact ⟨fun _ => h, fun _ _ _ hlt' => absurd hlt' hlt⟩
  | back =>
    unfold pressed enter
    rw [h.cstr]
    exact ⟨fun _ => h.back, fun _ _ hne => nomatch hne⟩
  | ok =>
    exact ⟨fun _ => reads_cleared pin, fun _ _ hne => nomatch hne⟩

variable {p q : Compositor × List Key} {a : Event × List Out}

lemma EntryStep.pin (h : EntryStep p a q) : q.1.pin =
    if a.1.isPower then update p.1.pin 0 NUL
    else ((p.1.tapped a.1).map (pressed p.1.pin)).getD p.1.pin := by
  rw [← act_pin, h.1.2]

/-- One section: what the buffer has after it, as the condition tells. -/
lemma EntryStep.spec (hI : EntryInv p) (h : EntryStep p a q) :
    (Blank p a → EntryInv q) ∧ (Faithful q → Blank p a) := by
  have hpin := h.pin
  have hkeys := h.2
  unfold Compositor.keysAfter at hkeys
  unfold EntryInv Faithful Blank
  by_cases hpower : a.1.isPower = true
  · rw [if_pos hpower] at hpin hkeys
    rw [hpin, hkeys]
    constructor
    · intro _
      refine ⟨reads_cleared _, fun i hi => ?_⟩
      have hne : i ≠ 0 := by omega
      exact (update_of_ne hne NUL _).trans (hI.2 i hi)
    · -- the power key is no tap
      intro _ d hd
      have htap : p.1.tapped a.1 = none := by
        revert hpower
        cases a.1 with
        | key code value => exact fun _ => rfl
        | _ => exact fun hpower => absurd hpower Bool.false_ne_true
      rw [htap] at hd
      exact absurd hd (Option.some_ne_none _).symm
  · rw [if_neg hpower] at hpin hkeys
    cases htap : p.1.tapped a.1 with
    | none =>
      rw [htap] at hpin hkeys
      rw [hpin, hkeys]
      exact ⟨fun _ => hI, fun _ d hd => absurd hd (Option.some_ne_none _).symm⟩
    | some k =>
      have hk : k ≠ .digit NUL := by
        intro hnul
        rw [hnul] at htap
        exact tapped_ne_nul htap rfl
      rw [htap] at hpin hkeys
      have hentry : entered q.2 = enter (entered p.2) k := by
        rw [hkeys]
        cases k with
        | ok => rfl
        | digit d => exact entered_append _ _
        | back => exact entered_append _ _
      obtain ⟨hto, hfrom⟩ := pressed_reads hI.1 hk
      rw [hpin, hentry]
      constructor
      · intro hblank
        exact ⟨hto fun d hd => hblank d (congrArg some hd), pressed_above hI.2 k⟩
      · exact fun hread d hd => hfrom hread d (Option.some.inj hd)

/-- The runs in which, after every section, the string that a tap on OK would compare is the
digits tapped since the last reset are those in which every accepted digit finds a NUL behind
its place. -/
theorem pin_entry (stage : Stage) (x y : ℤ) (as : List (Event × List Out))
    (p : Compositor × List Key) :
    Run (Guarded Blank EntryStep) (boot stage x y, []) as p ↔
      Run (fun p a q => EntryStep p a q ∧ Faithful q) (boot stage x y, []) as p := by
  apply Run.guarded_iff (I := EntryInv)
  · exact fun _ _ _ hI hs hread => (hs.spec hI).1 ((hs.spec hI).2 hread)
  · exact fun _ _ _ hI hs =>
      ⟨(hs.spec hI).2, fun hblank => ((hs.spec hI).1 hblank).1.cstr⟩
  · exact ⟨reads_nil rfl, fun _ _ => rfl⟩

/-! ## An entry completed by the one before -/

/-- The state after a section, beside the keys. -/
def entryAct (p : Compositor × List Key) (e : Event) : Compositor × List Key :=
  ((p.1.act e).1, p.1.keysAfter p.2 e)

lemma run_of_events {p p' : Compositor × List Key} {as : List (Event × List Out)} (es : List Event)
    (hrun : Run EntryStep p as p') (h : ∀ e ∈ es, ∀ s : Compositor, s.Enabled e) :
    ∃ bs, Run EntryStep p bs (es.foldl entryAct p') := by
  induction es generalizing p' as with
  | nil => exact ⟨as, hrun⟩
  | cons e es ih =>
    have hstep : EntryStep p' (e, (p'.1.act e).2) (entryAct p' e) :=
      ⟨⟨h e List.mem_cons_self _, rfl⟩, rfl⟩
    exact ih (hrun.snoc hstep) fun e he => h e (List.mem_cons_of_mem _ he)

/-- The finger goes down on a point and up. -/
def touch (x y : ℤ) : List Event :=
  [.abs ABS_X x, .abs ABS_Y y, .key BTN_TOUCH 1, .syn 0 SYN_REPORT, .key BTN_TOUCH 0,
    .syn 0 SYN_REPORT]

/-- The digits 1, 2, 3 and 4, the power key, the digit 1, and the finger on OK. -/
def completed : List Event :=
  touch 250 210 ++ touch 360 210 ++ touch 460 210 ++ touch 250 270 ++ [.key KEY_POWER 1] ++
    touch 250 210 ++ (touch 460 400).take 3

/-- One digit after the power key, and OK compares the whole PIN of the entry before. -/
theorem leftover_completes : ¬ ∀ stage x y as p, Run EntryStep (boot stage x y, []) as p →
    ∀ now, p.1.tapped (.syn now SYN_REPORT) = some .ok → Faithful p := by
  intro hall
  have hopen : ∀ e ∈ completed, ∀ s : Compositor, s.Enabled e := by
    intro e he s
    cases e with
    | msg c m => simp [completed, touch] at he
    | gone c => simp [completed, touch] at he
    | _ => trivial
  have hnil : Run EntryStep (boot (fun _ _ => false) 0 0, []) [] _ := .nil
  obtain ⟨as, hrun⟩ := run_of_events completed hnil hopen
  have hread := hall _ _ _ as _ hrun 0 (by decide)
  have hpin : cstr (completed.foldl entryAct (boot (fun _ _ => false) 0 0, [])).1.pin = PIN := by
    decide
  have hentry : entered (completed.foldl entryAct (boot (fun _ _ => false) 0 0, [])).2 = ['1'] := by
    decide
  unfold Faithful at hread
  rw [hpin, hentry] at hread
  exact absurd hread (by decide)

end Ui
end MobilePhoneOs
