import MobilePhoneOs.Kernel.Modemd

/-!
# When the telephony service obeys its protocol

The matcher compares prefixes, the protocol words. The two agree on every line without a number
for `DIAL` or `SMS`; and a line reaches the matcher as far as the buffer keeps it.
-/

namespace MobilePhoneOs.Modemd

open At (ascii LF CR)

/-! ## Which lines are matched -/

variable {l w : Line}

/-- A command without an argument is matched by its word. -/
lemma lineIs_word (hw : BLANK ∉ w) : mdLineIs l w = true ↔ word l = w := by
  unfold mdLineIs word
  rw [decide_eq_true_eq]
  induction w generalizing l with
  | nil => cases l <;> simp
  | cons a w ih =>
    obtain ⟨ha, hw⟩ := List.ne_and_not_mem_of_not_mem_cons hw
    cases l with
    | nil => simp
    | cons b l =>
      by_cases hb : b = a
      · have hih := ih (l := l) hw
        simp [hb, ha.symm] at hih ⊢
        exact hih
      · by_cases hbl : b = BLANK
        · simp [hbl, ha]
        · simp [hb, hbl]

/-- A command that is compared with its blank wants another blank, or the end, after it. -/
lemma lineIs_blank (hw : BLANK ∉ w) : mdLineIs l (w ++ [BLANK]) = true ↔
    (word l = w ∧ BLANK ∈ l) ∧ word (rest l) = [] := by
  unfold mdLineIs word rest
  rw [decide_eq_true_eq]
  induction w generalizing l with
  | nil =>
    cases l with
    | nil => simp
    | cons b l =>
      by_cases hb : b = BLANK
      · cases l <;> simp [hb]
      · simp [hb]
  | cons a w ih =>
    obtain ⟨ha, hw⟩ := List.ne_and_not_mem_of_not_mem_cons hw
    cases l with
    | nil => simp
    | cons b l =>
      by_cases hb : b = a
      · have hih := ih (l := l) hw
        simp [hb, ha.symm, ha] at hih ⊢
        exact hih
      · by_cases hbl : b = BLANK
        · simp [hbl, ha]
        · simp [hb, hbl]

lemma drop_word (h : word l = w) : l.drop (w.length + 1) = rest l := by
  have hsplit : w ++ l.dropWhile (· ≠ BLANK) = l := by
    rw [← h]
    exact List.takeWhile_append_dropWhile
  rw [rest, ← List.tail_drop]
  conv_lhs => rw [← hsplit]
  rw [List.drop_left]

/-- What the matcher lets through: a number only when another blank, or nothing, is before it. -/
def Admitted (l : Line) : Prop :=
  match parse l with
  | .dial number => word number = []
  | .sms num _ => num = []
  | _ => True

instance (l : Line) : Decidable (Admitted l) := by
  unfold Admitted
  split <;> infer_instance

/-- The conditions of `md_dispatch` in terms of words. -/
lemma select_words : mdSelect l =
    if word l = ascii ['P', 'I', 'N', 'G'] then .ping
    else if word l = ascii ['S', 'T', 'A', 'T', 'U', 'S'] then .status
    else if (word l = ascii ['D', 'I', 'A', 'L'] ∧ BLANK ∈ l) ∧ word (rest l) = [] then
      .dial (l.drop 5)
    else if word l = ascii ['A', 'N', 'S', 'W', 'E', 'R'] then .answer
    else if word l = ascii ['H', 'A', 'N', 'G', 'U', 'P'] then .hangup
    else if (word l = ascii ['S', 'M', 'S'] ∧ BLANK ∈ l) ∧ word (rest l) = [] then
      if BLANK ∈ l.drop 4 then .sms (word (l.drop 4)) (rest (l.drop 4)) else .invalid
    else if word l = ascii ['R', 'E', 'G'] then .reg
    else if word l = ascii ['S', 'I', 'G', 'N', 'A', 'L'] then .signal
    else .invalid := by
  have hdial : ascii ['D', 'I', 'A', 'L', ' '] = ascii ['D', 'I', 'A', 'L'] ++ [BLANK] := rfl
  have hsms : ascii ['S', 'M', 'S', ' '] = ascii ['S', 'M', 'S'] ++ [BLANK] := rfl
  unfold mdSelect
  rw [hdial, hsms]
  simp (disch := decide) only [lineIs_word, lineIs_blank]
  rfl

lemma mem_of_rest (h : BLANK ∈ rest l) : BLANK ∈ l :=
  (List.dropWhile_sublist _).subset (List.mem_of_mem_tail h)

/-- The line has an argument for a command that takes one. -/
def Argued (l : Line) : Prop :=
  word l = ascii ['D', 'I', 'A', 'L'] ∧ BLANK ∈ l ∨ word l = ascii ['S', 'M', 'S'] ∧ BLANK ∈ rest l

lemma admitted_of_not_argued (h : ¬ Argued l) : Admitted l := by
  obtain ⟨hd, hs⟩ := not_or.mp h
  unfold Admitted parse
  rw [if_neg hd, if_neg hs]
  split_ifs <;> trivial

/-- The matcher takes the protocol's branch or none. -/
lemma select_eq (l : Line) : mdSelect l = if Admitted l then parse l else .invalid := by
  rw [select_words]
  by_cases hd : word l = ascii ['D', 'I', 'A', 'L'] ∧ BLANK ∈ l
  · have hparse : parse l = .dial (rest l) := by simp [parse, hd, ascii]
    have hdrop : l.drop 5 = rest l := drop_word hd.1
    simp [Admitted, hparse, hdrop, hd, ascii]
  · by_cases hs : word l = ascii ['S', 'M', 'S'] ∧ BLANK ∈ rest l
    · have hparse : parse l = .sms (word (rest l)) (rest (rest l)) := by simp [parse, hs, ascii]
      have hdrop : l.drop 4 = rest l := drop_word hs.1
      simp [Admitted, hparse, hdrop, hs, mem_of_rest hs.2, ascii]
    · have hd' : ¬ ((word l = ascii ['D', 'I', 'A', 'L'] ∧ BLANK ∈ l) ∧ word (rest l) = []) :=
        fun h => hd h.1
      rw [if_pos (admitted_of_not_argued (not_or.mpr ⟨hd, hs⟩)), parse, if_neg hd, if_neg hs,
        if_neg hd']
      by_cases hw : word l = ascii ['S', 'M', 'S']
      · have hno : BLANK ∉ l.drop 4 := fun h => hs ⟨hw, (drop_word hw).subst h⟩
        simp [hw, hno, ascii]
      · simp only [hw, false_and, if_false]

/-- A longer line asks for something too. -/
lemma Argued.parse_append (h : Argued l) (r : Line) : parse (l ++ r) ≠ .invalid := by
  have hmore : ∀ l : Line, BLANK ∈ l → word (l ++ r) = word l ∧ rest (l ++ r) = rest l ++ r := by
    intro l hl
    induction l with
    | nil => simp at hl
    | cons b l ih =>
      by_cases hb : b = BLANK
      · simp [word, rest, hb]
      · have hih := ih ((List.mem_cons.mp hl).resolve_left (Ne.symm hb))
        simp [word, rest, hb] at hih ⊢
        exact hih
  rcases h with ⟨hw, hb⟩ | ⟨hw, hb⟩
  · obtain ⟨hword, -⟩ := hmore l hb
    simp [parse, hword, hw, hb, ascii]
  · obtain ⟨hword, hrest⟩ := hmore l (mem_of_rest hb)
    simp [parse, hword, hrest, hw, hb, ascii]

/-- The C string that is left of a line in the buffer. -/
def stored (l : Line) : Line := (l.take (MD_LINE_MAX - 1)).takeWhile (· ≠ 0)

/-- A line that fits is no `DIAL` or `SMS` with a number, and asks for the same up to its first
NUL; what is left of a longer one asks for the same or for nothing. -/
def Fits (l : Line) : Prop :=
  if l.length < MD_LINE_MAX then parse (stored l) = parse l ∧ Admitted (stored l)
  else parse (stored l) = parse l ∨ parse (stored l) = .invalid ∨ ¬ Admitted (stored l)

lemma obeyed_iff (l : Line) : Obeyed l (mdSelect (stored l)) ↔ Fits l := by
  unfold Obeyed Fits
  rw [select_eq]
  by_cases hadm : Admitted (stored l)
  · rw [if_pos hadm]
    split_ifs <;> simp [hadm, or_comm]
  · rw [if_neg hadm]
    split_ifs with hlen
    · have hprefix : stored l <+: l := (List.takeWhile_prefix _).trans (List.take_prefix _ _)
      obtain ⟨r, hr⟩ := hprefix
      have hargued : Argued (stored l) := by
        by_contra hno
        exact hadm (admitted_of_not_argued hno)
      have hvalid := hargued.parse_append r
      rw [hr] at hvalid
      simp [hadm, hvalid.symm]
    · simp [hadm]

/-! ## A client's stream -/

variable {σ : Type} {M : Modem σ}

/-- The buffer holds the front of the line that is coming in. -/
lemma byte_run (b : List UInt8) (cur : Line) (s : Client σ)
    (hs : s.line = cur.take (MD_LINE_MAX - 1)) :
    ∃ log, (b.foldl (clientByte M) s).log = s.log ++ log ∧
      Answers (fun l op => op = mdSelect (stored l)) (linesFrom cur b) log := by
  induction b generalizing cur s with
  | nil => exact ⟨[], by simp, .nil⟩
  | cons c b ih =>
    rw [List.foldl_cons, linesFrom]
    by_cases hc : c = LF ∨ c = CR
    · rw [if_pos hc]
      by_cases hcur : cur = []
      · have hstay : clientByte M s c = s := by simp [clientByte, hc, hs, hcur]
        rw [hstay, if_pos hcur]
        exact ih [] s (by rw [hs, hcur])
      · have hline : s.line ≠ [] := by simp [hs, hcur, MD_LINE_MAX]
        rw [if_neg hcur, clientByte, if_pos hc, if_pos hline]
        obtain ⟨log, hlog, hans⟩ := ih [] { mdDispatch M s s.line with line := [] } rfl
        refine ⟨_, hlog.trans (List.append_assoc _ _ _), .cons ?_ hans⟩
        rw [hs]
        rfl
    · rw [if_neg hc]
      -- the buffer holds the first bytes of the line, however long it grows
      have hgrow : (clientByte M s c).line = (cur ++ [c]).take (MD_LINE_MAX - 1) := by
        rw [clientByte, if_neg hc, hs, List.length_take]
        split_ifs with hroom
        · have hcur : cur.length < MD_LINE_MAX - 1 := by omega
          have hmore : (cur ++ [c]).length ≤ MD_LINE_MAX - 1 := by
            rw [List.length_append]
            exact hcur
          rw [List.take_of_length_le hcur.le, List.take_of_length_le hmore]
        · have hcur : MD_LINE_MAX - 1 ≤ cur.length := by
            unfold MD_LINE_MAX at hroom ⊢
            omega
          rw [hs, List.take_append_of_le_length hcur]
      have hlog : (clientByte M s c).log = s.log := by
        rw [clientByte, if_neg hc]
        split_ifs <;> rfl
      rw [← hlog]
      exact ih _ _ hgrow

lemma answers_iff {R : Line → Op → Prop} {f : Line → Op} {ls : List Line} {log : List Action}
    (h : Answers (fun l op => op = f l) ls log) : Answers R ls log ↔ ∀ l ∈ ls, R l (f l) := by
  induction h with
  | nil => simp [Answers.nil]
  | cons hop _ ih =>
    rw [List.forall_mem_cons, ← ih]
    constructor
    · intro h
      cases h with
      | cons h hrest => exact ⟨hop ▸ h, hrest⟩
    · exact fun h => .cons (hop ▸ h.1) h.2

/-- The lines of a client are served as the protocol says exactly when each of them fits. -/
theorem lines_served (m : σ) (chunks : List (List UInt8)) :
    Answers Obeyed (linesFrom [] chunks.flatten) (mdClientTask M m chunks).log ↔
      ∀ l ∈ linesFrom [] chunks.flatten, Fits l := by
  obtain ⟨log, hlog, hans⟩ := byte_run (M := M) chunks.flatten [] ⟨m, [], []⟩ rfl
  have hrun : (mdClientTask M m chunks).log = log := by
    rw [mdClientTask, ← List.foldl_flatten, hlog]
    rfl
  rw [hrun, answers_iff hans]
  exact forall₂_congr fun l _ => obeyed_iff l

/-- A modem that accepts everything. -/
def willing : Modem Unit where
  stateName _ := ascii ['I', 'D', 'L', 'E']
  dial _ _ := (0, ())
  answer _ := (0, ())
  hangup _ := (0, ())
  smsSend _ _ _ := (0, ())
  queryReg _ := (1, ())
  querySignal _ := ((20, 0), ())

/-- `DIAL 5` is refused: the byte after the blank of the command is no blank. -/
theorem dial_refused :
    ¬ Answers Obeyed (linesFrom [] (ascii ['D', 'I', 'A', 'L', ' ', '5', '\n']))
      (mdClientTask willing () [ascii ['D', 'I', 'A', 'L', ' ', '5', '\n']]).log := by
  intro h
  have hlog : (mdClientTask willing () [ascii ['D', 'I', 'A', 'L', ' ', '5', '\n']]).log
      = [.took .invalid, .wrote (ascii ['E', 'R', 'R', ' ', '-', '2', '2', '\n'])] := by decide
  rw [hlog] at h
  cases h with
  | cons h _ => exact absurd h (by decide)

end MobilePhoneOs.Modemd
