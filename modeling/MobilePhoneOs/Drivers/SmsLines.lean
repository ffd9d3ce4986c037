import MobilePhoneOs.Drivers.Sms

/-!
# The lines of a message

Which lines the engine hands over depends on the bytes and on whether a command is pending
when a line ends, and on nothing else: not on where the reads and the ticks cut the bytes, and
not on the submits in between. A line keeps what the buffer has room for.
-/

namespace MobilePhoneOs.Sms

open Mem At
open Engine (cstr)

/-! ## The lines that are handed over -/

/-- The lines in the log, newest first. -/
def urcsOf (log : List Ev) : List (List UInt8) :=
  log.filterMap fun ev => match ev with | .urc line => some line | _ => none

lemma urcsOf_cons {ev : Ev} (h : ∀ line, ev ≠ .urc line) (log : List Ev) :
    urcsOf (ev :: log) = urcsOf log := by
  cases ev with
  | urc line => exact absurd rfl (h line)
  | _ => rfl

lemma urcsOf_urc (line : List UInt8) (log : List Ev) :
    urcsOf (.urc line :: log) = line :: urcsOf log := rfl

lemma modemOf_eq (fs : (List UInt8 → Option (List UInt8)) → List UInt8 → List UInt8 → Option ℕ)
    (stack : ℕ → UInt8) (m : Modem) (log : List Ev) :
    modemOf fs stack m log = (urcsOf log).foldr (fun line m => urc_line fs stack m line) m := by
  induction log with
  | nil => rfl
  | cons ev log ih =>
    cases ev with
    | urc line =>
      rw [urcsOf_urc, List.foldr_cons, ← ih]
      rfl
    | _ => exact ih

/-- No line is handed over, and the buffer and the handler stay. -/
structure Quiet (e e' : Engine) : Prop where
  line : e'.line = e.line
  handler : e'.urc_cb = e.urc_cb
  urcs : urcsOf e'.log = urcsOf e.log

section

variable {react : List Ev → List Submit} {e e' e'' : Engine}

lemma Quiet.refl (e : Engine) : Quiet e e := ⟨rfl, rfl, rfl⟩

lemma Quiet.trans (h : Quiet e e') (h' : Quiet e' e'') : Quiet e e'' :=
  ⟨h'.line.trans h.line, h'.handler.trans h.handler, h'.urcs.trans h.urcs⟩

lemma quiet_record {ev : Ev} (h : ∀ line, ev ≠ .urc line) (e : Engine) : Quiet e (e.record ev) :=
  ⟨rfl, rfl, urcsOf_cons h e.log⟩

/-- A submit is refused and changes nothing, or the engine was idle and waits from now on. -/
lemma submit_cases (e : Engine) (s : Submit) :
    (e.at_engine_submit s).1 = e ∨
      e.pending = false ∧ ∃ cmd limit stats, (e.at_engine_submit s).1 = { e with
        retry_cmd := cmd, pending := true, resp_cb := s.cb, resp := [], sent_ms := s.now
        timeout_ms := limit, retries_left := s.retries, stats := stats
        log := .accept limit s.retries s.now s.cb :: e.log } := by
  rw [Engine.at_engine_submit]
  cases hcmd : s.cmd with
  | none => exact .inl rfl
  | some cmd =>
    by_cases hp : e.pending = true
    · exact .inl (by simp [hp])
    by_cases hlen : AT_CMD_MAX < cmd.length
    · exact .inl (by simp [hlen])
    by_cases hw : s.written = true
    · refine .inr ⟨by simpa using hp, cmd, if s.timeout_ms = 0 then 2000 else s.timeout_ms,
        { e.stats with submitted := e.stats.submitted + 1 }, ?_⟩
      simp [hp, hlen, hw]
    · exact .inl (by simp [hw])

lemma quiet_submit (e : Engine) (s : Submit) : Quiet e (e.at_engine_submit s).1 := by
  rcases submit_cases e s with h | ⟨-, cmd, limit, stats, h⟩
  · rw [h]
    exact .refl e
  · rw [h]
    exact ⟨rfl, rfl, rfl⟩

lemma quiet_submits (ss : List Submit) (e : Engine) :
    Quiet e (ss.foldl (fun e s => (e.at_engine_submit s).1) e) := by
  induction ss generalizing e with
  | nil => exact .refl e
  | cons s ss ih => exact (quiet_submit e s).trans (ih _)

lemma quiet_setStats (e : Engine) (stats : Stats) : Quiet e (e.setStats stats) := ⟨rfl, rfl, rfl⟩

lemma quiet_deliver (e : Engine) (status : Status) : Quiet e (e.deliver react status) := by
  have hidle : Quiet e { e with pending := false, resp_cb := false } := ⟨rfl, rfl, rfl⟩
  rw [Engine.deliver]
  split
  · exact (hidle.trans (quiet_record (fun _ => Ev.noConfusion) _)).trans (quiet_submits _ _)
  · exact hidle

lemma quiet_deliver_error (e : Engine) (status : Status) :
    Quiet e (e.deliver_error react status) := by
  rw [Engine.deliver_error]
  split
  · exact (quiet_setStats e _).trans (quiet_deliver _ _)
  · exact (quiet_setStats e _).trans (quiet_deliver _ _)

/-- The end of a tick hands no line over. -/
lemma quiet_expire (e : Engine) (now_ms : UInt64) : Quiet e (e.expire react now_ms) := by
  have htick : Quiet e (e.record (.tick now_ms)) := quiet_record (fun _ => Ev.noConfusion) e
  rw [Engine.expire]
  split
  · split
    · exact htick.trans ⟨rfl, rfl, rfl⟩
    · exact htick.trans (quiet_deliver_error _ _)
  · exact htick

/-- The line buffer after a byte that does not end the line. -/
def keep (line : List UInt8) (c : UInt8) : List UInt8 :=
  if c ≠ CR ∧ line.length + 1 < AT_LINE_MAX then line ++ [c] else line

/-- A byte inside a line that is not the prompt. -/
lemma rx_char {c : UInt8} (hc : c ≠ LF) (hgt : keep e.line c ≠ [GT]) :
    e.rx react c = { e.record (.byte c) with line := keep e.line c } := by
  have hkept : (if c ≠ CR ∧ (e.record (.byte c)).line.length + 1 < AT_LINE_MAX then
        { e.record (.byte c) with line := (e.record (.byte c)).line ++ [c] }
      else e.record (.byte c)) = { e.record (.byte c) with line := keep e.line c } := by
    rw [keep]
    by_cases h : c ≠ CR ∧ e.line.length + 1 < AT_LINE_MAX
    · rw [if_pos h]
      exact if_pos h
    · rw [if_neg h]
      exact if_neg h
  rw [Engine.rx]
  simp only [if_neg hc, hkept]
  rw [if_neg fun h => hgt h.2.1]

/-- A line that answers no command. -/
structure Plain (line : List UInt8) : Prop where
  ok : line ≠ ascii ['O', 'K']
  error : (ascii ['E', 'R', 'R', 'O', 'R']).isPrefixOf line = false
  cme : (ascii ['+', 'C', 'M', 'E', ' ', 'E', 'R', 'R', 'O', 'R']).isPrefixOf line = false
  cms : (ascii ['+', 'C', 'M', 'S', ' ', 'E', 'R', 'R', 'O', 'R']).isPrefixOf line = false

variable (react) in
/-- Such a line is handed over, or kept for the pending command. -/
lemma plain_consume {line : List UInt8} (hp : Plain line) (hcb : e.urc_cb = true) :
    (e.line_consume react line).urc_cb = true ∧
      urcsOf (e.line_consume react line).log =
        (if e.pending then [] else [line]) ++ urcsOf e.log := by
  rw [Engine.line_consume, if_neg hp.ok, hp.error, hp.cme, hp.cms]
  simp only [Bool.or_self, Bool.false_eq_true, if_false]
  by_cases hpend : e.pending = true
  · rw [hpend]
    simp only [Bool.not_true, Bool.false_eq_true, if_false, if_true]
    split
    · exact ⟨hcb, rfl⟩
    · exact ⟨hcb, rfl⟩
  · have hidle : e.pending = false := Bool.eq_false_iff.mpr hpend
    rw [hidle]
    simp only [Bool.not_false, if_true, hcb, Bool.false_eq_true, if_false]
    set idle := e.setStats { e.stats with urcs := e.stats.urcs + 1 } with hset
    have hq := quiet_submits (react (.urc line :: idle.log)) (idle.record (.urc line))
    exact ⟨hq.handler.trans hcb, hq.urcs⟩

variable (react) in
/-- The end of a line. -/
lemma rx_lf (hline : e.line ≠ []) (hp : Plain (cstr e.line)) (hcb : e.urc_cb = true) :
    (e.rx react LF).line = [] ∧ (e.rx react LF).urc_cb = true ∧
      urcsOf (e.rx react LF).log =
        (if e.pending then [] else [cstr e.line]) ++ urcsOf e.log := by
  have hrecord : Quiet e (e.record (.byte LF)) := quiet_record (fun _ => Ev.noConfusion) e
  obtain ⟨hcb', hurcs⟩ := plain_consume react (e := e.record (.byte LF)) hp hcb
  have hlf : LF ≠ GT := by decide
  rw [Engine.rx]
  simp only [if_true, hlf, false_and, if_false]
  rw [if_neg (show (e.record (.byte LF)).line ≠ [] from hline)]
  exact ⟨trivial, hcb', hurcs.trans (by rw [hrecord.urcs]; rfl)⟩

/-! ### Stretches of a run -/

lemma run_append (react : List Ev → List Submit) (e : Engine) (evs evs' : List Event) :
    run react e (evs ++ evs') = run react (run react e evs) evs' := List.foldl_append

lemma clear_append (evs evs' : List Event) :
    Clear react e (evs ++ evs') ↔ Clear react e evs ∧ Clear react (run react e evs) evs' := by
  induction evs generalizing e with
  | nil => exact (and_iff_right trivial).symm
  | cons ev evs ih =>
    show (_ ∧ Clear react _ (evs ++ evs')) ↔ (_ ∧ Clear react _ evs) ∧ _
    rw [ih, and_assoc]
    rfl

/-- A run is cut where one of its bytes arrives. -/
lemma bytesOf_split {c : UInt8} {bs cs : List UInt8} : ∀ {evs : List Event},
    bytesOf evs = bs ++ c :: cs →
    ∃ evs₁ evs₂, evs = evs₁ ++ .rx c :: evs₂ ∧ bytesOf evs₁ = bs ∧ bytesOf evs₂ = cs := by
  intro evs
  induction evs generalizing bs with
  | nil =>
    intro h
    exact absurd h (by simp [bytesOf])
  | cons ev evs ih =>
    intro h
    cases hev : ev.byteOf with
    | none =>
      have hrest : bytesOf evs = bs ++ c :: cs := by
        rw [← h, bytesOf, bytesOf, List.filterMap_cons_none hev]
      obtain ⟨evs₁, evs₂, rfl, h₁, h₂⟩ := ih hrest
      refine ⟨ev :: evs₁, evs₂, rfl, ?_, h₂⟩
      rw [← h₁, bytesOf, bytesOf, List.filterMap_cons_none hev]
    | some b =>
      obtain rfl : ev = .rx b := by
        cases ev with
        | rx c => exact congrArg Event.rx (Option.some.inj hev)
        | _ => exact absurd hev (by simp [Event.byteOf])
      rw [bytesOf, List.filterMap_cons_some hev, ← bytesOf] at h
      cases bs with
      | nil =>
        obtain ⟨rfl, hrest⟩ := List.cons.inj h
        exact ⟨[], evs, rfl, rfl, hrest⟩
      | cons b' bs =>
        obtain ⟨rfl, hrest⟩ := List.cons.inj h
        obtain ⟨evs₁, evs₂, rfl, h₁, h₂⟩ := ih hrest
        refine ⟨.rx b :: evs₁, evs₂, rfl, ?_, h₂⟩
        rw [← h₁, bytesOf, List.filterMap_cons_some hev, ← bytesOf]

/-- Between two line ends the condition says nothing. -/
lemma clear_of_noLF : ∀ {evs : List Event} {e : Engine}, LF ∉ bytesOf evs → Clear react e evs := by
  intro evs
  induction evs with
  | nil => exact fun _ => trivial
  | cons ev evs ih =>
    intro e h
    cases hev : ev.byteOf with
    | none =>
      rw [bytesOf, List.filterMap_cons_none hev, ← bytesOf] at h
      exact ⟨fun hlf => absurd (hev.symm.trans hlf) (by simp), ih h⟩
    | some b =>
      rw [bytesOf, List.filterMap_cons_some hev, ← bytesOf] at h
      obtain ⟨hb, hrest⟩ := not_or.mp (mt List.mem_cons.mpr h)
      exact ⟨fun hlf => absurd (Option.some.inj (hev.symm.trans hlf)).symm hb, ih hrest⟩

/-- A byte that is kept or dropped, seen with the bytes behind it. -/
lemma keep_spec {line : List UInt8} (hlen : line.length ≤ AT_LINE_MAX - 1) (c : UInt8)
    (cs : List UInt8) :
    (keep line c ++ cs.filter (· != CR)).take (AT_LINE_MAX - 1)
        = (line ++ (c :: cs).filter (· != CR)).take (AT_LINE_MAX - 1) ∧
      ∀ x, (keep line c ++ cs.filter (· != CR)).head? = some x →
        (line ++ (c :: cs).filter (· != CR)).head? = some x := by
  have hmax : AT_LINE_MAX = 160 := rfl
  by_cases hcr : c = CR
  · have hkeep : keep line c = line := if_neg fun h => h.1 hcr
    have hdrop : (c :: cs).filter (· != CR) = cs.filter (· != CR) := by
      rw [hcr]
      exact List.filter_cons_of_neg (by decide)
    rw [hkeep, hdrop]
    exact ⟨rfl, fun _ hx => hx⟩
  have hcons : (c :: cs).filter (· != CR) = c :: cs.filter (· != CR) :=
    List.filter_cons_of_pos (by simpa using hcr)
  rw [hcons]
  by_cases hroom : line.length + 1 < AT_LINE_MAX
  · have hkeep : keep line c = line ++ [c] := if_pos ⟨hcr, hroom⟩
    rw [hkeep, List.append_assoc, List.singleton_append]
    exact ⟨rfl, fun _ hx => hx⟩
  · have hkeep : keep line c = line := if_neg fun h => hroom h.2
    have hfull : line.length = AT_LINE_MAX - 1 := by omega
    have hne : line ≠ [] := by
      intro hnil
      rw [hnil, List.length_nil] at hfull
      omega
    rw [hkeep, List.take_left' hfull, List.take_left' hfull, List.head?_append_of_ne_nil _ hne,
      List.head?_append_of_ne_nil _ hne]
    exact ⟨rfl, fun _ hx => hx⟩

variable (react) in
/-- The bytes of a line go to the buffer as far as it has room, the carriage returns apart. -/
lemma run_chars : ∀ {evs : List Event} {e : Engine}, LF ∉ bytesOf evs →
    (∀ x, (e.line ++ (bytesOf evs).filter (· != CR)).head? = some x → x ≠ GT) →
    e.line.length ≤ AT_LINE_MAX - 1 →
    (run react e evs).line =
        (e.line ++ (bytesOf evs).filter (· != CR)).take (AT_LINE_MAX - 1) ∧
      (run react e evs).urc_cb = e.urc_cb ∧ urcsOf (run react e evs).log = urcsOf e.log := by
  intro evs
  induction evs with
  | nil =>
    intro e _ _ hlen
    refine ⟨?_, rfl, rfl⟩
    rw [show bytesOf [] = [] from rfl, List.filter_nil, List.append_nil,
      List.take_of_length_le hlen]
    rfl
  | cons ev evs ih =>
    intro e hlf hgt hlen
    cases hev : ev.byteOf with
    | none =>
      have hq : Quiet e (ev.apply react e) := by
        cases ev with
        | rx c => exact absurd hev (by simp [Event.byteOf])
        | expire now_ms => exact quiet_expire e now_ms
        | submit s => exact quiet_submit e s
      rw [bytesOf, List.filterMap_cons_none hev, ← bytesOf] at hlf hgt ⊢
      obtain ⟨h₁, h₂, h₃⟩ := ih (e := ev.apply react e) hlf (by rwa [hq.line])
        (by rwa [hq.line])
      refine ⟨h₁.trans (by rw [hq.line]), h₂.trans hq.handler, h₃.trans hq.urcs⟩
    | some c =>
      obtain rfl : ev = .rx c := by
        cases ev with
        | rx c => exact congrArg Event.rx (Option.some.inj hev)
        | _ => exact absurd hev (by simp [Event.byteOf])
      rw [bytesOf, List.filterMap_cons_some hev, ← bytesOf] at hlf hgt ⊢
      obtain ⟨hc, hlf⟩ := not_or.mp (mt List.mem_cons.mpr hlf)
      -- the line after the byte, with what is still to come
      have hlong : (keep e.line c).length ≤ AT_LINE_MAX - 1 := by
        rw [keep]
        split_ifs with hkeep
        · rw [List.length_append, List.length_singleton]
          omega
        · exact hlen
      obtain ⟨htake, hhead⟩ := keep_spec hlen c (bytesOf evs)
      have hne : keep e.line c ≠ [GT] := by
        intro heq
        rw [heq] at hhead
        exact hgt GT (hhead _ rfl) rfl
      have heng : (Event.rx c).apply react e = { e.record (.byte c) with line := keep e.line c } :=
        rx_char (Ne.symm hc) hne
      obtain ⟨h₁, h₂, h₃⟩ := ih (e := (Event.rx c).apply react e) hlf
        (by rw [heng]; exact fun x hx => hgt x (hhead x hx)) (by rw [heng]; exact hlong)
      rw [heng] at h₁ h₂ h₃
      have hrun : run react e (.rx c :: evs) = run react { e.record (.byte c) with
          line := keep e.line c } evs := by
        rw [← heng]
        rfl
      rw [hrun]
      exact ⟨h₁.trans htake, h₂, h₃.trans (urcsOf_cons (fun _ => Ev.noConfusion) e.log)⟩

/-! ### The two lines -/

/-- What is left of a line in the buffer. -/
def bufferOf (bs : List UInt8) : List UInt8 := (bs.filter (· != CR)).take (AT_LINE_MAX - 1)

variable (react) in
lemma run_line {evs : List Event} (hline : e.line = []) (hcb : e.urc_cb = true)
    (hlf : LF ∉ bytesOf evs) (hgt : ∀ x, ((bytesOf evs).filter (· != CR)).head? = some x → x ≠ GT)
    (hne : bufferOf (bytesOf evs) ≠ []) (hp : Plain (cstr (bufferOf (bytesOf evs)))) :
    (run react e (evs ++ [.rx LF])).line = [] ∧ (run react e (evs ++ [.rx LF])).urc_cb = true ∧
      (Clear react e (evs ++ [.rx LF]) ↔ (run react e evs).pending = false) ∧
      urcsOf (run react e (evs ++ [.rx LF])).log =
        (if (run react e evs).pending then [] else [cstr (bufferOf (bytesOf evs))]) ++
          urcsOf e.log := by
  obtain ⟨hbuf, hcb', hurcs⟩ := run_chars react hlf (e := e)
    (by rw [hline]; exact hgt) (by rw [hline]; exact Nat.zero_le _)
  rw [hline, List.nil_append] at hbuf
  have hend : run react e (evs ++ [.rx LF]) = (run react e evs).rx react LF := by
    rw [run_append]
    rfl
  have hclear : Clear react e (evs ++ [.rx LF]) ↔ (run react e evs).pending = false := by
    rw [clear_append, and_iff_right (clear_of_noLF hlf)]
    constructor
    · exact fun h => h.1 rfl
    · exact fun h => ⟨fun _ => h, trivial⟩
  have hbuf' : (run react e evs).line = bufferOf (bytesOf evs) := hbuf
  obtain ⟨h₁, h₂, h₃⟩ := rx_lf react (e := run react e evs) (by rw [hbuf']; exact hne)
    (by rw [hbuf']; exact hp) (hcb'.trans hcb)
  rw [hend]
  refine ⟨h₁, h₂, hclear, h₃.trans ?_⟩
  rw [hbuf', hurcs]

lemma cstr_of_noCR {line : List UInt8} (h : CR ∉ line) :
    cstr line = line.takeWhile (· != 0) := by
  have hlast : line.getLast? ≠ some CR := fun hl => h (List.mem_of_getLast? hl)
  rw [cstr, if_neg hlast]

lemma CR_notMem_bufferOf (bs : List UInt8) : CR ∉ bufferOf bs := by
  intro h
  have hmem := List.mem_filter.mp (List.mem_of_mem_take h)
  exact absurd hmem.2 (by decide)

lemma header_line (header : List UInt8) :
    ∃ rest, cstr (bufferOf (CMT ++ header ++ [CR])) = CMT ++ rest := by
  rw [cstr_of_noCR (CR_notMem_bufferOf _)]
  have hfilter : (CMT ++ header ++ [CR]).filter (· != CR)
      = CMT ++ (header ++ [CR]).filter (· != CR) := by
    rw [List.append_assoc, List.filter_append]
    rfl
  have htake : bufferOf (CMT ++ header ++ [CR])
      = CMT ++ ((header ++ [CR]).filter (· != CR)).take (AT_LINE_MAX - 1 - CMT.length) := by
    rw [bufferOf, hfilter, List.take_append]
    rfl
  rw [htake]
  exact ⟨_, rfl⟩

lemma plain_header (rest : List UInt8) : Plain (CMT ++ rest) :=
  ⟨fun h => absurd (List.cons.inj h).1 (by decide), rfl, rfl, rfl⟩

/-- The digits of a PDU line. -/
def AllHex (hex : List UInt8) : Prop := ∀ c ∈ hex, (hexval c).isSome

variable {hex : List UInt8}

lemma AllHex.notMem (h : AllHex hex) {c : UInt8} (hc : hexval c = none) :
    c ∉ hex := by
  intro hmem
  have hsome := h c hmem
  rw [hc] at hsome
  exact absurd hsome (by decide)

lemma plain_hex (h : AllHex hex) : Plain hex := by
  have hpre : ∀ {pre : List UInt8} {c : UInt8}, c ∈ pre → hexval c = none →
      pre.isPrefixOf hex = false := by
    intro pre c hc hnone
    rw [Bool.eq_false_iff]
    intro hp
    exact h.notMem hnone ((List.isPrefixOf_iff_prefix.mp hp).subset hc)
  refine ⟨?_, hpre (c := 82) (by decide) rfl, hpre (c := 43) (by decide) rfl,
    hpre (c := 43) (by decide) rfl⟩
  rintro rfl
  exact h.notMem (c := 79) rfl (by decide)

/-- The PDU line keeps as many digits as the buffer has room for. -/
lemma hex_line (h : AllHex hex) :
    cstr (bufferOf (hex ++ [CR])) = hex.take (AT_LINE_MAX - 1) := by
  have hfilter : (hex ++ [CR]).filter (· != CR) = hex := by
    rw [List.filter_append, List.filter_eq_self.mpr]
    · exact List.append_nil hex
    · intro c hc
      have hne : c ≠ CR := ne_of_mem_of_not_mem hc (h.notMem rfl)
      simpa using hne
  rw [cstr_of_noCR (CR_notMem_bufferOf _), bufferOf, hfilter]
  apply List.takeWhile_eq_self_iff.mpr
  intro c hc
  have hne : c ≠ 0 := ne_of_mem_of_not_mem (List.mem_of_mem_take hc) (h.notMem rfl)
  simpa using hne

/-- The two lines reach the handler, each unless a command is pending at its end. -/
lemma lines_delivered {evs : List Event} {header : List UInt8}
    (hline : e.line = []) (hcb : e.urc_cb = true) (hheader : LF ∉ header) (hhex : AllHex hex)
    (hne : hex ≠ []) (hbytes : bytesOf evs = lines header hex) :
    ∃ (rest : List UInt8) (p₁ p₂ : Bool), (Clear react e evs ↔ p₁ = false ∧ p₂ = false) ∧
      urcsOf (run react e evs).log =
        (if p₂ then [] else [hex.take (AT_LINE_MAX - 1)]) ++
          ((if p₁ then [] else [CMT ++ rest]) ++ urcsOf e.log) := by
  have hlines : lines header hex
      = (CMT ++ header ++ [CR]) ++ LF :: ((hex ++ [CR]) ++ LF :: []) := by simp [lines]
  rw [hlines] at hbytes
  obtain ⟨evs₁, evs', rfl, hb₁, hb'⟩ := bytesOf_split hbytes
  obtain ⟨evs₂, evs₃, rfl, hb₂, hb₃⟩ := bytesOf_split hb'
  obtain ⟨rest, hrest⟩ := header_line header
  have hCMT : LF ∉ CMT := by decide
  have hCR : LF ∉ [CR] := by decide
  -- the header
  have hlf₁ : LF ∉ bytesOf evs₁ := by
    rw [hb₁]
    simp only [List.mem_append, not_or]
    exact ⟨⟨hCMT, hheader⟩, hCR⟩
  have hgt₁ : ∀ x, ((bytesOf evs₁).filter (· != CR)).head? = some x → x ≠ GT := by
    intro x hx
    rw [hb₁] at hx
    obtain rfl : 43 = x := Option.some.inj hx
    decide
  have hne₁ : bufferOf (bytesOf evs₁) ≠ [] := by
    intro hnil
    rw [← hb₁, hnil] at hrest
    exact absurd hrest (by simp [cstr, CMT, ascii])
  obtain ⟨hl₁, hc₁, hclear₁, hu₁⟩ := run_line react hline hcb hlf₁ hgt₁ hne₁
    (by rw [hb₁, hrest]; exact plain_header rest)
  rw [hb₁, hrest] at hu₁
  -- the PDU
  have hlf₂ : LF ∉ bytesOf evs₂ := by
    rw [hb₂]
    simp only [List.mem_append, not_or]
    exact ⟨hhex.notMem rfl, hCR⟩
  have hgt₂ : ∀ x, ((bytesOf evs₂).filter (· != CR)).head? = some x → x ≠ GT := by
    intro x hx heq
    have hmem := List.mem_filter.mp (List.mem_of_head? hx)
    rw [hb₂, heq] at hmem
    rcases List.mem_append.mp hmem.1 with hm | hm
    · exact hhex.notMem rfl hm
    · exact absurd hm (by decide)
  have hhex₂ := hex_line hhex
  have hne₂ : bufferOf (bytesOf evs₂) ≠ [] := by
    intro hnil
    rw [← hb₂, hnil] at hhex₂
    cases hex with
    | nil => exact hne rfl
    | cons c hex => exact absurd hhex₂ (by simp [cstr, AT_LINE_MAX])
  obtain ⟨hl₂, hc₂, hclear₂, hu₂⟩ := run_line react hl₁ hc₁ hlf₂ hgt₂ hne₂ (by
    rw [hb₂, hhex₂]
    exact plain_hex fun c hc => hhex c (List.mem_of_mem_take hc))
  rw [hb₂, hhex₂] at hu₂
  -- whatever comes behind brings no byte
  have hlf₃ : LF ∉ bytesOf evs₃ := by
    rw [hb₃]
    exact List.not_mem_nil
  have hlast := run_chars react
    (e := run react (run react e (evs₁ ++ [.rx LF])) (evs₂ ++ [.rx LF])) hlf₃
    (by rw [hb₃, hl₂]; simp) (by rw [hl₂]; exact Nat.zero_le _)
  have hsplit : evs₁ ++ .rx LF :: (evs₂ ++ .rx LF :: evs₃)
      = (evs₁ ++ [.rx LF]) ++ ((evs₂ ++ [.rx LF]) ++ evs₃) := by simp
  refine ⟨rest, (run react e evs₁).pending,
    (run react (run react e (evs₁ ++ [.rx LF])) evs₂).pending, ?_, ?_⟩
  · rw [hsplit, clear_append, hclear₁, clear_append, hclear₂]
    exact and_congr_right fun _ => and_iff_left (clear_of_noLF hlf₃)
  · rw [hsplit, run_append, run_append, hlast.2.2, hu₂, hu₁]

end

end MobilePhoneOs.Sms
