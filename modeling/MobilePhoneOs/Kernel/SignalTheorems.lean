import Mathlib.Data.List.TakeWhile
import MobilePhoneOs.Kernel.Signal

/-!
# Which signals are delivered as they should

The loop over the pending bits comes down to the lowest one that is not set to `SIG_IGN`. A frame
that was written is read back as it was, and the only thing that the way back loses is `x0`.
-/

namespace MobilePhoneOs.Signals

open Mem
open Function (update update_self update_of_ne)

variable {s t : Proc}

/-! ## The loop -/

/-- The bits of these signals are cleared. -/
def Proc.cleared (s : Proc) (l : List ℕ) : Proc :=
  { s with pending := fun sig => s.pending sig && decide (sig ∉ l) }

lemma cleared_nil : s.cleared [] = s := by
  unfold Proc.cleared
  simp

lemma setPending_cleared (sig : ℕ) (l : List ℕ) :
    (s.setPending sig false).cleared l = s.cleared (sig :: l) := by
  unfold Proc.cleared Proc.setPending
  congr 1
  funext g
  by_cases hg : g = sig
  · simp [hg]
  · show (update s.pending sig false g && _) = _
    rw [update_of_ne hg]
    simp [hg]

variable {sig : ℕ}

/-- A bit that is clear already may be counted in. -/
lemma cleared_cons (h : s.pending sig = false) (l : List ℕ) :
    s.cleared (sig :: l) = s.cleared l := by
  unfold Proc.cleared
  congr 1
  funext g
  by_cases hg : g = sig
  · simp [hg, h]
  · simp [hg]

/-- The signal is pending and not set to `SIG_IGN`. -/
def Proc.Due (s : Proc) (sig : ℕ) : Bool := s.pending sig && s.sig_handler sig ≠ SIG_IGN

lemma due_setPending {g : ℕ} (hg : g ≠ sig) : (s.setPending sig false).Due g = s.Due g := by
  unfold Proc.Due Proc.setPending
  simp only [update_of_ne hg]

lemma deliverFrom_none {l : List ℕ} (hnd : l.Nodup) (h : ∀ sig ∈ l, s.Due sig = false) :
    s.deliverFrom l = s.cleared l := by
  induction l generalizing s with
  | nil => exact cleared_nil.symm
  | cons sig l ih =>
    obtain ⟨hnot, hnd⟩ := List.nodup_cons.mp hnd
    have hsig := h sig List.mem_cons_self
    have hrest := fun g hg => h g (List.mem_cons_of_mem _ hg)
    rw [Proc.deliverFrom]
    cases hp : s.pending sig with
    | false =>
      rw [if_neg Bool.false_ne_true, ih hnd hrest, cleared_cons hp]
    | true =>
      have hign : s.sig_handler sig = SIG_IGN := by
        unfold Proc.Due at hsig
        rw [hp] at hsig
        simpa using hsig
      rw [if_pos rfl, if_pos hign, ih hnd, setPending_cleared]
      intro g hg
      rw [due_setPending (ne_of_mem_of_not_mem hg hnot)]
      exact hrest g hg

lemma deliverFrom_some {l₁ l₂ : List ℕ} (hnd : (l₁ ++ sig :: l₂).Nodup)
    (h : ∀ g ∈ l₁, s.Due g = false) (hdue : s.Due sig = true) :
    s.deliverFrom (l₁ ++ sig :: l₂) = (s.cleared (l₁ ++ [sig])).deliverOne sig := by
  induction l₁ generalizing s with
  | nil =>
    unfold Proc.Due at hdue
    simp only [Bool.and_eq_true, decide_eq_true_eq] at hdue
    rw [List.nil_append, Proc.deliverFrom, if_pos hdue.1, if_neg hdue.2, List.nil_append,
      ← setPending_cleared, cleared_nil]
  | cons g l ih =>
    -- a lower bit is clear or ignored, and the loop goes on with it cleared
    obtain ⟨hnot, hnd⟩ := List.nodup_cons.mp hnd
    have hg := h g List.mem_cons_self
    have hrest := fun e he => h e (List.mem_cons_of_mem _ he)
    have hgsig : sig ≠ g := fun heq => hnot (by rw [← heq]; simp)
    rw [List.cons_append, Proc.deliverFrom]
    cases hp : s.pending g with
    | false =>
      rw [if_neg Bool.false_ne_true, ih hnd hrest hdue, List.cons_append, cleared_cons hp]
    | true =>
      have hign : s.sig_handler g = SIG_IGN := by
        unfold Proc.Due at hg
        rw [hp] at hg
        simpa using hg
      rw [if_pos rfl, if_pos hign, ih hnd, setPending_cleared, List.cons_append]
      · intro e he
        rw [due_setPending (ne_of_mem_of_not_mem he fun hmem => hnot (List.mem_append_left _ hmem))]
        exact hrest e he
      · rw [due_setPending hgsig]
        exact hdue

lemma signals_nodup : signals.Nodup := by decide

lemma acts_due (h : s.Acts sig = true) : s.Due sig = true := by
  unfold Proc.Acts at h
  unfold Proc.Due
  rw [Bool.and_eq_true] at h ⊢
  refine ⟨h.1, ?_⟩
  split at h
  · rename_i hdfl
    rw [hdfl]
    decide
  · exact h.2

/-! ## The frame -/

lemma frameWords_length (c : Context) : (frameWords c).length = 35 := by
  simp [frameWords]

lemma frameBytes_length (c : Context) : (frameBytes c).length = SIGFRAME_SIZE := by
  unfold frameBytes
  rw [List.length_flatMap]
  simp [frameWords_length, SIGFRAME_SIZE]

variable {m : UserMem}

/-- The word of a frame that has been written, with the trampoline behind it. -/
lemma frameWord_written {m' m'' : UserMem} {va i : ℕ} {c : Context}
    (hframe : m.copyOut va (frameBytes c) = some m')
    (htramp : m'.copyOut (va + SIGFRAME_SIZE) trampoline = some m'') {v : ℕ}
    (hv : (frameWords c)[i]? = some v) : frameWord m'' va i = v % 256 ^ 8 := by
  obtain ⟨hi, hget⟩ := List.getElem?_eq_some_iff.mp hv
  have hlt := hi
  rw [frameWords_length] at hlt
  unfold UserMem.copyOut at hframe htramp
  split at hframe
  swap
  · cases hframe
  split at htramp
  swap
  · cases htramp
  rw [← Option.some.inj htramp, ← Option.some.inj hframe]
  unfold frameWord
  rw [load_store_of_disjoint (by unfold SIGFRAME_SIZE; omega), ← hget]
  exact load_store_words m.bytes va 8 hi

lemma ofNat_toNat_mod (v : BitVec 64) : BitVec.ofNat 64 (v.toNat % 256 ^ 8) = v := by
  rw [Nat.mod_eq_of_lt (by have := v.isLt; omega), BitVec.ofNat_toNat, BitVec.setWidth_eq]

lemma frameWords_reg (c : Context) (i : Fin 31) :
    (frameWords c)[1 + i.val]? = some (c.regs i).toNat := by
  have hi := i.isLt
  unfold frameWords
  rw [Nat.add_comm, List.getElem?_cons_succ,
    List.getElem?_append_left (by rw [List.length_ofFn]; exact hi), List.getElem?_ofFn, dif_pos hi]

lemma frameWords_tail (c : Context) : (frameWords c)[32]? = some c.sp.toNat ∧
    (frameWords c)[33]? = some c.elr.toNat ∧ (frameWords c)[34]? = some c.spsr.toNat := by
  unfold frameWords
  refine ⟨?_, ?_, ?_⟩
  all_goals
    rw [List.getElem?_cons_succ, List.getElem?_append_right (by simp)]
    simp

/-- A range that can be written can be read. -/
lemma readable_of_copyOut {m' : UserMem} {va : ℕ} {src : List UInt8}
    (h : m.copyOut va src = some m') : m.readable va src.length = true ∧ m'.user = m.user ∧
      va < USER_VA_LIMIT := by
  unfold UserMem.copyOut at h
  split at h
  swap
  · cases h
  rename_i hok
  rw [Bool.and_eq_true] at hok
  refine ⟨?_, ?_, ?_⟩
  · unfold UserMem.readable
    rw [hok.1, Bool.true_and]
    have hpages := hok.2
    unfold UserMem.checkRange at hpages ⊢
    rw [List.all_eq_true] at hpages ⊢
    intro k hk
    have hpage := hpages k hk
    rw [Bool.and_eq_true] at hpage
    simp [hpage.1]
  · rw [← Option.some.inj h]
  · have hrange := hok.1
    exact (of_decide_eq_true hrange).1

lemma readable_congr {m' : UserMem} (huser : m'.user = m.user) (va len : ℕ) :
    m'.readable va len = m.readable va len := by
  unfold UserMem.readable UserMem.checkRange
  rw [huser]
  simp

/-- What `writeFrame` leaves on the stack. -/
lemma writeFrame_intact (h : s.writeFrame = some m) :
    m.readable s.frameVa.toNat SIGFRAME_SIZE = true ∧
      frameWord m s.frameVa.toNat 0 = SIGFRAME_MAGIC ∧ frameContext m s.frameVa.toNat = s.ctx ∧
      slice m.bytes (s.frameVa + BitVec.ofNat 64 SIGFRAME_SIZE).toNat trampoline.length = trampoline := by
  obtain ⟨m', hframe, htramp⟩ := Option.bind_eq_some_iff.mp h
  obtain ⟨hread, -, hlt⟩ := readable_of_copyOut hframe
  have hva : (s.frameVa.toNat + SIGFRAME_SIZE) % 2 ^ 64 = s.frameVa.toNat + SIGFRAME_SIZE := by
    apply Nat.mod_eq_of_lt
    unfold USER_VA_LIMIT at hlt
    unfold SIGFRAME_SIZE
    omega
  have hlink : (s.frameVa + BitVec.ofNat 64 SIGFRAME_SIZE).toNat = s.frameVa.toNat + SIGFRAME_SIZE := by
    rw [BitVec.toNat_add, BitVec.toNat_ofNat, Nat.add_mod_mod, hva]
  rw [hva] at htramp
  obtain ⟨-, huser', -⟩ := readable_of_copyOut htramp
  obtain ⟨-, huser, -⟩ := readable_of_copyOut hframe
  have hword := fun {i v : ℕ} (hv : (frameWords s.ctx)[i]? = some v) =>
    frameWord_written hframe htramp hv
  refine ⟨?_, ?_, ?_, ?_⟩
  · rw [readable_congr (huser'.trans huser), ← frameBytes_length s.ctx]
    exact hread
  · rw [hword (i := 0) rfl]
    rfl
  · obtain ⟨hsp, helr, hspsr⟩ := frameWords_tail s.ctx
    unfold frameContext
    rw [hword hsp, hword helr, hword hspsr, ofNat_toNat_mod, ofNat_toNat_mod, ofNat_toNat_mod]
    have hregs : (fun i : Fin 31 => BitVec.ofNat 64 (frameWord m s.frameVa.toNat (1 + i.val)))
        = s.ctx.regs := by
      funext i
      rw [hword (frameWords_reg s.ctx i), ofNat_toNat_mod]
    rw [hregs]
  · rw [hlink]
    unfold UserMem.copyOut at htramp
    split at htramp
    · rw [← Option.some.inj htramp]
      exact slice_store _ _ _
    · cases htramp

/-! ## Delivery -/

/-- The signal that the loop acts on, with the lower ones cleared. -/
lemma deliver_eq : s.deliver = match signals.find? s.Due with
    | none => s.cleared signals
    | some sig => (s.cleared (signals.takeWhile (fun g => !s.Due g) ++ [sig])).deliverOne sig := by
  cases hfind : signals.find? s.Due with
  | none =>
    apply deliverFrom_none signals_nodup
    intro sig hsig
    simpa using List.find?_eq_none.mp hfind sig hsig
  | some sig =>
    obtain ⟨hdue, l₁, l₂, hsplit, hl₁⟩ := List.find?_eq_some_iff_append.mp hfind
    have hlow : ∀ g ∈ l₁, s.Due g = false := fun g hg => by simpa using hl₁ g hg
    have htake : signals.takeWhile (fun g => !s.Due g) = l₁ := by
      rw [hsplit, List.takeWhile_append_of_pos (fun g hg => by simp [hlow g hg]),
        List.takeWhile_cons_of_neg (by simp [hdue]), List.append_nil]
    have hnd := signals_nodup
    rw [hsplit] at hnd
    show s.deliverFrom signals = _
    rw [htake, hsplit]
    exact deliverFrom_some hnd hlow hdue

/-- The lowest signal that is due decides which one has to act. -/
lemma find_acts (hfind : signals.find? s.Due = some sig) (hacts : s.Acts sig = true) :
    signals.find? s.Acts = some sig := by
  obtain ⟨-, l₁, l₂, hsplit, hl₁⟩ := List.find?_eq_some_iff_append.mp hfind
  apply List.find?_eq_some_iff_append.mpr
  refine ⟨hacts, l₁, l₂, hsplit, ?_⟩
  intro g hg
  have hnot := hl₁ g hg
  rw [Bool.not_eq_true'] at hnot ⊢
  by_contra hact
  rw [acts_due (by simpa using hact)] at hnot
  cases hnot

lemma find_acts_none (hfind : signals.find? s.Due = none) : signals.find? s.Acts = none := by
  apply List.find?_eq_none.mpr
  intro sig hsig hacts
  exact List.find?_eq_none.mp hfind sig hsig (acts_due hacts)

/-- The signals that have to act stay pending when lower ones are cleared. -/
lemma cleared_acts {g : ℕ} (hne : g ≠ sig) (hacts : s.Acts g = true) :
    (s.cleared (signals.takeWhile (fun e => !s.Due e) ++ [sig])).pending g = true := by
  have hdue := acts_due hacts
  have hpending : s.pending g = true := by
    exact (Bool.and_eq_true _ _ ▸ hdue).1
  have hnot : g ∉ signals.takeWhile (fun e => !s.Due e) ++ [sig] := by
    rw [List.mem_append, List.mem_singleton, not_or]
    refine ⟨?_, hne⟩
    intro hmem
    have hlow := List.mem_takeWhile_imp hmem
    rw [hdue] at hlow
    cases hlow
  show (s.pending g && decide (g ∉ _)) = true
  rw [hpending, decide_eq_true hnot]
  rfl

lemma deliverOne_die (h : s.sig_handler sig = SIG_DFL ∨ signalDefaultFatal sig = true) :
    s.deliverOne sig = s.die (128 + sig) := if_pos h

/-- The frame depends on the context and the memory only. -/
lemma writeFrame_cleared (l : List ℕ) : (s.cleared l).writeFrame = s.writeFrame := rfl

/-- The handler is entered when the stack takes the frame. -/
lemma entered {l : List ℕ} (hlive : s.dead = none)
    (hframe : s.writeFrame = some m) (hsig : sig ∈ l) :
    Entered s { s.cleared l with
      mem := m
      in_signal := true
      sigframe_va := s.frameVa.toNat
      ctx := s.handlerContext sig
      saved := some s.ctx } sig := by
  obtain ⟨hread, hmagic, hctx, hlink⟩ := writeFrame_intact hframe
  refine ⟨hlive, rfl, rfl, hlink, ?_, rfl, rfl, hread, hmagic, hctx⟩
  show (s.pending sig && decide (sig ∉ l)) = false
  rw [decide_eq_false (not_not_intro hsig), Bool.and_false]

/-- To end the process is right only for a signal that has no handler and has to act. -/
lemma die_iff (hfind : signals.find? s.Due = some sig) (u : Proc) :
    DeliverLaw s (u.die (128 + sig)) ↔ s.Acts sig = true ∧ s.sig_handler sig = SIG_DFL := by
  unfold DeliverLaw
  constructor
  · intro hlaw
    cases hacts : signals.find? s.Acts with
    | none =>
      rw [hacts] at hlaw
      exact nomatch hlaw.1
    | some g =>
      rw [hacts] at hlaw
      dsimp only at hlaw
      by_cases hg : s.sig_handler g = SIG_DFL
      · rw [if_pos hg] at hlaw
        have hgsig : sig = g := Nat.add_left_cancel (Option.some.inj hlaw)
        rw [hgsig]
        exact ⟨List.find?_some hacts, hg⟩
      · rw [if_neg hg] at hlaw
        have hrun := hlaw.2
        split at hrun
        · exact nomatch hrun.1
        · exact nomatch hrun.alive
  · intro h
    rw [find_acts hfind h.1]
    dsimp only
    rw [if_pos h.2]
    rfl

/-- A boundary does what it has to exactly under the condition. -/
lemma deliver_iff (hlive : s.dead = none) : DeliverLaw s s.deliver ↔ Clean s .deliver := by
  have hclean : Clean s .deliver ↔ match signals.find? s.Due with
      | none => True
      | some sig =>
        if s.sig_handler sig = SIG_DFL then signalDefaultFatal sig = true
        else signalDefaultFatal sig = false ∧ (s.in_signal = true ∨ s.writeFrame ≠ none) := Iff.rfl
  rw [hclean, deliver_eq]
  cases hfind : signals.find? s.Due with
  | none =>
    unfold DeliverLaw
    rw [find_acts_none hfind]
    refine iff_of_true ⟨hlive, rfl, ?_⟩ trivial
    intro sig hsig
    show (s.pending sig && decide (sig ∉ signals)) = false
    rw [decide_eq_false (not_not_intro hsig), Bool.and_false]
  | some sig =>
    have hpending : s.pending sig = true ∧ s.sig_handler sig ≠ SIG_IGN := by
      have hdue := List.find?_some hfind
      unfold Proc.Due at hdue
      simpa using hdue
    have hacts : s.Acts sig = true ↔ (s.sig_handler sig = SIG_DFL → signalDefaultFatal sig = true) := by
      unfold Proc.Acts
      rw [hpending.1, Bool.true_and]
      split
      · rename_i hdfl
        exact ⟨fun h _ => h, fun h => h hdfl⟩
      · rename_i hdfl
        exact iff_of_true (decide_eq_true hpending.2) fun h => absurd h hdfl
    dsimp only
    generalize hl : signals.takeWhile (fun g => !s.Due g) ++ [sig] = l
    by_cases hdfl : s.sig_handler sig = SIG_DFL
    · -- without a handler the process ends, which is right unless the default is to ignore
      rw [if_pos hdfl, deliverOne_die (s := s.cleared l) (.inl hdfl), die_iff hfind, hacts]
      exact ⟨fun h => h.1 hdfl, fun h => ⟨fun _ => h, hdfl⟩⟩
    rw [if_neg hdfl]
    cases hfatal : signalDefaultFatal sig with
    | true =>
      -- the handler that is installed is not looked at
      rw [deliverOne_die (s := s.cleared l) (.inr hfatal), die_iff hfind]
      exact iff_of_false (fun h => hdfl h.2) fun h => nomatch h.1
    | false =>
      have hcond : ¬ ((s.cleared l).sig_handler sig = SIG_DFL ∨ signalDefaultFatal sig = true) := by
        rw [hfatal]
        exact fun hor => hor.elim hdfl Bool.false_ne_true
      have hsig : sig ∈ l := by
        rw [← hl]
        exact List.mem_append_right _ (List.mem_singleton_self _)
      have hkept : ∀ g ∈ signals, g ≠ sig → s.Acts g = true → (s.cleared l).pending g = true := by
        intro g _ hne hact
        rw [← hl]
        exact cleared_acts hne hact
      unfold DeliverLaw
      rw [find_acts hfind (hacts.mpr fun h => absurd h hdfl)]
      dsimp only
      rw [if_neg hdfl]
      unfold Proc.deliverOne
      rw [if_neg hcond, writeFrame_cleared]
      cases hin : s.in_signal with
      | true =>
        -- the signal waits for the handler that runs
        rw [if_pos (show (s.cleared l).in_signal = true from hin), if_pos rfl]
        refine iff_of_true ⟨?_, hlive, rfl, update_self _ _ _⟩ ⟨rfl, .inl rfl⟩
        intro g hg hne hact
        exact (update_of_ne hne _ _).trans (hkept g hg hne hact)
      | false =>
        have hin' : ¬ (s.cleared l).in_signal = true := by
          rw [show (s.cleared l).in_signal = false from hin]
          exact Bool.false_ne_true
        rw [if_neg hin', if_neg Bool.false_ne_true]
        cases hframe : s.writeFrame with
        | none =>
          apply iff_of_false
          · exact fun h => nomatch h.2.alive
          · exact fun h => h.2.elim (fun hf => Bool.false_ne_true hf) fun hn => hn rfl
        | some m =>
          refine iff_of_true ⟨hkept, ?_⟩ ⟨rfl, .inr nofun⟩
          exact entered hlive hframe hsig

/-! ## The way back -/

/-- A status that is not privileged passes the check of `proc_sigreturn`. -/
lemma psr_check {psr : BitVec 64} (h : ¬ Privileged psr) : psr &&& 0xc = 0 := by
  have hmode : psr &&& 0xc = (psr &&& 0x1f) &&& 0xc := by
    rw [BitVec.and_assoc]
    rfl
  rw [hmode]
  by_cases hzero : psr &&& 0x1f = 0
  · rw [hzero]
    rfl
  · have huser : psr &&& 0x1f = 0x10 := by
      by_contra hne
      exact h ⟨hzero, hne⟩
    rw [huser]
    rfl

/-- What holds of a process that lives. -/
structure Inv (s : Proc) : Prop where
  psr : s.dead = none → UserPsr s.ctx.spsr
  saved : ∀ c, s.saved = some c → s.in_signal = true ∧ UserPsr c.spsr

/-- The way back does what it has to exactly under the condition. -/
lemma sigreturn_iff (h : Inv s) (hlive : s.dead = none) :
    ReturnLaw s s.sysSigreturn ↔ Clean s .sigreturn := by
  by_cases haccepts : s.Accepts
  · have hback : s.sysSigreturn = { s with
        ctx := { frameContext s.mem s.sigframe_va with
          regs := update (frameContext s.mem s.sigframe_va).regs 0 0 }
        in_signal := false
        sigframe_va := 0
        saved := none } := by
      unfold Proc.sysSigreturn Proc.procSigreturn
      rw [if_pos haccepts]
    rw [hback]
    apply and_congr
    · apply forall_congr'
      intro c
      apply imp_congr_right
      intro _
      apply imp_congr_right
      intro hintact
      rw [← hintact.2.2]
      constructor
      · intro hlaw
        have hregs := congrArg (fun c => Context.regs c 0) hlaw.2.2
        exact hregs.symm.trans (update_self 0 0 (frameContext s.mem s.sigframe_va).regs)
      · intro hzero
        refine ⟨hlive, rfl, ?_⟩
        rw [← hzero, Function.update_eq_self]
    · exact ⟨fun hlaw _ => hlaw hlive, fun hclean _ => hclean haccepts⟩
  · have hback : s.sysSigreturn.dead = some (128 + SIGSEGV) := by
      unfold Proc.sysSigreturn Proc.procSigreturn
      rw [if_neg haccepts]
      rfl
    -- a frame as it was written is accepted
    have hnot : ∀ c, s.saved = some c → ¬ s.Intact c := by
      intro c hc hintact
      obtain ⟨hin, hhigh, hpriv, -⟩ := h.saved c hc
      apply haccepts
      refine ⟨hin, hintact.1, hintact.2.1, ?_, ?_⟩
      · rw [hintact.2.2]
        exact hhigh
      · rw [hintact.2.2]
        exact psr_check hpriv
    apply iff_of_true
    · refine ⟨fun c hc hi => absurd hi (hnot c hc), fun hnone => ?_⟩
      rw [hback] at hnone
      cases hnone
    · exact ⟨fun c hc hi => absurd hi (hnot c hc), fun hacc => absurd hacc haccepts⟩

/-! ## Runs -/

lemma deliverOne_inv (h : Inv s) (hlive : s.dead = none) (sig : ℕ) : Inv (s.deliverOne sig) := by
  unfold Proc.deliverOne
  split
  · exact ⟨nofun, h.saved⟩
  split
  · exact ⟨h.psr, h.saved⟩
  · cases s.writeFrame with
    | none => exact ⟨nofun, h.saved⟩
    | some m =>
      refine ⟨h.psr, ?_⟩
      intro c hc
      rw [← Option.some.inj hc]
      exact ⟨rfl, h.psr hlive⟩

lemma Inv.step {e : Event} (h : Inv s) (hs : Step s e t) (hlaw : Lawful s e t) : Inv t := by
  obtain ⟨hen, rfl⟩ := hs
  cases e with
  | kill sig =>
    show Inv (s.kill sig)
    unfold Proc.kill
    split
    · exact h
    · exact ⟨h.psr, h.saved⟩
  | sigaction sig handler =>
    show Inv (s.sigaction sig handler)
    unfold Proc.sigaction
    split
    · exact h
    · exact ⟨h.psr, h.saved⟩
  | user ctx mem => exact ⟨fun _ => hen.2, h.saved⟩
  | deliver =>
    show Inv s.deliver
    have hcleared : ∀ l, Inv (s.cleared l) := fun l => ⟨h.psr, h.saved⟩
    rw [deliver_eq]
    cases signals.find? s.Due with
    | none => exact hcleared _
    | some sig => exact deliverOne_inv (hcleared _) hen sig
  | sigreturn =>
    have hsafe := hlaw.2
    change Inv s.sysSigreturn
    change s.sysSigreturn.dead = none → ¬ Privileged s.sysSigreturn.ctx.spsr ∧
      ¬ Masked s.sysSigreturn.ctx.spsr at hsafe
    unfold Proc.sysSigreturn Proc.procSigreturn at hsafe ⊢
    split at hsafe
    · rename_i haccepts
      rw [if_pos haccepts]
      exact ⟨fun hd => ⟨haccepts.2.2.2.1, hsafe hd⟩, nofun⟩
    · rename_i haccepts
      rw [if_neg haccepts]
      exact ⟨nofun, h.saved⟩

lemma lawful_iff {e : Event} (h : Inv s) (hs : Step s e t) : Lawful s e t ↔ Clean s e := by
  obtain ⟨hen, rfl⟩ := hs
  cases e with
  | kill sig => exact Iff.rfl
  | sigaction sig handler => exact Iff.rfl
  | user ctx mem => exact Iff.rfl
  | deliver => exact deliver_iff hen
  | sigreturn => exact sigreturn_iff h hen.1

lemma inv_enter (sig_handler : ℕ → BitVec 64) (mem : UserMem) (sp entry : BitVec 64) :
    Inv (enter sig_handler mem sp entry) where
  psr := by
    intro _
    refine ⟨?_, ?_, ?_⟩
    · show (0 : BitVec 64) >>> 32 = 0
      decide
    · show ¬ Privileged 0
      decide
    · show ¬ Masked 0
      decide
  saved := nofun

/-- The runs of a process in which every boundary delivers the signal that has to act, and every
`SYS_sigreturn` gives back the interrupted context and nothing privileged or masked, are those
whose steps all meet the condition. -/
theorem signal_delivery (sig_handler : ℕ → BitVec 64) (mem : UserMem) (sp entry : BitVec 64)
    (es : List Event) (t : Proc) :
    Run (Guarded Clean Step) (enter sig_handler mem sp entry) es t ↔
      Run (fun s e u => Step s e u ∧ Lawful s e u) (enter sig_handler mem sp entry) es t := by
  apply Run.guarded_iff (I := Inv)
  · exact fun _ _ _ h hs hlaw => h.step hs hlaw
  · exact fun _ _ _ h hs => lawful_iff h hs
  · exact inv_enter sig_handler mem sp entry

/-- A process that has installed a handler for signal 10 and got the signal. -/
def signalled : Proc :=
  ((enter (fun _ => SIG_DFL) ⟨fun _ => 0, fun _ => true, fun _ => true⟩ 0x10000 0x400000).act
    (.sigaction 10 0x400100)).act (.kill 10)

/-- The process is killed, and its handler does not run. -/
theorem handled_signal_kills : ¬ ∀ sig_handler mem sp entry es t e u,
    Run Step (enter sig_handler mem sp entry) es t → Step t e u → Lawful t e u := by
  intro hall
  have hrun : Run Step
      (enter (fun _ => SIG_DFL) ⟨fun _ => 0, fun _ => true, fun _ => true⟩ 0x10000 0x400000)
      ([] ++ [.sigaction 10 0x400100] ++ [.kill 10]) signalled :=
    .snoc (.snoc .nil ⟨rfl, rfl⟩) ⟨rfl, rfl⟩
  have hlaw : DeliverLaw signalled signalled.deliver :=
    hall _ _ _ _ _ _ .deliver _ hrun ⟨rfl, rfl⟩
  have hdead : signalled.deliver.dead = some 138 := by decide
  have hfind : signals.find? signalled.Acts = some 10 := by decide
  unfold DeliverLaw at hlaw
  rw [hfind] at hlaw
  have hentered : Entered signalled signalled.deliver 10 := hlaw.2
  rw [hentered.alive] at hdead
  cases hdead

end MobilePhoneOs.Signals
