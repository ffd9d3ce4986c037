import MobilePhoneOs.Kernel.UnixsockConnect
import MobilePhoneOs.Kernel.UnixsockTheorems

/-!
# When a connect learns what the accepts did

The stage of an endpoint says where it stands in the handshake; every section moves the stages
of the endpoints in the caller's hands and of no others. What an endpoint looks like, what a
task may believe and what the backlog holds are all read off the stages.
-/

namespace MobilePhoneOs

open Function (update update_self update_apply update_of_ne)
namespace Ipc
namespace Usock

open Socks (setEp_of_ne setEp_self)

/-! ## What the sections do -/

/-- The fields of an endpoint that the handshake goes by. -/
def core (x : Endpoint) : UsState × Option EpId × List Task × ℤ × Option ℕ × List Task :=
  (x.state, x.peer, x.hsWq, x.hsResult, x.lslot, x.acceptWq)

lemma epRelease_core (s : Socks) (e f : EpId) :
    core ((epRelease s e).ep f)
      = if f = e then core { s.ep e with state := .free, peer := none } else core (s.ep f) := by
  unfold epRelease
  cases hpeer : (s.ep e).peer.filter fun g => (s.ep g).state ≠ .free with
  | none =>
    split_ifs with hfe
    · subst hfe
      simp [core]
    · simp [setEp_of_ne _ _ hfe]
  | some g =>
    split_ifs with hfe
    · subst hfe
      rcases eq_or_ne f g with rfl | hne
      · simp [core]
      · simp [core, setEp_of_ne _ _ hne]
    · rcases eq_or_ne f g with rfl | hne
      · simp [core, setEp_of_ne _ _ hfe]
      · simp [setEp_of_ne _ _ hfe, setEp_of_ne _ _ hne]

/-- The tables beside the pool of endpoints. -/
def tables (s : Socks) : (EpId → Bool) × (ℕ → Option EpId) × (ℕ → ℕ → Option EpId) :=
  (s.epUsed, s.listeners, s.backlog)

lemma epRelease_tables (s : Socks) (e : EpId) : tables (epRelease s e) = tables s := by
  unfold epRelease
  split <;> rfl

variable {s : Socks}

lemma epAlloc_tables {s' : Socks} {e : EpId} (h : epAlloc s = some (s', e)) :
    s'.listeners = s.listeners ∧ s'.backlog = s.backlog := by
  obtain ⟨i, _, heq⟩ := Option.map_eq_some_iff.mp h
  obtain ⟨rfl, rfl⟩ := Prod.mk.inj heq
  exact ⟨rfl, rfl⟩

lemma Socks.setSlot_backlog (s : Socks) (i b : ℕ) (c : Option EpId) (j b' : ℕ) :
    (s.setSlot i b c).backlog j b' = if j = i ∧ b' = b then c else s.backlog j b' := by
  show update s.backlog i _ j b' = _
  rcases eq_or_ne j i with rfl | hji
  · rw [update_self, update_apply]
    simp
  · rw [update_of_ne hji, if_neg (fun h => hji h.1)]

/-- `usock_connect` finds a free slot in the backlog of a listener. -/
lemma findSlot_some {path : List UInt8} {i b : ℕ} (h : findSlot s path = some (i, b)) :
    b < USOCK_BACKLOG ∧ s.backlog i b = none ∧ ∃ l, s.listeners i = some l := by
  obtain ⟨j, _, hj⟩ := List.exists_of_findSome?_eq_some h
  split_ifs at hj with hserves
  obtain ⟨c, hc, heq⟩ := Option.map_eq_some_iff.mp hj
  obtain ⟨rfl, rfl⟩ := Prod.mk.inj heq
  refine ⟨List.mem_range.mp (List.mem_of_find?_eq_some hc), ?_, ?_⟩
  · simpa using List.find?_some hc
  · unfold serves at hserves
    split at hserves
    · cases hserves
    · next l hl => exact ⟨l, hl⟩

lemma nextClient_some {i b : ℕ} {c : EpId} (h : nextClient s i = some (b, c)) :
    s.backlog i b = some c := by
  obtain ⟨b', _, hb⟩ := List.exists_of_findSome?_eq_some h
  obtain ⟨c', hc, heq⟩ := Option.map_eq_some_iff.mp hb
  obtain ⟨rfl, rfl⟩ := Prod.mk.inj heq
  exact hc

lemma nextClient_none {i : ℕ} (h : nextClient s i = none) :
    ∀ b < USOCK_BACKLOG, s.backlog i b = none := by
  intro b hb
  simpa using List.findSome?_eq_none_iff.mp h b (List.mem_range.mpr hb)

/-! ### Closing a listener -/

/-- An endpoint that was told to give up. -/
def turnedDown (x : Endpoint) : Endpoint := { x with hsResult := -ECONNREFUSED, hsWq := [] }

/-- The loop of `us_listener_destroy` empties the slots `bs` and tells their clients. -/
lemma refuse_foldl (i : ℕ) (bs : List ℕ) (s : Socks) :
    (bs.foldl (refuseSlot i) s).epUsed = s.epUsed ∧
      (bs.foldl (refuseSlot i) s).listeners = s.listeners ∧
      (∀ j b, (bs.foldl (refuseSlot i) s).backlog j b
        = if j = i ∧ b ∈ bs then none else s.backlog j b) ∧
      ∀ e, (bs.foldl (refuseSlot i) s).ep e
        = if ∃ b ∈ bs, s.backlog i b = some e then turnedDown (s.ep e) else s.ep e := by
  induction bs generalizing s with
  | nil => simp
  | cons b bs ih =>
    rw [List.foldl_cons]
    obtain ⟨hused, hlisteners, hbacklog, hep⟩ := ih (refuseSlot i s b)
    cases hslot : s.backlog i b with
    | none =>
      have hsame : refuseSlot i s b = s := by
        unfold refuseSlot
        rw [hslot]
      rw [hsame] at hused hlisteners hbacklog hep ⊢
      refine ⟨hused, hlisteners, fun j b' => ?_, fun e => ?_⟩
      · rw [hbacklog j b']
        by_cases hjb : j = i ∧ b' = b
        · obtain ⟨rfl, rfl⟩ := hjb
          simp [hslot]
        · refine if_congr ?_ rfl rfl
          simp only [List.mem_cons]
          tauto
      · rw [hep e]
        refine if_congr ?_ rfl rfl
        simp [hslot]
    | some c =>
      have hstep : refuseSlot i s b = tellClient (s.setSlot i b none) c (-ECONNREFUSED) := by
        unfold refuseSlot
        rw [hslot]
      have hback : ∀ j b', (refuseSlot i s b).backlog j b'
          = if j = i ∧ b' = b then none else s.backlog j b' := by
        intro j b'
        rw [hstep]
        exact s.setSlot_backlog i b none j b'
      have hone : ∀ e, (refuseSlot i s b).ep e = if e = c then turnedDown (s.ep c) else s.ep e := by
        intro e
        rw [hstep]
        exact update_apply ..
      refine ⟨hused.trans ?_, hlisteners.trans ?_, fun j b' => ?_, fun e => ?_⟩
      · rw [hstep]
        rfl
      · rw [hstep]
        rfl
      · rw [hbacklog, hback]
        simp only [List.mem_cons]
        split_ifs <;> first | rfl | tauto
      · rw [hep e, hone e]
        simp only [hback, List.exists_mem_cons_iff, hslot, true_and]
        by_cases hec : e = c
        · subst hec
          simp only [if_true, true_or]
          split_ifs <;> rfl
        · rw [if_neg hec]
          refine if_congr ?_ rfl rfl
          simp only [Option.some.injEq, Ne.symm hec, false_or]
          refine exists_congr fun b' => and_congr_right fun _ => ?_
          split_ifs with hb'
          · subst hb'
            simp [hslot, Ne.symm hec]
          · rfl

lemma usListenerDestroy_tables (s : Socks) (e : EpId) (i : ℕ) :
    (usListenerDestroy s e i).epUsed = s.epUsed ∧
      (∀ j, (usListenerDestroy s e i).listeners j
        = if j = i ∧ s.listeners i = some e then none else s.listeners j) ∧
      ∀ j b, (usListenerDestroy s e i).backlog j b
        = if j = i ∧ b < USOCK_BACKLOG then none else s.backlog j b := by
  unfold usListenerDestroy
  split_ifs with hmine
  · obtain ⟨hused, hlisteners, hbacklog, _⟩ :=
      refuse_foldl i (List.range USOCK_BACKLOG) (s.setListener i none)
    refine ⟨hused, fun j => (congrFun hlisteners j).trans ?_, fun j b => (hbacklog j b).trans ?_⟩
    · simp [Socks.setListener, update_apply, hmine]
    · simp [Socks.setListener]
  · obtain ⟨hused, hlisteners, hbacklog, _⟩ := refuse_foldl i (List.range USOCK_BACKLOG) s
    refine ⟨hused, fun j => (congrFun hlisteners j).trans ?_, fun j b => (hbacklog j b).trans ?_⟩
    · simp [hmine]
    · simp

/-- What the loop of `us_listener_destroy` leaves of an endpoint. -/
def afterRefusal (s : Socks) (i : ℕ) (e : EpId) : Endpoint :=
  if ∃ b < USOCK_BACKLOG, s.backlog i b = some e then turnedDown (s.ep e) else s.ep e

lemma usListenerDestroy_ep (s : Socks) (e : EpId) (i : ℕ) (f : EpId) :
    (usListenerDestroy s e i).ep f
      = if f = e then { afterRefusal s i e with state := .free } else afterRefusal s i f := by
  have hloop : ∀ s' : Socks, s'.ep = s.ep → s'.backlog = s.backlog → ∀ g,
      ((List.range USOCK_BACKLOG).foldl (refuseSlot i) s').ep g = afterRefusal s i g := by
    intro s' hep hbacklog g
    obtain ⟨_, _, _, h⟩ := refuse_foldl i (List.range USOCK_BACKLOG) s'
    rw [h g, hep, hbacklog, afterRefusal]
    simp
  unfold usListenerDestroy
  split_ifs with hmine hfe hfe
  · rw [hfe, setEp_self, hloop (s.setListener i none) rfl rfl]
  · rw [setEp_of_ne _ _ hfe, hloop (s.setListener i none) rfl rfl]
  · rw [hfe, setEp_self, hloop s rfl rfl]
  · rw [setEp_of_ne _ _ hfe, hloop s rfl rfl]

namespace Shake

/-! ## Stages -/

/-- The client has been put into a backlog. -/
def Stage.Queued : Stage → Prop
  | .pending _ _ | .held _ | .linked | .refused => True
  | _ => False

/-- The client has not been linked. -/
def Stage.Single : Stage → Prop
  | .made _ | .pending _ _ | .held _ | .refused => True
  | _ => False

/-- What the sections of the task `t` do to the stage of one endpoint. Closing a listener moves
a stage only from the backlog, which is a move of any task. -/
inductive Moves (t : Task) : Stage → Stage → Prop
  | same (g : Stage) : Moves t g g
  | make : Moves t .unused (.made t)
  | queue (i b : ℕ) : Moves t (.made t) (.pending i b)
  | pop (i b : ℕ) : Moves t (.pending i b) (.held t)
  | refuse (i b : ℕ) : Moves t (.pending i b) .refused
  | link : Moves t (.held t) .linked
  | fail : Moves t (.held t) .refused
  | serve : Moves t .unused (.serving t)
  | publish : Moves t (.serving t) .server

/-- The stage that an endpoint is in shows on it. -/
structure At (g : Stage) (x : Endpoint) (links : List EpId) (result : Option ℤ) : Prop where
  noWaiter : x.hsWq = []
  listener : x.state = .listener → g = .listener
  linked : if g = .linked then ∃ srv, links = [srv] else links = []
  single : g.Single → x.peer = none
  refused : g = .refused → x.hsResult < 0
  result : ∀ r, result = some r → r = 0 ∧ g = .linked ∨ r < 0 ∧ g = .refused

/-- What a task may believe about the endpoints in its hands. -/
def Does (s : Sys) (t : Task) : Phase → Prop
  | .idle | .accepting _ => True
  | .made c _ => s.stage c = .made t
  | .waiting c => (s.stage c).Queued ∧ (s.stage c = .linked → (s.socks.ep c).peer ≠ none)
  | .accepted c | .tearing c => s.stage c = .linked
  | .dropping c r => s.stage c = .refused ∧ r < 0
  | .popped c | .short c => s.stage c = .held t
  | .serving c srv => s.stage c = .held t ∧ s.stage srv = .serving t
  | .linked c srv | .unlinking c srv => s.stage c = .linked ∧ s.stage srv = .server

/-- The slots of the listener table name the listeners. -/
structure Table (s : Socks) : Prop where
  listener : ∀ i l, s.listeners i = some l → (s.ep l).state = .listener ∧ (s.ep l).lslot = some i
  published : ∀ l, (s.ep l).state = .listener → ∃ i, s.listeners i = some l

structure Inv (s : Sys) : Prop where
  table : Table s.socks
  shows : ∀ e, At (s.stage e) (s.socks.ep e) (s.links e) (s.result e)
  used : ∀ e, s.stage e ≠ .unused → s.socks.epUsed e = true
  slot : ∀ i b c, s.socks.backlog i b = some c ↔ s.stage c = .pending i b
  live : ∀ i b c, s.stage c = .pending i b → b < USOCK_BACKLOG ∧
    ∃ l, s.socks.listeners i = some l ∧ (s.socks.ep l).acceptWq = []
  does : ∀ t, Does s t (s.phase t)
  held : ∀ t c, s.stage c = .held t → (s.phase t).inHand = some c
  server : ∀ c srv, srv ∈ s.links c → s.stage srv = .server
  owner : ∀ c c' srv, srv ∈ s.links c → srv ∈ s.links c' → c = c'

/-! ## What a section leaves alone -/

lemma Moves.queued {t : Task} {g g' : Stage} (h : Moves t g g') (hq : g.Queued) : g'.Queued := by
  cases h with
  | same => exact hq
  | make | queue _ _ | serve | publish => exact hq.elim
  | pop _ _ | refuse _ _ | link | fail => trivial

variable {s : Sys}

/-- Other tasks go on believing what they believed. -/
lemma Does.mono {s' : Sys} {t u : Task} {p : Phase} (hut : u ≠ t)
    (hmoves : ∀ e, Moves t (s.stage e) (s'.stage e))
    (hpeer : ∀ c, p = .waiting c → s'.stage c = .linked → (s'.socks.ep c).peer ≠ none)
    (h : Does s u p) : Does s' u p := by
  have hkept : ∀ {e : EpId} {g : Stage}, s.stage e = g → (∀ g', Moves t g g' → g' = g) →
      s'.stage e = g := by
    intro e g heq hstay
    have hmove := hmoves e
    rw [heq] at hmove
    exact hstay _ hmove
  have hmade : ∀ g', Moves t (.made u) g' → g' = .made u := by
    rintro g' (_ | _ | _)
    · rfl
    · exact absurd rfl hut
  have hheld : ∀ g', Moves t (.held u) g' → g' = .held u := by
    rintro g' (_ | _ | _)
    · rfl
    · exact absurd rfl hut
    · exact absurd rfl hut
  have hserving : ∀ g', Moves t (.serving u) g' → g' = .serving u := by
    rintro g' (_ | _ | _)
    · rfl
    · exact absurd rfl hut
  have hlinked : ∀ g', Moves t .linked g' → g' = .linked := by
    rintro g' ⟨⟩
    rfl
  have hrefused : ∀ g', Moves t .refused g' → g' = .refused := by
    rintro g' ⟨⟩
    rfl
  have hserver : ∀ g', Moves t .server g' → g' = .server := by
    rintro g' ⟨⟩
    rfl
  cases p with
  | idle | accepting _ => trivial
  | made c path => exact hkept h hmade
  | waiting c => exact ⟨(hmoves c).queued h.1, hpeer c rfl⟩
  | accepted c | tearing c => exact hkept h hlinked
  | dropping c r => exact ⟨hkept h.1 hrefused, h.2⟩
  | popped c | short c => exact hkept h hheld
  | serving c srv => exact ⟨hkept h.1 hheld, hkept h.2 hserving⟩
  | linked c srv | unlinking c srv => exact ⟨hkept h.1 hlinked, hkept h.2 hserver⟩

lemma At.congr {g : Stage} {x y : Endpoint} {links : List EpId} {result : Option ℤ}
    (hcore : core y = core x) (h : At g x links result) : At g y links result := by
  simp only [core, Prod.mk.injEq] at hcore
  obtain ⟨hstate, hpeer, hhs, hresult, _, _⟩ := hcore
  refine ⟨hhs.trans h.noWaiter, ?_, h.linked, ?_, ?_, h.result⟩
  · rw [hstate]
    exact h.listener
  · rw [hpeer]
    exact h.single
  · rw [hresult]
    exact h.refused

lemma Table.keep {s s' : Socks} (h : Table s) (hlisteners : s'.listeners = s.listeners)
    (hep : ∀ l, (s.ep l).state = .listener ∨ (s'.ep l).state = .listener →
      (s'.ep l).state = (s.ep l).state ∧ (s'.ep l).lslot = (s.ep l).lslot) : Table s' := by
  refine ⟨fun i l hl => ?_, fun l hl => ?_⟩
  · rw [hlisteners] at hl
    obtain ⟨hstate, hlslot⟩ := h.listener i l hl
    obtain ⟨hstate', hlslot'⟩ := hep l (.inl hstate)
    exact ⟨hstate'.trans hstate, hlslot'.trans hlslot⟩
  · rw [hlisteners]
    exact h.published l ((hep l (.inr hl)).1.symm.trans hl)

namespace Inv

variable {s s' : Sys} {t : Task} {c : EpId}

lemma stage_listener (h : Inv s) {i : ℕ} {l : EpId} (hl : s.socks.listeners i = some l) :
    s.stage l = .listener := (h.shows l).listener (h.table.listener i l hl).1

lemma does_keep (h : Inv s) (hphase : ∀ u, u ≠ t → s'.phase u = s.phase u)
    (hmoves : ∀ e, Moves t (s.stage e) (s'.stage e))
    (hpeer : ∀ u c, s.phase u = .waiting c → s'.stage c = .linked → (s'.socks.ep c).peer ≠ none)
    (hdoes : Does s' t (s'.phase t)) : ∀ u, Does s' u (s'.phase u) := by
  intro u
  rcases eq_or_ne u t with rfl | hut
  · exact hdoes
  · rw [hphase u hut]
    exact (h.does u).mono hut hmoves fun c hc => hpeer u c hc

lemma held_keep (h : Inv s) (hphase : ∀ u, u ≠ t → s'.phase u = s.phase u)
    (hmoves : ∀ e, Moves t (s.stage e) (s'.stage e))
    (hheld : ∀ c, s'.stage c = .held t → (s'.phase t).inHand = some c) :
    ∀ u c, s'.stage c = .held u → (s'.phase u).inHand = some c := by
  intro u c hc
  rcases eq_or_ne u t with rfl | hut
  · exact hheld c hc
  · have hmove := hmoves c
    rw [hc] at hmove
    rw [hphase u hut]
    generalize hg : s.stage c = g at hmove
    cases hmove with
    | same => exact h.held u c hg
    | pop => exact absurd rfl hut

/-- A task with no client in hand holds none. -/
lemma not_held (h : Inv s) (hhand : (s.phase t).inHand = none) (c : EpId) :
    s.stage c ≠ .held t := by
  intro hc
  have := h.held t c hc
  rw [hhand] at this
  cases this

/-- The task that waits for a linked client finds its peer. -/
lemma peer_of_linked (h : Inv s) {u : Task} (hu : s.phase u = .waiting c)
    (hc : s.stage c = .linked) : (s.socks.ep c).peer ≠ none := by
  have hdoes := h.does u
  rw [hu] at hdoes
  exact hdoes.2 hc

/-- A section that moves no stage. -/
lemma quiet (h : Inv s) (htables : tables s'.socks = tables s.socks) (hstage : s'.stage = s.stage)
    (hlinks : s'.links = s.links) (hphase : ∀ u, u ≠ t → s'.phase u = s.phase u)
    (hhand : (s.phase t).inHand = none) (hdoes : Does s' t (s'.phase t))
    (hshows : ∀ e, At (s.stage e) (s'.socks.ep e) (s.links e) (s'.result e))
    (hlistener : ∀ l, s.stage l = .listener → (s'.socks.ep l).state = (s.socks.ep l).state ∧
      (s'.socks.ep l).lslot = (s.socks.ep l).lslot)
    (hwq : ∀ i b c l, s.stage c = .pending i b → s.socks.listeners i = some l →
      (s.socks.ep l).acceptWq = [] → (s'.socks.ep l).acceptWq = [])
    (hpeer : ∀ u c, s.phase u = .waiting c → s.stage c = .linked →
      (s'.socks.ep c).peer ≠ none) : Inv s' := by
  simp only [tables, Prod.mk.injEq] at htables
  obtain ⟨hused, hlisteners, hbacklog⟩ := htables
  have hmoves : ∀ e, Moves t (s.stage e) (s'.stage e) := by
    intro e
    rw [hstage]
    exact .same _
  have hheld : ∀ c, s'.stage c = .held t → (s'.phase t).inHand = some c := by
    intro c hc
    rw [hstage] at hc
    exact absurd hc (h.not_held hhand c)
  refine ⟨h.table.keep hlisteners fun l hl => hlistener l ?_, ?_, ?_, ?_, ?_, ?_,
    h.held_keep hphase hmoves hheld, ?_, ?_⟩
  · rcases hl with hl | hl
    · exact (h.shows l).listener hl
    · exact (hshows l).listener hl
  · rw [hstage, hlinks]
    exact hshows
  · rw [hstage, hused]
    exact h.used
  · rw [hstage, hbacklog]
    exact h.slot
  · rw [hstage, hlisteners]
    intro i b c hc
    obtain ⟨hb, l, hl, hempty⟩ := h.live i b c hc
    exact ⟨hb, l, hl, hwq i b c l hc hl hempty⟩
  · refine h.does_keep hphase hmoves ?_ hdoes
    rw [hstage]
    exact hpeer
  · rw [hstage, hlinks]
    exact h.server
  · rw [hlinks]
    exact h.owner

/-- What a section of `t` leaves alone that moves the stages of the endpoints `own`. -/
structure Frame (s s' : Sys) (t : Task) (own : EpId → Prop) : Prop where
  listeners : s'.socks.listeners = s.socks.listeners
  used : ∀ f, s.socks.epUsed f = true → s'.socks.epUsed f = true
  phase : ∀ u, u ≠ t → s'.phase u = s.phase u
  result : s'.result = s.result
  stage : ∀ f, ¬ own f → s'.stage f = s.stage f
  ep : ∀ f, ¬ own f → s'.socks.ep f = s.socks.ep f
  links : ∀ f, ¬ own f → s'.links f = s.links f

/-- A section that moves the stages of the endpoints `own`, none of them a listener or a server. -/
lemma changed (h : Inv s) (own : EpId → Prop) (hf : Frame s s' t own)
    (hmove : ∀ f, own f → Moves t (s.stage f) (s'.stage f))
    (hold : ∀ f, own f → s.stage f ≠ .listener ∧ s.stage f ≠ .server)
    (hnew : ∀ f, own f → s'.stage f ≠ .listener ∧ s'.socks.epUsed f = true)
    (hshows : ∀ f, own f → At (s'.stage f) (s'.socks.ep f) (s'.links f) (s'.result f))
    (hpeer : ∀ f, own f → s'.stage f = .linked → (s'.socks.ep f).peer ≠ none)
    (hslot : ∀ i b d, s'.socks.backlog i b = some d ↔ s'.stage d = .pending i b)
    (hlive : ∀ f i b, own f → s'.stage f = .pending i b → b < USOCK_BACKLOG ∧
      ∃ l, s.socks.listeners i = some l ∧ (s.socks.ep l).acceptWq = [])
    (hlinks : ∀ d srv, own d → srv ∈ s'.links d → s'.stage srv = .server ∧
      ∀ d', srv ∈ s'.links d' → d' = d)
    (hdoes : Does s' t (s'.phase t))
    (hheld : ∀ d, s'.stage d = .held t → (s'.phase t).inHand = some d) : Inv s' := by
  have hmoves : ∀ f, Moves t (s.stage f) (s'.stage f) := by
    intro f
    by_cases hof : own f
    · exact hmove f hof
    · rw [hf.stage f hof]
      exact .same _
  have hat : ∀ f, At (s'.stage f) (s'.socks.ep f) (s'.links f) (s'.result f) := by
    intro f
    by_cases hof : own f
    · exact hshows f hof
    · rw [hf.stage f hof, hf.ep f hof, hf.links f hof, hf.result]
      exact h.shows f
  have hcalm : ∀ l, s.stage l = .listener → ¬ own l := fun l hl hol => (hold l hol).1 hl
  refine ⟨h.table.keep hf.listeners fun l hl => ?_, hat, fun f hff => ?_, hslot,
    fun i b d hd => ?_, h.does_keep hf.phase hmoves (fun u d hu hd => ?_) hdoes,
    h.held_keep hf.phase hmoves hheld, fun d srv hsrv => ?_, fun d d' srv hsrv hsrv' => ?_⟩
  · have hol : ¬ own l := by
      rcases hl with hl | hl
      · exact hcalm l ((h.shows l).listener hl)
      · exact fun hol => (hnew l hol).1 ((hat l).listener hl)
    exact ⟨congrArg _ (hf.ep l hol), congrArg _ (hf.ep l hol)⟩
  · by_cases hof : own f
    · exact (hnew f hof).2
    · rw [hf.stage f hof] at hff
      exact hf.used f (h.used f hff)
  · have hlisten : b < USOCK_BACKLOG ∧
        ∃ l, s.socks.listeners i = some l ∧ (s.socks.ep l).acceptWq = [] := by
      by_cases hod : own d
      · exact hlive d i b hod hd
      · rw [hf.stage d hod] at hd
        exact h.live i b d hd
    obtain ⟨hb, l, hl, hempty⟩ := hlisten
    rw [hf.listeners]
    refine ⟨hb, l, hl, ?_⟩
    rw [hf.ep l (hcalm l (h.stage_listener hl))]
    exact hempty
  · by_cases hod : own d
    · exact hpeer d hod hd
    · rw [hf.stage d hod] at hd
      rw [hf.ep d hod]
      exact h.peer_of_linked hu hd
  · by_cases hod : own d
    · exact (hlinks d srv hod hsrv).1
    · rw [hf.links d hod] at hsrv
      have hserver := h.server d srv hsrv
      rw [hf.stage srv fun hos => (hold srv hos).2 hserver]
      exact hserver
  · by_cases hod : own d
    · exact ((hlinks d srv hod hsrv).2 d' hsrv').symm
    by_cases hod' : own d'
    · exact (hlinks d' srv hod' hsrv').2 d hsrv
    · rw [hf.links d hod] at hsrv
      rw [hf.links d' hod'] at hsrv'
      exact h.owner d d' srv hsrv hsrv'

/-- A section that leaves the sockets alone. -/
lemma still (h : Inv s) (hsocks : s'.socks = s.socks) (hstage : s'.stage = s.stage)
    (hlinks : s'.links = s.links) (hphase : ∀ u, u ≠ t → s'.phase u = s.phase u)
    (hhand : (s.phase t).inHand = none) (hdoes : Does s' t (s'.phase t))
    (hresult : ∀ e r, s'.result e = some r →
      s.result e = some r ∨ r = 0 ∧ s.stage e = .linked) : Inv s' := by
  refine h.quiet (t := t) (by rw [hsocks]) hstage hlinks hphase hhand hdoes ?_ ?_ ?_ ?_
  · intro e
    have he := h.shows e
    rw [hsocks]
    refine ⟨he.noWaiter, he.listener, he.linked, he.single, he.refused, fun r hr => ?_⟩
    rcases hresult e r hr with hold | hnew
    · exact he.result r hold
    · exact .inl hnew
  · rw [hsocks]
    exact fun _ _ => ⟨rfl, rfl⟩
  · rw [hsocks]
    exact fun _ _ _ _ _ _ hempty => hempty
  · rw [hsocks]
    exact fun u c hu hc => h.peer_of_linked hu hc

/-- A section that releases an endpoint. -/
lemma released (h : Inv s) {e : EpId} (hsocks : s'.socks = epRelease s.socks e)
    (hstage : s'.stage = s.stage) (hlinks : s'.links = s.links)
    (hphase : ∀ u, u ≠ t → s'.phase u = s.phase u) (hhand : (s.phase t).inHand = none)
    (hdoes : Does s' t (s'.phase t)) (hne : s.stage e ≠ .listener)
    (hpeer : s.stage e = .linked → ∀ u, s.phase u ≠ .waiting e)
    (hresult : ∀ f r, s'.result f = some r →
      s.result f = some r ∨ r < 0 ∧ s.stage f = .refused) : Inv s' := by
  have hother : ∀ f, f ≠ e → core (s'.socks.ep f) = core (s.socks.ep f) := by
    intro f hf
    rw [hsocks, epRelease_core, if_neg hf]
  have hself : core (s'.socks.ep e) = core { s.socks.ep e with state := .free, peer := none } := by
    rw [hsocks, epRelease_core, if_pos rfl]
  have hcalm : ∀ l, s.stage l = .listener → core (s'.socks.ep l) = core (s.socks.ep l) := by
    intro l hl
    apply hother
    rintro rfl
    exact hne hl
  refine h.quiet (t := t) ?_ hstage hlinks hphase hhand hdoes ?_ ?_ ?_ ?_
  · rw [hsocks]
    exact epRelease_tables ..
  · intro f
    have hf := h.shows f
    have hold : At (s.stage f) (s.socks.ep f) (s.links f) (s'.result f) := by
      refine ⟨hf.noWaiter, hf.listener, hf.linked, hf.single, hf.refused, fun r hr => ?_⟩
      rcases hresult f r hr with hres | hnew
      · exact hf.result r hres
      · exact .inr hnew
    rcases eq_or_ne f e with rfl | hfe
    · refine At.congr hself ⟨hold.noWaiter, nofun, hold.linked, fun _ => rfl, hold.refused,
        hold.result⟩
    · exact hold.congr (hother f hfe)
  · intro l hl
    have hcore := hcalm l hl
    simp only [core, Prod.mk.injEq] at hcore
    exact ⟨hcore.1, hcore.2.2.2.2.1⟩
  · intro i b c l _ hl hempty
    have hcore := hcalm l (h.stage_listener hl)
    simp only [core, Prod.mk.injEq] at hcore
    rw [hcore.2.2.2.2.2]
    exact hempty
  · intro u c hu hc
    have hce : c ≠ e := by
      rintro rfl
      exact hpeer hc u hu
    have hcore := hother c hce
    simp only [core, Prod.mk.injEq] at hcore
    rw [hcore.2.1]
    exact h.peer_of_linked hu hc

end Inv

/-! ## One section -/

/-- A client is queued only where no accept is parked; a connect looks at its client once an
accept or a close has dealt with it; the client's file can be made; and an accept that gives up
tears down only a client whose connect is through. -/
def Ok (s : Sys) : Event → Prop
  | .queue _ _ path => ∀ i b l, findSlot s.socks path = some (i, b) →
    s.socks.listeners i = some l → (s.socks.ep l).acceptWq = []
  | .check _ c => (∀ i b, s.socks.backlog i b ≠ some c) ∧ ∀ u, (s.phase u).inHand ≠ some c
  | .connectFile _ _ m => m = .ok
  | .tear _ c => ∀ u, s.phase u ≠ .waiting c
  | _ => True

namespace Inv

variable {s : Sys} {t : Task} {c srv l : EpId}

variable {p : Phase}

/-- The phase of the task that runs a section, and nobody else's. -/
lemma phase_ne : ∀ u, u ≠ t → (s.setPhase t p).phase u = s.phase u :=
  fun _ hu => update_of_ne hu ..

lemma does_at (h : Inv s) (hp : s.phase t = p) : Does s t p := by
  rw [← hp]
  exact h.does t

lemma check (h : Inv s) (hen : s.Enabled (.check t c)) (hok : Ok s (.check t c)) :
    Inv (s.act (.check t c)) := by
  obtain ⟨_, hphase, _⟩ := hen
  obtain ⟨hqueued, hpeer⟩ := h.does_at hphase
  have hhand : (s.phase t).inHand = none := by
    rw [hphase]
    rfl
  have hshows := h.shows c
  -- the client is linked or refused, since no backlog and no accept has it
  have hcases : s.stage c = .linked ∨ s.stage c = .refused := by
    generalize hg : s.stage c = g at hqueued
    cases g with
    | pending i b => exact absurd ((h.slot i b c).mpr hg) (hok.1 i b)
    | held u => exact absurd (h.held u c hg) (hok.2 u)
    | linked => exact .inl rfl
    | refused => exact .inr rfl
    | unused | listener | made _ | serving _ | server => exact hqueued.elim
  rcases hcases with hc | hc
  · have hverdict : checkClient s.socks c t = (s.socks, .accepted) := by
      exact if_pos (hpeer hc)
    refine h.still (t := t) ?_ ?_ ?_ ?_ hhand ?_ ?_
    all_goals simp only [Sys.act, hverdict]
    · rfl
    · rfl
    · rfl
    · exact phase_ne
    · simp only [Sys.setPhase, update_self]
      exact hc
    · exact fun e r hr => .inl hr
  · have hnone : (s.socks.ep c).peer = none := hshows.single (by rw [hc]; trivial)
    have hneg := hshows.refused hc
    have hverdict : checkClient s.socks c t = (s.socks, .refused (s.socks.ep c).hsResult) := by
      unfold checkClient
      rw [if_neg (not_not.mpr hnone), if_pos hneg]
    refine h.still (t := t) ?_ ?_ ?_ ?_ hhand ?_ ?_
    all_goals simp only [Sys.act, hverdict]
    · rfl
    · rfl
    · rfl
    · exact phase_ne
    · simp only [Sys.setPhase, update_self]
      exact ⟨hc, hneg⟩
    · exact fun e r hr => .inl hr

lemma connectFile (h : Inv s) (hen : s.Enabled (.connectFile t c .ok)) :
    Inv (s.act (.connectFile t c .ok)) := by
  have hc := h.does_at hen.2
  refine h.still (t := t) rfl rfl rfl phase_ne ?_ ?_ ?_
  · rw [hen.2]
    rfl
  · show Does _ t (update s.phase t .idle t)
    rw [update_self]
    trivial
  · intro e r hr
    change update s.result c (some 0) e = some r at hr
    rcases eq_or_ne e c with rfl | hec
    · rw [update_self, Option.some.injEq] at hr
      exact .inr ⟨hr.symm, hc⟩
    · rw [update_of_ne hec] at hr
      exact .inl hr

lemma drop {r : ℤ} (h : Inv s) (hen : s.Enabled (.drop t c r)) : Inv (s.act (.drop t c r)) := by
  obtain ⟨hc, hr⟩ := h.does_at hen.2
  refine h.released (t := t) (e := c) rfl rfl rfl phase_ne ?_ ?_ ?_ ?_ ?_
  · rw [hen.2]
    rfl
  · show Does _ t (update s.phase t .idle t)
    rw [update_self]
    trivial
  · rw [hc]
    exact nofun
  · rw [hc]
    exact nofun
  · intro f q hq
    change update s.result c (some r) f = some q at hq
    rcases eq_or_ne f c with rfl | hfc
    · rw [update_self, Option.some.injEq] at hq
      exact .inr ⟨hq ▸ hr, hc⟩
    · rw [update_of_ne hfc] at hq
      exact .inl hq

lemma accept (h : Inv s) (hen : s.Enabled (.accept t l)) : Inv (s.act (.accept t l)) := by
  refine h.still (t := t) rfl rfl rfl phase_ne ?_ ?_ fun e r hr => .inl hr
  · rw [hen.2]
    rfl
  · show Does _ t (update s.phase t (.accepting l) t)
    rw [update_self]
    trivial

lemma acceptFile {m : FileMemory} (h : Inv s) (hen : s.Enabled (.acceptFile t c srv m)) :
    Inv (s.act (.acceptFile t c srv m)) := by
  obtain ⟨hc, hsrv⟩ := h.does_at hen.2
  have hhand : (s.phase t).inHand = none := by
    rw [hen.2]
    rfl
  cases m with
  | ok =>
    refine h.still (t := t) rfl rfl rfl phase_ne hhand ?_ fun e r hr => .inl hr
    show Does _ t (update s.phase t .idle t)
    rw [update_self]
    trivial
  | noVnode =>
    refine h.still (t := t) rfl rfl rfl phase_ne hhand ?_ fun e r hr => .inl hr
    show Does _ t (update s.phase t (.unlinking c srv) t)
    rw [update_self]
    exact ⟨hc, hsrv⟩
  | noFile =>
    refine h.released (t := t) (e := srv) rfl rfl rfl phase_ne hhand ?_ ?_ ?_
      fun f r hr => .inl hr
    · show Does _ t (update s.phase t (.unlinking c srv) t)
      rw [update_self]
      exact ⟨hc, hsrv⟩
    · rw [hsrv]
      exact nofun
    · rw [hsrv]
      exact nofun

lemma unlink (h : Inv s) (hen : s.Enabled (.unlink t c srv)) : Inv (s.act (.unlink t c srv)) := by
  obtain ⟨hc, hsrv⟩ := h.does_at hen.2
  refine h.released (t := t) (e := srv) rfl rfl rfl phase_ne ?_ ?_ ?_ ?_ fun f r hr => .inl hr
  · rw [hen.2]
    rfl
  · show Does _ t (update s.phase t (.tearing c) t)
    rw [update_self]
    exact hc
  · rw [hsrv]
    exact nofun
  · rw [hsrv]
    exact nofun

lemma tear (h : Inv s) (hen : s.Enabled (.tear t c)) (hok : Ok s (.tear t c)) :
    Inv (s.act (.tear t c)) := by
  have hc : s.stage c = .linked := h.does_at hen.2
  refine h.released (t := t) (e := c) rfl rfl rfl phase_ne ?_ ?_ ?_ (fun _ => hok)
    fun f r hr => .inl hr
  · rw [hen.2]
    rfl
  · show Does _ t (update s.phase t .idle t)
    rw [update_self]
    trivial
  · rw [hc]
    exact nofun

variable {socks : Socks}

/-- An endpoint that `ep_alloc` hands out was not in use. -/
lemma unused_of_alloc (h : Inv s) {e : EpId}
    (halloc : epAlloc s.socks = some (socks, e)) : s.stage e = .unused := by
  by_contra hne
  have hclear := (Stream.epAlloc_some halloc).1
  rw [h.used e hne] at hclear
  cases hclear

lemma links_of_ne (h : Inv s) (hc : s.stage c ≠ .linked) : s.links c = [] := by
  have hlinked := (h.shows c).linked
  rwa [if_neg hc] at hlinked

/-- A section of `t` that takes a new endpoint `e`. -/
lemma allocated (h : Inv s) {e : EpId} {x : Endpoint} {g : Stage}
    (halloc : epAlloc s.socks = some (socks, e)) (hx : core x = core { Endpoint.fresh with state := x.state })
    (hstate : x.state ≠ .listener) (hg : g = .made t ∨ g = .serving t)
    (hdoes : Does (((s.setSocks (socks.setEp e x)).setPhase t p).setStage e g) t p)
    (hhand : (s.phase t).inHand = p.inHand) :
    Inv (((s.setSocks (socks.setEp e x)).setPhase t p).setStage e g) := by
  obtain ⟨-, hused, hep⟩ := Stream.epAlloc_some halloc
  obtain ⟨hlisteners, hbacklog⟩ := epAlloc_tables halloc
  have hold := h.unused_of_alloc halloc
  have hshows := h.shows e
  rw [hold] at hshows
  have hnot : ∀ {g'}, g' ≠ .made t → g' ≠ .serving t → g ≠ g' := by
    rintro _ hmade hserving rfl
    exact hg.elim hmade hserving
  have hself : update s.stage e g e = g := update_self ..
  have hmine : (((s.setSocks (socks.setEp e x)).setPhase t p).setStage e g).phase t = p :=
    update_self ..
  simp only [core, Prod.mk.injEq, Endpoint.fresh] at hx
  obtain ⟨-, hxpeer, hxhs, -, -, -⟩ := hx
  apply h.changed (t := t) (· = e)
  · refine ⟨hlisteners, fun f hf => ?_, phase_ne, rfl, fun f hf => update_of_ne hf .., fun f hf => ?_,
      fun _ _ => rfl⟩
    · show socks.epUsed f = true
      rw [hused]
      rcases eq_or_ne f e with rfl | hfe
      · exact update_self ..
      · rwa [update_of_ne hfe]
    · show (socks.setEp e x).ep f = _
      rw [setEp_of_ne _ _ hf, hep, update_of_ne hf]
  · rintro f rfl
    show Moves t _ (update s.stage f g f)
    rw [hself, hold]
    rcases hg with rfl | rfl
    · exact .make
    · exact .serve
  · rintro f rfl
    rw [hold]
    exact ⟨by simp, by simp⟩
  · rintro f rfl
    refine ⟨hself.trans_ne (hnot (by simp) (by simp)), ?_⟩
    show socks.epUsed f = true
    rw [hused]
    exact update_self ..
  · rintro f rfl
    show At (update s.stage f g f) ((socks.setEp f x).ep f) (s.links f) (s.result f)
    rw [hself, setEp_self]
    refine ⟨hxhs, fun hl => absurd hl hstate, ?_, fun _ => hxpeer, ?_, fun r hr => ?_⟩
    · have hlinked : g ≠ .linked := hnot (by simp) (by simp)
      rw [if_neg hlinked]
      simpa using hshows.linked
    · exact fun hbad => absurd hbad (hnot (by simp) (by simp))
    · rcases hshows.result r hr with ⟨_, hbad⟩ | ⟨_, hbad⟩ <;> cases hbad
  · rintro f rfl hf
    exact absurd (hself.symm.trans hf) (hnot (by simp) (by simp))
  · intro i b c
    show socks.backlog i b = some c ↔ update s.stage e g c = _
    rw [hbacklog, h.slot i b c]
    rcases eq_or_ne c e with rfl | hce
    · rw [hself, hold]
      exact ⟨by simp, fun hg' => absurd hg' (hnot (by simp) (by simp))⟩
    · rw [update_of_ne hce]
  · rintro f i b rfl hf
    exact absurd (hself.symm.trans hf) (hnot (by simp) (by simp))
  · rintro f srv rfl hsrv
    have hlinks := h.links_of_ne (hold.trans_ne (by simp))
    have hnone : srv ∈ ([] : List EpId) := hlinks ▸ hsrv
    cases hnone
  · rw [hmine]
    exact hdoes
  · intro c hc
    have hce : c ≠ e := by
      rintro rfl
      exact absurd (hself.symm.trans hc) (hnot (by simp) (by simp))
    rw [hmine, ← hhand]
    exact h.held t c ((update_of_ne hce ..).symm.trans hc)

lemma connect {path : List UInt8} (h : Inv s) (hen : s.Enabled (.connect t path)) :
    Inv (s.act (.connect t path)) := by
  simp only [Sys.act]
  split_ifs with hpath
  · exact h
  · split
    · exact h
    · next socks e halloc =>
      have hsocks : socks = socks.setEp e Endpoint.fresh := by
        have hep := (Stream.epAlloc_some halloc).2.2
        cases socks
        simp only [Socks.setEp, Socks.mk.injEq, and_true] at hep ⊢
        rw [hep]
        simp
      rw [hsocks]
      refine h.allocated halloc rfl (by rintro ⟨⟩) (.inl rfl) ?_ ?_
      · exact update_self ..
      · rw [hen.2]
        rfl

lemma serve (h : Inv s) (hen : s.Enabled (.serve t c)) : Inv (s.act (.serve t c)) := by
  have hc : s.stage c = .held t := h.does_at hen.2
  simp only [Sys.act]
  split
  · refine ⟨h.table, h.shows, h.used, h.slot, h.live,
      h.does_keep (t := t) phase_ne (fun _ => .same _) (fun _ _ hu hc => h.peer_of_linked hu hc) ?_,
      h.held_keep (t := t) phase_ne (fun _ => .same _) fun d hd => ?_, h.server, h.owner⟩
    · show Does _ t (update s.phase t _ t)
      rw [update_self]
      exact hc
    · have hhand := h.held t d hd
      rw [hen.2] at hhand
      show (update s.phase t _ t).inHand = some d
      rw [update_self]
      exact hhand
  · next socks e halloc =>
    have hold := h.unused_of_alloc halloc
    have hfresh : socks.ep e = Endpoint.fresh := by
      rw [(Stream.epAlloc_some halloc).2.2]
      exact update_self ..
    refine h.allocated halloc ?_ nofun (.inr rfl) ⟨?_, ?_⟩ ?_
    · rw [hfresh]
    · refine (update_of_ne ?_ ..).trans hc
      rintro rfl
      rw [hold] at hc
      cases hc
    · exact update_self ..
    · rw [hen.2]
      rfl

/-- A section of `t` that moves the stage of one endpoint `c` and touches no other. -/
lemma moved (h : Inv s) {g : Stage}
    (hother : ∀ f, f ≠ c → socks.ep f = s.socks.ep f) (hlisteners : socks.listeners = s.socks.listeners)
    (hused : socks.epUsed = s.socks.epUsed) (hmove : Moves t (s.stage c) g)
    (hc : s.stage c ≠ .listener ∧ s.stage c ≠ .server ∧ s.stage c ≠ .unused)
    (hg : g ≠ .linked ∧ g ≠ .listener)
    (hshows : At g (socks.ep c) (s.links c) (s.result c))
    (hslot : ∀ i b d, socks.backlog i b = some d ↔ update s.stage c g d = .pending i b)
    (hlive : ∀ i b, g = .pending i b → b < USOCK_BACKLOG ∧
      ∃ l, s.socks.listeners i = some l ∧ (s.socks.ep l).acceptWq = [])
    (hdoes : Does (((s.setSocks socks).setPhase t p).setStage c g) t p)
    (hheld : ∀ d, update s.stage c g d = .held t → p.inHand = some d) :
    Inv (((s.setSocks socks).setPhase t p).setStage c g) := by
  have hself : (((s.setSocks socks).setPhase t p).setStage c g).stage c = g := update_self ..
  have hmine : (((s.setSocks socks).setPhase t p).setStage c g).phase t = p := update_self ..
  apply h.changed (t := t) (· = c)
  · exact ⟨hlisteners, fun f => (congrFun hused f).trans, phase_ne, rfl,
      fun f hf => update_of_ne hf .., hother, fun _ _ => rfl⟩
  · rintro f rfl
    rw [hself]
    exact hmove
  · rintro f rfl
    exact ⟨hc.1, hc.2.1⟩
  · rintro f rfl
    exact ⟨hself.trans_ne hg.2, (congrFun hused f).trans (h.used f hc.2.2)⟩
  · rintro f rfl
    rw [hself]
    exact hshows
  · rintro f rfl hf
    exact absurd (hself.symm.trans hf) hg.1
  · exact hslot
  · rintro f i b rfl hf
    exact hlive i b (hself.symm.trans hf)
  · rintro f srv rfl hsrv
    have hlinks : s.links f = [] := by simpa [hg.1] using hshows.linked
    exact nomatch (hlinks ▸ hsrv : srv ∈ ([] : List EpId))
  · rw [hmine]
    exact hdoes
  · rw [hmine]
    exact hheld

/-- A queued client is in one slot, of one listener. -/
lemma queue {path : List UInt8} (h : Inv s) (hen : s.Enabled (.queue t c path))
    (hok : Ok s (.queue t c path)) : Inv (s.act (.queue t c path)) := by
  have hc : s.stage c = .made t := h.does_at hen.2
  have hshows := h.shows c
  rw [hc] at hshows
  simp only [Sys.act]
  split
  swap
  · exact ⟨h.table, h.shows, h.used, h.slot, h.live, h.does, h.held, h.server, h.owner⟩
  next i b hslot =>
  obtain ⟨hb, hfree, l, hl⟩ := findSlot_some hslot
  have hsocks : (queueClient s.socks c path).1 = (s.socks.setSlot i b (some c)).setEp c
      { s.socks.ep c with state := .data, hsResult := -ECONNREFUSED } := by
    unfold queueClient
    rw [hslot]
    rfl
  rw [hsocks]
  have hself : update s.stage c (.pending i b) c = .pending i b := update_self ..
  refine h.moved (fun f hf => setEp_of_ne _ _ hf) rfl rfl ?_ ?_ ⟨nofun, nofun⟩ ?_
    (fun j b' d => ?_) ?_ ⟨?_, ?_⟩ fun d hd => ?_
  · rw [hc]
    exact .queue i b
  · rw [hc]
    exact ⟨nofun, nofun, nofun⟩
  · rw [setEp_self]
    refine ⟨hshows.noWaiter, nofun, ?_, fun _ => hshows.single trivial, nofun, fun r hr => ?_⟩
    · simpa using hshows.linked
    · rcases hshows.result r hr with ⟨_, hbad⟩ | ⟨_, hbad⟩ <;> cases hbad
  · refine (iff_of_eq (congrArg (· = some d) (s.socks.setSlot_backlog i b (some c) j b'))).trans ?_
    rcases eq_or_ne d c with rfl | hdc
    · rw [hself]
      split_ifs with hjb
      · simp [hjb]
      · rw [h.slot, hc]
        refine ⟨nofun, fun heq => absurd ?_ hjb⟩
        cases heq
        exact ⟨rfl, rfl⟩
    · rw [update_of_ne hdc, ← h.slot]
      split_ifs with hjb
      · obtain ⟨rfl, rfl⟩ := hjb
        rw [hfree]
        simp [hdc.symm]
      · rfl
  · rintro j b' heq
    cases heq
    exact ⟨hb, l, hl, hok i b l hslot hl⟩
  · show Stage.Queued (update s.stage c _ c)
    rw [hself]
    trivial
  · intro hbad
    cases hself.symm.trans hbad
  · have hdc : d ≠ c := by
      rintro rfl
      cases hself.symm.trans hd
    rw [update_of_ne hdc] at hd
    refine absurd hd (h.not_held ?_ d)
    rw [hen.2]
    rfl

/-- A client that is popped is in the hands of one task. -/
lemma pop (h : Inv s) (hen : s.Enabled (.pop t l)) : Inv (s.act (.pop t l)) := by
  have hhand : (s.phase t).inHand = none := by
    rw [hen.2.1]
    rfl
  have hclosed : acceptSection s.socks l t = (s.socks, .closed) → Inv (s.act (.pop t l)) := by
    intro heq
    refine h.still (t := t) ?_ ?_ ?_ ?_ hhand ?_ ?_
    all_goals simp only [Sys.act, heq]
    · rfl
    · rfl
    · rfl
    · exact phase_ne
    · show Does _ t (update s.phase t .idle t)
      rw [update_self]
      trivial
    · exact fun e r hr => .inl hr
  by_cases hstate : (s.socks.ep l).state = .listener
  swap
  · apply hclosed
    unfold acceptSection
    dsimp only
    split
    · next heq => exact absurd heq hstate
    · rfl
  obtain ⟨i, hi⟩ := h.table.published l hstate
  have hlslot := (h.table.listener i l hi).2
  cases hnext : nextClient s.socks i with
  | none =>
    have heq : acceptSection s.socks l t
        = (s.socks.setEp l { s.socks.ep l with
            acceptWq := usPark (s.socks.ep l).acceptWq t }, .parked) := by
      unfold acceptSection
      simp only [hlslot, hstate, hnext]
    have hothers : ∀ f, f ≠ l → (s.act (.pop t l)).socks.ep f = s.socks.ep f := by
      intro f hf
      simp only [Sys.act, heq]
      exact setEp_of_ne _ _ hf
    have hself : (s.act (.pop t l)).socks.ep l
        = { s.socks.ep l with acceptWq := usPark (s.socks.ep l).acceptWq t } := by
      simp only [Sys.act, heq]
      exact setEp_self ..
    refine h.quiet (t := t) ?_ ?_ ?_ ?_ hhand ?_ (fun e => ?_) (fun f _ => ?_)
      (fun j b d f hd hf hempty => ?_) fun u d hu hd => ?_
    · simp only [Sys.act, heq]
      rfl
    · simp only [Sys.act, heq]
      rfl
    · simp only [Sys.act, heq]
      rfl
    · simp only [Sys.act, heq]
      exact fun _ _ => rfl
    · simp only [Sys.act, heq]
      show Does _ t (s.phase t)
      rw [hen.2.1]
      trivial
    · have hshows := h.shows e
      have hresult : (s.act (.pop t l)).result = s.result := by
        simp only [Sys.act, heq]
        rfl
      rw [hresult]
      rcases eq_or_ne e l with rfl | hel
      · rw [hself]
        exact ⟨hshows.noWaiter, hshows.listener, hshows.linked, hshows.single, hshows.refused,
          hshows.result⟩
      · rw [hothers e hel]
        exact hshows
    · rcases eq_or_ne f l with rfl | hfl
      · rw [hself]
        exact ⟨rfl, rfl⟩
      · rw [hothers f hfl]
        exact ⟨rfl, rfl⟩
    · have hfl : f ≠ l := by
        rintro rfl
        have hji : j = i := by
          have hlslot' := (h.table.listener j f hf).2
          rw [hlslot] at hlslot'
          exact (Option.some.inj hlslot').symm
        subst hji
        have hfull := (h.slot j b d).mpr hd
        rw [nextClient_none hnext b (h.live j b d hd).1] at hfull
        cases hfull
      rw [hothers f hfl]
      exact hempty
    · rw [hothers d ?_]
      · exact h.peer_of_linked hu hd
      · rintro rfl
        have hlistener := (h.shows d).listener hstate
        rw [hd] at hlistener
        cases hlistener
  | some x =>
    obtain ⟨b, c⟩ := x
    have hfull := nextClient_some hnext
    have hc := (h.slot i b c).mp hfull
    have hshows := h.shows c
    rw [hc] at hshows
    have heq : acceptSection s.socks l t = (s.socks.setSlot i b none, .client c) := by
      unfold acceptSection
      simp only [hlslot, hstate, hnext]
    simp only [Sys.act, heq]
    have hself : update s.stage c (.held t) c = .held t := update_self ..
    have hmove : Moves t (s.stage c) (.held t) := by
      rw [hc]
      exact .pop i b
    have hne : s.stage c ≠ .listener ∧ s.stage c ≠ .server ∧ s.stage c ≠ .unused := by
      rw [hc]
      exact ⟨nofun, nofun, nofun⟩
    refine h.moved (fun _ _ => rfl) rfl rfl hmove hne ⟨nofun, nofun⟩ ?_ (fun j b' d => ?_) nofun ?_
      fun d hd => ?_
    · refine ⟨hshows.noWaiter, fun hl => (nomatch hshows.listener hl), ?_,
        fun _ => hshows.single trivial, nofun, fun r hr => ?_⟩
      · simpa using hshows.linked
      · rcases hshows.result r hr with ⟨_, hbad⟩ | ⟨_, hbad⟩ <;> cases hbad
    · rw [s.socks.setSlot_backlog]
      rcases eq_or_ne d c with rfl | hdc
      · rw [hself]
        refine ⟨fun hsome => ?_, nofun⟩
        split_ifs at hsome with hjb
        have hpending := (h.slot j b' d).mp hsome
        rw [hc] at hpending
        cases hpending
        exact absurd ⟨rfl, rfl⟩ hjb
      · rw [update_of_ne hdc, ← h.slot]
        split_ifs with hjb
        · obtain ⟨rfl, rfl⟩ := hjb
          rw [hfull]
          simp [hdc.symm]
        · rfl
    · exact hself
    · rcases eq_or_ne d c with rfl | hdc
      · rfl
      · rw [update_of_ne hdc] at hd
        exact absurd hd (h.not_held hhand d)

lemma fail (h : Inv s) (hen : s.Enabled (.fail t c)) : Inv (s.act (.fail t c)) := by
  have hc : s.stage c = .held t := h.does_at hen.2
  have hshows := h.shows c
  rw [hc] at hshows
  have hself : update s.stage c .refused c = .refused := update_self ..
  have hmove : Moves t (s.stage c) .refused := by
    rw [hc]
    exact .fail
  have hne : s.stage c ≠ .listener ∧ s.stage c ≠ .server ∧ s.stage c ≠ .unused := by
    rw [hc]
    exact ⟨nofun, nofun, nofun⟩
  refine h.moved (fun f hf => setEp_of_ne _ _ hf) rfl rfl hmove hne ⟨nofun, nofun⟩ ?_
    (fun j b d => ?_) nofun ?_ fun d hd => ?_
  · rw [tellClient, setEp_self]
    refine ⟨rfl, fun hl => (nomatch hshows.listener hl), ?_, fun _ => hshows.single trivial,
      fun _ => ?_, fun r hr => ?_⟩
    · simpa using hshows.linked
    · show -ENOMEM < 0
      decide
    · rcases hshows.result r hr with ⟨_, hbad⟩ | ⟨_, hbad⟩ <;> cases hbad
  · refine (h.slot j b d).trans ?_
    rcases eq_or_ne d c with rfl | hdc
    · rw [hself, hc]
      exact ⟨nofun, nofun⟩
    · rw [update_of_ne hdc]
  · trivial
  · have hdc : d ≠ c := by
      rintro rfl
      cases hself.symm.trans hd
    rw [update_of_ne hdc] at hd
    have hhand := h.held t d hd
    rw [hen.2] at hhand
    exact absurd (Option.some.inj hhand).symm hdc

/-- Client and server become peers in one section. -/
lemma link (h : Inv s) (hen : s.Enabled (.link t c srv)) : Inv (s.act (.link t c srv)) := by
  obtain ⟨hc, hsrv⟩ := h.does_at hen.2
  have hne : c ≠ srv := by
    rintro rfl
    cases hc.symm.trans hsrv
  have hshows := h.shows c
  have hshows' := h.shows srv
  rw [hc] at hshows
  rw [hsrv] at hshows'
  -- the stages, the endpoints and the links after the section
  have hstage : ∀ f, (s.act (.link t c srv)).stage f
      = if f = srv then .server else if f = c then .linked else s.stage f := by
    intro f
    show update (update s.stage c .linked) srv .server f = _
    rw [update_apply, update_apply]
  have hself : (s.act (.link t c srv)).stage c = .linked := by
    rw [hstage, if_neg hne, if_pos rfl]
  have hserver : (s.act (.link t c srv)).stage srv = .server := by
    rw [hstage, if_pos rfl]
  have hkept : ∀ f, f ≠ c → f ≠ srv → (s.act (.link t c srv)).stage f = s.stage f := by
    intro f hfc hfs
    rw [hstage, if_neg hfs, if_neg hfc]
  have hclient : (s.act (.link t c srv)).socks.ep c
      = { s.socks.ep c with peer := some srv, hsResult := 0, hsWq := [] } := by
    simp only [Sys.act, Sys.setSocks, Sys.setPhase, Sys.addLink, Sys.setStage, linkClient,
      tellClient, setEp_self, usWakeAll, setEp_of_ne _ _ hne]
  have hserved : (s.act (.link t c srv)).socks.ep srv
      = { s.socks.ep srv with peer := some c } := by
    simp only [Sys.act, Sys.setSocks, Sys.setPhase, Sys.addLink, Sys.setStage, linkClient,
      tellClient, setEp_of_ne _ _ hne.symm, setEp_self]
  have hothers : ∀ f, f ≠ c → f ≠ srv → (s.act (.link t c srv)).socks.ep f = s.socks.ep f := by
    intro f hfc hfs
    simp only [Sys.act, Sys.setSocks, Sys.setPhase, Sys.addLink, Sys.setStage, linkClient,
      tellClient, setEp_of_ne _ _ hfc, setEp_of_ne _ _ hfs]
  have hnone : s.links c = [] := by simpa using hshows.linked
  have hlinks : (s.act (.link t c srv)).links c = [srv] := by
    show update s.links c (srv :: s.links c) c = _
    rw [update_self, hnone]
  have hlinks' : ∀ f, f ≠ c → (s.act (.link t c srv)).links f = s.links f :=
    fun f hf => update_of_ne hf ..
  have hphase : (s.act (.link t c srv)).phase t = .linked c srv := update_self ..
  -- the endpoint `srv` has not been linked before
  have hfresh : ∀ d, srv ∉ s.links d := by
    intro d hd
    cases hsrv.symm.trans (h.server d srv hd)
  have hback : ∀ {d g}, (s.act (.link t c srv)).stage d = g → g ≠ .linked → g ≠ .server →
      s.stage d = g := by
    intro d g hd hl hs
    rw [hkept d ?_ ?_] at hd
    · exact hd
    · rintro rfl
      exact hl (hd.symm.trans hself)
    · rintro rfl
      exact hs (hd.symm.trans hserver)
  apply h.changed (t := t) fun f => f = c ∨ f = srv
  · refine ⟨rfl, fun _ => id, phase_ne, rfl, fun f hf => ?_, fun f hf => ?_, fun f hf => ?_⟩
    · exact hkept f (fun hfc => hf (.inl hfc)) fun hfs => hf (.inr hfs)
    · exact hothers f (fun hfc => hf (.inl hfc)) fun hfs => hf (.inr hfs)
    · exact hlinks' f fun hfc => hf (.inl hfc)
  · rintro f (rfl | rfl)
    · rw [hself, hc]
      exact .link
    · rw [hserver, hsrv]
      exact .publish
  · rintro f (rfl | rfl)
    · rw [hc]
      exact ⟨by simp, by simp⟩
    · rw [hsrv]
      exact ⟨by simp, by simp⟩
  · rintro f (rfl | rfl)
    · exact ⟨hself.trans_ne (by simp), h.used f (hc.trans_ne (by simp))⟩
    · exact ⟨hserver.trans_ne (by simp), h.used f (hsrv.trans_ne (by simp))⟩
  · rintro f (rfl | rfl)
    · rw [hself, hclient, hlinks]
      refine ⟨rfl, fun hl => (by cases hshows.listener hl), ⟨srv, rfl⟩, by rintro ⟨⟩, by rintro ⟨⟩,
        fun r hr => ?_⟩
      rcases hshows.result r hr with ⟨_, hbad⟩ | ⟨_, hbad⟩ <;> cases hbad
    · rw [hserver, hserved, hlinks' f hne.symm]
      refine ⟨hshows'.noWaiter, fun hl => (by cases hshows'.listener hl), ?_, by rintro ⟨⟩, by rintro ⟨⟩,
        fun r hr => ?_⟩
      · simpa using hshows'.linked
      · rcases hshows'.result r hr with ⟨_, hbad⟩ | ⟨_, hbad⟩ <;> cases hbad
  · rintro f (rfl | rfl) hf
    · rw [hclient]
      simp
    · cases hserver.symm.trans hf
  · intro i b d
    refine (h.slot i b d).trans ⟨fun hd => ?_, fun hd => hback hd (by simp) (by simp)⟩
    rw [hkept d ?_ ?_]
    · exact hd
    · rintro rfl
      cases hc.symm.trans hd
    · rintro rfl
      cases hsrv.symm.trans hd
  · rintro f i b (rfl | rfl) hf
    · cases hself.symm.trans hf
    · cases hserver.symm.trans hf
  · rintro d x (rfl | rfl) hx
    · rw [hlinks, List.mem_singleton] at hx
      subst hx
      refine ⟨hserver, fun d' hx' => ?_⟩
      by_contra hdc
      rw [hlinks' d' hdc] at hx'
      exact hfresh d' hx'
    · rw [hlinks' d hne.symm, h.links_of_ne (hsrv.trans_ne (by simp))] at hx
      cases hx
  · rw [hphase]
    exact ⟨hself, hserver⟩
  · intro d hd
    have hhand := h.held t d (hback hd (by simp) (by simp))
    rw [hen.2] at hhand
    cases hhand
    cases hself.symm.trans hd

/-- A close refuses every client in the backlog. -/
lemma close (h : Inv s) (hen : s.Enabled (.close l)) : Inv (s.act (.close l)) := by
  obtain ⟨i, hi⟩ := h.table.published l hen.2
  have hlslot := (h.table.listener i l hi).2
  have hact : s.act (.close l) = (s.setSocks (usListenerDestroy s.socks l i)).refuseAll i := by
    simp only [Sys.act, hlslot]
  obtain ⟨hused, hlisteners, hbacklog⟩ := usListenerDestroy_tables s.socks l i
  have hep := usListenerDestroy_ep s.socks l i
  -- only the clients in the backlog `i` move
  have hstage : ∀ f, (∀ b, s.stage f ≠ .pending i b) →
      (s.act (.close l)).stage f = s.stage f := by
    intro f hf
    rw [hact]
    simp only [Sys.refuseAll, Sys.setSocks]
    split
    · next j b hj =>
      rw [if_neg, hj]
      rintro rfl
      exact hf b hj
    · rfl
  have hrefused : ∀ f b, s.stage f = .pending i b → (s.act (.close l)).stage f = .refused := by
    intro f b hf
    rw [hact]
    simp only [Sys.refuseAll, Sys.setSocks, hf, if_true]
  have hslot : ∀ f, (∃ b < USOCK_BACKLOG, s.socks.backlog i b = some f) ↔
      ∃ b, s.stage f = .pending i b := by
    intro f
    refine ⟨fun ⟨b, _, hb⟩ => ⟨b, (h.slot i b f).mp hb⟩, fun ⟨b, hb⟩ => ⟨b, (h.live i b f hb).1, ?_⟩⟩
    exact (h.slot i b f).mpr hb
  have hself : s.stage l = .listener := (h.shows l).listener hen.2
  have hplain : ∀ f, f ≠ l → (∀ b, s.stage f ≠ .pending i b) →
      (usListenerDestroy s.socks l i).ep f = s.socks.ep f := by
    intro f hfl hf
    rw [hep, if_neg hfl, afterRefusal, if_neg]
    rw [hslot]
    exact fun ⟨b, hb⟩ => hf b hb
  have hclosed : (usListenerDestroy s.socks l i).ep l = { s.socks.ep l with state := .free } := by
    rw [hep, if_pos rfl, afterRefusal, if_neg]
    rw [hslot, hself]
    exact fun ⟨b, hb⟩ => nomatch hb
  have hmoves : ∀ t f, Moves t (s.stage f) ((s.act (.close l)).stage f) := by
    intro t f
    by_cases hf : ∃ b, s.stage f = .pending i b
    · obtain ⟨b, hb⟩ := hf
      rw [hrefused f b hb, hb]
      exact .refuse i b
    · rw [hstage f fun b hb => hf ⟨b, hb⟩]
      exact .same _
  have hback : ∀ {f : EpId} {g : Stage}, (s.act (.close l)).stage f = g → g ≠ .refused →
      s.stage f = g := by
    intro f g hg hne
    by_cases hf : ∃ b, s.stage f = .pending i b
    · obtain ⟨b, hb⟩ := hf
      exact absurd ((hrefused f b hb).symm.trans hg).symm hne
    · rw [hstage f fun b hb => hf ⟨b, hb⟩] at hg
      exact hg
  have hsocks : (s.act (.close l)).socks = usListenerDestroy s.socks l i := by
    rw [hact]
    rfl
  have hphase : (s.act (.close l)).phase = s.phase := by
    rw [hact]
    rfl
  have hlinks : (s.act (.close l)).links = s.links := by
    rw [hact]
    rfl
  have hresult : (s.act (.close l)).result = s.result := by
    rw [hact]
    rfl
  have hlistener : ∀ f, s.stage f = .listener → f ≠ l →
      (usListenerDestroy s.socks l i).ep f = s.socks.ep f := by
    intro f hf hfl
    refine hplain f hfl fun b hb => ?_
    cases hf.symm.trans hb
  refine ⟨⟨fun j f hf => ?_, fun f hf => ?_⟩, fun f => ?_, fun f hf => ?_, fun j b d => ?_,
    fun j b d hd => ?_, fun u => ?_, fun u d hd => ?_, fun d srv hd => ?_, ?_⟩
  · rw [hsocks, hlisteners] at hf
    split_ifs at hf with hj
    have hfl : f ≠ l := by
      rintro rfl
      have hlslot' := (h.table.listener j f hf).2
      rw [hlslot] at hlslot'
      exact hj ⟨(Option.some.inj hlslot').symm, hi⟩
    rw [hsocks, hlistener f (h.stage_listener hf) hfl]
    exact h.table.listener j f hf
  · rw [hsocks] at hf
    have hfl : f ≠ l := by
      rintro rfl
      rw [hclosed] at hf
      cases hf
    have hstate : (s.socks.ep f).state = .listener := by
      rw [hep, if_neg hfl, afterRefusal] at hf
      split_ifs at hf
      · exact hf
      · exact hf
    obtain ⟨j, hj⟩ := h.table.published f hstate
    refine ⟨j, ?_⟩
    rw [hsocks, hlisteners, if_neg]
    · exact hj
    · rintro ⟨rfl, _⟩
      exact hfl (Option.some.inj (hj.symm.trans hi))
  · have hshows := h.shows f
    rw [hsocks, hlinks, hresult]
    by_cases hf : ∃ b, s.stage f = .pending i b
    · obtain ⟨b, hb⟩ := hf
      have hfl : f ≠ l := by
        rintro rfl
        cases hself.symm.trans hb
      rw [hb] at hshows
      rw [hrefused f b hb, hep, if_neg hfl, afterRefusal, if_pos ((hslot f).mpr ⟨b, hb⟩)]
      refine ⟨rfl, fun hl => (nomatch hshows.listener hl), ?_, fun _ => hshows.single trivial,
        fun _ => ?_, fun r hr => ?_⟩
      · simpa using hshows.linked
      · show -ECONNREFUSED < 0
        decide
      · rcases hshows.result r hr with ⟨_, hbad⟩ | ⟨_, hbad⟩ <;> cases hbad
    · rw [hstage f fun b hb => hf ⟨b, hb⟩]
      by_cases hfl : f = l
      · rw [hfl] at hshows ⊢
        rw [hclosed]
        exact ⟨hshows.noWaiter, nofun, hshows.linked, hshows.single, hshows.refused, hshows.result⟩
      · rw [hplain f hfl fun b hb => hf ⟨b, hb⟩]
        exact hshows
  · rw [hsocks, hused]
    apply h.used
    intro hunused
    rw [hstage f (by rw [hunused]; exact nofun)] at hf
    exact hf hunused
  · rw [hsocks, hbacklog]
    by_cases hd : ∃ b, s.stage d = .pending i b
    · obtain ⟨b', hb'⟩ := hd
      rw [hrefused d b' hb']
      refine ⟨fun hsome => ?_, nofun⟩
      split_ifs at hsome with hjb
      have hpending := (h.slot j b d).mp hsome
      rw [hb'] at hpending
      cases hpending
      exact absurd ⟨rfl, (h.live _ _ d hb').1⟩ hjb
    · rw [hstage d fun b hb => hd ⟨b, hb⟩, ← h.slot]
      split_ifs with hjb
      · obtain ⟨rfl, _⟩ := hjb
        refine ⟨nofun, fun hsome => ?_⟩
        exact absurd ⟨b, (h.slot j b d).mp hsome⟩ hd
      · rfl
  · have hold := hback hd nofun
    obtain ⟨hb, l', hl', hempty⟩ := h.live j b d hold
    have hji : j ≠ i := by
      rintro rfl
      cases (hrefused d b hold).symm.trans hd
    have hne : l' ≠ l := by
      rintro rfl
      have hlslot' := (h.table.listener j l' hl').2
      rw [hlslot] at hlslot'
      exact hji (Option.some.inj hlslot').symm
    refine ⟨hb, l', ?_, ?_⟩
    · rw [hsocks, hlisteners, if_neg (fun hj => hji hj.1)]
      exact hl'
    · rw [hsocks, hlistener l' (h.stage_listener hl') hne]
      exact hempty
  · rw [hphase]
    refine (h.does u).mono (t := u + 1) (Nat.ne_of_lt (Nat.lt_succ_self u)) (hmoves (u + 1)) ?_
    intro d hu hd
    have hold := hback hd nofun
    have hdl : d ≠ l := by
      rintro rfl
      cases hself.symm.trans hold
    rw [hsocks, hplain d hdl fun b hb => nomatch hold.symm.trans hb]
    exact h.peer_of_linked hu hold
  · rw [hphase]
    exact h.held u d (hback hd nofun)
  · rw [hlinks] at hd
    rw [hstage srv fun b hb => nomatch (h.server d srv hd).symm.trans hb]
    exact h.server d srv hd
  · rw [hlinks]
    exact h.owner

/-- Every section that meets the condition keeps the invariant. -/
lemma step {e : Event} (h : Inv s) (hen : s.Enabled e) (hok : Ok s e) : Inv (s.act e) := by
  cases e with
  | connect t path => exact h.connect hen
  | queue t c path => exact h.queue hen hok
  | check t c => exact h.check hen hok
  | connectFile t c m =>
    obtain rfl : m = .ok := hok
    exact h.connectFile hen
  | drop t c r => exact h.drop hen
  | accept t l => exact h.accept hen
  | pop t l => exact h.pop hen
  | serve t c => exact h.serve hen
  | fail t c => exact h.fail hen
  | link t c srv => exact h.link hen
  | acceptFile t c srv m => exact h.acceptFile hen
  | unlink t c srv => exact h.unlink hen
  | tear t c => exact h.tear hen hok
  | close l => exact h.close hen

lemma of_listening (h : s.Listening) : Inv s where
  table := ⟨h.listener, h.published⟩
  shows := by
    intro e
    rw [h.stage, h.links, h.result]
    refine ⟨(h.noWaiter e).1, fun hl => if_pos hl, ?_, ?_, ?_, nofun⟩
    · split_ifs <;> simp_all
    · split_ifs
      · exact fun hbad => hbad.elim
      · exact fun hbad => hbad.elim
    · split_ifs
      · exact nofun
      · exact nofun
  used := by
    intro e he
    rw [h.stage] at he
    split_ifs at he with hl
    · exact h.used e hl
    · exact absurd rfl he
  slot := by
    intro i b c
    rw [h.noClient, h.stage]
    split_ifs
    · exact ⟨nofun, nofun⟩
    · exact ⟨nofun, nofun⟩
  live := by
    intro i b c hc
    rw [h.stage] at hc
    split_ifs at hc
  does := by
    intro t
    rw [h.idle]
    trivial
  held := by
    intro t c hc
    rw [h.stage] at hc
    split_ifs at hc
  server := by
    intro c srv hsrv
    rw [h.links] at hsrv
    cases hsrv
  owner := by
    intro c c' srv hsrv
    rw [h.links] at hsrv
    cases hsrv

/-! ## The handshake -/

lemma stage_of_inHand (h : Inv s) (hhand : (s.phase t).inHand = some c) : s.stage c = .held t := by
  have hdoes := h.does t
  generalize hp : s.phase t = p at hhand hdoes
  cases p with
  | popped c' | short c' =>
    rw [← Option.some.inj hhand]
    exact hdoes
  | serving c' srv' =>
    rw [← Option.some.inj hhand]
    exact hdoes.1
  | idle | made _ _ | waiting _ | accepted _ | dropping _ _ | accepting _ | linked _ _
  | unlinking _ _ | tearing _ => cases hhand

lemma links_of_linked (h : Inv s) (hc : s.stage c = .linked) : ∃ srv, s.links c = [srv] := by
  have hlinked := (h.shows c).linked
  rwa [if_pos hc] at hlinked

lemma linked_of_mem (h : Inv s) (hsrv : srv ∈ s.links c) : s.stage c = .linked := by
  by_contra hne
  rw [h.links_of_ne hne] at hsrv
  cases hsrv

end Inv

/-- Where a client is that a connect has queued: in one slot, in the hands of one accept, linked
by one accept, or turned down. -/
inductive Whereabouts (s : Sys) (c : EpId) : Prop
  | pending (i b : ℕ) (hslot : ∀ j b', s.socks.backlog j b' = some c ↔ j = i ∧ b' = b)
    (hhand : ∀ t, (s.phase t).inHand ≠ some c) (hlinks : s.links c = [])
  | held (t : Task) (hslot : ∀ j b', s.socks.backlog j b' ≠ some c)
    (hhand : ∀ u, (s.phase u).inHand = some c ↔ u = t) (hlinks : s.links c = [])
  | linked (srv : EpId) (hslot : ∀ j b', s.socks.backlog j b' ≠ some c)
    (hhand : ∀ t, (s.phase t).inHand ≠ some c) (hlinks : s.links c = [srv])
  | refused (hslot : ∀ j b', s.socks.backlog j b' ≠ some c)
    (hhand : ∀ t, (s.phase t).inHand ≠ some c) (hlinks : s.links c = [])

structure Sys.Law (s : Sys) : Prop where
  /-- a connect returns success if and only if an accept linked its client -/
  success : ∀ c r, s.result c = some r → (r = 0 ↔ ∃ srv, srv ∈ s.links c)
  /-- a connect whose client is linked is not parked and will find out -/
  through : ∀ t c srv, s.phase t = .waiting c → srv ∈ s.links c →
    t ∉ (s.socks.ep c).hsWq ∧ (checkClient s.socks c t).2 = .accepted
  /-- an accept links an endpoint that no other client is linked to, and that is no client -/
  fresh : ∀ c srv, srv ∈ s.links c → s.links srv = [] ∧ ∀ c', srv ∈ s.links c' → c' = c
  once : ∀ c, (s.stage c).Queued → Whereabouts s c
  /-- a client whose connect has returned is in no backlog -/
  gone : ∀ c r, s.result c = some r → ∀ i b, s.socks.backlog i b ≠ some c
  /-- no accept is parked on a listener with a client in its backlog -/
  woken : ∀ i b c l, s.socks.backlog i b = some c → s.socks.listeners i = some l →
    (s.socks.ep l).acceptWq = []

lemma Inv.whereabouts {c : EpId} (h : Inv s) (hq : (s.stage c).Queued) :
    Whereabouts s c := by
  have hslot : ∀ {g : Stage}, s.stage c = g → (∀ i b, g ≠ .pending i b) →
      ∀ j b', s.socks.backlog j b' ≠ some c :=
    fun hg hne j b' hsome => hne j b' (hg.symm.trans ((h.slot j b' c).mp hsome))
  have hhand : ∀ {g : Stage}, s.stage c = g → (∀ t, g ≠ .held t) →
      ∀ t, (s.phase t).inHand ≠ some c :=
    fun hg hne t hsome => hne t (hg.symm.trans (h.stage_of_inHand hsome))
  cases hg : s.stage c with
  | pending i b =>
    refine .pending i b (fun j b' => ?_) (hhand hg nofun) (h.links_of_ne ?_)
    · rw [h.slot, hg]
      refine ⟨fun heq => ?_, fun ⟨hj, hb⟩ => by rw [hj, hb]⟩
      cases heq
      exact ⟨rfl, rfl⟩
    · rw [hg]
      exact nofun
  | held t =>
    refine .held t (hslot hg nofun) (fun u => ⟨fun hu => ?_, fun hu => ?_⟩) (h.links_of_ne ?_)
    · cases hg.symm.trans (h.stage_of_inHand hu)
      rfl
    · rw [hu]
      exact h.held t c hg
    · rw [hg]
      exact nofun
  | linked =>
    obtain ⟨srv, hsrv⟩ := h.links_of_linked hg
    exact .linked srv (hslot hg nofun) (hhand hg nofun) hsrv
  | refused =>
    refine .refused (hslot hg nofun) (hhand hg nofun) (h.links_of_ne ?_)
    rw [hg]
    exact nofun
  | unused | listener | made _ | serving _ | server =>
    rw [hg] at hq
    exact hq.elim

lemma Inv.law (h : Inv s) : s.Law where
  success := by
    intro c r hr
    rcases (h.shows c).result r hr with ⟨rfl, hc⟩ | ⟨hneg, hc⟩
    · obtain ⟨srv, hsrv⟩ := h.links_of_linked hc
      simp [hsrv]
    · have hnone := h.links_of_ne (c := c) (by rw [hc]; exact nofun)
      rw [hnone]
      exact ⟨fun hzero => absurd hzero (Int.ne_of_lt hneg), fun ⟨_, hmem⟩ => nomatch hmem⟩
  through := by
    intro t c srv ht hsrv
    rw [(h.shows c).noWaiter]
    refine ⟨List.not_mem_nil, ?_⟩
    unfold checkClient
    rw [if_pos (h.peer_of_linked ht (h.linked_of_mem hsrv))]
  fresh := by
    intro c srv hsrv
    refine ⟨h.links_of_ne ?_, fun c' hsrv' => h.owner c' c srv hsrv' hsrv⟩
    rw [h.server c srv hsrv]
    exact nofun
  once := fun _ => h.whereabouts
  gone := by
    intro c r hr i b hsome
    have hpending := (h.slot i b c).mp hsome
    rcases (h.shows c).result r hr with ⟨_, hc⟩ | ⟨_, hc⟩
    · cases hpending.symm.trans hc
    · cases hpending.symm.trans hc
  woken := by
    intro i b c l hsome hl
    obtain ⟨_, l', hl', hempty⟩ := h.live i b c ((h.slot i b c).mp hsome)
    rwa [Option.some.inj (hl.symm.trans hl')]

lemma Inv.run {start : Sys} {es : List Event} (h : Inv start)
    (hrun : Run (Guarded Ok Step) start es s) : Inv s := by
  refine hrun.invariant h ?_
  rintro s e s' hs ⟨hok, hen, rfl⟩
  exact hs.step hen hok

/-- **The handshake.** From listeners with empty backlogs, every run whose sections meet the
condition stays lawful, whatever the connects, the accepts and the closes do in between. -/
theorem usock_handshake {start s : Sys} {es : List Event} (hstart : start.Listening)
    (hrun : Run (Guarded Ok Step) start es s) : s.Law :=
  ((Inv.of_listening hstart).run hrun).law

/-- One listener for the name `a`. -/
def oneListener : Sys where
  socks :=
    { ep := update (fun _ => Endpoint.fresh) 0
        { Endpoint.fresh with state := .listener, lslot := some 0, name := [97] }
      epUsed := update (fun _ => false) 0 true
      listeners := update (fun _ => none) 0 (some 0)
      backlog := fun _ _ => none }
  phase := fun _ => .idle
  stuck := false
  result := fun _ => none
  links := fun _ => []
  stage := update (fun _ => .unused) 0 .listener

lemma oneListener_listening : oneListener.Listening := by
  have hep : ∀ e, e ≠ 0 → oneListener.socks.ep e = Endpoint.fresh := by
    intro e he
    simp [oneListener, he]
  have hstate : ∀ e, (oneListener.socks.ep e).state = .listener → e = 0 := by
    intro e he
    by_contra hne
    rw [hep e hne] at he
    cases he
  refine ⟨fun i l hl => ?_, fun l hl => ?_, fun l hl => ?_, fun e => ?_, fun _ _ => rfl,
    fun _ => rfl, rfl, fun _ => rfl, fun _ => rfl, fun e => ?_⟩
  · rcases eq_or_ne i 0 with rfl | hi
    · cases hl
      exact ⟨rfl, rfl⟩
    · simp [oneListener, hi] at hl
  · rw [hstate l hl]
    exact ⟨0, rfl⟩
  · rw [hstate l hl]
    rfl
  · rcases eq_or_ne e 0 with rfl | he
    · exact ⟨rfl, rfl⟩
    · rw [hep e he]
      exact ⟨rfl, rfl⟩
  · rcases eq_or_ne e 0 with rfl | he
    · rfl
    · rw [hep e he]
      simp [oneListener, Endpoint.fresh, he]

/-- An accept parks, and a connect queues its client and looks at it at once. -/
def lookedEarly : List Event :=
  [.accept 1 0, .pop 1 0, .connect 2 [97], .queue 2 1 [97], .check 2 1, .drop 2 1 (-ECONNREFUSED)]

/-- The connect has returned, its client is still in the backlog, and the accept is still parked. -/
theorem usock_handshake_refused :
    oneListener.Listening ∧ ∃ s, Run Step oneListener lookedEarly s ∧
      s.result 1 = some (-ECONNREFUSED) ∧ s.socks.backlog 0 0 = some 1 ∧
      s.socks.listeners 0 = some 0 ∧ (s.socks.ep 0).acceptWq = [1] ∧ ¬ s.Law := by
  have henables : Enables Sys.Enabled Sys.act oneListener lookedEarly := by decide
  have hrun : Run Step oneListener lookedEarly (lookedEarly.foldl Sys.act oneListener) :=
    Run.of_enables (fun _ _ h => ⟨h, rfl⟩) henables
  have hresult : (lookedEarly.foldl Sys.act oneListener).result 1 = some (-ECONNREFUSED) := by
    decide
  have hslot : (lookedEarly.foldl Sys.act oneListener).socks.backlog 0 0 = some 1 := by
    decide
  refine ⟨oneListener_listening, _, hrun, hresult, hslot, ?_, ?_, fun hlaw => ?_⟩
  · decide
  · decide
  · exact hlaw.gone 1 _ hresult 0 0 hslot

/-- A connect queues its client and an accept links it; -/
def linkedFirst : List Event :=
  [.connect 2 [97], .queue 2 1 [97], .accept 1 0, .pop 1 0, .serve 1 1, .link 1 1 2]

/-- then the connect looks, and both get their files. -/
def bothReturn : List Event := [.check 2 1, .connectFile 2 1 .ok, .acceptFile 1 1 2 .ok]

/-- The theorem on this run: the connect has returned success. -/
theorem usock_handshake_linked :
    (bothReturn.foldl Sys.act (linkedFirst.foldl Sys.act oneListener)).Law ∧
      (bothReturn.foldl Sys.act (linkedFirst.foldl Sys.act oneListener)).result 1 = some 0 := by
  have hfirst : Enables (fun s e => Ok s e ∧ s.Enabled e) Sys.act oneListener linkedFirst := by
    refine ⟨⟨trivial, ?_⟩, ⟨?_, ?_⟩, ⟨trivial, ?_⟩, ⟨trivial, ?_⟩, ⟨trivial, ?_⟩, ⟨trivial, ?_⟩,
      trivial⟩
    · decide
    · have hslot : findSlot (oneListener.act (.connect 2 [97])).socks [97] = some (0, 0) := by
        decide
      intro i b l hfound hl
      rw [hslot] at hfound
      cases hfound
      have hzero : (oneListener.act (.connect 2 [97])).socks.listeners 0 = some 0 := by
        decide
      rw [hzero] at hl
      cases hl
      decide
    · decide
    · decide
    · decide
    · decide
    · decide
  have hrun : Run (Guarded Ok Step) oneListener linkedFirst
      (linkedFirst.foldl Sys.act oneListener) :=
    Run.of_enables (fun _ _ h => ⟨h.1, h.2, rfl⟩) hfirst
  have hinv := (Inv.of_listening oneListener_listening).run hrun
  have hstage : (linkedFirst.foldl Sys.act oneListener).stage 1 = .linked := by decide
  have hrest : Enables (fun s e => Ok s e ∧ s.Enabled e) Sys.act
      (linkedFirst.foldl Sys.act oneListener) bothReturn := by
    refine ⟨⟨⟨fun i b hb => ?_, fun u hu => ?_⟩, ?_⟩, ⟨rfl, ?_⟩, ⟨trivial, ?_⟩, trivial⟩
    · cases hstage.symm.trans ((hinv.slot i b 1).mp hb)
    · cases hstage.symm.trans (hinv.stage_of_inHand hu)
    · decide
    · decide
    · decide
  have hall : Run (Guarded Ok Step) oneListener (linkedFirst ++ bothReturn)
      (bothReturn.foldl Sys.act (linkedFirst.foldl Sys.act oneListener)) :=
    Run.append_of_enables (fun _ _ h => ⟨h.1, h.2, rfl⟩) hrun hrest
  exact ⟨usock_handshake oneListener_listening hall, by decide⟩

end Shake
end Usock
end Ipc
end MobilePhoneOs
