import MobilePhoneOs.Kernel.UnixsockConnectTheorems
import MobilePhoneOs.Kernel.UnixsockPool

/-!
# Which endpoints are in use

A section of a task moves the stages of endpoints in its own hands and of clients in a backlog.
So an endpoint that a file, a backlog or a call leads to is never handed out again, and the links
between endpoints stay mutual. That a slot is marked only while something leads to it holds as
long as nothing is given back.
-/

namespace MobilePhoneOs

open Function (update update_of_ne update_self update_apply)

open List (mem_pair mem_singleton)
namespace Ipc
namespace Usock

open Socks (setEp_of_ne setEp_self)
namespace Pool

open Shake (Sys Phase Stage)
open State (act)

/-! ## Links -/

/-- The endpoint has been linked to another one. -/
def Joined (g : Stage) : Prop := g = .linked ∨ g = .server

/-- A link leads back, or to an endpoint that has been released. -/
def Peers (s : Socks) (g : EpId → Stage) : Prop :=
  ∀ e f, (s.ep e).peer = some f →
    Joined (g e) ∧ Joined (g f) ∧ ((s.ep f).peer = some e ∨ (s.ep f).state = .free)

lemma epRelease_peer (s : Socks) (e f : EpId) :
    ((epRelease s e).ep f).peer = if f = e then none else (s.ep f).peer := by
  have hcore := epRelease_core s e f
  split_ifs at hcore ⊢ with h
  · exact congrArg (fun x => x.2.1) hcore
  · exact congrArg (fun x => x.2.1) hcore

lemma epRelease_state (s : Socks) (e f : EpId) :
    ((epRelease s e).ep f).state = if f = e then .free else (s.ep f).state := by
  have hcore := epRelease_core s e f
  split_ifs at hcore ⊢ with h
  · exact congrArg Prod.fst hcore
  · exact congrArg Prod.fst hcore

lemma endpointFile_tables (s : Socks) (e : EpId) (m : FileMemory) :
    tables (endpointFile s e m).1 = tables s := by
  cases m with
  | noVnode | ok => rfl
  | noFile => exact epRelease_tables s e

lemma endpointFile_used (s : Socks) (e : EpId) (m : FileMemory) (f : EpId) :
    (endpointFile s e m).1.epUsed f = s.epUsed f :=
  congrFun (congrArg Prod.fst (endpointFile_tables s e m)) f

variable {e : EpId}

/-- A release changes the endpoint and the one it is linked to, unless that has been released. -/
lemma epRelease_other {s : Socks} {f : EpId} (hfe : f ≠ e) (h : (epRelease s e).ep f ≠ s.ep f) :
    (s.ep e).peer = some f ∧ (s.ep f).state ≠ .free := by
  rw [epRelease] at h
  split at h
  case h_2 =>
    rw [setEp_of_ne _ _ hfe] at h
    exact absurd rfl h
  case h_1 g hpeer =>
    obtain ⟨hlink, hlive⟩ := Option.filter_eq_some_iff.mp hpeer
    have hfg : f = g := by
      by_contra hne
      rw [setEp_of_ne _ _ hfe, setEp_of_ne _ _ hne] at h
      exact h rfl
    rw [hfg]
    exact ⟨hlink, by simpa using hlive⟩

namespace Peers

variable {s s' : Socks} {g g' : EpId → Stage}

lemma peer_none (h : Peers s g) (he : ¬ Joined (g e)) : (s.ep e).peer = none := by
  by_contra hne
  obtain ⟨f, hf⟩ := Option.ne_none_iff_exists'.mp hne
  exact he (h e f hf).1

/-- A section that links nothing. -/
lemma keep (h : Peers s g) (hpeer : ∀ e, (s'.ep e).peer = (s.ep e).peer)
    (hstate : ∀ e, Joined (g e) → (s.ep e).state = .free → (s'.ep e).state = .free)
    (hjoin : ∀ e, Joined (g e) → Joined (g' e)) : Peers s' g' := by
  intro e f hef
  rw [hpeer] at hef
  obtain ⟨he, hf, hback⟩ := h e f hef
  refine ⟨hjoin e he, hjoin f hf, ?_⟩
  rw [hpeer]
  exact hback.imp_right (hstate f hf)

lemma release (h : Peers s g) (e : EpId) : Peers (epRelease s e) g := by
  intro a b hab
  rw [epRelease_peer] at hab
  split_ifs at hab with hae
  obtain ⟨ha, hb, hback⟩ := h a b hab
  refine ⟨ha, hb, ?_⟩
  rw [epRelease_peer, epRelease_state]
  by_cases hbe : b = e
  · exact .inr (if_pos hbe)
  · rw [if_neg hbe, if_neg hbe]
    exact hback

/-- An endpoint is written that keeps its link. -/
lemma setEp (h : Peers s g) {x : Endpoint} (hpeer : x.peer = (s.ep e).peer)
    (hstate : Joined (g e) → (s.ep e).state = .free → x.state = .free) : Peers (s.setEp e x) g := by
  refine h.keep (fun f => ?_) (fun f hf hfree => ?_) (fun _ => id)
  · by_cases hfe : f = e
    · rw [hfe, setEp_self, hpeer]
    · rw [setEp_of_ne _ _ hfe]
  · by_cases hfe : f = e
    · subst hfe
      rw [setEp_self]
      exact hstate hf hfree
    · rw [setEp_of_ne _ _ hfe]
      exact hfree

/-- An endpoint that nothing was linked to gets another stage. -/
lemma restage (h : Peers s g) {c : EpId} (hc : ¬ Joined (g c)) {x : Stage} :
    Peers s (update g c x) := by
  refine h.keep (fun _ => rfl) (fun _ _ => id) (fun f hf => ?_)
  have hfc : f ≠ c := by
    rintro rfl
    exact hc hf
  rw [update_of_ne hfc]
  exact hf

/-- Two endpoints that nothing was linked to are linked to each other. -/
lemma join (h : Peers s g) {a b : EpId} (ha : ¬ Joined (g a)) (hb : ¬ Joined (g b))
    (hpa : (s'.ep a).peer = some b) (hpb : (s'.ep b).peer = some a)
    (hother : ∀ f, f ≠ a → f ≠ b → s'.ep f = s.ep f)
    (hga : Joined (g' a)) (hgb : Joined (g' b)) (hg : ∀ f, f ≠ a → f ≠ b → g' f = g f) :
    Peers s' g' := by
  intro e f hef
  by_cases hea : e = a
  · rw [hea, hpa] at hef
    obtain rfl := Option.some.inj hef
    rw [hea]
    exact ⟨hga, hgb, .inl hpb⟩
  by_cases heb : e = b
  · rw [heb, hpb] at hef
    obtain rfl := Option.some.inj hef
    rw [heb]
    exact ⟨hgb, hga, .inl hpa⟩
  rw [hother e hea heb] at hef
  obtain ⟨he, hf, hback⟩ := h e f hef
  have hfa : f ≠ a := by
    rintro rfl
    exact ha hf
  have hfb : f ≠ b := by
    rintro rfl
    exact hb hf
  rw [hg e hea heb, hg f hfa hfb, hother f hfa hfb]
  exact ⟨he, hf, hback⟩

end Peers

/-! ## What a task has in its hands -/

/-- What a task in a call of the handshake may rely on. -/
def HasPhase (g : EpId → Stage) (t : Task) : Phase → Prop
  | .idle => True
  | .made c _ => g c = .made t
  | .waiting c | .accepted c | .dropping c _ | .accepting c | .tearing c => g c ≠ .unused
  | .popped c | .short c => g c = .held t
  | .serving c srv => g c = .held t ∧ g srv = .serving t
  | .linked c srv | .unlinking c srv => g c ≠ .unused ∧ g srv ≠ .unused

/-- What a task in a `usocket_pair` or a `usock_serve` may rely on. -/
def HasMake (g : EpId → Stage) (t : Task) : Make → Prop
  | .idle => True
  | .first a => g a = .serving t
  | .both a b => a ≠ b ∧ g a = .serving t ∧ g b = .serving t
  | .paired a b | .filed a b _ => g a ≠ .unused ∧ g b ≠ .unused
  | .named l _ | .publishing l _ => g l = .serving t
  | .unlisted l => g l ≠ .unused
  | .undoing es => ∀ e ∈ es, g e ≠ .unused

/-- What a section of the task `t` may do to the stage of an endpoint. -/
structure Drift (t : Task) (g g' : Stage) : Prop where
  others : ∀ u, u ≠ t → g = .made u ∨ g = .held u ∨ g = .serving u → g' = g
  known : g ≠ .unused → g' ≠ .unused
  joined : Joined g → Joined g'

lemma Drift.refl (t : Task) (g : Stage) : Drift t g g := ⟨fun _ _ _ => rfl, id, id⟩

/-- The stages that a section of `t` moves. -/
def Movable (t : Task) (g : Stage) : Prop :=
  g = .unused ∨ g = .made t ∨ (∃ i b, g = .pending i b) ∨ g = .held t ∨ g = .serving t

variable {t : Task}

lemma Movable.not_joined {g : Stage} (h : Movable t g) : ¬ Joined g := by
  rcases h with rfl | rfl | ⟨i, b, rfl⟩ | rfl | rfl <;> exact fun hg => hg.elim nofun nofun

lemma Movable.drift {g g' : Stage} (h : Movable t g) (hg' : g' ≠ .unused) :
    Drift t g g' := by
  refine ⟨fun u hut hg => ?_, fun _ => hg', fun hg => absurd hg h.not_joined⟩
  -- the stage would belong to two tasks
  exfalso
  rcases h with rfl | rfl | ⟨i, b, rfl⟩ | rfl | rfl <;> rcases hg with hg | hg | hg <;> cases hg <;>
    exact hut rfl

variable {g : EpId → Stage}

lemma Drift.update {c : EpId} {x : Stage} (h : Drift t (g c) x) :
    ∀ e, Drift t (g e) (update g c x e) := by
  intro e
  by_cases hec : e = c
  · rw [hec, update_self]
    exact h
  · rw [update_of_ne hec]
    exact .refl t (g e)

lemma HasPhase.drift {g' : EpId → Stage} {u : Task} {q : Phase} (hut : u ≠ t)
    (hd : ∀ e, Drift t (g e) (g' e)) (h : HasPhase g u q) : HasPhase g' u q := by
  have hmade : ∀ c, g c = .made u → g' c = .made u := fun c hc =>
    ((hd c).others u hut (.inl hc)).trans hc
  have hheld : ∀ c, g c = .held u → g' c = .held u := fun c hc =>
    ((hd c).others u hut (.inr (.inl hc))).trans hc
  have hserving : ∀ c, g c = .serving u → g' c = .serving u := fun c hc =>
    ((hd c).others u hut (.inr (.inr hc))).trans hc
  cases q with
  | idle => trivial
  | made c path => exact hmade c h
  | waiting c | accepted c | dropping c r | accepting c | tearing c => exact (hd c).known h
  | popped c | short c => exact hheld c h
  | serving c srv => exact ⟨hheld c h.1, hserving srv h.2⟩
  | linked c srv | unlinking c srv => exact ⟨(hd c).known h.1, (hd srv).known h.2⟩

lemma HasMake.drift {g' : EpId → Stage} {u : Task} {m : Make} (hut : u ≠ t)
    (hd : ∀ e, Drift t (g e) (g' e)) (h : HasMake g u m) : HasMake g' u m := by
  have hserving : ∀ c, g c = .serving u → g' c = .serving u := fun c hc =>
    ((hd c).others u hut (.inr (.inr hc))).trans hc
  cases m with
  | idle => trivial
  | first a => exact hserving a h
  | both a b => exact ⟨h.1, hserving a h.2.1, hserving b h.2.2⟩
  | paired a b | filed a b fa => exact ⟨(hd a).known h.1, (hd b).known h.2⟩
  | named l path | publishing l path => exact hserving l h
  | unlisted l => exact (hd l).known h
  | undoing es => exact fun e he => (hd e).known (h e he)

/-! ## The invariant -/

/-- What holds in every state of every run. -/
structure Inv (p : State) : Prop where
  used : ∀ e, p.sys.stage e ≠ .unused → p.sys.socks.epUsed e = true
  slot : ∀ i b c, p.sys.socks.backlog i b = some c →
    b < USOCK_BACKLOG ∧ p.sys.stage c = .pending i b
  phase : ∀ t, HasPhase p.sys.stage t (p.sys.phase t)
  making : ∀ t, HasMake p.sys.stage t (p.making t)
  /-- a task is in one call -/
  one : ∀ t, p.sys.phase t = .idle ∨ p.making t = .idle
  file : ∀ e, p.file e ≠ none → p.sys.stage e ≠ .unused
  peers : Peers p.sys.socks p.sys.stage

variable {p : State}

/-- An endpoint that something leads to is marked. -/
lemma Inv.marked (h : Inv p) (he : Reachable p e) :
    p.sys.socks.epUsed e = true := by
  apply h.used
  rcases he with hfile | ⟨i, b, hslot⟩ | ⟨t, hphase | hmake⟩
  · exact h.file e hfile
  · rw [(h.slot i b e hslot).2]
    exact nofun
  · have hp := h.phase t
    generalize p.sys.phase t = q at hp hphase
    cases q with
    | idle => cases hphase
    | made c path | popped c | short c =>
      obtain rfl := mem_singleton.mp hphase
      rw [show p.sys.stage e = _ from hp]
      exact nofun
    | waiting c | accepted c | dropping c r | accepting c | tearing c =>
      obtain rfl := mem_singleton.mp hphase
      exact hp
    | serving c srv =>
      rcases mem_pair.mp hphase with rfl | rfl
      · rw [hp.1]
        exact nofun
      · rw [hp.2]
        exact nofun
    | linked c srv | unlinking c srv =>
      rcases mem_pair.mp hphase with rfl | rfl
      · exact hp.1
      · exact hp.2
  · have hm := h.making t
    generalize p.making t = m at hm hmake
    cases m with
    | idle => cases hmake
    | first a | named l path | publishing l path =>
      obtain rfl := mem_singleton.mp hmake
      rw [show p.sys.stage e = _ from hm]
      exact nofun
    | both a b =>
      rcases mem_pair.mp hmake with rfl | rfl
      · rw [hm.2.1]
        exact nofun
      · rw [hm.2.2]
        exact nofun
    | paired a b | filed a b fa =>
      rcases mem_pair.mp hmake with rfl | rfl
      · exact hm.1
      · exact hm.2
    | unlisted l =>
      obtain rfl := mem_singleton.mp hmake
      exact hm
    | undoing es => exact hm e hmake

namespace Inv

variable {p : State} {t : Task} {c srv l e : EpId}

variable {q : Phase}

lemma has (h : Inv p) (hq : p.sys.phase t = q) : HasPhase p.sys.stage t q := by
  rw [← hq]
  exact h.phase t

variable {m : Make}

lemma makes (h : Inv p) (hm : p.making t = m) : HasMake p.sys.stage t m := by
  rw [← hm]
  exact h.making t

lemma making_idle (h : Inv p) (hq : p.sys.phase t = q) (hne : q ≠ .idle) :
    p.making t = .idle := (h.one t).resolve_left (by rw [hq]; exact hne)

lemma phase_idle (h : Inv p) (hm : p.making t = m) (hne : m ≠ .idle) :
    p.sys.phase t = .idle := (h.one t).resolve_right (by rw [hm]; exact hne)

variable {socks : Socks}

/-- An endpoint that `ep_alloc` hands out was never in use. -/
lemma unused_of_alloc (h : Inv p) (halloc : epAlloc p.sys.socks = some (socks, e)) :
    p.sys.stage e = .unused := by
  by_contra hne
  have hclear := (Stream.epAlloc_some halloc).1
  rw [h.used e hne] at hclear
  cases hclear

variable {g : Stage}

/-- The tables after `ep_alloc`, when `e` gets the stage `g`. -/
lemma alloc (h : Inv p) (halloc : epAlloc p.sys.socks = some (socks, e)) :
    (∀ f, update p.sys.stage e g f ≠ .unused → socks.epUsed f = true) ∧
      (∀ i b c, socks.backlog i b = some c →
        b < USOCK_BACKLOG ∧ update p.sys.stage e g c = .pending i b) ∧
      Peers socks (update p.sys.stage e g) := by
  have hold := h.unused_of_alloc halloc
  obtain ⟨-, hused, hep⟩ := Stream.epAlloc_some halloc
  have hnone : (p.sys.socks.ep e).peer = none := by
    apply h.peers.peer_none
    rw [hold]
    exact fun hj => hj.elim nofun nofun
  refine ⟨fun f hf => ?_, fun i b c hb => ?_, ?_⟩
  · rw [hused]
    by_cases hfe : f = e
    · rw [hfe, update_self]
    · rw [update_of_ne hfe] at hf ⊢
      exact h.used f hf
  · rw [(epAlloc_tables halloc).2] at hb
    obtain ⟨hlt, hc⟩ := h.slot i b c hb
    have hce : c ≠ e := by
      rintro rfl
      rw [hold] at hc
      cases hc
    rw [update_of_ne hce]
    exact ⟨hlt, hc⟩
  · refine h.peers.keep (fun f => ?_) (fun f hf hstate => ?_) (fun f hf => ?_)
    · rw [hep]
      by_cases hfe : f = e
      · rw [hfe, update_self, hnone]
        rfl
      · rw [update_of_ne hfe]
    · have hfe : f ≠ e := by
        rintro rfl
        rw [hold] at hf
        exact hf.elim nofun nofun
      rw [hep, update_of_ne hfe]
      exact hstate
    · have hfe : f ≠ e := by
        rintro rfl
        rw [hold] at hf
        exact hf.elim nofun nofun
      rw [update_of_ne hfe]
      exact hf

/-! ### Sections of the handshake -/

variable {s : Sys}

/-- A section of `t` in the handshake. -/
lemma shaken (h : Inv p) (hidle : p.making t = .idle)
    (hdrift : ∀ e, Drift t (p.sys.stage e) (s.stage e))
    (hused : ∀ e, s.stage e ≠ .unused → s.socks.epUsed e = true)
    (hslot : ∀ i b c, s.socks.backlog i b = some c → b < USOCK_BACKLOG ∧ s.stage c = .pending i b)
    (hphase : ∀ u, u ≠ t → s.phase u = p.sys.phase u) (hmine : HasPhase s.stage t (s.phase t))
    (hpeers : Peers s.socks s.stage) : Inv { p with sys := s } := by
  refine ⟨hused, hslot, fun u => ?_, fun u => ?_, fun u => ?_, fun e he => ?_, hpeers⟩
  · by_cases hut : u = t
    · rw [hut]
      exact hmine
    · show HasPhase s.stage u (s.phase u)
      rw [hphase u hut]
      exact (h.phase u).drift hut hdrift
  · by_cases hut : u = t
    · show HasMake s.stage u (p.making u)
      rw [hut, hidle]
      trivial
    · exact (h.making u).drift hut hdrift
  · by_cases hut : u = t
    · rw [hut]
      exact .inr hidle
    · show s.phase u = .idle ∨ _
      rw [hphase u hut]
      exact h.one u
  · exact (hdrift e).known (h.file e he)

/-- A section of `t` in the handshake that moves no stage. -/
lemma shaken_quiet (h : Inv p) (hidle : p.making t = .idle)
    (hstage : s.stage = p.sys.stage) (htables : tables s.socks = tables p.sys.socks)
    (hphase : ∀ u, u ≠ t → s.phase u = p.sys.phase u)
    (hmine : HasPhase p.sys.stage t (s.phase t)) (hpeers : Peers s.socks p.sys.stage) :
    Inv { p with sys := s } := by
  simp only [tables, Prod.mk.injEq] at htables
  obtain ⟨hused, -, hbacklog⟩ := htables
  refine h.shaken hidle (fun e => ?_) (fun e he => ?_) (fun i b c hb => ?_) hphase ?_ ?_
  · rw [hstage]
    exact .refl t _
  · rw [hstage] at he
    rw [hused]
    exact h.used e he
  · rw [hbacklog] at hb
    rw [hstage]
    exact h.slot i b c hb
  · rw [hstage]
    exact hmine
  · rw [hstage]
    exact hpeers

/-- A section of `t` that goes on to `q` with the endpoint `c` in the stage `g`. -/
lemma shaken_move (h : Inv p) (hidle : p.making t = .idle)
    (hc : Movable t (p.sys.stage c)) (hg : g ≠ .unused)
    (hused : ∀ e, update p.sys.stage c g e ≠ .unused → socks.epUsed e = true)
    (hslot : ∀ i b d, socks.backlog i b = some d →
      b < USOCK_BACKLOG ∧ update p.sys.stage c g d = .pending i b)
    (hmine : HasPhase (update p.sys.stage c g) t q)
    (hpeers : Peers socks (update p.sys.stage c g)) :
    Inv { p with sys := ((p.sys.setSocks socks).setPhase t q).setStage c g } := by
  refine h.shaken hidle (Drift.update (hc.drift hg)) hused hslot
    (fun u hu => update_of_ne hu ..) ?_ hpeers
  show HasPhase _ t (update p.sys.phase t q t)
  rw [update_self]
  exact hmine

variable {path : List UInt8}

lemma connect (h : Inv p) (hidle : p.making t = .idle) :
    Inv { p with sys := p.sys.act (.connect t path) } := by
  rw [Sys.act]
  split
  · exact h
  split
  · exact h
  case h_2 socks c halloc =>
    obtain ⟨hused, hslot, hpeers⟩ := h.alloc (g := .made t) halloc
    exact h.shaken_move hidle (.inl (h.unused_of_alloc halloc)) (by simp) hused hslot
      (update_self ..) hpeers

/-- The marks after `c`, which was in use, has got another stage. -/
lemma used_update (h : Inv p) (hc : p.sys.stage c ≠ .unused) :
    ∀ e, update p.sys.stage c g e ≠ .unused → p.sys.socks.epUsed e = true := by
  intro e he
  by_cases hec : e = c
  · rw [hec]
    exact h.used c hc
  · rw [update_of_ne hec] at he
    exact h.used e he

lemma queue (h : Inv p) (hq : p.sys.phase t = .made c path) :
    Inv { p with sys := p.sys.act (.queue t c path) } := by
  have hc : p.sys.stage c = .made t := h.has hq
  have hidle := h.making_idle hq (by simp)
  have hknown : p.sys.stage c ≠ .unused := by
    rw [hc]
    simp
  rw [Sys.act]
  split
  case h_2 => exact h.shaken_quiet hidle rfl rfl (fun _ _ => rfl) (h.phase t) h.peers
  case h_1 i b hfound =>
    obtain ⟨hb, -, -⟩ := findSlot_some hfound
    have hsocks : (queueClient p.sys.socks c path).1 = (p.sys.socks.setSlot i b (some c)).setEp c
        { p.sys.socks.ep c with state := .data, hsResult := -ECONNREFUSED } := by
      unfold queueClient
      rw [hfound]
      rfl
    have hmov : Movable t (p.sys.stage c) := .inr (.inl hc)
    have hpeers : Peers ((p.sys.socks.setSlot i b (some c)).setEp c
        { p.sys.socks.ep c with state := .data, hsResult := -ECONNREFUSED }) p.sys.stage :=
      Peers.setEp (s := p.sys.socks.setSlot i b (some c)) h.peers rfl fun hj => absurd hj hmov.not_joined
    rw [hsocks]
    refine h.shaken_move hidle hmov (by simp) (h.used_update hknown) (fun j b' d hd => ?_) ?_
      (hpeers.restage hmov.not_joined)
    · have hslot := p.sys.socks.setSlot_backlog i b (some c) j b'
      rw [show (((p.sys.socks.setSlot i b (some c)).setEp c _).backlog j b' = _) from hslot] at hd
      split_ifs at hd with hjb
      · obtain rfl := Option.some.inj hd
        rw [update_self, hjb.1, hjb.2]
        exact ⟨hb, rfl⟩
      · obtain ⟨hlt, hstage⟩ := h.slot j b' d hd
        have hdc : d ≠ c := by
          rintro rfl
          rw [hc] at hstage
          cases hstage
        rw [update_of_ne hdc]
        exact ⟨hlt, hstage⟩
    · show update p.sys.stage c _ c ≠ _
      rw [update_self]
      simp

/-- A section of `t` that moves no stage and goes on to `q`. -/
lemma shaken_to (h : Inv p) (hidle : p.making t = .idle)
    (hstage : s.stage = p.sys.stage) (htables : tables s.socks = tables p.sys.socks)
    (hphase : s.phase = update p.sys.phase t q) (hmine : HasPhase p.sys.stage t q)
    (hpeers : Peers s.socks p.sys.stage) : Inv { p with sys := s } := by
  refine h.shaken_quiet hidle hstage htables (fun u hu => ?_) ?_ hpeers
  · rw [hphase]
    exact update_of_ne hu ..
  · rw [hphase, update_self]
    exact hmine

lemma check (h : Inv p) (hq : p.sys.phase t = .waiting c) :
    Inv { p with sys := p.sys.act (.check t c) } := by
  have hc : p.sys.stage c ≠ .unused := h.has hq
  have hidle := h.making_idle hq nofun
  rw [Sys.act, checkClient]
  split_ifs with hpeer hneg
  · exact h.shaken_to hidle rfl rfl rfl hc h.peers
  · exact h.shaken_to hidle rfl rfl rfl hc h.peers
  · exact h.shaken_quiet hidle rfl rfl (fun _ _ => rfl) (h.phase t) (h.peers.setEp rfl fun _ => id)

lemma endpointFile_peers (h : Inv p) (e : EpId) (m : FileMemory) :
    Peers (endpointFile p.sys.socks e m).1 p.sys.stage := by
  cases m with
  | noVnode | ok => exact h.peers
  | noFile => exact h.peers.release e

lemma connectFile {m : FileMemory} (h : Inv p) (hq : p.sys.phase t = .accepted c) :
    Inv { p with sys := p.sys.act (.connectFile t c m) } := by
  have hc : p.sys.stage c ≠ .unused := h.has hq
  have hidle := h.making_idle hq nofun
  have htables := endpointFile_tables p.sys.socks c m
  have hpeers := h.endpointFile_peers c m
  rw [Sys.act]
  split
  · exact h.shaken_to hidle rfl htables rfl trivial hpeers
  · exact h.shaken_to hidle rfl htables rfl hc hpeers

lemma drop {r : ℤ} (h : Inv p) (hq : p.sys.phase t = .dropping c r) :
    Inv { p with sys := p.sys.act (.drop t c r) } :=
  h.shaken_to (h.making_idle hq nofun) rfl (epRelease_tables ..) rfl trivial (h.peers.release c)

lemma accept (h : Inv p) (hidle : p.making t = .idle) (hl : p.file l ≠ none) :
    Inv { p with sys := p.sys.act (.accept t l) } :=
  h.shaken_to hidle rfl rfl rfl (h.file l hl) h.peers

/-- A round of the loop in `usock_accept` finds the listener closed, takes a client off a slot, or
parks. -/
lemma acceptSection_cases (s : Socks) (l : EpId) (t : Task) :
    acceptSection s l t = (s, .closed) ∨
      (∃ i b c, s.backlog i b = some c ∧ acceptSection s l t = (s.setSlot i b none, .client c)) ∨
      acceptSection s l t =
        (s.setEp l { s.ep l with acceptWq := usPark (s.ep l).acceptWq t }, .parked) := by
  rw [acceptSection]
  dsimp only
  split
  case h_2 => exact .inl rfl
  case h_1 i hlslot hstate =>
    cases hnext : nextClient s i with
    | some bc => exact .inr (.inl ⟨i, bc.1, bc.2, nextClient_some hnext, rfl⟩)
    | none => exact .inr (.inr rfl)

lemma pop (h : Inv p) (hq : p.sys.phase t = .accepting l) :
    Inv { p with sys := p.sys.act (.pop t l) } := by
  have hidle := h.making_idle hq (by simp)
  rcases acceptSection_cases p.sys.socks l t with heq | ⟨i, b, c, hb, heq⟩ | heq
  · simp only [Sys.act, heq]
    exact h.shaken_to hidle rfl rfl rfl trivial h.peers
  · obtain ⟨-, hc⟩ := h.slot i b c hb
    have hmov : Movable t (p.sys.stage c) := .inr (.inr (.inl ⟨i, b, hc⟩))
    have hknown : p.sys.stage c ≠ .unused := by
      rw [hc]
      simp
    have hpeers : Peers (p.sys.socks.setSlot i b none) p.sys.stage := h.peers
    simp only [Sys.act, heq]
    refine h.shaken_move hidle hmov (by simp) (h.used_update hknown) (fun j b' d hd => ?_)
      (update_self ..) (hpeers.restage hmov.not_joined)
    rw [p.sys.socks.setSlot_backlog i b none j b'] at hd
    split_ifs at hd with hjb
    obtain ⟨hlt, hstage⟩ := h.slot j b' d hd
    -- the client has been in this slot only
    have hdc : d ≠ c := by
      rintro rfl
      rw [hc] at hstage
      cases hstage
      exact hjb ⟨rfl, rfl⟩
    rw [update_of_ne hdc]
    exact ⟨hlt, hstage⟩
  · simp only [Sys.act, heq]
    exact h.shaken_quiet hidle rfl rfl (fun _ _ => rfl) (h.phase t) (h.peers.setEp rfl fun _ => id)

lemma serve (h : Inv p) (hq : p.sys.phase t = .popped c) :
    Inv { p with sys := p.sys.act (.serve t c) } := by
  have hc : p.sys.stage c = .held t := h.has hq
  have hidle := h.making_idle hq (by simp)
  rw [Sys.act]
  split
  · exact h.shaken_to hidle rfl rfl rfl hc h.peers
  case h_2 socks srv halloc =>
    have hold := h.unused_of_alloc halloc
    obtain ⟨hused, hslot, hpeers⟩ := h.alloc (g := .serving t) halloc
    have hcs : c ≠ srv := by
      rintro rfl
      rw [hold] at hc
      cases hc
    refine h.shaken_move hidle (.inl hold) (by simp) hused hslot ⟨?_, update_self ..⟩
      (hpeers.setEp rfl fun hj => ?_)
    · rw [update_of_ne hcs]
      exact hc
    · rw [update_self] at hj
      exact hj.elim (by simp) (by simp)

lemma fail (h : Inv p) (hq : p.sys.phase t = .short c) :
    Inv { p with sys := p.sys.act (.fail t c) } := by
  have hc : p.sys.stage c = .held t := h.has hq
  have hmov : Movable t (p.sys.stage c) := .inr (.inr (.inr (.inl hc)))
  have hknown : p.sys.stage c ≠ .unused := by
    rw [hc]
    exact nofun
  have hpeers : Peers (tellClient p.sys.socks c (-ENOMEM)) p.sys.stage := h.peers.setEp rfl fun _ => id
  refine h.shaken_move (h.making_idle hq nofun) hmov nofun (h.used_update hknown) (fun j b d hd => ?_)
    trivial (hpeers.restage hmov.not_joined)
  obtain ⟨hlt, hstage⟩ := h.slot j b d hd
  have hdc : d ≠ c := by
    rintro rfl
    rw [hc] at hstage
    cases hstage
  rw [update_of_ne hdc]
  exact ⟨hlt, hstage⟩

variable {a b : EpId}

/-- The tables after two endpoints in the hands of `t` have been linked to each other. -/
lemma joins (h : Inv p) {g : EpId → Stage}
    (ha : p.sys.stage a = .held t ∨ p.sys.stage a = .serving t)
    (hb : p.sys.stage b = .held t ∨ p.sys.stage b = .serving t)
    (hpa : (socks.ep a).peer = some b) (hpb : (socks.ep b).peer = some a)
    (hep : ∀ f, f ≠ a → f ≠ b → socks.ep f = p.sys.socks.ep f)
    (hga : Joined (g a)) (hgb : Joined (g b)) (hg : ∀ f, f ≠ a → f ≠ b → g f = p.sys.stage f) :
    (∀ f, Drift t (p.sys.stage f) (g f)) ∧ (∀ f, g f ≠ .unused → p.sys.socks.epUsed f = true) ∧
      (∀ i k d, p.sys.socks.backlog i k = some d → k < USOCK_BACKLOG ∧ g d = .pending i k) ∧
      Peers socks g := by
  have hmov : ∀ {f}, p.sys.stage f = .held t ∨ p.sys.stage f = .serving t →
      Movable t (p.sys.stage f) := fun hf => .inr (.inr (.inr hf))
  have hknown : ∀ {x : Stage}, Joined x → x ≠ .unused := by
    rintro x (rfl | rfl) <;> exact nofun
  have hused : ∀ {f}, p.sys.stage f = .held t ∨ p.sys.stage f = .serving t →
      p.sys.socks.epUsed f = true := fun {f} hf => by
    apply h.used
    rcases hf with hf | hf <;> (rw [hf]; exact nofun)
  have hplain : ∀ {f i k}, p.sys.stage f = .held t ∨ p.sys.stage f = .serving t →
      p.sys.stage f ≠ .pending i k := fun hf => by
    rcases hf with hf | hf <;> (rw [hf]; exact nofun)
  refine ⟨fun f => ?_, fun f hf => ?_, fun i k d hd => ?_,
    h.peers.join (hmov ha).not_joined (hmov hb).not_joined hpa hpb hep hga hgb hg⟩
  · by_cases hfa : f = a
    · rw [hfa]
      exact (hmov ha).drift (hknown hga)
    by_cases hfb : f = b
    · rw [hfb]
      exact (hmov hb).drift (hknown hgb)
    rw [hg f hfa hfb]
    exact .refl t _
  · by_cases hfa : f = a
    · rw [hfa]
      exact hused ha
    by_cases hfb : f = b
    · rw [hfb]
      exact hused hb
    rw [hg f hfa hfb] at hf
    exact h.used f hf
  · obtain ⟨hlt, hd'⟩ := h.slot i k d hd
    have hda : d ≠ a := by
      rintro rfl
      exact hplain ha hd'
    have hdb : d ≠ b := by
      rintro rfl
      exact hplain hb hd'
    rw [hg d hda hdb]
    exact ⟨hlt, hd'⟩

lemma link (h : Inv p) (hq : p.sys.phase t = .serving c srv) :
    Inv { p with sys := p.sys.act (.link t c srv) } := by
  obtain ⟨hc, hsrv⟩ := h.has hq
  have hcs : c ≠ srv := by
    rintro rfl
    rw [hc] at hsrv
    cases hsrv
  have hstage : ∀ f, (p.sys.act (.link t c srv)).stage f =
      if f = srv then .server else if f = c then .linked else p.sys.stage f := fun f => by
    show update (update p.sys.stage c .linked) srv .server f = _
    rw [update_apply, update_apply]
  have hgc : Joined ((p.sys.act (.link t c srv)).stage c) := by
    rw [hstage, if_neg hcs, if_pos rfl]
    exact .inl rfl
  have hgs : Joined ((p.sys.act (.link t c srv)).stage srv) := by
    rw [hstage, if_pos rfl]
    exact .inr rfl
  have hep : ∀ f, f ≠ c → f ≠ srv → (linkClient p.sys.socks c srv).ep f = p.sys.socks.ep f :=
    fun f hfc hfs => by
      rw [linkClient, tellClient, setEp_of_ne _ _ hfc, setEp_of_ne _ _ hfc,
        setEp_of_ne _ _ hfs]
  have hpc : ((linkClient p.sys.socks c srv).ep c).peer = some srv := by
    rw [linkClient, tellClient, setEp_self, setEp_self]
  have hps : ((linkClient p.sys.socks c srv).ep srv).peer = some c := by
    rw [linkClient, tellClient, setEp_of_ne _ _ hcs.symm, setEp_of_ne _ _ hcs.symm,
      setEp_self]
  obtain ⟨hdrift, hused, hslot, hpeers⟩ := h.joins (.inl hc) (.inr hsrv) hpc hps hep hgc hgs
    fun f hfc hfs => by rw [hstage, if_neg hfs, if_neg hfc]
  refine h.shaken (h.making_idle hq (by simp)) hdrift hused hslot (fun u hu => update_of_ne hu ..)
    ?_ hpeers
  show HasPhase _ t (update p.sys.phase t (.linked c srv) t)
  rw [update_self]
  exact ⟨(hdrift c).known (by rw [hc]; exact (by simp)), (hdrift srv).known (by rw [hsrv]; exact (by simp))⟩

lemma acceptFile {m : FileMemory} (h : Inv p) (hq : p.sys.phase t = .linked c srv) :
    Inv { p with sys := p.sys.act (.acceptFile t c srv m) } := by
  have hidle := h.making_idle hq nofun
  have hmine := h.has hq
  have htables := endpointFile_tables p.sys.socks srv m
  have hpeers := h.endpointFile_peers srv m
  rw [Sys.act]
  split
  · exact h.shaken_to hidle rfl htables rfl trivial hpeers
  · exact h.shaken_to hidle rfl htables rfl hmine hpeers

lemma unlink (h : Inv p) (hq : p.sys.phase t = .unlinking c srv) :
    Inv { p with sys := p.sys.act (.unlink t c srv) } :=
  h.shaken_to (h.making_idle hq nofun) rfl (epRelease_tables ..) rfl (h.has hq).1 (h.peers.release srv)

lemma tear (h : Inv p) (hq : p.sys.phase t = .tearing c) :
    Inv { p with sys := p.sys.act (.tear t c) } :=
  h.shaken_to (h.making_idle hq nofun) rfl (epRelease_tables ..) rfl trivial (h.peers.release c)

lemma closeListener (h : Inv p) (l : EpId) : Inv { p with sys := p.sys.act (.close l) } := by
  rw [Sys.act]
  split
  case h_2 => exact h
  case h_1 i hlslot =>
    obtain ⟨hused, -, hbacklog⟩ := usListenerDestroy_tables p.sys.socks l i
    have hep := usListenerDestroy_ep p.sys.socks l i
    set s := (p.sys.setSocks (usListenerDestroy p.sys.socks l i)).refuseAll i with hs
    have hkept : ∀ f, s.stage f = p.sys.stage f ∨ (∃ b, p.sys.stage f = .pending i b) ∧
        s.stage f = .refused := fun f => by
      rw [hs, Sys.refuseAll]
      dsimp only [Sys.setSocks]
      split
      · next j b hj =>
        split_ifs with hji
        · exact .inr ⟨⟨b, by rw [hj, hji]⟩, rfl⟩
        · exact .inl hj.symm
      · exact .inl rfl
    have hdrift : ∀ t f, Drift t (p.sys.stage f) (s.stage f) := fun t f => by
      rcases hkept f with hsame | ⟨⟨b, hb⟩, href⟩
      · rw [hsame]
        exact .refl t _
      · rw [href]
        exact Movable.drift (.inr (.inr (.inl ⟨i, b, hb⟩))) (by simp)
    refine ⟨fun f hf => ?_, fun j b d hd => ?_, fun u => (h.phase u).drift (t := u + 1) (Nat.succ_ne_self u).symm (hdrift _),
      fun u => (h.making u).drift (t := u + 1) (Nat.succ_ne_self u).symm (hdrift _), h.one,
      fun e he => (hdrift 0 e).known (h.file e he), h.peers.keep (fun f => ?_) (fun f _ hfree => ?_)
        fun f hf => (hdrift 0 f).joined hf⟩
    · show (usListenerDestroy p.sys.socks l i).epUsed f = true
      rw [hused]
      apply h.used
      rcases hkept f with hsame | ⟨⟨b, hb⟩, -⟩
      · rw [← hsame]
        exact hf
      · rw [hb]
        simp
    · change (usListenerDestroy p.sys.socks l i).backlog j b = some d at hd
      rw [hbacklog] at hd
      split_ifs at hd with hjb
      obtain ⟨hlt, hd'⟩ := h.slot j b d hd
      refine ⟨hlt, ?_⟩
      rcases hkept d with hsame | ⟨⟨b', hb'⟩, -⟩
      · exact hsame.trans hd'
      -- this slot would have been emptied
      · rw [hd'] at hb'
        cases hb'
        exact absurd ⟨rfl, hlt⟩ hjb
    · show ((usListenerDestroy p.sys.socks l i).ep f).peer = _
      rw [hep, afterRefusal, afterRefusal]
      split_ifs <;> first | rfl | (subst_vars; rfl)
    · show ((usListenerDestroy p.sys.socks l i).ep f).state = .free
      rw [hep, afterRefusal, afterRefusal]
      split_ifs
      · rfl
      · rfl
      · exact hfree
      · exact hfree

/-- A file is opened for an endpoint in use, or closed. -/
lemma setFile (h : Inv p) {f : Option VnodeOps} (hf : f ≠ none → p.sys.stage e ≠ .unused) :
    Inv (p.setFile e f) := by
  refine ⟨h.used, h.slot, h.phase, h.making, h.one, fun d hd => ?_, h.peers⟩
  change update p.file e f d ≠ none at hd
  by_cases hde : d = e
  · rw [hde, update_self] at hd
    rw [hde]
    exact hf hd
  · rw [update_of_ne hde] at hd
    exact h.file d hd

lemma shake {ev : Shake.Event} (h : Inv p) (hen : p.Enabled (.shake ev)) : Inv (p.act (.shake ev)) := by
  obtain ⟨-, hsys, hown⟩ := hen
  cases ev with
  | connect t path => exact h.connect hown
  | queue t c path => exact h.queue hsys.2
  | check t c => exact h.check hsys.2.1
  | connectFile t c m =>
    have hnext := h.connectFile (m := m) hsys.2
    cases m with
    | ok => exact hnext.setFile fun _ => h.has hsys.2
    | noVnode | noFile => exact hnext
  | drop t c r => exact h.drop hsys.2
  | accept t l => exact h.accept hown.1 hown.2
  | pop t l => exact h.pop hsys.2.1
  | serve t c => exact h.serve hsys.2
  | fail t c => exact h.fail hsys.2
  | link t c srv => exact h.link hsys.2
  | acceptFile t c srv m =>
    have hnext := h.acceptFile (m := m) hsys.2
    cases m with
    | ok => exact hnext.setFile fun _ => (h.has hsys.2).2
    | noVnode | noFile => exact hnext
  | unlink t c srv => exact h.unlink hsys.2
  | tear t c => exact h.tear hsys.2
  | close l => exact (h.closeListener l).setFile fun hf => absurd rfl hf

section

variable (h : Inv p)
include h

lemma close (e : EpId) : Inv (p.act (.close e)) := by
  have hrest : Inv (p.setSocks (epRelease p.sys.socks e)) := by
    have htables := epRelease_tables p.sys.socks e
    simp only [tables, Prod.mk.injEq] at htables
    obtain ⟨hused, -, hbacklog⟩ := htables
    refine ⟨fun f hf => ?_, fun i b c hb => ?_, h.phase, h.making, h.one, h.file, h.peers.release e⟩
    · show (epRelease p.sys.socks e).epUsed f = true
      rw [hused]
      exact h.used f hf
    · change (epRelease p.sys.socks e).backlog i b = some c at hb
      rw [hbacklog] at hb
      exact h.slot i b c hb
  exact hrest.setFile fun hf => absurd rfl hf

/-! ### Sections of `usocket_pair` and `usock_serve` -/

section

variable (hidle : p.sys.phase t = .idle)
include hidle

/-- A section of `t` that makes endpoints. -/
lemma made (hdrift : ∀ e, Drift t (p.sys.stage e) (s.stage e))
    (hused : ∀ e, s.stage e ≠ .unused → s.socks.epUsed e = true)
    (hslot : ∀ i b c, s.socks.backlog i b = some c → b < USOCK_BACKLOG ∧ s.stage c = .pending i b)
    (hphase : s.phase = p.sys.phase) (hmake : HasMake s.stage t m)
    (hpeers : Peers s.socks s.stage) : Inv ({ p with sys := s }.setMaking t m) := by
  refine ⟨hused, hslot, fun u => ?_, fun u => ?_, fun u => ?_, fun e he => ?_, hpeers⟩
  · show HasPhase s.stage u (s.phase u)
    rw [hphase]
    by_cases hut : u = t
    · rw [hut, hidle]
      trivial
    · exact (h.phase u).drift hut hdrift
  · show HasMake s.stage u (update p.making t m u)
    by_cases hut : u = t
    · rw [hut, update_self]
      exact hmake
    · rw [update_of_ne hut]
      exact (h.making u).drift hut hdrift
  · show s.phase u = .idle ∨ update p.making t m u = .idle
    rw [hphase]
    by_cases hut : u = t
    · rw [hut]
      exact .inl hidle
    · rw [update_of_ne hut]
      exact h.one u
  · exact (hdrift e).known (h.file e he)

/-- A section of `t` that moves no stage and goes on to `m`. -/
lemma made_to (htables : tables socks = tables p.sys.socks) (hmake : HasMake p.sys.stage t m)
    (hpeers : Peers socks p.sys.stage) : Inv ((p.setSocks socks).setMaking t m) := by
  simp only [tables, Prod.mk.injEq] at htables
  obtain ⟨hused, -, hbacklog⟩ := htables
  refine h.made (s := p.sys.setSocks socks) hidle (fun _ => .refl t _) (fun e he => ?_)
    (fun i b c hb => ?_) rfl hmake hpeers
  · show socks.epUsed e = true
    rw [hused]
    exact h.used e he
  · change socks.backlog i b = some c at hb
    rw [hbacklog] at hb
    exact h.slot i b c hb

/-- A section of `t` that leaves the tables alone and goes on to `m`. -/
lemma made_here (hmake : HasMake p.sys.stage t m) : Inv (p.setMaking t m) :=
  h.made_to hidle (rfl : tables p.sys.socks = tables p.sys.socks) hmake h.peers

/-- `ep_alloc` in a section of `t` that makes endpoints. -/
lemma made_alloc (halloc : epAlloc p.sys.socks = some (socks, e))
    (hmake : HasMake (update p.sys.stage e (.serving t)) t m) :
    Inv (((p.setSocks socks).setMaking t m).setStage e (.serving t)) := by
  have hold := h.unused_of_alloc halloc
  obtain ⟨hused, hslot, hpeers⟩ := h.alloc (g := .serving t) halloc
  exact h.made (s := (p.sys.setSocks socks).setStage e (.serving t)) hidle
    (Drift.update (Movable.drift (.inl hold) nofun)) hused hslot rfl hmake hpeers

lemma pair : Inv (p.act (.pair t)) := by
  rw [act]
  split
  · exact h
  case h_2 socks a halloc => exact h.made_alloc hidle halloc (update_self ..)

end

lemma pairSecond (hm : p.making t = .first a) : Inv (p.act (.pairSecond t a)) := by
  have ha : p.sys.stage a = .serving t := h.makes hm
  have hidle := h.phase_idle hm nofun
  rw [act]
  split
  · refine h.made_to hidle rfl (fun e he => ?_) h.peers
    rw [mem_singleton.mp he, ha]
    exact nofun
  case h_2 socks b halloc =>
    have hold := h.unused_of_alloc halloc
    have hab : a ≠ b := by
      rintro rfl
      rw [hold] at ha
      cases ha
    refine h.made_alloc hidle halloc ⟨hab, ?_, update_self ..⟩
    rw [update_of_ne hab]
    exact ha

lemma pairLink (hm : p.making t = .both a b) : Inv (p.act (.pairLink t a b)) := by
  obtain ⟨hab, ha, hb⟩ := h.makes hm
  have hstage : ∀ f, (p.act (.pairLink t a b)).sys.stage f =
      if f = b then .server else if f = a then .server else p.sys.stage f := fun f => by
    show update (update p.sys.stage a .server) b .server f = _
    rw [update_apply, update_apply]
  have hga : Joined ((p.act (.pairLink t a b)).sys.stage a) := by
    rw [hstage, if_neg hab, if_pos rfl]
    exact .inr rfl
  have hgb : Joined ((p.act (.pairLink t a b)).sys.stage b) := by
    rw [hstage, if_pos rfl]
    exact .inr rfl
  have hep : ∀ f, f ≠ a → f ≠ b → (linkPair p.sys.socks a b).ep f = p.sys.socks.ep f :=
    fun f hfa hfb => by
      rw [linkPair, setEp_of_ne _ _ hfb, setEp_of_ne _ _ hfa, setEp_of_ne _ _ hfb,
        setEp_of_ne _ _ hfa]
  have hpa : ((linkPair p.sys.socks a b).ep a).peer = some b := by
    rw [linkPair, setEp_of_ne _ _ hab, setEp_self]
  have hpb : ((linkPair p.sys.socks a b).ep b).peer = some a := by
    rw [linkPair, setEp_self]
  obtain ⟨hdrift, hused, hslot, hpeers⟩ := h.joins (.inr ha) (.inr hb) hpa hpb hep hga hgb
    fun f hfa hfb => by rw [hstage, if_neg hfb, if_neg hfa]
  exact h.made (s := (p.act (.pairLink t a b)).sys) (m := .paired a b) (h.phase_idle hm nofun) hdrift
    hused hslot rfl
    ⟨(hdrift a).known (by rw [ha]; exact nofun), (hdrift b).known (by rw [hb]; exact nofun)⟩ hpeers

end

lemma fileFirst {m : FileMemory} (h : Inv p) (hm : p.making t = .paired a b) :
    Inv (p.act (.fileFirst t a b m)) := by
  have hmake := h.makes hm
  have htables := endpointFile_tables p.sys.socks a m
  have hpeers := h.endpointFile_peers a m
  exact h.made_to (h.phase_idle hm nofun) htables hmake hpeers

lemma fileSecond {fa : Bool} {m : FileMemory} (h : Inv p)
    (hm : p.making t = .filed a b fa) : Inv (p.act (.fileSecond t a b fa m)) := by
  obtain ⟨ha, hb⟩ := h.makes hm
  have hidle := h.phase_idle hm nofun
  have htables := endpointFile_tables p.sys.socks b m
  have hpeers := h.endpointFile_peers b m
  rw [act]
  split
  · exact ((h.made_to (m := .idle) hidle htables trivial hpeers).setFile fun _ => ha).setFile fun _ => hb
  · refine h.made_to hidle htables (fun e he => ?_) hpeers
    rcases mem_pair.mp he with rfl | rfl
    · exact ha
    · exact hb

lemma usockServe (h : Inv p) (hidle : p.sys.phase t = .idle) :
    Inv (p.act (.serve t path)) := by
  rw [act]
  split
  · exact h
  split
  · exact h
  case h_2 socks l halloc => exact h.made_alloc hidle halloc (update_self ..)

lemma serveFile {m : FileMemory} (h : Inv p) (hm : p.making t = .named l path) :
    Inv (p.act (.serveFile t l path m)) := by
  have hl : p.sys.stage l = .serving t := h.makes hm
  have hidle := h.phase_idle hm nofun
  have hknown : p.sys.stage l ≠ .unused := by
    rw [hl]
    exact nofun
  cases m with
  | ok => exact h.made_here hidle hl
  | noFile => exact h.made_here hidle hknown
  | noVnode =>
    refine h.made_here hidle fun e he => ?_
    rw [mem_singleton.mp he]
    exact hknown

lemma publish (h : Inv p) (hm : p.making t = .publishing l path) :
    Inv (p.act (.publish t l path)) := by
  have hl : p.sys.stage l = .serving t := h.makes hm
  have hidle := h.phase_idle hm nofun
  have hmov : Movable t (p.sys.stage l) := .inr (.inr (.inr (.inr hl)))
  have hknown : p.sys.stage l ≠ .unused := by
    rw [hl]
    exact nofun
  rw [act]
  split
  · exact h.made_here hidle hknown
  case h_2 i hfree =>
    have hpeers : Peers (p.sys.socks.setEp l { p.sys.socks.ep l with
        state := .listener, lslot := some i, name := path }) p.sys.stage :=
      h.peers.setEp rfl fun hj => absurd hj hmov.not_joined
    have hnext : Inv (((p.setSocks (Usock.publish p.sys.socks l path i)).setMaking t .idle).setStage l
        .listener) := by
      refine h.made (m := .idle)
        (s := (p.sys.setSocks (Usock.publish p.sys.socks l path i)).setStage l .listener) hidle
        (Drift.update (hmov.drift nofun)) (h.used_update hknown) (fun j b d hd => ?_) rfl trivial
        (hpeers.restage hmov.not_joined)
      obtain ⟨hlt, hd'⟩ := h.slot j b d hd
      have hdl : d ≠ l := by
        rintro rfl
        rw [hl] at hd'
        cases hd'
      refine ⟨hlt, ?_⟩
      show update _ l _ d = _
      rw [update_of_ne hdl]
      exact hd'
    refine hnext.setFile fun _ => ?_
    show update p.sys.stage l _ l ≠ _
    rw [update_self]
    exact nofun

lemma undo {es : List EpId} (h : Inv p) (hm : p.making t = .undoing (e :: es)) :
    Inv (p.act (.undo t e es)) := by
  have hknown : ∀ f ∈ e :: es, p.sys.stage f ≠ .unused := h.makes hm
  refine h.made_to (h.phase_idle hm nofun) (epRelease_tables ..) ?_ (h.peers.release e)
  split
  · trivial
  · exact fun f hf => hknown f (List.mem_cons_of_mem e hf)

/-- Every section keeps the invariant. -/
lemma step {p' : State} {ev : Event} (h : Inv p) (hstep : Step p ev p') : Inv p' := by
  obtain ⟨hen, rfl⟩ := hstep
  cases ev with
  | shake ev => exact h.shake hen
  | close e => exact h.close e
  | pair t => exact h.pair hen.2.1
  | pairSecond t a => exact h.pairSecond hen.2
  | pairLink t a b => exact h.pairLink hen.2
  | fileFirst t a b m => exact h.fileFirst hen.2
  | fileSecond t a b fa m => exact h.fileSecond hen.2
  | serve t path => exact h.usockServe hen.2.1
  | serveFile t l path m => exact h.serveFile hen.2
  | publish t l path => exact h.publish hen.2
  | closeUnlisted t l => exact ⟨h.used, h.slot, h.phase, h.making, h.one, h.file, h.peers⟩
  | undo t e es => exact h.undo hen.2

end Inv

lemma inv_start : Inv start where
  used _ he := absurd rfl he
  slot _ _ _ hb := nomatch hb
  phase _ := trivial
  making _ := trivial
  one _ := .inl rfl
  file _ he := absurd rfl he
  peers _ _ hef := nomatch hef

lemma inv_run {es : List Event} (hrun : Run Step start es p) : Inv p :=
  hrun.invariant inv_start fun _ _ _ h hstep => h.step hstep

/-! ## Slots that are given back -/

/-- The step gives no endpoint back. -/
def Keeps (_ : State) : Event → Prop
  | .close _ | .undo _ _ _ | .closeUnlisted _ _ => False
  | .shake (.drop _ _ _) | .shake (.unlink _ _ _) | .shake (.tear _ _) | .shake (.close _) => False
  | _ => True

/-- The endpoint that a call of the handshake has allocated. -/
def owns : Phase → List EpId
  | .made c _ | .waiting c | .accepted c | .dropping c _ => [c]
  | .serving _ srv | .linked _ srv | .unlinking _ srv => [srv]
  | .idle | .accepting _ | .popped _ | .short _ | .tearing _ => []

lemma holds_of_owns {q : Phase} (h : e ∈ owns q) : e ∈ holds q := by
  cases q with
  | made c path | waiting c | accepted c | dropping c r => exact h
  | serving c srv | linked c srv | unlinking c srv => exact List.mem_cons_of_mem c h
  | idle | accepting l | popped c | short c | tearing c => cases h

/-- The endpoint has a file, or the call that allocated it goes on. -/
def Owned (p : State) (e : EpId) : Prop :=
  p.file e ≠ none ∨ ∃ t, e ∈ owns (p.sys.phase t) ∨ e ∈ (p.making t).holds

lemma Owned.reachable (h : Owned p e) : Reachable p e := by
  rcases h with hfile | ⟨t, hphase | hmake⟩
  · exact .inl hfile
  · exact .inr (.inr ⟨t, .inl (holds_of_owns hphase)⟩)
  · exact .inr (.inr ⟨t, .inr hmake⟩)

/-- Every slot that is marked has an owner. -/
def Owners (p : State) : Prop := ∀ e, p.sys.socks.epUsed e = true → Owned p e

namespace Owners

variable {p p' : State} {t : Task}

/-- A section of `t` in the handshake passes on what the call owns, or makes its file. -/
lemma shaken (h : Owners p) {q q' : Phase} (hq : p.sys.phase t = q)
    (hphase : p'.sys.phase = update p.sys.phase t q') (hmaking : p'.making = p.making)
    (hused : ∀ e, p'.sys.socks.epUsed e = true → p.sys.socks.epUsed e = true ∨ e ∈ owns q')
    (hfile : ∀ e, p.file e ≠ none → p'.file e ≠ none)
    (hown : ∀ e ∈ owns q, e ∈ owns q' ∨ p'.file e ≠ none) : Owners p' := by
  have hmine : p'.sys.phase t = q' := by
    rw [hphase, update_self]
  intro e he
  rcases hused e he with hold | hnew
  · rcases h e hold with hf | ⟨u, hu | hu⟩
    · exact .inl (hfile e hf)
    · by_cases hut : u = t
      · rw [hut, hq] at hu
        rcases hown e hu with hstay | hf
        · exact .inr ⟨t, .inl (by rw [hmine]; exact hstay)⟩
        · exact .inl hf
      · exact .inr ⟨u, .inl (by rw [hphase, update_of_ne hut]; exact hu)⟩
    · exact .inr ⟨u, .inr (by rw [hmaking]; exact hu)⟩
  · exact .inr ⟨t, .inl (by rw [hmine]; exact hnew)⟩

/-- A section of `t` in a `usocket_pair` or a `usock_serve` does. -/
lemma made (h : Owners p) {m m' : Make} (hm : p.making t = m)
    (hmaking : p'.making = update p.making t m') (hphase : p'.sys.phase = p.sys.phase)
    (hused : ∀ e, p'.sys.socks.epUsed e = true → p.sys.socks.epUsed e = true ∨ e ∈ m'.holds)
    (hfile : ∀ e, p.file e ≠ none → p'.file e ≠ none)
    (hown : ∀ e ∈ m.holds, e ∈ m'.holds ∨ p'.file e ≠ none) : Owners p' := by
  have hmine : p'.making t = m' := by
    rw [hmaking, update_self]
  intro e he
  rcases hused e he with hold | hnew
  · rcases h e hold with hf | ⟨u, hu | hu⟩
    · exact .inl (hfile e hf)
    · exact .inr ⟨u, .inl (by rw [hphase]; exact hu)⟩
    · by_cases hut : u = t
      · rw [hut, hm] at hu
        rcases hown e hu with hstay | hf
        · exact .inr ⟨t, .inr (by rw [hmine]; exact hstay)⟩
        · exact .inl hf
      · exact .inr ⟨u, .inr (by rw [hmaking, update_of_ne hut]; exact hu)⟩
  · exact .inr ⟨t, .inr (by rw [hmine]; exact hnew)⟩

/-- `ep_alloc` marks the endpoint it hands out. -/
lemma alloc_used {s s' : Socks} {a : EpId} (halloc : epAlloc s = some (s', a))
    (he : s'.epUsed e = true) : s.epUsed e = true ∨ e = a := by
  rw [(Stream.epAlloc_some halloc).2.1] at he
  by_cases hea : e = a
  · exact .inr hea
  · rw [update_of_ne hea] at he
    exact .inl he

lemma setFile_ne {f : VnodeOps} {c : EpId} (h : p.file e ≠ none) :
    (p.setFile c (some f)).file e ≠ none := by
  show update p.file c (some f) e ≠ none
  by_cases hec : e = c
  · rw [hec, update_self]
    exact nofun
  · rw [update_of_ne hec]
    exact h

lemma setFile_self (p : State) (c : EpId) (f : VnodeOps) : (p.setFile c (some f)).file c ≠ none := by
  show update p.file c (some f) c ≠ none
  rw [update_self]
  exact nofun

/-- A section of the handshake passes an endpoint on or gives it back. -/
lemma shake {ev : Shake.Event} (h : Owners p) (hen : p.Enabled (.shake ev)) (hok : Keeps p (.shake ev)) :
    Owners (p.act (.shake ev)) := by
  obtain ⟨-, hsys, -⟩ := hen
  cases ev with
  | connect t path =>
    show Owners { p with sys := p.sys.act (.connect t path) }
    rw [Sys.act]
    split
    · exact h
    split
    · exact h
    case h_2 socks c halloc =>
      exact h.shaken hsys.2 rfl rfl
        (fun e he => (alloc_used halloc he).imp_right mem_singleton.mpr) (fun _ => id) (by rintro _ ⟨⟩)
  | queue t c path =>
    show Owners { p with sys := p.sys.act (.queue t c path) }
    rw [Sys.act]
    split
    case h_2 => exact h
    case h_1 i b hfound =>
      refine h.shaken hsys.2 rfl rfl (fun e he => .inl ?_) (fun _ => id) (fun _ => .inl)
      rw [queueClient, hfound] at he
      exact he
  | check t c =>
    show Owners { p with sys := p.sys.act (.check t c) }
    rw [Sys.act, checkClient]
    split_ifs with hpeer hneg
    · exact h.shaken hsys.2.1 rfl rfl (fun _ => .inl) (fun _ => id) (fun _ => .inl)
    · exact h.shaken hsys.2.1 rfl rfl (fun _ => .inl) (fun _ => id) (fun _ => .inl)
    · exact h
  | connectFile t c m =>
    cases m with
    | ok =>
      refine h.shaken hsys.2 rfl rfl (fun _ => .inl) (fun _ => setFile_ne) (fun e he => .inr ?_)
      rw [mem_singleton.mp he]
      exact setFile_self _ _ _
    | noVnode => exact h.shaken hsys.2 rfl rfl (fun _ => .inl) (fun _ => id) (fun _ => .inl)
    | noFile =>
      refine h.shaken hsys.2 rfl rfl (fun e he => .inl ?_) (fun _ => id) (fun _ => .inl)
      exact (endpointFile_used p.sys.socks c .noFile e).symm.trans he
  | accept t l => exact h.shaken hsys.2 rfl rfl (fun _ => .inl) (fun _ => id) (by rintro _ ⟨⟩)
  | pop t l =>
    show Owners { p with sys := p.sys.act (.pop t l) }
    rcases Inv.acceptSection_cases p.sys.socks l t with heq | ⟨i, b, c, hb, heq⟩ | heq
    · simp only [Sys.act, heq]
      exact h.shaken hsys.2.1 rfl rfl (fun _ => .inl) (fun _ => id) (by rintro _ ⟨⟩)
    · simp only [Sys.act, heq]
      exact h.shaken hsys.2.1 rfl rfl (fun _ => .inl) (fun _ => id) (by rintro _ ⟨⟩)
    · simp only [Sys.act, heq]
      exact h
  | serve t c =>
    show Owners { p with sys := p.sys.act (.serve t c) }
    rw [Sys.act]
    split
    · exact h.shaken hsys.2 rfl rfl (fun _ => .inl) (fun _ => id) (by rintro _ ⟨⟩)
    case h_2 socks srv halloc =>
      exact h.shaken hsys.2 rfl rfl
        (fun e he => (alloc_used halloc he).imp_right mem_singleton.mpr) (fun _ => id) (by rintro _ ⟨⟩)
  | fail t c => exact h.shaken hsys.2 rfl rfl (fun _ => .inl) (fun _ => id) (by rintro _ ⟨⟩)
  | link t c srv => exact h.shaken hsys.2 rfl rfl (fun _ => .inl) (fun _ => id) (fun _ => .inl)
  | acceptFile t c srv m =>
    cases m with
    | ok =>
      refine h.shaken hsys.2 rfl rfl (fun _ => .inl) (fun _ => setFile_ne) (fun e he => .inr ?_)
      rw [mem_singleton.mp he]
      exact setFile_self _ _ _
    | noVnode => exact h.shaken hsys.2 rfl rfl (fun _ => .inl) (fun _ => id) (fun _ => .inl)
    | noFile =>
      refine h.shaken hsys.2 rfl rfl (fun e he => .inl ?_) (fun _ => id) (fun _ => .inl)
      exact (endpointFile_used p.sys.socks srv .noFile e).symm.trans he
  | drop t c r | unlink t c srv | tear t c | close l => exact hok.elim

lemma fileSecond {a b : EpId} {fa : Bool} {m : FileMemory} (h : Owners p)
    (hm : p.making t = .filed a b fa) : Owners (p.act (.fileSecond t a b fa m)) := by
  have hused := endpointFile_used p.sys.socks b m
  rw [act]
  split
  · refine h.made hm rfl rfl (fun e he => .inl ?_) (fun _ hf => setFile_ne (setFile_ne hf))
      (fun e he => .inr ?_)
    · exact (hused e).symm.trans he
    · rcases mem_pair.mp he with rfl | rfl
      · exact setFile_ne (setFile_self _ _ _)
      · exact setFile_self _ _ _
  · refine h.made hm rfl rfl (fun e he => .inl ?_) (fun _ => id) (fun _ => .inl)
    exact (hused e).symm.trans he

lemma publish {l : EpId} {path : List UInt8} (h : Owners p) (hm : p.making t = .publishing l path) :
    Owners (p.act (.publish t l path)) := by
  rw [act]
  split
  · exact h.made hm rfl rfl (fun _ => .inl) (fun _ => id) (fun _ => .inl)
  case h_2 i hfree =>
    refine h.made hm rfl rfl (fun _ => .inl) (fun _ => setFile_ne) (fun e he => .inr ?_)
    rw [mem_singleton.mp he]
    exact setFile_self _ _ _

/-- A step that gives nothing back loses no owner. -/
lemma step {ev : Event} (h : Owners p) (hok : Keeps p ev) (hstep : Step p ev p') : Owners p' := by
  obtain ⟨hen, rfl⟩ := hstep
  cases ev with
  | shake ev => exact h.shake hen hok
  | close e | undo t e es | closeUnlisted t l => exact hok.elim
  | pair t =>
    rw [act]
    split
    · exact h
    case h_2 socks a halloc =>
      exact h.made hen.2.2 rfl rfl
        (fun e he => (alloc_used halloc he).imp_right mem_singleton.mpr) (fun _ => id) nofun
  | pairSecond t a =>
    rw [act]
    split
    · exact h.made hen.2 rfl rfl (fun _ => .inl) (fun _ => id) (fun _ => .inl)
    case h_2 socks b halloc =>
      refine h.made hen.2 rfl rfl (fun e he => (alloc_used halloc he).imp_right ?_) (fun _ => id)
        (fun e he => .inl ?_)
      · exact fun heb => mem_pair.mpr (.inr heb)
      · exact mem_pair.mpr (.inl (mem_singleton.mp he))
  | pairLink t a b => exact h.made hen.2 rfl rfl (fun _ => .inl) (fun _ => id) (fun _ => .inl)
  | fileFirst t a b m =>
    refine h.made hen.2 rfl rfl (fun e he => .inl ?_) (fun _ => id) (fun _ => .inl)
    exact (endpointFile_used p.sys.socks a m e).symm.trans he
  | fileSecond t a b fa m => exact h.fileSecond hen.2
  | serve t path =>
    rw [act]
    split
    · exact h
    split
    · exact h
    case h_2 socks l halloc =>
      exact h.made hen.2.2 rfl rfl
        (fun e he => (alloc_used halloc he).imp_right mem_singleton.mpr) (fun _ => id) nofun
  | serveFile t l path m =>
    cases m with
    | ok | noVnode | noFile => exact h.made hen.2 rfl rfl (fun _ => .inl) (fun _ => id) (fun _ => .inl)
  | publish t l path => exact h.publish hen.2

lemma start_owners : Owners start := fun _ he => nomatch he

end Owners

/-! ## Runs -/

/-- What the marks and the closes do in every run: what is in use is marked, the close of a data
endpoint changes at most the endpoint it is linked to, by a link that leads back, and the close of
a listener at most the clients in its backlog. -/
structure Sound (p : State) : Prop where
  marked : ∀ e, Reachable p e → p.sys.socks.epUsed e = true
  closes : ∀ e p', Step p (.close e) p' → ∀ f, f ≠ e → p'.sys.socks.ep f ≠ p.sys.socks.ep f →
    (p.sys.socks.ep e).peer = some f ∧ (p.sys.socks.ep f).peer = some e
  refuses : ∀ l p', Step p (.shake (.close l)) p' → ∀ f, f ≠ l →
    p'.sys.socks.ep f ≠ p.sys.socks.ep f →
    ∃ i b, (p.sys.socks.ep l).lslot = some i ∧ p.sys.socks.backlog i b = some f

/-- The marked slots are those in use, and there is none left only if all are in use. -/
structure Accounts (p : State) : Prop where
  used : ∀ e, p.sys.socks.epUsed e = true ↔ Reachable p e
  full : epAlloc p.sys.socks = none → ∀ e < USOCK_EP_MAX, Reachable p e

lemma Inv.sound (h : Inv p) : Sound p := by
  refine ⟨fun e => h.marked, fun e p' hstep f hfe hchange => ?_, fun l p' hstep f hfl hchange => ?_⟩
  · obtain ⟨-, rfl⟩ := hstep
    obtain ⟨hlink, hlive⟩ := epRelease_other hfe hchange
    exact ⟨hlink, (h.peers e f hlink).2.2.resolve_right hlive⟩
  · obtain ⟨-, rfl⟩ := hstep
    change (p.sys.act (.close l)).socks.ep f ≠ _ at hchange
    rw [Sys.act] at hchange
    split at hchange
    case h_2 => exact absurd rfl hchange
    case h_1 i hlslot =>
      change (usListenerDestroy p.sys.socks l i).ep f ≠ _ at hchange
      rw [usListenerDestroy_ep, if_neg hfl, afterRefusal] at hchange
      split_ifs at hchange with hqueued
      · obtain ⟨b, -, hb⟩ := hqueued
        exact ⟨i, b, hlslot, hb⟩
      · exact absurd rfl hchange

/-- `ep_alloc` fails when every slot is marked. -/
lemma used_of_epAlloc_none {s : Socks} (h : epAlloc s = none) : ∀ e < USOCK_EP_MAX, s.epUsed e = true := by
  intro e he
  rw [epAlloc, Option.map_eq_none_iff, List.find?_eq_none] at h
  simpa using h e (List.mem_range.mpr he)

/-- Every run is sound; as long as nothing is given back, the slots that are marked are those in
use. -/
theorem pool_run {p : State} {es : List Event} (hrun : Run Step start es p) :
    Sound p ∧ (Run (Guarded Keeps Step) start es p → Accounts p) := by
  have hinv := inv_run hrun
  refine ⟨hinv.sound, fun hguarded => ?_⟩
  have howners : Owners p := hguarded.invariant Owners.start_owners fun _ _ _ h hs => h.step hs.1 hs.2
  have hused : ∀ e, p.sys.socks.epUsed e = true ↔ Reachable p e := fun e =>
    ⟨fun he => (howners e he).reachable, hinv.marked⟩
  exact ⟨hused, fun hnone e he => (hused e).mp (used_of_epAlloc_none hnone e he)⟩

/-- The calls of one `usocket_pair` that succeeds. -/
def onePair : List Event :=
  [.pair 0, .pairSecond 0 0, .pairLink 0 0 1, .fileFirst 0 0 1 .ok, .fileSecond 0 0 1 true .ok]

lemma onePair_enables : Enables (fun p ev => Keeps p ev ∧ p.Enabled ev) act start onePair := by
  have henables : Enables State.Enabled act start onePair := by decide
  obtain ⟨h₁, h₂, h₃, h₄, h₅, -⟩ := henables
  exact ⟨⟨trivial, h₁⟩, ⟨trivial, h₂⟩, ⟨trivial, h₃⟩, ⟨trivial, h₄⟩, ⟨trivial, h₅⟩, trivial⟩

lemma onePair_run : Run (Guarded Keeps Step) start onePair (onePair.foldl act start) :=
  Run.of_enables (fun _ _ h => ⟨h.1, h.2, rfl⟩) onePair_enables

theorem pool_run_onePair : Accounts (onePair.foldl act start) :=
  (pool_run (onePair_run.mono fun _ _ _ h => h.2)).2 onePair_run

/-- A closed endpoint stays marked, though nothing leads to it any more. -/
theorem closed_stays_marked : ¬ ∀ es p, Run Step start es p → Accounts p := by
  intro hall
  have hen : (onePair.foldl act start).Enabled (.close 0) := by decide
  have hrun := (onePair_run.mono fun _ _ _ h => h.2).snoc ⟨hen, rfl⟩
  have hinv := inv_run hrun
  have hmarked : ((onePair.foldl act start).act (.close 0)).sys.socks.epUsed 0 = true := by
    decide
  have hstage : ((onePair.foldl act start).act (.close 0)).sys.stage 0 = .server := by
    decide
  have hidle : ∀ t, ((onePair.foldl act start).act (.close 0)).sys.phase t = .idle := fun t => rfl
  have hmaking : ∀ t, ((onePair.foldl act start).act (.close 0)).making t = .idle := fun t => by
    by_cases ht : t = 0
    · rw [ht]
      decide
    · show update (update (update (update
        (update (fun _ => Make.idle) 0 _) 0 _) 0 _) 0 _) 0 _ t = _
      simp only [update_of_ne ht]
  rcases ((hall _ _ hrun).used 0).mp hmarked with hfile | ⟨i, b, hslot⟩ | ⟨t, hphase | hmake⟩
  · refine hfile ?_
    decide
  · rw [(hinv.slot i b 0 hslot).2] at hstage
    cases hstage
  · rw [hidle] at hphase
    cases hphase
  · rw [hmaking] at hmake
    cases hmake

end Pool
end Usock
end Ipc
end MobilePhoneOs
