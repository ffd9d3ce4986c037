import MobilePhoneOs.Net.TcpTable
import MobilePhoneOs.Net.TcpTheorems

/-!
# Which socket gets a segment

A child of a listener that is bound to the address of its SYN stands in the table before every other
socket of its connection, and no later call gives its addresses and ports to another socket. A
child of a listener of any address is bound to none, and no segment finds it.
-/

namespace MobilePhoneOs

open Function (update update_self update_of_ne)
namespace Net
namespace Tcp

namespace Table

variable {t t' : Table} {k : ℕ} {c : Tuple}

/-- A socket in the table that has not been closed. -/
def Alive (t : Table) (k : ℕ) : Prop := k ∈ t.order ∧ t.state k ≠ .closed

/-- A socket of a connection. -/
def Live (t : Table) (k : ℕ) : Prop := t.Alive k ∧ t.state k ≠ .listen

/-- A child that is alive gets the segments of the connection it was spawned for, and no connection
has two sockets. -/
structure Demux (t : Table) : Prop where
  delivered : ∀ k c, t.born k = some c → t.Alive k → t.demux c = some k
  unique : ∀ k k', t.Live k → t.Live k' → t.tuple k = t.tuple k' → k = k'

/-- A call binds no child to another address, and gets no port that is in use or none; the SYN that
a listener accepts is for the address the listener is bound to, and no socket has its connection. -/
def ActOk (t : Table) : TableAct → Prop
  | .bind k _ port => (port ≠ 0 ∧ t.portTaken port = true) ∨
      ((t.born k ≠ none → ¬ t.Alive k) ∧ (port = 0 → t.eph ≠ 0 ∧ t.portTaken t.eph = false))
  | .input m new _ _ => ∀ l, t.demux m.tuple = some l → t.state l = .listen → m.seg.flags.syn = true →
      m.seg.flags.ack = false → new ≠ none → (t.sock l).accepted.length < 4 →
      (t.tuple l).localIp = m.dst ∧ ∀ k, t.Live k → t.tuple k ≠ m.tuple
  | _ => True

/-! ## Looking up -/

/-- A search that has found `k` still finds it when nothing new fits but `k`. -/
lemma find?_keep {p q : ℕ → Bool} {ks : List ℕ} (h : ks.find? p = some k)
    (hq : ∀ x ∈ ks, p x = false → q x = false) (hk : q k = true) : ks.find? q = some k := by
  induction ks with
  | nil => cases h
  | cons x ks ih =>
    by_cases hx : p x = true
    · rw [List.find?_cons_of_pos hx] at h
      obtain rfl := Option.some.inj h
      exact List.find?_cons_of_pos hk
    · rw [List.find?_cons_of_neg hx] at h
      have hqx := hq x (List.mem_cons_self ..) (by simpa using hx)
      rw [List.find?_cons_of_neg (by simpa using hqx)]
      exact ih h fun y hy => hq y (List.mem_cons_of_mem _ hy)

variable {x : ℕ}

lemma find?_filter_ne {p : ℕ → Bool} {ks : List ℕ} (h : ks.find? p = some k) (hx : x ≠ k) :
    (ks.filter (· ≠ x)).find? p = some k := by
  induction ks with
  | nil => cases h
  | cons y ks ih =>
    by_cases hy : p y = true
    · rw [List.find?_cons_of_pos hy] at h
      obtain rfl := Option.some.inj h
      rw [List.filter_cons_of_pos (by simpa using hx.symm)]
      exact List.find?_cons_of_pos hy
    · rw [List.find?_cons_of_neg hy] at h
      by_cases hyx : y = x
      · rw [List.filter_cons_of_neg (by simpa using hyx)]
        exact ih h
      · rw [List.filter_cons_of_pos (by simpa using hyx), List.find?_cons_of_neg hy]
        exact ih h

variable {port : UInt16}

lemma portTaken_iff : t.portTaken port = true ↔
    ∃ k, t.Alive k ∧ (t.tuple k).localPort = port := by
  rw [portTaken, List.any_eq_true]
  constructor
  · rintro ⟨k, hk, h⟩
    rw [Bool.and_eq_true, beq_iff_eq, bne_iff_ne] at h
    exact ⟨k, ⟨hk, h.2⟩, h.1⟩
  · rintro ⟨k, ⟨hk, hstate⟩, hport⟩
    exact ⟨k, hk, by rw [Bool.and_eq_true, beq_iff_eq, bne_iff_ne]; exact ⟨hport, hstate⟩⟩

/-! ## The invariant -/

/-- What the table keeps: the account of the children, the connections, and that a listener has a
port. -/
structure Inv (t : Table) : Prop where
  child : ∀ k c, t.born k = some c → t.Alive k →
    t.state k ≠ .listen ∧ t.tuple k = c ∧ t.connected c = some k ∧ c.localPort ≠ 0
  unique : ∀ k k', t.Live k → t.Live k' → t.tuple k = t.tuple k' → k = k'
  listener : ∀ k ∈ t.order, t.state k = .listen → (t.tuple k).localPort ≠ 0

lemma Inv.demux (h : Inv t) : Demux t := by
  refine ⟨fun k c hborn halive => ?_, h.unique⟩
  rw [Table.demux, (h.child k c hborn halive).2.2.1]
  rfl

/-- The socket at `k` is made anew, at its place or as the newest one. The invariant is kept if its
addresses and ports are the old ones or those of no child, and those of no connection if it has one. -/
lemma Inv.renew (h : Inv t)
    (horder : t'.order = t.order ∨ t'.order = k :: t.order)
    (hsock : ∀ x, x ≠ k → t'.sock x = t.sock x) (hborn : ∀ x, x ≠ k → t'.born x = t.born x)
    (hfree : ∀ x c, x ≠ k → t.born x = some c → t.Alive x →
      t'.tuple k ≠ c ∨ (t'.order = t.order ∧ t'.tuple k = t.tuple k))
    (hchild : ∀ c, t'.born k = some c → t'.Alive k →
      t'.state k ≠ .listen ∧ t'.tuple k = c ∧ t'.connected c = some k ∧ c.localPort ≠ 0)
    (hunique : t'.Live k → ∀ x, x ≠ k → t.Live x → t.tuple x ≠ t'.tuple k)
    (hlistener : k ∈ t'.order → t'.state k = .listen → (t'.tuple k).localPort ≠ 0) : Inv t' := by
  have htuple : ∀ x, x ≠ k → t'.tuple x = t.tuple x := fun x hx => by rw [Table.tuple, hsock x hx, Table.tuple]
  have hstate : ∀ x, x ≠ k → t'.state x = t.state x := fun x hx => by rw [Table.state, hsock x hx, Table.state]
  have hmem : ∀ x, x ≠ k → x ∈ t'.order → x ∈ t.order := fun x hx hin => by
    rcases horder with heq | hcons
    · rwa [heq] at hin
    · rw [hcons] at hin
      exact (List.mem_cons.mp hin).resolve_left hx
  have halive : ∀ x, x ≠ k → t'.Alive x → t.Alive x := fun x hx ha => ⟨hmem x hx ha.1, hstate x hx ▸ ha.2⟩
  have hlive : ∀ x, x ≠ k → t'.Live x → t.Live x := fun x hx ha => ⟨halive x hx ha.1, hstate x hx ▸ ha.2⟩
  refine ⟨fun x c hbx hx => ?_, fun x y hx hy hxy => ?_, fun x hx hl => ?_⟩
  · by_cases hxk : x = k
    · subst hxk
      exact hchild c hbx hx
    rw [hborn x hxk] at hbx
    obtain ⟨hl, htup, hconn, hport⟩ := h.child x c hbx (halive x hxk hx)
    refine ⟨by rw [hstate x hxk]; exact hl, (htuple x hxk).trans htup, ?_, hport⟩
    have hother : ∀ y, y ≠ k → (t'.tuple y == c) = (t.tuple y == c) := fun y hy => by rw [htuple y hy]
    have hxc : (t'.tuple x == c) = true := by rw [hother x hxk, beq_iff_eq, htup]
    have hkeep : (t'.tuple k == c) = false ∨ (t'.order = t.order ∧ t'.tuple k = t.tuple k) := by
      rcases hfree x c hxk hbx (halive x hxk hx) with hne | hsame
      · exact .inl (by rwa [beq_eq_false_iff_ne])
      · exact .inr hsame
    have hold : t.order.find? (fun y => t'.tuple y == c) = some x := by
      refine find?_keep hconn (fun y _ hy => ?_) hxc
      by_cases hyk : y = k
      · subst hyk
        rcases hkeep with hno | ⟨-, hsame⟩
        · exact hno
        · rw [hsame]
          exact hy
      · rw [hother y hyk]
        exact hy
    rw [connected]
    rcases horder with heq | hcons
    · rw [heq]
      exact hold
    · rcases hkeep with hno | ⟨heq, -⟩
      · rw [hcons, List.find?_cons_of_neg (by simpa using hno)]
        exact hold
      · rw [heq]
        exact hold
  · by_cases hxk : x = k
    · by_cases hyk : y = k
      · rw [hxk, hyk]
      · subst hxk
        rw [htuple y hyk] at hxy
        exact absurd hxy.symm (hunique hx y hyk (hlive y hyk hy))
    · by_cases hyk : y = k
      · subst hyk
        rw [htuple x hxk] at hxy
        exact absurd hxy (hunique hy x hxk (hlive x hxk hx))
      · rw [htuple x hxk, htuple y hyk] at hxy
        exact h.unique x y (hlive x hxk hx) (hlive y hyk hy) hxy
  · by_cases hxk : x = k
    · subst hxk
      exact hlistener hx hl
    · rw [htuple x hxk]
      exact h.listener x (hmem x hxk hx) (hstate x hxk ▸ hl)

@[simp] lemma set_order (s : Sock) : (t.set k s).order = t.order := rfl

@[simp] lemma set_born (s : Sock) : (t.set k s).born = t.born := rfl

@[simp] lemma set_self (s : Sock) : (t.set k s).sock k = s := update_self ..

variable {s : Sock}

lemma set_other (h : x ≠ k) : (t.set k s).sock x = t.sock x := update_of_ne h _ _

/-- A change that keeps the addresses and ports and opens no closed socket and no listener. -/
lemma Inv.set (h : Inv t) (htuple : s.tuple = t.tuple k)
    (hclosed : t.state k = .closed → s.pcb.state = .closed)
    (hlisten : s.pcb.state = .listen → t.state k = .listen)
    (hlistened : t.state k = .listen → s.pcb.state = .listen ∨ s.pcb.state = .closed) :
    Inv (t.set k s) := by
  have hself : (t.set k s).state k = s.pcb.state := by rw [Table.state, set_self]
  have htup : (t.set k s).tuple k = t.tuple k := by rw [Table.tuple, set_self, htuple]
  have hnow : (t.set k s).Alive k → t.Alive k := fun ha => ⟨ha.1, fun hc => ha.2 (hself.trans (hclosed hc))⟩
  have hconn : ∀ c, (t.set k s).connected c = t.connected c := fun c => by
    have hall : ∀ x, (t.set k s).tuple x = t.tuple x := fun x => by
      by_cases hx : x = k
      · rw [hx, htup]
      · rw [Table.tuple, set_other hx, Table.tuple]
    rw [connected, connected]
    simp only [hall, set_order]
  refine h.renew (.inl rfl) (fun x hx => set_other hx) (fun _ _ => rfl)
    (fun _ _ _ _ _ => .inr ⟨rfl, htup⟩) (fun c hb ha => ?_) (fun hl x hx hxl => ?_) (fun hin hl => ?_)
  · obtain ⟨hstate, htc, hcc, hport⟩ := h.child k c hb (hnow ha)
    exact ⟨fun hl => hstate (hlisten (hself.symm.trans hl)), htup.trans htc, (hconn c).trans hcc, hport⟩
  · rw [htup]
    refine fun heq => hx (h.unique x k hxl ⟨hnow hl.1, fun hk => ?_⟩ heq)
    rcases hlistened hk with hs | hs
    · exact hl.2 (hself.trans hs)
    · exact hl.1.2 (hself.trans hs)
  · have hk := hlisten (hself.symm.trans hl)
    rw [htup]
    exact h.listener k hin hk

/-- A socket leaves the table. -/
lemma Inv.free (h : Inv t) (k : ℕ) : Inv (t.tcpFree k) := by
  have hmem : ∀ x, x ∈ (t.tcpFree k).order ↔ x ∈ t.order ∧ x ≠ k := fun x => by
    simp [tcpFree]
  have halive : ∀ x, (t.tcpFree k).Alive x → t.Alive x ∧ x ≠ k := fun x hx =>
    ⟨⟨((hmem x).mp hx.1).1, hx.2⟩, ((hmem x).mp hx.1).2⟩
  refine ⟨fun x c hborn hx => ?_, fun x y hx hy => ?_, fun x hx => ?_⟩
  · obtain ⟨hx', hne⟩ := halive x hx
    obtain ⟨hstate, htup, hconn, hport⟩ := h.child x c hborn hx'
    exact ⟨hstate, htup, find?_filter_ne hconn hne.symm, hport⟩
  · exact h.unique x y ⟨(halive x hx.1).1, hx.2⟩ ⟨(halive y hy.1).1, hy.2⟩
  · exact h.listener x ((hmem x).mp hx).1

/-! ## The calls -/

/-- A port that is not taken is no port of a socket that is alive. -/
lemma port_ne (hfree : t.portTaken port = false) (hx : t.Alive x) :
    (t.tuple x).localPort ≠ port := fun heq => by
  rw [portTaken_iff.mpr ⟨x, hx, heq⟩] at hfree
  cases hfree

lemma push_self (s : Sock) (born : Option Tuple) : (t.push k s born).sock k = s := update_self ..

lemma push_other {born : Option Tuple} (h : x ≠ k) :
    (t.push k s born).sock x = t.sock x := update_of_ne h _ _

lemma Inv.alloc (h : Inv t) (k : ℕ) : Inv (t.tcpAlloc k) := by
  have hsock : (t.tcpAlloc k).sock k = zeroSock := push_self zeroSock none
  have htuple : (t.tcpAlloc k).tuple k = ⟨0, 0, 0, 0⟩ := congrArg Sock.tuple hsock
  have hstate : (t.tcpAlloc k).state k = .closed := congrArg (fun s => s.pcb.state) hsock
  have hborn : (t.tcpAlloc k).born k = none := update_self ..
  refine h.renew (.inr rfl) (fun x hx => push_other hx)
    (fun x hx => update_of_ne hx _ _) (fun x c _ hb ha => .inl ?_) (fun c hb _ => ?_)
    (fun hl => absurd hstate hl.1.2) (fun _ hl => ?_)
  · rw [htuple]
    exact fun heq => (h.child x c hb ha).2.2.2 (by rw [← heq])
  · rw [hborn] at hb
    cases hb
  · rw [hstate] at hl
    cases hl

lemma Inv.bind (h : Inv t) {ip : UInt32} (hok : t.ActOk (.bind k ip port)) :
    Inv (t.tcpBind k ip port) := by
  rw [tcpBind]
  split
  · exact h
  case isFalse hfree =>
    obtain ⟨hborn, heph⟩ := hok.resolve_left hfree
    generalize hnew : (if port = 0 then t.eph else port) = new
    have hport : new ≠ 0 ∧ t.portTaken new = false := by
      rw [← hnew]
      split
      case isTrue h0 => exact heph h0
      case isFalse h0 => exact ⟨h0, by simpa using fun ht => hfree ⟨h0, ht⟩⟩
    generalize ht' : (if port = 0 then { t with eph := t.eph + 1 } else t : Table) = t₁
    have ht₁ : t₁.order = t.order ∧ t₁.sock = t.sock ∧ t₁.born = t.born := by
      rw [← ht']
      split <;> exact ⟨rfl, rfl, rfl⟩
    have htuple : (t₁.set k { t.sock k with tuple := { (t.sock k).tuple with
        localIp := ip, localPort := new } }).tuple k =
        { (t.sock k).tuple with localIp := ip, localPort := new } := congrArg Sock.tuple (set_self _)
    refine h.renew (k := k) (.inl ht₁.1) (fun x hx => ?_) (fun x _ => ?_) (fun x c _ hb ha => .inl ?_)
      (fun c hb ha => ?_) (fun _ x _ hx => ?_) (fun _ _ => ?_)
    · rw [set_other hx, ht₁.2.1]
    · rw [set_born, ht₁.2.2]
    · rw [htuple]
      intro heq
      refine port_ne hport.2 ha ?_
      rw [(h.child x c hb ha).2.1, ← heq]
    · rw [set_born, ht₁.2.2] at hb
      refine absurd ⟨?_, ?_⟩ (hborn (by rw [hb]; exact Option.some_ne_none c))
      · rw [← ht₁.1]
        exact ha.1
      · have hs := ha.2
        rw [state, set_self] at hs
        exact hs
    · rw [htuple]
      exact fun heq => port_ne hport.2 hx.1 (by rw [heq])
    · rw [htuple]
      exact hport.1

lemma Inv.listen (h : Inv t) (k : ℕ) : Inv (t.tcpListen k) := by
  rw [tcpListen]
  split
  · exact h
  case isFalse hno =>
    rw [not_or, not_not] at hno
    have hsock : ({ t.setState k .listen with born := update t.born k none } : Table).sock k =
        { t.sock k with pcb := { (t.sock k).pcb with state := .listen } } := update_self ..
    have hstate := congrArg (fun s => s.pcb.state) hsock
    have htuple := congrArg Sock.tuple hsock
    refine h.renew (.inl rfl) (fun x hx => set_other hx) (fun x hx => update_of_ne hx _ _)
      (fun _ _ _ _ _ => .inr ⟨rfl, htuple⟩) (fun c hb _ => ?_) (fun hl => absurd hstate hl.2)
      (fun _ _ => ?_)
    · rw [show ({ t.setState k .listen with born := update t.born k none } : Table).born k = none
        from update_self ..] at hb
      cases hb
    · exact fun heq => hno.2 ((congrArg Tuple.localPort htuple.symm).trans heq)

/-- The port that the loop ends with is free. -/
lemma pickPort_free {taken : UInt16 → Bool} {n : ℕ} {eph : UInt16} {r : UInt16 × UInt16}
    (h : pickPort taken n port eph = some r) : taken r.1 = false := by
  induction n generalizing port eph with
  | zero => cases h
  | succ n ih =>
    rw [pickPort] at h
    split at h
    · exact ih h
    case isFalse hfree =>
      obtain rfl := Option.some.inj h
      simpa using hfree

variable {isn : UInt32}

lemma Inv.connect (h : Inv t) {ip : UInt32} {nif : Option UInt32}
    {nowMs : UInt64} {out : Bool} (hstep : t.tcpConnect k ip port nif isn nowMs out = some t') :
    Inv t' := by
  rw [tcpConnect] at hstep
  split at hstep
  · obtain rfl := Option.some.inj hstep
    exact h
  · obtain ⟨⟨new, eph⟩, hpick, heq⟩ := Option.map_eq_some_iff.mp hstep
    have hfree : t.portTaken new = false := pickPort_free hpick
    have hport : (t'.tuple k).localPort = new := by
      rw [← heq, tuple]
      dsimp only
      rw [update_self]
    have hstate : t'.state k ≠ .listen := by
      rw [← heq, state]
      dsimp only
      rw [update_self]
      dsimp only
      split <;> decide
    have hborn : t'.born k = none := by
      rw [← heq]
      exact update_self ..
    have horder : t'.order = t.order := by rw [← heq]
    refine h.renew (.inl horder) (fun x hx => ?_) (fun x hx => ?_) (fun x c _ hb ha => .inl ?_)
      (fun c hb _ => ?_) (fun _ x _ hx => ?_) (fun _ hl => absurd hl hstate)
    · rw [← heq]
      exact update_of_ne hx _ _
    · rw [← heq]
      exact update_of_ne hx _ _
    · intro htup
      refine port_ne hfree ha ?_
      rw [(h.child x c hb ha).2.1, ← htup, hport]
    · rw [hborn] at hb
      cases hb
    · exact fun htup => port_ne hfree hx.1 ((congrArg Tuple.localPort htup).trans hport)

lemma Inv.setClosed (h : Inv t) (k : ℕ) : Inv (t.setState k .closed) :=
  h.set rfl (fun _ => rfl) (fun hs => State.noConfusion hs) (fun _ => .inr rfl)

lemma Inv.close (h : Inv t) (k : ℕ) (nowMs : UInt64) : Inv (t.tcpClose k nowMs) := by
  rw [tcpClose]
  split
  · exact h
  split
  · exact (h.setClosed k).free k
  case isFalse hclosed hopen =>
    rw [not_or] at hopen
    refine h.set (k := k) rfl (fun hs => absurd hs hclosed) (fun hs => ?_) (fun hs => absurd hs hopen.1)
    dsimp only at hs
    -- with or without a FIN sent at once, the state is the one of the match
    split at hs
    all_goals
      split at hs
      · cases hs
      · cases hs
      · exact hs

variable {p : Pcb}

/-- `tcp_input` closes a connection at most; it makes no listener of it. -/
lemma tcpFin_listen {m : Seg} (h : (tcpFin p m).state = .listen) : p.state = .listen := by
  rw [tcpFin] at h
  split at h
  · cases hp : p.state <;> simp_all
  · exact h

lemma tcpEndings_listen (h : (tcpEndings p).1.state = .listen) : p.state = .listen := by
  rw [tcpEndings] at h
  split_ifs at h
  exact h

lemma tcpTake_state (p : Pcb) (payload : List UInt8) : (tcpTake p payload).state = p.state := by
  unfold tcpTake
  simp only
  split_ifs <;> rfl

lemma tcpInput_listen {m : Seg} (h : (tcpInput p m).1.state = .listen) : p.state = .listen := by
  have hack := (tcpAck_spec p m).state
  unfold tcpInput at h
  split at h
  · exact h
  split at h
  · exact h
  split at h
  · cases h
  split at h
  · cases h
  generalize tcpAck p m = q at hack h
  rw [← hack]
  dsimp only at h
  split at h
  · exact h
  generalize htaken : (if m.payload = [] then q else tcpTake q m.payload) = taken at h
  have htake : taken.state = q.state := by
    rw [← htaken]
    split
    · rfl
    · exact tcpTake_state q m.payload
  rw [← htake]
  split at h
  · exact tcpFin_listen (tcpEndings_listen h)
  split at h
  · exact tcpFin_listen (tcpEndings_listen h)
  · exact tcpFin_listen (tcpEndings_listen h)

/-- What the search finds fits. -/
lemma demux_some {l : ℕ} (h : t.demux c = some l) :
    l ∈ t.order ∧ (t.tuple l).localPort = c.localPort := by
  rw [demux, Option.or_eq_some_iff] at h
  rcases h with hconn | ⟨-, hlisten⟩
  · have hfit : (t.tuple l == c) = true := List.find?_some (p := fun k => t.tuple k == c) hconn
    rw [beq_iff_eq] at hfit
    exact ⟨List.mem_of_find?_eq_some hconn, by rw [hfit]⟩
  · have hfit := List.find?_some hlisten
    simp only [Bool.and_eq_true, beq_iff_eq] at hfit
    exact ⟨List.mem_of_find?_eq_some hlisten, hfit.1.2⟩

/-- A listener spawns a child for the connection of the packet. -/
lemma Inv.spawn (h : Inv t) {l c : ℕ} {m : Packet} {routed : Bool}
    (hl : t.demux m.tuple = some l) (hlisten : t.state l = .listen)
    (hok : (t.sock l).accepted.length < 4 →
      (t.tuple l).localIp = m.dst ∧ ∀ k, t.Live k → t.tuple k ≠ m.tuple) :
    Inv (t.tcpSpawnChild l c m isn routed) := by
  obtain ⟨hmem, hport⟩ := demux_some hl
  rw [tcpSpawnChild]
  split
  case isFalse => exact h
  case isTrue hroom =>
    obtain ⟨hip, hfresh⟩ := hok hroom
    -- the backlog of the listener first, which is no matter of the invariant
    have hset : Inv (t.set l { t.sock l with accepted := (t.sock l).accepted ++ [c] }) :=
      h.set rfl (fun hs => hs) (fun hs => hs) (fun hs => .inl hs)
    have hsame : ∀ x, (t.set l { t.sock l with accepted := (t.sock l).accepted ++ [c] }).tuple x = t.tuple x ∧
        (t.set l { t.sock l with accepted := (t.sock l).accepted ++ [c] }).state x = t.state x := fun x => by
      by_cases hx : x = l
      · subst hx
        rw [tuple, state, set_self]
        exact ⟨rfl, rfl⟩
      · rw [tuple, state, set_other hx]
        exact ⟨rfl, rfl⟩
    have horder : (t.set l { t.sock l with accepted := (t.sock l).accepted ++ [c] }).order = t.order := rfl
    generalize t.set l { t.sock l with accepted := (t.sock l).accepted ++ [c] } = t₁ at hset hsame horder ⊢
    have hlive : ∀ x, t₁.Live x → t₁.tuple x ≠ m.tuple := fun x hx => by
      rw [(hsame x).1]
      exact hfresh x ⟨⟨horder ▸ hx.1.1, (hsame x).2 ▸ hx.1.2⟩, (hsame x).2 ▸ hx.2⟩
    have hnew : (Table.child (t.sock l) m isn routed).tuple = m.tuple := by
      show (⟨(t.tuple l).localIp, (t.tuple l).localPort, m.src, m.srcPort⟩ : Tuple) = m.tuple
      rw [hip, hport]
      rfl
    have htuple : (t₁.push c (Table.child (t.sock l) m isn routed) (some m.tuple)).tuple c = m.tuple := by
      rw [tuple, push_self, hnew]
    have hstate : (t₁.push c (Table.child (t.sock l) m isn routed) (some m.tuple)).state c = .synRcvd := by
      rw [state, push_self]
      rfl
    refine hset.renew (.inr rfl) (fun x hx => push_other hx) (fun x hx => update_of_ne hx _ _)
      (fun x d _ hb ha => .inl ?_) (fun d hb _ => ?_) (fun _ x _ hx => ?_) (fun _ hs => ?_)
    · obtain ⟨hs, htup, -⟩ := hset.child x d hb ha
      rw [htuple]
      exact fun heq => hlive x ⟨ha, hs⟩ (htup.trans heq.symm)
    · have hborn : (t₁.push c (Table.child (t.sock l) m isn routed) (some m.tuple)).born c = some m.tuple :=
        update_self ..
      obtain rfl := Option.some.inj (hborn.symm.trans hb)
      refine ⟨by rw [hstate]; decide, htuple, ?_, ?_⟩
      · exact List.find?_cons_of_pos (by rw [htuple, beq_self_eq_true])
      · rw [← hport]
        exact h.listener l hmem hlisten
    · rw [htuple]
      exact hlive x hx
    · rw [hstate] at hs
      cases hs

lemma Inv.input (h : Inv t) {m : Packet} {new : Option ℕ} {routed : Bool}
    (hok : t.ActOk (.input m new isn routed)) : Inv (t.input m new isn routed) := by
  rw [Table.input]
  split
  · exact h
  case h_2 l hl =>
    split
    case isTrue hlisten =>
      split
      · exact h
      case h_2 c =>
        split
        case isTrue hsyn =>
          exact h.spawn hl hlisten (hok l hl hlisten hsyn.1 hsyn.2 (Option.some_ne_none c))
        case isFalse => exact h
    case isFalse hno =>
      refine h.set rfl (fun hclosed => ?_) (fun hs => absurd (tcpInput_listen hs) hno)
        (fun hs => absurd hs hno)
      rw [tcpInput, if_pos (.inr (show (t.sock l).pcb.state = .closed from hclosed))]
      exact hclosed

/-- Every call keeps the invariant. -/
lemma inv_step {a : TableAct} (h : Inv t) (hok : t.ActOk a) (hstep : TableStep t a t') : Inv t' := by
  cases a with
  | alloc k =>
    rw [hstep.2]
    exact h.alloc k
  | free k =>
    rw [hstep.2]
    exact h.free k
  | bind k ip port =>
    rw [hstep.2]
    exact h.bind hok
  | listen k =>
    rw [hstep.2]
    exact h.listen k
  | connect k ip port nif isn nowMs out => exact h.connect hstep.2
  | giveUp k =>
    obtain ⟨-, hsent, rfl⟩ := hstep
    exact h.setClosed k
  | accept k =>
    rw [hstep.2.2]
    exact h.set rfl (fun hs => hs) (fun hs => hs) (fun hs => .inl hs)
  | close k nowMs =>
    rw [hstep.2]
    exact h.close k nowMs
  | closeEnd k =>
    rw [hstep.2.2]
    exact (h.setClosed k).free k
  | input m new isn routed =>
    rw [hstep.2]
    exact h.input hok
  | transfer k p =>
    obtain ⟨-, hstate, rfl⟩ := hstep
    exact h.set rfl (fun hs => hstate.trans hs) (fun hs => hstate.symm.trans hs)
      (fun hs => .inl (hstate.trans hs))

lemma inv_empty : Inv emptyTable where
  child _ _ hborn := nomatch hborn
  unique _ _ hk := nomatch hk.1.1
  listener _ hk := nomatch hk

/-- Over a run of calls that meet the condition, a living child gets what is sent to it. -/
theorem demux_run {as : List TableAct} (h : Run (Guarded ActOk TableStep) emptyTable as t) : Demux t :=
  (h.invariant (I := Inv) inv_empty fun _ _ _ hinv hstep => inv_step hinv hstep.1 hstep.2).demux

/-- A listener of port 80. -/
def server (ip : UInt32) : Table := ((emptyTable.tcpAlloc 0).tcpBind 0 ip 80).tcpListen 0

lemma server_run (ip : UInt32) : Run (Guarded ActOk TableStep) emptyTable
    [.alloc 0, .bind 0 ip 80, .listen 0] (server ip) := by
  have halloc : Guarded ActOk TableStep emptyTable (.alloc 0) (emptyTable.tcpAlloc 0) :=
    ⟨trivial, by decide, rfl⟩
  have hbind : Guarded ActOk TableStep (emptyTable.tcpAlloc 0) (.bind 0 ip 80)
      ((emptyTable.tcpAlloc 0).tcpBind 0 ip 80) :=
    ⟨.inr ⟨fun hborn => absurd rfl hborn, fun h0 => absurd h0 (by decide)⟩, by decide, rfl⟩
  have hlisten : Guarded ActOk TableStep ((emptyTable.tcpAlloc 0).tcpBind 0 ip 80) (.listen 0) (server ip) :=
    ⟨trivial, List.mem_singleton_self 0, rfl⟩
  exact ((Run.single halloc).snoc hbind).snoc hlisten

/-- A SYN to port 80 of 10.0.2.15. -/
def syn : Packet := ⟨0x0A000202, 0x0A00020F, 4000, 80, ⟨7, 0, ⟨false, true, false, false, false⟩, []⟩⟩

theorem demux_server : Demux ((server 0x0A00020F).input syn (some 1) 1 true) := by
  have hin : Guarded ActOk TableStep (server 0x0A00020F) (.input syn (some 1) 1 true)
      ((server 0x0A00020F).input syn (some 1) 1 true) := by
    refine ⟨fun l hl _ _ _ _ _ => ?_, fun c hc => ?_, rfl⟩
    · have hfound : (server 0x0A00020F).demux syn.tuple = some 0 := by decide
      obtain rfl := Option.some.inj (hfound.symm.trans hl)
      refine ⟨by decide, fun k hk => ?_⟩
      -- the listener is the only socket
      obtain rfl := List.mem_singleton.mp hk.1.1
      exact absurd rfl hk.2
    · obtain rfl := Option.some.inj hc
      decide
  exact demux_run ((server_run 0x0A00020F).snoc hin)

/-- The child of a listener of any address does not get the segments of its connection. -/
theorem any_child_unreached : ¬ ∀ as t, Run TableStep emptyTable as t → Demux t := by
  intro hall
  have hin : TableStep (server IP4_ANY) (.input syn (some 1) 1 true)
      ((server IP4_ANY).input syn (some 1) 1 true) :=
    ⟨fun c hc => by
      obtain rfl := Option.some.inj hc
      decide, rfl⟩
  have hrun := ((server_run IP4_ANY).mono fun _ _ _ h => h.2).snoc hin
  have hchild := (hall _ _ hrun).delivered 1 syn.tuple (by decide) ⟨by decide, by decide⟩
  -- the listener is found
  exact absurd hchild (by decide)

end Table

end Tcp
end Net
end MobilePhoneOs
