import MobilePhoneOs.Fs.Ramfs
import MobilePhoneOs.Lib.Tally
import Mathlib.Data.List.Find

/-!
# When ramfs loses no node

A node is owned by the directory that lists it and by the shells over it. The invariant has a
part for the tree and one for the shells; each call is described by what it does to both, and a
node can get lost in two places only: where a create that links into a directory out of the
tree gets no shell, and where the last shell over a node out of the tree dies.
-/

namespace MobilePhoneOs.Ramfs
namespace Fs

open Function (update update_of_ne update_self)

variable {s s' : Fs}

/-! ## Reachability -/

lemma attached_congr (h : ∀ d, (s'.node d).children = (s.node d).children) (n : NodeId) :
    s'.Attached n ↔ s.Attached n := by
  unfold Attached
  simp only [h]

variable {n : NodeId}

/-- Only the root and listed nodes are reachable. -/
lemma Attached.listed (h : s.Attached n) :
    n = root ∨ ∃ d, s.Attached d ∧ n ∈ (s.node d).children := by
  cases h with
  | refl => exact .inl rfl
  | tail hd hn => exact .inr ⟨_, hd, hn⟩

/-- Below an empty root there is nothing. -/
lemma attached_of_empty (h : (s.node root).children = []) (n : NodeId) :
    s.Attached n ↔ n = root := by
  refine ⟨fun hatt => ?_, fun hn => hn ▸ .refl⟩
  induction hatt with
  | refl => rfl
  | tail _ hn ih =>
    rw [ih, h] at hn
    cases hn

variable {d : NodeId}

/-- A new leaf below `d` is reachable if `d` is, and changes nothing else. -/
lemma attached_link (hnd : n ≠ d)
    (hother : ∀ x, x ≠ d → (s'.node x).children = (s.node x).children)
    (hself : (s'.node d).children = n :: (s.node d).children) (hleaf : (s.node n).children = [])
    (x : NodeId) : s'.Attached x ↔ s.Attached x ∨ (x = n ∧ s.Attached d) := by
  have hmono : ∀ y, s.Attached y → s'.Attached y := by
    intro y hy
    refine Relation.ReflTransGen.mono (fun a b hab => ?_) _ _ hy
    rcases eq_or_ne a d with rfl | ha
    · rw [hself]
      exact List.mem_cons_of_mem n hab
    · rw [hother a ha]
      exact hab
  constructor
  · intro h
    induction h with
    | refl => exact .inl .refl
    | @tail y z hy hz ih =>
      rcases ih with hatt | ⟨rfl, _⟩
      · rcases eq_or_ne y d with rfl | hyd
        · rw [hself] at hz
          rcases List.mem_cons.mp hz with rfl | hold
          · exact .inr ⟨rfl, hatt⟩
          · exact .inl (hatt.tail hold)
        · rw [hother y hyd] at hz
          exact .inl (hatt.tail hz)
      · rw [hother y hnd, hleaf] at hz
        cases hz
  · rintro (hatt | ⟨rfl, hd⟩)
    · exact hmono x hatt
    · refine Relation.ReflTransGen.tail (hmono d hd) ?_
      rw [hself]
      exact List.mem_cons_self

variable {c : NodeId}

/-- Without a leaf that is not the root everything else stays reachable. -/
lemma attached_unlink (hroot : c ≠ root) (hleaf : (s.node c).children = [])
    (hchild : ∀ d x, x ∈ (s'.node d).children ↔ x ∈ (s.node d).children ∧ x ≠ c) (x : NodeId) :
    s'.Attached x ↔ s.Attached x ∧ x ≠ c := by
  constructor
  · intro h
    refine ⟨Relation.ReflTransGen.mono (fun a b hab => ((hchild a b).mp hab).1) _ _ h, ?_⟩
    rcases h.listed with rfl | ⟨d, _, hd⟩
    · exact hroot.symm
    · exact ((hchild d x).mp hd).2
  · rintro ⟨h, hne⟩
    induction h with
    | refl => exact .refl
    | @tail y z hy hz ih =>
      have hyc : y ≠ c := by
        rintro rfl
        rw [hleaf] at hz
        cases hz
      exact (ih hyc).tail ((hchild y z).mpr ⟨hz, hne⟩)

/-! ## The invariant -/

/-- The live shells over a node. -/
def liveOn (s : Fs) (n : NodeId) : ℕ :=
  ∑ v ∈ Finset.range s.nshell, if (s.shell v).refs ≠ 0 ∧ (s.shell v).priv = n then 1 else 0

lemma liveOn_eq_zero : s.liveOn n = 0 ↔ ¬ s.Referenced n := by
  unfold liveOn Referenced Live
  rw [Finset.sum_eq_zero_iff]
  constructor
  · rintro h ⟨v, ⟨hv, hrefs⟩, hpriv⟩
    have hone := h v (Finset.mem_range.mpr hv)
    rw [if_pos ⟨hrefs, hpriv⟩] at hone
    cases hone
  · intro h v hv
    refine if_neg fun hc => h ⟨v, ⟨Finset.mem_range.mp hv, hc.1⟩, hc.2⟩

/-- The lists of children: every entry is a node that exists and is not an orphan, of the
directory that its `parent` says, and listed once. -/
structure Tree (s : Fs) : Prop where
  rootLt : root < s.nnode
  rootIn : (s.node root).orphan = false
  child : ∀ d c, c ∈ (s.node d).children → c < s.nnode ∧ c ≠ root ∧ (s.node c).orphan = false ∧
    (s.node c).parent = some d ∧ (s.node c).frees = 0
  nodup : ∀ d, (s.node d).children.Nodup
  file : ∀ d, (s.node d).type = .file → (s.node d).children = []
  fresh : ∀ d, s.nnode ≤ d → (s.node d).children = []

/-- `vn_live` counts the live shells, and each of these is over a node that exists. -/
structure Shells (s : Fs) : Prop where
  priv : ∀ v, s.Live v → (s.shell v).priv < s.nnode ∧
    (s.shell v).type = (s.node (s.shell v).priv).type
  count : ∀ n, (s.node n).vnLive = s.liveOn n

/-- Every node is reachable from the root or referenced by a live shell, and not freed, or it is
neither, and was freed once. -/
def Law (s : Fs) : Prop := ∀ n < s.nnode,
  (s.Attached n ∨ s.Referenced n) ∧ (s.node n).frees = 0 ∨
    ¬ (s.Attached n ∨ s.Referenced n) ∧ (s.node n).frees = 1

structure Inv (s : Fs) : Prop where
  tree : s.Tree
  shells : s.Shells
  law : s.Law

lemma Tree.not_attached (h : s.Tree) (horphan : (s.node n).orphan = true) :
    ¬ s.Attached n := by
  intro hatt
  rcases hatt.listed with rfl | ⟨d, _, hd⟩
  · rw [h.rootIn] at horphan
    cases horphan
  · rw [(h.child d n hd).2.2.1] at horphan
    cases horphan

lemma Tree.not_attached_fresh (h : s.Tree) (hn : s.nnode ≤ n) : ¬ s.Attached n := by
  intro hatt
  rcases hatt.listed with rfl | ⟨d, _, hd⟩
  · exact Nat.not_le.mpr h.rootLt hn
  · exact Nat.not_le.mpr (h.child d n hd).1 hn

lemma Shells.not_referenced_fresh (h : s.Shells) (hn : s.nnode ≤ n) :
    ¬ s.Referenced n := by
  rintro ⟨v, hv, rfl⟩
  exact Nat.not_le.mpr (h.priv v hv).1 hn

/-! ## Changes that keep the parts -/

/-- The fields of a node that the invariant speaks of. -/
structure SameNode (x y : RamNode) : Prop where
  children : y.children = x.children
  parent : y.parent = x.parent
  orphan : y.orphan = x.orphan
  type : y.type = x.type

lemma SameNode.refl (x : RamNode) : SameNode x x := ⟨rfl, rfl, rfl, rfl⟩

variable {x : RamNode}

/-- A change to one node that leaves the tree alone. -/
lemma Tree.setNode (h : s.Tree) (hx : SameNode (s.node n) x)
    (hfrees : ∀ d, n ∈ (s.node d).children → x.frees = (s.node n).frees) :
    (s.setNode n x).Tree := by
  have hsame : ∀ m, SameNode (s.node m) ((s.setNode n x).node m) := fun m => by
    rcases eq_or_ne m n with rfl | hm
    · rw [setNode_self]
      exact hx
    · rw [setNode_of_ne _ _ hm]
      exact .refl _
  refine ⟨h.rootLt, ?_, ?_, ?_, ?_, ?_⟩
  · rw [(hsame root).orphan]
    exact h.rootIn
  · intro d c hc
    rw [(hsame d).children] at hc
    obtain ⟨hlt, hne, horphan, hparent, hzero⟩ := h.child d c hc
    refine ⟨hlt, hne, (hsame c).orphan.trans horphan, (hsame c).parent.trans hparent, ?_⟩
    rcases eq_or_ne c n with rfl | hcn
    · rw [setNode_self]
      exact (hfrees d hc).trans hzero
    · rw [setNode_of_ne _ _ hcn]
      exact hzero
  · intro d
    rw [(hsame d).children]
    exact h.nodup d
  · intro d hd
    rw [(hsame d).children]
    exact h.file d ((hsame d).type.symm.trans hd)
  · intro d hd
    rw [(hsame d).children]
    exact h.fresh d hd

lemma attached_setNode (hx : SameNode (s.node n) x) (m : NodeId) :
    (s.setNode n x).Attached m ↔ s.Attached m := by
  refine attached_congr (fun d => ?_) m
  rcases eq_or_ne d n with rfl | hd
  · rw [setNode_self]
    exact hx.children
  · rw [setNode_of_ne _ _ hd]

@[simp] lemma referenced_setNode (m : NodeId) :
    (s.setNode n x).Referenced m ↔ s.Referenced m := Iff.rfl

@[simp] lemma liveOn_setNode (m : NodeId) :
    (s.setNode n x).liveOn m = s.liveOn m := rfl

/-- A change to one node that leaves its type and its shell count alone. -/
lemma Shells.setNode (h : s.Shells) (htype : x.type = (s.node n).type)
    (hlive : x.vnLive = (s.node n).vnLive) : (s.setNode n x).Shells := by
  refine ⟨fun v hv => ⟨(h.priv v hv).1, (h.priv v hv).2.trans ?_⟩, fun m => ?_⟩
  · rcases eq_or_ne (s.shell v).priv n with hm | hm
    · show _ = ((s.setNode n x).node (s.shell v).priv).type
      rw [hm, setNode_self, htype]
    · show _ = ((s.setNode n x).node (s.shell v).priv).type
      rw [setNode_of_ne _ _ hm]
  · rcases eq_or_ne m n with rfl | hm
    · rw [setNode_self, liveOn_setNode, hlive]
      exact h.count m
    · rw [setNode_of_ne _ _ hm, liveOn_setNode]
      exact h.count m

/-! ## Shells -/

variable {v : ShellId}

lemma liveOn_setShell (hv : v < s.nshell) (x : Shell) (m : NodeId) :
    (s.setShell v x).liveOn m + (if (s.shell v).refs ≠ 0 ∧ (s.shell v).priv = m then 1 else 0)
      = s.liveOn m + if x.refs ≠ 0 ∧ x.priv = m then 1 else 0 :=
  sum_update_add (Finset.range s.nshell) (fun y : Shell => if y.refs ≠ 0 ∧ y.priv = m then 1 else 0)
    s.shell (Finset.mem_range.mpr hv) x

/-- The shell table with one more entry. -/
def addShell (s : Fs) (x : Shell) : Fs :=
  { s with shell := update s.shell s.nshell x, nshell := s.nshell + 1 }

lemma liveOn_addShell (x : Shell) (m : NodeId) :
    (s.addShell x).liveOn m = s.liveOn m + if x.refs ≠ 0 ∧ x.priv = m then 1 else 0 :=
  sum_update_succ (fun y : Shell => if y.refs ≠ 0 ∧ y.priv = m then 1 else 0) s.shell s.nshell x

lemma live_addShell {x : Shell} (h : (s.addShell x).Live v) :
    s.Live v ∧ (s.addShell x).shell v = s.shell v ∨ (s.addShell x).shell v = x := by
  rcases eq_or_ne v s.nshell with rfl | hne
  · exact .inr (update_self ..)
  · have hsame : (s.addShell x).shell v = s.shell v := update_of_ne hne ..
    have hlt : v < s.nshell + 1 := h.1
    refine .inl ⟨⟨Nat.lt_of_le_of_ne (Nat.le_of_lt_succ hlt) hne, ?_⟩, hsame⟩
    rw [← hsame]
    exact h.2

lemma shellMake_true (s : Fs) (n : NodeId) :
    (shellMake s n true).1 = (s.addShell ⟨(s.node n).type, n, (s.node n).ino, 1⟩).setNode n
      { s.node n with vnLive := (s.node n).vnLive + 1 } := rfl

/-- A new shell over the node `n` refers to it, and nothing else changes. -/
lemma shellMake_spec (h : s.Shells) (hn : n < s.nnode) :
    (shellMake s n true).1.Shells ∧
      ∀ m, (shellMake s n true).1.Referenced m ↔ s.Referenced m ∨ m = n := by
  rw [shellMake_true]
  have hlive : ∀ m, ((s.addShell ⟨(s.node n).type, n, (s.node n).ino, 1⟩).setNode n
      { s.node n with vnLive := (s.node n).vnLive + 1 }).liveOn m
        = s.liveOn m + if n = m then 1 else 0 := fun m => by
    rw [liveOn_setNode, liveOn_addShell]
    simp
  refine ⟨⟨fun v hv => ?_, fun m => ?_⟩, fun m => ?_⟩
  · have htype : ∀ m, (((s.addShell ⟨(s.node n).type, n, (s.node n).ino, 1⟩).setNode n
        { s.node n with vnLive := (s.node n).vnLive + 1 }).node m).type = (s.node m).type := by
      intro m
      rcases eq_or_ne m n with rfl | hm
      · rw [setNode_self]
      · rw [setNode_of_ne _ _ hm]
        rfl
    rcases live_addShell (s := s) hv with ⟨hold, hsame⟩ | hnew
    · rw [setNode_shell, hsame, htype]
      exact h.priv v hold
    · rw [setNode_shell, hnew, htype]
      exact ⟨hn, rfl⟩
  · rw [hlive]
    rcases eq_or_ne m n with rfl | hm
    · rw [setNode_self, if_pos rfl, ← h.count]
    · rw [setNode_of_ne _ _ hm, if_neg hm.symm]
      exact h.count m
  · rw [← not_iff_not, ← liveOn_eq_zero, hlive, not_or, ← liveOn_eq_zero]
    by_cases hm : m = n
    · simp [hm]
    · simp [hm, Ne.symm hm]

lemma shellMake_tree (h : s.Tree) (n : NodeId) (mem : Bool) : (shellMake s n mem).1.Tree := by
  cases mem with
  | false => exact h
  | true =>
    have hadd : (s.addShell ⟨(s.node n).type, n, (s.node n).ino, 1⟩).Tree :=
      ⟨h.rootLt, h.rootIn, h.child, h.nodup, h.file, h.fresh⟩
    rw [shellMake_true]
    exact hadd.setNode ⟨rfl, rfl, rfl, rfl⟩ fun _ _ => rfl

lemma shellMake_attached (n : NodeId) (mem : Bool) (m : NodeId) :
    (shellMake s n mem).1.Attached m ↔ s.Attached m := by
  cases mem with
  | false => exact Iff.rfl
  | true =>
    rw [shellMake_true]
    have hsame : SameNode ((s.addShell ⟨(s.node n).type, n, (s.node n).ino, 1⟩).node n)
        { s.node n with vnLive := (s.node n).vnLive + 1 } := ⟨rfl, rfl, rfl, rfl⟩
    exact attached_setNode hsame m

lemma shellMake_frees (n : NodeId) (mem : Bool) (m : NodeId) :
    ((shellMake s n mem).1.node m).frees = (s.node m).frees := by
  cases mem with
  | false => rfl
  | true =>
    rw [shellMake_true]
    rcases eq_or_ne m n with rfl | hm
    · rw [setNode_self]
    · rw [setNode_of_ne _ _ hm]
      rfl

lemma shellMake_nnode (n : NodeId) (mem : Bool) : (shellMake s n mem).1.nnode = s.nnode := by
  cases mem <;> rfl

/-! ## One call -/

/-- A create that links a node into a directory out of the tree gets a shell for it; and the last
shell over a node dies only when the node is an orphan or in the tree. -/
def Keeps (s : Fs) : Event → Prop
  | .create dir name _ nodeMem shellMem =>
    (s.shell dir).type = .dir ∧ name.length < VFS_NAME_MAX ∧ nodeMem = true ∧
      findChild s (s.shell dir).priv name = none ∧ shellMem = false →
    s.Attached (s.shell dir).priv
  | .unref v =>
    (s.shell v).refs = 1 ∧ (s.node (s.shell v).priv).vnLive = 1 →
    (s.node (s.shell v).priv).orphan = true ∨ s.Attached (s.shell v).priv
  | .lookup _ _ _ | .unlink _ _ | .read _ _ _ | .write _ _ _ _ | .ref _ => True

lemma findChild_some {name : List UInt8} (h : findChild s d name = some c) :
    c ∈ (s.node d).children ∧ (s.node c).name = name :=
  ⟨List.mem_of_find?_eq_some h, by simpa using List.find?_some h⟩

/-- A lookup at most makes a shell over a listed node. -/
lemma Inv.lookup (h : s.Inv) {dir : ShellId} (name : List UInt8) (mem : Bool) :
    (ramfsLookup s dir name mem).1.Inv := by
  unfold ramfsLookup
  split_ifs with htype hname
  · exact h
  · exact h
  split
  · exact h
  next c hc =>
  obtain ⟨hmem, _⟩ := findChild_some hc
  obtain ⟨hlt, _, _, _, hzero⟩ := h.tree.child _ c hmem
  have hmake : (shellMake s c mem).1.Inv := by
    cases mem with
    | false => exact h
    | true =>
      obtain ⟨hshells, href⟩ := shellMake_spec h.shells hlt
      refine ⟨shellMake_tree h.tree c true, hshells, fun m hm => ?_⟩
      rw [shellMake_nnode] at hm
      rw [shellMake_attached, href, shellMake_frees]
      rcases eq_or_ne m c with rfl | hne
      · exact .inl ⟨.inr (.inr rfl), hzero⟩
      · simpa [hne] using h.law m hm
  split
  · next s₁ heq =>
    rw [heq] at hmake
    exact hmake
  · next s₁ v heq =>
    rw [heq] at hmake
    exact hmake

/-- The node `x` is new in `s'`, and nothing knows it yet. -/
structure Fresh (s s' : Fs) (x : RamNode) : Prop where
  node : s'.node = update s.node s.nnode x
  nnode : s'.nnode = s.nnode + 1
  shell : s'.shell = s.shell
  nshell : s'.nshell = s.nshell
  children : x.children = []
  orphan : x.orphan = false
  vnLive : x.vnLive = 0

namespace Fresh

variable {x : RamNode}

section

variable (hf : Fresh s s' x)
include hf

lemma at_new : s'.node s.nnode = x := by
  rw [hf.node, update_self]

lemma at_old {m : NodeId} (hm : m ≠ s.nnode) : s'.node m = s.node m := by
  rw [hf.node, update_of_ne hm]

lemma children_eq (h : s.Tree) (m : NodeId) :
    (s'.node m).children = (s.node m).children := by
  rcases eq_or_ne m s.nnode with rfl | hm
  · rw [hf.at_new, hf.children, h.fresh _ le_rfl]
  · rw [hf.at_old hm]

lemma live_iff (v : ShellId) : s'.Live v ↔ s.Live v := by
  unfold Live
  rw [hf.nshell, hf.shell]

lemma referenced_iff (m : NodeId) : s'.Referenced m ↔ s.Referenced m := by
  unfold Referenced
  simp only [hf.live_iff, hf.shell]

lemma tree (h : s.Tree) : s'.Tree := by
  have hroot : root ≠ s.nnode := h.rootLt.ne
  refine ⟨?_, ?_, ?_, ?_, ?_, ?_⟩
  · rw [hf.nnode]
    exact Nat.lt_succ_of_lt h.rootLt
  · rw [hf.at_old hroot]
    exact h.rootIn
  · intro d c hc
    rw [hf.children_eq h] at hc
    obtain ⟨hlt, hrest⟩ := h.child d c hc
    rw [hf.at_old hlt.ne, hf.nnode]
    exact ⟨Nat.lt_succ_of_lt hlt, hrest⟩
  · intro d
    rw [hf.children_eq h]
    exact h.nodup d
  · intro d hd
    rcases eq_or_ne d s.nnode with rfl | hdn
    · rw [hf.at_new]
      exact hf.children
    · rw [hf.at_old hdn] at hd ⊢
      exact h.file d hd
  · intro d hd
    rw [hf.nnode] at hd
    rw [hf.children_eq h]
    exact h.fresh d (Nat.le_of_succ_le hd)

lemma shells (h : s.Shells) : s'.Shells := by
  refine ⟨fun v hv => ?_, fun m => ?_⟩
  · obtain ⟨hlt, htype⟩ := h.priv v ((hf.live_iff v).mp hv)
    rw [hf.shell, hf.at_old hlt.ne, hf.nnode]
    exact ⟨Nat.lt_succ_of_lt hlt, htype⟩
  · have hlive : s'.liveOn m = s.liveOn m := by
      unfold liveOn
      rw [hf.nshell, hf.shell]
    rw [hlive]
    rcases eq_or_ne m s.nnode with rfl | hm
    · rw [hf.at_new, hf.vnLive]
      exact (liveOn_eq_zero.mpr (h.not_referenced_fresh le_rfl)).symm
    · rw [hf.at_old hm]
      exact h.count m

end

end Fresh

/-- A new node that is listed nowhere goes in front of the children of `d`. -/
def pushChild (s : Fs) (d n : NodeId) : Fs :=
  s.setNode d { s.node d with children := n :: (s.node d).children }

lemma pushChild_node {m : NodeId} (hm : m ≠ d) : (s.pushChild d n).node m = s.node m :=
  setNode_of_ne _ _ hm

lemma pushChild_self (d n : NodeId) :
    (s.pushChild d n).node d = { s.node d with children := n :: (s.node d).children } :=
  setNode_self ..

lemma pushChild_shells (h : s.Shells) (d n : NodeId) : (s.pushChild d n).Shells :=
  h.setNode rfl rfl

lemma pushChild_frees (d n m : NodeId) : ((s.pushChild d n).node m).frees = (s.node m).frees := by
  rcases eq_or_ne m d with rfl | hm
  · rw [pushChild_self]
  · rw [pushChild_node hm]

lemma pushChild_tree (h : s.Tree) (hd : d < s.nnode) (hdir : (s.node d).type = .dir)
    (hn : n < s.nnode) (hroot : n ≠ root) (horphan : (s.node n).orphan = false)
    (hparent : (s.node n).parent = some d) (hfrees : (s.node n).frees = 0)
    (hnew : n ∉ (s.node d).children) : (s.pushChild d n).Tree := by
  have hfields : ∀ m, ((s.pushChild d n).node m).orphan = (s.node m).orphan ∧
      ((s.pushChild d n).node m).parent = (s.node m).parent ∧
      ((s.pushChild d n).node m).type = (s.node m).type := fun m => by
    rcases eq_or_ne m d with rfl | hm
    · rw [pushChild_self]
      exact ⟨rfl, rfl, rfl⟩
    · rw [pushChild_node hm]
      exact ⟨rfl, rfl, rfl⟩
  refine ⟨h.rootLt, ?_, ?_, ?_, ?_, ?_⟩
  · rw [(hfields root).1]
    exact h.rootIn
  · intro e c hc
    rw [(hfields c).1, (hfields c).2.1, pushChild_frees]
    rcases eq_or_ne e d with rfl | he
    · rw [pushChild_self] at hc
      rcases List.mem_cons.mp hc with rfl | hold
      · exact ⟨hn, hroot, horphan, hparent, hfrees⟩
      · exact h.child e c hold
    · rw [pushChild_node he] at hc
      exact h.child e c hc
  · intro e
    rcases eq_or_ne e d with rfl | he
    · rw [pushChild_self]
      exact List.nodup_cons.mpr ⟨hnew, h.nodup e⟩
    · rw [pushChild_node he]
      exact h.nodup e
  · intro e he
    rw [(hfields e).2.2] at he
    rcases eq_or_ne e d with rfl | hne
    · rw [hdir] at he
      cases he
    · rw [pushChild_node hne]
      exact h.file e he
  · intro e he
    have hne : e ≠ d := fun hed => Nat.not_le.mpr hd (hed ▸ he)
    rw [pushChild_node hne]
    exact h.fresh e he

lemma fresh_alloc (s : Fs) : Fresh s (allocNode s) .zero :=
  ⟨rfl, rfl, rfl, rfl, rfl, rfl, rfl⟩

/-- The filled node before it is linked. -/
def filled (s : Fs) (d : NodeId) (name : List UInt8) (t : Vtype) : Fs :=
  { allocNode s with nextIno := s.nextIno + 1 }.setNode s.nnode
    { (allocNode s).node s.nnode with
      name := name, type := t, parent := some d, ino := s.nextIno + 1 }

lemma fresh_filled (s : Fs) (d : NodeId) (name : List UInt8) (t : Vtype) :
    Fresh s (s.filled d name t) { RamNode.zero with
      name := name, type := t, parent := some d, ino := s.nextIno + 1 } where
  node := by
    have hzero := (fresh_alloc s).at_new
    show update (update s.node s.nnode _) s.nnode _ = _
    rw [Function.update_idem, hzero]
  nnode := rfl
  shell := rfl
  nshell := rfl
  children := rfl
  orphan := rfl
  vnLive := rfl

lemma linkNode_eq (s : Fs) (d : NodeId) (name : List UInt8) (t : Vtype) :
    linkNode (allocNode s) d s.nnode name t = (s.filled d name t).pushChild d s.nnode := rfl

/-- Looking a name up does not see a node that is listed nowhere. -/
lemma findChild_alloc (h : s.Tree) (d : NodeId) (name : List UInt8) :
    findChild (allocNode s) d name = findChild s d name := by
  unfold findChild
  rw [(fresh_alloc s).children_eq h]
  refine List.find?_congr fun c hc => ?_
  rw [(fresh_alloc s).at_old (h.child d c hc).1.ne]

/-- The node is linked into `d`: in the tree it is where `d` is, and no shell is over it. -/
lemma linked_spec (h : s.Inv) (hd : d < s.nnode) (hdir : (s.node d).type = .dir)
    (name : List UInt8) (t : Vtype) :
    let s' := linkNode (allocNode s) d s.nnode name t
    s'.Tree ∧ s'.Shells ∧ s'.nnode = s.nnode + 1 ∧
      (∀ m, s'.Attached m ↔ s.Attached m ∨ (m = s.nnode ∧ s.Attached d)) ∧
      (∀ m, s'.Referenced m ↔ s.Referenced m) ∧ (s'.node s.nnode).frees = 0 ∧
      ∀ m, m ≠ s.nnode → (s'.node m).frees = (s.node m).frees := by
  have hf := fresh_filled s d name t
  have htree := hf.tree h.tree
  have hlt : s.nnode < (s.filled d name t).nnode := hf.nnode ▸ Nat.lt_succ_self s.nnode
  have hnew : s.nnode ∉ ((s.filled d name t).node d).children := by
    rw [hf.children_eq h.tree]
    exact fun hmem => absurd (h.tree.child d s.nnode hmem).1 (lt_irrefl _)
  rw [linkNode_eq]
  refine ⟨pushChild_tree htree (lt_trans hd hlt) ?_ hlt h.tree.rootLt.ne' ?_ ?_ ?_ hnew,
    pushChild_shells (hf.shells h.shells) d s.nnode, hf.nnode, fun m => ?_, hf.referenced_iff, ?_,
    fun m hm => ?_⟩
  · rw [hf.at_old hd.ne]
    exact hdir
  · rw [hf.at_new]
    rfl
  · rw [hf.at_new]
  · rw [hf.at_new]
    rfl
  · refine attached_link hd.ne' (fun x hx => ?_) ?_ (h.tree.fresh _ le_rfl) m
    · rw [pushChild_node hx, hf.children_eq h.tree]
    · rw [pushChild_self, hf.children_eq h.tree]
  · rw [pushChild_frees, hf.at_new]
    rfl
  · rw [pushChild_frees, hf.at_old hm]

/-- A create that finds the name links nothing and frees its node; one that does not links it,
and keeps the law unless the directory is out of the tree and there is no shell. -/
lemma Inv.create (h : s.Inv) {dir : ShellId} (hlive : s.Live dir) (name : List UInt8) (t : Vtype)
    (nodeMem shellMem : Bool) :
    ((ramfsCreate s dir name t nodeMem shellMem).1.Law
        ↔ s.Keeps (.create dir name t nodeMem shellMem)) ∧
      (s.Keeps (.create dir name t nodeMem shellMem) →
        (ramfsCreate s dir name t nodeMem shellMem).1.Inv) := by
  have hfound := findChild_alloc h.tree (s.shell dir).priv name
  obtain ⟨hpriv, htype⟩ := h.shells.priv dir hlive
  simp only [Keeps, ramfsCreate]
  split_ifs with hdir hname hmem
  · exact ⟨⟨fun _ hc => absurd hc.1 hdir, fun _ => h.law⟩, fun _ => h⟩
  · exact ⟨⟨fun _ hc => absurd hc.2.1 (Nat.not_lt.mpr hname), fun _ => h.law⟩, fun _ => h⟩
  · exact ⟨⟨fun _ hc => by rw [hmem] at hc; exact absurd hc.2.2.1 Bool.false_ne_true,
      fun _ => h.law⟩, fun _ => h⟩
  rw [not_not] at hdir
  rw [Nat.not_le] at hname
  rw [Bool.not_eq_false] at hmem
  rw [hfound]
  cases hfind : findChild s (s.shell dir).priv name with
  | some c =>
    -- the name is taken: the node is freed before anybody has seen it
    have hf := fresh_alloc s
    have hsame : SameNode ((allocNode s).node s.nnode)
        { (allocNode s).node s.nnode with frees := ((allocNode s).node s.nnode).frees + 1 } :=
      ⟨rfl, rfl, rfl, rfl⟩
    have hlisted : ∀ d, s.nnode ∉ ((allocNode s).node d).children := fun d hmem => by
      rw [hf.children_eq h.tree] at hmem
      exact absurd (h.tree.child d s.nnode hmem).1 (lt_irrefl _)
    have hinv : (freeNode (allocNode s) s.nnode).Inv := by
      refine ⟨(hf.tree h.tree).setNode hsame fun d hmem => absurd hmem (hlisted d),
        (hf.shells h.shells).setNode rfl rfl, fun m hm => ?_⟩
      have hatt : (freeNode (allocNode s) s.nnode).Attached m ↔ s.Attached m :=
        (attached_setNode hsame m).trans (attached_congr (hf.children_eq h.tree) m)
      have href : (freeNode (allocNode s) s.nnode).Referenced m ↔ s.Referenced m :=
        hf.referenced_iff m
      rw [hatt, href]
      rcases eq_or_ne m s.nnode with rfl | hne
      · refine .inr ⟨?_, ?_⟩
        · rw [not_or]
          exact ⟨h.tree.not_attached_fresh le_rfl, h.shells.not_referenced_fresh le_rfl⟩
        · rw [freeNode, setNode_self, hf.at_new]
          rfl
      · rw [freeNode, setNode_of_ne _ _ hne, hf.at_old hne]
        exact h.law m (Nat.lt_of_le_of_ne (Nat.le_of_lt_succ hm) hne)
    exact ⟨⟨fun _ hc => absurd hc.2.2.2.1 nofun, fun _ => hinv.law⟩, fun _ => hinv⟩
  | none =>
    obtain ⟨htree, hshells, hnnode, hatt, href, hnew, hold⟩ :=
      linked_spec h hpriv (htype.symm.trans hdir) name t
    have hlt : s.nnode < (linkNode (allocNode s) (s.shell dir).priv s.nnode name t).nnode := by
      rw [hnnode]
      exact Nat.lt_succ_self _
    have hgone : ¬ s.Attached s.nnode ∧ ¬ s.Referenced s.nnode :=
      ⟨h.tree.not_attached_fresh le_rfl, h.shells.not_referenced_fresh le_rfl⟩
    generalize linkNode (allocNode s) (s.shell dir).priv s.nnode name t = s₁
      at htree hshells hnnode hatt href hnew hold hlt
    -- the other nodes are as they were
    have hothers : ∀ m < s₁.nnode, m ≠ s.nnode →
        (s.Attached m ∨ s.Referenced m) ∧ (s₁.node m).frees = 0 ∨
          ¬ (s.Attached m ∨ s.Referenced m) ∧ (s₁.node m).frees = 1 := by
      intro m hm hne
      rw [hold m hne]
      rw [hnnode] at hm
      exact h.law m (Nat.lt_of_le_of_ne (Nat.le_of_lt_succ hm) hne)
    cases shellMem with
    | false =>
      have hlaw : s₁.Law ↔ s.Attached (s.shell dir).priv := by
        constructor
        · intro hlaw
          rcases hlaw s.nnode hlt with ⟨hin, _⟩ | ⟨_, hone⟩
          · rw [hatt, href] at hin
            tauto
          · rw [hnew] at hone
            cases hone
        · intro hd m hm
          rw [hatt, href]
          rcases eq_or_ne m s.nnode with rfl | hne
          · exact .inl ⟨.inl (.inr ⟨rfl, hd⟩), hnew⟩
          · simpa [hne] using hothers m hm hne
      refine ⟨⟨fun hl _ => hlaw.mp hl, fun hkeep => hlaw.mpr ?_⟩, fun hkeep => ?_⟩
      · exact hkeep ⟨hdir, hname, hmem, rfl, rfl⟩
      · exact ⟨htree, hshells, hlaw.mpr (hkeep ⟨hdir, hname, hmem, rfl, rfl⟩)⟩
    | true =>
      obtain ⟨hshells', href'⟩ := shellMake_spec hshells hlt
      have hinv : (shellMake s₁ s.nnode true).1.Inv := by
        refine ⟨shellMake_tree htree s.nnode true, hshells', fun m hm => ?_⟩
        rw [shellMake_nnode] at hm
        rw [shellMake_attached, href', hatt, href, shellMake_frees]
        rcases eq_or_ne m s.nnode with rfl | hne
        · exact .inl ⟨.inr (.inr rfl), hnew⟩
        · simpa [hne] using hothers m hm hne
      exact ⟨⟨fun _ hc => absurd hc.2.2.2.2 Bool.noConfusion, fun _ => hinv.law⟩,
        fun _ => hinv⟩

/-- An orphan without shells is freed; the rest of the state does not notice. -/
lemma freeNode_frees (n m : NodeId) :
    ((freeNode s n).node m).frees = (s.node m).frees + if m = n then 1 else 0 := by
  unfold freeNode
  rcases eq_or_ne m n with rfl | hm
  · rw [setNode_self, if_pos rfl]
  · rw [setNode_of_ne _ _ hm, if_neg hm, Nat.add_zero]

lemma freeNode_attached (n m : NodeId) : (freeNode s n).Attached m ↔ s.Attached m := by
  have hsame : SameNode (s.node n) { s.node n with frees := (s.node n).frees + 1 } :=
    ⟨rfl, rfl, rfl, rfl⟩
  exact attached_setNode hsame m

lemma eraseP_eq_erase {p : NodeId → Bool} {l : List NodeId}
    (h : l.find? p = some c) : l.eraseP p = l.erase c := by
  induction l with
  | nil => cases h
  | cons x l ih =>
    rw [List.find?_cons] at h
    cases hp : p x with
    | true =>
      rw [hp] at h
      obtain rfl := Option.some.inj h
      rw [List.eraseP_cons_of_pos hp, List.erase_cons_head]
    | false =>
      rw [hp] at h
      have hc : p c = true := List.find?_some h
      have hne : x ≠ c := by
        rintro rfl
        rw [hp] at hc
        cases hc
      rw [List.eraseP_cons_of_neg (by simp [hp]), ih h, List.erase_cons_tail (by simpa using hne)]

lemma detach_d {name : List UInt8} (hcd : c ≠ d)
    (hfind : findChild s d name = some c) :
    (detach s d c name).node d
      = { s.node d with children := (s.node d).children.erase c } := by
  unfold detach
  rw [setNode_of_ne _ _ hcd.symm, setNode_self, eraseP_eq_erase hfind]

lemma detach_c (name : List UInt8) (hcd : c ≠ d) :
    (detach s d c name).node c = { s.node c with parent := none, orphan := true } := by
  unfold detach
  rw [setNode_self, setNode_of_ne _ _ hcd]

lemma detach_of_ne {m : NodeId} (name : List UInt8) (hd : m ≠ d) (hc : m ≠ c) :
    (detach s d c name).node m = s.node m := by
  unfold detach
  rw [setNode_of_ne _ _ hc, setNode_of_ne _ _ hd]

section Unlink

variable {d c : NodeId} {name : List UInt8}

/-- The fields that taking a child off its list does not touch. -/
lemma detach_fields (hcd : c ≠ d) (hfind : findChild s d name = some c) (m : NodeId) :
    ((detach s d c name).node m).type = (s.node m).type ∧
      ((detach s d c name).node m).vnLive = (s.node m).vnLive ∧
      ((detach s d c name).node m).frees = (s.node m).frees ∧
      (m ≠ c → ((detach s d c name).node m).orphan = (s.node m).orphan ∧
        ((detach s d c name).node m).parent = (s.node m).parent) := by
  rcases eq_or_ne m d with rfl | hd
  · rw [detach_d hcd hfind]
    exact ⟨rfl, rfl, rfl, fun _ => ⟨rfl, rfl⟩⟩
  · rcases eq_or_ne m c with rfl | hc
    · rw [detach_c name hcd]
      exact ⟨rfl, rfl, rfl, fun hne => absurd rfl hne⟩
    · rw [detach_of_ne name hd hc]
      exact ⟨rfl, rfl, rfl, fun _ => ⟨rfl, rfl⟩⟩

/-- The lists lose the child, and nothing else. -/
lemma mem_detach (h : s.Tree) (hcd : c ≠ d) (hfind : findChild s d name = some c) (e x : NodeId) :
    x ∈ ((detach s d c name).node e).children ↔ x ∈ (s.node e).children ∧ x ≠ c := by
  have hparent := (h.child d c (findChild_some hfind).1).2.2.2.1
  rcases eq_or_ne e d with rfl | hd
  · rw [detach_d hcd hfind]
    exact ((h.nodup e).mem_erase_iff).trans and_comm
  · have hsame : ((detach s d c name).node e).children = (s.node e).children := by
      rcases eq_or_ne e c with rfl | hc
      · rw [detach_c name hcd]
      · rw [detach_of_ne name hd hc]
    rw [hsame]
    refine ⟨fun hx => ⟨hx, ?_⟩, fun hx => hx.1⟩
    -- only one directory lists it
    rintro rfl
    have hother := (h.child e x hx).2.2.2.1
    exact hd (Option.some.inj (hother.symm.trans hparent))

lemma detach_tree (h : s.Tree) (hcd : c ≠ d) (hfind : findChild s d name = some c) :
    (detach s d c name).Tree := by
  have hmem := fun e x => mem_detach h hcd hfind e x
  have hfields := fun m => detach_fields hcd hfind m
  have hroot := (h.child d c (findChild_some hfind).1).2.1
  have hempty : ∀ e, (s.node e).children = [] → ((detach s d c name).node e).children = [] :=
    fun e he => List.eq_nil_iff_forall_not_mem.mpr fun x hx => by
      have hx := ((hmem e x).mp hx).1
      rw [he] at hx
      cases hx
  refine ⟨h.rootLt, ?_, ?_, ?_, ?_, ?_⟩
  · rw [((hfields root).2.2.2 hroot.symm).1]
    exact h.rootIn
  · intro e x hx
    obtain ⟨hx, hne⟩ := (hmem e x).mp hx
    rw [((hfields x).2.2.2 hne).1, ((hfields x).2.2.2 hne).2, (hfields x).2.2.1]
    exact h.child e x hx
  · intro e
    rcases eq_or_ne e d with rfl | hd
    · rw [detach_d hcd hfind]
      exact (h.nodup e).erase c
    · rcases eq_or_ne e c with rfl | hc
      · rw [detach_c name hcd]
        exact h.nodup e
      · rw [detach_of_ne name hd hc]
        exact h.nodup e
  · intro e he
    rw [(hfields e).1] at he
    exact hempty e (h.file e he)
  · exact fun e he => hempty e (h.fresh e he)

lemma detach_shells (h : s.Shells) (hcd : c ≠ d) (hfind : findChild s d name = some c) :
    (detach s d c name).Shells := by
  have hfields := fun m => detach_fields hcd hfind m
  refine ⟨fun v hv => ⟨(h.priv v hv).1, ?_⟩, fun m => ?_⟩
  · rw [(hfields _).1]
    exact (h.priv v hv).2
  · rw [(hfields m).2.1]
    exact h.count m

/-- The child that is taken off its list is an orphan now, and is freed at once if no shell is
over it. -/
lemma Inv.detach (h : s.Inv) (hfind : findChild s d name = some c)
    (hleaf : (s.node c).children = []) : (dropNode (detach s d c name) c).Inv := by
  have hlisted := (findChild_some hfind).1
  have hcd : c ≠ d := by
    rintro rfl
    rw [hleaf] at hlisted
    cases hlisted
  obtain ⟨hlt, hroot, _, _, hzero⟩ := h.tree.child d c hlisted
  have htree := detach_tree h.tree hcd hfind
  have hshells := detach_shells h.shells hcd hfind
  have horphan : ((Ramfs.detach s d c name).node c).orphan = true := by
    rw [detach_c name hcd]
  have hatt : ∀ m, (Ramfs.detach s d c name).Attached m ↔ s.Attached m ∧ m ≠ c :=
    attached_unlink hroot hleaf fun e x => mem_detach h.tree hcd hfind e x
  have hfields := fun m => detach_fields hcd hfind m
  have hcount := h.shells.count c
  unfold dropNode
  split_ifs with hdrop
  · -- no shell: freed here
    have hnone : ¬ s.Referenced c := by
      rw [← liveOn_eq_zero, ← hcount, ← (hfields c).2.1]
      exact hdrop.2
    refine ⟨htree.setNode ⟨rfl, rfl, rfl, rfl⟩ fun e hmem => ?_, hshells.setNode rfl rfl,
      fun m hm => ?_⟩
    · rw [(htree.child e c hmem).2.2.1] at horphan
      cases horphan
    · have hatt' : (freeNode (Ramfs.detach s d c name) c).Attached m ↔ s.Attached m ∧ m ≠ c :=
        (freeNode_attached c m).trans (hatt m)
      have href : (freeNode (Ramfs.detach s d c name) c).Referenced m ↔ s.Referenced m := Iff.rfl
      rw [hatt', href, freeNode_frees, (hfields m).2.2.1]
      rcases eq_or_ne m c with rfl | hne
      · rw [if_pos rfl, hzero]
        simp [hnone]
      · simpa [hne] using h.law m hm
  · have hsome : s.Referenced c := by
      by_contra hnone
      rw [← liveOn_eq_zero, ← hcount] at hnone
      exact hdrop ⟨horphan, (hfields c).2.1.trans hnone⟩
    refine ⟨htree, hshells, fun m hm => ?_⟩
    have href : (Ramfs.detach s d c name).Referenced m ↔ s.Referenced m := Iff.rfl
    rw [hatt, href, (hfields m).2.2.1]
    rcases eq_or_ne m c with rfl | hne
    · exact .inl ⟨.inr hsome, hzero⟩
    · simpa [hne] using h.law m hm

end Unlink

lemma Inv.unlink (h : s.Inv) (dir : ShellId) (name : List UInt8) :
    (ramfsUnlink s dir name).1.Inv := by
  unfold ramfsUnlink
  split_ifs with hdir
  · exact h
  dsimp only
  split
  · exact h
  next c hfind =>
  split_ifs with hfull
  · exact h
  · refine h.detach hfind ?_
    cases htype : (s.node c).type with
    | file => exact h.tree.file c htype
    | dir => exact not_not.mp fun hne => hfull ⟨htype, hne⟩

/-! ## References -/

/-- A write changes the data of its node. -/
lemma Inv.write (h : s.Inv) (v : ShellId) (off : ℕ) (src : List UInt8) (mem : Bool) :
    (ramfsWrite s v off src mem).1.Inv := by
  have hset : ∀ x : RamNode, SameNode (s.node (s.shell v).priv) x →
      x.vnLive = (s.node (s.shell v).priv).vnLive → x.frees = (s.node (s.shell v).priv).frees →
      (s.setNode (s.shell v).priv x).Inv := by
    intro x hx hlive hfrees
    refine ⟨h.tree.setNode hx fun _ _ => hfrees, h.shells.setNode hx.type hlive, fun m hm => ?_⟩
    rw [attached_setNode hx, referenced_setNode]
    rcases eq_or_ne m (s.shell v).priv with rfl | hne
    · rw [setNode_self, hfrees]
      exact h.law _ hm
    · rw [setNode_of_ne _ _ hne]
      exact h.law m hm
  unfold ramfsWrite
  dsimp only
  split_ifs
  all_goals first | exact h | exact hset _ ⟨rfl, rfl, rfl, rfl⟩ rfl rfl

/-- The shells other than `v`, and `v` if it lives on. -/
lemma live_setShell {w : ShellId} {x : Shell} :
    (s.setShell v x).Live w ↔ if w = v then v < s.nshell ∧ x.refs ≠ 0 else s.Live w := by
  unfold Live
  rcases eq_or_ne w v with rfl | hw
  · rw [if_pos rfl, setShell_self]
    rfl
  · rw [if_neg hw, setShell_of_ne _ _ hw]
    rfl

/-- A change to the references of a live shell that stays live. -/
lemma Inv.setRefs (h : s.Inv) (hlive : s.Live v) {r : ℕ} (hr : r ≠ 0) :
    (s.setShell v { s.shell v with refs := r }).Inv := by
  have hpriv : ∀ w, ((s.setShell v { s.shell v with refs := r }).shell w).priv = (s.shell w).priv ∧
      ((s.setShell v { s.shell v with refs := r }).shell w).type = (s.shell w).type := fun w => by
    rcases eq_or_ne w v with rfl | hw
    · rw [setShell_self]
      exact ⟨rfl, rfl⟩
    · rw [setShell_of_ne _ _ hw]
      exact ⟨rfl, rfl⟩
  have hsame : ∀ w, (s.setShell v { s.shell v with refs := r }).Live w ↔ s.Live w := fun w => by
    rw [live_setShell]
    split_ifs with hw
    · rw [hw]
      exact ⟨fun _ => hlive, fun _ => ⟨hlive.1, hr⟩⟩
    · rfl
  have href : ∀ m, (s.setShell v { s.shell v with refs := r }).Referenced m ↔ s.Referenced m :=
    fun m => by
      unfold Referenced
      simp only [hsame, (hpriv _).1]
  refine ⟨⟨h.tree.rootLt, h.tree.rootIn, h.tree.child, h.tree.nodup, h.tree.file, h.tree.fresh⟩,
    ⟨fun w hw => ?_, fun m => ?_⟩, fun m hm => ?_⟩
  · rw [(hpriv w).1, (hpriv w).2]
    exact h.shells.priv w ((hsame w).mp hw)
  · have hcount := liveOn_setShell hlive.1 { s.shell v with refs := r } m
    have hold := h.shells.count m
    have hrefs := hlive.2
    simp only [hrefs, hr, ne_eq, not_false_eq_true, true_and] at hcount
    exact hold.trans (Nat.add_right_cancel hcount).symm
  · rw [href]
    exact h.law m hm

/-- One shell over the node `n` less. -/
def dropShell (s : Fs) (v : ShellId) : Fs :=
  (s.setShell v { s.shell v with refs := 0 }).setNode (s.shell v).priv
    { s.node (s.shell v).priv with vnLive := (s.node (s.shell v).priv).vnLive - 1 }

/-- The last shell of a node takes its reference along. -/
lemma dropShell_spec (h : s.Inv) (hlive : s.Live v) :
    (s.dropShell v).Tree ∧ (s.dropShell v).Shells ∧
      (∀ m, (s.dropShell v).Attached m ↔ s.Attached m) ∧
      (∀ m, m ≠ (s.shell v).priv → ((s.dropShell v).Referenced m ↔ s.Referenced m)) ∧
      ((s.dropShell v).Referenced (s.shell v).priv
        ↔ (s.node (s.shell v).priv).vnLive ≠ 1) ∧
      ∀ m, ((s.dropShell v).node m).frees = (s.node m).frees ∧
        ((s.dropShell v).node m).orphan = (s.node m).orphan := by
  have htree₀ : (s.setShell v { s.shell v with refs := 0 }).Tree :=
    ⟨h.tree.rootLt, h.tree.rootIn, h.tree.child, h.tree.nodup, h.tree.file, h.tree.fresh⟩
  have hsame : SameNode (s.node (s.shell v).priv) { s.node (s.shell v).priv with
    vnLive := (s.node (s.shell v).priv).vnLive - 1 } := ⟨rfl, rfl, rfl, rfl⟩
  have hon : ∀ m, (s.dropShell v).liveOn m + (if (s.shell v).priv = m then 1 else 0)
      = s.liveOn m := fun m => by
    have hcount := liveOn_setShell hlive.1 { s.shell v with refs := 0 } m
    simp only [hlive.2, ne_eq, not_false_eq_true, true_and, not_true_eq_false, false_and,
      if_false, Nat.add_zero] at hcount
    exact hcount
  have hfields : ∀ m, ((s.dropShell v).node m).frees = (s.node m).frees ∧
      ((s.dropShell v).node m).orphan = (s.node m).orphan ∧
      ((s.dropShell v).node m).type = (s.node m).type ∧
      (m ≠ (s.shell v).priv → ((s.dropShell v).node m).vnLive = (s.node m).vnLive) := fun m => by
    rcases eq_or_ne m (s.shell v).priv with rfl | hm
    · rw [dropShell, setNode_self]
      exact ⟨rfl, rfl, rfl, fun hne => absurd rfl hne⟩
    · rw [dropShell, setNode_of_ne _ _ hm]
      exact ⟨rfl, rfl, rfl, fun _ => rfl⟩
  refine ⟨htree₀.setNode hsame fun _ _ => rfl, ⟨fun w hw => ?_, fun m => ?_⟩,
    attached_setNode (s := s.setShell v { s.shell v with refs := 0 }) hsame, fun m hm => ?_, ?_,
    fun m => ⟨(hfields m).1, (hfields m).2.1⟩⟩
  · rw [(hfields _).2.2.1]
    have hw' : (s.setShell v { s.shell v with refs := 0 }).Live w := hw
    rw [live_setShell] at hw'
    rcases eq_or_ne w v with rfl | hne
    · rw [if_pos rfl] at hw'
      exact absurd rfl hw'.2
    · rw [if_neg hne] at hw'
      have hshell : (s.dropShell v).shell w = s.shell w := setShell_of_ne _ _ hne
      rw [hshell]
      exact h.shells.priv w hw'
  · have hcount := hon m
    have hold := h.shells.count m
    rcases eq_or_ne m (s.shell v).priv with rfl | hm
    · rw [if_pos rfl] at hcount
      rw [dropShell, setNode_self]
      show (s.node (s.shell v).priv).vnLive - 1 = (s.dropShell v).liveOn (s.shell v).priv
      omega
    · rw [if_neg hm.symm, Nat.add_zero] at hcount
      rw [(hfields m).2.2.2 hm, hcount]
      exact hold
  · have hcount := hon m
    rw [if_neg hm.symm, Nat.add_zero] at hcount
    rw [← not_iff_not, ← liveOn_eq_zero, ← liveOn_eq_zero, hcount]
  · have hcount := hon (s.shell v).priv
    have hold := h.shells.count (s.shell v).priv
    rw [if_pos rfl] at hcount
    rw [← not_iff_not, ← liveOn_eq_zero, not_not]
    omega

/-- The last reference to a shell goes: its node keeps the law if another shell is over it, if it
is an orphan, which is freed now, or if it is in the tree. -/
lemma Inv.drop (h : s.Inv) (hlive : s.Live v) :
    ((ramfsDestroy (s.setShell v { s.shell v with refs := 0 }) (s.shell v).priv).Law ↔
      ((s.node (s.shell v).priv).vnLive = 1 →
        (s.node (s.shell v).priv).orphan = true ∨ s.Attached (s.shell v).priv)) ∧
      ((ramfsDestroy (s.setShell v { s.shell v with refs := 0 }) (s.shell v).priv).Law →
        (ramfsDestroy (s.setShell v { s.shell v with refs := 0 }) (s.shell v).priv).Inv) := by
  obtain ⟨htree, hshells, hatt, hother, hself, hfields⟩ := dropShell_spec h hlive
  have hunfold : ramfsDestroy (s.setShell v { s.shell v with refs := 0 }) (s.shell v).priv
      = if (s.node (s.shell v).priv).vnLive - 1 = 0 ∧
          (s.node (s.shell v).priv).orphan = true then freeNode (s.dropShell v) (s.shell v).priv
        else s.dropShell v := rfl
  have hlt := (h.shells.priv v hlive).1
  have hlt' : (s.shell v).priv < (s.dropShell v).nnode := hlt
  have hreferenced : s.Referenced (s.shell v).priv := ⟨v, hlive, rfl⟩
  have hpos : (s.node (s.shell v).priv).vnLive ≠ 0 := by
    rw [h.shells.count, Ne, liveOn_eq_zero, not_not]
    exact hreferenced
  have hzero : (s.node (s.shell v).priv).frees = 0 := by
    rcases h.law _ hlt with ⟨_, hz⟩ | ⟨hnot, _⟩
    · exact hz
    · exact absurd (.inr hreferenced) hnot
  -- the other nodes are as they were
  have hothers : ∀ m < (s.dropShell v).nnode, m ≠ (s.shell v).priv →
      ((s.dropShell v).Attached m ∨ (s.dropShell v).Referenced m) ∧
          ((s.dropShell v).node m).frees = 0 ∨
        ¬ ((s.dropShell v).Attached m ∨ (s.dropShell v).Referenced m) ∧
          ((s.dropShell v).node m).frees = 1 := by
    intro m hm hne
    rw [hatt, hother m hne, (hfields m).1]
    exact h.law m hm
  rw [hunfold]
  generalize (s.shell v).priv = n at *
  generalize s.dropShell v = s₁ at *
  split_ifs with hfree
  · have hlaw : (freeNode s₁ n).Law := by
      intro m hm
      have hatt' := freeNode_attached (s := s₁) n m
      have href' : (freeNode s₁ n).Referenced m ↔ s₁.Referenced m := Iff.rfl
      rw [hatt', href', freeNode_frees]
      rcases eq_or_ne m n with rfl | hne
      · refine .inr ⟨?_, ?_⟩
        · rw [not_or, hatt, hself]
          refine ⟨h.tree.not_attached hfree.2, ?_⟩
          omega
        · rw [(hfields m).1, hzero, if_pos rfl]
      · rw [if_neg hne, Nat.add_zero]
        exact hothers m hm hne
    have hinv : (freeNode s₁ n).Inv := by
      refine ⟨htree.setNode ⟨rfl, rfl, rfl, rfl⟩ fun d hmem => ?_, hshells.setNode rfl rfl, hlaw⟩
      have horphan := (htree.child d n hmem).2.2.1
      rw [(hfields n).2, hfree.2] at horphan
      cases horphan
    exact ⟨⟨fun _ _ => .inl hfree.2, fun _ => hlaw⟩, fun _ => hinv⟩
  · refine ⟨⟨fun hlaw hone => ?_, fun hok m hm => ?_⟩, fun hlaw => ⟨htree, hshells, hlaw⟩⟩
    · rcases hlaw n hlt' with ⟨hin, _⟩ | ⟨_, hf⟩
      · rw [hatt, hself] at hin
        exact .inr (hin.resolve_right fun hc => hc hone)
      · rw [(hfields n).1, hzero] at hf
        cases hf
    · rcases eq_or_ne m n with rfl | hne
      · refine .inl ⟨?_, (hfields m).1.trans hzero⟩
        rw [hatt, hself]
        by_cases hone : (s.node m).vnLive = 1
        · refine .inl ((hok hone).resolve_left fun horphan => hfree ⟨?_, horphan⟩)
          omega
        · exact .inr hone
      · exact hothers m hm hne

lemma Inv.unref (h : s.Inv) (hlive : s.Live v) :
    ((vnUnref s v).Law ↔ s.Keeps (.unref v)) ∧ (s.Keeps (.unref v) → (vnUnref s v).Inv) := by
  simp only [Keeps]
  by_cases hlast : (s.shell v).refs = 1
  · obtain ⟨hiff, hinv⟩ := h.drop hlive
    have hunref : vnUnref s v
        = ramfsDestroy (s.setShell v { s.shell v with refs := 0 }) (s.shell v).priv := by
      simp [vnUnref, hlast]
    rw [hunref, hiff]
    refine ⟨by simp [hlast], fun hkeep => hinv (hiff.mpr fun hone => hkeep ⟨hlast, hone⟩)⟩
  · have hrefs := hlive.2
    have hunref : vnUnref s v
        = s.setShell v { s.shell v with refs := (s.shell v).refs - 1 } := by
      exact if_neg (by omega)
    have hinv := h.setRefs hlive (r := (s.shell v).refs - 1) (by omega)
    rw [hunref]
    exact ⟨⟨fun _ hc => absurd hc.1 hlast, fun _ => hinv.law⟩, fun _ => hinv⟩

lemma Inv.step {e : Event} (h : s.Inv) (hen : s.Enabled e) :
    ((s.act e).Law ↔ s.Keeps e) ∧ (s.Keeps e → (s.act e).Inv) := by
  have always : ∀ {P : Prop} {t : Fs}, P → t.Inv → (t.Law ↔ P) ∧ (P → t.Inv) :=
    fun hP ht => ⟨iff_of_true ht.law hP, fun _ => ht⟩
  cases e with
  | lookup dir name mem => exact always trivial (h.lookup name mem)
  | create dir name t nodeMem shellMem => exact h.create hen name t nodeMem shellMem
  | unlink dir name => exact always trivial (h.unlink dir name)
  | read v off len => exact always trivial h
  | write v off src mem => exact always trivial (h.write v off src mem)
  | ref v => exact always trivial (h.setRefs hen (Nat.succ_ne_zero _))
  | unref v => exact h.unref hen.1

lemma inv_mount : ramfsMount.Inv := by
  have hroot : ramfsMount.node root = { RamNode.zero with type := .dir, vnLive := 1 } := rfl
  have hother : ∀ n, n ≠ root → ramfsMount.node n = .zero := fun n hn =>
    update_of_ne hn _ fun _ => RamNode.zero
  have hchildren : ∀ n, (ramfsMount.node n).children = [] := fun n => by
    rcases eq_or_ne n root with rfl | hn
    · rw [hroot]
      rfl
    · rw [hother n hn]
      rfl
  refine ⟨⟨Nat.one_pos, by rw [hroot]; rfl, fun d c hc => ?_, fun d => ?_, fun d _ => hchildren d,
    fun d _ => hchildren d⟩, ⟨fun v hv => ?_, fun n => ?_⟩, fun n hn => ?_⟩
  · rw [hchildren] at hc
    cases hc
  · rw [hchildren]
    exact List.nodup_nil
  · obtain rfl : v = 0 := Nat.lt_one_iff.mp hv.1
    exact ⟨Nat.one_pos, rfl⟩
  · have hon : ramfsMount.liveOn n = if root = n then 1 else 0 := by
      show ∑ v ∈ Finset.range 1, _ = _
      rw [Finset.sum_range_one]
      show (if 1 ≠ 0 ∧ root = n then 1 else 0) = _
      simp only [ne_eq, one_ne_zero, not_false_eq_true, true_and]
    rw [hon]
    rcases eq_or_ne n root with rfl | hn
    · rw [hroot, if_pos rfl]
    · rw [hother n hn, if_neg hn.symm]
      rfl
  · obtain rfl : n = root := Nat.lt_one_iff.mp hn
    exact .inl ⟨.inl .refl, by rw [hroot]; rfl⟩

/-- In every run whose calls keep hold of their nodes, every node is reachable from the root or
referenced by a live shell, or was freed exactly once; and a further call keeps this if and
only if it keeps hold of its nodes too. -/
theorem ramfs_lifetime {es : List Event} (hrun : Run (Guarded Keeps Step) ramfsMount es s) :
    s.Law ∧ ∀ e s', Step s e s' → (s'.Law ↔ s.Keeps e) := by
  have hinv : s.Inv := by
    refine hrun.invariant inv_mount ?_
    rintro s e s' hs ⟨hkeeps, hen, rfl⟩
    exact (hs.step hen).2 hkeeps
  refine ⟨hinv.law, ?_⟩
  rintro e s' ⟨hen, rfl⟩
  exact (hinv.step hen).1

end Fs

open Fs

/-- A directory is made and unlinked while it is open, a file is made in it, and both are closed:
first the file, then the directory. -/
def orphaned : List Event :=
  [.create 0 [100] .dir true true, .unlink 0 [100], .create 1 [102] .file true true, .unref 2,
    .unref 1]

/-- The file is not freed, although nothing refers to it. -/
theorem ramfs_lifetime_orphaned :
    ∃ s, Run Step ramfsMount orphaned s ∧ 2 < s.nnode ∧ ¬ s.Attached 2 ∧ ¬ s.Referenced 2 ∧
      (s.node 2).frees = 0 := by
  have henables : Enables Fs.Enabled Fs.act ramfsMount orphaned := by decide
  refine ⟨_, Run.of_enables (fun _ _ h => ⟨h, rfl⟩) henables, ?_, ?_, ?_, ?_⟩
  · decide
  · rw [attached_of_empty (by decide)]
    decide
  · rw [← liveOn_eq_zero]
    decide
  · decide

/-- A file is made, unlinked while it is open, and closed. -/
def closed : List Event := [.create 0 [102] .file true true, .unlink 0 [102], .unref 1]

/-- The theorem on this run: the file has been freed once. -/
theorem ramfs_lifetime_closed :
    (closed.foldl Fs.act ramfsMount).Law ∧ ((closed.foldl Fs.act ramfsMount).node 1).frees = 1 := by
  have henables : Enables (fun s e => s.Keeps e ∧ s.Enabled e) Fs.act ramfsMount closed := by
    refine ⟨⟨fun hc => absurd hc.2.2.2.2 Bool.noConfusion, ?_⟩, ⟨trivial, ?_⟩,
      ⟨fun _ => .inl ?_, ?_⟩, trivial⟩
    · decide
    · decide
    · decide
    · decide
  have hrun : Run (Guarded Keeps Step) ramfsMount closed (closed.foldl Fs.act ramfsMount) :=
    Run.of_enables (fun _ _ h => ⟨h.1, h.2, rfl⟩) henables
  exact ⟨(ramfs_lifetime hrun).1, by decide⟩

end MobilePhoneOs.Ramfs
