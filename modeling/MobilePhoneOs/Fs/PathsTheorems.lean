import MobilePhoneOs.Fs.Paths
import Mathlib.Data.List.Induction
import Mathlib.Order.Nat
import Mathlib.Order.Lattice

/-!
# What a path resolves to

Within the limits the joined path never meets its clamp, so the walk sees the mounts under the
names it went along. Behind them it goes along other names than the path has: a component of
`VFS_NAME_MAX` bytes or more loses its end.
-/

namespace MobilePhoneOs

open List (length_append length_cons map_cons mem_cons nil_prefix not_mem_nil sum_cons)
namespace Vfs
namespace Paths

open Mounts

/-! ## Splitting at slashes -/

variable {path : Str}

variable {c : Str}

lemma slash_notMem_of_mem_splitOn (hc : c ∈ path.splitOn SLASH) : SLASH ∉ c := by
  induction path generalizing c with
  | nil =>
    rw [List.splitOn_nil, List.mem_singleton] at hc
    rw [hc]
    exact not_mem_nil
  | cons b path ih =>
    rw [List.splitOn_cons_eq_if_modifyHead] at hc
    split at hc
    · rcases mem_cons.mp hc with rfl | hc
      · exact not_mem_nil
      · exact ih hc
    · next hb =>
      cases hsplit : path.splitOn SLASH with
      | nil => exact absurd hsplit (List.splitOn_ne_nil SLASH path)
      | cons x xs =>
        rw [hsplit] at hc ih
        rcases mem_cons.mp hc with rfl | hc
        · intro hmem
          rcases mem_cons.mp hmem with hbs | hmem
          · exact hb (by rw [← hbs]; exact beq_self_eq_true _)
          · exact ih List.mem_cons_self hmem
        · exact ih (List.mem_cons_of_mem _ hc)

/-- The bytes of a path are those of its components and the slashes between them. -/
lemma splitOn_bytes (path : Str) :
    ((path.splitOn SLASH).map fun c => c.length + 1).sum = path.length + 1 := by
  induction path with
  | nil => rfl
  | cons b path ih =>
    rw [List.splitOn_cons_eq_if_modifyHead]
    split
    · rw [map_cons, sum_cons, ih, length_cons, List.length_nil]
      omega
    · cases hsplit : path.splitOn SLASH with
      | nil => exact absurd hsplit (List.splitOn_ne_nil SLASH path)
      | cons x xs =>
        rw [hsplit, map_cons, sum_cons] at ih
        rw [List.modifyHead_cons, map_cons, sum_cons, length_cons, length_cons]
        omega

lemma splitOn_absolute (h : path.head? = some SLASH) :
    ∃ rest, path = SLASH :: rest ∧ path.splitOn SLASH = [] :: rest.splitOn SLASH := by
  obtain ⟨rest, rfl⟩ := List.head?_eq_some_iff.mp h
  refine ⟨rest, rfl, ?_⟩
  rw [List.splitOn_cons_eq_if_modifyHead, if_pos (beq_self_eq_true SLASH)]

/-! ## The stack of components -/

lemma lexStep_nil (stack : List Str) : lexStep stack [] = stack := if_pos (.inl rfl)

lemma lexStep_dot (stack : List Str) : lexStep stack [DOT] = stack := if_pos (.inr rfl)

lemma lexStep_dots (stack : List Str) : lexStep stack [DOT, DOT] = stack.dropLast := by
  rw [lexStep, if_neg (by decide), if_pos rfl]

/-- A component that stands on the stack. -/
def Plain (c : Str) : Prop := c ≠ [] ∧ c ≠ [DOT] ∧ c ≠ [DOT, DOT]

lemma lexStep_plain (h : Plain c) (stack : List Str) :
    lexStep stack c = stack ++ [c] := by
  rw [lexStep, if_neg (not_or.mpr ⟨h.1, h.2.1⟩), if_neg h.2.2]

lemma component_cases (c : Str) : c = [] ∨ c = [DOT] ∨ c = [DOT, DOT] ∨ Plain c := by
  by_cases hnil : c = []
  · exact .inl hnil
  by_cases hdot : c = [DOT]
  · exact .inr (.inl hdot)
  by_cases hdots : c = [DOT, DOT]
  · exact .inr (.inr (.inl hdots))
  · exact .inr (.inr (.inr ⟨hnil, hdot, hdots⟩))

/-- What every component of the path has, every component on the stack has. -/
lemma foldl_lexStep_all {P : Str → Prop} {segs stack : List Str} (hsegs : ∀ c ∈ segs, P c)
    (hstack : ∀ c ∈ stack, Plain c ∧ P c) : ∀ c ∈ segs.foldl lexStep stack, Plain c ∧ P c := by
  induction segs generalizing stack with
  | nil => exact hstack
  | cons s segs ih =>
    apply ih (fun c hc => hsegs c (List.mem_cons_of_mem _ hc))
    rcases component_cases s with rfl | rfl | rfl | hplain
    · rw [lexStep_nil]
      exact hstack
    · rw [lexStep_dot]
      exact hstack
    · rw [lexStep_dots]
      exact fun c hc => hstack c (List.dropLast_subset _ hc)
    · rw [lexStep_plain hplain]
      intro c hc
      rcases List.mem_append.mp hc with hc | hc
      · exact hstack c hc
      · rw [List.mem_singleton.mp hc]
        exact ⟨hplain, hsegs s List.mem_cons_self⟩

lemma normalForm_all (path : Str) : ∀ c ∈ normalForm path, Plain c ∧ SLASH ∉ c :=
  foldl_lexStep_all (fun _ hc => slash_notMem_of_mem_splitOn hc)
    (fun _ hc => absurd hc not_mem_nil)

lemma normalForm_snoc (path : Str) (hc : SLASH ∉ c) :
    normalForm (path ++ SLASH :: c) = lexStep (normalForm path) c := by
  rw [normalForm, List.splitOn_append_cons_self, List.foldl_append, List.splitOn_eq_singleton hc]
  rfl

/-! ## Paths in normal form -/

lemma spell_snoc (comps : List Str) (c : Str) :
    spell (comps ++ [c]) = spell comps ++ SLASH :: c := by
  rw [spell, List.flatMap_append]
  simp [spell]

lemma spell_length_le {comps more : List Str} (h : comps <+: more) :
    (spell comps).length ≤ (spell more).length := by
  obtain ⟨rest, rfl⟩ := h
  rw [spell, spell, List.flatMap_append, length_append]
  exact Nat.le_add_right _ _

lemma normalForm_spell {comps : List Str} (h : ∀ c ∈ comps, Plain c ∧ SLASH ∉ c) :
    normalForm (spell comps) = comps := by
  induction comps using List.reverseRecOn with
  | nil => rfl
  | append_singleton comps c ih =>
    have hc := h c (by simp)
    rw [spell_snoc, normalForm_snoc _ hc.2, ih fun x hx => h x (by simp [hx]), lexStep_plain hc.1]

lemma spell_lexStep_length (stack : List Str) (c : Str) :
    (spell (lexStep stack c)).length ≤ (spell stack).length + (c.length + 1) := by
  rcases component_cases c with rfl | rfl | rfl | hplain
  · rw [lexStep_nil]
    exact Nat.le_add_right _ _
  · rw [lexStep_dot]
    exact Nat.le_add_right _ _
  · rw [lexStep_dots]
    exact (spell_length_le (List.dropLast_prefix stack)).trans (Nat.le_add_right _ _)
  · rw [lexStep_plain hplain, spell_snoc, length_append, length_cons]

lemma spell_foldl_length (segs stack : List Str) :
    (spell (segs.foldl lexStep stack)).length
      ≤ (spell stack).length + (segs.map fun c => c.length + 1).sum := by
  induction segs generalizing stack with
  | nil => exact Nat.le_add_right _ _
  | cons s segs ih =>
    have hstep := spell_lexStep_length stack s
    have hrest := ih (lexStep stack s)
    rw [List.foldl_cons, map_cons, sum_cons]
    omega

/-- The normal form of an absolute path is no longer than the path. -/
lemma spell_normalForm_length (h : path.head? = some SLASH) :
    (spell (normalForm path)).length ≤ path.length := by
  obtain ⟨rest, rfl, hsplit⟩ := splitOn_absolute h
  have hbytes := splitOn_bytes rest
  have hfold := spell_foldl_length (rest.splitOn SLASH) []
  rw [hbytes] at hfold
  rw [normalForm, hsplit, List.foldl_cons, lexStep_nil, length_cons]
  simpa [spell] using hfold

/-! ## `normalize_path` -/

/-- The name that `normalize_path` copies. -/
def clip (c : Str) : Str := c.take (VFS_NAME_MAX - 1)

lemma clip_eq_self (h : c.length < VFS_NAME_MAX) : clip c = c :=
  List.take_of_length_le (Nat.le_sub_one_of_lt h)

lemma clip_length_lt (c : Str) : (clip c).length < VFS_NAME_MAX := by
  have hlen : (clip c).length ≤ VFS_NAME_MAX - 1 := List.length_take_le _ _
  have hval : VFS_NAME_MAX = 64 := rfl
  omega

lemma access_ok {l : List Access} (h : ∀ a ∈ l, a.Inside) :
    access l = (.ok () : Except (Stop Errno) Unit) := if_pos h

/-- The stack is too deep behind some of the components. -/
def DeepFrom (stack segs : List Str) : Prop :=
  ∃ pre, pre <+: segs ∧ VFS_COMPS_MAX < (pre.foldl lexStep stack).length

lemma deepFrom_cons {stack segs : List Str} {s : Str} (h : stack.length ≤ VFS_COMPS_MAX) :
    DeepFrom stack (s :: segs) ↔ DeepFrom (lexStep stack s) segs := by
  constructor
  · rintro ⟨pre, hpre, hdeep⟩
    rcases List.prefix_cons_iff.mp hpre with rfl | ⟨more, rfl, hmore⟩
    · exact absurd hdeep (not_lt.mpr h)
    · exact ⟨more, hmore, hdeep⟩
  · rintro ⟨pre, hpre, hdeep⟩
    exact ⟨s :: pre, List.prefix_cons_inj s |>.mpr hpre, hdeep⟩

/-- The loop has the clipped names of the stack, unless the stack gets too deep. -/
lemma normalizeLoop_spec {segs stack : List Str} (h : stack.length ≤ VFS_COMPS_MAX) :
    (DeepFrom stack segs → normalizeLoop (stack.map clip) (segs.filter (· ≠ []))
        = .error (.err .ENAMETOOLONG)) ∧
      (¬ DeepFrom stack segs → normalizeLoop (stack.map clip) (segs.filter (· ≠ []))
        = .ok ((segs.foldl lexStep stack).map clip)) := by
  induction segs generalizing stack with
  | nil =>
    refine ⟨fun ⟨pre, hpre, hdeep⟩ => ?_, fun _ => rfl⟩
    rw [List.prefix_nil.mp hpre] at hdeep
    exact absurd hdeep (not_lt.mpr h)
  | cons s segs ih =>
    rw [deepFrom_cons h, List.foldl_cons]
    rcases component_cases s with rfl | rfl | rfl | hplain
    · rw [lexStep_nil]
      exact ih h
    · rw [lexStep_dot]
      exact ih h
    · have hpop : stack.dropLast.length ≤ VFS_COMPS_MAX := by
        rw [List.length_dropLast]
        omega
      rw [lexStep_dots]
      have hnext := ih hpop
      rw [List.map_dropLast] at hnext
      exact hnext
    · have hloop : normalizeLoop (stack.map clip) ((s :: segs).filter (· ≠ []))
          = if VFS_COMPS_MAX ≤ stack.length then .error (.err .ENAMETOOLONG)
            else normalizeLoop ((stack ++ [s]).map clip) (segs.filter (· ≠ [])) := by
        rw [List.filter_cons_of_pos (by simpa using hplain.1), normalizeLoop, if_neg hplain.2.1,
          if_neg hplain.2.2, List.length_map]
        split
        · rfl
        · next hroom =>
          have hclip := clip_length_lt s
          rw [clip] at hclip
          simp only []
          rw [access_ok]
          · rw [List.map_append]
            rfl
          · simp only [mem_cons, not_mem_nil, or_false, Access.Inside]
            rintro a (rfl | rfl | rfl)
            · exact .inr (Nat.lt_of_not_le hroom)
            · exact .inr ((Nat.zero_add _).trans_le hclip.le)
            · exact .inr hclip
      rw [lexStep_plain hplain, hloop]
      split
      · next hfull =>
        have hdeep : DeepFrom (stack ++ [s]) segs := by
          refine ⟨[], nil_prefix, ?_⟩
          rw [List.foldl_nil, length_append, List.length_singleton]
          omega
        exact ⟨fun _ => rfl, fun hn => absurd hdeep hn⟩
      · next hroom =>
        apply ih
        rw [length_append, List.length_singleton]
        omega

lemma normalize_deep (h : Deep path) :
    normalizeLoop [] ((path.splitOn SLASH).filter (· ≠ [])) = .error (.err .ENAMETOOLONG) :=
  (@normalizeLoop_spec _ [] (Nat.zero_le _)).1 h

lemma normalize_shallow (h : ¬ Deep path) :
    normalizeLoop [] ((path.splitOn SLASH).filter (· ≠ [])) = .ok ((normalForm path).map clip) :=
  (@normalizeLoop_spec _ [] (Nat.zero_le _)).2 h

/-! ## The walk -/

section walk

variable {t : Table} {lookup : Vnode → Str → Except Errno Vnode} {root : ℕ → Vnode}

@[simp] lemma findMountpoint_withRoots (path : Str) :
    (withRoots t root).findMountpoint path = t.findMountpoint path := rfl

@[simp] lemma mountAt_withRoots (comps : List Str) :
    mountAt (withRoots t root) comps = mountAt t comps := rfl

lemma rootAt_withRoots (comps : List Str) :
    rootAt (withRoots t root) comps = (mountAt t comps).map root := by
  rw [rootAt, mountAt_withRoots]
  cases mountAt t comps with
  | none => rfl
  | some i => rfl

/-- `path_join` without its clamp -/
lemma join_spell {done : List Str} {c : Str} (h : (spell (done ++ [c])).length < VFS_PATH_MAX) :
    join (spell done) c = .ok (spell (done ++ [c])) := by
  rw [spell_snoc] at h ⊢
  rw [length_append, length_cons] at h
  have hroom : ¬ VFS_PATH_MAX < (spell done).length + 1 + c.length + 1 := by omega
  have haccess : access (joinAccesses (spell done) c) = (.ok () : Except (Stop Errno) Unit) := by
    apply access_ok
    simp only [joinAccesses, if_neg hroom, mem_cons, not_mem_nil, or_false,
      Access.Inside]
    rintro a (rfl | rfl | rfl | rfl | rfl)
    · exact .inr (by simp only; omega)
    · exact .inr (by simp only; omega)
    · exact .inr (by simp only; omega)
    · exact .inr (by simp only; omega)
    · exact .inr (by simp only; omega)
  rw [join, haccess, pathJoin, if_neg hroom]
  rfl

/-- A walk that is short enough crosses where the names it went along are mounted. -/
lemma walk_short {rest done : List Str} (cur : Vnode)
    (h : (spell (done ++ rest)).length < VFS_PATH_MAX) :
    walk (withRoots t root) lookup cur (spell done) rest =
      (follow lookup (fun comps => (t.findMountpoint (spell comps)).map root) cur done
        rest).mapError .err := by
  induction rest generalizing done cur with
  | nil => rfl
  | cons c rest ih =>
    have happ : done ++ c :: rest = (done ++ [c]) ++ rest := by simp
    rw [happ] at h
    have hjoin := join_spell
      ((spell_length_le (List.prefix_append (done ++ [c]) rest)).trans_lt h)
    rw [walk, follow]
    split
    · rfl
    · rw [hjoin]
      simp only [bind, Except.bind, findMountpoint_withRoots]
      cases t.findMountpoint (spell (done ++ [c])) with
      | some slot => exact ih (root slot) h
      | none =>
        cases lookup cur c with
        | error e => rfl
        | ok next => exact ih next h

variable {r : List Str → Option Vnode}

/-- The walks agree where they cross at the same places. -/
lemma follow_congr {r' : List Str → Option Vnode} {rest done : List Str} (cur : Vnode)
    (h : ∀ comps, comps <+: done ++ rest → comps ≠ [] → r comps = r' comps) :
    follow lookup r cur done rest = follow lookup r' cur done rest := by
  induction rest generalizing done cur with
  | nil => rfl
  | cons c rest ih =>
    have happ : done ++ c :: rest = (done ++ [c]) ++ rest := by simp
    rw [happ] at h
    rw [follow, follow, h _ (List.prefix_append _ _) (by simp)]
    split
    · rfl
    · split
      · exact ih _ h
      · split
        · rfl
        · exact ih _ h

/-- A clear path resolves to what it stands for. -/
lemma resolve_exact (hfits : Fits path)
    (hentered : ∀ comps, comps <+: normalForm path → entered t comps = mountAt t comps) :
    resolve (withRoots t root) lookup path
      = (reference (withRoots t root) lookup path).mapError .err := by
  have hclip : (normalForm path).map clip = normalForm path := by
    apply List.map_congr_left ?_ |>.trans (List.map_id _)
    exact fun c hc => clip_eq_self (hfits.names c hc)
  have hlen := (spell_normalForm_length hfits.absolute).trans_lt hfits.short
  rw [resolve, if_neg (not_not.mpr hfits.absolute), normalize_shallow hfits.shallow, hclip,
    reference, rootAt_withRoots, ← hentered [] nil_prefix]
  split
  · -- the root
    have hwalk := @walk_short t lookup root _ [] (root 0) hlen
    refine hwalk.trans (congrArg _ ?_)
    apply follow_congr
    intro comps hpre hne
    have hslot := hentered comps hpre
    rw [entered, if_neg hne] at hslot
    rw [rootAt_withRoots, hslot]
  · rfl

/-! ## Where a walk goes wrong -/

/-- A directory that all names lead back to. -/
def hall : Vnode := ⟨0, true⟩

/-- A file -/
def leaf : Vnode := ⟨1, false⟩

lemma walk_hall (cur_path : Str) (rest : List Str) :
    walk (withRoots t fun _ => hall) (fun _ _ => .ok hall) hall cur_path rest = .ok hall ∨
      walk (withRoots t fun _ => hall) (fun _ _ => .ok hall) hall cur_path rest = .error .oob := by
  have hjoin : ∀ c p, join p c = .ok (pathJoin VFS_PATH_MAX p c) ∨ join p c = .error .oob := by
    intro c p
    rw [join, access]
    split
    · exact .inl rfl
    · exact .inr rfl
  induction rest generalizing cur_path with
  | nil => exact .inl rfl
  | cons c rest ih =>
    have hdir : (!hall.dir) = false := rfl
    rw [walk, hdir, if_neg Bool.false_ne_true]
    rcases hjoin c cur_path with hj | hj
    · rw [hj]
      simp only [bind, Except.bind, findMountpoint_withRoots]
      cases t.findMountpoint (pathJoin VFS_PATH_MAX cur_path c) with
      | some slot => exact ih _
      | none => exact ih _
    · right
      rw [hj]
      rfl

/-- A walk that never crosses into the file ends in the directory. -/
lemma follow_hall {rest done : List Str}
    (h : ∀ comps, comps <+: done ++ rest → comps ≠ [] → ∀ x ∈ r comps, x = hall) :
    follow (fun _ _ => .ok hall) r hall done rest = .ok hall := by
  induction rest generalizing done with
  | nil => rfl
  | cons c rest ih =>
    have happ : done ++ c :: rest = (done ++ [c]) ++ rest := by simp
    have hdir : (!hall.dir) = false := rfl
    rw [happ] at h
    rw [follow, hdir, if_neg Bool.false_ne_true]
    cases hr : r (done ++ [c]) with
    | none => exact ih h
    | some x =>
      rw [h _ (List.prefix_append _ _) (by simp) x hr]
      exact ih h

/-- A walk from the file ends there or fails. -/
lemma follow_leaf (r : List Str → Option Vnode) (rest done : List Str) :
    follow (fun _ _ => .ok hall) r leaf done rest ≠ .ok hall := by
  cases rest with
  | nil => exact fun h => absurd (Except.ok.inj h) (by decide)
  | cons c rest =>
    intro h
    have herr : follow (fun _ _ => .ok hall) r leaf done (c :: rest) = .error .ENOTDIR := rfl
    rw [herr] at h
    cases h

/-- A walk that crosses into the file does not end in the directory. -/
lemma follow_crosses {mid rest done : List Str} (hmid : mid ≠ [])
    (hleaf : r (done ++ mid) = some leaf)
    (h : ∀ comps, comps ≠ done ++ mid → ∀ x ∈ r comps, x = hall) :
    follow (fun _ _ => .ok hall) r hall done (mid ++ rest) ≠ .ok hall := by
  induction mid generalizing done with
  | nil => exact absurd rfl hmid
  | cons c mid ih =>
    have happ : done ++ c :: mid = (done ++ [c]) ++ mid := by simp
    have hdir : (!hall.dir) = false := rfl
    rw [happ] at hleaf h
    rw [List.cons_append, follow, hdir, if_neg Bool.false_ne_true]
    by_cases hlast : mid = []
    · rw [hlast, List.append_nil] at hleaf
      rw [hleaf, hlast]
      exact follow_leaf r rest (done ++ [c])
    · have hnext := ih hlast hleaf h
      cases hr : r (done ++ [c]) with
      | none => exact hnext
      | some x =>
        have hne : done ++ [c] ≠ done ++ [c] ++ mid := by
          intro he
          exact hlast (List.self_eq_append_right.mp he)
        rw [h _ hne x hr]
        exact hnext

lemma mountAt_path {comps : List Str} {i : ℕ} (h : mountAt t comps = some i) :
    normalForm (t.mounts i).path = comps := by
  have hi := List.find?_some h
  simp only [Bool.and_eq_true, decide_eq_true_eq] at hi
  exact hi.2

lemma find_path {i : ℕ} (h : t.findMountpoint path = some i) :
    (t.mounts i).path = path := by
  have hi := List.find?_some h
  simp only [Bool.and_eq_true, decide_eq_true_eq] at hi
  exact hi.2

/-- What is mounted under a path in normal form is found at it. -/
lemma mountAt_of_find {comps : List Str} {i : ℕ} (hplain : ∀ c ∈ comps, Plain c ∧ SLASH ∉ c)
    (h : t.findMountpoint (spell comps) = some i) : mountAt t comps ≠ none := by
  intro hnone
  have hi := List.find?_some h
  have hmem := List.mem_of_find?_eq_some h
  have hno := List.find?_eq_none.mp hnone i hmem
  simp only [Bool.and_eq_true, decide_eq_true_eq] at hi
  simp only [Bool.and_eq_true, decide_eq_true_eq, not_and] at hno
  exact hno hi.1 (by rw [hi.2, normalForm_spell hplain])

end walk

/-! ## `split_parent` -/

lemma lastSlash_of_notMem {s : Str} (h : SLASH ∉ s) (found : Option ℕ) (i : ℕ) :
    lastSlash found i s = found := by
  induction s generalizing i with
  | nil => rfl
  | cons c s ih =>
    have hc : c ≠ SLASH := fun hc => h (by rw [hc]; exact List.mem_cons_self)
    rw [lastSlash, if_neg hc]
    exact ih (fun hs => h (List.mem_cons_of_mem _ hs)) _

lemma lastSlash_append {base : Str} (h : SLASH ∉ base) (found : Option ℕ) (i : ℕ) (pre : Str) :
    lastSlash found i (pre ++ SLASH :: base) = some (i + pre.length) := by
  induction pre generalizing found i with
  | nil =>
    rw [List.nil_append, lastSlash, if_pos rfl]
    exact lastSlash_of_notMem h _ _
  | cons c pre ih =>
    rw [List.cons_append, lastSlash, ih, length_cons]
    congr 1
    omega

/-- A path with a slash has a last one. -/
lemma exists_last_slash {s : Str} (h : SLASH ∈ s) :
    ∃ pre base, s = pre ++ SLASH :: base ∧ SLASH ∉ base := by
  induction s with
  | nil => exact absurd h not_mem_nil
  | cons c s ih =>
    by_cases hs : SLASH ∈ s
    · obtain ⟨pre, base, rfl, hbase⟩ := ih hs
      exact ⟨c :: pre, base, rfl, hbase⟩
    · rcases mem_cons.mp h with rfl | hmem
      · exact ⟨[], s, rfl, hs⟩
      · exact absurd hmem hs

/-- `split_parent` takes a path apart at its last slash, inside its buffers. -/
lemma splitParent_append {pre base : Str} (h : SLASH ∉ base) :
    splitParent (pre ++ SLASH :: base) =
      if VFS_PATH_MAX ≤ pre.length ∨ VFS_NAME_MAX ≤ base.length then
        .error (.err .ENAMETOOLONG)
      else if base = [] then .error (.err .EINVAL)
      else .ok (if pre = [] then [SLASH] else pre, base) := by
  have hval : VFS_PATH_MAX = 160 := rfl
  have hdrop : (pre ++ SLASH :: base).drop (pre.length + 1) = base := by simp
  rw [splitParent, lastSlash_append h]
  simp only [Nat.zero_add, hdrop]
  -- the leading slash is kept
  have hmax : VFS_PATH_MAX ≤ (if pre.length = 0 then 1 else pre.length) ↔
      VFS_PATH_MAX ≤ pre.length := by
    split
    · omega
    · exact Iff.rfl
  have htake : (pre ++ SLASH :: base).take (if pre.length = 0 then 1 else pre.length)
      = if pre = [] then [SLASH] else pre := by
    by_cases hpre : pre = []
    · rw [hpre]
      rfl
    · rw [if_neg hpre, if_neg fun h0 => hpre (List.length_eq_zero_iff.mp h0), List.take_left]
  simp only [htake, hmax]
  split
  · rfl
  · next hc =>
    rw [access_ok]
    · rfl
    · simp only [mem_cons, not_mem_nil, or_false, Access.Inside]
      generalize (if pre.length = 0 then 1 else pre.length) = plen at hmax
      rintro a (rfl | rfl | rfl)
      · exact .inr (by simp only; omega)
      · exact .inr (by simp only; omega)
      · exact .inr (by simp only; omega)

lemma splitParent_spec (path : Str) :
    splitParent path ≠ .error .oob ∧ ∀ parent base, splitParent path = .ok (parent, base) →
      normalForm path = lexStep (normalForm parent) base := by
  by_cases hslash : SLASH ∈ path
  · obtain ⟨pre, base, rfl, hbase⟩ := exists_last_slash hslash
    rw [splitParent_append hbase]
    constructor
    · split_ifs
      · exact fun h => by cases h
      · exact fun h => by cases h
      · exact fun h => by cases h
      · exact fun h => by cases h
    · intro parent base' hsplit
      split_ifs at hsplit with hlong hempty hpre
      · obtain ⟨rfl, rfl⟩ := Prod.mk.inj (Except.ok.inj hsplit)
        rw [hpre]
        exact normalForm_snoc [] hbase
      · obtain ⟨rfl, rfl⟩ := Prod.mk.inj (Except.ok.inj hsplit)
        exact normalForm_snoc pre hbase
  · have hsplit : splitParent path = .error (.err .EINVAL) := by
      rw [splitParent, lastSlash_of_notMem hslash]
    rw [hsplit]
    exact ⟨nofun, nofun⟩

/-! ## The law -/

section law

variable {t : Table}

/-- A path that is refused before the walk. -/
lemma resolve_refused {lookup : Vnode → Str → Except Errno Vnode}
    (h : path.head? ≠ some SLASH ∨ Deep path ∨ t.have_root = false) :
    ∃ e, resolve t lookup path = .error (.err e) := by
  rw [resolve]
  split
  · exact ⟨_, rfl⟩
  · next habs =>
    by_cases hdeep : Deep path
    · rw [normalize_deep hdeep]
      exact ⟨_, rfl⟩
    · rw [normalize_shallow hdeep]
      obtain hc | hc | hroot := h
      · exact absurd hc habs
      · exact absurd hc hdeep
      · simp only [bind, Except.bind, hroot]
        exact ⟨_, rfl⟩

/-- A path that meets the limits of the walk but not its own is followed along clipped names. -/
lemma not_refused (habs : path.head? = some SLASH) (hdeep : ¬ Deep path)
    (hroot : t.have_root = true) (e : Errno) :
    resolve (withRoots t fun _ => hall) (fun _ _ => .ok hall) path ≠ .error (.err e) := by
  have hroot' : (withRoots t fun _ => hall).have_root = true := hroot
  rw [resolve, if_neg (not_not.mpr habs), normalize_shallow hdeep]
  simp only [bind, Except.bind, hroot', if_true]
  rcases walk_hall (t := t) [] ((normalForm path).map clip) with h | h
  · exact fun he => by cases h.symm.trans he
  · exact fun he => by cases h.symm.trans he

/-- A walk that never enters the file ends in the directory. -/
lemma resolve_hall {root : ℕ → Vnode} (hfits : Fits path) (hroot : t.have_root = true)
    (henter : ∀ comps i, comps <+: normalForm path → entered t comps = some i → root i = hall) :
    resolve (withRoots t root) (fun _ _ => .ok hall) path = .ok hall := by
  have hclip : (normalForm path).map clip = normalForm path :=
    (List.map_congr_left fun c hc => clip_eq_self (hfits.names c hc)).trans (List.map_id _)
  have hlen := (spell_normalForm_length hfits.absolute).trans_lt hfits.short
  have hroot' : (withRoots t root).have_root = true := hroot
  have hstart : root 0 = hall := henter [] 0 nil_prefix (if_pos rfl)
  have hwalk := @walk_short t (fun _ _ => .ok hall) root _ [] (root 0) hlen
  rw [resolve, if_neg (not_not.mpr hfits.absolute), normalize_shallow hfits.shallow, hclip]
  simp only [bind, Except.bind, hroot', if_true]
  refine hwalk.trans ?_
  rw [hstart, follow_hall]
  · rfl
  · intro comps hpre hne x hx
    obtain ⟨i, hi, rfl⟩ := Option.map_eq_some_iff.mp hx
    exact henter comps i hpre (by rw [entered, if_neg hne, hi])

/-- A path that stands for a walk into the file, or that has no start. -/
lemma reference_ne_hall {comps : List Str} (hpre : comps <+: normalForm path)
    (hleaf : rootAt t comps = some leaf ∨ comps = [] ∧ rootAt t [] = none)
    (hother : ∀ x, x ≠ comps → ∀ y ∈ rootAt t x, y = hall) :
    reference t (fun _ _ => .ok hall) path ≠ .ok hall := by
  rw [reference]
  split
  · split
    · exact nofun
    · next cur hcur =>
      by_cases hnil : comps = []
      · -- the walk starts in the file
        obtain hl | ⟨-, hnone⟩ := hleaf
        · rw [hnil, hcur] at hl
          rw [Option.some.inj hl]
          exact follow_leaf _ _ _
        · rw [hnone] at hcur
          cases hcur
      · obtain hl | ⟨hc, -⟩ := hleaf
        · obtain ⟨rest, hrest⟩ := hpre
          rw [hother [] (Ne.symm hnil) cur hcur, ← hrest]
          exact @follow_crosses (rootAt t) comps rest [] hnil hl hother
        · exact absurd hc hnil
  · exact nofun

/-- Where the walk enters another slot than the path stands for, some namespace shows it. -/
lemma not_exact (hfits : Fits path) (hroot : t.have_root = true)
    (hwrong : ∃ comps, comps <+: normalForm path ∧ entered t comps ≠ mountAt t comps) :
    ∃ root, resolve (withRoots t root) (fun _ _ => .ok hall) path
      ≠ (reference (withRoots t root) (fun _ _ => .ok hall) path).mapError .err := by
  have hplain : ∀ comps, comps <+: normalForm path → ∀ c ∈ comps, Plain c ∧ SLASH ∉ c :=
    fun comps hpre c hc => normalForm_all path c (hpre.subset hc)
  -- the root first
  obtain ⟨comps, hpre, hne, hfirst⟩ : ∃ comps, comps <+: normalForm path ∧
      entered t comps ≠ mountAt t comps ∧ (comps ≠ [] → mountAt t [] = some 0) := by
    obtain ⟨comps, hpre, hne⟩ := hwrong
    by_cases hzero : mountAt t [] = some 0
    · exact ⟨comps, hpre, hne, fun _ => hzero⟩
    · exact ⟨[], nil_prefix, fun h => hzero h.symm, fun h => absurd rfl h⟩
  -- what is mounted at `comps` is the file
  let root := fun i => if mountAt t comps = some i then leaf else hall
  have hcode : resolve (withRoots t root) (fun _ _ => .ok hall) path = .ok hall := by
    apply resolve_hall hfits hroot
    intro x i hxpre hx
    apply if_neg
    intro hi
    by_cases hnil : x = []
    · rw [hnil, entered, if_pos rfl] at hx
      obtain rfl := Option.some.inj hx
      by_cases hcomps : comps = []
      · rw [hcomps] at hne hi
        exact hne hi.symm
      · exact hcomps ((mountAt_path hi).symm.trans (mountAt_path (hfirst hcomps)))
    · have hfind := hx
      rw [entered, if_neg hnil] at hfind
      have hsame : x = comps := by
        rw [← mountAt_path hi, find_path hfind, normalForm_spell (hplain x hxpre)]
      rw [hsame] at hx
      exact hne (hx.trans hi.symm)
  have hreference : reference (withRoots t root) (fun _ _ => .ok hall) path ≠ .ok hall := by
    apply reference_ne_hall hpre
    · rw [rootAt_withRoots, rootAt_withRoots]
      cases hm : mountAt t comps with
      | some i => exact .inl (congrArg some (if_pos hm))
      | none =>
        by_cases hnil : comps = []
        · rw [hnil] at hm
          exact .inr ⟨hnil, by rw [hm]; rfl⟩
        · cases hfind : t.findMountpoint (spell comps) with
          | none => exact absurd (by rw [entered, if_neg hnil, hfind, hm]) hne
          | some i => exact absurd hm (mountAt_of_find (hplain comps hpre) hfind)
    · intro x hx y hy
      rw [rootAt_withRoots] at hy
      obtain ⟨i, hi, rfl⟩ := Option.map_eq_some_iff.mp hy
      apply if_neg
      intro hc
      exact hx ((mountAt_path hi).symm.trans (mountAt_path hc))
  refine ⟨root, fun heq => ?_⟩
  rw [hcode] at heq
  generalize reference _ _ path = r at heq hreference
  cases r with
  | error e => cases heq
  | ok x => exact hreference (by rw [Except.ok.inj heq])

end law

/-- A path resolves to what it stands for, in every namespace over a mount table, if and only if
it is clear there. -/
theorem path_resolution (t : Table) (path : Str) :
    (∀ root lookup, Resolves (withRoots t root) lookup path) ↔ Clear t path := by
  obtain ⟨hinside, hparent⟩ := splitParent_spec path
  constructor
  · intro h
    by_contra hclear
    rw [Clear, not_or, not_or, not_or] at hclear
    obtain ⟨habs, hdeep, hroot, hlimits⟩ := hclear
    have habs := not_not.mp habs
    have hroot := Bool.eq_true_of_not_eq_false hroot
    by_cases hfits : Fits path
    · have hwrong : ∃ comps, comps <+: normalForm path ∧ entered t comps ≠ mountAt t comps := by
        by_contra hnone
        apply hlimits
        refine ⟨hfits.short, hfits.names, fun comps hpre => ?_⟩
        by_contra hne
        exact hnone ⟨comps, hpre, hne⟩
      obtain ⟨root, hroots⟩ := not_exact hfits hroot hwrong
      exact hroots ((h root fun _ _ => .ok hall).exact hfits)
    · obtain ⟨e, he⟩ := (h (fun _ => hall) fun _ _ => .ok hall).refused hfits
      exact not_refused habs hdeep hroot e he
  · intro hclear root lookup
    refine ⟨fun hfits => ?_, fun hfits => ?_, hinside, hparent⟩
    · obtain habs | hdeep | hroot | ⟨-, -, hentered⟩ := hclear
      · exact absurd hfits.absolute habs
      · exact absurd hdeep hfits.shallow
      · have hroot' : (withRoots t root).have_root = false := hroot
        rw [resolve, if_neg (not_not.mpr hfits.absolute), normalize_shallow hfits.shallow,
          reference, hroot']
        rfl
      · exact resolve_exact hfits hentered
    · apply resolve_refused
      obtain habs | hdeep | hroot | ⟨hshort, hnames, -⟩ := hclear
      · exact .inl habs
      · exact .inr (.inl hdeep)
      · exact .inr (.inr hroot)
      · by_cases habs : path.head? = some SLASH
        · by_cases hdeep : Deep path
          · exact .inr (.inl hdeep)
          · exact absurd ⟨habs, hshort, hnames, hdeep⟩ hfits
        · exact .inl habs

/-! ## A name of 64 bytes -/

/-- A namespace with nothing but a root directory. -/
def rootOnly : Table := ⟨[], fun _ => ⟨[], none, 0, 0, some hall, true, [SLASH]⟩, 1, true⟩

/-- The one file of the directory, under a name of 63 bytes. -/
def nameA : Vnode → Str → Except Errno Vnode
  | _, name => if name = List.replicate 63 97 then .ok leaf else .error .ENOENT

/-- The path of another name resolves to the file. -/
theorem long_name_resolves :
    resolve rootOnly nameA (SLASH :: List.replicate 64 97) = .ok leaf ∧
      ¬ Resolves rootOnly nameA (SLASH :: List.replicate 64 97) := by
  have hresolve : resolve rootOnly nameA (SLASH :: List.replicate 64 97) = .ok leaf := rfl
  refine ⟨hresolve, fun h => ?_⟩
  have hlong : ¬ Fits (SLASH :: List.replicate 64 97) := by
    intro hfits
    have hmem : List.replicate 64 97 ∈ normalForm (SLASH :: List.replicate 64 97) := by decide
    exact absurd (hfits.names _ hmem) (by decide)
  obtain ⟨e, he⟩ := h.refused hlong
  cases hresolve.symm.trans he

end Paths
end Vfs
end MobilePhoneOs
