import HtmlTemplate.Proofs.Parents
import HtmlTemplate.Proofs.PlainFiles

/-!
# Resolving paths without a look at the disk

A path is walked on a stack of names, as if no name were a symbolic link. Main result: a path
and what it is resolved to are walked alike, so that a fragment is within the root exactly when
the walk along its name ends there.
-/
namespace HtmlTemplate.Path

/-! ### Walks -/

/-- One step of a walk, on the names below the root, the last one first. -/
def Component.enter (stack : List Text) : Component → List Text
  | root => []
  | current => stack
  | parent => stack.tail
  | name n => n :: stack

/-- Where a walk along the path ends that starts at the top of a stack. -/
def walk (p : Path) (stack : List Text) : List Text := p.components.foldl Component.enter stack

theorem foldl_enter_names (names stack : List Text) :
    (names.map Component.name).foldl Component.enter stack = names.reverse ++ stack := by
  induction names generalizing stack with
  | nil => rfl
  | cons n names ih =>
    rw [List.map_cons, List.foldl_cons, ih, Component.enter, List.reverse_cons, List.append_assoc]
    rfl

/-- Resolving one component more leads where entering it does. -/
theorem foldl_enter_resolveStep (done : List Component) (c : Component) (stack : List Text) :
    (resolveStep done c).reverse.foldl Component.enter stack
      = Component.enter (done.reverse.foldl Component.enter stack) c := by
  unfold resolveStep
  split
  · rfl
  · simp [Component.enter]
  · simp [Component.enter]
  · rfl
  · simp

theorem foldl_enter_resolveComponents (cs : List Component) (stack : List Text) :
    (resolveComponents cs).foldl Component.enter stack = cs.foldl Component.enter stack := by
  have from_done (done : List Component) :
      (cs.foldl resolveStep done).reverse.foldl Component.enter stack
        = cs.foldl Component.enter (done.reverse.foldl Component.enter stack) := by
    induction cs generalizing done with
    | nil => rfl
    | cons c cs ih => rw [List.foldl_cons, ih, foldl_enter_resolveStep, List.foldl_cons]
  exact from_done []

/-! ### Resolved components -/

/-- What is resolved from the root on stays at the root or below it. -/
theorem foldl_resolveStep_root (cs : List Component) (names : List Text) :
    ∃ names' : List Text, cs.foldl resolveStep (names.map .name ++ [.root])
      = names'.map Component.name ++ [.root] := by
  induction cs generalizing names with
  | nil => exact ⟨names, rfl⟩
  | cons c cs ih =>
    rw [List.foldl_cons]
    cases c with
    | root => exact ih []
    | current => exact ih names
    | name n => exact ih (n :: names)
    | parent =>
      cases names with
      | nil => exact ih []
      | cons n names => exact ih names

/-- Parent steps are left only before all names. -/
theorem foldl_resolveStep_relative {cs : List Component} (h : .root ∉ cs) (count : Nat)
    (names : List Text) :
    ∃ (count' : Nat) (names' : List Text),
      cs.foldl resolveStep (names.map .name ++ .replicate count .parent)
        = names'.map Component.name ++ .replicate count' .parent := by
  induction cs generalizing count names with
  | nil => exact ⟨count, names, rfl⟩
  | cons c cs ih =>
    obtain ⟨first, others⟩ := not_or.mp fun found => h (List.mem_cons.mpr found)
    rw [List.foldl_cons]
    cases c with
    | root => exact absurd rfl first
    | current => exact ih others count names
    | name n => exact ih others count (n :: names)
    | parent =>
      cases names with
      | cons n names => exact ih others count names
      | nil =>
        cases count with
        | zero => exact ih others 1 []
        | succ count => exact ih others (count + 2) []

theorem resolveComponents_root (cs : List Component) :
    ∃ names : List Text, resolveComponents (.root :: cs) = .root :: names.map .name := by
  obtain ⟨names, resolved⟩ := foldl_resolveStep_root cs []
  refine ⟨names.reverse, ?_⟩
  rw [resolveComponents, List.foldl_cons]
  show (cs.foldl resolveStep [.root]).reverse = _
  rw [show [Component.root] = ([] : List Text).map .name ++ [.root] from rfl, resolved]
  simp

theorem resolveComponents_relative {cs : List Component} (h : .root ∉ cs) :
    ∃ (count : Nat) (names : List Text),
      resolveComponents cs = .replicate count .parent ++ names.map .name := by
  obtain ⟨count, names, resolved⟩ := foldl_resolveStep_relative h 0 []
  refine ⟨count, names.reverse, ?_⟩
  rw [resolveComponents, show ([] : List Component)
    = ([] : List Text).map .name ++ .replicate 0 .parent from rfl, resolved]
  simp

theorem foldl_resolveStep_names (names : List Text) (done : List Component) :
    (names.map Component.name).foldl resolveStep done = (names.map .name).reverse ++ done := by
  induction names generalizing done with
  | nil => rfl
  | cons n names ih =>
    rw [List.map_cons, List.foldl_cons, ih]
    simp [resolveStep]

theorem foldl_resolveStep_parents (count : Nat) :
    (List.replicate count Component.parent).foldl resolveStep [] = .replicate count .parent := by
  induction count with
  | zero => rfl
  | succ count ih =>
    have step : resolveStep (.replicate count .parent) .parent
        = .replicate (count + 1) .parent := by
      cases count <;> rfl
    rw [List.replicate_succ', List.foldl_concat, ih, step, List.replicate_succ']

/-- A name that is resolved is a name of the path. -/
theorem mem_of_mem_resolveComponents {cs : List Component} {n : Text}
    (h : .name n ∈ resolveComponents cs) : .name n ∈ cs := by
  have step {done : List Component} {c : Component} (found : .name n ∈ resolveStep done c) :
      .name n ∈ done ∨ .name n = c := by
    unfold resolveStep at found
    split at found <;> simp_all [or_comm]
  have from_done (done : List Component) (found : .name n ∈ cs.foldl resolveStep done) :
      .name n ∈ done ∨ .name n ∈ cs := by
    clear h
    induction cs generalizing done with
    | nil => exact .inl found
    | cons c cs ih =>
      rcases ih _ found with first | later
      · rcases step first with before | rfl
        · exact .inl before
        · exact .inr List.mem_cons_self
      · exact .inr (List.mem_cons_of_mem _ later)
  rw [resolveComponents, List.mem_reverse] at h
  exact (from_done [] h).resolve_left List.not_mem_nil

/-- Resolving what is resolved changes nothing. -/
theorem resolveComponents_root_names (names : List Text) :
    resolveComponents (.root :: names.map .name) = .root :: names.map .name := by
  rw [resolveComponents, List.foldl_cons]
  show ((names.map Component.name).foldl resolveStep [.root]).reverse = _
  rw [foldl_resolveStep_names]
  simp

theorem resolveComponents_parents_names (count : Nat) (names : List Text) :
    resolveComponents (.replicate count .parent ++ names.map .name)
      = .replicate count .parent ++ names.map .name := by
  rw [resolveComponents, List.foldl_append, foldl_resolveStep_parents, foldl_resolveStep_names]
  simp

/-! ### Components as segments -/

/-- A name that a path can have. -/
structure IsPlainName (n : Text) : Prop where
  isSilent_eq : isSilent n = false
  not_parent : n ≠ ['.', '.']
  no_slash : '/' ∉ n

/-- A parent step or a name that a path can have. -/
def Component.IsStep : Component → Prop
  | root | current => False
  | parent => True
  | name n => IsPlainName n

theorem Component.IsStep.ofSegment?_segment {c : Component} (h : c.IsStep) :
    ofSegment? c.segment = some c := by
  cases c with
  | root => exact h.elim
  | current => exact h.elim
  | parent => rfl
  | name n =>
    have solid : ¬(n.isEmpty || decide (n = ['.'])) := by
      simpa [Path.isSilent] using h.isSilent_eq
    rw [segment, ofSegment?, if_neg solid, if_neg h.not_parent]

theorem Component.IsStep.no_slash {c : Component} (h : c.IsStep) : '/' ∉ c.segment := by
  cases c with
  | root => exact h.elim
  | current => exact h.elim
  | parent => decide
  | name n => exact IsPlainName.no_slash h

theorem Component.IsStep.segment_ne {c : Component} (h : c.IsStep) {segment : Text}
    (silent : ofSegment? segment = none) : c.segment ≠ segment := by
  rintro rfl
  rw [h.ofSegment?_segment] at silent
  exact Option.some_ne_none c silent

theorem Component.IsStep.ofFirst?_segment {c : Component} (h : c.IsStep) :
    ofFirst? false c.segment = some c := by
  have other : c.segment ≠ ['.'] := h.segment_ne (by decide)
  rw [ofFirst?, if_neg Bool.false_ne_true, if_neg other, h.ofSegment?_segment]

theorem filterMap_segments {cs : List Component} (h : ∀ c ∈ cs, c.IsStep) :
    (cs.map Component.segment).filterMap Component.ofSegment? = cs := by
  induction cs with
  | nil => rfl
  | cons c cs ih =>
    obtain ⟨first, others⟩ := List.forall_mem_cons.mp h
    rw [List.map_cons, List.filterMap_cons_some first.ofSegment?_segment, ih others]

/-- Steps are told apart by the separators that they are written with. -/
theorem segments_steps {first : Text} {cs : List Component} (begins : '/' ∉ first)
    (h : ∀ c ∈ cs, c.IsStep) :
    segments ⟨['/'].intercalate (first :: cs.map Component.segment)⟩
      = first :: cs.map Component.segment := by
  refine segments_intercalate (List.cons_ne_nil _ _) (List.forall_mem_cons.mpr ⟨begins, ?_⟩)
  rw [List.forall_mem_map]
  exact fun c hm => (h c hm).no_slash

theorem components_ofComponents_root {cs : List Component} (h : ∀ c ∈ cs, c.IsStep) :
    (ofComponents (.root :: cs)).components = .root :: cs := by
  cases cs with
  | nil => decide
  | cons c cs =>
    have cut : segments (ofComponents (.root :: c :: cs))
        = [] :: (c :: cs).map Component.segment := segments_steps List.not_mem_nil h
    have absolute : (ofComponents (.root :: c :: cs)).isAbsolute :=
      (isAbsolute_iff cut).mpr ⟨rfl, List.cons_ne_nil _ _⟩
    rw [components_eq cut, absolute, filterMap_segments h]
    rfl

theorem components_ofComponents {cs : List Component} (h : ∀ c ∈ cs, c.IsStep) :
    (ofComponents cs).components = cs := by
  cases cs with
  | nil => decide
  | cons c cs =>
    obtain ⟨first, others⟩ := List.forall_mem_cons.mp h
    have written : ofComponents (c :: cs)
        = ⟨['/'].intercalate ((c :: cs).map Component.segment)⟩ := by
      unfold ofComponents
      split
      · contradiction
      · rename_i only
        obtain ⟨rfl, -⟩ := List.cons.inj only
        exact first.elim
      · rfl
    have cut : segments (ofComponents (c :: cs)) = c.segment :: cs.map Component.segment := by
      rw [written]
      exact segments_steps first.no_slash others
    have relative : (ofComponents (c :: cs)).isAbsolute = false := by
      rw [Bool.eq_false_iff, ne_eq, isAbsolute_iff cut]
      exact fun ⟨empty, _⟩ => first.segment_ne (by decide) empty
    rw [components_eq cut, relative, first.ofFirst?_segment, filterMap_segments others]
    rfl

/-! ### Components of a path -/

theorem exists_of_isAbsolute {p : Path} (h : p.isAbsolute) :
    ∃ cs, p.components = .root :: cs := by
  obtain ⟨first, rest, whole⟩ := p.exists_segments
  rw [components_eq whole, h]
  exact ⟨_, rfl⟩

theorem ofSegment?_ne_root (segment : Text) : Component.ofSegment? segment ≠ some .root := by
  unfold Component.ofSegment?
  split_ifs <;> simp

theorem root_not_mem {p : Path} (h : p.isAbsolute = false) : .root ∉ p.components := by
  obtain ⟨first, rest, whole⟩ := p.exists_segments
  rw [components_eq whole, h, List.mem_append, Option.mem_toList, List.mem_filterMap]
  rintro (found | ⟨segment, -, found⟩)
  · rw [Component.ofFirst?, if_neg Bool.false_ne_true] at found
    split at found
    · simp at found
    · exact ofSegment?_ne_root first found
  · exact ofSegment?_ne_root segment found

theorem isAbsolute_of_components {p : Path} {cs : List Component}
    (h : p.components = .root :: cs) : p.isAbsolute := by
  by_contra relative
  exact root_not_mem (Bool.eq_false_iff.mpr relative) (h ▸ List.mem_cons_self)

theorem eq_of_ofSegment? {segment n : Text}
    (h : Component.ofSegment? segment = some (.name n)) : n = segment := by
  unfold Component.ofSegment? at h
  split_ifs at h <;> simp_all

theorem isPlainName_of_mem {p : Path} {n : Text} (h : .name n ∈ p.components) :
    IsPlainName n := by
  obtain ⟨isSilent_eq, not_parent⟩ := of_name_mem_components h
  obtain ⟨first, rest, whole⟩ := p.exists_segments
  have segment : n ∈ p.segments := by
    rw [whole]
    rw [components_eq whole, List.mem_append, Option.mem_toList, List.mem_filterMap] at h
    rcases h with found | ⟨segment, hm, found⟩
    · unfold Component.ofFirst? at found
      split_ifs at found
      · simp at found
      · simp at found
      · exact eq_of_ofSegment? found ▸ List.mem_cons_self
    · exact eq_of_ofSegment? found ▸ List.mem_cons_of_mem _ hm
  exact ⟨isSilent_eq, not_parent, no_separator segment⟩

/-! ### Normal paths -/

theorem isStep_of_mem_names {p : Path} {names : List Text}
    (h : ∀ n ∈ names, .name n ∈ p.components) :
    ∀ c ∈ names.map Component.name, c.IsStep := by
  rw [List.forall_mem_map]
  exact fun n hm => isPlainName_of_mem (h n hm)

/-- What an absolute path is resolved to, and that it can be written. -/
theorem exists_normal_root {p : Path} (h : p.isAbsolute) :
    ∃ names : List Text, resolveComponents p.components = .root :: names.map .name ∧
      p.normalize.components = .root :: names.map .name := by
  obtain ⟨cs, whole⟩ := exists_of_isAbsolute h
  obtain ⟨names, resolved⟩ := resolveComponents_root cs
  rw [← whole] at resolved
  refine ⟨names, resolved, ?_⟩
  rw [normalize, resolved]
  refine components_ofComponents_root (isStep_of_mem_names (p := p) fun n hm => ?_)
  refine mem_of_mem_resolveComponents ?_
  rw [resolved]
  exact List.mem_cons_of_mem _ (List.mem_map_of_mem hm)

theorem exists_normal_relative {p : Path} (h : p.isAbsolute = false) :
    ∃ (count : Nat) (names : List Text),
      resolveComponents p.components = .replicate count .parent ++ names.map .name ∧
      p.normalize.components = .replicate count .parent ++ names.map .name := by
  obtain ⟨count, names, resolved⟩ := resolveComponents_relative (root_not_mem h)
  refine ⟨count, names, resolved, ?_⟩
  rw [normalize, resolved]
  refine components_ofComponents ?_
  rw [List.forall_mem_append]
  constructor
  · intro c hm
    rw [List.eq_of_mem_replicate hm]
    trivial
  · refine isStep_of_mem_names (p := p) fun n hm => mem_of_mem_resolveComponents ?_
    rw [resolved]
    exact List.mem_append_right _ (List.mem_map_of_mem hm)

theorem components_normalize (p : Path) :
    p.normalize.components = resolveComponents p.components := by
  cases kind : p.isAbsolute with
  | true =>
    obtain ⟨names, resolved, written⟩ := exists_normal_root kind
    rw [resolved, written]
  | false =>
    obtain ⟨count, names, resolved, written⟩ := exists_normal_relative kind
    rw [resolved, written]

theorem normalize_normalize (p : Path) : p.normalize.normalize = p.normalize := by
  have same : resolveComponents (resolveComponents p.components)
      = resolveComponents p.components := by
    cases kind : p.isAbsolute with
    | true =>
      obtain ⟨names, resolved, -⟩ := exists_normal_root kind
      rw [resolved, resolveComponents_root_names]
    | false =>
      obtain ⟨count, names, resolved, -⟩ := exists_normal_relative kind
      rw [resolved, resolveComponents_parents_names]
  rw [normalize, components_normalize, same]
  rfl

theorem walk_normalize (p : Path) (stack : List Text) : p.normalize.walk stack = p.walk stack := by
  rw [walk, components_normalize, foldl_enter_resolveComponents]
  rfl

/-! ### Walks along joined paths -/

theorem walk_of_components {p : Path} {names : List Text}
    (h : p.components = .root :: names.map .name) (stack : List Text) :
    p.walk stack = names.reverse := by
  rw [walk, h, List.foldl_cons, foldl_enter_names, Component.enter, List.append_nil]

/-- The dot that begins a path makes no step, so all segments are walked alike. -/
theorem walk_eq (p : Path) (stack : List Text) :
    p.walk stack = (p.segments.filterMap Component.ofSegment?).foldl Component.enter
      (if p.isAbsolute then [] else stack) := by
  obtain ⟨first, rest, whole⟩ := p.exists_segments
  rw [walk, components_eq whole, whole, List.foldl_append]
  unfold Component.ofFirst?
  split
  · rename_i absolute
    obtain ⟨rfl, -⟩ := (isAbsolute_iff whole).mp absolute
    rfl
  · split
    · rename_i dot
      rw [dot]
      rfl
    · rw [List.filterMap_cons]
      cases Component.ofSegment? first <;> rfl

theorem segments_append (t u : Text) :
    segments ⟨t ++ '/' :: u⟩ = segments ⟨t⟩ ++ segments ⟨u⟩ :=
  List.splitOn_append_cons_self ..

theorem walk_append (t : Text) {u : Text} (relative : isAbsolute ⟨u⟩ = false)
    (stack : List Text) :
    walk ⟨t ++ '/' :: u⟩ stack = walk ⟨u⟩ (walk ⟨t ++ ['/']⟩ stack) := by
  have begins : isAbsolute ⟨t ++ '/' :: u⟩ = isAbsolute ⟨t ++ ['/']⟩ := by
    cases t <;> rfl
  have nothing : (segments ⟨[]⟩).filterMap Component.ofSegment? = [] := by decide
  rw [walk_eq, walk_eq ⟨u⟩, walk_eq ⟨t ++ ['/']⟩, begins, relative, segments_append,
    segments_append, List.filterMap_append, List.filterMap_append, nothing, List.append_nil,
    List.foldl_append, if_neg Bool.false_ne_true]

/-- A separator at the end makes no step. -/
theorem walk_separator {t : Text} (some_left : t ≠ []) (stack : List Text) :
    walk ⟨t ++ ['/']⟩ stack = walk ⟨t⟩ stack := by
  have begins : isAbsolute ⟨t ++ ['/']⟩ = isAbsolute ⟨t⟩ := by
    obtain ⟨c, t, rfl⟩ := List.exists_cons_of_ne_nil some_left
    rfl
  have nothing : (segments ⟨[]⟩).filterMap Component.ofSegment? = [] := by decide
  rw [walk_eq, walk_eq ⟨t⟩, begins, segments_append, List.filterMap_append, nothing,
    List.append_nil]

/-- What a path leads to when it is seen from another one. -/
theorem walk_join (p q : Path) (stack : List Text) :
    (p.join q).walk stack = q.walk (p.walk stack) := by
  obtain ⟨t⟩ := p
  obtain ⟨u⟩ := q
  unfold join
  split
  · rename_i absolute
    rw [walk_eq, walk_eq ⟨u⟩, if_pos absolute, if_pos absolute]
  · rename_i relative
    rw [Bool.not_eq_true] at relative
    split
    · rename_i ends
      rw [Bool.or_eq_true, List.isEmpty_iff, decide_eq_true_eq] at ends
      rcases ends with rfl | ends
      · rfl
      · obtain ⟨t, rfl⟩ := List.getLast?_eq_some_iff.mp ends
        rw [List.append_assoc, List.singleton_append]
        exact walk_append t relative stack
    · rename_i solid
      rw [walk_append t relative, walk_separator]
      rintro rfl
      exact solid rfl

theorem isAbsolute_join {p : Path} (h : p.isAbsolute) (q : Path) : (p.join q).isAbsolute := by
  obtain ⟨t⟩ := p
  obtain ⟨u⟩ := q
  obtain ⟨t, rfl⟩ := List.head?_eq_some_iff.mp (beq_iff_eq.mp h)
  unfold join
  split
  · assumption
  · split <;> rfl

theorem isWithin_iff {root p : Path} {base names : List Text}
    (hr : root.components = .root :: base.map .name)
    (hp : p.components = .root :: names.map .name) : root.isWithin p ↔ base <+: names := by
  rw [isWithin, hr, hp, List.isPrefixOf_iff_prefix, List.prefix_cons_inj]
  exact List.prefix_map_iff_of_injective fun _ _ => Component.name.inj

end HtmlTemplate.Path

namespace HtmlTemplate.Store

open HtmlTemplate.Path

/-! ### Fragments -/

section Resolve

variable {store : Store} {base : List Text}
  (rooted : store.root.components = .root :: base.map .name)

include rooted

/-- The file of a fragment lies where the walk along its name leads from the root. -/
theorem components_candidate (name : Text) :
    ∃ names : List Text, (store.candidate name).components = .root :: names.map .name ∧
      names.reverse = walk ⟨name ++ ".xiv".toList⟩ base.reverse := by
  have absolute := isAbsolute_join (isAbsolute_of_components rooted) ⟨name ++ ".xiv".toList⟩
  obtain ⟨names, -, written⟩ := exists_normal_root absolute
  refine ⟨names, written, ?_⟩
  calc names.reverse
      = (store.candidate name).walk [] := (walk_of_components written []).symm
    _ = (store.root.join ⟨name ++ ".xiv".toList⟩).walk [] := walk_normalize ..
    _ = walk ⟨name ++ ".xiv".toList⟩ (store.root.walk []) := walk_join ..
    _ = walk ⟨name ++ ".xiv".toList⟩ base.reverse := by rw [walk_of_components rooted]

theorem isWithin_candidate_iff (name : Text) : store.root.isWithin (store.candidate name) ↔
    base.reverse <:+ walk ⟨name ++ ".xiv".toList⟩ base.reverse := by
  obtain ⟨names, written, walked⟩ := components_candidate rooted name
  rw [isWithin_iff rooted written, ← walked, List.reverse_suffix]

/-- A file that is not there is resolved by its name alone. -/
theorem exists_resolve_iff {name : Text}
    (absent : store.snapshot.isPresent (store.candidate name) = false) :
    (∃ path, store.resolve name = .ok path) ↔
      base.reverse <:+ walk ⟨name ++ ".xiv".toList⟩ base.reverse := by
  rw [← isWithin_candidate_iff rooted]
  unfold resolve
  cases within : store.root.isWithin (store.candidate name) <;> simp [within, absent]

omit rooted in
/-- What is resolved lies within the root and consists of names. -/
theorem exists_components_of_resolve (absolute : store.root.isAbsolute) {name : Text} {path : Path}
    (h : store.resolve name = .ok path) :
    store.root.isWithin path ∧
      ∃ names : List Text, path.components = .root :: names.map .name := by
  unfold resolve at h
  dsimp only at h
  split at h
  · simp at h
  · rename_i within
    split at h
    · obtain rfl := Except.ok.inj h
      obtain ⟨names, -, written⟩ := exists_normal_root
        (isAbsolute_join absolute ⟨name ++ ".xiv".toList⟩)
      exact ⟨by simpa using within, names, written⟩
    · split at h
      · simp at h
      · rename_i path' found
        split at h
        · rename_i within'
          obtain rfl := Except.ok.inj h
          obtain ⟨names, -, written⟩ := store.snapshot.canonical_isPlain found
          exact ⟨within', names, written⟩
        · simp at h

theorem components_of_resolve {name : Text} {path : Path} (h : store.resolve name = .ok path) :
    ∃ names : List Text, path.components = store.root.components ++ names.map .name := by
  obtain ⟨within, names, written⟩ :=
    exists_components_of_resolve (isAbsolute_of_components rooted) h
  obtain ⟨names', rfl⟩ := (isWithin_iff rooted written).mp within
  exact ⟨names', by rw [written, rooted, List.map_append, List.cons_append]⟩

end Resolve

/-- Resolving a path without a look at the disk is exact. What it is resolved to is walked as
the path is, from wherever the walk starts. It is the root and names, or parent steps and names
when the path is relative, and resolving it again changes nothing. So below a root of plain
names a fragment that is not there is resolved exactly when the walk along its name ends within
the root, and whatever is resolved consists of the root and plain names. -/
theorem resolution_is_exact :
    (∀ p : Path,
      (∀ stack, p.normalize.walk stack = p.walk stack) ∧
      (p.isAbsolute →
        ∃ names : List Text, p.normalize.components = .root :: names.map .name) ∧
      (p.isAbsolute = false →
        ∃ (count : Nat) (names : List Text),
          p.normalize.components = .replicate count .parent ++ names.map .name) ∧
      p.normalize.normalize = p.normalize) ∧
    ∀ (store : Store) (base : List Text), store.root.components = .root :: base.map .name →
      ∀ name,
        (store.snapshot.isPresent (store.candidate name) = false →
          ((∃ path, store.resolve name = .ok path) ↔
            base.reverse <:+ walk ⟨name ++ ".xiv".toList⟩ base.reverse)) ∧
        ∀ path, store.resolve name = .ok path →
          ∃ names : List Text, path.components = store.root.components ++ names.map .name := by
  constructor
  · intro p
    refine ⟨walk_normalize p, ?_, ?_, normalize_normalize p⟩
    · intro absolute
      obtain ⟨names, -, written⟩ := exists_normal_root absolute
      exact ⟨names, written⟩
    · intro relative
      obtain ⟨count, names, -, written⟩ := exists_normal_relative relative
      exact ⟨count, names, written⟩
  · intro store base rooted name
    exact ⟨exists_resolve_iff rooted, fun path => components_of_resolve rooted⟩

/-- One fragment, below a directory whose name begins that of another one. -/
def single : Store where
  snapshot := .ofFiles [{ names := ["t".toList, "d.xiv".toList], content := [] }]
  root := .ofNames ["t".toList]

/-- A name may leave the root when it comes back, and a common start of the texts is not
enough. -/
theorem names_are_resolved_exactly :
    (∃ names : List Text,
      (ofString "/t/../..//u/.").normalize.components = .root :: names.map .name) ∧
    (∃ (count : Nat) (names : List Text), (ofString "./a/../../b").normalize.components
      = .replicate count .parent ++ names.map .name) ∧
    (∃ path, single.resolve "../t/b".toList = .ok path) ∧
    (¬ ∃ path, single.resolve "../tb".toList = .ok path) ∧
    single.resolve "b/..//./d".toList = .ok (.ofNames ["t".toList, "d.xiv".toList]) ∧
    ∃ names : List Text, (ofNames ["t".toList, "d.xiv".toList]).components
      = single.root.components ++ names.map .name := by
  have rooted : single.root.components = .root :: ["t".toList].map .name := by decide
  obtain ⟨normal, exact_below⟩ := resolution_is_exact
  obtain ⟨-, rooted_normal, -, -⟩ := normal (ofString "/t/../..//u/.")
  obtain ⟨-, -, relative_normal, -⟩ := normal (ofString "./a/../../b")
  have below := exact_below single ["t".toList] rooted
  have found : single.resolve "b/..//./d".toList
      = .ok (.ofNames ["t".toList, "d.xiv".toList]) := by decide +kernel
  refine ⟨rooted_normal (by decide), relative_normal (by decide), ?_, ?_, found,
    (below "b/..//./d".toList).2 _ found⟩
  · exact ((below "../t/b".toList).1 (by decide +kernel)).mpr (by decide +kernel)
  · rw [(below "../tb".toList).1 (by decide +kernel)]
    decide +kernel

end HtmlTemplate.Store
