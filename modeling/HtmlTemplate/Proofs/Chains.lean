import HtmlTemplate.Placeholder

/-!
# Chains of scopes

Scopes are nested by deriving one from another, and a name may be bound anew in the innermost.
Main result: such a chain gives every path the value that one flat scope gives it, in which each
name has its innermost value. What an outer scope binds to the same name does not matter.
-/
namespace HtmlTemplate

/-- A walk through nested mappings, by one key at each, from a value to another. -/
inductive Value.LeadsTo : Value → (keys : List Text) → Value → Prop
  | here {v : Value} : LeadsTo v [] v
  | entry {entries : List (Text × Value)} {key : Text} {v w : Value} {keys : List Text} :
      entries.lookup key = some v → LeadsTo v keys w → LeadsTo (.mapping entries) (key :: keys) w

theorem Value.descend_eq_some_iff {keys : List Text} {v w : Value} :
    descend keys v = some w ↔ LeadsTo v keys w := by
  induction keys generalizing v with
  | nil =>
    constructor
    · intro h
      obtain rfl := Option.some.inj h
      exact .here
    · rintro ⟨⟩
      rfl
  | cons key keys ih =>
    constructor
    · intro h
      cases v with
      | mapping entries =>
        obtain ⟨next, found, h⟩ := Option.bind_eq_some_iff.mp h
        exact .entry found (ih.mp h)
      | _ => simp [descend] at h
    · intro h
      cases h with
      | entry found walk => exact Option.bind_eq_some_iff.mpr ⟨_, found, ih.mpr walk⟩

theorem Value.isNull_iff {v : Value} : v.isNull ↔ v = .null := by
  cases v <;> simp [isNull]

namespace Scope

variable {scope other : Scope} {flat : Bindings}

/-! ### Scopes with the same names -/

/-- The value at a path, by the segments between its points: the first one is a name, the others
are keys of mappings, and null is no value. -/
theorem get_eq_some_iff {path first : Text} {rest : List Text}
    (cut : path.splitOn '.' = first :: rest) {v : Value} : scope.get path = some v ↔
      ∃ u, scope.lookup first = some u ∧ u.LeadsTo rest v ∧ v ≠ .null := by
  have kept : (!v.isNull) = true ↔ v ≠ .null := by simp [← Value.isNull_iff]
  rw [get, cut]
  simp only [Option.filter_eq_some_iff, Option.bind_eq_some_iff, Value.descend_eq_some_iff, kept]
  constructor
  · rintro ⟨⟨u, found, walk⟩, present⟩
    exact ⟨u, found, walk, present⟩
  · rintro ⟨u, found, walk, present⟩
    exact ⟨⟨u, found, walk⟩, present⟩

/-- Nothing but the value of its first segment matters to a path. -/
theorem get_congr (same : ∀ key, scope.lookup key = other.lookup key) (path : Text) :
    scope.get path = other.get path := by
  unfold get
  split
  · rfl
  · rw [same]

theorem holds_congr (same : ∀ path, scope.get path = other.get path) (expression : Text) :
    scope.holds expression = other.holds expression := by
  simp only [holds, same]

theorem resolve_congr (same : ∀ path, scope.get path = other.get path) (p : Placeholder) :
    p.resolve scope = p.resolve other := by
  unfold Placeholder.resolve
  rw [same]

/-! ### Innermost values -/

/-- The bindings of the scope and of the scopes around it, innermost first. -/
def levels : Scope → List Bindings
  | top bindings => [bindings]
  | inner bindings outer => bindings :: outer.levels

/-- The value of a name in the innermost bindings that have it. -/
def IsInnermost (scope : Scope) (key : Text) (value : Value) : Prop :=
  ∃ before bindings after, scope.levels = before ++ bindings :: after ∧
    (∀ b ∈ before, b.lookup key = none) ∧ bindings.lookup key = some value

theorem isInnermost_inner {bindings : Bindings} {key : Text} {value : Value} :
    IsInnermost (inner bindings scope) key value ↔ bindings.lookup key = some value ∨
      bindings.lookup key = none ∧ scope.IsInnermost key value := by
  constructor
  · rintro ⟨before, here, after, cut, hidden, found⟩
    cases before with
    | nil =>
      obtain ⟨rfl, -⟩ := List.cons.inj cut
      exact .inl found
    | cons b before =>
      obtain ⟨rfl, outer_cut⟩ := List.cons.inj cut
      obtain ⟨unbound, outer_hidden⟩ := List.forall_mem_cons.mp hidden
      exact .inr ⟨unbound, before, here, after, outer_cut, outer_hidden, found⟩
  · rintro (found | ⟨unbound, before, here, after, cut, hidden, found⟩)
    · exact ⟨[], bindings, scope.levels, rfl, List.forall_mem_nil _, found⟩
    · refine ⟨bindings :: before, here, after, ?_, List.forall_mem_cons.mpr ⟨unbound, hidden⟩, found⟩
      rw [levels, cut]
      rfl

theorem isInnermost_top {bindings : Bindings} {key : Text} {value : Value} :
    IsInnermost (top bindings) key value ↔ bindings.lookup key = some value := by
  constructor
  · rintro ⟨before, here, after, cut, -, found⟩
    cases before with
    | nil =>
      obtain ⟨rfl, -⟩ := List.cons.inj cut
      exact found
    | cons b before => simp [levels] at cut
  · intro found
    exact ⟨[], bindings, [], rfl, List.forall_mem_nil _, found⟩

theorem lookup_eq_some_iff {key : Text} {value : Value} :
    scope.lookup key = some value ↔ scope.IsInnermost key value := by
  induction scope with
  | top bindings => exact isInnermost_top.symm
  | inner bindings outer ih => rw [isInnermost_inner, lookup, Option.or_eq_some_iff, ih]

/-- Flat bindings of a chain hold, for each name, its innermost value. -/
def Flattens (flat : Bindings) (scope : Scope) : Prop :=
  ∀ key value, flat.lookup key = some value ↔ scope.IsInnermost key value

theorem flattens_iff : Flattens flat scope ↔ ∀ key, scope.lookup key = (top flat).lookup key := by
  constructor
  · intro h key
    apply Option.ext
    intro value
    exact lookup_eq_some_iff.trans (h key value).symm
  · intro same key value
    rw [← lookup_eq_some_iff, same key]
    rfl

/-! ### Chains -/

theorem lookup_binding (key k : Text) (v : Value) (bindings : Bindings) :
    List.lookup key ((k, v) :: bindings) = if key = k then some v else bindings.lookup key := by
  by_cases here : key = k
  · simp [here]
  · have other : (key == k) = false := by simpa using here
    simp [List.lookup_cons, here, other]

/-- A name is bound in the scope at hand, or in a scope derived from it. -/
inductive Step where
  | bind (key : Text) (value : Value)
  | derive (key : Text) (value : Value)
deriving Repr

namespace Step

def key : Step → Text
  | bind key _ => key
  | derive key _ => key

def value : Step → Value
  | bind _ value => value
  | derive _ value => value

/-- The scope at hand after the step. -/
def apply : Step → Scope → Scope
  | bind key value, scope => scope.bind key value
  | derive key value, scope => scope.derive key value

/-- Whatever the step, its name has its value afterwards, and all other names keep theirs. -/
theorem lookup_apply (step : Step) (scope : Scope) (key : Text) :
    (step.apply scope).lookup key
      = if key = step.key then some step.value else scope.lookup key := by
  have first (k : Text) (v : Value) (bindings : Bindings) (around : Option Value) :
      (List.lookup key ((k, v) :: bindings)).or around
        = if key = k then some v else (bindings.lookup key).or around := by
    rw [lookup_binding]
    split <;> simp
  cases step with
  | bind k v =>
    cases scope with
    | top bindings => exact lookup_binding key k v bindings
    | inner bindings outer => exact first k v bindings (outer.lookup key)
  | derive k v => exact first k v [] (scope.lookup key)

end Step

/-- The chain that the steps make of a scope with those bindings. -/
def chain (start : Bindings) (steps : List Step) : Scope :=
  steps.foldl (fun scope step => step.apply scope) (top start)

/-- The bindings after all steps, each made in place. -/
def rebound (start : Bindings) (steps : List Step) : Bindings :=
  steps.foldl (fun flat step => (step.key, step.value) :: flat) start

/-- A step that is made in place gives flat bindings of what it makes of a chain. -/
theorem Flattens.apply (h : Flattens flat scope) (step : Step) :
    Flattens ((step.key, step.value) :: flat) (step.apply scope) := by
  rw [flattens_iff] at h ⊢
  intro key
  have in_place := (Step.bind step.key step.value).lookup_apply (top flat) key
  rw [Step.lookup_apply, h key]
  exact in_place.symm

theorem flattens_rebound (start : Bindings) (steps : List Step) :
    Flattens (rebound start steps) (chain start steps) := by
  have run {flat : Bindings} {scope : Scope} (h : Flattens flat scope) :
      Flattens (rebound flat steps) (steps.foldl (fun scope step => step.apply scope) scope) := by
    induction steps generalizing flat scope with
    | nil => exact h
    | cons step steps ih => exact ih (h.apply step)
  exact run (flattens_iff.mpr fun _ => rfl)

/-- A path that is cut at its points. -/
structure IsCut (path first : Text) (rest : List Text) : Prop where
  intercalate_eq : ['.'].intercalate (first :: rest) = path
  no_point : ∀ segment ∈ first :: rest, '.' ∉ segment

theorem IsCut.splitOn_eq {path first : Text} {rest : List Text} (h : IsCut path first rest) :
    path.splitOn '.' = first :: rest := by
  rw [← h.intercalate_eq]
  exact List.splitOn_intercalate '.' h.no_point (List.cons_ne_nil first rest)

theorem exists_isCut (path : Text) : ∃ first rest, IsCut path first rest := by
  obtain ⟨first, rest, cut⟩ := List.exists_cons_of_ne_nil (List.splitOn_ne_nil '.' path)
  refine ⟨first, rest, ?_, ?_⟩
  · rw [← cut, List.intercalate_splitOn]
  · intro segment hm
    exact Text.not_mem_of_mem_splitOn (cut ▸ hm)

/-- After a step that binds the first segment of a path, only its value counts. -/
theorem get_apply {step : Step} {path : Text} {rest : List Text} (cut : IsCut path step.key rest)
    {v : Value} : (step.apply scope).get path = some v ↔ step.value.LeadsTo rest v ∧ v ≠ .null := by
  rw [get_eq_some_iff cut.splitOn_eq, step.lookup_apply, if_pos rfl]
  constructor
  · rintro ⟨u, found, walk, present⟩
    obtain rfl := Option.some.inj found
    exact ⟨walk, present⟩
  · rintro ⟨walk, present⟩
    exact ⟨step.value, rfl, walk, present⟩

/-- A chain of scopes behaves as one flat scope. Flat bindings that hold the innermost value of
each name exist: those of the same steps, each made in place. With any such bindings, and for
every path, the chain and the flat scope give the same value; it is that at the end of the walk
from the innermost value of the path's first segment by the keys of the others, if there is one
and it is not null. So all conditions hold alike, and all placeholders print the same. After a
step, what was bound to its name before it does not matter to the paths that begin with it. -/
theorem chains_are_flat (start : Bindings) (steps : List Step) :
    Flattens (rebound start steps) (chain start steps) ∧
    (∀ flat, Flattens flat (chain start steps) →
      (∀ path, (chain start steps).get path = (top flat).get path) ∧
      (∀ path, ∃ first rest, IsCut path first rest ∧ ∀ v, (top flat).get path = some v ↔
        ∃ u, flat.lookup first = some u ∧ u.LeadsTo rest v ∧ v ≠ .null) ∧
      (∀ expression, (chain start steps).holds expression = (top flat).holds expression) ∧
      ∀ p : Placeholder, p.resolve (chain start steps) = p.resolve (top flat)) ∧
    ∀ (step : Step) path rest, IsCut path step.key rest → ∀ v,
      (step.apply (chain start steps)).get path = some v ↔
        step.value.LeadsTo rest v ∧ v ≠ .null := by
  refine ⟨flattens_rebound start steps, ?_, ?_⟩
  · intro flat flattens
    have same (path : Text) : (chain start steps).get path = (top flat).get path :=
      get_congr (flattens_iff.mp flattens) path
    refine ⟨same, ?_, holds_congr same, resolve_congr same⟩
    intro path
    obtain ⟨first, rest, cut⟩ := exists_isCut path
    exact ⟨first, rest, cut, fun v => get_eq_some_iff cut.splitOn_eq⟩
  · intro step path rest cut v
    exact get_apply cut

/-- A name is bound three times over: the innermost value is a mapping without the key that the
one around it has. A null hides the value around it as well. -/
theorem inner_mapping_hides_outer :
    let user (key value : String) : Value := .mapping [(key.toList, .text value.toList)]
    let start : Bindings := [("user".toList, user "name" "a"), ("n".toList, .bool true)]
    let steps : List Step := [.derive "item".toList (.text "i".toList), .bind "n".toList .null,
      .derive "user".toList (user "name" "b"), .bind "user".toList (user "age" "7")]
    let flat : Bindings := [("n".toList, .null), ("item".toList, .text "i".toList),
      ("user".toList, user "age" "7")]
    Flattens flat (chain start steps) ∧
      (chain start steps).get "user.name".toList = none ∧
      (chain start steps).get "user.age".toList = (top flat).get "user.age".toList ∧
      (chain start steps).holds "not n".toList = true ∧
      Placeholder.resolve ⟨"item".toList, none⟩ (chain start steps) = "i".toList ∧
      ((Step.derive "user".toList .null).apply (chain start steps)).get "user.age".toList = none := by
  intro user start steps flat
  have flattens : Flattens flat (chain start steps) := by
    rw [flattens_iff]
    intro key
    by_cases is_user : key = "user".toList
    · subst is_user
      rfl
    by_cases is_item : key = "item".toList
    · subst is_item
      rfl
    by_cases is_n : key = "n".toList
    · subst is_n
      rfl
    show (List.lookup key [("user".toList, _), ("user".toList, _)]).or
      ((List.lookup key [("n".toList, _), ("item".toList, _)]).or
        (List.lookup key [("user".toList, _), ("n".toList, _)])) = List.lookup key flat
    simp only [flat, lookup_binding, if_neg is_user, if_neg is_item, if_neg is_n]
    rfl
  obtain ⟨-, agree, hides⟩ := chains_are_flat start steps
  obtain ⟨same, -, conditions, prints⟩ := agree flat flattens
  have cut : IsCut "user.age".toList "user".toList ["age".toList] := ⟨rfl, by decide⟩
  refine ⟨flattens, ?_, same _, ?_, ?_, ?_⟩
  · rw [same]
    rfl
  · rw [conditions]
    decide
  · rw [prints]
    rfl
  · rw [Option.eq_none_iff_forall_ne_some]
    intro v found
    obtain ⟨walk, -⟩ := (hides (.derive "user".toList .null) _ _ cut v).mp found
    cases walk

end Scope

end HtmlTemplate
