import HtmlTemplate.Proofs.Lexed

/-!
# Evaluation in one pass

What a template means, without passes and seals. Every node is visited once, in the scope
of its place in the template, and what comes out is not looked at again. Main result: no
directive comes out.
-/
namespace HtmlTemplate

/-- The tag with its attribute values resolved. -/
def Scope.fillTag (scope : Scope) (tag : Tag) : Tag :=
  { tag with attributes := tag.attributes.map fun a => { a with value := scope.fill a.value } }

namespace OnePass

/-- What an inclusion comes to, by its tag, its evaluated children and its scope. -/
abbrev Include := Tag → (slot : Forest) → Scope → Option Forest

/-- The header of a loop and its items. -/
def items? (scope : Scope) (expression : Text) : Option (LoopHeader × List Value) := do
  let header ← LoopHeader.read? expression
  let items ← (LoopSource.ofValue? (scope.get header.source)).items.toOption
  return (header, items)

/-- The copies for the items of a loop, in order. -/
def each (copy : Value → Option Forest) : List Value → Option Forest
  | [] => some .nil
  | item :: items => do
    let first ← copy item
    let others ← each copy items
    return first ++ others

section Elements

variable (onInclusion : Include) (children : Scope → Option Forest)

/-- An element that stays, unless it is an inclusion. -/
def plain (tag : Tag) (scope : Scope) : Option Forest := do
  let children ← children scope
  if tag.name = inclusionTag then onInclusion tag children scope
  else return .element (scope.fillTag tag) false children .nil

/-- An element that disappears where its condition does not hold. -/
def conditional (tag : Tag) (scope : Scope) : Option Forest :=
  match tag.takeDirective? .condition with
  | some (condition, tag) =>
    if scope.holds condition then plain onInclusion children tag scope else some .nil
  | none => plain onInclusion children tag scope

/-- An element, once for every item if it carries a loop. -/
def repeated (tag : Tag) (scope : Scope) : Option Forest :=
  match tag.takeDirective? .iterate with
  | some (expression, tag) => do
    let (header, items) ← items? scope expression
    each (fun item =>
      conditional onInclusion children tag (scope.derive header.variableName item)) items
  | none => conditional onInclusion children tag scope

end Elements

/-- Evaluates a template in a scope, given what inclusions come to. -/
def evaluateWith (onInclusion : Include) : Forest → Scope → Option Forest
  | .nil, _ => some .nil
  | .element tag _ children rest, scope => do
    let here ← repeated onInclusion (evaluateWith onInclusion children) tag scope
    let rest ← evaluateWith onInclusion rest scope
    return here ++ rest
  | .text content rest, scope => do
    let rest ← evaluateWith onInclusion rest scope
    return .text (scope.fillEncoded content) rest
  | .comment body rest, scope => do
    let rest ← evaluateWith onInclusion rest scope
    if hiddenCommentStart <+: body.trimStart then return rest else return .comment body rest
  | .declaration raw rest, scope => do
    let rest ← evaluateWith onInclusion rest scope
    return .declaration raw rest

/-- Evaluates the body of a fragment in a scope of its arguments only, fills its first slot
and wraps it. -/
def inclusion (store : Store) (evaluate : Forest → Scope → Option Forest) : Include :=
  fun tag slot scope => do
    let call := Inclusion.ofAttributes tag.attributes
    let name ← call.name?
    let path ← (store.resolve name).toOption
    let body ← (store.load path).toOption
    let body ← evaluate body (Expansion.argumentScope scope call.arguments)
    return .element ⟨"div".toList, [⟨"class".toList, "x-".toList ++ Expansion.className name⟩]⟩
      false (Expansion.fillSlot slot body).trim .nil

/-- What inclusions come to where fragments nest at most that deep. -/
def includeAt (store : Store) : (depth : Nat) → Include
  | 0 => fun _ _ _ => none
  | depth + 1 => inclusion store (evaluateWith (includeAt store depth))

/-- What a template means in a scope, where fragments nest at most that deep. -/
def evaluate (store : Store) (depth : Nat) : Forest → Scope → Option Forest :=
  evaluateWith (includeAt store depth)

end OnePass

/-- No loop, no condition and no inclusion. -/
structure Tag.IsExpanded (tag : Tag) : Prop where
  name_ne : tag.name ≠ inclusionTag
  no_loop : ∀ a ∈ tag.attributes, a.name ≠ "x-for".toList
  no_condition : ∀ a ∈ tag.attributes, a.name ≠ "x-if".toList

/-- No directive and no hidden comment at any depth, sealed or not. -/
def Forest.IsExpanded (f : Forest) : Prop :=
  f.Every Tag.IsExpanded fun body => ¬hiddenCommentStart <+: body.trimStart

/-- The tag around the body of a fragment is no directive, whatever its class. -/
theorem Tag.isExpanded_wrapper (value : Text) :
    IsExpanded ⟨"div".toList, [⟨"class".toList, value⟩]⟩ := by
  constructor
  · change "div".toList ≠ inclusionTag
    decide
  · simp only [List.mem_singleton, forall_eq]
    change "class".toList ≠ "x-for".toList
    decide
  · simp only [List.mem_singleton, forall_eq]
    change "class".toList ≠ "x-if".toList
    decide

namespace OnePass

open Directive (Kind)

/-- Where slot content holds no directive, neither does what the inclusion comes to. -/
def KeepsExpanded (onInclusion : Include) : Prop :=
  ∀ tag slot scope r, slot.IsExpanded → onInclusion tag slot scope = some r → r.IsExpanded

section Elements

variable {onInclusion : Include} {children : Scope → Option Forest} {tag : Tag} {scope : Scope}
  {g : Forest} {P : Forest → Prop}

theorem of_each {copy : Value → Option Forest} {items : List Value} (hn : P .nil)
    (ha : ∀ f g, P f → P g → P (f ++ g)) (hc : ∀ item r, copy item = some r → P r)
    (h : each copy items = some g) : P g := by
  induction items generalizing g with
  | nil =>
    obtain rfl := by simpa [each] using h
    exact hn
  | cons item items ih =>
    simp only [each, Option.bind_eq_bind, Option.bind_eq_some_iff, Option.pure_def,
      Option.some.injEq] at h
    obtain ⟨first, hf, others, ho, rfl⟩ := h
    exact ha first others (hc item first hf) (ih ho)

theorem of_conditional (hn : P .nil)
    (hp : plain onInclusion children (tag.withoutDirective .condition) scope = some g → P g)
    (h : conditional onInclusion children tag scope = some g) : P g := by
  unfold conditional at h
  split at h
  · rename_i taken
    split at h
    · rw [Tag.withoutDirective_of_some taken] at hp
      exact hp h
    · obtain rfl := by simpa using h
      exact hn
  · rename_i taken
    rw [Tag.withoutDirective_of_none taken] at hp
    exact hp h

/-- What holds of the element without its loop and its condition, in whatever scope, holds of
all that the element comes to. -/
theorem of_repeated (hn : P .nil) (ha : ∀ f g, P f → P g → P (f ++ g))
    (hp : ∀ scope g, plain onInclusion children tag.undirected scope = some g → P g)
    (h : repeated onInclusion children tag scope = some g) : P g := by
  unfold repeated at h
  split at h
  · rename_i taken
    simp only [Option.bind_eq_bind, Option.bind_eq_some_iff] at h
    obtain ⟨found, -, he⟩ := h
    refine of_each hn ha ?_ he
    intro item r hr
    rw [Tag.undirected, Tag.withoutDirective_of_some taken] at hp
    exact of_conditional hn (hp _ _) hr
  · rename_i taken
    rw [Tag.undirected, Tag.withoutDirective_of_none taken] at hp
    exact of_conditional hn (hp _ _) h

theorem isExpanded_plain (hl : tag.Lacks .iterate) (hn : tag.Lacks .condition)
    (hi : KeepsExpanded onInclusion)
    (hc : ∀ scope r, children scope = some r → r.IsExpanded)
    (h : plain onInclusion children tag scope = some g) : g.IsExpanded := by
  simp only [plain, Option.bind_eq_bind, Option.bind_eq_some_iff] at h
  obtain ⟨inner, hin, h⟩ := h
  have inner_expanded := hc scope inner hin
  split at h
  · exact hi _ _ _ _ inner_expanded h
  · rename_i name_ne
    obtain rfl := by simpa using h
    refine ⟨⟨name_ne, ?_, ?_⟩, inner_expanded, trivial⟩
    -- Resolving values leaves the names as they are.
    · intro a hm
      obtain ⟨b, hb, rfl⟩ := List.mem_map.mp hm
      exact fun he => hl b hb (Kind.ofName?_eq_iterate.mpr he)
    · intro a hm
      obtain ⟨b, hb, rfl⟩ := List.mem_map.mp hm
      exact fun he => hn b hb (Kind.ofName?_eq_condition.mpr he)

theorem isExpanded_repeated (hd : tag.HasDistinctNames)
    (hi : KeepsExpanded onInclusion)
    (hc : ∀ scope r, children scope = some r → r.IsExpanded)
    (h : repeated onInclusion children tag scope = some g) : g.IsExpanded := by
  refine of_repeated ?_ ?_ ?_ h
  · trivial
  · exact fun f g hf hg => Forest.every_append.mpr ⟨hf, hg⟩
  · intro scope g
    exact isExpanded_plain hd.lacks_iterate_undirected hd.lacks_condition_undirected hi hc

end Elements

theorem isExpanded_evaluateWith {onInclusion : Include} {f g : Forest} {scope : Scope}
    (hi : KeepsExpanded onInclusion)
    (hf : f.Every Tag.HasDistinctNames fun _ => True)
    (h : evaluateWith onInclusion f scope = some g) : g.IsExpanded := by
  induction f generalizing scope g with
  | nil =>
    obtain rfl := by simpa [evaluateWith] using h
    trivial
  | element tag s children rest ihc ihr =>
    obtain ⟨hd, hc, hr⟩ := hf
    simp only [evaluateWith, Option.bind_eq_bind, Option.bind_eq_some_iff, Option.pure_def,
      Option.some.injEq] at h
    obtain ⟨here, hh, rest', hrest, rfl⟩ := h
    have here_expanded := isExpanded_repeated hd hi (fun _ _ => ihc hc) hh
    exact Forest.every_append.mpr ⟨here_expanded, ihr hr hrest⟩
  | comment body rest ih =>
    simp only [evaluateWith, Option.bind_eq_bind, Option.bind_eq_some_iff] at h
    obtain ⟨rest', hrest, h⟩ := h
    have rest_expanded := ih hf.2 hrest
    split at h
    · obtain rfl := by simpa using h
      exact rest_expanded
    · rename_i shown
      obtain rfl := by simpa using h
      exact ⟨shown, rest_expanded⟩
  | text content rest ih | declaration raw rest ih =>
    simp only [evaluateWith, Option.bind_eq_bind, Option.bind_eq_some_iff, Option.pure_def,
      Option.some.injEq] at h
    obtain ⟨rest', hrest, rfl⟩ := h
    exact ih (g := rest') hf hrest

/-- An inclusion comes to something when its fragment can be found and its body evaluated. -/
theorem inclusion_eq_some {store : Store} {eval : Forest → Scope → Option Forest} {tag : Tag}
    {slot r : Forest} {scope : Scope} (h : inclusion store eval tag slot scope = some r) :
    ∃ name path body body', store.resolve name = .ok path ∧ store.load path = .ok body ∧
      eval body (Expansion.argumentScope scope (Inclusion.ofAttributes tag.attributes).arguments)
        = some body' ∧
      r = .element ⟨"div".toList, [⟨"class".toList, "x-".toList ++ Expansion.className name⟩]⟩
        false (Expansion.fillSlot slot body').trim .nil := by
  have found {α : Type} {x : Except Failure α} {a : α} (hx : x.toOption = some a) : x = .ok a := by
    cases x with
    | error e => simp [Except.toOption] at hx
    | ok b => simpa [Except.toOption] using hx
  simp only [inclusion, Option.bind_eq_bind, Option.bind_eq_some_iff, Option.pure_def,
    Option.some.injEq] at h
  obtain ⟨name, -, path, resolved, body, loaded, body', hb, rfl⟩ := h
  exact ⟨name, path, body, body', found resolved, found loaded, hb, rfl⟩

/-- The wrapper of an inclusion holds no directive when the slot content holds none. -/
theorem isExpanded_includeAt (store : Store) (depth : Nat) :
    KeepsExpanded (includeAt store depth) := by
  induction depth with
  | zero =>
    intro tag slot scope r _ h
    simp [includeAt] at h
  | succ depth ih =>
    intro tag slot scope r hs h
    obtain ⟨name, path, body, body', -, loaded, hb, rfl⟩ := inclusion_eq_some h
    have body_expanded := isExpanded_evaluateWith ih (Store.isRaw_load loaded).hasDistinctNames hb
    exact ⟨Tag.isExpanded_wrapper _, (hs.fillSlot body_expanded).trim, trivial⟩

/-- No directive comes out of a template whose tags name their attributes differently. -/
theorem isExpanded_evaluate {store : Store} {depth : Nat} {f g : Forest} {scope : Scope}
    (hf : f.Every Tag.HasDistinctNames fun _ => True) (h : evaluate store depth f scope = some g) :
    g.IsExpanded :=
  isExpanded_evaluateWith (isExpanded_includeAt store depth) hf h

end OnePass

end HtmlTemplate
