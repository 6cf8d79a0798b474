import HtmlTemplate.Proofs.Access
import HtmlTemplate.Proofs.Agreement
import HtmlTemplate.Proofs.Hidden
import HtmlTemplate.Proofs.Leftmost

/-!
# Finished markup

Markup without directives and placeholders. Main result: an expansion gives it back as it is and
asks the store nothing. So what a compilation gives, once no placeholder is left in it, does not
change when it is expanded again, with all that was sealed open to the passes.
-/
namespace HtmlTemplate

open Expansion
open Directive (Kind)

/-- Without a placeholder there is nothing to replace. -/
theorem Text.substitute_eq_self {t : Text} (h : t.placeholders = [])
    (replacement : Placeholder → Text) : t.substitute replacement = t := by
  obtain ⟨cut, rfl, -, found, replaced⟩ := t.exists_cut
  rw [replaced]
  cases cut with
  | last literal => rfl
  | hole literal written p after =>
    rw [h] at found
    exact absurd found.symm (List.cons_ne_nil p after.placeholders)

theorem Tag.isExpanded_iff {tag : Tag} : tag.IsExpanded ↔ tag.name ≠ inclusionTag ∧
    ∀ a ∈ tag.attributes, a.name ≠ "x-for".toList ∧ a.name ≠ "x-if".toList := by
  constructor
  · intro h
    exact ⟨h.name_ne, fun a ha => ⟨h.no_loop a ha, h.no_condition a ha⟩⟩
  · rintro ⟨name_ne, names⟩
    exact ⟨name_ne, fun a ha => (names a ha).1, fun a ha => (names a ha).2⟩

instance : DecidablePred Tag.IsExpanded := fun _ => decidable_of_iff' _ Tag.isExpanded_iff

theorem Tag.IsExpanded.lacks_iterate {tag : Tag} (h : tag.IsExpanded) : tag.Lacks .iterate :=
  fun a ha carries => h.no_loop a ha (Kind.ofName?_eq_iterate.mp carries)

theorem Tag.IsExpanded.lacks_condition {tag : Tag} (h : tag.IsExpanded) : tag.Lacks .condition :=
  fun a ha carries => h.no_condition a ha (Kind.ofName?_eq_condition.mp carries)

namespace Forest

/-- No placeholder in a text or in the value of an attribute. -/
def Rules.literal : Rules where
  element tag _ := ∀ a ∈ tag.attributes, a.value.placeholders = []
  text content := content.placeholders = []
  comment _ := True
  declaration _ := True

/-- No directive, no hidden comment and no placeholder at any depth, sealed or not. -/
structure IsFinished (f : Forest) : Prop where
  isExpanded : f.IsExpanded
  isLiteral : f.Obeys .literal

instance (f : Forest) : Decidable f.IsExpanded :=
  have : Decidable (f.Obeys ⟨fun tag _ => tag.IsExpanded, fun _ => True,
      fun body => ¬hiddenCommentStart <+: body.trimStart, fun _ => True⟩) :=
    Obeys.decide (fun tag _ => inferInstanceAs (Decidable tag.IsExpanded))
      (fun _ => .isTrue trivial)
      (fun body => inferInstanceAs (Decidable (¬hiddenCommentStart <+: body.trimStart)))
      (fun _ => .isTrue trivial) f
  decidable_of_iff' _ every_iff_obeys

instance (f : Forest) : Decidable f.IsFinished :=
  have : Decidable (f.Obeys .literal) := Obeys.decide
    (fun tag _ => inferInstanceAs (Decidable (∀ a ∈ tag.attributes, a.value.placeholders = [])))
    (fun content => inferInstanceAs (Decidable (content.placeholders = [])))
    (fun _ => .isTrue trivial) (fun _ => .isTrue trivial) f
  decidable_of_iff (f.IsExpanded ∧ f.Obeys .literal) ⟨fun h => ⟨h.1, h.2⟩, fun h => ⟨h.1, h.2⟩⟩

variable {f : Forest}

theorem obeys_literal_unsealed : f.unsealed.Obeys .literal ↔ f.Obeys .literal := by
  induction f with
  | nil => rfl
  | element tag s children rest ihc ihr =>
    simp only [unsealed, Obeys, ihc, ihr]
    rfl
  | text content rest ih | comment body rest ih | declaration raw rest ih =>
    simp only [unsealed, Obeys, ih]

theorem IsFinished.unsealed (h : f.IsFinished) : f.unsealed.IsFinished where
  isExpanded := every_unsealed.mpr h.isExpanded
  isLiteral := obeys_literal_unsealed.mpr h.isLiteral

end Forest

/-! ### One pass after the other -/

namespace Expansion

section Passes

variable {m : Type → Type} [Monad m] [LawfulMonad m] {f : Forest}

theorem eachLoop_of_isExpanded (onLoop : Text → Tag → Forest → m Forest) (h : f.IsExpanded) :
    eachLoop onLoop f = pure f := by
  refine eachLoop_of_lacks (Forest.every_iff_obeys.mpr ?_)
  refine (Forest.every_iff_obeys.mp h).mono ?_ (fun _ h => h) (fun _ _ => trivial) (fun _ h => h)
  exact fun tag _ expanded => expanded.lacks_iterate

theorem prune_of_isExpanded (scope : Scope) (h : f.IsExpanded) : prune scope f = f := by
  induction f with
  | nil => rfl
  | element tag s children rest ihc ihr =>
    obtain ⟨expanded, hc, hr⟩ := h
    cases s with
    | true => rw [prune, ihr hr]
    | false =>
      have stays := Tag.lacks_iff.mp expanded.lacks_condition
      rw [prune_element, pruneElement, stays, ihc hc, ihr hr]
  | comment body rest ih =>
    have shown : isHiddenComment body = false := by
      rw [isHiddenComment, Bool.eq_false_iff, ne_eq, List.isPrefixOf_iff_prefix]
      exact h.1
    rw [prune, shown, ih h.2]
    rfl
  | text content rest ih | declaration raw rest ih => rw [prune, ih h]

theorem eachInclusion_of_isExpanded (onInclusion : Tag → Forest → m Forest) (h : f.IsExpanded) :
    eachInclusion onInclusion f = pure f := by
  induction f with
  | nil => rfl
  | element tag s children rest ihc ihr =>
    obtain ⟨expanded, hc, hr⟩ := h
    cases s with
    | true => rw [eachInclusion, ihr hr, pure_bind]
    | false => rw [eachInclusion, if_neg expanded.name_ne, ihc hc, ihr hr, pure_bind, pure_bind]
  | comment body rest ih => rw [eachInclusion, ih h.2, pure_bind]
  | text content rest ih | declaration raw rest ih => rw [eachInclusion, ih h, pure_bind]

theorem fill_of_isLiteral (scope : Scope) (h : f.Obeys .literal) : f.fill scope = f := by
  induction f with
  | nil => rfl
  | element tag s children rest ihc ihr =>
    obtain ⟨literal, hc, hr⟩ := h
    cases s with
    | true => rw [Forest.fill, ihr hr]
    | false =>
      have same : ∀ a ∈ tag.attributes, { a with value := scope.fill a.value } = id a := by
        intro a ha
        rw [Scope.fill, Text.substitute_eq_self (literal a ha)]
        rfl
      rw [Forest.fill, ihc hc, ihr hr, List.map_congr_left same, List.map_id]
  | text content rest ih =>
    obtain ⟨literal, hr⟩ := h
    rw [Forest.fill, ih hr, Scope.fillEncoded, Text.substitute_eq_self literal]
  | comment body rest ih | declaration raw rest ih => rw [Forest.fill, ih h.2]

/-- The passes find nothing to do, so they take no action, whatever their actions are. -/
theorem passes_of_isFinished (h : f.IsFinished) (onLoop : Text → Tag → Forest → m Forest)
    (onInclusion : Tag → Forest → m Forest) (scope : Scope) :
    (do
      let looped ← eachLoop onLoop f
      let included ← eachInclusion onInclusion (prune scope looped)
      return included.fill scope) = pure f := by
  rw [eachLoop_of_isExpanded onLoop h.isExpanded, pure_bind,
    prune_of_isExpanded scope h.isExpanded, eachInclusion_of_isExpanded onInclusion h.isExpanded,
    pure_bind, fill_of_isLiteral scope h.isLiteral]

end Passes

theorem expand_of_isFinished {f : Forest} (h : f.IsFinished) (c : Compiler)
    (opened : OpenFragments) (label : Text) (scope : Scope) :
    expand c opened label scope f = .ok f := by
  rw [expand_eq_passes]
  exact passes_of_isFinished h _ _ scope

end Expansion

namespace Compiler

/-- Finished markup passes through an expansion untouched, in every scope and store, below any
open fragments and under any label. No action on the store is taken on the way, whatever kind of
actions those are; with the actions of the store itself, the run is the expansion. So what a
compilation gives is not changed by another expansion that looks at all of it, if no placeholder
is left in it. -/
theorem finished_markup_passes_through :
    (∀ f : Forest, f.IsFinished → ∀ opened label scope,
      (∀ c, expand c opened label scope f = .ok f) ∧
      ∀ {m : Type → Type} [Monad m] [LawfulMonad m] (access : Access m) limit? fuel,
        access.process limit? (fuel + 1) opened label scope f = pure f) ∧
    (∀ c opened label scope f fuel, Session.depth c opened f < fuel →
      (Access.ofStore c.store).process c.limit? fuel opened label scope f
        = (expand c opened label scope f).mapError .failed) ∧
    ∀ (c : Compiler) scope source nodes, c.compile scope source = .ok nodes →
      nodes.Obeys .literal →
      ∀ other opened label scope', expand other opened label scope' nodes.unsealed
        = .ok nodes.unsealed := by
  refine ⟨?_, ?_, ?_⟩
  · intro f finished opened label scope
    refine ⟨fun c => expand_of_isFinished finished c opened label scope, ?_⟩
    intro m _ _ access limit? fuel
    exact passes_of_isFinished finished _ _ scope
  · intro c opened label scope f fuel enough
    exact Access.process_ofStore enough label scope
  · intro c scope source nodes compiled literal other opened label scope'
    have distinct := (Forest.isRaw_read source).hasDistinctNames
    have expanded := OnePass.isExpanded_evaluate distinct
      (OnePass.evaluate_of_compile (Nat.le_refl _) compiled)
    have finished : nodes.unsealed.IsFinished :=
      ⟨expanded, Forest.obeys_literal_unsealed.mpr literal⟩
    exact expand_of_isFinished finished other opened label scope'

/-- A tile around its slot. -/
def tiles : Compiler where
  store :=
    { snapshot := .ofFiles
        [{ names := ["parts".toList, "tile.xiv".toList]
           content := "<b x-if=title>{{title}}</b><x-slot></x-slot>".toList }]
      root := .ofNames ["parts".toList] }
  limit? := some 1

/-- A tile per item, with slot content that holds an opening which is never completed. The tiles
are sealed. Unsealed they pass through another store, where the tile is open already, and a scope
with other values for the names; a run that notes what it asks for has noted nothing. -/
theorem unsealed_tiles_pass_through :
    let scope := Scope.top [("xs".toList, .list [.text "1".toList, .text []])]
    let source := ("<x-temp x-for='x in xs' x-name=tile t-title='\x7b\x7bx\x7d\x7d'>"
      ++ "<i x-if='not x'>\x7b\x7bx\x7d</i><!--xiv-comment--></x-temp>").toList
    let tile (s : Bool) (body rest : Forest) : Forest :=
      .element ⟨"div".toList, [⟨"class".toList, "x-tile".toList⟩]⟩ s body rest
    let nodes (s : Bool) : Forest :=
      tile s (.element ⟨"b".toList, []⟩ false (.text "1".toList .nil) .nil)
        (tile s (.element ⟨"i".toList, []⟩ false (.text "\x7b\x7bx\x7d".toList .nil) .nil) .nil)
    let other : Compiler := ⟨⟨.ofFiles [], .ofNames []⟩, some 0⟩
    let opened : OpenFragments := [.ofNames ["parts".toList, "tile.xiv".toList]]
    let noting : Access (ExceptT Halt (StateM (List Text))) :=
      { resolve := fun name => do
          modify (name :: ·)
          throw .outOfFuel
        load := fun path => do
          modify (path.text :: ·)
          return .nil
        halt := throw }
    (Access.ofStore tiles.store).process tiles.limit? 60 [] mainLabel scope (Forest.read source)
        = .ok (nodes true) ∧
      expand other opened "tile".toList (scope.derive "x".toList .null) (nodes false)
        = .ok (nodes false) ∧
      (nodes false).IsFinished ∧
      ((noting.process (some 0) 1 opened "tile".toList scope (nodes false)).run).run []
        = (.ok (nodes false), []) := by
  intro scope source tile nodes other opened noting
  have run : (Session.compile tiles 60 scope source).1 = .ok (nodes true) := by decide +kernel
  have compiled : tiles.compile scope source = .ok (nodes true) := Session.compile_eq_ok run
  have enough : Session.depth tiles [] (Forest.read source) < 60 := by decide +kernel
  have finished : (nodes true).IsFinished := by decide +kernel
  obtain ⟨passes, runs, again⟩ := finished_markup_passes_through
  refine ⟨?_, ?_, finished.unsealed, ?_⟩
  · rw [runs tiles [] mainLabel scope (Forest.read source) 60 enough]
    exact congrArg (Except.mapError Halt.failed) compiled
  · exact again tiles scope source (nodes true) compiled finished.isLiteral other _ _ _
  · rw [(passes (nodes false) finished.unsealed opened "tile".toList scope).2 noting (some 0) 0]
    rfl

end Compiler

end HtmlTemplate
