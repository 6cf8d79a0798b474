import HtmlTemplate.Proofs.Every
import HtmlTemplate.Proofs.Directives
import HtmlTemplate.Proofs.PlainFiles
import HtmlTemplate.Proofs.Stack

/-!
# Elements whose condition does not hold

Conditions are asked for after the loops and before everything else. Main result: an element
whose condition does not hold might as well not stand in its source, once the loops below it
are expanded. A loop that cannot be expanded there fails the compilation all the same.
-/
namespace HtmlTemplate

open Expansion

/-- An element with that tag stays in its place until the conditions of the scope take it out. -/
structure Tag.IsHidden (scope : Scope) (tag : Tag) : Prop where
  lacks_iterate : tag.Lacks .iterate
  exists_condition : ∃ condition rest, tag.takeDirective? .condition = some (condition, rest) ∧
    scope.holds condition = false

namespace Forest

/-- The second forest is the first one less a hidden element with those children. No element
around it carries a loop. -/
inductive LosesHidden (scope : Scope) (hidden : Forest) : Forest → Forest → Prop
  | here {tag : Tag} {rest : Forest} : tag.IsHidden scope →
      LosesHidden scope hidden (element tag false hidden rest) rest
  | inside {tag : Tag} {children children' rest : Forest} : tag.Lacks .iterate →
      LosesHidden scope hidden children children' →
      LosesHidden scope hidden (element tag false children rest) (element tag false children' rest)
  | after {before f g : Forest} : LosesHidden scope hidden f g →
      LosesHidden scope hidden (before ++ f) (before ++ g)

end Forest

namespace Expansion

variable {scope : Scope} {hidden f g : Forest} {tag : Tag}

/-! ### Conditions -/

theorem prune_append (scope : Scope) (f g : Forest) :
    prune scope (f ++ g) = prune scope f ++ prune scope g := by
  induction f with
  | nil => rfl
  | element tag s children rest _ ih =>
    cases s with
    | true => simp only [Forest.element_append, prune, ih]
    | false =>
      simp only [Forest.element_append, prune, ih]
      split
      · split <;> rfl
      · rfl
  | text content rest ih | declaration raw rest ih =>
    simp only [Forest.text_append, Forest.declaration_append, prune, ih]
  | comment body rest ih =>
    simp only [Forest.comment_append, prune, ih]
    split <;> rfl

/-- What is left of an element, by what is left of its children and of what follows it. -/
def pruneElement (scope : Scope) (tag : Tag) (children rest : Forest) : Forest :=
  match tag.takeDirective? .condition with
  | some (condition, tag) =>
    if scope.holds condition then .element tag false children rest else rest
  | none => .element tag false children rest

theorem prune_element (scope : Scope) (tag : Tag) (children rest : Forest) :
    prune scope (.element tag false children rest)
      = pruneElement scope tag (prune scope children) (prune scope rest) := by
  rw [prune]
  unfold pruneElement
  cases tag.takeDirective? .condition <;> rfl

theorem pruneElement_hidden (h : tag.IsHidden scope) (children rest : Forest) :
    pruneElement scope tag children rest = rest := by
  obtain ⟨condition, tag', taken, fails⟩ := h.exists_condition
  rw [pruneElement, taken]
  simp [fails]

/-! ### Loops -/

section Loops

variable {onLoop : Text → Tag → Forest → Except Failure Forest}

theorem eachLoop_append (onLoop : Text → Tag → Forest → Except Failure Forest) (f g : Forest) :
    eachLoop onLoop (f ++ g) = (do
      let f ← eachLoop onLoop f
      let g ← eachLoop onLoop g
      return f ++ g) := by
  induction f with
  | nil => exact (bind_pure (eachLoop onLoop g)).symm
  | element tag s children rest _ ih =>
    cases s with
    | true => simp only [Forest.element_append, eachLoop, ih, bind_assoc, pure_bind]
    | false =>
      simp only [Forest.element_append, eachLoop, ih]
      split
      · simp only [bind_assoc, pure_bind, Forest.append_assoc]
      · simp only [bind_assoc, pure_bind, Forest.element_append]
  | text content rest ih | comment body rest ih | declaration raw rest ih =>
    simp only [Forest.text_append, Forest.comment_append, Forest.declaration_append, eachLoop, ih,
      bind_assoc, pure_bind]

theorem eachLoop_element {m : Type → Type} [Monad m] {onLoop : Text → Tag → Forest → m Forest}
    (h : tag.Lacks .iterate) (children rest : Forest) :
    eachLoop onLoop (.element tag false children rest) = (do
      let children ← eachLoop onLoop children
      let rest ← eachLoop onLoop rest
      return .element tag false children rest) := by
  simp only [eachLoop, Tag.lacks_iff.mp h]

/-- Where no element carries a loop, there is nothing to expand, and no action is taken. -/
theorem eachLoop_of_lacks {m : Type → Type} [Monad m] [LawfulMonad m]
    {onLoop : Text → Tag → Forest → m Forest}
    (h : f.Every (Tag.Lacks .iterate) fun _ => True) : eachLoop onLoop f = pure f := by
  induction f with
  | nil => rfl
  | element tag s children rest ihc ihr =>
    obtain ⟨lacks, hc, hr⟩ := h
    cases s with
    | true => rw [eachLoop, ihr hr, pure_bind]
    | false => rw [eachLoop_element lacks, ihc hc, ihr hr, pure_bind, pure_bind]
  | comment body rest ih => rw [eachLoop, ih h.2, pure_bind]
  | text content rest ih | declaration raw rest ih => rw [eachLoop, ih h, pure_bind]

/-- Whatever goes on with what two passes leave cannot tell whether the hidden element stood
there, once the loops below it are expanded. -/
theorem bind_prune_eachLoop (h : Forest.LosesHidden scope hidden f g) {looped : Forest}
    (expanded : eachLoop onLoop hidden = .ok looped) {α : Type}
    (next : Forest → Except Failure α) :
    (eachLoop onLoop f >>= fun looped => next (prune scope looped))
      = eachLoop onLoop g >>= fun looped => next (prune scope looped) := by
  induction h generalizing next with
  | here gone =>
    rw [eachLoop_element gone.lacks_iterate, expanded]
    simp only [bind_assoc, pure_bind, prune_element, pruneElement_hidden gone]
    rfl
  | inside lacks _ ih =>
    rename_i tag _ _ rest _
    simp only [eachLoop_element lacks, bind_assoc, pure_bind, prune_element]
    exact ih fun children => do
      let looped ← eachLoop onLoop rest
      next (pruneElement scope tag children (prune scope looped))
  | after _ ih =>
    rename_i before _ _ _
    simp only [eachLoop_append, bind_assoc, pure_bind, prune_append]
    congr 1
    funext looped
    exact ih fun rest => next (prune scope looped ++ rest)

/-- A loop below the hidden element that cannot be expanded fails the pass, unless a loop before
it does so, which then fails it without the element too. -/
theorem eachLoop_eq_error (h : Forest.LosesHidden scope hidden f g) {e : Failure}
    (fails : eachLoop onLoop hidden = .error e) :
    eachLoop onLoop f = .error e ∨
      ∃ e', eachLoop onLoop f = .error e' ∧ eachLoop onLoop g = .error e' := by
  induction h with
  | here gone =>
    rw [eachLoop_element gone.lacks_iterate, fails]
    exact .inl rfl
  | inside lacks _ ih =>
    rw [eachLoop_element lacks, eachLoop_element lacks]
    rcases ih with first | ⟨e', first, same⟩
    · rw [first]
      exact .inl rfl
    · rw [first, same]
      exact .inr ⟨e', rfl, rfl⟩
  | after _ ih =>
    rename_i before _ _ _
    rw [eachLoop_append, eachLoop_append]
    cases eachLoop onLoop before with
    | error e' => exact .inr ⟨e', rfl, rfl⟩
    | ok before' =>
      rcases ih with first | ⟨e', first, same⟩
      · rw [first]
        exact .inl rfl
      · rw [first, same]
        exact .inr ⟨e', rfl, rfl⟩

end Loops

theorem expand_eq_error_of_eachLoop {c : Compiler} {opened : OpenFragments} {label : Text}
    {e : Failure} (h : eachLoop (loop (expand c) opened label scope) f = .error e) :
    expand c opened label scope f = .error e := by
  rw [expand_eq_passes, passes, h]
  rfl

theorem expand_losesHidden {c : Compiler} {opened : OpenFragments} {label : Text}
    (h : Forest.LosesHidden scope hidden f g) {looped : Forest}
    (expanded : eachLoop (loop (expand c) opened label scope) hidden = .ok looped) :
    expand c opened label scope f = expand c opened label scope g := by
  rw [expand_eq_passes, expand_eq_passes]
  exact bind_prune_eachLoop h expanded fun pruned => do
    let included ← eachInclusion (inclusion c (expand c) opened label scope) pruned
    return included.fill scope

end Expansion

namespace Compiler

/-- A source compiles as it would without an element whose condition does not hold, if no loop
stands below that element, and also if the loops there can be expanded. If they cannot, the
compilation fails, with their failure or with an earlier one that it has without the element. -/
theorem compile_without_hidden {c : Compiler} {scope : Scope} {source : Text}
    {hidden less : Forest} (h : Forest.LosesHidden scope hidden (Forest.read source) less) :
    (hidden.Every (Tag.Lacks .iterate) (fun _ => True) →
      c.compile scope source = expand c [] mainLabel scope less) ∧
    (∀ looped, eachLoop (loop (expand c) [] mainLabel scope) hidden = .ok looped →
      c.compile scope source = expand c [] mainLabel scope less) ∧
    ∀ e, eachLoop (loop (expand c) [] mainLabel scope) hidden = .error e →
      c.compile scope source = .error e ∨
        ∃ e', c.compile scope source = .error e' ∧
          expand c [] mainLabel scope less = .error e' := by
  refine ⟨?_, ?_, ?_⟩
  · intro lacks
    exact expand_losesHidden h (eachLoop_of_lacks lacks)
  · intro looped expanded
    exact expand_losesHidden h expanded
  · intro e fails
    rcases eachLoop_eq_error h fails with first | ⟨e', first, same⟩
    · exact .inl (expand_eq_error_of_eachLoop first)
    · exact .inr ⟨e', expand_eq_error_of_eachLoop first, expand_eq_error_of_eachLoop same⟩

/-- A shell around what the caller gives it. -/
def shell : Compiler where
  store :=
    { snapshot := .ofFiles
        [{ names := ["t".toList, "shell.xiv".toList], content := "<b><x-slot></x-slot></b>".toList }]
      root := .ofNames ["t".toList] }
  limit? := none

/-- The hidden item stands in slot content, and below it stand a loop over nothing, a fragment
that does not exist and one without a name. -/
theorem shell_without_hidden :
    let scope := Scope.top [("on".toList, .bool true)]
    let source := ("<ul><x-temp x-name=shell><li x-if='not on'><i x-for='x in xs'></i>"
      ++ "<x-temp x-name=missing></x-temp><x-temp></x-temp></li>{{on}}</x-temp></ul>").toList
    let ul (rest : Forest) : Forest := .element ⟨"ul".toList, []⟩ false rest .nil
    let included : Tag := ⟨inclusionTag, [⟨"x-name".toList, "shell".toList⟩]⟩
    let looped : Forest :=
      .element ⟨inclusionTag, [⟨"x-name".toList, "missing".toList⟩]⟩ false .nil
        (.element ⟨inclusionTag, []⟩ false .nil .nil)
    let hidden : Forest :=
      .element ⟨"i".toList, [⟨"x-for".toList, "x in xs".toList⟩]⟩ false .nil looped
    let less := ul (.element included false (.text "\x7b\x7bon\x7d\x7d".toList .nil) .nil)
    let nodes := ul (wrap "shell".toList
      (.element ⟨"b".toList, []⟩ false (.text "true".toList .nil) .nil))
    Forest.LosesHidden scope hidden (Forest.read source) less ∧
      eachLoop (loop (expand shell) [] mainLabel scope) hidden = .ok looped ∧
      shell.compile scope source = .ok nodes ∧
      expand shell [] mainLabel scope less = .ok nodes := by
  intro scope source ul included looped hidden less nodes
  have item : Tag.IsHidden scope ⟨"li".toList, [⟨"x-if".toList, "not on".toList⟩]⟩ :=
    ⟨by decide, "not on".toList, _, rfl, by decide⟩
  have parsed : Forest.read source = ul (.element included false
      (.element ⟨"li".toList, [⟨"x-if".toList, "not on".toList⟩]⟩ false hidden
        (.text "\x7b\x7bon\x7d\x7d".toList .nil)) .nil) := by decide +kernel
  have loses : Forest.LosesHidden scope hidden (Forest.read source) less := by
    rw [parsed]
    exact .inside (by decide) (.inside (by decide) (.here item))
  have expanded : eachLoop (loop (expand shell) [] mainLabel scope) hidden = .ok looped := rfl
  have run : (Session.compile shell 60 scope source).1 = .ok nodes := by decide +kernel
  have compiled := Session.compile_eq_ok run
  have same := (compile_without_hidden loses).2.1 looped expanded
  exact ⟨loses, expanded, compiled, same ▸ compiled⟩

/-- A hidden element does not hide a loop from the pass before the conditions: its header is
read, and the compilation fails, although nothing of the source would be left. -/
theorem hidden_loop_fails :
    let source := "<p x-if=off><i x-for=broken></i></p>".toList
    let hidden : Forest :=
      .element ⟨"i".toList, [⟨"x-for".toList, "broken".toList⟩]⟩ false .nil .nil
    Forest.LosesHidden .empty hidden (Forest.read source) .nil ∧
      shell.compile .empty source = .error (.invalidLoopExpression "broken".toList mainLabel) ∧
      expand shell [] mainLabel .empty .nil = .ok .nil := by
  intro source hidden
  have item : Tag.IsHidden .empty ⟨"p".toList, [⟨"x-if".toList, "off".toList⟩]⟩ :=
    ⟨by decide, "off".toList, _, rfl, by decide⟩
  have parsed : Forest.read source = .element ⟨"p".toList, [⟨"x-if".toList, "off".toList⟩]⟩ false
      hidden .nil := by decide +kernel
  have loses : Forest.LosesHidden .empty hidden (Forest.read source) .nil := by
    rw [parsed]
    exact .here item
  have run : (Session.compile shell 60 .empty source).1
      = .error (.failed (.invalidLoopExpression "broken".toList mainLabel)) := by decide +kernel
  have nothing : expand shell [] mainLabel .empty .nil = .ok .nil := by
    rw [expand_eq_passes]
    rfl
  exact ⟨loses, Session.compile_eq_of_run (r := .error _) run, nothing⟩

end Compiler

end HtmlTemplate
