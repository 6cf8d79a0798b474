import HtmlTemplate.Proofs.Agreement
import HtmlTemplate.Proofs.Stack

/-!
# What a compilation gives

A compilation that succeeds gives what its source means in one pass, and no directive.
-/
namespace HtmlTemplate.Compiler

open OnePass

/-- A compilation that succeeds gives what its source means when every node is visited
once, in the scope of its place. The bound on the nesting of fragments does not matter from
the number of files on, and what is written is the same. -/
theorem compile_agrees_with_one_pass {c : Compiler} {scope : Scope} {source : Text}
    {nodes : Forest} (h : c.compile scope source = .ok nodes) :
    ∃ meaning, (∀ extra, evaluate c.store (c.store.snapshot.files.length + extra)
        (Forest.read source) scope = some meaning) ∧
      nodes.unsealed = meaning ∧ nodes.print = meaning.print := by
  refine ⟨nodes.unsealed, ?_, rfl, (Forest.print_unsealed nodes).symm⟩
  intro extra
  exact evaluate_of_compile (Nat.le_add_right _ extra) h

/-- A card that shows its title and its slot. -/
def cards : Compiler where
  store :=
    { snapshot := .ofFiles
        [{ names := ["t".toList, "card.xiv".toList]
           content := "<b x-if=title>{{title}}</b><x-slot></x-slot>".toList }]
      root := .ofNames ["t".toList] }
  limit? := some 1

/-- A card per item, with slot content in the scope of the loop. A value that looks like a
placeholder is not resolved again. -/
theorem cards_agree_with_one_pass :
    let scope := Scope.top [("xs".toList, .list [.text "{{y}}".toList, .text []])]
    let source := ("<x-temp x-for='x in xs' x-name=card t-title='{{x}}'>"
      ++ "<i x-if='not x'>none</i><!--xiv-comment--></x-temp>").toList
    let card (body rest : Forest) : Forest :=
      .element ⟨"div".toList, [⟨"class".toList, "x-card".toList⟩]⟩ true body rest
    let nodes := card (.element ⟨"b".toList, []⟩ false (.text "\x7b\x7by\x7d\x7d".toList .nil) .nil)
      (card (.element ⟨"i".toList, []⟩ false (.text "none".toList .nil) .nil) .nil)
    cards.compile scope source = .ok nodes ∧
      evaluate cards.store 1 (Forest.read source) scope = some nodes.unsealed := by
  intro scope source card nodes
  have run : (Session.compile cards 60 scope source).1 = .ok nodes := by decide +kernel
  have compiled := Session.compile_eq_ok run
  obtain ⟨meaning, means, same, -⟩ := compile_agrees_with_one_pass compiled
  refine ⟨compiled, ?_⟩
  rw [same]
  exact means 0

/-- A compilation that succeeds leaves no loop, no condition, no inclusion and no hidden
comment, at whatever depth. -/
theorem compile_leaves_no_directive {c : Compiler} {scope : Scope} {source : Text}
    {nodes : Forest} (h : c.compile scope source = .ok nodes) : nodes.IsExpanded := by
  have distinct := (Forest.isRaw_read source).hasDistinctNames
  have means := evaluate_of_compile (Nat.le_refl _) h
  have expanded := isExpanded_evaluate distinct means
  exact Forest.every_unsealed.mp expanded

/-- A box with two slots, of which the second one has a list of leaves to fall back on. -/
def boxes : Compiler where
  store :=
    { snapshot := .ofFiles
        [{ names := ["t".toList, "box.xiv".toList]
           content := ("<x-slot></x-slot><x-slot x-if=xs><!-- xiv-comment -->"
             ++ "<x-temp x-for='x in xs' x-name=leaf></x-temp></x-slot>").toList },
         { names := ["t".toList, "leaf.xiv".toList]
           content := "<p x-if=x x-for='x in no'></p><hr>".toList }]
      root := .ofNames ["t".toList] }
  limit? := none

/-- The second slot stays, and what it falls back on is expanded. -/
theorem boxes_leave_no_directive :
    let source := "<x-temp x-name=box t-xs='[0]'></x-temp>".toList
    let wrapper (name : String) (body : Forest) : Forest :=
      .element ⟨"div".toList, [⟨"class".toList, name.toList⟩]⟩ true body .nil
    let leaf := wrapper "x-leaf" (.element ⟨"hr".toList, []⟩ false .nil .nil)
    let nodes := wrapper "x-box" (.element ⟨slotTag, []⟩ false leaf .nil)
    boxes.compile .empty source = .ok nodes ∧ nodes.IsExpanded := by
  intro source wrapper leaf nodes
  have run : (Session.compile boxes 60 .empty source).1 = .ok nodes := by decide +kernel
  have compiled := Session.compile_eq_ok run
  exact ⟨compiled, compile_leaves_no_directive compiled⟩

end HtmlTemplate.Compiler
