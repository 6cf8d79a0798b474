import HtmlTemplate.Proofs.Origins

/-!
# Failures blame the text at fault

Most failures name a fragment. Main result: the text of that fragment holds the fault, also
when the fault is met in slot content, in copies of a loop or below other fragments.
-/
namespace HtmlTemplate

open Expansion
open Directive (Kind)

namespace Failure

/-- The label of the text that a failure blames for what is written there. -/
def fragment? : Failure → Option Text
  | missingFragmentName fragment => some fragment
  | invalidLoopExpression _ fragment => some fragment
  | invalidLoopSource _ _ fragment => some fragment
  | nestingTooDeep _ fragment => some fragment
  | _ => none

/-- The text has an element of the kind that the failure is about. -/
def IsIn (text : Forest) : Failure → Prop
  | missingFragmentName _ => ∃ tag ∈ text.tags, tag.IsNameless
  | invalidLoopExpression expression _ =>
    ∃ tag ∈ text.tags, tag.attribute? "x-for".toList = some expression ∧
      LoopHeader.read? expression = none
  | invalidLoopSource path _ _ =>
    ∃ tag ∈ text.tags, ∃ expression header, tag.attribute? "x-for".toList = some expression ∧
      LoopHeader.read? expression = some header ∧ header.source = path
  | nestingTooDeep _ _ => ∃ tag ∈ text.tags, ∃ name, tag.Names name
  | _ => True

end Failure

/-- Where names are distinct, every attribute is the first one of its name. -/
theorem Tag.HasDistinctNames.attribute?_eq {tag : Tag} {a : Attribute}
    (hd : tag.HasDistinctNames) (ha : a ∈ tag.attributes) :
    tag.attribute? a.name = some a.value := by
  unfold attribute?
  cases hf : tag.attributes.find? (·.name == a.name) with
  | none => simpa using List.find?_eq_none.mp hf a ha
  | some b =>
    have hn : b.name = a.name := by simpa using List.find?_some hf
    have hb := List.mem_of_find?_eq_some hf
    rw [List.inj_on_of_nodup_map hd hb ha hn]
    rfl

/-- What a label names is read from a source, so no name of an attribute is repeated. -/
theorem Compiler.hasDistinctNames_of_textAt {c : Compiler} {source label : Text} {text : Forest}
    (h : c.textAt source label = .ok text) {tag : Tag} (hm : tag ∈ text.tags) :
    tag.HasDistinctNames := by
  have raw : text.IsRaw := by
    unfold textAt at h
    split at h
    · obtain rfl := Except.ok.inj h
      exact Forest.isRaw_read source
    · exact Store.isRaw_load h
  exact raw.hasDistinctNames.of_mem_tags hm

namespace Task

variable {c : Compiler} {source : Text} {t : Task} {failure : Failure}

/-- A loop that is met stands in the text with its expression. -/
theorem StemsFrom.exists_loop (h : t.StemsFrom c source) {text : Forest}
    (ht : c.textAt source t.label = .ok text) {e : Element} {expression : Text} {rest : Tag}
    (hm : e ∈ t.forest.loops) (taken : e.tag.takeDirective? .iterate = some (expression, rest)) :
    ∃ origin ∈ text.tags, origin.attribute? "x-for".toList = some expression := by
  obtain ⟨⟨origin, ho, left⟩, -⟩ := h.loops ht hm
  obtain ⟨a, ha, rfl, kind⟩ := Tag.value_takeDirective? taken
  have distinct := Compiler.hasDistinctNames_of_textAt ht ho
  refine ⟨origin, ho, ?_⟩
  rw [← Kind.ofName?_eq_iterate.mp kind]
  exact distinct.attribute?_eq (left.sublist.subset ha)

theorem StemsFrom.exists_nameless (h : t.StemsFrom c source) {text : Forest}
    (ht : c.textAt source t.label = .ok text) {e : Element} (met : t.MeetsInclusion c e)
    (hn : (Inclusion.ofAttributes e.tag.attributes).name? = none) :
    ∃ origin ∈ text.tags, origin.IsNameless := by
  obtain ⟨⟨origin, ho, left⟩, -⟩ := h.inclusions ht met
  obtain ⟨looped, -, hm⟩ := met
  exact ⟨origin, ho, left.isNameless
    ⟨Forest.name_of_mem_inclusions hm, Inclusion.isAllBlank_of_name?_eq_none hn⟩⟩

/-- An expansion that raises a failure blames the text that it stems from. A limit is met when
exactly so many fragments are open, for never are there more. -/
theorem StemsFrom.blames (h : t.StemsFrom c source) (raised : t.Raises c failure) :
    (∀ fragment ∈ failure.fragment?, fragment = t.label) ∧
    (∃ text, c.textAt source t.label = .ok text ∧ failure.IsIn text) ∧
    ∀ limit fragment, failure = .nestingTooDeep limit fragment →
      c.limit? = some limit ∧ t.opened.length = limit := by
  obtain ⟨text, ht, -⟩ := h.live
  cases raised with
  | loop hm taken fails =>
    obtain ⟨origin, ho, written⟩ := h.exists_loop ht hm taken
    rcases loopItems_eq_error fails with ⟨unread, rfl⟩ | ⟨header, reason, read, -, rfl⟩
    · exact ⟨by simp [Failure.fragment?], ⟨text, ht, origin, ho, written, unread⟩, by simp⟩
    · exact ⟨by simp [Failure.fragment?],
        ⟨text, ht, origin, ho, _, header, written, read, rfl⟩, by simp⟩
  | inclusion met made fails =>
    cases refused_of_openFragment fails with
    | unnamed hn =>
      exact ⟨by simp [Failure.fragment?], ⟨text, ht, h.exists_nameless ht met hn⟩, by simp⟩
    | full hn limited full =>
      obtain ⟨origin, ho, names⟩ := h.exists_names ht met hn
      refine ⟨by simp [Failure.fragment?], ⟨text, ht, origin, ho, _, names⟩, ?_⟩
      intro limit fragment he
      obtain ⟨rfl, -⟩ := Failure.nestingTooDeep.inj he
      exact ⟨limited, Nat.le_antisymm (h.inOrder.within_limit _ limited) full⟩
    | outside | opened | absent | unreadable =>
      exact ⟨by simp [Failure.fragment?], ⟨text, ht, trivial⟩, by simp⟩

end Task

namespace Compiler

/-- A failure blames the text that holds the fault. If a compilation fails and blames a
fragment, then that label names a text with an element of the kind the failure is about; and
the failure is raised by an expansion under that label, which the calls from the main source
lead to. A limit is exceeded when exactly so many fragments are open. -/
theorem failure_blames_text_at_fault {c : Compiler} {scope : Scope} {source : Text}
    {failure : Failure} {fragment : Text} (h : c.compile scope source = .error failure)
    (hf : failure.fragment? = some fragment) :
    (∃ text, c.textAt source fragment = .ok text ∧ failure.IsIn text) ∧
    ∃ t, (Task.main scope source).Reaches c t ∧ t.result c = .error failure ∧
      t.Raises c failure ∧ t.label = fragment ∧ Call.InOrder c ⟨t.opened, fragment⟩ ∧
      ∀ limit, failure = .nestingTooDeep limit fragment →
        c.limit? = some limit ∧ t.opened.length = limit := by
  obtain ⟨t, reached, fails, raised⟩ := Task.exists_raises (t := Task.main scope source) h
  have stems := (Task.stemsFrom_main c scope source).reaches reached
  obtain ⟨label_eq, blamed, limited⟩ := stems.blames raised
  obtain rfl := label_eq fragment hf
  exact ⟨blamed, t, reached, fails, raised, rfl, stems.inOrder, fun limit => limited limit _⟩

/-- A panel fills a grid with a row per item. Its rows include a fragment without a name. -/
def panels (limit? : Option Nat) : Compiler where
  store :=
    { snapshot := .ofFiles
        [{ names := ["t".toList, "panel.xiv".toList]
           content := ("<x-temp x-name=grid><tr x-for='x in xs'>"
             ++ "<x-temp x-if=x x-name=' ' t-x='{{x}}'></x-temp></tr></x-temp>").toList },
         { names := ["t".toList, "grid.xiv".toList]
           content := "<table><x-slot></x-slot></table>".toList }]
      root := .ofNames ["t".toList] }
  limit?

/-- The fault is met in the slot content of the grid, in a copy of a row. The panel is blamed,
in which it is written. With no rows and a limit of one, the grid in the panel is what goes too
deep: one fragment is open there, even though the panel itself is in slot content. -/
theorem panel_is_blamed :
    let faulty := "<x-temp x-name=panel t-xs='[0, 1]'></x-temp>".toList
    let deep := "<x-temp x-name=grid><x-temp x-name=panel></x-temp></x-temp>".toList
    let label := "/t/panel.xiv".toList
    (panels none).compile .empty faulty = .error (.missingFragmentName label) ∧
      (∃ text, (panels none).textAt faulty label = .ok text ∧ ∃ tag ∈ text.tags, tag.IsNameless) ∧
      (panels (some 1)).compile .empty deep = .error (.nestingTooDeep 1 label) ∧
      ∃ t, (Task.main .empty deep).Reaches (panels (some 1)) t ∧ t.label = label ∧
        t.opened.length = 1 := by
  intro faulty deep label
  have missing : (panels none).compile .empty faulty = .error (.missingFragmentName label) := by
    have run : (Session.compile (panels none) 60 .empty faulty).1
        = .error (.failed (.missingFragmentName label)) := by decide +kernel
    exact Session.compile_eq_of_run run
  have limited : (panels (some 1)).compile .empty deep = .error (.nestingTooDeep 1 label) := by
    have run : (Session.compile (panels (some 1)) 60 .empty deep).1
        = .error (.failed (.nestingTooDeep 1 label)) := by decide +kernel
    exact Session.compile_eq_of_run run
  obtain ⟨blamed, -⟩ := failure_blames_text_at_fault missing rfl
  obtain ⟨-, t, reached, -, -, label_eq, -, full⟩ := failure_blames_text_at_fault limited rfl
  exact ⟨missing, blamed, limited, t, reached, label_eq, (full 1 rfl).2⟩

end Compiler

end HtmlTemplate
