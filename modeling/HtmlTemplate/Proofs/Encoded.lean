import HtmlTemplate.Proofs.JsonText
import HtmlTemplate.Proofs.Mentions

/-!
# Lists and their texts

A loop takes a list or the JSON text of one. Main result: no template can tell the two apart, so
that an argument, which is always text, passes a list without loss.
-/
namespace HtmlTemplate

open Expansion

namespace Value

/-- The second value is the first one, or the text of the list that the first one is. The list
is nested no deeper than JSON is read, and its mappings have their keys in order, as all have. -/
inductive EncodedAs : Value → Value → Prop
  | same (v : Value) : EncodedAs v v
  | list {items : List Value} : (list items).IsOrdered → (list items).depth ≤ 127 →
      EncodedAs (list items) (text (list items).print)

variable {v w : Value}

theorem EncodedAs.isNull_eq (h : v.EncodedAs w) : v.isNull = w.isNull := by
  cases h <;> rfl

theorem rel_refl (v : Option Value) : Option.Rel EncodedAs v v := by
  cases v with
  | none => exact .none
  | some v => exact .some (.same v)

/-- A list has no entries, and neither has its text. -/
theorem EncodedAs.descend (h : v.EncodedAs w) (path : List Text) :
    Option.Rel EncodedAs (v.descend path) (w.descend path) := by
  cases h with
  | same => exact rel_refl _
  | list ordered shallow =>
    cases path with
    | nil => exact .some (.list ordered shallow)
    | cons key path => exact .none

/-- Loops decode the text of a list to its items. -/
theorem items_print {items : List Value} (ordered : (list items).IsOrdered)
    (shallow : (list items).depth ≤ 127) :
    (LoopSource.ofValue? (some (text (list items).print))).items = .ok items := by
  have decoded : Json.read (list items).print = .ok (list items) := Json.read_json ordered shallow
  simp only [LoopSource.ofValue?, LoopSource.items, decoded]

theorem EncodedAs.alike (h : v.EncodedAs w) : Alike (some v) (some w) := by
  cases h with
  | same => exact alike_refl _
  | list ordered shallow => exact ⟨rfl, rfl, (items_print ordered shallow).symm⟩

section Options

variable {v w v' w' : Option Value}

theorem rel_or (h : Option.Rel EncodedAs v w) (h' : Option.Rel EncodedAs v' w') :
    Option.Rel EncodedAs (v.or v') (w.or w') := by
  cases h with
  | none => exact h'
  | some encoded => exact .some encoded

theorem rel_bind_descend (h : Option.Rel EncodedAs v w) (path : List Text) :
    Option.Rel EncodedAs (v.bind (Value.descend path)) (w.bind (Value.descend path)) := by
  cases h with
  | none => exact .none
  | some encoded => exact encoded.descend path

theorem rel_filter (h : Option.Rel EncodedAs v w) :
    Option.Rel EncodedAs (v.filter (!·.isNull)) (w.filter (!·.isNull)) := by
  cases h with
  | none => exact .none
  | some encoded =>
    rw [Option.filter_some, Option.filter_some, encoded.isNull_eq]
    split
    · exact .some encoded
    · exact .none

theorem alike_of_rel (h : Option.Rel EncodedAs v w) : Alike v w := by
  cases h with
  | none => exact alike_refl _
  | some encoded => exact encoded.alike

end Options

end Value

namespace Scope

/-- The second scope is the first one, with texts in the place of some lists. -/
inductive Encodes : Scope → Scope → Prop
  | top {xs ys : Bindings} :
      List.Forall₂ (fun x y => x.1 = y.1 ∧ x.2.EncodedAs y.2) xs ys → Encodes (top xs) (top ys)
  | inner {xs ys : Bindings} {outer outer' : Scope} :
      List.Forall₂ (fun x y => x.1 = y.1 ∧ x.2.EncodedAs y.2) xs ys → Encodes outer outer' →
      Encodes (inner xs outer) (inner ys outer')

theorem rel_lookup_bindings {xs ys : Bindings}
    (h : List.Forall₂ (fun x y => x.1 = y.1 ∧ x.2.EncodedAs y.2) xs ys) (key : Text) :
    Option.Rel Value.EncodedAs (xs.lookup key) (ys.lookup key) := by
  induction h with
  | nil => exact .none
  | @cons x y xs ys first _ ih =>
    obtain ⟨k, v⟩ := x
    obtain ⟨_, w⟩ := y
    obtain ⟨rfl, encoded⟩ := first
    by_cases here : key = k
    · subst here
      rw [List.lookup_cons_self, List.lookup_cons_self]
      exact .some encoded
    · have other : (key == k) = false := beq_false_of_ne here
      simp only [List.lookup_cons, other]
      exact ih

variable {a b : Scope}

theorem Encodes.lookup (h : a.Encodes b) (key : Text) :
    Option.Rel Value.EncodedAs (a.lookup key) (b.lookup key) := by
  induction h with
  | top bindings => exact rel_lookup_bindings bindings key
  | inner bindings _ ih =>
    simp only [Scope.lookup]
    exact Value.rel_or (rel_lookup_bindings bindings key) ih

/-- A path has the same value in both scopes, or a list in the one and its text in the other,
or none in either. -/
theorem Encodes.get (h : a.Encodes b) (path : Text) :
    Option.Rel Value.EncodedAs (a.get path) (b.get path) := by
  unfold Scope.get
  split
  · exact .none
  · rename_i first rest _
    exact Value.rel_filter (Value.rel_bind_descend (h.lookup first) rest)

theorem Encodes.alikeOn (h : a.Encodes b) (paths : List Text) : AlikeOn paths a b := by
  intro path _
  exact Value.alike_of_rel (h.get path)

/-! ### Arguments -/

variable {scope : Scope}

/-- What an argument stands for: its text, or the list that its only placeholder asks for. -/
inductive Passes (scope : Scope) (argument : Text) : Value → Prop
  | text : Passes scope argument (.text (scope.fill argument))
  | list {p : Placeholder} {items : List Value} : Piece.scan argument = [.hole p] →
      scope.get p.path = some (.list items) → (Value.list items).IsOrdered →
      (Value.list items).depth ≤ 127 → Passes scope argument (.list items)

theorem Passes.encodedAs {argument : Text} {v : Value} (h : scope.Passes argument v) :
    v.EncodedAs (.text (scope.fill argument)) := by
  cases h with
  | text => exact .same _
  | @list p items alone found ordered shallow =>
    have printed : scope.fill argument = (Value.list items).print := by
      simp only [fill, Text.substitute, alone, List.flatMap_cons, List.flatMap_nil,
        Placeholder.resolve, found, List.append_nil]
    rw [printed]
    exact .list ordered shallow

theorem encodes_argumentScope {bindings : Bindings} {arguments : List (Text × Text)}
    (h : List.Forall₂ (fun x argument => x.1 = argument.1 ∧ scope.Passes argument.2 x.2)
      bindings arguments) : (top bindings).Encodes (argumentScope scope arguments) := by
  refine .top (List.forall₂_map_right_iff.mpr (h.imp ?_))
  rintro ⟨key, v⟩ ⟨_, argument⟩ ⟨rfl, passed⟩
  exact ⟨rfl, passed.encodedAs⟩

end Scope

theorem Scope.Encodes.expand_eq {a b : Scope} (h : a.Encodes b) (c : Compiler)
    (opened : OpenFragments) (label : Text) (f : Forest) :
    expand c opened label a f = expand c opened label b f :=
  seesAlike c opened f label a b (h.alikeOn f.mentions)

namespace Compiler

/-- Templates cannot tell a list from its JSON text. Where some of the lists that a scope
binds are replaced by their texts, the compilation of every source ends the same: a path leads
to the same value, or to a list in the one scope and to its text in the other; loops take the
same items, conditions hold alike, and placeholders print the same. So a fragment that is
given lists as arguments expands as if it saw the lists themselves. -/
theorem compile_encoded {a b : Scope} (h : a.Encodes b) (c : Compiler) (source : Text) :
    c.compile a source = c.compile b source ∧
    (∀ path, Option.Rel Value.EncodedAs (a.get path) (b.get path)) ∧
    (∀ label expression, loopItems label a expression = loopItems label b expression) ∧
    (∀ condition, a.holds condition = b.holds condition) ∧
    (∀ t, a.fill t = b.fill t ∧ a.fillEncoded t = b.fillEncoded t) ∧
    ∀ scope bindings arguments,
      List.Forall₂ (fun x argument => x.1 = argument.1 ∧ Scope.Passes scope argument.2 x.2)
        bindings arguments →
      ∀ opened label f, expand c opened label (argumentScope scope arguments) f
        = expand c opened label (.top bindings) f := by
  refine ⟨h.expand_eq c [] mainLabel (Forest.read source), h.get, ?_, ?_, ?_, ?_⟩
  · intro label expression
    exact (h.alikeOn _).loopItems_eq label
  · intro condition
    exact (h.alikeOn _).holds_eq
  · intro t
    exact ⟨(h.alikeOn _).fill_eq, (h.alikeOn _).fillEncoded_eq⟩
  · intro scope bindings arguments passed opened label f
    exact ((Scope.encodes_argumentScope passed).expand_eq c opened label f).symm

/-- A fragment that shows the items of a list. -/
def shelf : Compiler where
  store :=
    { snapshot := .ofFiles
        [{ names := ["t".toList, "rows.xiv".toList]
           content := "<i x-for='y in ys'>{{y}}</i>".toList }]
      root := .ofNames ["t".toList] }
  limit? := none

/-- A list with a quote, a control character, a null and a mapping, bound in an outer scope, and
its text: a loop goes over either, a path into either has no value, and a fragment that is
given either shows the items. -/
theorem shelf_encoded :
    let items : List Value := [.text "\"\x01é".toList, .null,
      .mapping [("k".toList, .bool true), ("l".toList, .list [])]]
    let json : Text := "[\"\\\"\\u0001é\",null,\x7b\"k\":true,\"l\":[]\x7d]".toList
    let within (xs : Value) : Scope :=
      (Scope.top [("xs".toList, xs)]).derive "k".toList .null
    let source := "<b x-if=xs x-for='x in xs'>{{x.k|-}}</b>{{xs.k|-}}".toList
      ++ "<x-temp x-name=rows t-ys='{{xs}}'></x-temp>".toList
    let item (name content : String) (rest : Forest) : Forest :=
      .element ⟨name.toList, []⟩ true (.text content.toList .nil) rest
    let rows := item "i" "&quot;\x01é"
      (item "i" "" (item "i" "\x7b&quot;k&quot;:true,&quot;l&quot;:[]\x7d" .nil))
    let nodes := item "b" "-" (item "b" "-" (item "b" "true" (.text ['-']
      (.element ⟨"div".toList, [⟨"class".toList, "x-rows".toList⟩]⟩ true rows .nil))))
    (within (.list items)).Encodes (within (.text json)) ∧
      shelf.compile (within (.list items)) source = .ok nodes ∧
      shelf.compile (within (.text json)) source = .ok nodes ∧
      loopItems mainLabel (within (.text json)) "x in xs".toList
        = .ok (⟨"x".toList, "xs".toList⟩, items) := by
  intro items json within source item rows nodes
  have printed : (Value.list items).print = json := by decide +kernel
  have ordered : (Value.list items).IsOrdered := by
    refine .list ?_
    simp only [items, List.forall_mem_cons]
    refine ⟨.text _, .null, .mapping (by decide) ?_, by simp⟩
    simp only [List.forall_mem_cons]
    exact ⟨.bool true, .list (by simp), by simp⟩
  have encoded : (Value.list items).EncodedAs (.text json) := by
    rw [← printed]
    exact .list ordered (by decide)
  have encodes : (within (.list items)).Encodes (within (.text json)) :=
    .inner (.cons ⟨rfl, .same _⟩ .nil) (.top (.cons ⟨rfl, encoded⟩ .nil))
  have run : (Session.compile shelf 60 (within (.list items)) source).1 = .ok nodes := by
    decide +kernel
  have compiled := Session.compile_eq_ok run
  obtain ⟨same, -, loops, -⟩ := compile_encoded encodes shelf source
  exact ⟨encodes, compiled, same ▸ compiled, (loops mainLabel _) ▸ rfl⟩

end Compiler

end HtmlTemplate
