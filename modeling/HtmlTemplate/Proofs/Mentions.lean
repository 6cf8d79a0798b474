import HtmlTemplate.Proofs.Directives
import HtmlTemplate.Proofs.Sealing
import HtmlTemplate.Proofs.Stack

/-!
# What a compilation asks its scope

A template mentions the paths of its placeholders, its conditions and its loops. Main result:
scopes that agree on what the source mentions give the same compilation, and fragments see
nothing but their arguments. It is enough that what the paths lead to looks alike.
-/
namespace HtmlTemplate

open Expansion
open Directive (Kind)

/-! ### Mentioned paths -/

/-- The paths of the placeholders of a text. -/
def Text.paths (t : Text) : List Text := t.placeholders.map (·.path)

/-- The paths that a value of that kind of directive asks for by itself. -/
def Directive.Kind.paths (value : Text) : Kind → List Text
  | .condition => [(Scope.readCondition value).2]
  | .iterate => (LoopHeader.read? value).toList.map (·.source)
  | _ => []

def Attribute.mentions (a : Attribute) : List Text :=
  a.value.paths ++ (Kind.ofName? a.name).toList.flatMap (Kind.paths a.value)

def Tag.mentions (tag : Tag) : List Text := tag.attributes.flatMap Attribute.mentions

/-- The paths that the passes still ask for: those below a seal are no longer asked for. -/
def Forest.mentions : Forest → List Text
  | nil => []
  | element tag false children rest => tag.mentions ++ (children.mentions ++ rest.mentions)
  | element _ true _ rest => rest.mentions
  | text content rest => content.paths ++ rest.mentions
  | comment _ rest => rest.mentions
  | declaration _ rest => rest.mentions

namespace Tag

variable {kind : Kind} {tag rest : Tag} {value : Text}

/-- A directive mentions what its value asks for. -/
theorem paths_subset_mentions (h : tag.takeDirective? kind = some (value, rest)) :
    kind.paths value ⊆ tag.mentions := by
  obtain ⟨a, ha, rfl, hk⟩ := value_takeDirective? h
  intro path hp
  refine List.mem_flatMap.mpr ⟨a, ha, ?_⟩
  rw [Attribute.mentions, hk]
  simp [hp]

theorem mentions_takeDirective?_subset (h : tag.takeDirective? kind = some (value, rest)) :
    rest.mentions ⊆ tag.mentions := by
  intro path hp
  obtain ⟨a, ha, hp⟩ := List.mem_flatMap.mp hp
  exact List.mem_flatMap.mpr ⟨a, (sublist_takeDirective? h).subset ha, hp⟩

theorem paths_value_subset_mentions {a : Attribute} (ha : a ∈ tag.attributes) :
    a.value.paths ⊆ tag.mentions := by
  intro path hp
  exact List.mem_flatMap.mpr ⟨a, ha, List.mem_append_left _ hp⟩

end Tag

theorem Directive.value_of_argument {a : Attribute} {key value : Text}
    (h : ofAttribute? a = some (.argument key value)) : a.value = value := by
  unfold ofAttribute? at h
  split at h
  · simp at h
  · simp at h
  · simp at h
  · obtain ⟨k, -, he⟩ := Option.map_eq_some_iff.mp h
    exact (Directive.argument.inj he).2
  · simp at h

/-- The arguments of an inclusion stand in its attributes. -/
theorem Inclusion.value_of_mem_arguments {attributes : List Attribute} {argument : Text × Text}
    (h : argument ∈ (ofAttributes attributes).arguments) :
    ∃ a ∈ attributes, a.value = argument.2 := by
  induction attributes with
  | nil => simp [ofAttributes] at h
  | cons a rest ih =>
    have later (hm : argument ∈ (ofAttributes rest).arguments) :
        ∃ b ∈ a :: rest, b.value = argument.2 := by
      obtain ⟨b, hb, he⟩ := ih hm
      exact ⟨b, List.mem_cons_of_mem _ hb, he⟩
    unfold ofAttributes at h
    dsimp only at h
    split at h
    · split at h
      · exact later h
      · exact later h
    · rename_i key value found
      rcases List.mem_cons.mp h with rfl | hm
      · exact ⟨a, List.mem_cons_self, Directive.value_of_argument found⟩
      · exact later (List.mem_of_mem_filter hm)
    · exact later h

namespace Forest

@[simp] theorem mentions_append (f g : Forest) :
    (f ++ g).mentions = f.mentions ++ g.mentions := by
  induction f with
  | nil => rfl
  | element tag s children rest _ ih => cases s <;> simp [mentions, ih]
  | text content rest ih | comment body rest ih | declaration raw rest ih => simp [mentions, ih]

theorem IsSealed.mentions_eq_nil {f : Forest} (h : f.IsSealed) : f.mentions = [] := by
  induction f with
  | nil => rfl
  | element tag s children rest _ ih =>
    cases s with
    | true => exact ih h
    | false => exact h.elim
  | _ => exact h.elim

end Forest

/-- What a placeholder prints depends on the printed value. -/
theorem Placeholder.resolve_eq (p : Placeholder) (scope : Scope) :
    p.resolve scope = ((scope.get p.path).map Value.print).getD (p.default?.getD []) := by
  unfold resolve
  cases scope.get p.path <;> rfl

/-! ### Scopes that agree -/

/-- Both scopes give the same value to each of the paths, or none. -/
def Scope.AgreeOn (paths : List Text) (a b : Scope) : Prop := ∀ path ∈ paths, a.get path = b.get path

/-- A template cannot tell two values apart, or a value from none: placeholders print the same
for both, conditions on them hold alike, and loops go over the same items. -/
structure Value.Alike (v w : Option Value) : Prop where
  print_eq : v.map print = w.map print
  isTruthy_eq : v.any isTruthy = w.any isTruthy
  items_eq : (LoopSource.ofValue? v).items = (LoopSource.ofValue? w).items

theorem Value.alike_refl (v : Option Value) : Alike v v := ⟨rfl, rfl, rfl⟩

/-- What the scopes give to each of the paths looks alike. -/
def Scope.AlikeOn (paths : List Text) (a b : Scope) : Prop :=
  ∀ path ∈ paths, Value.Alike (a.get path) (b.get path)

namespace Scope

variable {a b : Scope} {paths : List Text}

theorem AgreeOn.alikeOn (h : AgreeOn paths a b) : AlikeOn paths a b := by
  intro path hp
  rw [h path hp]
  exact Value.alike_refl _

theorem AlikeOn.mono {more : List Text} (h : AlikeOn more a b) (sub : paths ⊆ more) :
    AlikeOn paths a b := fun path hp => h path (sub hp)

theorem alikeOn_append {more : List Text} :
    AlikeOn (paths ++ more) a b ↔ AlikeOn paths a b ∧ AlikeOn more a b :=
  List.forall_mem_append

/-- A new name shadows the same paths in both scopes. -/
theorem AlikeOn.derive (h : AlikeOn paths a b) (key : Text) (value : Value) :
    AlikeOn paths (a.derive key value) (b.derive key value) := by
  intro path hp
  have same := h path hp
  unfold get at same ⊢
  split
  · exact Value.alike_refl _
  · rename_i first rest cut
    rw [cut] at same
    simp only [Scope.derive, lookup]
    cases ([(key, value)] : Bindings).lookup first with
    | some found => exact Value.alike_refl _
    | none => exact same

theorem substitute_congr {r r' : Placeholder → Text} {t : Text}
    (h : ∀ p ∈ t.placeholders, r p = r' p) : t.substitute r = t.substitute r' := by
  refine List.flatMap_congr ?_
  intro piece hp
  cases piece with
  | char c => rfl
  | hole p => exact h p (List.mem_filterMap.mpr ⟨.hole p, hp, rfl⟩)

theorem AlikeOn.resolve_placeholders {t : Text} (h : AlikeOn t.paths a b) :
    ∀ p ∈ t.placeholders, p.resolve a = p.resolve b := by
  intro p hp
  have here : p.path ∈ t.paths := List.mem_map_of_mem hp
  rw [Placeholder.resolve_eq, Placeholder.resolve_eq, (h p.path here).print_eq]

theorem AlikeOn.fill_eq {t : Text} (h : AlikeOn t.paths a b) : a.fill t = b.fill t :=
  substitute_congr h.resolve_placeholders

theorem AlikeOn.fillEncoded_eq {t : Text} (h : AlikeOn t.paths a b) :
    a.fillEncoded t = b.fillEncoded t := by
  refine substitute_congr ?_
  intro p hp
  rw [h.resolve_placeholders p hp]

theorem AlikeOn.holds_eq {condition : Text} (h : AlikeOn (Kind.condition.paths condition) a b) :
    a.holds condition = b.holds condition := by
  have same := h (readCondition condition).2 (List.mem_singleton_self _)
  unfold holds
  dsimp only
  rw [same.isTruthy_eq]

theorem AlikeOn.loopItems_eq {expression : Text}
    (h : AlikeOn (Kind.iterate.paths expression) a b) (label : Text) :
    loopItems label a expression = loopItems label b expression := by
  unfold loopItems
  cases hr : LoopHeader.read? expression with
  | none => rfl
  | some header =>
    have here : header.source ∈ Kind.iterate.paths expression := by simp [Kind.paths, hr]
    simp only [(h header.source here).items_eq]

theorem AlikeOn.argumentScope_eq {tag : Tag} (h : AlikeOn tag.mentions a b) :
    argumentScope a (Inclusion.ofAttributes tag.attributes).arguments
      = argumentScope b (Inclusion.ofAttributes tag.attributes).arguments := by
  unfold argumentScope
  congr 1
  refine List.map_congr_left ?_
  rintro ⟨key, value⟩ hm
  obtain ⟨attr, ha, rfl⟩ : ∃ attr ∈ tag.attributes, attr.value = value :=
    Inclusion.value_of_mem_arguments hm
  dsimp only
  rw [(h.mono (Tag.paths_value_subset_mentions ha)).fill_eq]

/-- A fragment sees its arguments only: a path that starts with another name has no value. -/
theorem get_argumentScope_eq_none {scope : Scope} {arguments : List (Text × Text)} {path : Text}
    (h : ∀ argument ∈ arguments, (path.splitOn '.').head? ≠ some argument.1) :
    (argumentScope scope arguments).get path = none := by
  unfold get
  split
  · rfl
  · rename_i first rest cut
    have unbound : (argumentScope scope arguments).lookup first = none := by
      simp only [argumentScope, lookup, List.lookup_eq_none_iff, List.mem_map]
      rintro _ ⟨⟨key, value⟩, hm, rfl⟩
      have other := h (key, value) hm
      rw [cut] at other
      simpa using other
    rw [unbound]
    rfl

end Scope

/-! ### The passes -/

namespace Forest

variable {a b : Scope}

theorem append_subset_append {p p' q q' : List Text} (hp : p ⊆ p') (hq : q ⊆ q') :
    p ++ q ⊆ p' ++ q' :=
  List.append_subset.mpr
    ⟨List.subset_append_of_subset_left _ hp, List.subset_append_of_subset_right _ hq⟩

theorem fill_congr {f : Forest} (h : Scope.AlikeOn f.mentions a b) : f.fill a = f.fill b := by
  induction f with
  | nil => rfl
  | element tag s children rest ihc ihr =>
    cases s with
    | true => rw [fill, fill, ihr h]
    | false =>
      obtain ⟨tag_same, h⟩ := Scope.alikeOn_append.mp h
      obtain ⟨children_same, rest_same⟩ := Scope.alikeOn_append.mp h
      have values : ∀ attr ∈ tag.attributes, a.fill attr.value = b.fill attr.value := by
        intro attr ha
        exact (tag_same.mono (Tag.paths_value_subset_mentions ha)).fill_eq
      have attributes : tag.attributes.map (fun attr => { attr with value := a.fill attr.value })
          = tag.attributes.map (fun attr => { attr with value := b.fill attr.value }) :=
        List.map_congr_left fun attr ha => by rw [values attr ha]
      rw [fill, fill, ihc children_same, ihr rest_same, attributes]
  | text content rest ih =>
    obtain ⟨text_same, rest_same⟩ := Scope.alikeOn_append.mp h
    rw [fill, fill, text_same.fillEncoded_eq, ih rest_same]
  | comment body rest ih | declaration raw rest ih => rw [fill, fill, ih h]

theorem prune_congr {f : Forest} (h : Scope.AlikeOn f.mentions a b) : prune a f = prune b f := by
  induction f with
  | nil => rfl
  | element tag s children rest ihc ihr =>
    cases s with
    | true => rw [prune, prune, ihr h]
    | false =>
      obtain ⟨tag_same, h⟩ := Scope.alikeOn_append.mp h
      obtain ⟨children_same, rest_same⟩ := Scope.alikeOn_append.mp h
      unfold prune
      rw [ihc children_same, ihr rest_same]
      split
      · rename_i taken
        rw [(tag_same.mono (Tag.paths_subset_mentions taken)).holds_eq]
      · rfl
  | text content rest ih =>
    rw [prune, prune, ih (Scope.alikeOn_append.mp h).2]
  | comment body rest ih | declaration raw rest ih => rw [prune, prune, ih h]

theorem mentions_prune_subset (scope : Scope) (f : Forest) :
    (prune scope f).mentions ⊆ f.mentions := by
  induction f with
  | nil => exact List.Subset.refl _
  | element tag s children rest ihc ihr =>
    cases s with
    | true => exact ihr
    | false =>
      have below := append_subset_append ihc ihr
      have dropped : (prune scope rest).mentions ⊆ (element tag false children rest).mentions :=
        List.subset_append_of_subset_right _ (List.subset_append_of_subset_right _ ihr)
      unfold prune
      split
      · rename_i taken
        split
        · exact append_subset_append (Tag.mentions_takeDirective?_subset taken) below
        · exact dropped
      · exact append_subset_append (List.Subset.refl _) below
  | text content rest ih => exact append_subset_append (List.Subset.refl _) ih
  | comment body rest ih =>
    unfold prune
    split
    · exact ih
    · exact ih
  | declaration raw rest ih => exact ih

end Forest

namespace Expansion

variable {paths : List Text} {f g : Forest}

theorem eachLive_mentions (h : f.mentions ⊆ paths) :
    EachLive (fun tag children => tag.mentions ⊆ paths ∧ children.mentions ⊆ paths) f := by
  induction f with
  | nil => trivial
  | element tag s children rest ihc ihr =>
    cases s with
    | true => exact ihr h
    | false =>
      obtain ⟨tag_in, h⟩ := List.append_subset.mp h
      obtain ⟨children_in, rest_in⟩ := List.append_subset.mp h
      exact ⟨⟨tag_in, children_in⟩, ihc children_in, ihr rest_in⟩
  | text content rest ih => exact ih (List.append_subset.mp h).2
  | comment body rest ih | declaration raw rest ih => exact ih h

/-- What stands in the place of an element mentions nothing any more. -/
theorem Replaced.mentions_subset (h : Replaced Forest.IsSealed f g) :
    g.mentions ⊆ f.mentions := by
  induction h with
  | nil => exact List.Subset.refl _
  | finished _ ih => exact ih
  | kept _ _ ihc ih =>
    exact Forest.append_subset_append (List.Subset.refl _) (Forest.append_subset_append ihc ih)
  | replaced here_sealed _ ih =>
    rw [Forest.mentions_append, here_sealed.mentions_eq_nil, List.nil_append]
    exact List.subset_append_of_subset_right _ (List.subset_append_of_subset_right _ ih)
  | text _ ih => exact Forest.append_subset_append (List.Subset.refl _) ih
  | comment _ ih | declaration _ ih => exact ih

/-- Scopes that look alike on what a forest mentions give the same expansion of it. -/
def SeesAlike (c : Compiler) (opened : OpenFragments) (f : Forest) : Prop :=
  ∀ label a b, Scope.AlikeOn f.mentions a b →
    expand c opened label a f = expand c opened label b f

/-- Scopes that agree on what a forest mentions give the same expansion of it. -/
def Coincides (c : Compiler) (opened : OpenFragments) (f : Forest) : Prop :=
  ∀ label a b, Scope.AgreeOn f.mentions a b →
    expand c opened label a f = expand c opened label b f

variable {c : Compiler} {opened : OpenFragments} {label : Text} {a b : Scope} {tag : Tag}
  {children : Forest}

theorem loop_congr {rest : Tag} {expression : Text}
    (hc : SeesAlike c opened (.element rest false children .nil))
    (taken : tag.takeDirective? .iterate = some (expression, rest))
    (tag_same : Scope.AlikeOn tag.mentions a b)
    (children_same : Scope.AlikeOn children.mentions a b) :
    loop (expand c) opened label a expression rest children
      = loop (expand c) opened label b expression rest children := by
  have items := (tag_same.mono (Tag.paths_subset_mentions taken)).loopItems_eq label
  have copy_same : Scope.AlikeOn (Forest.element rest false children .nil).mentions a b := by
    refine Scope.alikeOn_append.mpr ⟨?_, Scope.alikeOn_append.mpr ⟨children_same, ?_⟩⟩
    · exact tag_same.mono (Tag.mentions_takeDirective?_subset taken)
    · exact List.forall_mem_nil _
  simp only [loop, iterate, copies_eq_eachItem, items]
  congr 1
  funext found
  exact stepwise_eq.eachItem (fun item => hc label _ _ (copy_same.derive _ item)) _

theorem inclusion_congr (hc : SeesAlike c opened children)
    (tag_same : Scope.AlikeOn tag.mentions a b)
    (children_same : Scope.AlikeOn children.mentions a b) :
    inclusion c (expand c) opened label a tag children
      = inclusion c (expand c) opened label b tag children := by
  unfold inclusion
  rw [hc label a b children_same]
  dsimp only
  rw [tag_same.argumentScope_eq]

theorem seesAlike (c : Compiler) (opened : OpenFragments) (f : Forest) : SeesAlike c opened f := by
  -- Fragments get equal scopes in both expansions, so only the same stack below is needed.
  induction opened, f using expansion_induction c with
  | step opened f hb _ =>
    intro label a b alike
    have loops : eachLoop (loop (expand c) opened label a) f
        = eachLoop (loop (expand c) opened label b) f := by
      refine stepwise_eq.eachLoop ((eachLive_weight_le (Nat.le_refl f.weight)).and
        (eachLive_mentions (List.Subset.refl _)) ?_)
      rintro tag children light ⟨tag_in, children_in⟩ expression rest taken
      exact loop_congr (hb _ (Forest.weight_copy taken light)) taken (alike.mono tag_in)
        (alike.mono children_in)
    rw [expand_eq_passes, expand_eq_passes, passes, passes, loops]
    cases hl : eachLoop (loop (expand c) opened label b) f with
    | error e => rfl
    | ok looped =>
      have looped_in : looped.mentions ⊆ f.mentions :=
        (replaced_isSealed_eachLoop hl).mentions_subset
      have pruned_in : (prune b looped).mentions ⊆ f.mentions :=
        List.Subset.trans (Forest.mentions_prune_subset b looped) looped_in
      have lighter : (prune b looped).weight ≤ f.weight :=
        Nat.le_trans (weight_prune b looped) (weight_eachLoop hl)
      have inclusions : eachInclusion (inclusion c (expand c) opened label a) (prune b looped)
          = eachInclusion (inclusion c (expand c) opened label b) (prune b looped) := by
        refine stepwise_eq.eachInclusion ((eachLive_weight_le lighter).and
          (eachLive_mentions pruned_in) ?_)
        rintro tag children light ⟨tag_in, children_in⟩
        exact inclusion_congr (hb _ (Forest.weight_children light)) (alike.mono tag_in)
          (alike.mono children_in)
      show (do
          let included ← eachInclusion (inclusion c (expand c) opened label a) (prune a looped)
          return included.fill a)
        = do
          let included ← eachInclusion (inclusion c (expand c) opened label b) (prune b looped)
          return included.fill b
      rw [Forest.prune_congr (alike.mono looped_in), inclusions]
      cases hi : eachInclusion (inclusion c (expand c) opened label b) (prune b looped) with
      | error e => rfl
      | ok included =>
        have inclusions := replaced_eachInclusion (fun _ _ _ => isSealed_inclusion) hi
        have included_in : included.mentions ⊆ f.mentions :=
          List.Subset.trans inclusions.mentions_subset pruned_in
        show Except.ok (included.fill a) = .ok (included.fill b)
        rw [Forest.fill_congr (alike.mono included_in)]

theorem coincides (c : Compiler) (opened : OpenFragments) (f : Forest) : Coincides c opened f := by
  intro label a b agree
  exact seesAlike c opened f label a b agree.alikeOn

end Expansion

namespace Compiler

/-- A compilation depends on its scope only through the paths that the source mentions,
whatever its outcome. A fragment sees its arguments and no other name of the scope around
its inclusion. -/
theorem compile_congr {c : Compiler} {source : Text} {a b : Scope}
    (h : Scope.AgreeOn (Forest.read source).mentions a b) :
    c.compile a source = c.compile b source ∧
      ∀ scope arguments path,
        (∀ argument ∈ arguments, (path.splitOn '.').head? ≠ some argument.1) →
        (argumentScope scope arguments).get path = none := by
  constructor
  · exact coincides c [] (Forest.read source) mainLabel a b h
  · intro scope arguments path other
    exact Scope.get_argumentScope_eq_none other

/-- A greeting that asks for a name it is not given. -/
def greetings : Compiler where
  store :=
    { snapshot := .ofFiles
        [{ names := ["t".toList, "greet.xiv".toList]
           content := "<b x-if=secret></b>{{who}}{{secret}}<x-slot></x-slot>".toList }]
      root := .ofNames ["t".toList] }
  limit? := none

/-- The scopes differ in a name that only the fragment asks for, in a part of a mapping that
nobody asks for, and in what a loop shadows. -/
theorem greetings_congr :
    let source := "<x-temp x-name=greet ".toList ++ "t-who='{{user.name}}'>".toList
      ++ "<i x-for='x in xs'>{{x.y}}".toList ++ "{{z|-}}</i></x-temp>".toList
    let name : Text × Value := ("name".toList, .text "N".toList)
    let items : Text × Value := ("xs".toList, .list [.mapping [("y".toList, .text "1".toList)]])
    let a := Scope.top [("user".toList, .mapping [name]), items, ("secret".toList, .bool true)]
    let b := (Scope.top [items, ("user".toList, .null)]).derive "user".toList
      (.mapping [("age".toList, .bool true), name])
    let nodes : Forest := .element ⟨"div".toList, [⟨"class".toList, "x-greet".toList⟩]⟩ true
      (.text "N".toList
        (.element ⟨"i".toList, []⟩ true (.text "1-".toList .nil) .nil)) .nil
    Scope.AgreeOn (Forest.read source).mentions a b ∧
      greetings.compile a source = .ok nodes ∧ greetings.compile b source = .ok nodes ∧
      (argumentScope a [("who".toList, "\x7b\x7buser.name\x7d\x7d".toList)]).get "secret".toList
        = none := by
  intro source name items a b nodes
  have mentioned : (Forest.read source).mentions
      = ["user.name".toList, "xs".toList, "x.y".toList, "z".toList] := by decide +kernel
  have agree : Scope.AgreeOn (Forest.read source).mentions a b := by
    rw [mentioned]
    rintro path hp
    simp only [List.mem_cons, List.not_mem_nil, or_false] at hp
    rcases hp with rfl | rfl | rfl | rfl <;> rfl
  have run : (Session.compile greetings 60 a source).1 = .ok nodes := by decide +kernel
  have compiled := Session.compile_eq_ok run
  obtain ⟨same, unseen⟩ := compile_congr agree
  exact ⟨agree, compiled, same ▸ compiled, unseen a _ "secret".toList (by decide)⟩

end Compiler

end HtmlTemplate
