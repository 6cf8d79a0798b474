import HtmlTemplate.Proofs.Directives
import HtmlTemplate.Proofs.Failing
import HtmlTemplate.Proofs.Lexed
import HtmlTemplate.Proofs.Sealing
import HtmlTemplate.Proofs.Stack

/-!
# Where the elements of an expansion come from

The label of an expansion names a text: the main source, or the body of a fragment. Main
statement: whatever calls lead to an expansion, the elements that it works on are those of the
text of its label, and every open fragment is included by the text around it.
-/
namespace HtmlTemplate

open Expansion
open Directive (Kind)

/-! ### Elements of a text -/

/-- The tags of all elements, in document order. -/
def Forest.tags : Forest → List Tag
  | nil => []
  | element tag _ children rest => tag :: (children.tags ++ rest.tags)
  | text _ rest => rest.tags
  | comment _ rest => rest.tags
  | declaration _ rest => rest.tags

namespace Forest

theorem Every.of_mem_tags {p : Tag → Prop} {q : Text → Prop} {f : Forest} {tag : Tag}
    (h : f.Every p q) (hm : tag ∈ f.tags) : p tag := by
  induction f with
  | nil => simp [tags] at hm
  | element other s children rest ihc ihr =>
    obtain ⟨here, below, later⟩ := h
    rcases List.mem_cons.mp hm with rfl | hm
    · exact here
    · rcases List.mem_append.mp hm with hm | hm
      · exact ihc below hm
      · exact ihr later hm
  | comment body rest ih => exact ih h.2 hm
  | text content rest ih | declaration raw rest ih => exact ih h hm

/-- A condition on tags holds of all elements that the passes still look at. -/
abbrev LiveTags (p : Tag → Prop) (f : Forest) : Prop := EachLive (fun tag _ => p tag) f

variable {p : Tag → Prop} {f g : Forest}

theorem liveTags_of_forall_mem_tags (h : ∀ tag ∈ f.tags, p tag) : f.LiveTags p := by
  induction f with
  | nil => trivial
  | element tag s children rest ihc ihr =>
    obtain ⟨here, h⟩ := List.forall_mem_cons.mp h
    obtain ⟨below, later⟩ := List.forall_mem_append.mp h
    cases s with
    | true => exact ihr later
    | false => exact ⟨here, ihc below, ihr later⟩
  | text content rest ih | comment body rest ih | declaration raw rest ih => exact ih h

theorem IsSealed.liveTags_append (hf : f.IsSealed) (hg : g.LiveTags p) : (f ++ g).LiveTags p := by
  induction f with
  | nil => exact hg
  | element tag s children rest _ ih =>
    cases s with
    | true => exact ih hf
    | false => exact hf.elim
  | _ => exact hf.elim

/-- Loops leave nothing to look at in the place of their elements. -/
theorem liveTags_replaced (h : Replaced IsSealed f g) (hf : f.LiveTags p) : g.LiveTags p := by
  induction h with
  | nil => trivial
  | finished _ ih => exact ih hf
  | kept _ _ ihc ih => exact ⟨hf.1, ihc hf.2.1, ih hf.2.2⟩
  | replaced here_sealed _ ih => exact here_sealed.liveTags_append (ih hf.2.2)
  | text _ ih | comment _ ih | declaration _ ih => exact ih hf

theorem liveTags_prune (scope : Scope)
    (closed : ∀ tag value rest, p tag → tag.takeDirective? .condition = some (value, rest) → p rest)
    (hf : f.LiveTags p) : (prune scope f).LiveTags p := by
  induction f with
  | nil => trivial
  | element tag s children rest ihc ihr =>
    cases s with
    | true => exact ihr hf
    | false =>
      obtain ⟨here, below, later⟩ := hf
      unfold prune
      split
      · rename_i taken
        split
        · exact ⟨closed _ _ _ here taken, ihc below, ihr later⟩
        · exact ihr later
      · exact ⟨here, ihc below, ihr later⟩
  | text content rest ih | declaration raw rest ih => exact ih hf
  | comment body rest ih =>
    unfold prune
    split
    · exact ih hf
    · exact ih hf

end Forest

/-! ### What the passes leave of a tag -/

/-- The first tag is the second one, less a loop and a condition that may be taken off. -/
structure Tag.IsLeftOf (rest tag : Tag) : Prop where
  name_eq : rest.name = tag.name
  sublist : rest.attributes.Sublist tag.attributes
  kept : ∀ a ∈ tag.attributes, Kind.ofName? a.name ≠ some .iterate →
    Kind.ofName? a.name ≠ some .condition → a ∈ rest.attributes

namespace Tag

theorem isLeftOf_refl (tag : Tag) : tag.IsLeftOf tag where
  name_eq := rfl
  sublist := .refl _
  kept _ ha _ _ := ha

theorem IsLeftOf.takeDirective? {kind : Kind} {tag mid rest : Tag} {value : Text}
    (h : mid.IsLeftOf tag) (hk : kind = .iterate ∨ kind = .condition)
    (taken : mid.takeDirective? kind = some (value, rest)) : rest.IsLeftOf tag where
  name_eq := (name_takeDirective? taken).trans h.name_eq
  sublist := (sublist_takeDirective? taken).trans h.sublist
  kept := by
    intro a ha not_loop not_condition
    obtain ⟨before, b, after, he, hr, hb, -⟩ := attributes_takeDirective? taken
    have other : a ≠ b := by
      rintro rfl
      rcases hk with rfl | rfl
      · exact not_loop hb
      · exact not_condition hb
    have still := h.kept a ha not_loop not_condition
    rw [he] at still
    rw [hr]
    simpa [other] using still

end Tag

/-! ### Names of fragments -/

/-- The inclusion names a fragment, less blanks around. -/
def Tag.Names (tag : Tag) (name : Text) : Prop :=
  tag.name = inclusionTag ∧
    ∃ a ∈ tag.attributes, a.name = "x-name".toList ∧ ¬a.value.isAllBlank ∧ a.value.trim = name

/-- The inclusion names no fragment: what names it has are blank. -/
def Tag.IsNameless (tag : Tag) : Prop :=
  tag.name = inclusionTag ∧ ∀ a ∈ tag.attributes, a.name = "x-name".toList → a.value.isAllBlank

namespace Directive

theorem ofAttribute?_eq_fragmentName {a : Attribute} {name : Text} :
    ofAttribute? a = some (.fragmentName name) ↔ a.name = "x-name".toList ∧ a.value = name := by
  unfold ofAttribute?
  rw [← Kind.ofName?_eq_fragmentName]
  constructor
  · intro h
    split at h
    · simp at h
    · simp at h
    · rename_i hk
      exact ⟨hk, Directive.fragmentName.inj (Option.some.inj h)⟩
    · obtain ⟨key, -, h⟩ := Option.map_eq_some_iff.mp h
      simp at h
    · simp at h
  · rintro ⟨hk, rfl⟩
    simp only [hk]

end Directive

namespace Inclusion

theorem exists_of_name?_eq_some {attributes : List Attribute} {name : Text}
    (h : (ofAttributes attributes).name? = some name) :
    ∃ a ∈ attributes, a.name = "x-name".toList ∧ ¬a.value.isAllBlank ∧ a.value.trim = name := by
  induction attributes with
  | nil => simp [ofAttributes] at h
  | cons a rest ih =>
    have later (h : (ofAttributes rest).name? = some name) : ∃ b ∈ a :: rest,
        b.name = "x-name".toList ∧ ¬b.value.isAllBlank ∧ b.value.trim = name := by
      obtain ⟨b, hb, found⟩ := ih h
      exact ⟨b, List.mem_cons_of_mem _ hb, found⟩
    unfold ofAttributes at h
    dsimp only at h
    split at h
    · rename_i value found
      obtain ⟨hn, rfl⟩ := Directive.ofAttribute?_eq_fragmentName.mp found
      split at h
      · exact later h
      · rename_i filled
        rcases Option.or_eq_some_iff.mp h with h | ⟨-, h⟩
        · exact later h
        · exact ⟨a, List.mem_cons_self, hn, filled, Option.some.inj h⟩
    · exact later h
    · exact later h

theorem isAllBlank_of_name?_eq_none {attributes : List Attribute}
    (h : (ofAttributes attributes).name? = none) :
    ∀ a ∈ attributes, a.name = "x-name".toList → a.value.isAllBlank := by
  induction attributes with
  | nil => simp
  | cons a rest ih =>
    unfold ofAttributes at h
    dsimp only at h
    rw [List.forall_mem_cons]
    split at h
    · rename_i value found
      obtain ⟨-, rfl⟩ := Directive.ofAttribute?_eq_fragmentName.mp found
      split at h
      · rename_i blank
        exact ⟨fun _ => blank, ih h⟩
      · simp at h
    · rename_i found
      refine ⟨fun hn => ?_, ih h⟩
      rw [Directive.ofAttribute?_eq_fragmentName.mpr ⟨hn, rfl⟩] at found
      simp at found
    · rename_i other _
      refine ⟨fun hn => ?_, ih h⟩
      exact absurd (Directive.ofAttribute?_eq_fragmentName.mpr ⟨hn, rfl⟩) (other _)

end Inclusion

namespace Tag

variable {rest tag : Tag}

theorem IsLeftOf.names {name : Text} (h : rest.IsLeftOf tag) (hn : rest.Names name) :
    tag.Names name := by
  obtain ⟨is_inclusion, a, ha, found⟩ := hn
  exact ⟨h.name_eq ▸ is_inclusion, a, h.sublist.subset ha, found⟩

theorem IsLeftOf.isNameless (h : rest.IsLeftOf tag) (hn : rest.IsNameless) : tag.IsNameless := by
  obtain ⟨is_inclusion, blank⟩ := hn
  refine ⟨h.name_eq ▸ is_inclusion, ?_⟩
  intro a ha named
  have kind := Kind.ofName?_eq_fragmentName.mpr named
  exact blank a (h.kept a ha (by simp [kind]) (by simp [kind])) named

end Tag

/-- The text of the first fragment includes the second one. -/
structure Store.Includes (store : Store) (p q : Path) : Prop where
  isFragment : store.IsFragment p
  exists_names : ∃ body, store.load p = .ok body ∧
    ∃ tag ∈ body.tags, ∃ name, tag.Names name ∧ store.resolve name = .ok q

/-- The text that a label names: the main source, or the body of the fragment at that path. -/
def Compiler.textAt (c : Compiler) (source label : Text) : Except Failure Forest :=
  if label = mainLabel then .ok (Forest.read source) else c.store.load ⟨label⟩

namespace Task

variable {c : Compiler} {source : Text} {t t' : Task}

/-- The open fragments are in order, each included by the one around it, and the elements
that are still looked at are left of elements in the text of the label. -/
structure StemsFrom (t : Task) (c : Compiler) (source : Text) : Prop where
  inOrder : Call.InOrder c ⟨t.opened, t.label⟩
  isChain : t.opened.IsChain fun p q => c.store.Includes q p
  live : ∃ text, c.textAt source t.label = .ok text ∧
    t.forest.LiveTags fun tag => ∃ origin ∈ text.tags, tag.IsLeftOf origin

theorem stemsFrom_main (c : Compiler) (scope : Scope) (source : Text) :
    (main scope source).StemsFrom c source where
  inOrder := Call.inOrder_main c
  isChain := .nil
  live := by
    refine ⟨Forest.read source, if_pos rfl, Forest.liveTags_of_forall_mem_tags ?_⟩
    intro tag hm
    exact ⟨tag, hm, tag.isLeftOf_refl⟩

/-- The text of a label below open fragments is the body of the innermost one. -/
theorem textAt_eq_load {path : Path} {opened : OpenFragments} {label : Text}
    (h : Call.InOrder c ⟨path :: opened, label⟩) :
    c.textAt source label = c.store.load path := by
  have fragment : label ≠ Compiler.mainLabel := by
    intro he
    simpa using h.label_eq_main_iff.mp he
  obtain rfl : label = path.text := h.label_eq
  exact if_neg fragment

theorem StemsFrom.liveTags (h : t.StemsFrom c source) {text : Forest}
    (ht : c.textAt source t.label = .ok text) :
    t.forest.LiveTags fun tag => ∃ origin ∈ text.tags, tag.IsLeftOf origin := by
  obtain ⟨text', ht', live⟩ := h.live
  obtain rfl := Except.ok.inj (ht.symm.trans ht')
  exact live

/-- A loop stems from an element of the text with that loop. -/
theorem StemsFrom.loops (h : t.StemsFrom c source) {text : Forest}
    (ht : c.textAt source t.label = .ok text) {e : Element} (hm : e ∈ t.forest.loops) :
    (∃ origin ∈ text.tags, e.tag.IsLeftOf origin) ∧
      e.children.LiveTags fun tag => ∃ origin ∈ text.tags, tag.IsLeftOf origin := by
  exact Forest.eachLive_of_mem_outermost (h.liveTags ht).below hm

/-- An inclusion stems from one in the text. -/
theorem StemsFrom.inclusions (h : t.StemsFrom c source) {text : Forest}
    (ht : c.textAt source t.label = .ok text) {e : Element} (met : t.MeetsInclusion c e) :
    (∃ origin ∈ text.tags, e.tag.IsLeftOf origin) ∧
      e.children.LiveTags fun tag => ∃ origin ∈ text.tags, tag.IsLeftOf origin := by
  obtain ⟨looped, hl, hm⟩ := met
  have unrolled := Forest.liveTags_replaced (replaced_isSealed_eachLoop hl) (h.liveTags ht)
  have pruned := Forest.liveTags_prune t.scope (fun tag value rest => by
    rintro ⟨origin, hm, left⟩ taken
    exact ⟨origin, hm, left.takeDirective? (.inr rfl) taken⟩) unrolled
  exact Forest.eachLive_of_mem_outermost pruned.below hm

theorem StemsFrom.exists_names (h : t.StemsFrom c source) {text : Forest}
    (ht : c.textAt source t.label = .ok text) {e : Element} (met : t.MeetsInclusion c e)
    {name : Text} (hn : (Inclusion.ofAttributes e.tag.attributes).name? = some name) :
    ∃ origin ∈ text.tags, origin.Names name := by
  obtain ⟨⟨origin, ho, left⟩, -⟩ := h.inclusions ht met
  obtain ⟨looped, -, hm⟩ := met
  exact ⟨origin, ho, left.names
    ⟨Forest.name_of_mem_inclusions hm, Inclusion.exists_of_name?_eq_some hn⟩⟩

/-- What an inclusion resolves to is included by the innermost open fragment. -/
theorem StemsFrom.includes (h : t.StemsFrom c source) {path target : Path}
    (innermost : path ∈ t.opened.head?) {e : Element} (met : t.MeetsInclusion c e) {name : Text}
    (hn : (Inclusion.ofAttributes e.tag.attributes).name? = some name)
    (hr : c.store.resolve name = .ok target) : c.store.Includes path target := by
  obtain ⟨outer, ho⟩ := List.head?_eq_some_iff.mp innermost
  have inOrder := h.inOrder
  rw [ho] at inOrder
  obtain ⟨text, ht, -⟩ := h.live
  obtain ⟨origin, hm, names⟩ := h.exists_names ht met hn
  rw [textAt_eq_load inOrder] at ht
  exact ⟨inOrder.isFragment path List.mem_cons_self, text, ht, origin, hm, name, names, hr⟩

/-- One call keeps it so. Copies and slot content stay with the text they are written in. -/
theorem StemsFrom.call (h : t.StemsFrom c source) (called : t.Calls c t') :
    t'.StemsFrom c source := by
  obtain ⟨text, ht, -⟩ := h.live
  cases called with
  | copy hm taken _ _ =>
    obtain ⟨⟨origin, ho, left⟩, below⟩ := h.loops ht hm
    exact ⟨h.inOrder, h.isChain, text, ht,
      ⟨origin, ho, left.takeDirective? (.inl rfl) taken⟩, below, trivial⟩
  | slot met => exact ⟨h.inOrder, h.isChain, text, ht, (h.inclusions ht met).2⟩
  | @body e slot o met _ ho =>
    have inOrder := Call.inOrder_open h.inOrder ho
    obtain ⟨hn, hr, -, -, hl⟩ := openFragment_eq_ok.mp ho
    refine ⟨inOrder, ?_, o.body, (textAt_eq_load inOrder).trans hl, ?_⟩
    · refine List.isChain_cons.mpr ⟨?_, h.isChain⟩
      intro path innermost
      exact h.includes innermost met hn hr
    · refine Forest.liveTags_of_forall_mem_tags ?_
      intro tag hm
      exact ⟨tag, hm, tag.isLeftOf_refl⟩

/-- So do all calls that lead to an expansion. -/
theorem StemsFrom.reaches (h : t.StemsFrom c source) (reached : t.Reaches c t') :
    t'.StemsFrom c source := by
  induction reached with
  | refl => exact h
  | tail _ called ih => exact ih.call called

end Task

end HtmlTemplate
