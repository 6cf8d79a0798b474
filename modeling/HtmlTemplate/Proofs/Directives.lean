import HtmlTemplate.Directive

/-!
# Taking directives off a tag

Taking a directive removes one attribute. The names of loops and conditions are spelled in
one way only, so where no name is repeated nothing of their kind remains.
-/
namespace HtmlTemplate

open Directive (Kind)

theorem Directive.Kind.ofName?_eq_iterate {name : Text} :
    Kind.ofName? name = some .iterate ↔ name = "x-for".toList := by
  unfold Kind.ofName?
  constructor
  · intro h
    split at h
    · assumption
    · split at h
      · simp at h
      · split at h <;> simp at h
  · rintro rfl
    decide

theorem Directive.Kind.ofName?_eq_condition {name : Text} :
    Kind.ofName? name = some .condition ↔ name = "x-if".toList := by
  unfold Kind.ofName?
  constructor
  · intro h
    split at h
    · simp at h
    · split at h
      · assumption
      · split at h <;> simp at h
  · rintro rfl
    decide

theorem Directive.Kind.ofName?_eq_fragmentName {name : Text} :
    Kind.ofName? name = some .fragmentName ↔ name = "x-name".toList := by
  unfold Kind.ofName?
  constructor
  · intro h
    split at h
    · simp at h
    · split at h
      · simp at h
      · split at h
        · assumption
        · simp at h
  · rintro rfl
    decide

namespace Tag

/-- No two attributes have one name. -/
def HasDistinctNames (tag : Tag) : Prop := (tag.attributes.map (·.name)).Nodup

instance (tag : Tag) : Decidable tag.HasDistinctNames := inferInstanceAs (Decidable (List.Nodup _))

/-- No attribute carries a directive of that kind. -/
def Lacks (kind : Kind) (tag : Tag) : Prop :=
  ∀ a ∈ tag.attributes, Kind.ofName? a.name ≠ some kind

theorem lacks_iff {kind : Kind} {tag : Tag} : tag.Lacks kind ↔ tag.takeDirective? kind = none := by
  unfold takeDirective? takeAttribute?
  split
  · rename_i a ha
    have hp := List.find?_some ha
    simp only [reduceCtorEq, iff_false]
    intro h
    exact h a (List.mem_of_find?_eq_some ha) (by simpa using hp)
  · rename_i h
    simpa [Lacks] using h

instance (kind : Kind) (tag : Tag) : Decidable (tag.Lacks kind) := decidable_of_iff' _ lacks_iff

/-- Taking a directive removes the first attribute of its kind. -/
theorem attributes_takeDirective? {kind : Kind} {tag rest : Tag} {value : Text}
    (h : tag.takeDirective? kind = some (value, rest)) :
    ∃ before a after, tag.attributes = before ++ a :: after ∧
      rest.attributes = before ++ after ∧ Kind.ofName? a.name = some kind ∧
      ∀ b ∈ before, Kind.ofName? b.name ≠ some kind := by
  unfold takeDirective? takeAttribute? at h
  split at h
  · rename_i a ha
    obtain ⟨-, rfl⟩ := by simpa using h
    obtain ⟨a, before, after, hb, hk, he, hr⟩ :=
      List.exists_of_eraseP (List.mem_of_find?_eq_some ha) (List.find?_some ha)
    refine ⟨before, a, after, he, hr, by simpa using hk, ?_⟩
    intro b hm
    simpa using hb b hm
  · simp at h

/-- The value that is taken is that of an attribute of the kind. -/
theorem value_takeDirective? {kind : Kind} {tag rest : Tag} {value : Text}
    (h : tag.takeDirective? kind = some (value, rest)) :
    ∃ a ∈ tag.attributes, a.value = value ∧ Kind.ofName? a.name = some kind := by
  unfold takeDirective? takeAttribute? at h
  split at h
  · rename_i a ha
    obtain ⟨rfl, -⟩ := by simpa using h
    exact ⟨a, List.mem_of_find?_eq_some ha, rfl, by simpa using List.find?_some ha⟩
  · simp at h

theorem name_takeDirective? {kind : Kind} {tag rest : Tag} {value : Text}
    (h : tag.takeDirective? kind = some (value, rest)) : rest.name = tag.name := by
  unfold takeDirective? takeAttribute? at h
  split at h
  · obtain ⟨-, rfl⟩ := by simpa using h
    rfl
  · simp at h

theorem sublist_takeDirective? {kind : Kind} {tag rest : Tag} {value : Text}
    (h : tag.takeDirective? kind = some (value, rest)) :
    rest.attributes.Sublist tag.attributes := by
  obtain ⟨before, a, after, he, hr, -⟩ := attributes_takeDirective? h
  rw [he, hr]
  exact List.Sublist.append_left (List.sublist_cons_self a after) before

theorem HasDistinctNames.takeDirective? {kind : Kind} {tag rest : Tag} {value : Text}
    (hd : tag.HasDistinctNames) (h : tag.takeDirective? kind = some (value, rest)) :
    rest.HasDistinctNames :=
  ((sublist_takeDirective? h).map _).nodup hd

theorem Lacks.takeDirective? {kind other : Kind} {tag rest : Tag} {value : Text}
    (hl : tag.Lacks other) (h : tag.takeDirective? kind = some (value, rest)) :
    rest.Lacks other := by
  intro a hm
  exact hl a ((sublist_takeDirective? h).subset hm)

/-- Nothing remains of a kind that only one name spells. -/
theorem HasDistinctNames.lacks {kind : Kind} {tag rest : Tag} {value name : Text}
    (hd : tag.HasDistinctNames) (only : ∀ n, Kind.ofName? n = some kind → n = name)
    (h : tag.takeDirective? kind = some (value, rest)) : rest.Lacks kind := by
  obtain ⟨before, a, after, he, hr, hk, hb⟩ := attributes_takeDirective? h
  unfold HasDistinctNames at hd
  rw [he, List.map_append, List.map_cons] at hd
  intro b hm
  rw [hr] at hm
  rcases List.mem_append.mp hm with hm | hm
  · exact hb b hm
  · intro hk'
    have same : b.name = a.name := by rw [only _ hk', only _ hk]
    have fresh := (List.nodup_cons.mp (List.nodup_append.mp hd).2.1).1
    exact fresh (same ▸ List.mem_map_of_mem hm)

theorem HasDistinctNames.lacks_iterate {tag rest : Tag} {value : Text}
    (hd : tag.HasDistinctNames) (h : tag.takeDirective? .iterate = some (value, rest)) :
    rest.Lacks .iterate :=
  hd.lacks (fun _ => Kind.ofName?_eq_iterate.mp) h

theorem HasDistinctNames.lacks_condition {tag rest : Tag} {value : Text}
    (hd : tag.HasDistinctNames) (h : tag.takeDirective? .condition = some (value, rest)) :
    rest.Lacks .condition :=
  hd.lacks (fun _ => Kind.ofName?_eq_condition.mp) h

/-- The tag without its first directive of that kind, if there is one. -/
def withoutDirective (kind : Kind) (tag : Tag) : Tag :=
  ((tag.takeDirective? kind).map (·.2)).getD tag

theorem withoutDirective_of_some {kind : Kind} {tag rest : Tag} {value : Text}
    (h : tag.takeDirective? kind = some (value, rest)) : tag.withoutDirective kind = rest := by
  rw [withoutDirective, h]
  rfl

theorem withoutDirective_of_none {kind : Kind} {tag : Tag} (h : tag.takeDirective? kind = none) :
    tag.withoutDirective kind = tag := by
  rw [withoutDirective, h]
  rfl

theorem name_withoutDirective (kind : Kind) (tag : Tag) :
    (tag.withoutDirective kind).name = tag.name := by
  unfold withoutDirective takeDirective? takeAttribute?
  split <;> rfl

theorem withoutDirective_sublist (kind : Kind) (tag : Tag) :
    (tag.withoutDirective kind).attributes.Sublist tag.attributes := by
  cases h : tag.takeDirective? kind with
  | none =>
    simp only [withoutDirective_of_none h, List.Sublist.refl]
  | some taken =>
    rw [withoutDirective_of_some h]
    exact sublist_takeDirective? h

/-- The tag as an element keeps it: without its loop and its condition. -/
def undirected (tag : Tag) : Tag := (tag.withoutDirective .iterate).withoutDirective .condition

theorem name_undirected (tag : Tag) : tag.undirected.name = tag.name := by
  rw [undirected, name_withoutDirective, name_withoutDirective]

theorem undirected_sublist (tag : Tag) : tag.undirected.attributes.Sublist tag.attributes :=
  (withoutDirective_sublist _ _).trans (withoutDirective_sublist _ _)

theorem HasDistinctNames.withoutDirective {tag : Tag} (hd : tag.HasDistinctNames) (kind : Kind) :
    (tag.withoutDirective kind).HasDistinctNames :=
  ((withoutDirective_sublist kind tag).map _).nodup hd

theorem HasDistinctNames.undirected {tag : Tag} (hd : tag.HasDistinctNames) :
    tag.undirected.HasDistinctNames :=
  (hd.withoutDirective _).withoutDirective _

theorem HasDistinctNames.lacks_iterate_undirected {tag : Tag} (hd : tag.HasDistinctNames) :
    tag.undirected.Lacks .iterate := by
  have lacks : (tag.withoutDirective .iterate).Lacks .iterate := by
    cases h : tag.takeDirective? .iterate with
    | none =>
      rw [withoutDirective_of_none h]
      exact lacks_iff.mpr h
    | some taken =>
      rw [withoutDirective_of_some h]
      exact hd.lacks_iterate h
  intro a hm
  exact lacks a ((withoutDirective_sublist _ _).subset hm)

theorem HasDistinctNames.lacks_condition_undirected {tag : Tag} (hd : tag.HasDistinctNames) :
    tag.undirected.Lacks .condition := by
  unfold Tag.undirected
  have distinct := hd.withoutDirective .iterate
  cases h : (tag.withoutDirective .iterate).takeDirective? .condition with
  | none =>
    rw [withoutDirective_of_none h]
    exact lacks_iff.mpr h
  | some taken =>
    rw [withoutDirective_of_some h]
    exact distinct.lacks_condition h

end Tag

end HtmlTemplate
