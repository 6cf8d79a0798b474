import HtmlTemplate.Proofs.Lexed
import HtmlTemplate.Proofs.Occurrences
import HtmlTemplate.Proofs.Spellings

/-!
# Which tokens there are

A token that is no text is well formed, and every well-formed one is cut out of its own written
form. Main result: no source gives any other token, and in the forest that is read the names of
an element's attributes are distinct and void elements are empty, at every depth.
-/
namespace HtmlTemplate

/-! ### Tags in their plainest spelling -/

namespace Attribute

/-- The attribute after a space, its value in double quotes. -/
def spelling (a : Attribute) : AttributeSpelling where
  gap := [' ']
  name := a.name
  assigned? := some ⟨[], [], .doubleQuoted (Text.Entity.encodeAttribute a.value)⟩

theorem isValid_spelling {a : Attribute} (h : isAttributeName a.name) : a.spelling.IsValid := by
  obtain ⟨name_ne_nil, chars⟩ := isAttributeName_iff.mp h
  refine ⟨List.cons_ne_nil _ _, ?_, name_ne_nil, fun c hc => (chars c hc).1, ?_⟩
  · rw [show a.spelling.gap = [' '] from rfl, List.forall_mem_singleton]
    decide
  · rintro assigned ⟨⟩
    exact ⟨List.forall_mem_nil _, List.forall_mem_nil _,
      Text.Entity.quote_not_mem_encodeAttribute a.value⟩

theorem meaning_spelling {a : Attribute} (h : isAttributeName a.name) :
    a.spelling.meaning = a := by
  obtain ⟨-, chars⟩ := isAttributeName_iff.mp h
  have name : a.name.lowercase = a.name := Text.lowercase_eq_self fun c hc => (chars c hc).2
  have value := Text.Entity.decode_encodeAttribute a.value
  unfold AttributeSpelling.meaning
  rw [show a.spelling.name = a.name from rfl, name]
  exact congrArg (Attribute.mk a.name) value

theorem not_endsInSlash_spelling (a : Attribute) : ¬a.spelling.EndsInSlash := by
  rintro ⟨assigned, ⟨⟩, ends⟩
  exact ends

end Attribute

namespace Tag

/-- The tag with every attribute in its plainest spelling. -/
def spelling (tag : Tag) (isClosed : Bool) : StartTagSpelling where
  name := tag.name
  attributes := tag.attributes.map (·.spelling)
  blanks := []
  isClosed := isClosed

theorem isValid_spelling {tag : Tag} (h : tag.IsWellFormed) (isClosed : Bool) :
    (tag.spelling isClosed).IsValid := by
  obtain ⟨c, run, name, first, chars, -⟩ := exists_of_isTagName h.name_ok
  refine ⟨?_, chars, ?_, List.forall_mem_nil _, ?_⟩
  · show tag.name.head?.any Char.isAlpha
    rw [name]
    exact first
  · show ∀ s ∈ tag.attributes.map (·.spelling), s.IsValid
    rw [List.forall_mem_map]
    exact fun a ha => Attribute.isValid_spelling (h.attributes_ok a ha)
  · intro _ _ s hs
    obtain ⟨a, -, rfl⟩ := List.mem_map.mp (List.mem_of_getLast? hs)
    exact a.not_endsInSlash_spelling

theorem tag_spelling {tag : Tag} (h : tag.IsWellFormed) (isClosed : Bool) :
    (tag.spelling isClosed).tag = tag := by
  obtain ⟨-, -, -, -, -, name⟩ := exists_of_isTagName h.name_ok
  have meanings : (tag.attributes.map (·.spelling)).map (·.meaning) = tag.attributes := by
    rw [List.map_map]
    exact (List.map_congr_left fun a ha => Attribute.meaning_spelling (h.attributes_ok a ha)).trans
      (List.map_id _)
  have attributes : (tag.spelling isClosed).tag.attributes = tag.attributes := by
    show ((tag.attributes.map (·.spelling)).map (·.meaning)).eraseDupsBy _ = _
    rw [meanings, ← Token.keepFirst_eq_eraseDupsBy, Token.keepFirst_eq_self h.hasDistinctNames]
  exact congrArg₂ Tag.mk name attributes

end Tag

/-! ### Tokens -/

namespace Token

theorem scan_eq_of_markup? {t : Text} {token : Token} (h : markup? t = some ⟨token, [], []⟩) :
    scan ('<' :: t) = [token] := by
  rw [scan_of_markup? h, scan_nil]
  rfl

/-- A well-formed token that is no text is all that some source holds. -/
theorem exists_scan_eq {token : Token} (h : token.IsWellFormed) (other : token.isText = false) :
    ∃ source, scan source = [token] := by
  cases token with
  | startTag tag isClosed =>
    have written := scan_startTag_source (tag.isValid_spelling h isClosed)
    rw [tag.tag_spelling h isClosed] at written
    exact ⟨_, written⟩
  | endTag name => exact ⟨_, scan_eq_of_markup? (markup?_endTag h [])⟩
  | text content => exact absurd other (by simp [isText])
  | comment body => exact ⟨_, scan_eq_of_markup? (markup?_comment h [])⟩
  | declaration raw =>
    obtain ⟨t, -, found⟩ := markup?_declaration h []
    exact ⟨_, scan_eq_of_markup? found⟩

end Token

/-! ### Elements -/

namespace Forest

/-- What a forest obeys, the nodes at each of its spots obey. -/
theorem Obeys.of_plug {r : Rules} {nodes : Forest} {spot : Spot}
    (h : (spot.plug nodes).Obeys r) : nodes.Obeys r := by
  induction spot with
  | here before after =>
    rw [Spot.plug, obeys_append, obeys_append] at h
    exact h.1.2
  | inside before tag isSealed inner after ih =>
    rw [Spot.plug, obeys_append] at h
    exact ih h.2.2.1

/-- An element that is read is lexed, at whatever depth. -/
theorem IsLexed.element_ok {f : Forest} (h : f.IsLexed) {o : Occurrence} (ho : o.forest = f) :
    o.element.tag.IsWellFormed ∧ (o.element.tag.isVoid → o.element.children = nil) := by
  have obeys := h.obeys
  rw [← ho] at obeys
  exact obeys.of_plug.1

end Forest

/-- The tokens other than texts that a source can give are the well-formed ones. So every element
of a forest that is read has attributes with distinct names, and no children if it is void. -/
theorem Token.tokens_are_wellFormed :
    (∀ source, ∀ token ∈ scan source, token.IsWellFormed) ∧
    (∀ token : Token, token.IsWellFormed → token.isText = false →
      ∃ source, scan source = [token]) ∧
    ∀ source, ∀ o : Forest.Occurrence, o.forest = Forest.read source →
      o.element.tag.IsWellFormed ∧ o.element.tag.HasDistinctNames ∧
        (o.element.tag.isVoid → o.element.children = .nil) := by
  refine ⟨isWellFormed_scan, fun token h other => exists_scan_eq h other, ?_⟩
  intro source o ho
  obtain ⟨tag_ok, void⟩ := (Forest.isLexed_read source).element_ok ho
  exact ⟨tag_ok, tag_ok.hasDistinctNames, void⟩

end HtmlTemplate
