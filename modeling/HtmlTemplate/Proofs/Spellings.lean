import HtmlTemplate.Proofs.Spans

/-!
# Spellings of start tags

A start tag is written with letters of any case, with blanks between its parts, and with each
attribute in one of four spellings. Main result: a source that is one start tag is read as that
tag, whatever its spelling.
-/
namespace HtmlTemplate

open Token (isBlank isNameChar isAttributeNameChar isBareChar)

/-- A value as it is written. -/
inductive ValueSpelling where
  | doubleQuoted (value : Text)
  | singleQuoted (value : Text)
  | unquoted (value : Text)
deriving DecidableEq, Repr

/-- An equals sign with the blanks around it, and the value. -/
structure Assignment where
  before : Text := []
  after : Text := []
  value : ValueSpelling
deriving DecidableEq, Repr

/-- An attribute as it is written, with the blanks before it. -/
structure AttributeSpelling where
  gap : Text
  name : Text
  assigned? : Option Assignment := none
deriving DecidableEq, Repr

/-- A start tag as it is written, and whether it ends in `/>`. -/
structure StartTagSpelling where
  name : Text
  attributes : List AttributeSpelling
  blanks : Text
  isClosed : Bool
deriving DecidableEq, Repr

/-- What holds of every character of a text is decided along the text, not over all
characters. -/
local instance {p : Char → Prop} [DecidablePred p] (t : Text) : Decidable (∀ c ∈ t, p c) :=
  List.decidableBAll p t

namespace ValueSpelling

/-- The value before its references are decoded. -/
def raw : ValueSpelling → Text
  | doubleQuoted value | singleQuoted value | unquoted value => value

def source : ValueSpelling → Text
  | doubleQuoted value => '"' :: (value ++ ['"'])
  | singleQuoted value => '\'' :: (value ++ ['\''])
  | unquoted value => value

/-- A value in quotes does not hold its quote. One without quotes is not empty, begins with no
quote and holds neither blanks nor `>`. -/
def IsValid : ValueSpelling → Prop
  | doubleQuoted value => '"' ∉ value
  | singleQuoted value => '\'' ∉ value
  | unquoted value => value ≠ [] ∧ (∀ c ∈ value, ¬isBlank c ∧ c ≠ '>') ∧
      value.head? ≠ some '"' ∧ value.head? ≠ some '\''

/-- A `>` right after the value would close the tag together with the end of the value. -/
def EndsInSlash : ValueSpelling → Prop
  | unquoted value => value.getLast? = some '/'
  | _ => False

instance : DecidablePred IsValid
  | doubleQuoted value => inferInstanceAs (Decidable ('"' ∉ value))
  | singleQuoted value => inferInstanceAs (Decidable ('\'' ∉ value))
  | unquoted value => inferInstanceAs (Decidable (value ≠ [] ∧
      (∀ c ∈ value, ¬isBlank c ∧ c ≠ '>') ∧ value.head? ≠ some '"' ∧ value.head? ≠ some '\''))

instance : DecidablePred EndsInSlash
  | unquoted value => inferInstanceAs (Decidable (value.getLast? = some '/'))
  | doubleQuoted _ | singleQuoted _ => inferInstanceAs (Decidable False)

end ValueSpelling

namespace Assignment

def source (a : Assignment) : Text := a.before ++ '=' :: (a.after ++ a.value.source)

@[mk_iff]
structure IsValid (a : Assignment) : Prop where
  before_ok : ∀ c ∈ a.before, isBlank c
  after_ok : ∀ c ∈ a.after, isBlank c
  value_ok : a.value.IsValid

instance (a : Assignment) : Decidable a.IsValid := decidable_of_iff' _ (isValid_iff a)

end Assignment

namespace AttributeSpelling

def source (a : AttributeSpelling) : Text :=
  a.gap ++ (a.name ++ a.assigned?.elim [] Assignment.source)

/-- The attribute that is written. -/
def meaning (a : AttributeSpelling) : Attribute where
  name := a.name.lowercase
  value := a.assigned?.elim [] fun assigned => Text.Entity.decode assigned.value.raw

@[mk_iff]
structure IsValid (a : AttributeSpelling) : Prop where
  gap_ne_nil : a.gap ≠ []
  gap_ok : ∀ c ∈ a.gap, isBlank c
  name_ne_nil : a.name ≠ []
  name_ok : ∀ c ∈ a.name, isAttributeNameChar c
  assigned_ok : ∀ assigned ∈ a.assigned?, assigned.IsValid

def EndsInSlash (a : AttributeSpelling) : Prop :=
  ∃ assigned ∈ a.assigned?, assigned.value.EndsInSlash

instance (a : AttributeSpelling) : Decidable a.IsValid := decidable_of_iff' _ (isValid_iff a)

instance (a : AttributeSpelling) : Decidable a.EndsInSlash :=
  inferInstanceAs (Decidable (∃ assigned ∈ a.assigned?, assigned.value.EndsInSlash))

end AttributeSpelling

namespace StartTagSpelling

/-- What is written between the name and the end of a tag. -/
def inside (attributes : List AttributeSpelling) (blanks : Text) : Text :=
  attributes.flatMap (·.source) ++ blanks

def source (s : StartTagSpelling) : Text :=
  '<' :: (s.name ++ (inside s.attributes s.blanks ++ Token.tagEnd s.isClosed))

/-- The tag that is written. Of the attributes with one name the first counts. -/
def tag (s : StartTagSpelling) : Tag where
  name := s.name.lowercase
  attributes := (s.attributes.map (·.meaning)).eraseDupsBy fun a b => a.name == b.name

/-- The name begins with a letter, and no value ends in a slash where a `>` follows. -/
@[mk_iff]
structure IsValid (s : StartTagSpelling) : Prop where
  name_begins : s.name.head?.any Char.isAlpha
  name_ok : ∀ c ∈ s.name, isNameChar c
  attributes_ok : ∀ a ∈ s.attributes, a.IsValid
  blanks_ok : ∀ c ∈ s.blanks, isBlank c
  slash_ok : s.isClosed = false → s.blanks = [] → ∀ a ∈ s.attributes.getLast?, ¬a.EndsInSlash

instance (s : StartTagSpelling) : Decidable s.IsValid := decidable_of_iff' _ (isValid_iff s)

end StartTagSpelling

namespace Token

/-! ### Values -/

theorem splitValue_blanks {blanks : Text} (h : ∀ c ∈ blanks, isBlank c) (t : Text) :
    splitValue (blanks ++ t) = splitValue t := by
  unfold splitValue
  rw [List.dropWhile_append_of_pos h]

theorem splitValue_unquoted {value rest : Text} (h : (ValueSpelling.unquoted value).IsValid)
    (hr : EndsAttribute rest)
    (slash : rest.head? = some '>' → ¬(ValueSpelling.unquoted value).EndsInSlash) :
    splitValue (value ++ rest) = (value, rest) := by
  obtain ⟨some_left, chars, no_double, no_single⟩ := h
  have bare : ∀ c ∈ value, isBareChar c := by
    intro c hc
    simp [isBareChar, chars c hc]
  have first : (value ++ rest).dropWhile isBlank = value ++ rest := by
    obtain ⟨c, value, rfl⟩ := List.exists_cons_of_ne_nil some_left
    exact List.dropWhile_cons_of_neg (chars c (by simp)).1
  have begins : (value ++ rest).head? = value.head? := List.head?_append_of_ne_nil _ some_left
  unfold splitValue
  rw [first]
  split
  · rename_i quote
    rw [quote] at begins
    exact absurd begins.symm no_double
  · rename_i quote
    rw [quote] at begins
    exact absurd begins.symm no_single
  · have stop {c : Char} {t : Text} (hc : isBareChar c = false) :
        ∀ d ∈ (c :: t).head?, isBareChar d = false := by
      rintro d ⟨⟩
      exact hc
    cases hr with
    | @blank c t blank =>
      have other : c ≠ '>' := by
        rintro rfl
        exact absurd blank (by decide)
      have ends := @stop c t (by simp [isBareChar, blank])
      rw [Text.takeWhile_run bare ends, Text.dropWhile_run bare ends]
      exact if_neg (by simp [other])
    | close t =>
      have ends := @stop '>' t (by decide)
      rw [Text.takeWhile_run bare ends, Text.dropWhile_run bare ends]
      exact if_neg fun given => slash rfl given.1
    | slash t =>
      -- The slash is at the end of the run that begins with the value.
      have run : ∀ c ∈ value ++ ['/'], isBareChar c := by
        rw [List.forall_mem_append, List.forall_mem_singleton]
        exact ⟨bare, by decide⟩
      have ends := @stop '>' t (by decide)
      rw [List.append_cons, Text.takeWhile_run run ends, Text.dropWhile_run run ends]
      simp

theorem splitValue_source {value : ValueSpelling} (h : value.IsValid) {rest : Text}
    (hr : EndsAttribute rest) (slash : rest.head? = some '>' → ¬value.EndsInSlash) :
    splitValue (value.source ++ rest) = (value.raw, rest) := by
  cases value with
  | doubleQuoted value =>
    have cut := splitValue_quoted (.inl rfl) h rest
    simpa [ValueSpelling.source, ValueSpelling.raw] using cut
  | singleQuoted value =>
    have cut := splitValue_quoted (.inr rfl) h rest
    simpa [ValueSpelling.source, ValueSpelling.raw] using cut
  | unquoted value => exact splitValue_unquoted h hr slash

/-! ### Attributes -/

theorem readAttributes_blanks {blanks : Text} (h : ∀ c ∈ blanks, isBlank c) (t : Text) :
    readAttributes (blanks ++ t) = readAttributes t := by
  induction blanks with
  | nil => rfl
  | cons c blanks ih =>
    obtain ⟨first, others⟩ := List.forall_mem_cons.mp h
    rw [List.cons_append, readAttributes_blank first, ih others]

theorem readAttributes_tagEnd (isClosed : Bool) (rest : Text) :
    readAttributes (tagEnd isClosed ++ rest) = ⟨[], isClosed, rest⟩ := by
  cases isClosed with
  | false => exact readAttributes_close rest
  | true =>
    show readAttributes ('/' :: '>' :: rest) = _
    rw [readAttributes.eq_def]
    rfl

theorem readAttributes_source {a : AttributeSpelling} (h : a.IsValid) {rest : Text}
    (hr : EndsAttribute rest) (slash : rest.head? = some '>' → ¬a.EndsInSlash) :
    readAttributes (a.source ++ rest) = (readAttributes rest).push a.meaning := by
  obtain ⟨gap, name, assigned?⟩ := a
  have written : (⟨gap, name, assigned?⟩ : AttributeSpelling).source ++ rest
      = gap ++ (name ++ (assigned?.elim [] Assignment.source ++ rest)) := by
    simp [AttributeSpelling.source]
  rw [written, readAttributes_blanks h.gap_ok]
  cases assigned? with
  | none => exact readAttributes_bare h.name_ne_nil h.name_ok hr
  | some assigned =>
    obtain ⟨before_ok, after_ok, value_ok⟩ := h.assigned_ok assigned rfl
    have cut := splitValue_source value_ok hr fun close ends => slash close ⟨assigned, rfl, ends⟩
    have sign : assigned.source ++ rest
        = assigned.before ++ '=' :: (assigned.after ++ (assigned.value.source ++ rest)) := by
      simp [Assignment.source]
    rw [Option.elim_some, sign, readAttributes_equals h.name_ne_nil h.name_ok before_ok,
      splitValue_blanks after_ok, cut]
    rfl

theorem endsAttribute_tagEnd {blanks : Text} (h : ∀ c ∈ blanks, isBlank c) (isClosed : Bool)
    (rest : Text) : EndsAttribute (blanks ++ (tagEnd isClosed ++ rest)) := by
  have stop : ∀ d ∈ (tagEnd isClosed ++ rest).head?, isBlank d = false ∧ d ≠ '=' := by
    cases isClosed <;> (rintro d ⟨⟩; decide)
  cases blanks with
  | nil =>
    cases isClosed with
    | false => exact .close rest
    | true => exact .slash rest
  | cons c blanks =>
    obtain ⟨first, others⟩ := List.forall_mem_cons.mp h
    have ends : (blanks ++ (tagEnd isClosed ++ rest)).dropWhile isBlank
        = tagEnd isClosed ++ rest := Text.dropWhile_run others fun d hd => (stop d hd).1
    refine .blank first ?_
    show ∀ d ∈ ((blanks ++ (tagEnd isClosed ++ rest)).dropWhile isBlank).head?, d ≠ '='
    rw [ends]
    exact fun d hd => (stop d hd).2

theorem endsAttribute_source {a : AttributeSpelling} (h : a.IsValid) (rest : Text) :
    EndsAttribute (a.source ++ rest) := by
  obtain ⟨gap, name, assigned?⟩ := a
  obtain ⟨c, gap, rfl⟩ := List.exists_cons_of_ne_nil h.gap_ne_nil
  obtain ⟨d, name, rfl⟩ := List.exists_cons_of_ne_nil h.name_ne_nil
  obtain ⟨first, others⟩ := List.forall_mem_cons.mp h.gap_ok
  have written : (⟨c :: gap, d :: name, assigned?⟩ : AttributeSpelling).source ++ rest
      = c :: (gap ++ d :: (name ++ (assigned?.elim [] Assignment.source ++ rest))) := by
    simp [AttributeSpelling.source]
  rw [written]
  refine .blank first ?_
  rw [List.dropWhile_append_of_pos others]
  exact head_ne_equals (h.name_ok d (by simp))

section Inside

variable {attributes : List AttributeSpelling} {blanks : Text} {isClosed : Bool}

open StartTagSpelling (inside)

theorem inside_cons (a : AttributeSpelling) (rest : Text) :
    inside (a :: attributes) blanks ++ rest = a.source ++ (inside attributes blanks ++ rest) := by
  simp [inside]

theorem endsAttribute_inside (valid : ∀ a ∈ attributes, a.IsValid)
    (hb : ∀ c ∈ blanks, isBlank c) (rest : Text) :
    EndsAttribute (inside attributes blanks ++ (tagEnd isClosed ++ rest)) := by
  cases attributes with
  | nil => exact endsAttribute_tagEnd hb isClosed rest
  | cons a attributes =>
    rw [inside_cons]
    exact endsAttribute_source (valid a (by simp)) _

/-- A `>` comes first only where the tag ends. -/
theorem eq_nil_of_head?_inside (valid : ∀ a ∈ attributes, a.IsValid)
    (hb : ∀ c ∈ blanks, isBlank c) {rest : Text}
    (h : (inside attributes blanks ++ (tagEnd isClosed ++ rest)).head? = some '>') :
    attributes = [] ∧ blanks = [] ∧ isClosed = false := by
  have solid {c : Char} (hc : isBlank c) : c ≠ '>' := by
    rintro rfl
    exact absurd hc (by decide)
  cases attributes with
  | nil =>
    cases blanks with
    | nil =>
      cases isClosed with
      | false => exact ⟨rfl, rfl, rfl⟩
      | true => exact absurd (Option.some.inj h) (by decide)
    | cons c blanks => exact absurd (Option.some.inj h) (solid (hb c (by simp)))
  | cons a attributes =>
    have a_ok := valid a (by simp)
    obtain ⟨c, gap, he⟩ := List.exists_cons_of_ne_nil a_ok.gap_ne_nil
    rw [inside_cons, AttributeSpelling.source, he] at h
    exact absurd (Option.some.inj h) (solid (a_ok.gap_ok c (by simp [he])))

/-- The inside of a start tag is read attribute by attribute, whatever follows the tag. -/
theorem readAttributes_inside (valid : ∀ a ∈ attributes, a.IsValid)
    (hb : ∀ c ∈ blanks, isBlank c)
    (slash : isClosed = false → blanks = [] → ∀ a ∈ attributes.getLast?, ¬a.EndsInSlash)
    (rest : Text) : readAttributes (inside attributes blanks ++ (tagEnd isClosed ++ rest))
      = ⟨attributes.map (·.meaning), isClosed, rest⟩ := by
  induction attributes with
  | nil =>
    show readAttributes (blanks ++ (tagEnd isClosed ++ rest)) = _
    rw [readAttributes_blanks hb, readAttributes_tagEnd]
    rfl
  | cons a attributes ih =>
    obtain ⟨a_ok, others⟩ := List.forall_mem_cons.mp valid
    -- Only the last attribute can stand right before the end of the tag.
    have here : (inside attributes blanks ++ (tagEnd isClosed ++ rest)).head? = some '>' →
        ¬a.EndsInSlash := by
      intro close
      obtain ⟨rfl, none_left, isOpen⟩ := eq_nil_of_head?_inside others hb close
      exact slash isOpen none_left a rfl
    have later : isClosed = false → blanks = [] →
        ∀ a ∈ attributes.getLast?, ¬a.EndsInSlash := by
      intro isOpen none_left
      cases attributes with
      | nil => simp
      | cons b attributes =>
        rw [← @List.getLast?_cons_cons _ a]
        exact slash isOpen none_left
    rw [inside_cons, readAttributes_source a_ok (endsAttribute_inside others hb rest) here,
      ih others later]
    rfl

end Inside

/-! ### Repeated names -/

theorem keepFirst_filter (name : Text) (attributes : List Attribute) :
    keepFirst (attributes.filter (·.name != name))
      = (keepFirst attributes).filter (·.name != name) := by
  induction attributes with
  | nil => rfl
  | cons a attributes ih =>
    by_cases he : a.name = name
    · rw [List.filter_cons_of_neg (by simp [he]), ih, keepFirst,
        List.filter_cons_of_neg (by simp [he]), he, List.filter_filter]
      simp
    · rw [List.filter_cons_of_pos (by simp [he]), keepFirst, ih, keepFirst,
        List.filter_cons_of_pos (by simp [he]), List.filter_comm]

/-- To keep the first attribute of each name is to erase those with a name that was there. -/
theorem keepFirst_eq_eraseDupsBy (attributes : List Attribute) :
    keepFirst attributes = attributes.eraseDupsBy fun a b => a.name == b.name := by
  induction h : attributes.length using Nat.strong_induction_on generalizing attributes with
  | _ n ih =>
    cases attributes with
    | nil => rfl
    | cons a rest =>
      have shorter := List.length_filter_le (·.name != a.name) rest
      have others : (fun b : Attribute => decide ((b.name == a.name) = false))
          = (·.name != a.name) := by
        funext b
        cases same : b.name == a.name <;> simp [bne, same]
      rw [List.eraseDupsBy_cons, others, keepFirst, ← keepFirst_filter]
      rw [ih _ (by simp only [← h, List.length_cons]; omega) _ rfl]

/-! ### Start tags -/

theorem startTag?_source {s : StartTagSpelling} (h : s.IsValid) :
    startTag? (s.name ++ (StartTagSpelling.inside s.attributes s.blanks ++ tagEnd s.isClosed))
      = some ⟨.startTag s.tag s.isClosed, [], []⟩ := by
  have read := readAttributes_inside h.attributes_ok h.blanks_ok h.slash_ok []
  have ends := @endsAttribute_inside _ _ s.isClosed h.attributes_ok h.blanks_ok []
  rw [List.append_nil] at read ends
  have stop := fun c hc => (ends.apart c hc).2
  obtain ⟨name, attributes, blanks, isClosed⟩ := s
  cases name with
  | nil => exact absurd h.name_begins (by simp)
  | cons c run =>
    have letter : c.isAlpha := h.name_begins
    unfold startTag?
    rw [Text.takeWhile_run h.name_ok stop, Text.dropWhile_run h.name_ok stop, read]
    dsimp only
    rw [if_pos letter, keepFirst_eq_eraseDupsBy]
    -- No raw text follows the tag, since nothing does.
    split <;> rfl

/-- A source that is one start tag is read as that tag, whatever its spelling. -/
theorem scan_startTag_source {s : StartTagSpelling} (h : s.IsValid) :
    scan s.source = [.startTag s.tag s.isClosed] := by
  have found := startTag?_source h
  obtain ⟨c, run, name⟩ : ∃ c run, s.name = c :: run := by
    apply List.exists_cons_of_ne_nil
    intro empty
    have begins := h.name_begins
    rw [empty] at begins
    exact absurd begins (by simp)
  have letter : c.isAlpha := by
    have begins := h.name_begins
    rwa [name] at begins
  rw [name, List.cons_append] at found
  rw [StartTagSpelling.source, name, List.cons_append,
    scan_of_markup? ((markup?_letter letter _).trans found), scan_nil]
  rfl

/-- All four spellings, a name that is repeated in other letters, a value that ends in a slash
and a slash that closes the tag. -/
theorem scan_image_source :
    let image : StartTagSpelling := {
      name := "IMG".toList
      attributes := [
        ⟨"\t".toList, "SRC".toList, some ⟨" ".toList, "\n ".toList, .doubleQuoted "a>b&amp;'c'".toList⟩⟩,
        ⟨" ".toList, "alt".toList, some ⟨[], [], .singleQuoted "x \"y\" />".toList⟩⟩,
        ⟨"  ".toList, "Src".toList, some ⟨[], [], .unquoted "=other".toList⟩⟩,
        ⟨"\r\n".toList, "@Hidden<".toList, none⟩,
        ⟨"\x0c".toList, "href".toList, some ⟨[], " ".toList, .unquoted "/a'b/".toList⟩⟩]
      blanks := []
      isClosed := true }
    image.IsValid ∧
      image.source = ("<IMG\tSRC =\n \"a>b&amp;'c'\" alt='x \"y\" />'  Src==other".toList
        ++ "\r\n@Hidden<\x0chref= /a'b//>".toList) ∧
      scan image.source = [.startTag ⟨"img".toList, [⟨"src".toList, "a>b&'c'".toList⟩,
        ⟨"alt".toList, "x \"y\" />".toList⟩, ⟨"@hidden<".toList, []⟩,
        ⟨"href".toList, "/a'b/".toList⟩]⟩ true] := by
  intro image
  have valid : image.IsValid := by decide +kernel
  exact ⟨valid, by decide, (scan_startTag_source valid).trans (by decide +kernel)⟩

end Token

end HtmlTemplate
