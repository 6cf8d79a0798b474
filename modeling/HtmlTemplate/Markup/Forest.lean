import HtmlTemplate.Text

/-!
# Forests of markup

A forest is the list of sibling nodes that a document, or an element, holds. It is
kept as one inductive type, each node with the siblings after it, so that every walk
is a single structural recursion.
-/
namespace HtmlTemplate

/-- One attribute. The value is kept with its character references decoded. -/
structure Attribute where
  name : Text
  value : Text
deriving DecidableEq, Repr, Inhabited

/-- The name and the attributes of an element, in source order. -/
structure Tag where
  name : Text
  attributes : List Attribute := []
deriving DecidableEq, Repr, Inhabited

/-- Sibling nodes in document order. A sealed element is the result of a finished
expansion, which the passes of the enclosing level leave alone. -/
inductive Forest where
  | nil
  | element (tag : Tag) (isSealed : Bool) (children rest : Forest)
  | text (content : Text) (rest : Forest)
  | comment (body : Text) (rest : Forest)
  | declaration (raw : Text) (rest : Forest)
deriving DecidableEq, Repr, Inhabited

/-- One element with all it holds. -/
structure Element where
  tag : Tag
  isSealed : Bool := false
  children : Forest := .nil
deriving DecidableEq, Repr, Inhabited

namespace Tag

/-- The elements that have neither children nor an end tag. -/
def voidNames : List String :=
  ["area", "base", "br", "col", "embed", "hr", "img", "input", "link", "meta", "param",
    "source", "track", "wbr"]

/-- Whether an element of that name has neither children nor an end tag. -/
def isVoidName (name : Text) : Bool := voidNames.any fun v => v.toList == name

/-- Whether an element with this tag is written without children and end tag. -/
def isVoid (tag : Tag) : Bool := isVoidName tag.name

/-- The value of the first attribute of that name. -/
def attribute? (tag : Tag) (name : Text) : Option Text :=
  (tag.attributes.find? (·.name == name)).map (·.value)

/-- The tag with the value of the first attribute of that name replaced, or with the
attribute added at the end. -/
def setAttribute (tag : Tag) (name value : Text) : Tag :=
  { tag with attributes := set tag.attributes }
where
  /-- The list with that attribute set. -/
  set : List Attribute → List Attribute
    | [] => [⟨name, value⟩]
    | a :: rest => if a.name = name then ⟨a.name, value⟩ :: rest else a :: set rest

/-- The value of the first attribute whose name satisfies the test, and the tag without it. -/
def takeAttribute? (p : Text → Bool) (tag : Tag) : Option (Text × Tag) :=
  match tag.attributes.find? (p ·.name) with
  | some a => some (a.value, { tag with attributes := tag.attributes.eraseP (p ·.name) })
  | none => none

theorem length_takeAttribute? {p : Text → Bool} {tag rest : Tag} {value : Text}
    (h : tag.takeAttribute? p = some (value, rest)) :
    rest.attributes.length + 1 = tag.attributes.length := by
  unfold takeAttribute? at h
  split at h
  · rename_i a ha
    obtain ⟨-, rfl⟩ := by simpa using h
    have hmem := List.mem_of_find?_eq_some ha
    have hpos := List.length_pos_of_mem hmem
    have hp := List.find?_some ha
    have := List.length_eraseP_of_mem (p := fun x => p x.name) hmem hp
    simp only [this]
    omega
  · simp at h

end Tag

namespace Forest

/-- The siblings of the first forest, then those of the second. -/
def append : Forest → Forest → Forest
  | nil, g => g
  | element tag s children rest, g => element tag s children (rest.append g)
  | text content rest, g => text content (rest.append g)
  | comment body rest, g => comment body (rest.append g)
  | declaration raw rest, g => declaration raw (rest.append g)

instance : Append Forest := ⟨append⟩

@[simp] theorem nil_append (g : Forest) : nil ++ g = g := rfl
@[simp] theorem element_append (tag : Tag) (s : Bool) (children rest g : Forest) :
    element tag s children rest ++ g = element tag s children (rest ++ g) := rfl
@[simp] theorem text_append (content : Text) (rest g : Forest) :
    text content rest ++ g = text content (rest ++ g) := rfl
@[simp] theorem comment_append (body : Text) (rest g : Forest) :
    comment body rest ++ g = comment body (rest ++ g) := rfl
@[simp] theorem declaration_append (raw : Text) (rest g : Forest) :
    declaration raw rest ++ g = declaration raw (rest ++ g) := rfl

@[simp] theorem append_nil (f : Forest) : f ++ nil = f := by
  induction f <;> simp_all

theorem append_assoc (f g h : Forest) : f ++ g ++ h = f ++ (g ++ h) := by
  induction f <;> simp_all

/-- The forest of one element. -/
def ofElement (e : Element) : Forest := element e.tag e.isSealed e.children nil

/-- The number of sibling nodes at the top. -/
def length : Forest → Nat
  | nil => 0
  | element _ _ _ rest => rest.length + 1
  | text _ rest => rest.length + 1
  | comment _ rest => rest.length + 1
  | declaration _ rest => rest.length + 1

/-- The forest with every element at the top sealed. -/
def sealTop : Forest → Forest
  | nil => nil
  | element tag _ children rest => element tag true children rest.sealTop
  | text content rest => text content rest.sealTop
  | comment body rest => comment body rest.sealTop
  | declaration raw rest => declaration raw rest.sealTop

/-- The forest without the blank texts before its first other node. -/
def trimStart : Forest → Forest
  | text content rest => if content.isAllBlank then rest.trimStart else text content rest
  | f => f

/-- The forest without the blank texts after its last other node. -/
def trimEnd : Forest → Forest
  | nil => nil
  | element tag s children rest => element tag s children rest.trimEnd
  | text content rest =>
    let rest := rest.trimEnd
    if content.isAllBlank && rest = nil then nil else text content rest
  | comment body rest => comment body rest.trimEnd
  | declaration raw rest => declaration raw rest.trimEnd

/-- The forest without the blank texts at both ends. -/
def trim (f : Forest) : Forest := f.trimEnd.trimStart

/-- For every node at the top, whether it is a blank text. -/
def blanks : Forest → List Bool
  | nil => []
  | element _ _ _ rest => false :: rest.blanks
  | text content rest => content.isAllBlank :: rest.blanks
  | comment _ rest => false :: rest.blanks
  | declaration _ rest => false :: rest.blanks

/-- For every node at the top, its element, if it is one. -/
def elements? : Forest → List (Option Element)
  | nil => []
  | element tag s children rest => some ⟨tag, s, children⟩ :: rest.elements?
  | text _ rest => none :: rest.elements?
  | comment _ rest => none :: rest.elements?
  | declaration _ rest => none :: rest.elements?

end Forest

end HtmlTemplate
