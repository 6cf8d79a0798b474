import HtmlTemplate.Value
import HtmlTemplate.Json.Reading
import HtmlTemplate.Markup.Forest
import HtmlTemplate.Text.Alphanumeric

/-!
# Directives

The attributes and names that steer an expansion: loops, conditions, the name of an
included fragment, and its arguments.
-/
namespace HtmlTemplate

/-- The tag of the element that includes a fragment. -/
def inclusionTag : Text := "x-temp".toList

/-- The tag of the element that slot content takes the place of. -/
def slotTag : Text := "x-slot".toList

/-- The tag of the element that marks the body of a document or a fragment. -/
def markerTag : Text := "xiv".toList

/-- How the comments begin that are left out of the output. -/
def hiddenCommentStart : Text := "xiv-comment".toList

/-- What an attribute asks for. -/
inductive Directive where
  | iterate (expression : Text)
  | condition (expression : Text)
  | fragmentName (name : Text)
  | argument (key value : Text)
deriving DecidableEq, Repr

namespace Directive

/-- The kinds of directives. -/
inductive Kind where
  | iterate
  | condition
  | fragmentName
  | argument
deriving DecidableEq, Repr

/-- The key of an argument, which is what follows `t-` in the name of its attribute. -/
def argumentKey? : Text → Option Text
  | 't' :: '-' :: c :: key => some (c :: key)
  | _ => none

/-- The kind of directive that attributes of that name carry. -/
def Kind.ofName? (name : Text) : Option Kind :=
  if name = "x-for".toList then some .iterate
  else if name = "x-if".toList then some .condition
  else if name = "x-name".toList then some .fragmentName
  else (argumentKey? name).map fun _ => .argument

/-- The directive that an attribute carries. -/
def ofAttribute? (a : Attribute) : Option Directive :=
  match Kind.ofName? a.name with
  | some .iterate => some (.iterate a.value)
  | some .condition => some (.condition a.value)
  | some .fragmentName => some (.fragmentName a.value)
  | some .argument => (argumentKey? a.name).map (.argument · a.value)
  | none => none

end Directive

/-- The value of the first attribute with a directive of that kind, and the tag without it. -/
def Tag.takeDirective? (kind : Directive.Kind) (tag : Tag) : Option (Text × Tag) :=
  tag.takeAttribute? fun name => Directive.Kind.ofName? name == some kind

/-- The header of a loop: the name of the item, and the path of the list. -/
structure LoopHeader where
  variableName : Text
  source : Text
deriving DecidableEq, Repr

namespace LoopHeader

/-- The characters of names. -/
def isWordChar (c : Char) : Bool := Text.isAlphanumeric c || c == '_'

/-- The characters of dotted paths. -/
def isPathChar (c : Char) : Bool := isWordChar c || c == '.'

/-- The header that an expression spells: a name, the word `in`, and a path. -/
def read? (expression : Text) : Option LoopHeader :=
  match expression.words with
  | [name, keyword, source] =>
    if keyword = "in".toList ∧ name.all isWordChar ∧ source.all isPathChar then
      some ⟨name, source⟩
    else none
  | _ => none

end LoopHeader

/-- What a loop may find at its path. -/
inductive LoopSource where
  /-- No value, so no items. -/
  | absent
  | list (items : List Value)
  /-- Text that should be a JSON list. -/
  | encoded (json : Text)
  | invalid (value : Value)
deriving Repr

namespace LoopSource

/-- What a loop finds in the value at its path, if there is one. -/
def ofValue? : Option Value → LoopSource
  | none => absent
  | some .null => absent
  | some (.list items) => list items
  | some (.text json) => encoded json
  | some v => invalid v

/-- The items to loop over, or the reason why there are none. -/
def items : LoopSource → Except Text (List Value)
  | absent => .ok []
  | list vs => .ok vs
  | encoded json =>
    match Json.read json with
    | .error f => .error ("string is not valid JSON: ".toList ++ f.message json)
    | .ok (.list vs) => .ok vs
    | .ok v => .error ("expected a JSON array but found ".toList ++ v.kind)
  | invalid v => .error ("expected a list but found ".toList ++ v.kind)

end LoopSource

/-- What an inclusion asks for: the name of the fragment, unless blank, and the arguments
by key. -/
structure Inclusion where
  name? : Option Text
  arguments : List (Text × Text)
deriving DecidableEq, Repr

namespace Inclusion

/-- Reads the attributes in order. The last name that is not blank counts, and the first
argument of a key. -/
def ofAttributes : List Attribute → Inclusion
  | [] => ⟨none, []⟩
  | a :: rest =>
    let call := ofAttributes rest
    match Directive.ofAttribute? a with
    | some (.fragmentName name) =>
      if name.isAllBlank then call else { call with name? := call.name?.or (some name.trim) }
    | some (.argument key value) =>
      { call with arguments := (key, value) :: call.arguments.filter (·.1 != key) }
    | _ => call

end Inclusion

end HtmlTemplate
