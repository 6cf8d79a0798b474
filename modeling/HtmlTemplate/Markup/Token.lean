import HtmlTemplate.Markup.Forest

/-!
# Tokens of markup

Source is cut into tags, texts, comments and declarations. Nothing is refused: what
is no markup is text, and a tag that never ends takes the rest of the source.
-/
namespace HtmlTemplate

/-- One piece of markup source. -/
inductive Token where
  /-- A start tag, and whether it is closed by `/>`. -/
  | startTag (tag : Tag) (isClosed : Bool)
  | endTag (name : Text)
  | text (content : Text)
  | comment (body : Text)
  | declaration (raw : Text)
deriving DecidableEq, Repr, Inhabited

namespace Token

/-- The blanks inside tags. -/
def isBlank (c : Char) : Bool :=
  c == ' ' || c == '\t' || c == '\r' || c == '\n' || c == '\x0c'

/-- The characters of tag names after the first letter. -/
def isNameChar (c : Char) : Bool :=
  c.isAlphanum || c == '_' || c == ':' || c == '.' || c == '-'

/-- The characters of attribute names. -/
def isAttributeNameChar (c : Char) : Bool :=
  !(isBlank c || c == '"' || c == '\'' || c == '>' || c == '/' || c == '=')

/-- The characters of values without quotes. -/
def isBareChar (c : Char) : Bool := !(isBlank c || c == '>')

/-- The elements whose content is raw text. -/
def rawTextNames : List String := ["script", "style"]

/-- The tokens with a text in front, joined to the text they begin with. -/
def prependText : Text → List Token → List Token
  | [], ts => ts
  | t, .text content :: ts => .text (t ++ content) :: ts
  | t, ts => .text t :: ts

end Token

end HtmlTemplate
