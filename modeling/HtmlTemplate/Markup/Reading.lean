import HtmlTemplate.Markup.Lexeme

/-!
# Reading markup

Tokens become a forest. Reading never fails: a stray end tag is dropped, an element
that stays open ends with the source, and a void or self-closed element is empty.
-/
namespace HtmlTemplate

/-- An element whose end tag has not come yet, and the siblings before it. -/
structure OpenElement where
  tag : Tag
  before : Forest
deriving DecidableEq, Repr

namespace Forest

/-- Ends the innermost open elements up to and including the first of that name. -/
def closeTo (name : Text) : List OpenElement → Forest → List OpenElement × Forest
  | [], here => ([], here)
  | o :: stack, here =>
    let closed := o.before ++ element o.tag false here nil
    if o.tag.name = name then (stack, closed) else closeTo name stack closed

/-- Ends all open elements, innermost first. -/
def closeAll : List OpenElement → Forest → Forest
  | [], here => here
  | o :: stack, here => closeAll stack (o.before ++ element o.tag false here nil)

/-- Grows a forest token by token below the open elements, innermost first. -/
def grow (stack : List OpenElement) (here : Forest) : List Token → Forest
  | [] => closeAll stack here
  | .startTag tag isClosed :: ts =>
    if isClosed || tag.isVoid then grow stack (here ++ element tag false nil nil) ts
    else grow (⟨tag, here⟩ :: stack) nil ts
  | .endTag name :: ts =>
    if stack.any (·.tag.name == name) then
      let (stack, here) := closeTo name stack here
      grow stack here ts
    else grow stack here ts
  | .text content :: ts => grow stack (here ++ text content nil) ts
  | .comment body :: ts => grow stack (here ++ comment body nil) ts
  | .declaration raw :: ts => grow stack (here ++ declaration raw nil) ts

/-- The forest that the tokens describe. -/
def ofTokens (tokens : List Token) : Forest := grow [] nil tokens

/-- The forest that the source describes. -/
def read (source : Text) : Forest := ofTokens (Token.scan source)

end Forest

end HtmlTemplate
