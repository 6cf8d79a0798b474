import HtmlTemplate.Markup.Forest
import HtmlTemplate.Text.Entity

/-!
# Printing markup

How a forest is written. Every attribute value stands in double quotes, an empty one
is left out together with its equals sign, and a void element is written as its start
tag alone.
-/
namespace HtmlTemplate

/-- One attribute, with the space before it. -/
def Attribute.print (a : Attribute) : Text :=
  if a.value.isEmpty then ' ' :: a.name
  else ' ' :: a.name ++ '=' :: '"' :: Text.Entity.encodeAttribute a.value ++ ['"']

/-- The start tag. -/
def Tag.print (tag : Tag) : Text := '<' :: tag.name ++ tag.attributes.flatMap (·.print) ++ ['>']

/-- The end tag of that name. -/
def Tag.printEnd (tag : Tag) : Text := '<' :: '/' :: tag.name ++ ['>']

namespace Forest

/-- The forest written as markup. -/
def print : Forest → Text
  | nil => []
  | element tag _ children rest =>
    if tag.isVoid then tag.print ++ rest.print
    else tag.print ++ children.print ++ tag.printEnd ++ rest.print
  | text content rest => content ++ rest.print
  | comment body rest =>
    ['<', '!', '-', '-'] ++ body ++ ['-', '-', '>'] ++ rest.print
  | declaration raw rest => raw ++ rest.print

/-- The raw texts of the forest at every depth, in document order. -/
def textContent : Forest → Text
  | nil => []
  | element _ _ children rest => children.textContent ++ rest.textContent
  | text content rest => content ++ rest.textContent
  | comment _ rest => rest.textContent
  | declaration _ rest => rest.textContent

@[simp] theorem print_append (f g : Forest) : (f ++ g).print = f.print ++ g.print := by
  induction f with
  | element tag s children rest _ ih => by_cases h : tag.isVoid <;> simp [print, h, ih]
  | _ => simp_all [print]

@[simp] theorem textContent_append (f g : Forest) :
    (f ++ g).textContent = f.textContent ++ g.textContent := by
  induction f <;> simp_all [textContent]

end Forest

/-- The element written as markup. -/
def Element.print (e : Element) : Text := (Forest.ofElement e).print

end HtmlTemplate
