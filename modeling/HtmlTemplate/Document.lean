import HtmlTemplate.Directive
import HtmlTemplate.Markup.Printing
import HtmlTemplate.Markup.Reading
import HtmlTemplate.Markup.Search

/-!
# Documents and markers

A marker element bounds the body of a document or a fragment. A finished document is
the forest inside `html`, with one script at the end of its body and no blank line.
-/
namespace HtmlTemplate

/-- Whether the element marks a body of that type. -/
def Element.isMarker (type : Text) (e : Element) : Bool :=
  e.tag.name == markerTag && e.tag.attribute? "type".toList == some type

namespace Forest

/-- The children of the first marker of that type, or the whole forest without one. -/
def markedBody (type : Text) (f : Forest) : Forest :=
  match f.find? (Element.isMarker type) with
  | some marker => marker.children
  | none => f

end Forest

namespace Document

/-- The type of the marker around the body of the main document. -/
def mainType : Text := "main".toList

/-- The type of the marker around the body of a fragment. -/
def templateType : Text := "template".toList

/-- What the script says when there is none to put in. -/
def missingScript : Text :=
  "// xiv runtime not found. Interactive features are disabled.".toList

/-- The script element, as a forest. -/
def script (runtime? : Option Text) : Forest :=
  .element ⟨"script".toList, []⟩ false (.text (runtime?.getD missingScript) .nil) .nil

/-- The forest with the script after the children of the first main marker, which is
unwrapped, or at the end without one. -/
def withScript (runtime? : Option Text) (f : Forest) : Forest :=
  (f.replaceFirst? (Element.isMarker mainType) fun marker =>
    marker.children ++ script runtime?).getD (f ++ script runtime?)

/-- The text whose lines make up the document. -/
def page (f : Forest) : Text :=
  "<!DOCTYPE html>\n<html>\n".toList ++ f.print ++ "\n</html>".toList

/-- The finished document: the lines of the page that are not blank. -/
def render (runtime? : Option Text) (f : Forest) : Text :=
  ((page (withScript runtime? f)).lines.filter (!·.isAllBlank)).flatMap (· ++ ['\n'])

end Document

end HtmlTemplate
