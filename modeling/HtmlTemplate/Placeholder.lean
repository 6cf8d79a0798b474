import HtmlTemplate.Scope
import HtmlTemplate.Text.Entity
import HtmlTemplate.Markup.Forest

/-!
# Placeholders

A placeholder is a path between double braces, with an optional default after a bar.
A text is cut into characters and placeholders from left to right; an opening that is
never completed stays as it is written.
-/
namespace HtmlTemplate

/-- A path, and the text to print when it has no value. -/
structure Placeholder where
  path : Text
  default? : Option Text
deriving DecidableEq, Repr

/-- One piece of a text. -/
inductive Piece where
  | char (c : Char)
  | hole (placeholder : Placeholder)
deriving DecidableEq, Repr

namespace Placeholder

/-- The placeholder between the braces: the part before the first bar must not be empty. -/
def ofBody? (body : Text) : Option Placeholder :=
  let path := body.takeWhile (· != '|')
  if path.isEmpty then none
  else
    match body.dropWhile (· != '|') with
    | _ :: default => some ⟨Text.trim path, some (Text.trim default)⟩
    | [] => some ⟨Text.trim path, none⟩

/-- The placeholder that begins a text, and what follows it. -/
def start? : Text → Option (Placeholder × Text)
  | '\x7b' :: '\x7b' :: t =>
    match t.dropWhile (· != '\x7d') with
    | '\x7d' :: '\x7d' :: rest => (ofBody? (t.takeWhile (· != '\x7d'))).map (·, rest)
    | _ => none
  | _ => none

theorem start?_length {t rest : Text} {p : Placeholder} (h : start? t = some (p, rest)) :
    rest.length < t.length := by
  unfold start? at h
  split at h
  · rename_i t
    have body := Text.length_dropWhile_le (· != '\x7d') t
    split at h
    · rename_i heq
      obtain ⟨_, -, hp⟩ := Option.map_eq_some_iff.mp h
      obtain ⟨-, rfl⟩ := by simpa using hp
      rw [heq] at body
      simp only [List.length_cons] at *
      omega
    · simp at h
  · simp at h

/-- The text that the placeholder prints. -/
def resolve (p : Placeholder) (scope : Scope) : Text :=
  match scope.get p.path with
  | some v => v.print
  | none => p.default?.getD []

end Placeholder

namespace Piece

/-- The pieces of a text. -/
def scan (t : Text) : List Piece :=
  match _h : Placeholder.start? t with
  | some (p, rest) => .hole p :: scan rest
  | none =>
    match t with
    | [] => []
    | c :: rest => .char c :: scan rest
termination_by t.length
decreasing_by
  · exact Placeholder.start?_length ‹_›
  · simp

theorem scan_of_start? {t rest : Text} {p : Placeholder}
    (h : Placeholder.start? t = some (p, rest)) : scan t = hole p :: scan rest := by
  rw [scan]
  split <;> simp_all

theorem scan_cons {c : Char} {t : Text} (h : Placeholder.start? (c :: t) = none) :
    scan (c :: t) = char c :: scan t := by
  rw [scan]
  split <;> simp_all

/-- The placeholder, if the piece is one. -/
def placeholder? : Piece → Option Placeholder
  | char _ => none
  | hole p => some p

end Piece

/-- The placeholders of a text, in order. -/
def Text.placeholders (t : Text) : List Placeholder := (Piece.scan t).filterMap Piece.placeholder?

/-- The text with every placeholder replaced. What is put in is not looked at again. -/
def Text.substitute (replacement : Placeholder → Text) (t : Text) : Text :=
  (Piece.scan t).flatMap fun
    | .char c => [c]
    | .hole p => replacement p

namespace Scope

/-- The text with its placeholders resolved, as attribute values and arguments need it. -/
def fill (scope : Scope) (t : Text) : Text := t.substitute (·.resolve scope)

/-- The text with its placeholders resolved and the values encoded, as running text needs
it. -/
def fillEncoded (scope : Scope) (t : Text) : Text :=
  t.substitute fun p => Text.Entity.encodeText (p.resolve scope)

end Scope

namespace Forest

/-- The forest with the placeholders of its texts and attribute values resolved. Sealed
elements, comments and declarations stay as they are. -/
def fill (scope : Scope) : Forest → Forest
  | nil => nil
  | element tag false children rest =>
    let attributes := tag.attributes.map fun a => { a with value := scope.fill a.value }
    element { tag with attributes } false (children.fill scope) (rest.fill scope)
  | element tag true children rest => element tag true children (rest.fill scope)
  | text content rest => text (scope.fillEncoded content) (rest.fill scope)
  | comment body rest => comment body (rest.fill scope)
  | declaration raw rest => declaration raw (rest.fill scope)

end Forest

end HtmlTemplate
