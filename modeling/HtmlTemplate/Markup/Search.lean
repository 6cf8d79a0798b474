import HtmlTemplate.Markup.Forest

/-!
# Searching a forest

Elements are visited in document order, a parent before its children, sealed or not.
-/
namespace HtmlTemplate.Forest

/-- All elements that satisfy the test, in document order. -/
def findAll (p : Element → Bool) : Forest → List Element
  | nil => []
  | element tag s children rest =>
    (if p ⟨tag, s, children⟩ then [⟨tag, s, children⟩] else [])
      ++ children.findAll p ++ rest.findAll p
  | text _ rest => rest.findAll p
  | comment _ rest => rest.findAll p
  | declaration _ rest => rest.findAll p

/-- The first element that satisfies the test. -/
def find? (p : Element → Bool) : Forest → Option Element
  | nil => none
  | element tag s children rest =>
    if p ⟨tag, s, children⟩ then some ⟨tag, s, children⟩
    else (children.find? p).or (rest.find? p)
  | text _ rest => rest.find? p
  | comment _ rest => rest.find? p
  | declaration _ rest => rest.find? p

/-- The forest with the first element that satisfies the test replaced by a forest, or
nothing when there is no such element. -/
def replaceFirst? (p : Element → Bool) (new : Element → Forest) : Forest → Option Forest
  | nil => none
  | element tag s children rest =>
    if p ⟨tag, s, children⟩ then some (new ⟨tag, s, children⟩ ++ rest)
    else match children.replaceFirst? p new with
      | some children => some (element tag s children rest)
      | none => (rest.replaceFirst? p new).map (element tag s children)
  | text content rest => (rest.replaceFirst? p new).map (text content)
  | comment body rest => (rest.replaceFirst? p new).map (comment body)
  | declaration raw rest => (rest.replaceFirst? p new).map (declaration raw)

end HtmlTemplate.Forest
