import HtmlTemplate.Text

/-!
# Paths

A path keeps the text it was written with. Comparisons look at its components only:
repeated separators, inner dots and a separator at the end make no difference.
-/
namespace HtmlTemplate

/-- A path as it is written. -/
structure Path where
  text : Text
deriving DecidableEq, Repr, Inhabited

namespace Path

/-- A step of a path. A dot is a step only at the start of a relative path. -/
inductive Component where
  | root
  | current
  | parent
  | name (n : Text)
deriving DecidableEq, Repr

/-- The path written with a string. -/
def ofString (s : String) : Path := ⟨s.toList⟩

/-- Whether the path starts at the root. -/
def isAbsolute (p : Path) : Bool := p.text.head? == some '/'

/-- The texts between separators. -/
def segments (p : Path) : List Text := p.text.splitOn '/'

namespace Component

/-- The component of a segment that is not the first one. -/
def ofSegment? (segment : Text) : Option Component :=
  if segment.isEmpty || segment = ['.'] then none
  else if segment = ['.', '.'] then some parent
  else some (name segment)

/-- The component of the first segment, which is empty when the path is absolute. -/
def ofFirst? (isAbsolute : Bool) (segment : Text) : Option Component :=
  if isAbsolute then some root
  else if segment = ['.'] then some current
  else ofSegment? segment

/-- The segment that stands for the component; none for the root. -/
def segment : Component → Text
  | root => []
  | current => ['.']
  | parent => ['.', '.']
  | name n => n

end Component

/-- The components of the path. -/
def components (p : Path) : List Component :=
  match p.segments with
  | [] => []
  | first :: rest =>
    (Component.ofFirst? p.isAbsolute first).toList ++ rest.filterMap Component.ofSegment?

/-- The path with those components, one separator between two of them. -/
def ofComponents : List Component → Path
  | [] => ⟨[]⟩
  | [.root] => ⟨['/']⟩
  | cs => ⟨['/'].intercalate (cs.map Component.segment)⟩

/-- The second path as seen from the first; an absolute one stands for itself. -/
def join (p q : Path) : Path :=
  if q.isAbsolute then q
  else if p.text.isEmpty || p.text.getLast? = some '/' then ⟨p.text ++ q.text⟩
  else ⟨p.text ++ '/' :: q.text⟩

/-- Adds a component to resolved ones, given last first: a parent step takes the name
before it away and stays at the root. -/
def resolveStep (done : List Component) (c : Component) : List Component :=
  match c, done with
  | .current, _ => done
  | .parent, .name _ :: done => done
  | .parent, .root :: _ => done
  | .root, _ => [.root]
  | c, _ => c :: done

/-- The components with dots and parent steps resolved. -/
def resolveComponents (cs : List Component) : List Component :=
  (cs.foldl resolveStep []).reverse

/-- The path with dots and parent steps resolved, without a look at any file. -/
def normalize (p : Path) : Path := ofComponents (resolveComponents p.components)

/-- Whether the path is the root or lies below it, component by component. -/
def isWithin (root p : Path) : Bool := root.components.isPrefixOf p.components

/-- Whether a segment after the first one is no component. -/
def isSilent (segment : Text) : Bool := segment.isEmpty || segment = ['.']

/-- The segments up to the last one that is a component. -/
def dropSilentEnd (segments : List Text) : List Text :=
  (segments.reverse.dropWhile isSilent).reverse

/-- The path without its last component, all else as it is written. -/
def parent? (p : Path) : Option Path :=
  match p.segments with
  | [] => none
  | first :: rest =>
    match dropSilentEnd rest with
    | [] => if p.isAbsolute || first.isEmpty then none else some ⟨[]⟩
    | names =>
      match dropSilentEnd names.dropLast with
      | [] => some (if p.isAbsolute then ⟨['/']⟩ else ⟨first⟩)
      | names => some ⟨['/'].intercalate (first :: names)⟩

/-- The segments left after the first `count` components. -/
def dropComponents : (count : Nat) → (isAbsolute isFirst : Bool) → List Text → List Text
  | 0, _, _, segments => segments
  | _ + 1, _, _, [] => []
  | count + 1, isAbsolute, isFirst, s :: segments =>
    let component := if isFirst then Component.ofFirst? isAbsolute s else Component.ofSegment? s
    dropComponents (if component.isSome then count else count + 1) isAbsolute false segments
termination_by _ _ _ segments => segments.length

/-- What is left of a path below `base`, with the inner separators as they are written. -/
def stripBase? (base p : Path) : Option Path :=
  if base.isWithin p then
    let rest := dropComponents base.components.length p.isAbsolute true p.segments
    let rest := if base.components.isEmpty then rest else rest.dropWhile isSilent
    some ⟨['/'].intercalate (dropSilentEnd rest)⟩
  else none

/-- The path as it is shown to someone who stands at `base`. -/
def relativeTo (base p : Path) : Text := ((stripBase? base p).getD p).text

end Path

end HtmlTemplate
