import HtmlTemplate.Value

/-!
# Scopes

The names visible at one point of a template. A loop adds an inner scope that sees all
of the scope around it; a fragment starts with a scope of its own.
-/
namespace HtmlTemplate

/-- Names with their values; of two bindings of one name the first counts. -/
abbrev Bindings := List (Text × Value)

/-- Bindings and the scopes around them. -/
inductive Scope where
  | top (bindings : Bindings)
  | inner (bindings : Bindings) (outer : Scope)
deriving Repr, Inhabited

namespace Scope

/-- The scope without names. -/
def empty : Scope := top []

/-- The scope with a name bound anew in its innermost bindings. -/
def bind (key : Text) (value : Value) : Scope → Scope
  | top bindings => top ((key, value) :: bindings)
  | inner bindings outer => inner ((key, value) :: bindings) outer

/-- A scope inside this one that binds one name. -/
def derive (scope : Scope) (key : Text) (value : Value) : Scope := inner [(key, value)] scope

/-- The scope around this one. -/
def outer? : Scope → Option Scope
  | top _ => none
  | inner _ outer => some outer

/-- The number of scopes around this one. -/
def depth : Scope → Nat
  | top _ => 0
  | inner _ outer => outer.depth + 1

/-- The value that the innermost binding of a name gives it. -/
def lookup (key : Text) : Scope → Option Value
  | top bindings => bindings.lookup key
  | inner bindings outer => (bindings.lookup key).or (outer.lookup key)

end Scope

/-- The value at the end of a path of keys through nested mappings. -/
def Value.descend : (path : List Text) → Value → Option Value
  | [], v => some v
  | key :: path, .mapping entries => (entries.lookup key).bind (descend path)
  | _ :: _, _ => none

namespace Scope

/-- The value at a dotted path. There is none when a name is unbound, when an inner value
is no mapping, and when the value is null. -/
def get (path : Text) (scope : Scope) : Option Value :=
  match path.splitOn '.' with
  | [] => none
  | first :: rest =>
    ((scope.lookup first).bind (Value.descend rest)).filter (!·.isNull)

/-- The path that a condition asks for, and whether the answer is negated: one leading
`not ` negates it. -/
def readCondition (expression : Text) : Bool × Text :=
  match Text.stripStart? "not ".toList expression with
  | some path => (true, path.trim)
  | none => (false, expression.trim)

/-- Whether a condition holds. A path without a value counts as false. -/
def holds (expression : Text) (scope : Scope) : Bool :=
  let (negated, path) := readCondition expression
  (scope.get path).any Value.isTruthy != negated

end Scope

end HtmlTemplate
