import HtmlTemplate.Text

/-!
# Failures

Why a file cannot be used and why a compilation fails, each with its message. A failure
of a compilation also has a code and, mostly, a piece of advice.
-/
namespace HtmlTemplate

/-- Why a file operation fails. -/
inductive FileError where
  | notFound
  | alreadyExists
  | notDirectory
  | isDirectory
  | nameTooLong
  | tooManyLinks
  | nulInPath
  | notUtf8
deriving DecidableEq, Repr

/-- How the operating system tells the cause. -/
def FileError.message : FileError → String
  | notFound => "No such file or directory (os error 2)"
  | alreadyExists => "File exists (os error 17)"
  | notDirectory => "Not a directory (os error 20)"
  | isDirectory => "Is a directory (os error 21)"
  | nameTooLong => "File name too long (os error 36)"
  | tooManyLinks => "Too many levels of symbolic links (os error 40)"
  | nulInPath => "file name contained an unexpected NUL byte"
  | notUtf8 => "stream did not contain valid UTF-8"

/-- Why a compilation fails. The fragment of a failure is the file whose text is at fault. -/
inductive Failure where
  | file (cause : FileError)
  | invalidInput (path reason : Text)
  /-- The name of a fragment leads out of the template directory. -/
  | invalidPath (name : Text)
  | fragmentNotFound (path : Text)
  | missingFragmentName (fragment : Text)
  /-- The fragment `source` includes `target`, which is being expanded already. -/
  | circularReference (source target : Text)
  | invalidLoopExpression (expression fragment : Text)
  | invalidLoopSource (path reason fragment : Text)
  | nestingTooDeep (limit : Nat) (fragment : Text)
  | unreadableSettings
deriving DecidableEq, Repr

namespace Failure

/-- A text between backticks. -/
def quote (t : Text) : Text := '\x60' :: t ++ ['\x60']

/-- What is wrong, with the names it is about in backticks. -/
def message : Failure → Text
  | file cause => cause.message.toList
  | invalidInput path reason => "invalid input ".toList ++ quote path ++ ": ".toList ++ reason
  | invalidPath name =>
    "invalid fragment path ".toList ++ quote name
      ++ ": directory traversal is not allowed".toList
  | fragmentNotFound path => "fragment file not found: ".toList ++ quote path
  | missingFragmentName fragment =>
    quote "<x-temp>".toList ++ " tag in ".toList ++ quote fragment
      ++ " is missing the required ".toList ++ quote "x-name".toList ++ " attribute".toList
  | circularReference source target =>
    "circular reference detected: ".toList ++ quote source ++ " -> ".toList ++ quote target
  | invalidLoopExpression expression fragment =>
    "invalid ".toList ++ quote "x-for".toList ++ " expression ".toList ++ quote expression
      ++ " in ".toList ++ quote fragment
  | invalidLoopSource path reason fragment =>
    "invalid data for ".toList ++ quote path ++ " in ".toList ++ quote "x-for".toList
      ++ " in ".toList ++ quote fragment ++ ": ".toList ++ reason
  | nestingTooDeep limit fragment =>
    "fragment nesting exceeds the limit of ".toList ++ Text.ofNat limit
      ++ " in ".toList ++ quote fragment
  | unreadableSettings => "failed to parse config file".toList

/-- The code that names the cause. -/
def code : Failure → String
  | file _ => "xiv::io_error"
  | invalidInput _ _ => "xiv::invalid_input"
  | invalidPath _ => "xiv::invalid_path"
  | fragmentNotFound _ => "xiv::fragment_not_found"
  | missingFragmentName _ => "xiv::missing_fragment_name"
  | circularReference _ _ => "xiv::circular_reference"
  | invalidLoopExpression _ _ => "xiv::invalid_iteration_expression"
  | invalidLoopSource _ _ _ => "xiv::invalid_iteration_source"
  | nestingTooDeep _ _ => "xiv::nesting_too_deep"
  | unreadableSettings => "xiv::config_parse"

/-- What to do about it. -/
def help? : Failure → Option String
  | file _ => none
  | invalidInput _ _ => none
  | invalidPath _ =>
    some "fragment names must resolve to a file inside the template directory"
  | fragmentNotFound _ =>
    some "create the file or fix the `x-name` attribute of the `<x-temp>` tag"
  | missingFragmentName _ =>
    some "add `x-name=\"<fragment>\"` to select the fragment to include"
  | circularReference _ _ =>
    some "a fragment cannot include itself, directly or through other fragments"
  | invalidLoopExpression _ _ => some "use the form `x-for=\"item in items\"`"
  | invalidLoopSource _ _ _ => some "loop sources must be a list or a JSON array string"
  | nestingTooDeep _ _ =>
    some "increase `templates.max_depth` in xiv.toml or flatten the fragment chain"
  | unreadableSettings =>
    some "check that xiv.toml is valid TOML with [templates] and/or [output] sections"

/-- A computation in two steps succeeds when both do. -/
theorem bind_eq_ok {α β : Type} {x : Except Failure α} {f : α → Except Failure β} {b : β} :
    (x >>= f) = .ok b ↔ ∃ a, x = .ok a ∧ f a = .ok b := by
  cases x <;> simp [bind, Except.bind]

/-- It fails in its first step, or in its second one. -/
theorem bind_eq_error {α β : Type} {x : Except Failure α} {f : α → Except Failure β}
    {e : Failure} :
    (x >>= f) = .error e ↔ x = .error e ∨ ∃ a, x = .ok a ∧ f a = .error e := by
  cases x <;> simp [bind, Except.bind]

/-- What a computation without a failure gives. -/
theorem pure_eq_ok {α : Type} {a b : α} : (pure a : Except Failure α) = .ok b ↔ a = b := by
  simp [pure, Except.pure]

theorem pure_ne_error {α : Type} {a : α} {e : Failure} : (pure a : Except Failure α) ≠ .error e := by
  simp [pure, Except.pure]

end Failure

end HtmlTemplate
