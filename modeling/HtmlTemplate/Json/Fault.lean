import HtmlTemplate.Text

/-!
# What is wrong with a JSON text

A fault keeps its cause and the part of the source it was found at. Line and column are
counted only when the message is asked for.
-/
namespace HtmlTemplate.Json

/-- Why a text is no JSON. -/
inductive Cause where
  | endInValue
  | endInList
  | endInObject
  | endInString
  | expectedValue
  | expectedWord
  | expectedColon
  | expectedListEnd
  | expectedObjectEnd
  | keyNotString
  | trailingComma
  | trailingCharacters
  | invalidNumber
  | numberOutOfRange
  | invalidEscape
  | controlCharacter
  | loneSurrogate
  | cutSurrogatePair
  | tooDeep
deriving DecidableEq, Repr

/-- A cause, the source left where it shows, and how many bytes of that source belong to
the fault. -/
structure Fault where
  cause : Cause
  rest : Text
  ahead : Nat := 0
deriving DecidableEq, Repr

/-- How the cause is told. -/
def Cause.message : Cause → String
  | endInValue => "EOF while parsing a value"
  | endInList => "EOF while parsing a list"
  | endInObject => "EOF while parsing an object"
  | endInString => "EOF while parsing a string"
  | expectedValue => "expected value"
  | expectedWord => "expected ident"
  | expectedColon => "expected `:`"
  | expectedListEnd => "expected `,` or `]`"
  | expectedObjectEnd => "expected `,` or `\x7d`"
  | keyNotString => "key must be a string"
  | trailingComma => "trailing comma"
  | trailingCharacters => "trailing characters"
  | invalidNumber => "invalid number"
  | numberOutOfRange => "number out of range"
  | invalidEscape => "invalid escape"
  | controlCharacter => "control character (\\u0000-\\u001F) found while parsing a string"
  | loneSurrogate => "lone leading surrogate in hex escape"
  | cutSurrogatePair => "unexpected end of hex escape"
  | tooDeep => "recursion limit exceeded"

/-- The line, counted from one, and the number of bytes read on it, after that many bytes
of the text. -/
def lineAndColumn : (bytes : Nat) → Text → Nat × Nat
  | bytes, t => go bytes 1 0 t
where
  /-- Counts on from a line and a column. -/
  go (bytes line column : Nat) : Text → Nat × Nat
    | [] => (line, column)
    | c :: t =>
      if bytes < c.utf8Size then (line, column + bytes)
      else if c = '\n' then go (bytes - 1) (line + 1) 0 t
      else go (bytes - c.utf8Size) line (column + c.utf8Size) t

/-- The cause with the place in the source. -/
def Fault.message (source : Text) (f : Fault) : Text :=
  let (line, column) := lineAndColumn (source.byteLength - f.rest.byteLength + f.ahead) source
  f.cause.message.toList ++ " at line ".toList ++ Text.ofNat line
    ++ " column ".toList ++ Text.ofNat column

end HtmlTemplate.Json
