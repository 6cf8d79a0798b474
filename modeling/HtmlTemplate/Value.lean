import HtmlTemplate.Text

/-!
# Values

What a name can stand for in a template. Numbers are kept as their text, since the
template language only prints and compares them. The textual form of a list or a
mapping is its JSON text.
-/
namespace HtmlTemplate

/-- A value of the template language. The entries of a mapping are in the order of their
keys, each key once. -/
inductive Value where
  | null
  | bool (b : Bool)
  | text (content : Text)
  | list (items : List Value)
  | mapping (entries : List (Text × Value))
deriving Repr, Inhabited

namespace Value

/-- The entries with one more; an entry of the same key is replaced. -/
def insertEntry (key : Text) (value : Value) : List (Text × Value) → List (Text × Value)
  | [] => [(key, value)]
  | (k, v) :: rest =>
    if key = k then (key, value) :: rest
    else if key < k then (key, value) :: (k, v) :: rest
    else (k, v) :: insertEntry key value rest

/-- The name of the kind of a value, as errors give it. -/
def kind : Value → Text
  | null => "null".toList
  | bool _ => "a boolean".toList
  | text _ => "a string".toList
  | list _ => "a list".toList
  | mapping _ => "a mapping".toList

/-- Whether the value is null. -/
def isNull : Value → Bool
  | null => true
  | _ => false

/-- The letters `true` or `false`. -/
def boolText (b : Bool) : Text := if b then "true".toList else "false".toList

/-- The digit of a number below sixteen. -/
def hexDigit (n : Nat) : Char := Nat.digitChar n

/-- How a character stands in a JSON string. -/
def jsonForm (c : Char) : Text :=
  match c with
  | '"' => ['\\', '"']
  | '\\' => ['\\', '\\']
  | '\n' => ['\\', 'n']
  | '\r' => ['\\', 'r']
  | '\t' => ['\\', 't']
  | '\x08' => ['\\', 'b']
  | '\x0c' => ['\\', 'f']
  | _ =>
    if c.toNat < 0x20 then
      ['\\', 'u', '0', '0', hexDigit (c.toNat / 16), hexDigit (c.toNat % 16)]
    else [c]

/-- The text as a JSON string. -/
def jsonString (t : Text) : Text := '"' :: t.flatMap jsonForm ++ ['"']

mutual

/-- The value as JSON without blanks. -/
def json : Value → Text
  | null => "null".toList
  | bool b => boolText b
  | text content => jsonString content
  | list [] => ['[', ']']
  | list (v :: vs) => '[' :: v.json ++ jsonItems vs
  | mapping [] => ['\x7b', '\x7d']
  | mapping ((k, v) :: es) => '\x7b' :: jsonString k ++ ':' :: v.json ++ jsonEntries es
termination_by structural v => v

/-- The items of a list after the first, and its end. -/
def jsonItems : List Value → Text
  | [] => [']']
  | v :: vs => ',' :: v.json ++ jsonItems vs
termination_by structural vs => vs

/-- The entries of a mapping after the first, and its end. -/
def jsonEntries : List (Text × Value) → Text
  | [] => ['\x7d']
  | (k, v) :: es => ',' :: jsonString k ++ ':' :: v.json ++ jsonEntries es
termination_by structural es => es

end

/-- The text a placeholder prints for a value. -/
def print : Value → Text
  | null => []
  | bool b => boolText b
  | text content => content
  | list items => (list items).json
  | mapping entries => (mapping entries).json

/-- Whether a condition on the value holds. Text is false when it is empty, `0`, or
`false` in any case of letters. -/
def isTruthy : Value → Bool
  | null => false
  | bool b => b
  | v => !(["false", "0", ""].any fun t => t.toList == Text.lowercase v.print)

end Value

end HtmlTemplate
