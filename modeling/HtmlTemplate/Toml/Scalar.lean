import HtmlTemplate.Number.Binary64
import HtmlTemplate.Text.Entity
import HtmlTemplate.Toml

/-!
# TOML scalars

Strings in their four spellings, and the words that are numbers, dates or truth values.
A reader gives nothing when the text is no such thing.
-/
namespace HtmlTemplate.Toml

/-- A blank inside a line. -/
def isSpace (c : Char) : Bool := c == ' ' || c == '\t'

/-- A character that may stand in a string or a comment; a line end may not. -/
def isPrintable (c : Char) : Bool := c == '\t' || (0x20 ≤ c.toNat && c.toNat != 0x7F)

/-- The character with a code point in hexadecimal digits. -/
def codePoint? (digits : Text) : Option Char :=
  let n := Text.Entity.ofDigits 16 digits
  if digits.all Text.Entity.isHexDigit && n.isValidChar then some (Char.ofNat n) else none

/-- The character that an escape of one letter stands for. -/
def simpleEscape? (c : Char) : Option Char :=
  match c with
  | 'b' => some '\x08'
  | 't' => some '\t'
  | 'n' => some '\n'
  | 'f' => some '\x0c'
  | 'r' => some '\r'
  | 'e' => some '\x1b'
  | '"' => some '"'
  | '\\' => some '\\'
  | _ => none

/-- A character in front of a string that is read on. -/
def push (c : Option Char) (r : Option (Text × Text)) : Option (Text × Text) := do
  let c ← c
  let (s, rest) ← r
  return (c :: s, rest)

/-- The string after a double quote, and what follows it. -/
def basic : Text → Option (Text × Text)
  | '"' :: t => some ([], t)
  | '\\' :: 'x' :: a :: b :: t => push (codePoint? [a, b]) (basic t)
  | '\\' :: 'u' :: a :: b :: c :: d :: t => push (codePoint? [a, b, c, d]) (basic t)
  | '\\' :: 'U' :: a :: b :: c :: d :: e :: f :: g :: h :: t =>
    push (codePoint? [a, b, c, d, e, f, g, h]) (basic t)
  | '\\' :: c :: t => push (simpleEscape? c) (basic t)
  | c :: t => if isPrintable c && c != '\\' then push (some c) (basic t) else none
  | [] => none

/-- The string after a single quote, and what follows it. -/
def literal : Text → Option (Text × Text)
  | '\'' :: t => some ([], t)
  | c :: t => if isPrintable c then push (some c) (literal t) else none
  | [] => none

/-- Whether blanks and then a line end follow, as after a backslash that joins lines. -/
def endsLine (t : Text) : Bool :=
  match t.dropWhile isSpace with
  | '\n' :: _ => true
  | '\r' :: '\n' :: _ => true
  | _ => false

/-- The string after three double quotes, and what follows it. While lines are joined,
blanks and line ends are passed over. -/
def multilineBasic : (joining : Bool) → Text → Option (Text × Text)
  | _, '"' :: '"' :: '"' :: '"' :: '"' :: t => some (['"', '"'], t)
  | _, '"' :: '"' :: '"' :: '"' :: t => some (['"'], t)
  | _, '"' :: '"' :: '"' :: t => some ([], t)
  | joining, '\r' :: '\n' :: t =>
    if joining then multilineBasic true t
    else push (some '\r') (push (some '\n') (multilineBasic false t))
  | joining, '\n' :: t =>
    if joining then multilineBasic true t else push (some '\n') (multilineBasic false t)
  | _, '\\' :: 'x' :: a :: b :: t => push (codePoint? [a, b]) (multilineBasic false t)
  | _, '\\' :: 'u' :: a :: b :: c :: d :: t =>
    push (codePoint? [a, b, c, d]) (multilineBasic false t)
  | _, '\\' :: 'U' :: a :: b :: c :: d :: e :: f :: g :: h :: t =>
    push (codePoint? [a, b, c, d, e, f, g, h]) (multilineBasic false t)
  | _, '\\' :: c :: t =>
    if endsLine (c :: t) then multilineBasic true (c :: t)
    else push (simpleEscape? c) (multilineBasic false t)
  | joining, c :: t =>
    if joining && isSpace c then multilineBasic true t
    else if isPrintable c && c != '\\' then push (some c) (multilineBasic false t)
    else none
  | _, [] => none

/-- The string after three single quotes, and what follows it. -/
def multilineLiteral : Text → Option (Text × Text)
  | '\'' :: '\'' :: '\'' :: '\'' :: '\'' :: t => some (['\'', '\''], t)
  | '\'' :: '\'' :: '\'' :: '\'' :: t => some (['\''], t)
  | '\'' :: '\'' :: '\'' :: t => some ([], t)
  | '\r' :: '\n' :: t => push (some '\r') (push (some '\n') (multilineLiteral t))
  | '\n' :: t => push (some '\n') (multilineLiteral t)
  | c :: t => if isPrintable c then push (some c) (multilineLiteral t) else none
  | [] => none

/-- The text without a line end at its start. -/
def dropLineEnd : Text → Text
  | '\n' :: t => t
  | '\r' :: '\n' :: t => t
  | t => t

/-- The string of any spelling that begins a text, and what follows it. -/
def string? : Text → Option (Text × Text)
  | '"' :: '"' :: '"' :: t => multilineBasic false (dropLineEnd t)
  | '\'' :: '\'' :: '\'' :: t => multilineLiteral (dropLineEnd t)
  | '"' :: t => basic t
  | '\'' :: t => literal t
  | _ => none

/-- The text less one sign at its start. -/
def dropSign : Text → Text
  | '+' :: t => t
  | '-' :: t => t
  | t => t

/-- Whether each underscore stands between two digits of a class. A sign is no digit, so none
follows a sign. -/
def separatesDigits (isDigit : Char → Bool) (t : Text) : Bool :=
  let parts := t.splitOn '_'
  parts.tail.all (fun part => part.head?.any isDigit)
    && parts.dropLast.all (fun part => part.getLast?.any isDigit)

/-- The text without its underscores. -/
def dropUnderscores (t : Text) : Text := t.filter (· != '_')

/-- An integer that fits into 128 bits, with or without a sign. -/
def bounded (n : Int) : Node :=
  if -Int.ofNat (Nat.pow 2 127) ≤ n && n < Int.ofNat (Nat.pow 2 128) then .integer n
  else .unreadable

/-- The integer in digits of a base after its mark, such as `ff` of `0xff`. -/
def based? (base : Nat) (isDigit : Char → Bool) (t : Text) : Option Node :=
  let digits := dropUnderscores t
  if !digits.all isDigit || !separatesDigits isDigit t then none
  else if digits.isEmpty then some .unreadable
  else some (bounded (Text.Entity.ofDigits base digits))

/-- The integer that a word without a mark spells, whose digits are the second text. After an
underscore anything may follow that separates hexadecimal digits. -/
def decimal? (word digits : Text) : Option Node :=
  if (digits.head? = some '0' && digits != ['0']) || !separatesDigits Text.Entity.isHexDigit word
  then none
  else
    let plain := dropUnderscores digits
    if !plain.all Char.isDigit then some .unreadable
    else
      let n : Int := Text.Entity.ofDigits 10 plain
      some (bounded (if word.head? = some '-' then -n else n))

/-- The digits and underscores at the start of a text, and what follows them. There must be
a digit. -/
def digits? (t : Text) : Option (Text × Text) :=
  let isPart (c : Char) : Bool := c.isDigit || c == '_'
  let part := t.takeWhile isPart
  if part.any Char.isDigit then some (dropUnderscores part, t.dropWhile isPart) else none

/-- The exponent of a float after its whole digits and fraction. -/
def exponent? (t : Text) : Option Int :=
  match t with
  | [] => some 0
  | mark :: t =>
    if mark != 'e' && mark != 'E' then none
    else
      match digits? (dropSign t) with
      | some (digits, []) =>
        let n : Int := Text.Entity.ofDigits 10 digits
        some (if t.head? = some '-' then -n else n)
      | _ => none

/-- Whether the number `digits * 10 ^ exponent` rounds to a double. -/
def isFinite (digits : Text) (exponent : Int) : Bool :=
  let digits := digits.dropWhile (· == '0')
  let magnitude := digits.length + exponent
  if digits.isEmpty || magnitude < 300 then true
  else if 310 < magnitude then false
  else
    let n := Text.Entity.ofDigits 10 digits
    let ratio := if 0 ≤ exponent then (n * Nat.pow 10 exponent.toNat, 1)
      else (n, Nat.pow 10 (-exponent).toNat)
    (Binary64.ofRatio? ratio.1 ratio.2).isSome

/-- The float that a word spells, whose text less a sign is the second one. -/
def float? (word unsigned : Text) : Option Node := do
  let (whole, rest) ← digits? unsigned
  let (fraction, rest) ← match rest with
    | '.' :: rest => digits? rest
    | rest => some ([], rest)
  let exponent ← exponent? rest
  if unsigned.head? = some '0' && whole != ['0'] then none
  else if !separatesDigits Char.isDigit word then none
  else if isFinite (whole ++ fraction) (exponent - fraction.length) then some .other
  else some .unreadable

/-- The number in exactly so many decimal digits. -/
def fixed? (count : Nat) (t : Text) : Option Nat :=
  if t.length = count && t.all Char.isDigit then some (Text.Entity.ofDigits 10 t) else none

/-- The number of days of a month. -/
def daysIn (year month : Nat) : Nat :=
  if month = 2 then
    if year % 4 = 0 && (year % 100 != 0 || year % 400 = 0) then 29 else 28
  else if month = 4 || month = 6 || month = 9 || month = 11 then 30
  else 31

/-- Whether a word is a date, such as `1979-05-27`. -/
def isDate (t : Text) : Bool :=
  match t.splitOn '-' with
  | [y, m, d] =>
    match fixed? 4 y, fixed? 2 m, fixed? 2 d with
    | some y, some m, some d => 1 ≤ m && m ≤ 12 && 1 ≤ d && d ≤ daysIn y m
    | _, _, _ => false
  | _ => false

/-- Whether a word is the number of a unit of time below a bound. -/
def isUnit (bound : Nat) (t : Text) : Bool := (fixed? 2 t).any (· < bound)

/-- Whether a word is a time, such as `07:32`, `07:32:00` or `07:32:00.5`. -/
def isTime (t : Text) : Bool :=
  match t.splitOn ':' with
  | [h, m] => isUnit 24 h && isUnit 60 m
  | [h, m, s] =>
    isUnit 24 h && isUnit 60 m &&
      match s.splitOn '.' with
      | [s] => isUnit 61 s
      | [s, fraction] => isUnit 61 s && !fraction.isEmpty && fraction.all Char.isDigit
      | _ => false
  | _ => false

/-- Whether a word is a time with or without an offset after it. -/
def isOffsetTime (t : Text) : Bool :=
  let time := t.takeWhile fun c => c.isDigit || c == ':' || c == '.'
  isTime time &&
    match t.drop time.length with
    | [] => true
    | ['Z'] => true
    | ['z'] => true
    | sign :: offset =>
      (sign == '+' || sign == '-') &&
        match offset.splitOn ':' with
        | [h, m] => isUnit 24 h && isUnit 60 m
        | _ => false

/-- Whether a word is a date, a time, or both. -/
def isDateTime (t : Text) : Bool :=
  isDate t || isTime t ||
    match t.drop 10 with
    | c :: time => isDate (t.take 10) && (c == 'T' || c == 't' || c == ' ') && isOffsetTime time
    | [] => false

/-- The number, date or time that a word spells. What follows its first digits tells which. -/
def number? (word : Text) : Option Node :=
  let unsigned := dropSign word
  let rest := unsigned.dropWhile Char.isDigit
  match rest with
  | [] => if unsigned.isEmpty then none else decimal? word unsigned
  | '-' :: _ => if isDateTime word then some .moment else none
  | ':' :: _ => if isDateTime word then some .moment else none
  | c :: _ =>
    if rest.any (fun c => c == '.' || c == 'e' || c == 'E') then float? word unsigned
    else if c == '_' then decimal? word unsigned
    else none

/-- The value that a word without quotes stands for. -/
def word? (word : Text) : Option Node :=
  match word with
  | '0' :: 'x' :: t => based? 16 Text.Entity.isHexDigit t
  | '0' :: 'o' :: t => based? 8 (fun c => '0' ≤ c && c ≤ '7') t
  | '0' :: 'b' :: t => based? 2 (fun c => c == '0' || c == '1') t
  | _ =>
    if word == "true".toList || word == "false".toList then some .other
    else if dropSign word == "inf".toList || dropSign word == "nan".toList then some .other
    else number? word

end HtmlTemplate.Toml
