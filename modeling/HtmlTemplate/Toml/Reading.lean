import HtmlTemplate.Toml.Scalar

/-!
# Reading TOML

A settings file is read line by line into nested tables. Only whether it can be read
matters to the caller, so a reader gives nothing for any text that is no TOML.
-/
namespace HtmlTemplate.Toml

/-- How many arrays and inline tables may be open at once. -/
def maxDepth : Nat := 80

/-- How many parts a dotted key has at most. -/
def maxKeyParts : Nat := 80

/-- The characters of keys without quotes. -/
def isKeyChar (c : Char) : Bool := c.isAlphanum || c == '-' || c == '_'

/-- The characters of words without quotes: all but blanks, line ends and what ends a value. -/
def isWordChar (c : Char) : Bool :=
  !isSpace c && c != '\n' && c != '\r' && c != '#' && c != ',' && c != '='
    && c != '[' && c != ']' && c != '\x7b' && c != '\x7d'

/-- What follows the blanks at the start of a text. -/
def skipSpaces (t : Text) : Text := t.dropWhile isSpace

/-- What follows a comment, or the text when none begins it. -/
def skipComment (t : Text) : Option Text :=
  match t with
  | '#' :: t =>
    match t.dropWhile isPrintable with
    | [] => some []
    | '\n' :: r => some ('\n' :: r)
    | '\r' :: '\n' :: r => some ('\r' :: '\n' :: r)
    | _ => none
  | t => some t

/-- What follows a line end, or nothing at the end of the file. -/
def lineEnd? (t : Text) : Option Text := do
  match ← skipComment (skipSpaces t) with
  | [] => some []
  | '\n' :: t => some t
  | '\r' :: '\n' :: t => some t
  | _ => none

/-- What follows blanks, comments and line ends. -/
def skipLines : (fuel : Nat) → Text → Option Text
  | 0, t => some t
  | fuel + 1, t => do
    match ← skipComment (skipSpaces t) with
    | '\n' :: t => skipLines fuel t
    | '\r' :: '\n' :: t => skipLines fuel t
    | t => some t

/-- One part of a key, and what follows it. -/
def keyPart? (t : Text) : Option (Text × Text) :=
  match t with
  | '"' :: t => basic t
  | '\'' :: t => literal t
  | t =>
    let part := t.takeWhile isKeyChar
    if part.isEmpty then none else some (part, t.dropWhile isKeyChar)

/-- At most so many parts of a dotted key, and what follows them and blanks. -/
def keyParts? : (count : Nat) → Text → Option (List Text × Text)
  | 0, _ => none
  | count + 1, t => do
    let (part, rest) ← keyPart? (skipSpaces t)
    match skipSpaces rest with
    | '.' :: rest => do
      let (parts, rest) ← keyParts? count rest
      return (part :: parts, rest)
    | rest => some ([part], rest)

/-- The parts of a dotted key, and what follows them and blanks. -/
def key? (t : Text) : Option (List Text × Text) := keyParts? maxKeyParts t

/-- The word at the start of a text. A date may have its time after one blank. -/
def takeWord (t : Text) : Text × Text :=
  let word := t.takeWhile isWordChar
  let rest := t.dropWhile isWordChar
  match rest with
  | ' ' :: c :: r =>
    if isDate word && c.isDigit then
      (word ++ ' ' :: (c :: r).takeWhile isWordChar, (c :: r).dropWhile isWordChar)
    else (word, rest)
  | _ => (word, rest)

mutual

/-- A value, and what follows it. -/
def value? : (fuel depth : Nat) → Text → Option (Node × Text)
  | 0, _, _ => none
  | fuel + 1, depth, t =>
    match t with
    | '[' :: t =>
      if depth = 0 then none else do
        let (items, rest) ← items? fuel (depth - 1) t
        return (.array items, rest)
    | '\x7b' :: t =>
      if depth = 0 then none else do
        let (entries, rest) ← inline? fuel (depth - 1) [] t
        return (.table .inline entries, rest)
    | t =>
      match t.head? with
      | some '"' => (string? t).map fun (s, rest) => (.text s, rest)
      | some '\'' => (string? t).map fun (s, rest) => (.text s, rest)
      | _ => do
        let (word, rest) := takeWord t
        return (← word? word, rest)

/-- The items of an array after its bracket or a comma, and what follows the array. -/
def items? : (fuel depth : Nat) → Text → Option (List Node × Text)
  | 0, _, _ => none
  | fuel + 1, depth, t => do
    match ← skipLines t.length t with
    | ']' :: rest => some ([], rest)
    | t => do
      let (item, rest) ← value? fuel depth t
      match ← skipLines rest.length rest with
      | ']' :: rest => some ([item], rest)
      | ',' :: rest => do
        let (items, rest) ← items? fuel depth rest
        return (item :: items, rest)
      | _ => none

/-- The entries of an inline table after its brace or a comma, and what follows it. Lines may
end anywhere but inside a key. -/
def inline? : (fuel depth : Nat) → Entries → Text → Option (Entries × Text)
  | 0, _, _, _ => none
  | fuel + 1, depth, entries, t => do
    match ← skipLines t.length t with
    | '\x7d' :: rest => some (entries, rest)
    | t => do
      let (key, rest) ← key? t
      match ← skipLines rest.length rest with
      | '=' :: rest => do
        let (node, rest) ← value? fuel depth (← skipLines rest.length rest)
        let entries ← entries.assign true key node
        match ← skipLines rest.length rest with
        | '\x7d' :: rest => some (entries, rest)
        | ',' :: rest => inline? fuel depth entries rest
        | _ => none
      | _ => none

end

/-- Reads lines below the current header into the entries of the file. -/
def lines? : (fuel : Nat) → (header : List Text) → Entries → Text → Option Entries
  | 0, _, _, _ => none
  | fuel + 1, header, entries, t => do
    match ← skipLines t.length t with
    | [] => some entries
    | '[' :: '[' :: t => do
      let (key, rest) ← key? t
      let entries ← entries.openElement key
      match rest with
      | ']' :: ']' :: rest => lines? fuel key entries (← lineEnd? rest)
      | _ => none
    | '[' :: t => do
      let (key, rest) ← key? t
      let entries ← entries.openTable key
      match rest with
      | ']' :: rest => lines? fuel key entries (← lineEnd? rest)
      | _ => none
    | t => do
      let (key, rest) ← key? t
      match rest with
      | '=' :: rest => do
        let (node, rest) ← value? (2 * rest.length + 2) maxDepth (skipSpaces rest)
        lines? fuel header (← entries.assignBelow header key node) (← lineEnd? rest)
      | _ => none

/-- The table of a whole file, which may begin with a byte order mark. -/
def read? (t : Text) : Option Entries :=
  let t := match t with
    | '\uFEFF' :: t => t
    | t => t
  lines? (t.length + 1) [] [] t

end HtmlTemplate.Toml
