import HtmlTemplate.Text

/-!
# Options on a command line

Arguments are read from left to right, and the first fault ends the reading. An option has
a long name after two dashes and perhaps a letter after one; letters may be joined. A value
follows an equals sign, the letter, or as the next argument. After two dashes alone,
nothing is an option.
-/
namespace HtmlTemplate.Command

/-- One option of a command. -/
structure OptionSpec where
  name : String
  letter? : Option Char := none
  takesValue : Bool := false
deriving DecidableEq, Repr

/-- What may stand on a line: options, some operands, and perhaps one of a few commands. -/
structure LineSpec where
  options : List OptionSpec
  operands : Nat := 0
  commands : List Text := []
deriving DecidableEq, Repr

/-- An option as it is given. -/
structure Given where
  name : String
  value : Text := []
deriving DecidableEq, Repr

/-- Why the arguments are not run. -/
inductive Stop where
  | usage
  | version
  | help
deriving DecidableEq, Repr

/-- Options and operands as they are given, and a command with the arguments after it. A
value that is an argument of its own waits beside its option until the next argument. -/
structure Line where
  options : List Given := []
  waiting? : Option (OptionSpec × Text) := none
  operands : List Text := []
  command? : Option (Text × List Text) := none
deriving DecidableEq, Repr

namespace Line

/-- Adds an option. An option is given at most once, and a value is never empty. -/
def addOption (spec : OptionSpec) (value : Text) (line : Line) : Except Stop Line :=
  if line.options.any (·.name == spec.name) then .error .usage
  else if spec.takesValue && value.isEmpty then .error .usage
  else if spec.name = "version" then .error .version
  else if spec.name = "help" then .error .help
  else .ok { line with options := ⟨spec.name, value⟩ :: line.options }

/-- Adds the option whose value waits. -/
def settle (line : Line) : Except Stop Line :=
  match line.waiting? with
  | none => .ok line
  | some (spec, value) => { line with waiting? := none }.addOption spec value

/-- Adds an operand where at most so many may stand. An operand is never empty. -/
def addOperand (count : Nat) (operand : Text) (line : Line) : Except Stop Line :=
  if operand.isEmpty || count ≤ line.operands.length then .error .usage
  else .ok { line with operands := line.operands ++ [operand] }

/-- The value of an option. -/
def value? (line : Line) (name : String) : Option Text :=
  (line.options.find? (·.name == name)).map (·.value)

/-- Whether an option is given. -/
def has (line : Line) (name : String) : Bool := line.options.any (·.name == name)

end Line

/-- Whether an argument can be the value of the option before it. -/
def isValue (argument : Text) : Bool := argument.head? != some '-' || argument = ['-']

/-- Reads the letters after one dash. Gives the option that still needs its value. -/
def readLetters (specs : List OptionSpec) : Text → Line →
    Except Stop (Line × Option OptionSpec)
  | [], line => .ok (line, none)
  | c :: letters, line =>
    match specs.find? (·.letter? == some c) with
    | none => .error .usage
    | some spec =>
      if spec.takesValue then
        match letters with
        | [] => .ok (line, some spec)
        | '=' :: value => (line.addOption spec value).map (·, none)
        | value => (line.addOption spec value).map (·, none)
      else
        match line.addOption spec [] with
        | .error s => .error s
        | .ok line => readLetters specs letters line

/-- Reads what follows two dashes. Gives the option that still needs its value. -/
def readName (specs : List OptionSpec) (argument : Text) (line : Line) :
    Except Stop (Line × Option OptionSpec) :=
  let name := argument.takeWhile (· != '=')
  match specs.find? (·.name.toList == name), argument.dropWhile (· != '=') with
  | none, _ => .error .usage
  | some spec, [] =>
    if spec.takesValue then .ok (line, some spec) else (line.addOption spec []).map (·, none)
  | some spec, _ :: value =>
    if spec.takesValue then (line.addOption spec value).map (·, none) else .error .usage

/-- Reads arguments up to a command. The option `unfilled?` takes the next argument as its value. A
waiting value is not looked at before a command, which may end the reading on its own. -/
def readLine (spec : LineSpec) : (unfilled? : Option OptionSpec) → (onlyOperands : Bool) →
    List Text → Line → Except Stop Line
  | some _, _, [], _ => .error .usage
  | none, _, [], line => line.settle
  | some option, onlyOperands, a :: rest, line =>
    if isValue a then
      readLine spec none onlyOperands rest { line with waiting? := some (option, a) }
    else .error .usage
  | none, true, a :: rest, line =>
    match line.settle.bind (·.addOperand spec.operands a) with
    | .error s => .error s
    | .ok line => readLine spec none true rest line
  | none, false, a :: rest, line =>
    if spec.commands.contains a then .ok { line with command? := some (a, rest) }
    else
      match line.settle with
      | .error s => .error s
      | .ok line =>
        match a with
        | ['-', '-'] => readLine spec none true rest line
        | '-' :: '-' :: name =>
          match readName spec.options name line with
          | .error s => .error s
          | .ok (line, unfilled?) => readLine spec unfilled? false rest line
        | '-' :: c :: letters =>
          match readLetters spec.options (c :: letters) line with
          | .error s => .error s
          | .ok (line, unfilled?) => readLine spec unfilled? false rest line
        | _ =>
          match line.addOperand spec.operands a with
          | .error s => .error s
          | .ok line => readLine spec none false rest line

/-- The options and operands of a line, and the arguments after its command. -/
def LineSpec.read (spec : LineSpec) (arguments : List Text) : Except Stop Line :=
  readLine spec none false arguments {}

end HtmlTemplate.Command
