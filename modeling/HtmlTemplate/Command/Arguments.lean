import HtmlTemplate.Command.Options
import HtmlTemplate.Path

/-!
# The arguments of the program

What a user can ask for: a sample project, or the compilation of one document. The
project, the verbosity and the colours may be given before or after the command; what
comes after it counts.
-/
namespace HtmlTemplate.Command

/-- What to compile, and paths that go before those of the settings. -/
structure CompileOptions where
  input : Path
  templates? : Option Path
  output? : Option Path
  runtime? : Option Path
  toStdout : Bool
  watch : Bool
deriving DecidableEq, Repr

/-- What the program is asked to do. -/
inductive Task where
  | init
  | compile (options : CompileOptions)
deriving DecidableEq, Repr

/-- The arguments as they are understood. -/
structure Arguments where
  path? : Option Path
  isVerbose : Bool
  noColor : Bool
  task? : Option Task
deriving DecidableEq, Repr

namespace Arguments

/-- The options that every command takes. -/
def commonOptions : List OptionSpec :=
  [⟨"path", some 'p', true⟩, ⟨"verbose", some 'v', false⟩, ⟨"no-color", none, false⟩,
    ⟨"help", some 'h', false⟩]

/-- The command that creates a sample project. -/
def initName : Text := "init".toList

/-- The command that compiles one document. -/
def compileName : Text := "compile".toList

/-- The command that explains the others. -/
def helpName : Text := "help".toList

/-- What stands before and at a command. -/
def programLine : LineSpec where
  options := commonOptions ++ [⟨"version", some 'V', false⟩]
  commands := [initName, compileName, helpName]

/-- What stands after the command for a sample project. -/
def initLine : LineSpec where
  options := commonOptions

/-- What stands after the command for a compilation. -/
def compileLine : LineSpec where
  options := commonOptions ++ [⟨"templates", some 't', true⟩, ⟨"output", some 'o', true⟩,
    ⟨"runtime", none, true⟩, ⟨"stdout", none, false⟩, ⟨"watch", none, false⟩]
  operands := 1

/-- How the program stops after the command for help: with an explanation of the program or of
one command, when the arguments ask for such a thing. -/
def explain : List Text → Stop
  | [] => .help
  | [name] => if programLine.commands.contains name then .help else .usage
  | _ => .usage

/-- The path that an option gives. -/
def path (line : Line) (name : String) : Option Path := (line.value? name).map Path.mk

/-- What the options before and after the command ask for together. -/
def ofLines (before after : Line) (task? : Option Task) : Arguments where
  path? := (path after "path").or (path before "path")
  isVerbose := before.has "verbose" || after.has "verbose"
  noColor := before.has "no-color" || after.has "no-color"
  task? := task?

/-- Reads the arguments of the program. -/
def read (arguments : List Text) : Except Stop Arguments := do
  let before ← programLine.read arguments
  match before.command? with
  | none => return ofLines before {} none
  | some (name, rest) =>
    if name = initName then
      let after ← initLine.read rest
      return ofLines (← before.settle) after (some .init)
    else if name = compileName then
      let after ← compileLine.read rest
      match after.operands with
      | [input] =>
        return ofLines (← before.settle) after (some (.compile {
          input := ⟨input⟩
          templates? := path after "templates"
          output? := path after "output"
          runtime? := path after "runtime"
          toStdout := after.has "stdout"
          watch := after.has "watch" }))
      | _ => .error .usage
    else .error (explain rest)

end Arguments

end HtmlTemplate.Command
