import HtmlTemplate.Command.Arguments
import HtmlTemplate.Disk.Change
import HtmlTemplate.Disk.Snapshot
import HtmlTemplate.Expansion
import HtmlTemplate.Settings

/-!
# Running the program

A run takes a disk to another disk, prints lines, and ends well or with a failure.
Nothing is written when a compilation fails, and a sample project never replaces a file
that is there.
-/
namespace HtmlTemplate.Command

/-- Where a run takes place: the directory it starts in, and whether colours are wanted. -/
structure Surroundings where
  here : Place
  color : Bool := false

/-- How a run ends. -/
inductive Ending where
  | done
  | stopped (reason : Stop)
  | noTask
  | failed (failure : Failure)
  /-- A file or directory could not be written. -/
  | unwritten (cause : FileError)
deriving DecidableEq, Repr

/-- What a run leaves behind. -/
structure Outcome where
  disk : Disk
  stdout : Text := []
  /-- The lines on standard error, apart from reports of failures and logs. -/
  stderr : List Text := []
  ending : Ending := .done
deriving Repr

namespace Ending

/-- The status that the program exits with. -/
def exitCode : Ending → Nat
  | done => 0
  | stopped .usage => 2
  | stopped _ => 0
  | noTask => 1
  | failed _ => 2
  | unwritten _ => 2

end Ending

/-- The text in a colour, where colours are wanted. -/
def paint (color : Bool) (start stop : String) (t : String) : Text :=
  if color then ("\x1b[" ++ start ++ "m" ++ t ++ "\x1b[" ++ stop ++ "m").toList else t.toList

/-- The line on standard error that tells why a file could not be written. -/
def errorLine (color : Bool) (cause : FileError) : Text :=
  paint color "31" "39" "error:" ++ ' ' :: cause.message.toList

/-- The line on standard error when there is nothing to do. -/
def noTaskLine : Text := "No subcommand specified. Run `xiv --help` for usage.".toList

/-- What the program says about its version. -/
def versionText : Text := "xiv_cli 0.1.0\n".toList

/-- The document of a sample project. -/
def sampleDocument : Text :=
  ("<xiv type=\"main\">\n"
    ++ "  <h1>\x7b\x7b title | Hello from xiv \x7d\x7d</h1>\n"
    ++ "  <x-temp x-name=\"card\" t-title=\"Getting started\">\n"
    ++ "    <p>Edit <code>main.xiv</code> and run <code>xiv compile main.xiv</code>.</p>\n"
    ++ "  </x-temp>\n"
    ++ "</xiv>\n").toList

/-- The fragment of a sample project. -/
def sampleFragment : Text :=
  ("<xiv type=\"template\">\n"
    ++ "  <article>\n"
    ++ "    <h2>\x7b\x7b title \x7d\x7d</h2>\n"
    ++ "    <x-slot/>\n"
    ++ "  </article>\n"
    ++ "</xiv>\n").toList

/-- The settings of a sample project. -/
def sampleSettings : Text :=
  ("# xiv configuration\n\n"
    ++ "[templates]\n"
    ++ "# Directory containing fragment templates, relative to this file.\n"
    ++ "path = \"templates\"\n"
    ++ "# Maximum nesting of fragment inclusions.\n"
    ++ "# max_depth = 32\n\n"
    ++ "[output]\n"
    ++ "path = \"index.html\"\n"
    ++ "# Script appended to every compiled document.\n"
    ++ "# runtime = \"runtime/xiv.js\"\n").toList

/-- The files of a sample project below its root. -/
def sampleFiles (root : Path) : List (Path × Text) :=
  [(root.join (.ofString "main.xiv"), sampleDocument),
    ((root.join (.ofString "templates")).join (.ofString "card.xiv"), sampleFragment),
    (root.join (.ofString "xiv.toml"), sampleSettings)]

/-- What is said after files were created. -/
def nextSteps : Text :=
  ("\nNext steps:\n"
    ++ "  1. Edit main.xiv and the fragments in templates/\n"
    ++ "  2. Run `xiv compile main.xiv` to build index.html\n").toList

/-- Writes a file into a directory that is made where it is missing. -/
def writeBelow (disk : Disk) (here : Place) (path : Path) (content : Text) :
    Except (Disk × FileError) Disk :=
  match (path.parent?.map (disk.makeDirectories here)).getD (.ok disk) with
  | .error e => .error e
  | .ok made =>
    match made.write here path content with
    | .ok written => .ok written
    | .error e => .error (made, e)

/-- The outcome of a run that could not write a file. -/
def unwritten (around : Surroundings) (cause : FileError) (out : Outcome) : Outcome :=
  { out with
    stderr := out.stderr ++ [errorLine around.color cause]
    ending := .unwritten cause }

/-- Creates those of the files that are missing; `created` tells whether any was so far. -/
def createMissing (around : Surroundings) (root : Path) :
    (created : Bool) → List (Path × Text) → Outcome → Outcome
  | created, [], out => if created then { out with stdout := out.stdout ++ nextSteps } else out
  | created, (path, content) :: rest, out =>
    let name := root.relativeTo path
    if out.disk.isPresent around.here path then
      createMissing around root created rest
        { out with stdout := out.stdout ++ "Already exists: ".toList ++ name ++ ['\n'] }
    else
      match writeBelow out.disk around.here path content with
      | .error (disk, e) => unwritten around e { out with disk }
      | .ok disk =>
        createMissing around root true rest
          { out with disk, stdout := out.stdout ++ "Created ".toList ++ name ++ ['\n'] }

/-- The directory that a run works on. -/
def rootOf (here : Place) (arguments : Arguments) : Path :=
  arguments.path?.getD (Disk.pathOf here)

/-- Creates a sample project. -/
def runInit (disk : Disk) (around : Surroundings) (arguments : Arguments) : Outcome :=
  let root := rootOf around.here arguments
  createMissing around root false (sampleFiles root) { disk }

/-- What a compilation reads and writes. -/
structure Plan where
  input : Path
  templates : Path
  output : Path
  runtime? : Option Path
  maxDepth? : Option Nat
deriving Repr

/-- The options before the settings, each path joined to the root of the project. -/
def plan (root : Path) (settings : Settings) (options : CompileOptions) : Plan where
  input := root.join options.input
  templates := root.join (options.templates?.getD settings.templates)
  output := root.join (options.output?.getD settings.output)
  runtime? := (options.runtime?.or settings.runtime?).map root.join
  maxDepth? := settings.maxDepth?

/-- The finished document. A script that cannot be read is left out. -/
def document (files : Snapshot) (p : Plan) : Except Failure Text := do
  let store ← Store.open? files p.templates
  let forest ← (Compiler.mk store p.maxDepth?).compileFile p.input
  return Document.render (p.runtime?.bind fun path => (files.read path).toOption) forest

/-- The line that names the settings file in use. -/
def settingsLine (files : Snapshot) (root : Path) : List Text :=
  ((Settings.file? files root).map fun path =>
    "Using config: ".toList ++ root.relativeTo path).toList

/-- Compiles one document. -/
def runCompile (disk : Disk) (around : Surroundings) (arguments : Arguments)
    (options : CompileOptions) : Outcome :=
  let root := rootOf around.here arguments
  let files := disk.view around.here
  match Settings.load files root with
  | .error e => { disk, ending := .failed e }
  | .ok loaded =>
    let p := plan root (loaded.getD {}) options
    let stderr := if arguments.isVerbose then settingsLine files root else []
    match document files p with
    | .error e => { disk, stderr, ending := .failed e }
    | .ok html =>
      if options.toStdout then { disk, stderr, stdout := html }
      else
        match writeBelow disk around.here p.output html with
        | .error (disk, e) => unwritten around e { disk, stderr }
        | .ok disk =>
          { disk, stderr
            stdout := paint around.color "32" "39" "Compiled" ++ ' ' ::
              root.relativeTo p.input ++ ' ' ::
              paint around.color "1" "0" "->" ++ ' ' :: root.relativeTo p.output ++ ['\n'] }

/-- Runs the program with its arguments. -/
def run (disk : Disk) (around : Surroundings) (arguments : List Text) : Outcome :=
  match Arguments.read arguments with
  | .error .version => { disk, stdout := versionText, ending := .stopped .version }
  | .error reason => { disk, ending := .stopped reason }
  | .ok arguments =>
    let around := { around with color := around.color && !arguments.noColor }
    match arguments.task? with
    | none => { disk, stderr := [noTaskLine], ending := .noTask }
    | some .init => runInit disk around arguments
    | some (.compile options) => runCompile disk around arguments options

end HtmlTemplate.Command
