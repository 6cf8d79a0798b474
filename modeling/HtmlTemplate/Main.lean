import HtmlTemplate.Command.Run

/-!
# The program

The outermost layer. It reads the directories that a run may look into, runs the
command on them, and writes what the run has changed.
-/
namespace HtmlTemplate.Program

/-- The place of a path that is real on the machine. -/
def placeOf (path : Path) : Place :=
  (path.components.filterMap fun
    | .name n => some n
    | _ => none).reverse

/-- What stands at a path of the machine. -/
def atPath (path : Path) : IO.FS.DirEntry := ⟨"/", String.ofList path.text⟩

/-- Where a path of the machine leads. -/
def real (path : Path) : IO (Option Path) := do
  match ← (IO.FS.realPath (atPath path).path).toBaseIO with
  | .ok found => return some (.ofString found.toString)
  | .error _ => return none

/-- Adds to a disk what stands at the given paths, all below them, and what symbolic links
lead to. -/
partial def load (seen : List Place) (disk : Disk) : List IO.FS.DirEntry → IO Disk
  | [] => return disk
  | entry :: todo => do
    let place := placeOf (.ofString entry.path.toString)
    if place ∈ seen then load seen disk todo
    else
      let seen := place :: seen
      match ← entry.path.symlinkMetadata.toBaseIO with
      | .error _ => load seen disk todo
      | .ok found =>
        match found.type with
        | .dir =>
          let inside ← entry.path.readDir.toBaseIO
          let inside := (inside.toOption.getD #[]).toList
          load seen (if (disk.lookup place).isSome then disk else put disk place .directory)
            (inside ++ todo)
        | .file =>
          match ← (IO.FS.readBinFile entry.path).toBaseIO with
          | .ok bytes => load seen (put disk place (.file (Content.ofBytes bytes.toList))) todo
          | .error _ => load seen disk todo
        | .symlink =>
          -- A link that leads nowhere is kept as one that leads to itself.
          let target ← real (Disk.pathOf place)
          load seen (put disk place (.link (target.getD (Disk.pathOf place))))
            ((target.map atPath).toList ++ todo)
        | .other => load seen disk todo
where
  /-- The disk with an entry, and with directories above it. -/
  put (disk : Disk) (place : Place) (entry : Entry) : Disk :=
    disk.install [] (Disk.pathOf place) entry

/-- The disk with the nearest directory that exists on the way to a path. -/
partial def addNearest (disk : Disk) (path : Path) : IO Disk := do
  match ← real path, path.parent? with
  | some found, _ =>
    let place := placeOf found
    return if (disk.lookup place).isSome then disk else disk.install [] found .directory
  | none, some parent => addNearest disk parent
  | none, none => return disk

/-- The paths of a compilation that may lie outside the project. -/
def farPaths (p : Command.Plan) : List Path :=
  p.templates :: ([p.input, p.output] ++ p.runtime?.toList).filterMap Path.parent?

/-- The disk that a run starts from. -/
def disk (here : Path) (arguments : Command.Arguments) : IO Disk := do
  let place := placeOf here
  let root := here.join (Command.rootOf place arguments)
  let near := atPath here :: ((← real root).map atPath).toList
  let known ← addNearest (← load [] {} near) root
  match arguments.task? with
  | some (.compile options) =>
    let settings := ((Settings.load (known.view place) root).toOption.bind id).getD {}
    let far := (farPaths (Command.plan root settings options)).map here.join
    let found := (← far.mapM real).filterMap fun path => path.map atPath
    far.foldlM addNearest (← load [] known found)
  | _ => return known

/-- Writes the entries that a disk has gained, directories before the files in them. -/
def store (before after : Disk) : IO Unit :=
  after.entries.reverse.forM fun (place, entry) => do
    if before.lookup place != some entry then
      let path := (atPath (Disk.pathOf place)).path
      match entry with
      | .file (.text t) => IO.FS.writeFile path (String.ofList t)
      | .directory => IO.FS.createDirAll path
      | _ => pure ()

/-- How the program is used. -/
def usage : String :=
  "Compile xiv component templates into static HTML pages.\n\n"
    ++ "Usage: xiv [OPTIONS] [COMMAND]\n\n"
    ++ "Commands:\n"
    ++ "  init             Create a sample project\n"
    ++ "  compile <INPUT>  Compile a main template into an HTML document\n\n"
    ++ "Options:\n"
    ++ "  -p, --path <PATH>            Path to the project root directory\n"
    ++ "  -v, --verbose                Enable verbose output\n"
    ++ "      --no-color               Disable colored output\n"
    ++ "  -h, --help                   Print help\n"
    ++ "  -V, --version                Print version\n\n"
    ++ "Options of compile:\n"
    ++ "  -t, --templates <TEMPLATES>  Directory containing the fragment templates\n"
    ++ "  -o, --output <OUTPUT>        Output file\n"
    ++ "      --runtime <RUNTIME>      Script appended to the document\n"
    ++ "      --stdout                 Print the document instead of writing a file\n"
    ++ "      --watch                  Recompile when files change\n"

/-- Tells on standard error why the command failed. -/
def report (e : Failure) : IO Unit := do
  IO.eprintln s!"Error: {e.code}"
  IO.eprintln s!"  {String.ofList e.message}"
  match e.help? with
  | some help => IO.eprintln s!"  help: {help}"
  | none => pure ()

/-- Prints and writes what a run leaves behind. -/
def finish (before : Disk) (out : Command.Outcome) : IO Unit := do
  store before out.disk
  IO.print (String.ofList out.stdout)
  match out.ending with
  | .failed e => report e
  | .stopped .usage => IO.eprint usage
  | .stopped .help => IO.print usage
  | _ => pure ()
  out.stderr.forM fun line => IO.eprintln (String.ofList line)
  (← IO.getStdout).flush

/-- Runs the command again whenever a file has changed. -/
partial def watch (here : Path) (arguments : Command.Arguments)
    (run : Disk → Command.Outcome) (before : Disk) : IO Unit := do
  IO.sleep 200
  let now ← disk here arguments
  if now.entries == before.entries then watch here arguments run before
  else
    IO.println "\nFile change detected, recompiling..."
    finish now (run now)
    watch here arguments run (← disk here arguments)

/-- Runs the program in a directory. -/
def run (here : Path) (color : Bool) (given : List Text) : IO UInt32 := do
  let around : Command.Surroundings := ⟨placeOf here, color⟩
  let before ← match Command.Arguments.read given with
    | .ok arguments => disk here arguments
    | .error _ => pure {}
  let run (disk : Disk) : Command.Outcome := Command.run disk around given
  let out := run before
  finish before out
  match out.ending, Command.Arguments.read given with
  | .done, .ok arguments =>
    match arguments.task? with
    | some (.compile options) =>
      if options.watch then
        IO.println "\nWatching for file changes... (press Ctrl+C to stop)"
        watch here arguments run (← disk here arguments)
    | _ => pure ()
  | _, _ => pure ()
  return out.ending.exitCode.toUInt32

end HtmlTemplate.Program

/-- Runs the program with the arguments of its command line. -/
def main (arguments : List String) : IO UInt32 := do
  let here ← IO.FS.realPath (← IO.currentDir)
  let color := (← IO.getEnv "NO_COLOR").isNone
  HtmlTemplate.Program.run (.ofString here.toString) color (arguments.map String.toList)
