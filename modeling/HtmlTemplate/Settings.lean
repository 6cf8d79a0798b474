import HtmlTemplate.Snapshot
import HtmlTemplate.Toml.Reading

/-!
# Settings

Where a project keeps its fragments and writes its document. Settings come from the
first settings file of the project; every key may be left out.
-/
namespace HtmlTemplate

/-- The settings of a project. Paths are relative to its root. -/
structure Settings where
  templates : Path := .ofString "templates"
  maxDepth? : Option Nat := none
  output : Path := .ofString "index.html"
  runtime? : Option Path := none
deriving Repr

namespace Settings

/-- Where a settings file may lie, the first choice first. -/
def candidates : List Path :=
  [.ofString "xiv.toml", .ofString ".xiv.toml", .ofString ".config/xiv.toml"]

/-- A path, when the value is a text. -/
def path? : Toml.Node → Option Path
  | .text t => some ⟨t⟩
  | _ => none

/-- A count, when the value is an integer of 64 bits without a sign. -/
def count? : Toml.Node → Option Nat
  | .integer n => if 0 ≤ n && n < Int.ofNat (Nat.pow 2 64) then some n.toNat else none
  | _ => none

/-- Reads a value that may be missing; nothing is given only when it is there and wrong. -/
def optional? {α : Type} (read : Toml.Node → Option α) : Option Toml.Node → Option (Option α)
  | none => some none
  | some node => (read node).map some

/-- The two values of a section: by their keys, or in order when the section is an array. A
date counts as a section that has neither. -/
def fields? (first second : String) : Option Toml.Node →
    Option (Option Toml.Node × Option Toml.Node)
  | none => some (none, none)
  | some (.table _ entries) => some (entries.lookup first.toList, entries.lookup second.toList)
  | some (.array items) => some (items[0]?, items[1]?)
  | some .moment => some (none, none)
  | some (.tables latest earlier) =>
    let items := (latest :: earlier).reverse.map (Toml.Node.table .header)
    some (items[0]?, items[1]?)
  | some _ => none

/-- Whether all numbers in a section can be read. Of an array only the two fields count. -/
def isReadableSection : Toml.Node → Bool
  | .array items => Toml.Node.itemsReadable (items.take 2)
  | node => node.isReadable

/-- Whether all numbers can be read that the settings ask for, which are those of unknown keys
too. -/
def isReadable (entries : Toml.Entries) : Bool :=
  entries.all fun (key, node) =>
    if key == "templates".toList || key == "output".toList then isReadableSection node
    else node.isReadable

/-- The settings that the entries of a file give. -/
def ofEntries? (entries : Toml.Entries) : Option Settings := do
  let (templates, maxDepth) ←
    fields? "path" "max_depth" (entries.lookup "templates".toList)
  let (output, runtime) ← fields? "path" "runtime" (entries.lookup "output".toList)
  let standard : Settings := {}
  return {
    templates := (← optional? path? templates).getD standard.templates
    maxDepth? := ← optional? count? maxDepth
    output := (← optional? path? output).getD standard.output
    runtime? := ← optional? path? runtime }

/-- The settings that a file spells. -/
def read? (t : Text) : Option Settings := do
  let entries ← Toml.read? t
  if isReadable entries then ofEntries? entries else none

/-- The settings file of a project. -/
def file? (files : Snapshot) (root : Path) : Option Path :=
  (candidates.map root.join).find? files.isFile

/-- The settings of a project, or nothing when it has no settings file. -/
def load (files : Snapshot) (root : Path) : Except Failure (Option Settings) :=
  match file? files root with
  | none => .ok none
  | some path =>
    match files.read path with
    | .error e => .error (.file e)
    | .ok t =>
      match read? t with
      | some settings => .ok (some settings)
      | none => .error .unreadableSettings

end Settings

end HtmlTemplate
