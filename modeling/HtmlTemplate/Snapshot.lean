import HtmlTemplate.Failure
import HtmlTemplate.Path

/-!
# Snapshots of a file system

What a compilation may ask about files, answered from one moment. A path is canonical
when it names a file or directory without dots, parent steps and symbolic links.
-/
namespace HtmlTemplate

/-- A path made of the root and plain names, in its only spelling. -/
def Path.IsPlain (p : Path) : Prop :=
  ∃ names : List Text, p = .ofComponents (.root :: names.map .name) ∧
    p.components = .root :: names.map .name

/-- The answers about files, with what ties them together. -/
structure Snapshot where
  isPresent : Path → Bool
  isFile : Path → Bool
  isDirectory : Path → Bool
  canonical : Path → Except FileError Path
  read : Path → Except FileError Text
  /-- The canonical paths of all regular files. -/
  files : List Path
  isPresent_of_isFile {p : Path} : isFile p → isPresent p
  canonical_isPlain {p q : Path} : canonical p = .ok q → q.IsPlain
  canonical_canonical {p q : Path} : canonical p = .ok q → canonical q = .ok q
  mem_files {p : Path} : isFile p → canonical p = .ok p → p ∈ files

end HtmlTemplate
