import HtmlTemplate.Text

/-!
# TOML tables

The tables of a settings file while it is read. A table remembers how it was made,
because that decides what may be added to it: an inline table is complete, a table with
a header of its own gets no second one, and dotted keys extend a table only while it has
no header of its own.
-/
namespace HtmlTemplate.Toml

/-- How a table was made. -/
inductive Origin where
  | inline
  | header
  /-- Named on the way to another header. -/
  | passing
  /-- Named on the way to a dotted key, first or later. -/
  | dotted
deriving DecidableEq, Repr

/-- A value. What a truth value, a float or a date says is not kept. -/
inductive Node where
  | text (t : Text)
  | integer (n : Int)
  /-- A truth value or a float. -/
  | other
  /-- A number that is too great, or has strange letters after an underscore. It spoils a
  file only where its value is asked for. -/
  | unreadable
  /-- A date, a time, or both. -/
  | moment
  | array (items : List Node)
  | table (origin : Origin) (entries : List (Text × Node))
  /-- The tables under one double header, the latest first. -/
  | tables (latest : List (Text × Node)) (earlier : List (List (Text × Node)))
deriving Repr, Inhabited

/-- The keys of a table with their values. -/
abbrev Entries := List (Text × Node)

namespace Node

mutual

/-- Whether all numbers in the value can be read. -/
def isReadable : Node → Bool
  | text _ => true
  | integer _ => true
  | other => true
  | unreadable => false
  | moment => true
  | array items => itemsReadable items
  | table _ entries => entriesReadable entries
  | tables latest earlier => entriesReadable latest && tablesReadable earlier
termination_by structural node => node

/-- Whether all numbers in the items can be read. -/
def itemsReadable : List Node → Bool
  | [] => true
  | item :: items => item.isReadable && itemsReadable items
termination_by structural items => items

/-- Whether all numbers in the entries can be read. -/
def entriesReadable : List (Text × Node) → Bool
  | [] => true
  | (_, node) :: entries => node.isReadable && entriesReadable entries
termination_by structural entries => entries

/-- Whether all numbers in the tables can be read. -/
def tablesReadable : List (List (Text × Node)) → Bool
  | [] => true
  | entries :: rest => entriesReadable entries && tablesReadable rest
termination_by structural all => all

end

end Node

namespace Entries

/-- The entries with a new value for a key. -/
def set (entries : Entries) (key : Text) (node : Node) : Entries :=
  (key, node) :: entries.filter (·.1 != key)

/-- Begins the table of a header. -/
def openTable : (path : List Text) → Entries → Option Entries
  | [], _ => none
  | [key], entries =>
    match entries.lookup key with
    | none => some (entries.set key (.table .header []))
    | some (.table .passing inner) => some (entries.set key (.table .header inner))
    | some _ => none
  | key :: path, entries =>
    match entries.lookup key with
    | none => do return entries.set key (.table .passing (← openTable path []))
    | some (.table .inline _) => none
    | some (.table origin inner) => do
      return entries.set key (.table origin (← openTable path inner))
    | some (.tables latest earlier) => do
      return entries.set key (.tables (← openTable path latest) earlier)
    | some _ => none

/-- Begins one more table of a double header. -/
def openElement : (path : List Text) → Entries → Option Entries
  | [], _ => none
  | [key], entries =>
    match entries.lookup key with
    | none => some (entries.set key (.tables [] []))
    | some (.tables latest earlier) => some (entries.set key (.tables [] (latest :: earlier)))
    | some _ => none
  | key :: path, entries =>
    match entries.lookup key with
    | none => do return entries.set key (.table .passing (← openElement path []))
    | some (.table .inline _) => none
    | some (.table origin inner) => do
      return entries.set key (.table origin (← openElement path inner))
    | some (.tables latest earlier) => do
      return entries.set key (.tables (← openElement path latest) earlier)
    | some _ => none

/-- Gives a value to a dotted key. A table on the way must have no header of its own, and can
get none later. The one that gets the last part of the key must be no item of a double header
either, unless the key has one part only. -/
def assign (mayEnd : Bool) : (key : List Text) → Node → Entries → Option Entries
  | [], _, _ => none
  | [key], node, entries =>
    if mayEnd && (entries.lookup key).isNone then some (entries.set key node) else none
  | key :: path, node, entries =>
    match entries.lookup key with
    | none => do return entries.set key (.table .dotted (← assign true path node []))
    | some (.table .dotted inner) => do
      return entries.set key (.table .dotted (← assign true path node inner))
    | some (.table .passing inner) => do
      return entries.set key (.table .dotted (← assign true path node inner))
    | some (.tables latest earlier) => do
      return entries.set key (.tables (← assign false path node latest) earlier)
    | some _ => none

/-- Gives a value to a dotted key below the table of the current header. -/
def assignBelow : (header : List Text) → (key : List Text) → Node → Entries → Option Entries
  | [], key, node, entries => assign true key node entries
  | first :: header, key, node, entries =>
    match entries.lookup first with
    | some (.table origin inner) => do
      return entries.set first (.table origin (← assignBelow header key node inner))
    | some (.tables latest earlier) => do
      return entries.set first (.tables (← assignBelow header key node latest) earlier)
    | _ => none

end Entries

end HtmlTemplate.Toml
