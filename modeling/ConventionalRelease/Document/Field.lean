import ConventionalRelease.Document.Basic

/-!
# Values of documents

Readers for the values that a document may hold. A record is read from a mapping, whose unknown keys
are ignored, or from a list of its fields in order; a field that is missing stands for its default.
-/

namespace ConventionalRelease

namespace Document

/-- Reads a text. -/
def text? : Document → Option String
  | text s => some s
  | _ => none

/-- Reads a whole number. -/
def int? : Document → Option Int
  | int n => some n
  | _ => none

/-- Reads a truth value. -/
def bool? : Document → Option Bool
  | bool b => some b
  | _ => none

/-- Reads a list, each item by `read`. -/
def listOf? {α : Type} (read : Document → Option α) : Document → Option (List α)
  | list items => items.mapM read
  | _ => none

/-- Reads a list of texts. -/
def texts? : Document → Option (List String) :=
  listOf? text?

/-- Reads a text that may be missing. -/
def optionalText? : Document → Option (Option String)
  | null => some none
  | text s => some (some s)
  | _ => none

/-- Whether the document can be read as a record of `size` fields. -/
def isRecord (size : Nat) : Document → Bool
  | mapping _ => true
  | list items => items.length ≤ size
  | _ => false

/-- The field of a record: the value under its key, or the item at its place. -/
def field? (d : Document) (place : Nat) (key : String) : Option Document :=
  match d with
  | mapping fields => fields.lookup key
  | list items => items[place]?
  | _ => none

/-- Reads the field of a record, or takes the default where it is missing. -/
def fieldOr {α : Type} (d : Document) (place : Nat) (key : String)
    (read : Document → Option α) (default : α) : Option α :=
  match d.field? place key with
  | some value => read value
  | none => some default

end Document

end ConventionalRelease
