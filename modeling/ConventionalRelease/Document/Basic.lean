/-!
# Documents

The data of a configuration file, whatever format it was written in: a mapping from keys to
documents, a list, or a single value. A mapping keeps its entries in order, and a key stands for its
first entry.
-/

namespace ConventionalRelease

/-- A document. -/
inductive Document where
  | null
  | bool (b : Bool)
  | int (n : Int)
  /-- A number with a fraction or an exponent, as it was written. -/
  | real (numeral : String)
  | text (s : String)
  /-- A list of documents. -/
  | list (items : List Document)
  | mapping (fields : List (String × Document))
  deriving Inhabited, Repr

namespace Document

/-- Whether the document is `null`. -/
def isNull : Document → Bool
  | null => true
  | _ => false

/-- A list of texts. -/
def texts (items : List String) : Document :=
  list (items.map text)

/-- Sets the value of a key: in its place if the key is there, and at the end if it is not. -/
def put (key : String) (value : Document) : List (String × Document) → List (String × Document)
  | [] => [(key, value)]
  | (other, old) :: rest =>
    if other = key then (key, value) :: rest else (other, old) :: put key value rest

/-- The document reached by descending through mappings along a path of keys. -/
def at? (d : Document) : List String → Option Document
  | [] => some d
  | key :: rest =>
    match d with
    | mapping fields => (fields.lookup key).bind (·.at? rest)
    | _ => none

end Document

end ConventionalRelease
