import ConventionalRelease.Document.Basic

/-!
# Tables of a TOML text

A table is defined by its header, comes about because a header names a table within it, or because a
dotted key does. No table is defined twice: a header can define a table that only came about by
headers, and a dotted key can add to a table that only came about by keys.
-/

namespace ConventionalRelease.Toml

/-- How a table came about. -/
inductive Origin where
  /-- By its own header, or as an element of an array of tables. -/
  | header
  /-- Because a header names a table within it. -/
  | implied
  /-- Because a dotted key names something within it. -/
  | dotted
  deriving DecidableEq, Inhabited, Repr

/-- What stands under a key. -/
inductive Item where
  | value (d : Document)
  | table (origin : Origin) (fields : List (String × Item))
  /-- An array of tables. -/
  | tables (elements : List (List (String × Item)))
  deriving Inhabited

/-- The items under their keys. -/
abbrev Fields := List (String × Item)

/-- Sets the item of a key: in its place if the key is there, and at the end if it is not. -/
def Fields.put (key : String) (item : Item) : Fields → Fields
  | [] => [(key, item)]
  | (other, old) :: rest =>
    if other = key then (key, item) :: rest else (other, old) :: Fields.put key item rest

/-- Changes the table at a path of keys by `f`, which is given how the table came about. Tables that
are missing on the way come about; by a dotted key no table is entered that has a header of its own.
Of an array of tables, the last is entered. -/
def update? (dotted : Bool) (f : Origin → Fields → Option Fields) :
    List String → Origin → Fields → Option Fields
  | [], origin, fields => f origin fields
  | key :: path, _, fields =>
    match fields.lookup key with
    | none =>
      let origin := if dotted then .dotted else .implied
      (fun inner => Fields.put key (.table origin inner) fields) <$> update? dotted f path origin []
    | some (.value _) => none
    | some (.table origin inner) =>
      if dotted && origin = .header then none
      else (fun inner => Fields.put key (.table origin inner) fields) <$>
        update? dotted f path origin inner
    | some (.tables elements) =>
      match elements.getLast? with
      | none => none
      | some last =>
        (fun last => Fields.put key (.tables (elements.dropLast ++ [last])) fields) <$>
          update? dotted f path .header last

/-- The keys on the way, and the last. -/
def splitKey? (key : List String) : Option (List String × String) :=
  key.getLast?.map (key.dropLast, ·)

/-- Gives a value to a key in a table. A dotted key can only add to a table that came about by
dotted keys. -/
def assign? (key : List String) (value : Document) (fields : Fields) : Option Fields := do
  let (path, last) ← splitKey? key
  let add (origin : Origin) (fields : Fields) : Option Fields :=
    if (origin == .dotted) == path.isEmpty then none
    else if (fields.lookup last).isSome then none
    else some (fields ++ [(last, .value value)])
  update? true add path .header fields

/-- Defines the table with the header. -/
def defineTable? (header : List String) (fields : Fields) : Option Fields := do
  let (path, last) ← splitKey? header
  let define (_ : Origin) (fields : Fields) : Option Fields :=
    match fields.lookup last with
    | none => some (fields ++ [(last, .table .header [])])
    | some (.table .implied inner) => some (Fields.put last (.table .header inner) fields)
    | some _ => none
  update? false define path .header fields

/-- Adds a table to the array of tables with the header. -/
def addTable? (header : List String) (fields : Fields) : Option Fields := do
  let (path, last) ← splitKey? header
  let add (_ : Origin) (fields : Fields) : Option Fields :=
    match fields.lookup last with
    | none => some (fields ++ [(last, .tables [[]])])
    | some (.tables elements) => some (Fields.put last (.tables (elements ++ [[]])) fields)
    | some _ => none
  update? false add path .header fields

mutual

/-- An item as a document. -/
def Item.toDocument : Item → Document
  | .value d => d
  | .table _ fields => .mapping (fieldDocuments fields)
  | .tables elements => .list (elementDocuments elements)

/-- The items of a table as documents. -/
def fieldDocuments : List (String × Item) → List (String × Document)
  | [] => []
  | (key, item) :: rest => (key, item.toDocument) :: fieldDocuments rest

/-- The tables of an array as documents. -/
def elementDocuments : List (List (String × Item)) → List Document
  | [] => []
  | fields :: rest => .mapping (fieldDocuments fields) :: elementDocuments rest

end

end ConventionalRelease.Toml
