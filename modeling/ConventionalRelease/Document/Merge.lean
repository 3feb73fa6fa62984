import ConventionalRelease.Document.Basic

/-!
# Layers of documents

A layer changes the document below it: where both hold mappings the change is made key by key, a
`null` leaves what is below as it is, and anything else takes its place. A key that only the layer
holds is taken over with its value as it stands, unless the value is `null`.
-/

namespace ConventionalRelease.Document

/-- Appends the entries of a layer whose keys are not there yet and whose values are not `null`. -/
def adopt (fields : List (String × Document)) : List (String × Document) → List (String × Document)
  | [] => fields
  | (key, value) :: rest =>
    if value.isNull || (fields.lookup key).isSome then adopt fields rest
    else adopt (fields ++ [(key, value)]) rest

mutual

/-- The document with a layer put over it. -/
def merge : Document → Document → Document
  | base, null => base
  | mapping fields, mapping layer => mapping (adopt (mergeFields fields layer) layer)
  | _, layer => layer

/-- The entries of a mapping, each merged with what a layer holds under its key. -/
def mergeFields : List (String × Document) → List (String × Document) → List (String × Document)
  | [], _ => []
  | (key, value) :: rest, layer =>
    let merged := match layer.lookup key with
      | some change => merge value change
      | none => value
    (key, merged) :: mergeFields rest layer

end

/-- The document with layers put over it, the last on top. -/
def mergeAll (base : Document) (layers : List Document) : Document :=
  layers.foldl merge base

end ConventionalRelease.Document
