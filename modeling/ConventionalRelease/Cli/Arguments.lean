/-!
# Arguments of a command

An option has a name, which stands after two hyphens, and may have a letter, which stands after one.
Letters can share a hyphen. The value of an option follows it in the next argument, or in the same
one: after an equals sign, or right after the letter. An argument that starts with a hyphen is never
the value of the option before it.
-/

namespace ConventionalRelease.Cli

/-- An option that can be given. -/
structure OptionRule where
  name : String
  letter : Option Char := none
  /-- Whether the option has a value. -/
  takesValue : Bool := true
  deriving DecidableEq, Repr, Inhabited

/-- An option that was given. -/
structure GivenOption where
  name : String
  /-- The value; empty for an option that has none. -/
  value : String := ""
  deriving DecidableEq, Repr, Inhabited

/-- What one argument gives. -/
structure Piece where
  /-- The options that are complete. -/
  given : List GivenOption
  /-- The name of the option whose value has to be the next argument. -/
  pending : Option String := none
  deriving DecidableEq, Repr, Inhabited

/-- Whether an argument is read as options. -/
def isOptions (arg : String) : Bool :=
  arg.toList.head? = some '-' && arg ≠ "-"

/-- Reads what stands after two hyphens. -/
def readName? (rules : List OptionRule) (s : List Char) : Option Piece := do
  let name := String.ofList (s.takeWhile (· ≠ '='))
  let rule ← rules.find? (·.name = name)
  match rule.takesValue, s.dropWhile (· ≠ '=') with
  | false, [] => some { given := [{ name }] }
  | false, _ :: _ => none
  | true, [] => some { given := [], pending := name }
  | true, _ :: value => some { given := [{ name, value := String.ofList value }] }

/-- Reads what stands after one hyphen. -/
def readLetters? (rules : List OptionRule) : List Char → Option Piece
  | [] => some { given := [] }
  | c :: rest =>
    match rules.find? (·.letter = some c) with
    | none => none
    | some rule =>
      if rule.takesValue then
        match rest with
        | [] => some { given := [], pending := rule.name }
        | '=' :: value => some { given := [{ name := rule.name, value := String.ofList value }] }
        | value => some { given := [{ name := rule.name, value := String.ofList value }] }
      else
        (readLetters? rules rest).map fun piece =>
          { piece with given := { name := rule.name } :: piece.given }

/-- Reads an argument as options. -/
def readPiece? (rules : List OptionRule) (arg : String) : Option Piece :=
  match arg.toList with
  | '-' :: '-' :: rest => readName? rules rest
  | '-' :: rest => readLetters? rules rest
  | _ => none

/-- Reads options up to the first argument that is none, and leaves the arguments from there on.
Nothing may follow two hyphens on their own. -/
def readOptions? (rules : List OptionRule) : List String → Option (List GivenOption × List String)
  | [] => some ([], [])
  | arg :: rest =>
    if arg = "--" then if rest.isEmpty then some ([], []) else none
    else if isOptions arg then
      match readPiece? rules arg, rest with
      | none, _ => none
      | some { given, pending := none }, rest =>
        (readOptions? rules rest).map fun (more, rest) => (given ++ more, rest)
      | some { pending := some _, .. }, [] => none
      | some { given, pending := some name }, value :: rest =>
        if isOptions value then none
        else (readOptions? rules rest).map fun (more, rest) =>
          (given ++ { name, value } :: more, rest)
    else some ([], arg :: rest)

/-- Reads options, none of which may be given twice. -/
def readLevel? (rules : List OptionRule) (args : List String) :
    Option (List GivenOption × List String) :=
  (readOptions? rules args).filter fun (given, _) => (given.map (·.name)).Nodup

/-- The value of an option that was given. -/
def value? (given : List GivenOption) (name : String) : Option String :=
  (given.find? (·.name = name)).map (·.value)

/-- Whether an option was given. -/
def isGiven (given : List GivenOption) (name : String) : Bool :=
  given.any (·.name = name)

end ConventionalRelease.Cli
