import ConventionalRelease.Config.Error

/-!
# Errors of a commit message
-/

namespace ConventionalRelease

/-- Why a commit message cannot be read, or is refused. -/
inductive MessageError where
  /-- The header selector finds no header in the subject. -/
  | noHeader (subject : String)
  /-- The branch name carries no issue id. -/
  | noIssue (branch : String)
  /-- The header of the subject does not have the form it must have. -/
  | invalidSubject (found : String)
  /-- The type is not among those allowed. -/
  | unknownType (found : String) (allowed : List String)
  /-- The scope is not among those allowed. -/
  | scopeNotAllowed (found : String) (allowed : List String)
  /-- The description does not start with a small letter. -/
  | invalidDescription (found : String)
  deriving DecidableEq, Repr, Inhabited

/-- The message of an error. -/
def MessageError.message : MessageError → String
  | noHeader subject =>
    "invalid regex on header-selector: could not find group header in match result for '" ++
      subject ++ "'"
  | noIssue branch =>
    "could not find issue id using configured regex on branch '" ++ branch ++ "'"
  | invalidSubject found => "commit message not valid: subject [" ++ found ++ "] not valid"
  | unknownType _ allowed =>
    "commit message not valid: type must be one of [" ++ ", ".intercalate allowed ++ "]"
  | scopeNotAllowed _ allowed =>
    "commit message not valid: scope must be one of [" ++ ", ".intercalate allowed ++ "]"
  | invalidDescription found =>
    "commit message not valid: description [" ++ found ++ "] must start with lowercase"

end ConventionalRelease
