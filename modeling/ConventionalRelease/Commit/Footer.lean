import ConventionalRelease.Config.Validation

/-!
# Footers

A footer is a line of a message with a key, a colon and a space, and a value; or with a key, a
space, and a value that starts with a number sign. Footers are found by a pattern made of the key.
Only the first line with a key counts, and an empty value counts as none.
-/

namespace ConventionalRelease

/-- The key of the footer that describes a change that breaks something. -/
def breakingKey : String := "BREAKING CHANGE"

/-- The pattern of a footer's line, its value as the first group. -/
def footerPattern (key : String) (useHash : Bool) : String :=
  let rest := if useHash then " (#.*)$" else ": (.*)$"
  "(?m)^" ++ String.ofList (Regex.escape key.toList) ++ rest

/-- The pattern of a footer's line whose value is not empty. -/
def presentPattern (key : String) (useHash : Bool) : String :=
  let rest := if useHash then " #.+$" else ": .+$"
  "(?m)^" ++ String.ofList (Regex.escape key.toList) ++ rest

/-- The value of the first line that a footer's pattern finds, unless it is empty. -/
def footerValue? (p : Pattern) (text : String) : Option String := do
  let found ← p.search text.toList
  let value ← found.group? 1
  if value.isEmpty then none else some (String.ofList value)

/-- The value of the first line with the key, unless it is empty. -/
def footer? (key : String) (useHash : Bool) (text : String) : Option String :=
  match Pattern.parse (footerPattern key useHash).toList with
  | .ok p => footerValue? p text
  | .error _ => none

/-- A footer to look for: the name its value is kept under, and the patterns of its keys in
order. -/
structure FooterReader where
  /-- The name the value is kept under. -/
  name : String
  /-- The pattern of each key, the written key first. -/
  patterns : List Pattern
  deriving DecidableEq, Repr, Inhabited

namespace FooterReader

/-- The reader for a footer of a style. -/
def ofStyle (name : String) (style : FooterStyle) : Except ConfigError FooterReader := do
  let patterns ← style.keys.mapM fun key =>
    Pattern.ofField ("commit-message.footer." ++ name) (footerPattern key style.useHash)
  return { name, patterns }

/-- The value under the first key that has one. -/
def value? (reader : FooterReader) (text : String) : Option String :=
  reader.patterns.findSome? (footerValue? · text)

end FooterReader

/-- The footer line that refers to an issue, with the prefix that its value has to have. -/
def FooterStyle.line (style : FooterStyle) (issue : String) : String :=
  let value := if style.valuePrefix.toList.isPrefixOf issue.toList then issue
    else style.valuePrefix ++ issue
  if style.useHash then
    match value.toList with
    | '#' :: digits => style.key ++ " #" ++ String.ofList digits
    | _ => style.key ++ " #" ++ value
  else
    style.key ++ ": " ++ value

/-- The issue footer: how it is written, and how a message that has it is told. -/
structure IssueFooter where
  /-- How it is written. -/
  style : FooterStyle
  /-- The pattern of a line with the written key and a value. -/
  present : Pattern
  deriving DecidableEq, Repr, Inhabited

namespace IssueFooter

/-- The issue footer of a style. -/
def ofStyle (style : FooterStyle) : Except ConfigError IssueFooter := do
  let present ← Pattern.ofField ("commit-message.footer." ++ issueName)
    (presentPattern style.key style.useHash)
  return { style, present }

/-- Whether a message has the footer already, under its written key. -/
def isPresent (footer : IssueFooter) (message : String) : Bool :=
  footer.present.matchesIn message.toList

/-- The line that refers to an issue. -/
def line (footer : IssueFooter) (issue : String) : String :=
  footer.style.line issue

end IssueFooter

/-- Whether a character may stand in the key of a footer. -/
def isKeyChar (c : Char) : Bool :=
  c.isAlpha || c == '-'

/-- Whether a line looks like a footer, whatever its key. -/
def isFooterLine (line : List Char) : Bool :=
  let rest := line.dropWhile isKeyChar
  (rest.length < line.length && (": ".toList.isPrefixOf rest || " #".toList.isPrefixOf rest)) ||
    (breakingKey ++ ": ").toList.isPrefixOf line

/-- Whether some line after the first looks like a footer. -/
def hasFooter (message : String) : Bool :=
  (Text.lines message.toList).tail.any isFooterLine

end ConventionalRelease
