import ConventionalRelease.Proofs.Commit.FooterLines

/-!
# Footers found by scanning lines

A footer can be looked for without a pattern: the text is cut at its line feeds, and the first line
that begins with the key and its separator has the value (`scanKey?`). Where the key is on one line,
this is what the pattern of the key finds, whatever characters the key is made of
(`footerIn?_eq_scanKey?`); so a reader of footers scans for its keys one after the other
(`FooterReader.value?_eq_scan?`).
-/

namespace ConventionalRelease

/-- What a line says under a key: what stands behind the key, a colon and a space; in the other
style, what stands behind the key and a space, from a number sign on. -/
def valueOnLine? (key : String) (useHash : Bool) (line : List Char) : Option (List Char) :=
  if useHash then (Text.after? (key ++ " #").toList line).map ('#' :: ·)
  else Text.after? (key ++ ": ").toList line

/-- What the first line with the key says, unless that is nothing. -/
def scanKey? (key : String) (useHash : Bool) (text : String) : Option String :=
  ((Text.splitAt '\n' text.toList).findSome? (valueOnLine? key useHash)).bind fun value =>
    if value = [] then none else some (String.ofList value)

/-- What is found under the first key of a style that has a value. -/
def FooterStyle.scan? (style : FooterStyle) (text : String) : Option String :=
  (style.key :: style.synonyms).findSome? (scanKey? · style.useHash text)

/-- A line says under a key what follows the lead of the footer, behind its mark. -/
theorem valueOnLine?_eq (key : String) (useHash : Bool) (line : List Char) :
    valueOnLine? key useHash line =
      (Text.after? (footerLead key useHash) line).map (footerMark useHash ++ ·) := by
  cases useHash with
  | true => simp [valueOnLine?, footerLead, footerSeparator, footerMark]
  | false => simp [valueOnLine?, footerLead, footerSeparator, footerMark]

/-- The lines say under a key what the first of them that begins with its lead says. -/
theorem findSome?_valueOnLine? (key : String) (useHash : Bool) (lines : List (List Char)) :
    lines.findSome? (valueOnLine? key useHash) =
      (lines.findSome? (Text.after? (footerLead key useHash))).map (footerMark useHash ++ ·) := by
  rw [List.map_findSome?]
  exact congrArg (lines.findSome? ·) (funext (valueOnLine?_eq key useHash))

/-- The pattern of a key on one line finds what scanning the lines finds. -/
theorem footerIn?_eq_scanKey? {key : String} (h : '\n' ∉ key.toList) (useHash : Bool)
    (text : String) :
    footerIn? key useHash text.toList = scanKey? key useHash text := by
  have hlead : '\n' ∉ footerLead key useHash :=
    not_mem_footerLead h (by decide) (by decide) (by decide)
  have hlines : ∀ line ∈ Text.splitAt '\n' text.toList, '\n' ∉ line :=
    fun _ => Text.not_mem_of_mem_splitAt
  have hfirst := Text.lineAfter?_join hlead (footerLead_ne_nil key useHash) hlines
  rw [Text.join_splitAt] at hfirst
  rw [footerIn?, scanKey?, findSome?_valueOnLine?, hfirst, Option.bind_map]
  simp only [List.isEmpty_iff, Option.bind_eq_bind, Function.comp_def]

/-- Where every key of a style is on one line, the values of its footers are those that scanning the
lines finds. -/
theorem FooterStyle.valueIn?_eq_scan? {style : FooterStyle}
    (h : ∀ key ∈ style.key :: style.synonyms, '\n' ∉ key.toList) (text : String) :
    style.valueIn? text.toList = style.scan? text := by
  have hkeys : style.keys.filterMap (footerIn? · style.useHash text.toList) =
      style.keys.filterMap (scanKey? · style.useHash text) :=
    List.filterMap_congr fun key hkey => footerIn?_eq_scanKey? (h key hkey) style.useHash text
  rw [valueIn?, ← List.head?_filterMap, hkeys, List.head?_filterMap]
  rfl

/-- Where every key is on one line, a style has a reader, and the reader finds what scanning the
lines finds, key after key. A single key on one line is looked for in the same way. -/
theorem FooterReader.value?_eq_scan? {style : FooterStyle}
    (h : ∀ key ∈ style.key :: style.synonyms, '\n' ∉ key.toList) (name : String) :
    (∃ reader, ofStyle name style = .ok reader ∧ reader.name = name ∧
      ∀ text, reader.value? text = style.scan? text) ∧
      ∀ key : String, '\n' ∉ key.toList → ∀ useHash text,
        footer? key useHash text = scanKey? key useHash text := by
  constructor
  · obtain ⟨reader, hreader⟩ := ofStyle_eq_ok name style
    obtain ⟨hname, hvalue⟩ := of_ofStyle hreader
    exact ⟨reader, hreader, hname,
      fun text => (hvalue text).trans (FooterStyle.valueIn?_eq_scan? h text)⟩
  · intro key hkey useHash text
    rw [footer?_eq, footerIn?_eq_scanKey? hkey]

/-- A key may be made of characters that patterns give a meaning, and a carriage return ends no
line. -/
theorem FooterReader.value?_eq_scan?_metacharacters :
    ∃ reader, ofStyle "issue" { key := "C++ (see|fix)*", synonyms := ["^refs$"] } = .ok reader ∧
      reader.value? "C++ see: 1\nC++ (see|fix)*: \n^refs$: 2\r^refs$: 3" = some "2\r^refs$: 3" := by
  obtain ⟨⟨reader, hreader, -, hvalue⟩, -⟩ :=
    @value?_eq_scan? { key := "C++ (see|fix)*", synonyms := ["^refs$"] } (by decide) "issue"
  exact ⟨reader, hreader, (hvalue _).trans (by decide)⟩

end ConventionalRelease
