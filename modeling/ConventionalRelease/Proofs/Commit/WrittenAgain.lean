import ConventionalRelease.Proofs.Commit.Completion
import ConventionalRelease.Proofs.Commit.LineScan

/-!
# Footers written again

A written footer is read back by the rule of its own style, and what was read may be written again.
A value without a number sign is read as it was written, so its line stays the same. With a number
sign the value is read with the sign, and the prefix is looked for in front of it: a prefix that
does not begin with the sign is not found and put there once more (`FooterStyle.written_value_iff`).
Besides, a line without a value may be taken for the line of a synonym
(`FooterStyle.line_eq_line_iff`).
-/

namespace ConventionalRelease

namespace FooterStyle

variable {style : FooterStyle} {issue value : String}

/-! ## What is written -/

/-- The issue behind its prefix begins with the prefix. -/
theorem valuePrefix_withPrefix (style : FooterStyle) (issue : String) :
    style.valuePrefix.toList <+: (style.withPrefix issue).toList := by
  rw [withPrefix]
  split
  · next h => exact List.isPrefixOf_iff_prefix.1 h
  · rw [String.toList_append]
    exact List.prefix_append _ _

/-- An issue with the prefix gets no other. -/
theorem withPrefix_of_begins (h : style.valuePrefix.toList <+: issue.toList) :
    style.withPrefix issue = issue := by
  rw [withPrefix, if_pos (List.isPrefixOf_iff_prefix.2 h)]

/-- An issue without the prefix gets it. -/
theorem withPrefix_of_not_begins (h : ¬ style.valuePrefix.toList <+: issue.toList) :
    style.withPrefix issue = style.valuePrefix ++ issue := by
  rw [withPrefix, if_neg fun hbegin => h (List.isPrefixOf_iff_prefix.1 hbegin)]

theorem withPrefix_eq_empty_iff :
    style.withPrefix issue = "" ↔ style.valuePrefix = "" ∧ issue = "" := by
  by_cases h : style.valuePrefix.toList <+: issue.toList
  · rw [withPrefix_of_begins h]
    constructor
    · rintro rfl
      exact ⟨String.toList_inj.1 (List.prefix_nil.1 h), rfl⟩
    · exact And.right
  · rw [withPrefix_of_not_begins h, String.append_eq_empty_iff]

/-- What is not in the prefix and not in the issue is not written. -/
theorem not_mem_written {c : Char} (hfront : c ∉ style.valuePrefix.toList)
    (hissue : c ∉ issue.toList) :
    c ∉ style.written issue := by
  have hvalue : c ∉ (style.withPrefix issue).toList := by
    rw [withPrefix]
    split
    · exact hissue
    · rw [String.toList_append, List.mem_append, not_or]
      exact ⟨hfront, hissue⟩
  unfold written
  split
  · next digits hdigits =>
    rw [hdigits] at hvalue
    exact fun h => hvalue (List.mem_cons_of_mem _ h)
  · exact hvalue

theorem written_of_colon (h : style.useHash = false) (issue : String) :
    style.written issue = (style.withPrefix issue).toList := by
  unfold written
  rw [h]

/-- The number sign of an issue is not written twice. -/
theorem written_of_sign (h : style.useHash = true) {digits : List Char}
    (hsign : (style.withPrefix issue).toList = '#' :: digits) : style.written issue = digits := by
  unfold written
  rw [h, hsign]
  rfl

/-- An issue without a number sign is written as it is. -/
theorem written_of_not_sign (hsign : (style.withPrefix issue).toList.head? ≠ some '#') :
    style.written issue = (style.withPrefix issue).toList := by
  unfold written
  split
  · next digits hdigits => simp [hdigits] at hsign
  · rfl

/-- Two lines of a style are the same if the same is written behind the key. -/
theorem line_eq_line :
    style.line value = style.line issue ↔ style.written value = style.written issue := by
  rw [← String.toList_inj, toList_line, toList_line, List.append_cancel_left_eq]

/-! ## What is read and written again -/

/-- Whether the prefix of a style is found in front of a value that is read with its number sign. -/
def KeepsSign (style : FooterStyle) : Prop :=
  style.valuePrefix = "" ∨ style.valuePrefix.toList.head? = some '#'

instance (style : FooterStyle) : Decidable style.KeepsSign :=
  inferInstanceAs (Decidable (_ ∨ _))

/-- Behind a prefix that is not found there, no text begins with the number sign. -/
theorem head?_ne_of_not_keepsSign (h : ¬ style.KeepsSign) (text : List Char) :
    (style.valuePrefix.toList ++ text).head? ≠ some '#' := by
  rw [KeepsSign, not_or] at h
  have hne : style.valuePrefix.toList ≠ [] := fun hnil => h.1 (String.toList_inj.1 hnil)
  rw [List.head?_append_of_ne_nil _ hne]
  exact h.2

/-- A prefix that does not begin with the number sign is put in front of it. -/
theorem written_value_of_not_keepsSign (hhash : style.useHash = true) (h : ¬ style.KeepsSign)
    (issue : String) :
    style.written (style.value issue) = style.valuePrefix.toList ++ (style.value issue).toList := by
  have hbegin : ¬ style.valuePrefix.toList <+: (style.value issue).toList := by
    rintro ⟨text, htext⟩
    refine head?_ne_of_not_keepsSign h text ?_
    rw [htext, FooterStyle.value, String.toList_ofList, hhash]
    rfl
  have hsign : (style.withPrefix (style.value issue)).toList.head? ≠ some '#' := by
    rw [withPrefix_of_not_begins hbegin, String.toList_append]
    exact head?_ne_of_not_keepsSign h _
  rw [written_of_not_sign hsign, withPrefix_of_not_begins hbegin, String.toList_append]

/-- With a number sign, what was read is written as before exactly if the prefix can be found in
front of the sign. -/
theorem written_value_iff (hhash : style.useHash = true) :
    style.written (style.value issue) = style.written issue ↔ style.KeepsSign := by
  have hvalue : (style.value issue).toList = '#' :: style.written issue := by
    rw [FooterStyle.value, String.toList_ofList, hhash]
    rfl
  constructor
  · intro hsame
    by_contra hnot
    have hlength := congrArg List.length hsame
    rw [written_value_of_not_keepsSign hhash hnot, hvalue, List.length_append,
      List.length_cons] at hlength
    omega
  · rintro (hfront | hhead)
    · have hbegin : style.valuePrefix.toList <+: (style.value issue).toList := by
        rw [hfront]
        exact List.nil_prefix
      exact written_of_sign hhash (by rw [withPrefix_of_begins hbegin, hvalue])
    · have hbegin := valuePrefix_withPrefix style issue
      obtain ⟨rest, hrest⟩ := List.head?_eq_some_iff.1 hhead
      obtain ⟨digits, hdigits⟩ : ∃ digits, (style.withPrefix issue).toList = '#' :: digits := by
        obtain ⟨more, hmore⟩ := hbegin
        exact ⟨rest ++ more, by rw [← hmore, hrest]; rfl⟩
      have hsame : (style.value issue).toList = (style.withPrefix issue).toList := by
        rw [hvalue, hdigits, written_of_sign hhash hdigits]
      rw [← hsame] at hbegin
      exact written_of_sign hhash (by rw [withPrefix_of_begins hbegin, hvalue])

/-- Without a number sign, what was read is written as before. -/
theorem written_value_of_colon (h : style.useHash = false) (issue : String) :
    style.written (style.value issue) = style.written issue := by
  have hvalue : style.value issue = style.withPrefix issue := by
    rw [FooterStyle.value, written_of_colon h, h]
    exact String.ofList_toList
  rw [written_of_colon h, written_of_colon h, hvalue,
    withPrefix_of_begins (valuePrefix_withPrefix style issue)]

/-! ## What the rule of the style reads -/

/-- Whether the lead of another key begins the line of a footer without a value. -/
def OtherKeyBegins (style : FooterStyle) (synonym : String) : Prop :=
  synonym ≠ style.key ∧ (synonym ++ ": ").toList <+: (style.key ++ ": ").toList

/-- A single line says what stands behind the key. -/
theorem scanKey?_line {line : String} (h : '\n' ∉ line.toList) (key : String) (useHash : Bool) :
    scanKey? key useHash line = (valueOnLine? key useHash line.toList).bind fun value =>
      if value = [] then none else some (String.ofList value) := by
  rw [scanKey?, Text.splitAt_of_not_mem h, List.findSome?_singleton]

/-- Behind the written key stands the written value. -/
theorem valueOnLine?_line (style : FooterStyle) (issue : String) :
    valueOnLine? style.key style.useHash (style.line issue).toList =
      some (style.value issue).toList := by
  rw [valueOnLine?_eq, toList_line, Text.after?_append, FooterStyle.value, String.toList_ofList]
  rfl

/-- What is found is not empty. -/
theorem ne_empty_of_scan? {text : String} (h : style.scan? text = some value) : value ≠ "" := by
  obtain ⟨key, -, hkey⟩ := List.exists_of_findSome?_eq_some h
  obtain ⟨s, -, hs⟩ := Option.bind_eq_some_iff.1 hkey
  split at hs
  · cases hs
  · next hne =>
    cases hs
    exact fun hempty => hne (String.ofList_inj.1 (hempty.trans rfl))

/-- Nothing is written only without a number sign, a prefix and an issue. -/
theorem value_eq_empty_iff :
    style.value issue = "" ↔ style.useHash = false ∧ style.withPrefix issue = "" := by
  have hempty : style.value issue = "" ↔ footerMark style.useHash ++ style.written issue = [] := by
    rw [FooterStyle.value, ← String.ofList_inj]
  rw [hempty]
  cases hhash : style.useHash with
  | true => simp [footerMark]
  | false =>
    rw [written_of_colon hhash, ← String.toList_inj, eq_self, true_and]
    rfl

/-- On the line of a footer without a value another key finds something exactly if it begins the
line. -/
theorem scanKey?_emptyLine_eq_none_iff (hkey : '\n' ∉ style.key.toList) (synonym : String) :
    scanKey? synonym false (style.key ++ ": ") = none ↔ ¬ style.OtherKeyBegins synonym := by
  have hline : '\n' ∉ (style.key ++ ": ").toList := by simp [hkey]
  rw [scanKey?_line hline, valueOnLine?, if_neg Bool.false_ne_true, OtherKeyBegins]
  by_cases hbegin : (synonym ++ ": ").toList <+: (style.key ++ ": ").toList
  · obtain ⟨rest, hrest⟩ := hbegin
    rw [← hrest, Text.after?_append, Option.bind_some]
    have hsame : rest = [] ↔ synonym = style.key := by
      constructor
      · rintro rfl
        rw [List.append_nil, String.toList_append, String.toList_append] at hrest
        exact String.toList_inj.1 (List.append_cancel_right hrest)
      · rintro rfl
        exact List.append_right_eq_self.1 hrest
    simp [hsame]
  · have hnone : Text.after? (synonym ++ ": ").toList (style.key ++ ": ").toList = none := by
      rw [Text.after?, if_neg fun h => hbegin (List.isPrefixOf_iff_prefix.1 h)]
    rw [hnone]
    exact iff_of_true rfl fun h => hbegin h.2

/-- Where nothing was written, nothing is read unless another key begins the line. -/
theorem scan?_line_eq_none_iff (hkey : '\n' ∉ style.key.toList) (hvalue : style.value issue = "") :
    style.scan? (style.line issue) = none ↔
      ∀ synonym ∈ style.synonyms, ¬ style.OtherKeyBegins synonym := by
  obtain ⟨hcolon, hempty⟩ := value_eq_empty_iff.1 hvalue
  have hline : style.line issue = style.key ++ ": " := by
    rw [← String.toList_inj, toList_line, written_of_colon hcolon, hempty, hcolon]
    simp [footerLead, footerSeparator, footerMark]
  have hself : scanKey? style.key false (style.key ++ ": ") = none :=
    (scanKey?_emptyLine_eq_none_iff hkey style.key).2 fun h => h.1 rfl
  rw [scan?, hline, hcolon, List.findSome?_cons, hself, List.findSome?_eq_none_iff]
  exact forall₂_congr fun synonym _ => scanKey?_emptyLine_eq_none_iff hkey synonym

section
variable (hkey : '\n' ∉ style.key.toList) (hfront : '\n' ∉ style.valuePrefix.toList)
  (hissue : '\n' ∉ issue.toList)

include hkey hfront hissue

/-- A footer is written on one line. -/
theorem not_mem_line : '\n' ∉ (style.line issue).toList := by
  rw [toList_line, List.mem_append, not_or]
  exact ⟨not_mem_footerLead hkey (by decide) (by decide) (by decide), not_mem_written hfront hissue⟩

/-- What was written is read, unless it is nothing. -/
theorem scan?_line (hvalue : style.value issue ≠ "") :
    style.scan? (style.line issue) = some (style.value issue) := by
  have hne : (style.value issue).toList ≠ [] := fun hnil => hvalue (String.toList_inj.1 hnil)
  have hfound : scanKey? style.key style.useHash (style.line issue) = some (style.value issue) := by
    rw [scanKey?_line (not_mem_line hkey hfront hissue), valueOnLine?_line,
      Option.bind_some, if_neg hne, String.ofList_toList]
  rw [scan?, List.findSome?_cons, hfound]

/-- What is read on a written line and written again gives the same line, provided the prefix can be
found in front of a number sign, and no other key begins a line without a value. -/
theorem line_eq_line_of_scan?_iff :
    (∀ value, style.scan? (style.line issue) = some value → style.line value = style.line issue) ↔
      (style.useHash = true → style.KeepsSign) ∧
        (style.useHash = false → style.withPrefix issue = "" →
          ∀ synonym ∈ style.synonyms, ¬ style.OtherKeyBegins synonym) := by
  by_cases hvalue : style.value issue = ""
  · obtain ⟨hcolon, hempty⟩ := value_eq_empty_iff.1 hvalue
    have hlaw : (∀ value, style.scan? (style.line issue) = some value →
        style.line value = style.line issue) ↔
        style.scan? (style.line issue) = none := by
      refine ⟨fun h => Option.eq_none_iff_forall_ne_some.2 fun value hfound => ?_,
        fun h value hfound => ?_⟩
      · have hsame := line_eq_line.1 (h value hfound)
        rw [written_of_colon hcolon, written_of_colon hcolon, String.toList_inj, hempty] at hsame
        exact ne_empty_of_scan? hfound (withPrefix_eq_empty_iff.1 hsame).2
      · rw [h] at hfound
        cases hfound
    rw [hlaw, scan?_line_eq_none_iff hkey hvalue, hcolon]
    exact ⟨fun h => ⟨nofun, fun _ _ => h⟩, fun h => h.2 rfl hempty⟩
  · have hlaw : (∀ value, style.scan? (style.line issue) = some value →
        style.line value = style.line issue) ↔
        style.written (style.value issue) = style.written issue := by
      rw [scan?_line hkey hfront hissue hvalue, ← line_eq_line]
      exact ⟨fun h => h _ rfl, fun h value hfound => Option.some.inj hfound ▸ h⟩
    rw [hlaw]
    cases hhash : style.useHash with
    | true => exact (written_value_iff hhash).trans ⟨fun h => ⟨fun _ => h, nofun⟩, fun h => h.1 rfl⟩
    | false =>
      refine iff_of_true (written_value_of_colon hhash issue) ⟨nofun, fun _ hempty => ?_⟩
      exact absurd (value_eq_empty_iff.2 ⟨hhash, hempty⟩) hvalue

end

/-- A prefix that does not begin with the number sign is on the line twice. -/
theorem line_value_of_not_keepsSign (hhash : style.useHash = true) (h : ¬ style.KeepsSign) :
    style.line (style.value issue) = style.key ++ " #" ++ style.valuePrefix ++ "#" ++
      style.withPrefix issue := by
  have hsign : (style.withPrefix issue).toList.head? ≠ some '#' := by
    obtain ⟨text, htext⟩ := valuePrefix_withPrefix style issue
    rw [← htext]
    exact head?_ne_of_not_keepsSign h text
  rw [← String.toList_inj, toList_line, written_value_of_not_keepsSign hhash h, FooterStyle.value,
    String.toList_ofList, written_of_not_sign hsign, hhash]
  simp [footerLead, footerSeparator, footerMark]

/-- The rule of a style reads on a written line what was written, if there was anything. Written
again, what was read gives the same line exactly if, with a number sign, the prefix is empty or
begins with the sign, and if, where nothing was written, no other key begins the line. A prefix that
does not begin with the sign is on the line twice. -/
theorem line_of_value?_iff (hkeys : ∀ key ∈ style.key :: style.synonyms, '\n' ∉ key.toList)
    (hfront : '\n' ∉ style.valuePrefix.toList) (hissue : '\n' ∉ issue.toList) (name : String) :
    ∃ reader, FooterReader.ofStyle name style = .ok reader ∧
      (style.value issue ≠ "" → reader.value? (style.line issue) = some (style.value issue)) ∧
      ((∀ value, reader.value? (style.line issue) = some value →
        style.line value = style.line issue) ↔
        (style.useHash = true → style.KeepsSign) ∧
          (style.useHash = false → style.withPrefix issue = "" →
            ∀ synonym ∈ style.synonyms, ¬ style.OtherKeyBegins synonym)) ∧
      (style.useHash = true → ¬ style.KeepsSign →
        reader.value? (style.line issue) = some (style.value issue) ∧
        style.line (style.value issue) =
          style.key ++ " #" ++ style.valuePrefix ++ "#" ++ style.withPrefix issue) := by
  obtain ⟨reader, hreader⟩ := FooterReader.ofStyle_eq_ok name style
  obtain ⟨-, hvalue⟩ := FooterReader.of_ofStyle hreader
  have hkey : '\n' ∉ style.key.toList := hkeys _ List.mem_cons_self
  have hscan : ∀ text, reader.value? text = style.scan? text :=
    fun text => by rw [hvalue, valueIn?_eq_scan? hkeys]
  refine ⟨reader, hreader, ?_, ?_, fun hhash hnot => ⟨?_, line_value_of_not_keepsSign hhash hnot⟩⟩
  · rw [hscan]
    exact scan?_line hkey hfront hissue
  · rw [hscan]
    exact line_eq_line_of_scan?_iff hkey hfront hissue
  · rw [hscan]
    refine scan?_line hkey hfront hissue fun hempty => ?_
    rw [(value_eq_empty_iff.1 hempty).1] at hhash
    cases hhash

/-- A prefix behind a number sign stays as it is when the footer is read and written again. -/
theorem line_of_value?_signed :
    ∃ reader, FooterReader.ofStyle "issue"
      { key := "Refs", useHash := true, valuePrefix := "#ABC-" } = .ok reader ∧
      reader.value? "Refs #ABC-7" = some "#ABC-7" ∧
      line { key := "Refs", useHash := true, valuePrefix := "#ABC-" } "#ABC-7" = "Refs #ABC-7" := by
  obtain ⟨reader, hreader, hvalue, hsame, -⟩ :=
    @line_of_value?_iff { key := "Refs", useHash := true, valuePrefix := "#ABC-" } "7" (by decide)
      (by decide) (by decide)
      "issue"
  have hfound : reader.value? "Refs #ABC-7" = some "#ABC-7" := hvalue (by decide)
  exact ⟨reader, hreader, hfound, hsame.2 ⟨fun _ => by decide, nofun⟩ _ hfound⟩

/-- A prefix without a number sign is put in front of the sign when the footer is read and written
again. -/
theorem line_of_value?_unsigned :
    ∃ reader, FooterReader.ofStyle "issue"
      { key := "Refs", useHash := true, valuePrefix := "ABC-" } = .ok reader ∧
      line { key := "Refs", useHash := true, valuePrefix := "ABC-" } "7" = "Refs #ABC-7" ∧
      reader.value? "Refs #ABC-7" = some "#ABC-7" ∧
      line { key := "Refs", useHash := true, valuePrefix := "ABC-" } "#ABC-7" =
        "Refs #ABC-#ABC-7" := by
  obtain ⟨reader, hreader⟩ :=
    FooterReader.ofStyle_eq_ok "issue" { key := "Refs", useHash := true, valuePrefix := "ABC-" }
  obtain ⟨-, hvalue⟩ := FooterReader.of_ofStyle hreader
  refine ⟨reader, hreader, by decide, ?_, by decide⟩
  rw [hvalue, valueIn?_eq_scan? (by decide)]
  decide

end FooterStyle

end ConventionalRelease
