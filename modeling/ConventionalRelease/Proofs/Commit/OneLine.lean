import ConventionalRelease.Proofs.Commit.Check
import ConventionalRelease.Proofs.Commit.FooterLines
import ConventionalRelease.Proofs.Commit.ReadBack

/-!
# Messages on one line

A header is cut into parts (`Convention.mem_of_ofHeader`), and a footer says what stands on its line
(`not_mem_of_footerIn?`). So whatever the body, all that is read off a subject on one line is on one
line, the body aside (`Convention.isOneLine_of_parse`).
-/

namespace ConventionalRelease

/-- All that a message says is on one line, the body aside. -/
structure CommitMessage.IsOneLine (m : CommitMessage) : Prop where
  type : '\n' ∉ m.type.toList
  scope : '\n' ∉ m.scope.toList
  description : '\n' ∉ m.description.toList
  issue : ∀ value, m.issue? = some value → '\n' ∉ value.toList
  breaking : ∀ value, m.breakingMessage? = some value → '\n' ∉ value.toList

/-! ## Footers -/

/-- What a footer says is on one line. -/
theorem not_mem_of_footerIn? {key : String} {useHash : Bool} {text : List Char} {value : String}
    (h : footerIn? key useHash text = some value) : '\n' ∉ value.toList := by
  intro hmem
  rcases (of_footerIn? h).2 '\n' hmem with hmark | ⟨-, hne⟩
  · cases useHash <;> simp [footerMark] at hmark
  · exact hne rfl

theorem MessageRules.not_mem_of_valueIn? {rules : MessageRules} {name : String} {text : List Char}
    {value : String} (h : rules.valueIn? name text = some value) : '\n' ∉ value.toList := by
  obtain ⟨style, -, hstyle⟩ := Option.bind_eq_some_iff.1 h
  obtain ⟨key, -, hkey⟩ := List.exists_of_findSome?_eq_some hstyle
  exact not_mem_of_footerIn? hkey

namespace Convention

/-! ## Headers -/

/-- The parts of a header consist of characters of the header. -/
theorem mem_of_ofHeader {header : String} {d : Char}
    (h : d ∈ (ofHeader header "").type.toList ∨ d ∈ (ofHeader header "").scope.toList ∨
      d ∈ (ofHeader header "").description.toList) : d ∈ header.toList := by
  cases hparse : Header.parse? header.toList with
  | none => simpa [ofHeader, hparse] using h
  | some parts =>
    obtain ⟨htype, hscope, hdescription, -⟩ := ofHeader_of_parse? hparse
    obtain ⟨parens, hproper, hwritten⟩ := Header.parse?_eq_some_iff.1 hparse
    rw [htype, hscope, hdescription, String.toList_ofList, String.toList_ofList,
      String.toList_ofList] at h
    rw [hwritten]
    rcases h with hd | hd | hd
    · exact List.mem_append_left _ (List.mem_append_left _ hd)
    · refine List.mem_append_left _ (List.mem_append_right _ (List.mem_append_left _ ?_))
      cases parens with
      | true => exact List.mem_cons_of_mem _ (List.mem_append_left _ hd)
      | false =>
        rw [hproper.scope_eq_nil rfl] at hd
        cases hd
    · exact List.mem_append_right _ ((Text.dropAround_infix _).subset hd)

/-! ## Messages -/

/-- All that is read off a subject on one line is on one line, the body aside. -/
theorem isOneLine_of_parse {config : Config} {c : Convention} (h : ofConfig config = .ok c)
    {subject body : String} {m : CommitMessage} (hm : c.parse subject body = .ok m)
    (hline : '\n' ∉ subject.toList) : m.IsOneLine := by
  obtain ⟨header, hheader, htype, hscope, hdescription, -, hbreaking, hissue⟩ := parse_spec h hm
  have hparts {d : Char}
      (hd : d ∈ (ofHeader header "").type.toList ∨ d ∈ (ofHeader header "").scope.toList ∨
      d ∈ (ofHeader header "").description.toList) : d ∈ subject.toList :=
    mem_of_header hheader (mem_of_ofHeader hd)
  have hshort : '\n' ∉ (ofHeader header "").description.toList :=
    fun hmem => hline (hparts (.inr (.inr hmem)))
  refine ⟨?_, ?_, ?_, fun value hvalue => ?_, fun value hvalue => ?_⟩
  · exact htype ▸ fun hmem => hline (hparts (.inl hmem))
  · exact hscope ▸ fun hmem => hline (hparts (.inr (.inl hmem)))
  · exact hdescription ▸ hshort
  · exact MessageRules.not_mem_of_valueIn? (hissue.symm.trans hvalue)
  · rw [hbreaking, breakingText?, Option.or_eq_some_iff] at hvalue
    rcases hvalue with hfooter | ⟨-, hvalue⟩
    · exact not_mem_of_footerIn? hfooter
    · split at hvalue
      · cases hvalue
        exact hshort
      · exact MessageRules.not_mem_of_valueIn? hvalue

end Convention

end ConventionalRelease
