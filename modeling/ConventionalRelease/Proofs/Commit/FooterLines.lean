import ConventionalRelease.Proofs.Commit.Convention
import ConventionalRelease.Proofs.Text.Lines

/-!
# Footers line by line

Where the key of a footer is on one line, the lines of a text can be looked at one after the other:
of two texts with a line feed between them the first that has the key decides (`footerIn?_append`),
and of joined lines the first that begins with the key (`Text.lineAfter?_join`). Whether a message
has the issue footer already is a matter of its lines, too (`IssueFooter.isPresent_iff`).
-/

namespace ConventionalRelease

namespace Text

variable {lead : List Char}

/-! ## Leads of lines -/

/-- A lead on one line begins a text exactly if it begins the first line. -/
theorem isPrefixOf_append_lineFeed (h : '\n' ∉ lead) (s t : List Char) :
    lead.isPrefixOf (s ++ '\n' :: t) = lead.isPrefixOf s := by
  rw [Bool.eq_iff_iff, List.isPrefixOf_iff_prefix, List.isPrefixOf_iff_prefix]
  constructor
  · intro hlead
    rcases List.prefix_or_prefix_of_prefix hlead (List.prefix_append s _) with hs | ⟨rest, rfl⟩
    · exact hs
    · have hrest : rest <+: '\n' :: t := (List.prefix_append_right_inj s).1 hlead
      cases rest with
      | nil => exact (List.append_nil s).symm ▸ List.prefix_refl s
      | cons c rest =>
        obtain ⟨rfl, -⟩ := List.cons_prefix_cons.1 hrest
        exact absurd (List.mem_append_right s List.mem_cons_self) h
  · intro hlead
    exact hlead.trans (List.prefix_append s _)

/-- The first line of a text is what stands before its first line feed. -/
theorem takeWhile_append_lineFeed_cons (s t : List Char) :
    (s ++ '\n' :: t).takeWhile (· != '\n') = s.takeWhile (· != '\n') := by
  induction s with
  | nil => rfl
  | cons c s ih => rw [List.cons_append, List.takeWhile_cons, List.takeWhile_cons, ih]

/-- The lines of the first text are looked at before those of the second. -/
theorem lineAfter?_append (h : '\n' ∉ lead) (hne : lead ≠ []) (start : Bool) (s t : List Char) :
    lineAfter? lead start (s ++ '\n' :: t) =
      (lineAfter? lead start s).or (lineAfter? lead true t) := by
  induction s generalizing start with
  | nil =>
    have hbegin : lead.isPrefixOf ('\n' :: t) = false := by
      rw [← List.nil_append ('\n' :: t), isPrefixOf_append_lineFeed h]
      exact Bool.eq_false_iff.2 fun hnil =>
        hne (List.prefix_nil.1 (List.isPrefixOf_iff_prefix.1 hnil))
    rw [lineAfter?_nil hne, Option.none_or, List.nil_append, lineAfter?, hbegin, Bool.and_false,
      if_neg Bool.false_ne_true]
    rfl
  | cons c s ih =>
    have hbegin := isPrefixOf_append_lineFeed h (c :: s) t
    rw [List.cons_append] at hbegin ⊢
    rw [lineAfter?, lineAfter?, hbegin]
    split
    · next hlead =>
      rw [Bool.and_eq_true, List.isPrefixOf_iff_prefix] at hlead
      rw [← List.cons_append, List.drop_append_of_le_length hlead.2.length_le,
        takeWhile_append_lineFeed_cons, Option.some_or]
    · exact ih (c == '\n')

/-- On a single line there is one place to look at. -/
theorem lineAfter?_line {line : List Char} (hline : '\n' ∉ line) (hne : lead ≠ []) (start : Bool) :
    lineAfter? lead start line =
      if start && lead.isPrefixOf line then some (line.drop lead.length) else none := by
  have hinside : ∀ {rest : List Char}, '\n' ∉ rest → lineAfter? lead false rest = none := by
    intro rest hrest
    induction rest with
    | nil => exact lineAfter?_nil hne false
    | cons c rest ih =>
      rw [List.mem_cons, not_or] at hrest
      rw [lineAfter?, Bool.false_and, if_neg Bool.false_ne_true, beq_false_of_ne (Ne.symm hrest.1)]
      exact ih hrest.2
  cases line with
  | nil =>
    have hbegin : lead.isPrefixOf [] = false := by
      obtain ⟨c, rest, rfl⟩ := List.exists_cons_of_ne_nil hne
      rfl
    rw [lineAfter?_nil hne, hbegin, Bool.and_false, if_neg Bool.false_ne_true]
  | cons c rest =>
    rw [lineAfter?]
    split
    · have hkept : ∀ d ∈ (c :: rest).drop lead.length, (d != '\n') = true := fun d hd =>
        bne_iff_ne.2 fun e => hline (e ▸ List.mem_of_mem_drop hd)
      have hwhole := takeWhile_append_of_stops hkept (stops_nil (p := (· != '\n')))
      rw [List.append_nil] at hwhole
      rw [hwhole]
    · rw [List.mem_cons, not_or] at hline
      rw [beq_false_of_ne (Ne.symm hline.1)]
      exact hinside hline.2

/-- What follows the lead in a text follows it in its joined lines, carriage returns dropped from
both. -/
theorem lineAfter?_join_lines (hne : lead ≠ []) (hlast : lead.getLast? ≠ some '\n')
    (s : List Char) :
    lineAfter? lead true (dropReturns (join ['\n'] (lines s))) =
      lineAfter? lead true (dropReturns s) := by
  rcases dropReturns_join_lines s with hs | hs
  · rw [← hs]
  · rw [hs, lineAfter?_append_lineFeed hne hlast]

/-- A lead that is found stands in the text. -/
theorem mem_of_lineAfter? {start : Bool} {s rest : List Char}
    (h : lineAfter? lead start s = some rest) {c : Char} (hc : c ∈ lead) : c ∈ s := by
  induction s generalizing start with
  | nil =>
    rw [lineAfter?_nil (List.ne_nil_of_mem hc)] at h
    cases h
  | cons d s ih =>
    rw [lineAfter?] at h
    split at h
    · next hlead =>
      rw [Bool.and_eq_true, List.isPrefixOf_iff_prefix] at hlead
      exact hlead.2.subset hc
    · exact List.mem_cons_of_mem d (ih h)

/-- Behind the lead at the front of a text stands the rest of the line. -/
theorem lineAfter?_lead_append (hne : lead ≠ []) (rest : List Char) :
    lineAfter? lead true (lead ++ rest) = some (rest.takeWhile (· != '\n')) := by
  obtain ⟨c, more, hlead⟩ := List.exists_cons_of_ne_nil hne
  have hbegin : lead.isPrefixOf (lead ++ rest) = true :=
    List.isPrefixOf_iff_prefix.2 (List.prefix_append _ _)
  have hdrop : (lead ++ rest).drop lead.length = rest := List.drop_left
  rw [hlead, List.cons_append] at *
  rw [lineAfter?, hbegin, Bool.and_true, if_pos rfl, hdrop]

/-- Of joined lines the first that begins with the lead decides. -/
theorem lineAfter?_join (h : '\n' ∉ lead) (hne : lead ≠ []) {lines : List (List Char)}
    (hlines : ∀ line ∈ lines, '\n' ∉ line) :
    lineAfter? lead true (join ['\n'] lines) = lines.findSome? (after? lead) := by
  induction lines with
  | nil => exact lineAfter?_nil hne true
  | cons line rest ih =>
    have hfirst := lineAfter?_line (hlines line List.mem_cons_self) hne true
    rw [Bool.true_and] at hfirst
    rw [List.findSome?_cons, after?, ← hfirst]
    cases rest with
    | nil => cases hline : lineAfter? lead true line <;> simp [join, hline]
    | cons next rest =>
      rw [join, List.append_assoc, List.singleton_append, lineAfter?_append h hne,
        ih fun l hl => hlines l (List.mem_cons_of_mem line hl)]
      · cases lineAfter? lead true line <;> rfl
      · exact List.cons_ne_nil next rest

/-- A line that may be missing is found by its lead. -/
theorem findSome?_after?_map {α : Type} (lead : List Char) (text : α → List Char)
    (value : Option α) :
    (value.toList.map (lead ++ text ·)).findSome? (after? lead) = value.map text := by
  cases value with
  | none => rfl
  | some a => simp [after?_append]

/-- A line that may be missing is not found by another lead. -/
theorem findSome?_after?_map_of_none {α : Type} {lead other : List Char} (text : α → List Char)
    (h : ∀ s, after? lead (other ++ s) = none) (value : Option α) :
    (value.toList.map (other ++ text ·)).findSome? (after? lead) = none := by
  cases value with
  | none => rfl
  | some a => simp [h]

/-- Some line of the text begins with the lead and goes on after it. -/
def GoesOn (lead text : List Char) : Prop :=
  ∃ before c rest, text = before ++ lead ++ c :: rest ∧
    before.getLast?.all (· == '\n') = true ∧ c ≠ '\n'

end Text

/-! ## Values -/

section
variable {key : String} {useHash : Bool}

/-- The lead of a footer is on one line if the key is. -/
theorem not_mem_footerLead {c : Char} (h : c ∉ key.toList) (hspace : c ≠ ' ') (hcolon : c ≠ ':')
    (hsign : c ≠ '#') :
    c ∉ footerLead key useHash := by
  cases useHash <;> simp [footerLead, footerSeparator, footerMark, h, hspace, hcolon, hsign]

/-- What is found of a footer is not empty and stands in the text. -/
theorem of_footerIn? {text : List Char} {value : String}
    (h : footerIn? key useHash text = some value) :
    value ≠ "" ∧ ∀ c ∈ value.toList, c ∈ footerMark useHash ∨ c ∈ text ∧ c ≠ '\n' := by
  have hfound : ∀ {start : Bool} {s rest : List Char},
      Text.lineAfter? (footerLead key useHash) start s = some rest →
      ∀ c ∈ rest, c ∈ s ∧ c ≠ '\n' := by
    intro start s rest hs
    induction s generalizing start with
    | nil =>
      rw [Text.lineAfter?_nil (footerLead_ne_nil key useHash)] at hs
      cases hs
    | cons d s ih =>
      rw [Text.lineAfter?] at hs
      split at hs
      · cases hs
        intro c hc
        exact ⟨List.mem_of_mem_drop ((List.takeWhile_prefix _).subset hc),
          bne_iff_ne.1 (List.all_eq_true.1 List.all_takeWhile c hc)⟩
      · intro c hc
        obtain ⟨hmem, hne⟩ := ih hs c hc
        exact ⟨List.mem_cons_of_mem d hmem, hne⟩
  obtain ⟨rest, hrest, hvalue⟩ := Option.bind_eq_some_iff.1 h
  dsimp only at hvalue
  split at hvalue
  · cases hvalue
  · next hne =>
    cases hvalue
    constructor
    · intro hempty
      exact hne (List.isEmpty_iff.2 (String.ofList_inj.1 (hempty.trans rfl)))
    · intro c hc
      rw [String.toList_ofList] at hc
      rcases List.mem_append.1 hc with hc | hc
      · exact .inl hc
      · exact .inr (hfound hrest c hc)

/-- Of two texts with a line feed between them the first that has the key decides. -/
theorem footerIn?_append (h : '\n' ∉ key.toList) (s t : List Char) :
    footerIn? key useHash (s ++ '\n' :: t) =
      if (Text.lineAfter? (footerLead key useHash) true s).isSome then footerIn? key useHash s
      else footerIn? key useHash t := by
  have hlead : '\n' ∉ footerLead key useHash :=
    not_mem_footerLead h (by decide) (by decide) (by decide)
  rw [footerIn?, footerIn?, footerIn?, Text.lineAfter?_append hlead (footerLead_ne_nil key useHash)]
  cases Text.lineAfter? (footerLead key useHash) true s <;> rfl

/-- The first line with the key decides whether there is a value. -/
theorem footerIn?_of_some {text rest : List Char}
    (h : Text.lineAfter? (footerLead key useHash) true text = some rest) :
    footerIn? key useHash text =
      if footerMark useHash ++ rest = [] then none
      else some (String.ofList (footerMark useHash ++ rest)) := by
  rw [footerIn?, h, Option.bind_eq_bind, Option.bind_some]
  simp only [List.isEmpty_iff]

theorem footerIn?_of_none {text : List Char}
    (h : Text.lineAfter? (footerLead key useHash) true text = none) :
    footerIn? key useHash text = none := by
  rw [footerIn?, h]
  rfl

/-- The footers of a text are those of its joined lines. -/
theorem footerIn?_join_lines (key : String) (useHash : Bool) (s : List Char) :
    footerIn? key useHash (Text.dropReturns (Text.join ['\n'] (Text.lines s))) =
      footerIn? key useHash (Text.dropReturns s) := by
  rw [footerIn?,
    Text.lineAfter?_join_lines (footerLead_ne_nil key useHash) (getLast?_footerLead key useHash)]
  rfl

/-- A text without a value for the key has no say behind another text. -/
theorem footerIn?_append_of_none (h : '\n' ∉ key.toList) (s : List Char) {t : List Char}
    (hnone : footerIn? key useHash t = none) :
    footerIn? key useHash (s ++ '\n' :: t) = footerIn? key useHash s := by
  rw [footerIn?_append h, hnone]
  cases hline : Text.lineAfter? (footerLead key useHash) true s with
  | none => rw [footerIn?_of_none hline]; rfl
  | some rest => rfl

end

namespace FooterStyle

variable {style : FooterStyle}

/-- What is found of a style's footer is not empty and stands in the text. -/
theorem of_valueIn? {text : List Char} {value : String} (h : style.valueIn? text = some value) :
    value ≠ "" ∧ ∀ c ∈ value.toList, c ∈ footerMark style.useHash ∨ c ∈ text ∧ c ≠ '\n' := by
  obtain ⟨key, -, hkey⟩ := List.exists_of_findSome?_eq_some h
  exact of_footerIn? hkey

theorem valueIn?_eq (style : FooterStyle) (text : List Char) :
    style.valueIn? text = (footerIn? style.key style.useHash text).or
      (style.synonyms.findSome? (footerIn? · style.useHash text)) := by
  rw [valueIn?, keys, List.findSome?_cons]
  cases footerIn? style.key style.useHash text <;> rfl

/-- A value is still found when it is written once more under the style's key. -/
theorem valueIn?_append (hkeys : ∀ key ∈ style.keys, '\n' ∉ key.toList) {s t : List Char}
    (hkey : footerIn? style.key style.useHash t = style.valueIn? s)
    (hsynonyms : ∀ key ∈ style.synonyms, footerIn? key style.useHash t = none) :
    style.valueIn? (s ++ '\n' :: t) = style.valueIn? s := by
  have hrest : style.synonyms.findSome? (footerIn? · style.useHash (s ++ '\n' :: t)) =
      style.synonyms.findSome? (footerIn? · style.useHash s) := by
    have hlines : ∀ key ∈ style.synonyms, '\n' ∉ key.toList := fun key hmem =>
      hkeys key (List.mem_cons_of_mem style.key hmem)
    generalize style.synonyms = synonyms at hlines hsynonyms
    induction synonyms with
    | nil => rfl
    | cons key rest ih =>
      rw [List.findSome?_cons, List.findSome?_cons,
        footerIn?_append_of_none (hlines key List.mem_cons_self) s
          (hsynonyms key List.mem_cons_self),
        ih (fun k hk => hlines k (List.mem_cons_of_mem key hk)) fun k hk =>
          hsynonyms k (List.mem_cons_of_mem key hk)]
  rw [valueIn?_eq style (s ++ '\n' :: t), hrest, footerIn?_append (hkeys _ List.mem_cons_self)]
  cases hline : Text.lineAfter? (footerLead style.key style.useHash) true s with
  | some rest => exact (valueIn?_eq style s).symm
  | none =>
    have hs := valueIn?_eq style s
    rw [footerIn?_of_none hline, Option.none_or] at hs
    rw [Option.isSome_none, if_neg Bool.false_ne_true, hkey, ← hs, Option.or_self]

/-- An issue behind the prefix that it has to have. -/
def withPrefix (style : FooterStyle) (issue : String) : String :=
  if style.valuePrefix.toList.isPrefixOf issue.toList then issue else style.valuePrefix ++ issue

/-- What is written after the lead of a footer: the issue behind its prefix, but for the number sign
that the lead may end with. -/
def written (style : FooterStyle) (issue : String) : List Char :=
  match style.useHash, (style.withPrefix issue).toList with
  | true, '#' :: digits => digits
  | _, value => value

/-- A written footer begins with the lead of its key. -/
theorem toList_line (style : FooterStyle) (issue : String) :
    (style.line issue).toList = footerLead style.key style.useHash ++ style.written issue := by
  have hvalue :
      (if style.valuePrefix.toList.isPrefixOf issue.toList then issue
        else style.valuePrefix ++ issue) = style.withPrefix issue := rfl
  simp only [line, hvalue, written]
  cases style.useHash with
  | false => simp [footerLead, footerSeparator, footerMark]
  | true =>
    rw [if_pos rfl]
    split
    · next digits hdigits =>
      rw [hdigits]
      simp [footerLead, footerSeparator, footerMark]
    · next hdigits =>
      split
      · next digits _ hcons => exact absurd hcons (hdigits digits)
      · simp [footerLead, footerSeparator, footerMark]

end FooterStyle

/-! ## Presence -/

open Regex

/-- The rest of a line can be gone through to its end if there is any. -/
theorem head?_ways_lineEnd (before rest : List Char) :
    ((sequence [.many true (.one .exceptLineFeed), .anchor .lineEnd]).ways ⟨before, rest,
      []⟩).head?.isSome =
      rest.head?.any (· != '\n') := by
  have hcut : rest.takeWhile (· != '\n') ++ rest.dropWhile (· != '\n') = rest :=
    List.takeWhile_append_dropWhile
  have hstops := Text.stops_dropWhile (p := (· != '\n')) rest
  have hhead := head?_repeatFrom before [] [] (rest.length + 1)
    (List.all_eq_true.1 (List.all_takeWhile ..)) hstops
    (by simp) (Nat.lt_succ_of_le (List.takeWhile_prefix (· != '\n')).length_le)
  have hways :
      (sequence [.many true (.one .exceptLineFeed), .anchor .lineEnd]).ways ⟨before, rest, []⟩ =
      (repeatFrom (ways (.one .exceptLineFeed)) true (rest.length + 1) ⟨before, rest, []⟩
        []).1.flatMap
        (ways (.anchor .lineEnd)) := rfl
  rw [hcut] at hhead
  rw [hways]
  cases hline : rest.takeWhile (· != '\n') with
  | nil =>
    rw [hline, if_pos rfl, List.head?_eq_none_iff] at hhead
    rw [hline, List.nil_append] at hcut
    rw [hcut] at hstops
    rw [hhead]
    cases rest with
    | nil => rfl
    | cons c rest => simpa using hstops
  | cons c line =>
    rw [hline, if_neg (List.cons_ne_nil c line), List.head?_eq_some_iff] at hhead
    obtain ⟨others, hothers⟩ := hhead
    rw [hline] at hcut
    have hfirst : (c != '\n') = true :=
      List.all_eq_true.1 List.all_takeWhile c (by rw [hline]; exact List.mem_cons_self)
    have hend : (rest.dropWhile (· != '\n')).head?.all (· == '\n') = true := by
      cases hrest : rest.dropWhile (· != '\n') with
      | nil => rfl
      | cons d s => simpa [hrest] using hstops
    rw [hothers, List.flatMap_cons, ways, Anchor.holds, hend, ← hcut]
    simp [hfirst]

/-- The expression matches at the start of a line that begins with the lead and goes on, and nowhere
else. -/
theorem head?_ways_presentLine (lead before text : List Char) :
    ((presentLine lead).ways ⟨before, text, []⟩).head?.isSome =
      (before.head?.all (· == '\n') && lead.isPrefixOf text &&
        (text.drop lead.length).head?.any (· != '\n')) := by
  rw [presentLine, ways_sequence_cons, ways, Anchor.holds]
  cases before.head?.all (· == '\n') with
  | false => simp
  | true =>
    rw [if_pos rfl, List.flatMap_cons, List.flatMap_nil, List.append_nil, ways_literals]
    cases lead.isPrefixOf text with
    | false => simp
    | true => exact head?_ways_lineEnd _ _

/-- The expression is found where some line begins with the lead and goes on. -/
theorem searchFrom_presentLine (lead before text : List Char) :
    ((presentLine lead).searchFrom before text).isSome = true ↔
      ∃ skipped c rest, text = skipped ++ lead ++ c :: rest ∧
        (skipped.reverse ++ before).head?.all (· == '\n') = true ∧ c ≠ '\n' := by
  have hhere : ∀ before text : List Char,
      ((presentLine lead).ways ⟨before, text, []⟩).head?.isSome = true ↔
      ∃ c rest, text = lead ++ c :: rest ∧ before.head?.all (· == '\n') = true ∧ c ≠ '\n' := by
    intro before text
    rw [head?_ways_presentLine, Bool.and_eq_true, Bool.and_eq_true, List.isPrefixOf_iff_prefix]
    constructor
    · rintro ⟨⟨hstart, t, rfl⟩, hgoes⟩
      rw [List.drop_left] at hgoes
      cases t with
      | nil => cases hgoes
      | cons c rest => exact ⟨c, rest, rfl, hstart, bne_iff_ne.1 hgoes⟩
    · rintro ⟨c, rest, rfl, hstart, hc⟩
      rw [List.drop_left]
      exact ⟨⟨hstart, List.prefix_append _ _⟩, bne_iff_ne.2 hc⟩
  induction text generalizing before with
  | nil =>
    rw [searchFrom, hhere]
    constructor
    · rintro ⟨c, rest, htext, hstart, hc⟩
      exact ⟨[], c, rest, htext, hstart, hc⟩
    · rintro ⟨skipped, c, rest, htext, -⟩
      simp at htext
  | cons d text ih =>
    rw [searchFrom]
    cases hfound : ((presentLine lead).ways ⟨before, d :: text, []⟩).head? with
    | some w =>
      obtain ⟨c, rest, htext, hstart, hc⟩ := (hhere before (d :: text)).1 (by rw [hfound]; rfl)
      exact ⟨fun _ => ⟨[], c, rest, htext, hstart, hc⟩, fun _ => rfl⟩
    | none =>
      refine (ih (d :: before)).trans ⟨?_, ?_⟩
      · rintro ⟨skipped, c, rest, rfl, hstart, hc⟩
        exact ⟨d :: skipped, c, rest, rfl, by simpa using hstart, hc⟩
      · rintro ⟨skipped, c, rest, htext, hstart, hc⟩
        cases skipped with
        | nil =>
          have hsome := (hhere before (d :: text)).2 ⟨c, rest, htext, hstart, hc⟩
          rw [hfound] at hsome
          cases hsome
        | cons e skipped =>
          obtain ⟨rfl, rfl⟩ := List.cons.inj htext
          exact ⟨skipped, c, rest, by simp, by simpa using hstart, hc⟩

/-- A message has the issue footer if some line begins with its written key and goes on. -/
theorem IssueFooter.isPresent_iff {style : FooterStyle} {footer : IssueFooter}
    (h : ofStyle style = .ok footer) (message : String) :
    footer.isPresent message = true ↔
      Text.GoesOn (footerLead style.key style.useHash) message.toList := by
  obtain ⟨p, hp, h⟩ := bind_eq_ok.1 h
  cases h
  rw [Pattern.ofField_eq_ok, parse_presentPattern] at hp
  cases hp
  refine (searchFrom_presentLine _ [] message.toList).trans ?_
  simp only [List.append_nil, List.head?_reverse]
  rfl

end ConventionalRelease
