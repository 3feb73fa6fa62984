import ConventionalRelease.History.Commit
import ConventionalRelease.Proofs.Text.Fronts

/-!
# The message of a commit in the log

The subject keeps what stands on the first line up to a character that is no blank, and holds no
line feed (`Commit.subject_of_front`). Of a message laid out in a line, empty lines and a body, the
log shows just that line and that body (`IsLaidOut.subject`, `IsLaidOut.body`).
-/

namespace ConventionalRelease

namespace Commit

/-! ## The first paragraph -/

/-- The first line belongs to the first paragraph. -/
theorem paragraph_append {front : List Char} (h : '\n' ∉ front) (s : List Char) :
    paragraph (front ++ s) = front ++ paragraph s := by
  induction front with
  | nil => rfl
  | cons c front ih =>
    rw [List.mem_cons, not_or] at h
    rw [List.cons_append, paragraph, ih h.2]
    simp [Ne.symm h.1]

/-- What follows the first paragraph follows the first line. -/
theorem afterParagraph_append {front : List Char} (h : '\n' ∉ front) (s : List Char) :
    afterParagraph (front ++ s) = afterParagraph s := by
  induction front with
  | nil => rfl
  | cons c front ih =>
    rw [List.mem_cons, not_or] at h
    rw [List.cons_append, afterParagraph, ih h.2]
    simp [Ne.symm h.1]

/-- The first paragraph ends before empty lines. -/
theorem paragraph_lineFeeds (n : Nat) (s : List Char) :
    paragraph (List.replicate (n + 2) '\n' ++ s) = [] := by
  simp [List.replicate_succ, paragraph, atBlankLine]

/-- Line feeds at the end make no paragraph. -/
theorem paragraph_replicate : ∀ n : Nat, paragraph (List.replicate n '\n') = []
  | 0 => rfl
  | 1 => rfl
  | n + 2 => by simpa using paragraph_lineFeeds n []

/-- What follows the first paragraph begins with the empty lines. -/
theorem afterParagraph_lineFeeds (n : Nat) (s : List Char) :
    afterParagraph (List.replicate (n + 2) '\n' ++ s) = List.replicate (n + 2) '\n' ++ s := by
  simp [List.replicate_succ, afterParagraph]

theorem afterParagraph_replicate : ∀ n : Nat,
    afterParagraph (List.replicate n '\n') = List.replicate n '\n'
  | 0 => rfl
  | 1 => rfl
  | n + 2 => by simpa using afterParagraph_lineFeeds n []

/-! ## On one line -/

theorem isAsciiBlank_lineFeed : Text.isAsciiBlank '\n' = true := rfl

/-- Blanks within a line are kept where something follows them. -/
theorem onOneLineAfter_append {blanks front s : List Char} {c : Char} (hblanks : '\n' ∉ blanks)
    (hfront : '\n' ∉ front) (hc : Text.isAsciiBlank c = false) :
    onOneLineAfter blanks (front ++ c :: s) = blanks ++ front ++ c :: onOneLineAfter [] s := by
  induction front generalizing blanks with
  | nil =>
    rw [List.nil_append, onOneLineAfter, hc, if_neg Bool.false_ne_true, List.append_nil]
    rw [if_neg (by simpa using hblanks)]
  | cons d front ih =>
    rw [List.mem_cons, not_or] at hfront
    rw [List.cons_append, onOneLineAfter]
    split
    · rw [ih (by simp [hblanks, hfront.1]) hfront.2]
      simp
    · rw [if_neg (by simpa using hblanks), ih List.not_mem_nil hfront.2]
      simp

/-- There is no line feed on one line. -/
theorem not_mem_onOneLineAfter (blanks s : List Char) : '\n' ∉ onOneLineAfter blanks s := by
  induction s generalizing blanks with
  | nil => exact List.not_mem_nil
  | cons c s ih =>
    rw [onOneLineAfter]
    split
    · exact ih _
    · next hc =>
      rw [List.mem_append, List.mem_cons, not_or, not_or]
      refine ⟨?_, fun e => hc (e ▸ isAsciiBlank_lineFeed), ih []⟩
      split
      · decide
      · next hblanks => simpa using hblanks

/-- The text of a message starts where a first line with a character that is no blank does. -/
theorem text_of_front {commit : Commit} {front s : List Char} {c : Char} (hfront : '\n' ∉ front)
    (hc : Text.isAsciiBlank c = false) (hm : commit.message.toList = front ++ c :: s) :
    commit.text = front ++ c :: s := by
  have hne : c ≠ '\n' := by
    rintro rfl
    exact Bool.false_ne_true (hc.symm.trans isAsciiBlank_lineFeed)
  rw [text, hm]
  cases front with
  | nil => exact List.dropWhile_cons_of_neg (by simpa using hne)
  | cons d front =>
    exact List.dropWhile_cons_of_neg
      (by simpa using fun e : d = '\n' => hfront (e ▸ List.mem_cons_self))

/-- A first line with a character that is no blank belongs to the first paragraph. -/
theorem not_mem_of_front {front : List Char} {c : Char} (hfront : '\n' ∉ front)
    (hc : Text.isAsciiBlank c = false) : '\n' ∉ front ++ [c] := by
  rw [List.mem_append, List.mem_singleton, not_or]
  refine ⟨hfront, ?_⟩
  rintro rfl
  exact Bool.false_ne_true (hc.symm.trans isAsciiBlank_lineFeed)

/-- The subject keeps the first line up to a character that is no blank. -/
theorem subject_eq {commit : Commit} {front s : List Char} {c : Char} (hfront : '\n' ∉ front)
    (hc : Text.isAsciiBlank c = false) (hm : commit.message.toList = front ++ c :: s) :
    commit.subject.toList = front ++ c :: onOneLineAfter [] (paragraph s) := by
  have hpar : paragraph (front ++ c :: s) = front ++ c :: paragraph s := by
    simpa using paragraph_append (not_mem_of_front hfront hc) s
  rw [subject, text_of_front hfront hc hm, hpar, String.toList_ofList,
    onOneLineAfter_append List.not_mem_nil hfront hc, List.nil_append]

/-- The body does not depend on the first line up to such a character. -/
theorem body_eq {commit : Commit} {front s : List Char} {c : Char} (hfront : '\n' ∉ front)
    (hc : Text.isAsciiBlank c = false) (hm : commit.message.toList = front ++ c :: s) :
    commit.body.toList = Text.trimEnd (Text.dropAround Text.isAsciiBlank (afterParagraph s)) := by
  have hafter : afterParagraph (front ++ c :: s) = afterParagraph s := by
    simpa using afterParagraph_append (not_mem_of_front hfront hc) s
  rw [body, text_of_front hfront hc hm, hafter, String.toList_ofList]

end Commit

/-! ## Messages laid out -/

/-- The blanks of ASCII are blanks. -/
theorem isBlank_of_isAsciiBlank {c : Char} (h : Text.isAsciiBlank c = true) :
    Text.isBlank c = true := by
  unfold Text.isAsciiBlank at h
  unfold Text.isBlank
  simp only [h, Bool.true_or]

/-- A header on a line of its own, whose last character is no blank, followed by empty lines and a
body that neither begins nor ends with a blank, or by nothing. -/
inductive IsLaidOut : List Char → List Char → List Char → Prop
  | header {front : List Char} {c : Char} (n : Nat) (hfront : '\n' ∉ front)
    (hc : Text.isAsciiBlank c = false) :
    IsLaidOut (front ++ [c]) [] (front ++ c :: List.replicate n '\n')
  | body {front body : List Char} {c : Char} (m n : Nat) (hfront : '\n' ∉ front)
    (hc : Text.isAsciiBlank c = false) (hbody : body ≠ [])
      (hfirst : Text.stops Text.isAsciiBlank body = true)
    (hlast : Text.stops Text.isBlank body.reverse = true) :
    IsLaidOut (front ++ [c]) body
      (front ++ c :: (List.replicate (m + 2) '\n' ++ (body ++ List.replicate n '\n')))

namespace IsLaidOut

variable {header body message : List Char} {commit : Commit}

/-- The log shows the header. -/
theorem subject (h : IsLaidOut header body message) (hm : commit.message.toList = message) :
    commit.subject.toList = header := by
  cases h with
  | header n hfront hc =>
    rw [Commit.subject_eq hfront hc hm, Commit.paragraph_replicate, Commit.onOneLineAfter]
  | body m n hfront hc =>
    rw [Commit.subject_eq hfront hc hm, Commit.paragraph_lineFeeds, Commit.onOneLineAfter]

/-- The log shows the body. -/
theorem body_eq (h : IsLaidOut header body message) (hm : commit.message.toList = message) :
    commit.body.toList = body := by
  have hblank : ∀ n, ∀ d ∈ List.replicate n '\n', Text.isAsciiBlank d = true := fun n d hd => by
    rw [List.eq_of_mem_replicate hd]
    rfl
  cases h with
  | header n hfront hc =>
    have hdrop : (List.replicate n '\n').dropWhile Text.isAsciiBlank = [] := by
      simpa using Text.dropWhile_append_of_stops (hblank n)
        (Text.stops_nil : Text.stops Text.isAsciiBlank [] = true)
    rw [Commit.body_eq hfront hc hm, Commit.afterParagraph_replicate, Text.dropAround, hdrop]
    rfl
  | body m n hfront hc hbody hfirst hlast =>
    have hstart : Text.stops Text.isAsciiBlank (body ++ List.replicate n '\n') = true := by
      obtain ⟨d, s, rfl⟩ := List.exists_cons_of_ne_nil hbody
      exact hfirst
    rw [Commit.body_eq hfront hc hm, Commit.afterParagraph_lineFeeds, Text.dropAround,
      Text.dropWhile_append_of_stops (hblank _) hstart,
      Text.dropEndWhile_append_of_stops (hblank n) (Text.stops_mono isBlank_of_isAsciiBlank hlast),
      Text.trimEnd, Text.dropEndWhile_of_stops hlast]

end IsLaidOut

end ConventionalRelease
