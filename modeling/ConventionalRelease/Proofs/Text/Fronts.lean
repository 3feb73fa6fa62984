import ConventionalRelease.Text.Blank
import ConventionalRelease.Text.Lines
import Mathlib.Data.List.TakeWhile

/-!
# Fronts of a text

A reader takes the longest front whose characters satisfy a condition, and goes on with what is
left. The front and the rest make up the text, the rest does not start with a character of the kind,
and no other cut is like this (`Text.takeWhile_append_of_stops`, `Text.dropWhile_append_of_stops`).
-/

namespace ConventionalRelease.Text

variable {p : Char → Bool}

/-- Whether a text does not start with a character of a kind. -/
def stops (p : Char → Bool) (s : List Char) : Bool :=
  !s.head?.any p

@[simp] theorem stops_nil : stops p [] = true := rfl

@[simp] theorem stops_cons {c : Char} {s : List Char} : stops p (c :: s) = !p c := rfl

/-- A text that does not start with a character of a kind does not start with one of a narrower
kind. -/
theorem stops_mono {q : Char → Bool} (h : ∀ {c}, q c = true → p c = true) {s : List Char}
    (hs : stops p s = true) : stops q s = true := by
  cases s with
  | nil => rfl
  | cons c s =>
    rw [stops_cons, Bool.not_eq_true'] at hs ⊢
    exact Bool.eq_false_iff.2 fun hc => Bool.false_ne_true (hs.symm.trans (h hc))

/-- Leaving out the front by its length leaves what is left. -/
theorem drop_length_takeWhile (s : List Char) : s.drop (s.takeWhile p).length = s.dropWhile p := by
  have h : s.takeWhile p ++ s.dropWhile p = s := List.takeWhile_append_dropWhile
  calc s.drop (s.takeWhile p).length
      = (s.takeWhile p ++ s.dropWhile p).drop (s.takeWhile p).length := by rw [h]
    _ = s.dropWhile p := List.drop_left

/-- What is left does not start with a character of the kind. -/
theorem stops_dropWhile (s : List Char) : stops p (s.dropWhile p) = true := by
  induction s with
  | nil => rfl
  | cons c s ih =>
    rw [List.dropWhile_cons]
    split
    · exact ih
    · next h => simpa using h

/-- The front of a text that is cut where a character of another kind stands, or the end. -/
theorem takeWhile_append_of_stops {front rest : List Char} (hfront : ∀ c ∈ front, p c = true)
    (hrest : stops p rest = true) : (front ++ rest).takeWhile p = front := by
  rw [List.takeWhile_append_of_pos hfront]
  cases rest with
  | nil => simp
  | cons c rest => rw [List.takeWhile_cons_of_neg (by simpa using hrest), List.append_nil]

/-- What is left of such a text. -/
theorem dropWhile_append_of_stops {front rest : List Char} (hfront : ∀ c ∈ front, p c = true)
    (hrest : stops p rest = true) : (front ++ rest).dropWhile p = rest := by
  rw [List.dropWhile_append_of_pos hfront]
  cases rest with
  | nil => rfl
  | cons c rest => exact List.dropWhile_cons_of_neg (by simpa using hrest)

/-- Every text is cut like this. -/
theorem exists_eq_append_of_stops (p : Char → Bool) (s : List Char) :
    ∃ front rest, s = front ++ rest ∧ (∀ c ∈ front, p c = true) ∧ stops p rest = true :=
  ⟨s.takeWhile p, s.dropWhile p, List.takeWhile_append_dropWhile.symm,
    fun _ => List.mem_takeWhile_imp, stops_dropWhile s⟩

/-- What is left of a text whose end is cut off after a character of another kind. -/
theorem dropEndWhile_append_of_stops {s back : List Char} (hback : ∀ c ∈ back, p c = true)
    (hs : stops p s.reverse = true) : dropEndWhile p (s ++ back) = s := by
  rw [dropEndWhile, List.reverse_append,
    dropWhile_append_of_stops (fun c hc => hback c (List.mem_reverse.1 hc)) hs,
    List.reverse_reverse]

/-- A text that does not end with such a character keeps its end. -/
theorem dropEndWhile_of_stops {s : List Char} (hs : stops p s.reverse = true) :
    dropEndWhile p s = s := by
  simpa using dropEndWhile_append_of_stops (nofun : ∀ c ∈ ([] : List Char), p c = true) hs

/-- Cutting off the end leaves a front of the text. -/
theorem dropEndWhile_prefix_self (s : List Char) : dropEndWhile p s <+: s := by
  simpa [dropEndWhile] using List.reverse_prefix.2 (List.dropWhile_suffix (l := s.reverse) p)

/-- What is left of a text without the characters at its two ends stands in the text. -/
theorem dropAround_infix (s : List Char) : dropAround p s <:+: s :=
  (dropEndWhile_prefix_self _).isInfix.trans (List.dropWhile_suffix p).isInfix

/-- A text without the characters at its two ends does not start with one. -/
theorem stops_dropAround (s : List Char) : stops p (dropAround p s) = true := by
  have hbegin : dropAround p s <+: s.dropWhile p := dropEndWhile_prefix_self _
  cases hs : dropAround p s with
  | nil => rfl
  | cons c rest =>
    obtain ⟨back, hback⟩ := hs ▸ hbegin
    have hstops := stops_dropWhile (p := p) s
    rw [← hback, List.cons_append] at hstops
    exact hstops

/-- A text without the characters at its two ends has none to leave out. -/
theorem dropAround_dropAround (s : List Char) : dropAround p (dropAround p s) = dropAround p s := by
  have hback : stops p (dropAround p s).reverse = true := by
    rw [dropAround, dropEndWhile, List.reverse_reverse]
    exact stops_dropWhile _
  have hwhole : (dropAround p s).dropWhile p = dropAround p s :=
    dropWhile_append_of_stops (nofun : ∀ c ∈ ([] : List Char), p c = true) (stops_dropAround s)
  rw [dropAround, hwhole, dropEndWhile_of_stops hback]

end ConventionalRelease.Text
