import ConventionalRelease.Proofs.Calendar.Text
import ConventionalRelease.Proofs.History.Range

/-!
# Ranges of dates

Whether a commit is in a range of dates is decided by seconds, but it comes to what the calendar
says: the range holds those commits of the history of what is checked out that were made on its days
(`Repository.log_dates`). So a range can be cut between two days without losing a commit or showing
one twice, and the dates that the log shows of commits made at universal time are days of the range.
-/

namespace ConventionalRelease

/-- Whether a day is in a range of days: not before the first and not after the last, as far as
there are any. -/
def Date.isWithin (first last : Option Date) (d : Date) : Bool :=
  first.all (fun f => decide (f ≤ d)) && last.all fun l => decide (d ≤ l)

/-- The day on which a commit was made, in universal time. -/
def RawCommit.day (c : RawCommit) : Date :=
  (Instant.mk c.timestamp).date

namespace Commit

/-- There is an instant at the time of a commit exactly if the day on which it was made can be
read. -/
theorem isSome_instant?_iff (c : Commit) : c.instant?.isSome = true ↔
    Date.readableYears.1 ≤ c.raw.day.year ∧ c.raw.day.year ≤ Date.readableYears.2 := by
  have hbounds := Instant.mem_bounds_iff (t := ⟨c.time⟩)
  show _ ↔ Date.readableYears.1 ≤ (Instant.mk c.time).date.year ∧
      (Instant.mk c.time).date.year ≤ Date.readableYears.2
  rw [← hbounds, instant?, Instant.ofParts?]
  split
  · next h => exact ⟨fun _ => ⟨h.1, h.2.1⟩, fun _ => rfl⟩
  · next h => exact ⟨nofun, fun h' => absurd ⟨h'.1, h'.2, by decide, .inl (by decide)⟩ h⟩

/-- If a commit was made at universal time and there is an instant at its time, the log shows the
day on which it was made, and otherwise no date. -/
theorem read?_date {c : Commit} (hoffset : c.offset = 0) :
    Date.read? c.raw.date = if c.instant?.isSome then some c.raw.day else none := by
  cases hinstant : c.instant? with
  | none =>
    have hdate : c.raw.date = "" := by
      show c.dateText = ""
      rw [dateText, hinstant]
    rw [hdate]
    rfl
  | some t =>
    have hyear := (isSome_instant?_iff c).1 (by rw [hinstant]; rfl)
    have ht : t = ⟨c.time⟩ := by
      rw [instant?, Instant.ofParts?] at hinstant
      split at hinstant
      · exact (Option.some.inj hinstant).symm
      · cases hinstant
    have hdate : c.raw.date = c.raw.day.text := by
      show c.dateText = _
      rw [dateText, hinstant, ht, hoffset]
      simp [raw, RawCommit.day, greatestOffset]
    rw [hdate, Date.read?_text hyear]
    rfl

end Commit

namespace Repository

variable {r : Repository} {start stop : Option String} {first last : Option Date}

/-- A bound that is a date has its day count. -/
theorem mapM_dayOf {bound : Option String} {d : Option Date} (h : bound.mapM Date.read? = some d) :
    (bound.mapM dayOf : Except HistoryError (Option Int)) = .ok (d.map Date.toDays) := by
  cases bound with
  | none =>
    cases h
    rfl
  | some text =>
    obtain ⟨found, hread, h⟩ := Option.map_eq_some_iff.1 h
    cases h
    show (some <$> dayOf text : Except HistoryError (Option Int)) = _
    rw [dayOf, hread]
    rfl

/-- A bound that is given is a date. -/
theorem exists_read?_of_mapM {bound : Option String} {d : Date}
    (h : bound.mapM Date.read? = some (some d)) :
    ∃ text, bound = some text ∧ Date.read? text = some d := by
  cases bound with
  | none => cases h
  | some text =>
    obtain ⟨found, hread, h⟩ := Option.map_eq_some_iff.1 h
    cases h
    exact ⟨text, rfl, hread⟩

/-- A bound that is a date is not empty. -/
theorem ne_empty_of_mapM_read? {bound : Option String} {d : Option Date}
    (h : bound.mapM Date.read? = some d) :
    ∀ text ∈ bound, text ≠ "" := by
  rintro text htext rfl
  cases htext
  cases h

/-- A commit was made between the bounds exactly if the day on which it was made is in the range. -/
theorem isWithin_eq (first last : Option Date) (c : Commit) :
    isWithin (first.map Date.toDays) (last.map Date.toDays) c =
      Date.isWithin first last c.raw.day := by
  have hfirst (d : Date) : (Instant.ofDayCount d.toDays).seconds ≤ c.time ↔ d ≤ c.raw.day :=
    (Instant.le_date_iff (t := ⟨c.time⟩)).symm
  have hlast (d : Date) : c.time < (Instant.ofDayCount (d.toDays + 1)).seconds ↔ c.raw.day ≤ d :=
    (Instant.date_le_iff (t := ⟨c.time⟩)).symm
  rw [isWithin, Date.isWithin, Option.all_map, Option.all_map]
  simp only [hfirst, hlast]

/-- Without bounds the log shows the whole history of what is checked out. -/
theorem log_all (hhashes : r.HasHashes) :
    r.log { kind := .hash } = .ok (r.checkedOut.map Commit.raw) := by
  cases hhead : r.head? with
  | none =>
    rw [checkedOut, hhead]
    exact log_of_commitsIn (commitsIn_of_head?_eq_none hhead _)
  | some descent =>
    refine log_of_commitsIn ?_
    have hall : between descent.lineage [] = descent.lineage :=
      List.filter_eq_self.2 fun c _ => decide_eq_true List.not_mem_nil
    rw [commitsIn, hasCommits_of_head? hhead, checkedOut_of_head? hhead]
    show r.logOfRevisions none none = _
    rw [logOfRevisions, Option.getD_none, hhashes.resolve_head hhead]
    exact congrArg Except.ok hall

/-- The log of a range of dates shows the commits that were made on its days. -/
theorem log_dates_eq (hstart : start.mapM Date.read? = some first)
    (hstop : stop.mapM Date.read? = some last) :
    r.log (.of .date start stop) =
      .ok ((r.checkedOut.map Commit.raw).filter fun c => Date.isWithin first last c.day) := by
  cases hhead : r.head? with
  | none =>
    rw [checkedOut, hhead]
    exact log_of_commitsIn (commitsIn_of_head?_eq_none hhead _)
  | some descent =>
    rw [List.filter_map]
    refine log_of_commitsIn ?_
    rw [range_of_ne_empty (ne_empty_of_mapM_read? hstart) (ne_empty_of_mapM_read? hstop), commitsIn,
      hasCommits_of_head? hhead]
    show r.logOfDates start stop = _
    rw [logOfDates, mapM_dayOf hstart, mapM_dayOf hstop]
    exact congrArg Except.ok (List.filter_congr fun c _ => isWithin_eq first last c)

/-! ## Cutting a range -/

/-- A day of a range that is cut after one of its days is in the first part up to that day, and else
in the second. -/
theorem isWithin_cut {m : Date} (hfirst : ∀ f ∈ first, f ≤ m.next) (hlast : ∀ l ∈ last, m ≤ l)
    (d : Date) :
    Date.isWithin first (some m) d = (decide (d ≤ m) && Date.isWithin first last d) ∧
      Date.isWithin (some m.next) last d = (!decide (d ≤ m) && Date.isWithin first last d) := by
  have hnext : decide (m.next ≤ d) = !decide (d ≤ m) := by
    rw [← decide_not]
    exact decide_eq_decide.2 Date.next_le_iff
  rw [Date.isWithin, Date.isWithin, Date.isWithin, Option.all_some, Option.all_some, hnext]
  by_cases hd : d ≤ m
  · have hbefore : last.all (fun l => decide (d ≤ l)) = true :=
      (Option.all_eq_true _ _).2 fun l hl => decide_eq_true (Date.le_trans hd (hlast l hl))
    simp [hd, hbefore]
  · have hafter : first.all (fun f => decide (f ≤ d)) = true :=
      (Option.all_eq_true _ _).2 fun f hf =>
        decide_eq_true (Date.le_trans (hfirst f hf) (Date.next_le_iff.2 hd))
    simp [hd, hafter]

/-- The logs of the two parts are what the log of the range is cut into. -/
theorem log_dates_cut (hstart : start.mapM Date.read? = some first)
    (hstop : stop.mapM Date.read? = some last) {m : Date} {ending beginning : String}
    (hending : Date.read? ending = some m) (hbeginning : Date.read? beginning = some m.next)
    (hfirst : ∀ f ∈ first, f ≤ m.next) (hlast : ∀ l ∈ last, m ≤ l) :
    ∃ found earlier later, r.log (.of .date start stop) = .ok found ∧
      r.log (.of .date start (some ending)) = .ok earlier ∧
      r.log (.of .date (some beginning) stop) = .ok later ∧
      found.partition (fun c => decide (c.day ≤ m)) = (earlier, later) := by
  have hending' : (some ending).mapM Date.read? = some (some m) := by
    show some <$> Date.read? ending = _
    rw [hending]
    rfl
  have hbeginning' : (some beginning).mapM Date.read? = some (some m.next) := by
    show some <$> Date.read? beginning = _
    rw [hbeginning]
    rfl
  refine ⟨_, _, _, log_dates_eq hstart hstop, log_dates_eq hstart hending',
    log_dates_eq hbeginning' hstop, ?_⟩
  rw [List.partition_eq_filter_filter, List.filter_filter, List.filter_filter]
  simp only [Function.comp_apply, isWithin_cut hfirst hlast]

/-! ## Dates that are shown -/

/-- Between two days that can be read, there is an instant at the time of a commit. -/
theorem isSome_instant? {start stop : String} {first last : Date}
    (hstart : Date.read? start = some first) (hstop : Date.read? stop = some last) {c : Commit}
    (h : Date.isWithin (some first) (some last) c.raw.day = true) :
    c.instant?.isSome = true := by
  rw [Date.isWithin, Option.all_some, Option.all_some, Bool.and_eq_true, decide_eq_true_eq,
    decide_eq_true_eq] at h
  have hfirst := (Date.readable_iff.2 (Date.year_of_read? hstart)).1
  have hlast := (Date.readable_iff.2 (Date.year_of_read? hstop)).2
  exact (Commit.isSome_instant?_iff c).2
    (Date.readable_iff.1 ⟨Date.le_trans hfirst h.1, Date.le_trans h.2 hlast⟩)

/-- The log of a range of dates is made of those commits of the log of the whole history, in the
same order, that were made on days of the range; a bound that is left out leaves out no day. If the
range is cut between one of its days and the next, the logs of the two parts are what its log is cut
into. For a commit made at universal time, the log shows a date whenever there is an instant at its
time, which is so for every commit between two bounds, and the commit is in the range exactly if
that date is a day of it. -/
theorem log_dates (hhashes : r.HasHashes) (hstart : start.mapM Date.read? = some first)
    (hstop : stop.mapM Date.read? = some last) :
    ∃ all found, r.log { kind := .hash } = .ok all ∧ all = r.checkedOut.map Commit.raw ∧
      r.log (.of .date start stop) = .ok found ∧
        found = all.filter (fun c => Date.isWithin first last c.day) ∧
      (∀ (m : Date) (ending beginning : String), Date.read? ending = some m →
        Date.read? beginning = some m.next →
        (∀ f ∈ first, f ≤ m.next) → (∀ l ∈ last, m ≤ l) →
        ∃ earlier later, r.log (.of .date start (some ending)) = .ok earlier ∧
          r.log (.of .date (some beginning) stop) = .ok later ∧
          found.partition (fun c => decide (c.day ≤ m)) = (earlier, later)) ∧
      ∀ c ∈ r.checkedOut, c.offset = 0 →
        (c.instant?.isSome = true → ∃ d, Date.read? c.raw.date = some d) ∧
        (∀ d, Date.read? c.raw.date = some d →
          (c.raw ∈ found ↔ Date.isWithin first last d = true)) ∧
        (first.isSome = true → last.isSome = true → c.raw ∈ found → c.instant?.isSome = true) := by
  refine ⟨_, _, log_all hhashes, rfl, log_dates_eq hstart hstop, rfl, ?_, ?_⟩
  · intro m ending beginning hending hbeginning hfirst hlast
    obtain ⟨found, earlier, later, hfound, hearlier, hlater, hcut⟩ :=
      log_dates_cut (r := r) hstart hstop hending hbeginning hfirst hlast
    rw [Except.ok.inj ((log_dates_eq hstart hstop).symm.trans hfound)]
    exact ⟨earlier, later, hearlier, hlater, hcut⟩
  · intro c hc hoffset
    have hmem :
        c.raw ∈ (r.checkedOut.map Commit.raw).filter (fun c => Date.isWithin first last c.day) ↔
        Date.isWithin first last c.raw.day = true := by
      rw [List.mem_filter]
      exact and_iff_right (List.mem_map_of_mem hc)
    have hdate := Commit.read?_date hoffset
    refine ⟨fun hinstant => ?_, fun d hd => ?_, fun hfirst hlast hfound => ?_⟩
    · rw [if_pos hinstant] at hdate
      exact ⟨_, hdate⟩
    · rw [hd] at hdate
      split at hdate
      · rw [Option.some.inj hdate, hmem]
      · cases hdate
    · obtain ⟨f, rfl⟩ := Option.isSome_iff_exists.1 hfirst
      obtain ⟨l, rfl⟩ := Option.isSome_iff_exists.1 hlast
      obtain ⟨earliest, -, hearliest⟩ := exists_read?_of_mapM hstart
      obtain ⟨latest, -, hlatest⟩ := exists_read?_of_mapM hstop
      exact isSome_instant? hearliest hlatest (hmem.1 hfound)

/-- A branch with three commits: one in the last second before a leap day, one in its first second
and one in the first second after it. -/
def leapDay : Repository :=
  let commit (hash : String) (time : Int) : Commit :=
    { hash, author := "Tester", time, offset := 0, message := "fix: x" }
  let first : Descent := ⟨commit "c1" 1709164799, []⟩
  let second : Descent := ⟨commit "c2" 1709164800, first⟩
  let third : Descent := ⟨commit "c3" 1709251200, second⟩
  { commits := [third, second, first], branches := [("main", third)], head := .branch "main" }

/-- Only the one in its first second was made on the leap day. -/
theorem log_dates_leapDay :
    ∃ found, leapDay.log (.of .date (some "2024-02-29") (some "2024-02-29")) = .ok found ∧
      found.map (·.timestamp) = [1709164800] := by
  have hhashes : leapDay.HasHashes := by
    show ∀ descent ∈ leapDay.commits, isHexadecimal descent.newest.hash = true
    decide
  obtain ⟨all, found, -, hall, hfound, hfilter, -, -⟩ :=
    @log_dates leapDay (some "2024-02-29") (some "2024-02-29") (some ⟨2024, 2, 29, by decide⟩)
      (some ⟨2024, 2, 29, by decide⟩) hhashes rfl rfl
  refine ⟨found, hfound, ?_⟩
  rw [hfilter, hall]
  decide +kernel

end Repository

end ConventionalRelease
