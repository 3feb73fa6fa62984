import ConventionalRelease.Commit.Convention
import ConventionalRelease.Proofs.Regex.Enclosed

/-!
# Issue ids in branch names

The pattern of a branch name puts a group around the pattern of issue ids, between the fragments
before and after it, and is to match the whole name. The id is taken from the second group of a
pattern that has three. That is the group around the issue pattern exactly if the fragment before it
has one group: then an id is found where the name is made of a piece for each fragment, and it is
the piece in the middle (`issueIn?_covers`). With two groups before it, the second one of these is
taken for the id (`issueIn?_secondGroup`).
-/

namespace ConventionalRelease

open Regex (Fragment)

/-- The pattern of a branch name is the issue pattern in a group, between the fragments before and
after it. -/
theorem BranchRules.toList_issuePattern (branches : BranchRules) (issue : String) :
    (branches.issuePattern issue).toList =
      Fragment.Enclose.pattern branches.before.toList issue.toList branches.after.toList := by
  simp [issuePattern, Fragment.Enclose.pattern, String.toList_append]

/-- A pattern of branch names that is read is the one that the fragments write. -/
theorem parse_of_readIssuePattern {branches : BranchRules} {messages : MessageRules}
    {pattern : Pattern} (h : readIssuePattern branches messages = .ok (some pattern)) :
    Pattern.parse (Fragment.Enclose.pattern branches.before.toList messages.issuePattern.toList
      branches.after.toList) = .ok pattern := by
  unfold readIssuePattern issuePattern? at h
  split at h
  · next text htext =>
    split at htext
    · cases htext
    · cases htext
      unfold Pattern.ofField at h
      rw [branches.toList_issuePattern] at h
      split at h
      · next p hp =>
        cases h
        exact hp
      · cases h
  · cases h

/-- An issue id is the second group of a match. -/
theorem issueIn?_eq_some {pattern : Pattern} {branch id : String} :
    issueIn? pattern branch = some id ↔ pattern.groupCount = 3 ∧ ∃ w,
      pattern.search branch.toList = some w ∧
      w.group? 2 = some id.toList := by
  rw [issueIn?]
  split
  · next hcount =>
    simp only [Option.bind_eq_bind, Option.bind_eq_some_iff, Option.pure_def, Option.some.injEq]
    constructor
    · rintro ⟨w, hw, text, hgroup, rfl⟩
      exact ⟨hcount, w, hw, by rw [String.toList_ofList]; exact hgroup⟩
    · rintro ⟨-, w, hw, hgroup⟩
      exact ⟨w, hw, id.toList, hgroup, String.ofList_toList⟩
  · next hcount => simp [hcount]

variable {branches : BranchRules} {messages : MessageRules} {found : Option Pattern}
  {front issue back : Fragment}

/-- Where the fragment before the issue pattern has one group, and the pattern of branch names can
be read, an id that is found in a branch name is what the group around the issue pattern holds in a
match of the whole name: the name is made of a piece for each fragment, and the id is the piece in
the middle. One is found exactly if ids are looked for, the pattern has three groups and there are
such pieces. -/
theorem issueIn?_covers
    (hfragments : front.Enclose issue back branches.before.toList messages.issuePattern.toList
      branches.after.toList)
    (hone : front.groups = 1) (hread : readIssuePattern branches messages = .ok found)
    (branch : String) :
    (∀ id, found.bind (issueIn? · branch) = some id → ∃ pattern w before after,
      found = some pattern ∧
      pattern.search branch.toList = some w ∧ w.before = branch.toList.reverse ∧ w.after = [] ∧
      w.group? (front.groups + 1) = some id.toList ∧ branch.toList = before ++ id.toList ++ after ∧
      front.Covers issue back before id.toList after) ∧
    ((found.bind (issueIn? · branch)).isSome ↔ ∃ pattern before id after, found = some pattern ∧
      pattern.groupCount = 3 ∧ branch.toList = before ++ id ++ after ∧
        front.Covers issue back before id after) := by
  cases found with
  | none => exact ⟨nofun, by simp⟩
  | some pattern =>
    have hsearch := hfragments.search (parse_of_readIssuePattern hread) branch.toList
    rw [hone] at *
    rw [Option.bind_some]
    constructor
    · intro id hid
      obtain ⟨-, w, hw, hgroup⟩ := issueIn?_eq_some.1 hid
      rw [hw] at hsearch
      obtain ⟨hbefore, hafter, p, q, r, hsplit, hcovers, hgroup'⟩ := hsearch
      obtain rfl := Option.some.inj (hgroup.symm.trans hgroup')
      exact ⟨pattern, w, p, r, rfl, hw, hbefore, hafter, hgroup, hsplit, hcovers⟩
    · rw [Option.isSome_iff_exists]
      constructor
      · rintro ⟨id, hid⟩
        obtain ⟨hcount, w, hw, hgroup⟩ := issueIn?_eq_some.1 hid
        rw [hw] at hsearch
        obtain ⟨-, -, p, q, r, hsplit, hcovers, -⟩ := hsearch
        exact ⟨pattern, p, q, r, rfl, hcount, hsplit, hcovers⟩
      · rintro ⟨_, p, q, r, hpattern, hcount, hsplit, hcovers⟩
        obtain rfl := Option.some.inj hpattern
        cases hw : pattern.search branch.toList with
        | none =>
          rw [hw] at hsearch
          exact absurd hcovers (hsearch p q r hsplit)
        | some w =>
          rw [hw] at hsearch
          obtain ⟨-, -, -, id, -, -, -, hgroup⟩ := hsearch
          exact ⟨String.ofList id,
            issueIn?_eq_some.2 ⟨hcount, w, hw, by rw [String.toList_ofList]; exact hgroup⟩⟩

/-- With the fragments that are configured if no others are, the id in `feature/JIRA-12-x` is
`JIRA-12`. -/
theorem issueIn?_covers_feature : ∃ front issue back found,
    Fragment.Enclose front issue back ({} : BranchRules).before.toList
      ({} : MessageRules).issuePattern.toList
      ({} : BranchRules).after.toList ∧
    front.groups = 1 ∧ readIssuePattern {} {} = .ok found ∧
    found.bind (issueIn? · "feature/JIRA-12-x") = some "JIRA-12" ∧
    ∃ before after, "feature/JIRA-12-x".toList = before ++ "JIRA-12".toList ++ after ∧
      front.Covers issue back before "JIRA-12".toList after := by
  have hfragments : Fragment.Enclose
      ⟨{ items := [.optional true (.group 1 (.seq
          (.many true (.one (.bracket false (.range 'a' 'z')))) (.one (.single '/'))))]
         repeatable := true }, 1⟩
      ⟨{ items := [.many true (.one (.bracket false (.range '0' '9'))), .one (.single '-'),
        .many true (.one (.bracket false (.range 'A' 'Z')))], repeatable := true }, 0⟩
      ⟨{ items := [.optional true (.group 1 (.seq (.one (.single '-'))
        (.optional true (.many true (.one .exceptLineFeed)))))], repeatable := true }, 1⟩
      ({} : BranchRules).before.toList ({} : MessageRules).issuePattern.toList
        ({} : BranchRules).after.toList := by
    decide +kernel
  obtain ⟨found, hread, hid⟩ := exists_of_any (x := readIssuePattern {} {})
    (p := fun found => found.bind (issueIn? · "feature/JIRA-12-x") == some "JIRA-12")
    (by decide +kernel)
  have hid := eq_of_beq hid
  obtain ⟨_, _, before, after, -, -, -, -, -, hsplit, hcovers⟩ :=
    (issueIn?_covers hfragments rfl hread "feature/JIRA-12-x").1 "JIRA-12" hid
  exact ⟨_, _, _, found, hfragments, rfl, hread, hid, before, after, hsplit, hcovers⟩

/-- With two groups before the issue pattern and none after it, there are three groups as well, and
the piece of the second one is taken for the id: `fix-` in `feature/fix-JIRA-12`, where the group
around the issue pattern holds `JIRA-12`. The issue pattern does not match what is taken. -/
theorem issueIn?_secondGroup : ∃ front issue back pattern w,
    Fragment.Enclose front issue back "([a-z]+/)?([a-z]+-)?".toList
      ({} : MessageRules).issuePattern.toList [] ∧
    front.groups = 2 ∧
    readIssuePattern { before := "([a-z]+/)?([a-z]+-)?", after := "" } {} = .ok (some pattern) ∧
    issueIn? pattern "feature/fix-JIRA-12" = some "fix-" ∧
    pattern.search "feature/fix-JIRA-12".toList = some w ∧ w.group? 3 = some "JIRA-12".toList ∧
    ∀ before after, ¬ front.Covers issue back before "fix-".toList after := by
  obtain ⟨found, hread, hfound⟩ := exists_of_any
    (x := readIssuePattern { before := "([a-z]+/)?([a-z]+-)?", after := "" } {})
    (p := fun found => found.any fun pattern =>
      issueIn? pattern "feature/fix-JIRA-12" == some "fix-" &&
        (pattern.search "feature/fix-JIRA-12".toList).any (·.group? 3 == some "JIRA-12".toList))
    (by decide +kernel)
  obtain ⟨pattern, rfl, hfound⟩ := (Option.any_eq_true _ _).1 hfound
  obtain ⟨hid, hfound⟩ := Bool.and_eq_true_iff.1 hfound
  obtain ⟨w, hw, hgroup⟩ := (Option.any_eq_true _ _).1 hfound
  have hfragments : Fragment.Enclose
      ⟨{ items := [.optional true (.group 2 (.seq
            (.many true (.one (.bracket false (.range 'a' 'z')))) (.one (.single '-')))),
          .optional true (.group 1 (.seq
            (.many true (.one (.bracket false (.range 'a' 'z')))) (.one (.single '/'))))]
         repeatable := true }, 2⟩
      ⟨{ items := [.many true (.one (.bracket false (.range '0' '9'))), .one (.single '-'),
        .many true (.one (.bracket false (.range 'A' 'Z')))], repeatable := true }, 0⟩
      ⟨{}, 0⟩ "([a-z]+/)?([a-z]+-)?".toList ({} : MessageRules).issuePattern.toList [] := by
    decide +kernel
  refine ⟨_, _, _, pattern, w, hfragments, rfl, hread, eq_of_beq hid, hw, eq_of_beq hgroup, ?_⟩
  rintro before after ⟨-, ⟨recorded, hrecords⟩, -⟩
  -- the issue pattern starts with a capital letter, so there is no way to match the text
  exact List.not_mem_nil hrecords

end ConventionalRelease
