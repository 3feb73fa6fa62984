import ConventionalRelease.Proofs.Regex.Numbering
import ConventionalRelease.Proofs.Regex.Reading
import ConventionalRelease.Regex.Pattern

/-!
# Fragments of patterns

A text that can be read as a pattern by itself (`regex_parse`) is a fragment of the patterns that it
is part of: its tokens make the same expression there, behind the groups that come before it
(`Fragment.parts_of_run`, `Fragment.group_of_run`). That is so step by step: the open groups of the
whole pattern are those of the fragment, inside the groups around it (`Builder.Continues`).
-/

namespace ConventionalRelease.Regex

/-- Without bars, what has been read of a group is the sequence of its parts. -/
theorem Level.regex_eq {level : Level} (h : level.branches = []) :
    level.regex = sequence level.items.reverse := by
  rw [Level.regex, h]
  rfl

/-- What a part of a pattern writes by itself. -/
structure Fragment where
  /-- Its alternatives, and the flags that are in force behind it. -/
  level : Level
  /-- The number of its groups. -/
  groups : Nat
  deriving DecidableEq, Repr, Inhabited

namespace Fragment

/-- The fragment that tokens write, with the flags that are in force before it. -/
def ofTokens (flags : Flags) (tokens : List Token) : Except Error Fragment := do
  let b ← Builder.run { level := { flags := flags } } tokens
  if b.outer.isEmpty then
    return ⟨b.level, b.count⟩
  else
    throw .groupUnclosed

/-- Reads a fragment from its text, with the flags that are in force before it. -/
def read (flags : Flags) (text : List Char) : Except Error Fragment := do
  ofTokens flags (← Token.ofText text)

/-- The expression of the fragment. -/
def regex (f : Fragment) : Regex :=
  f.level.regex

/-- The flags that are in force behind the fragment. -/
def flags (f : Fragment) : Flags :=
  f.level.flags

/-- The parts of the last alternative. -/
def parts (f : Fragment) : List Regex :=
  f.level.items.reverse

/-- Whether there are no alternatives outside of the fragment's groups. -/
def IsSequence (f : Fragment) : Prop :=
  f.level.branches = []

instance (f : Fragment) : Decidable f.IsSequence :=
  inferInstanceAs (Decidable (_ = _))

/-- Without alternatives, a fragment is the sequence of its parts. -/
theorem IsSequence.regex_eq {f : Fragment} (h : f.IsSequence) : f.regex = sequence f.parts :=
  Level.regex_eq h

end Fragment

/-- A pattern is the fragment that its text writes by itself. -/
theorem regex_parse (text : List Char) :
    (Pattern.parse text).map (·.regex) = (Fragment.read {} text).map (·.regex) := by
  unfold Pattern.parse Fragment.read
  cases Token.ofText text with
  | error e => rfl
  | ok tokens =>
    change (Pattern.ofTokens tokens).map (·.regex) = (Fragment.ofTokens {} tokens).map (·.regex)
    unfold Pattern.ofTokens Fragment.ofTokens
    cases Builder.run {} tokens with
    | error e => rfl
    | ok b =>
      change Except.map _ (if b.outer.isEmpty = true then _ else _) =
        Except.map _ (if b.outer.isEmpty = true then _ else _)
      split <;> rfl

variable {k : Nat} {base : List Regex} {around : List (Level × Option Nat)}

/-- Whether a level of a pattern goes on from the parts `base` as a level of a fragment goes on from
nothing, behind `k` other groups. A bar makes an alternative of all that is before it, so where
there are parts before the fragment, this is about fragments without bars. -/
structure Level.Continues (k : Nat) (base : List Regex) (own whole : Level) : Prop where
  flags : whole.flags = own.flags
  parts : base = [] ∨ own.branches = [] →
    whole.branches = own.branches.map (renumber k) ∧
      whole.items = own.items.map (renumber k) ++ base

namespace Level.Continues

variable {own whole : Level}

/-- A group that was just opened. -/
theorem fresh (flags : Flags) : Level.Continues k [] { flags := flags } { flags := flags } :=
  ⟨rfl, fun _ => ⟨rfl, rfl⟩⟩

theorem push (h : own.Continues k base whole) (r : Regex) :
    (own.push r).Continues k base (whole.push (r.renumber k)) where
  flags := h.flags
  parts hbase := by
    obtain ⟨hbranches, hitems⟩ := h.parts hbase
    exact ⟨hbranches, congrArg (r.renumber k :: ·) hitems⟩

/-- Inside a group, what was read since the last bar is what the fragment has there. -/
theorem branch (h : own.Continues k [] whole) : whole.branch = own.branch.renumber k := by
  obtain ⟨-, hitems⟩ := h.parts (.inl rfl)
  rw [Level.branch, Level.branch, renumber_sequence, hitems, List.append_nil, List.map_reverse]

/-- Inside a group, the expression of a level is that of the fragment's. -/
theorem regex (h : own.Continues k [] whole) : whole.regex = own.regex.renumber k := by
  obtain ⟨hbranches, -⟩ := h.parts (.inl rfl)
  rw [Level.regex, Level.regex, renumber_choice, hbranches, h.branch, List.map_reverse,
    List.map_cons]

theorem nextBranch (h : own.Continues k base whole) :
    own.nextBranch.Continues k base whole.nextBranch where
  flags := h.flags
  parts hbase := by
    obtain rfl : base = [] := hbase.resolve_right (List.cons_ne_nil _ _)
    obtain ⟨hbranches, -⟩ := h.parts (.inl rfl)
    exact ⟨by simp [Level.nextBranch, hbranches, h.branch], rfl⟩

end Level.Continues

/-- Whether the open groups of a pattern are those of a fragment, inside the groups `around` it. -/
inductive Stacked (k : Nat) (base : List Regex) (around : List (Level × Option Nat)) :
    Level → List (Level × Option Nat) → Level → List (Level × Option Nat) → Prop
  | bottom {own whole : Level} :
  own.Continues k base whole → Stacked k base around own [] whole around
  | inner {own whole level level' : Level} {outer outer' : List (Level × Option Nat)}
    {index : Option Nat} :
    own.Continues k [] whole → Stacked k base around level outer level' outer' →
      Stacked k base around own ((level, index) :: outer) whole
        ((level', index.map (laterIndex k)) :: outer')

namespace Stacked

variable {own whole own' whole' : Level} {outer outer' : List (Level × Option Nat)}

theorem flags (h : Stacked k base around own outer whole outer') : whole.flags = own.flags := by
  cases h with
  | bottom h => exact h.flags
  | inner h _ => exact h.flags

/-- The innermost level may go on. -/
theorem map (h : Stacked k base around own outer whole outer')
    (hlevel : ∀ base, own.Continues k base whole → own'.Continues k base whole') :
    Stacked k base around own' outer whole' outer' := by
  cases h with
  | bottom h => exact .bottom (hlevel base h)
  | inner h hrest => exact .inner (hlevel [] h) hrest

end Stacked

namespace Builder

/-- A recorded group is counted, whatever its name is. -/
theorem openGroup_capture {b b' : Builder} {name : Option String}
    (h : b.openGroup (.capture name) = .ok b') :
    b'.level = { flags := b.level.flags } ∧ b'.outer = (b.level, some (b.count + 1)) :: b.outer ∧
      b'.count = b.count + 1 := by
  unfold openGroup at h
  dsimp only at h
  split at h
  · cases h
    exact ⟨rfl, rfl, rfl⟩
  · split at h <;> cases h
    exact ⟨rfl, rfl, rfl⟩

/-- Whether a builder of a pattern goes on from the parts `base` inside the groups `around` them as
that of a fragment goes on from nothing, behind `k` other groups. -/
structure Continues (k : Nat) (base : List Regex) (around : List (Level × Option Nat))
    (own whole : Builder) : Prop where
  stack : Stacked k base around own.level own.outer whole.level whole.outer
  count : whole.count = k + own.count

namespace Continues

variable {own whole own' whole' : Builder}

theorem push (h : Continues k base around own whole) (r : Regex) :
    Continues k base around (own.push r) (whole.push (r.renumber k)) :=
  ⟨h.stack.map fun _ hlevel => hlevel.push r, h.count⟩

theorem openGroup {o : Opening} (h : Continues k base around own whole)
    (hown : own.openGroup o = .ok own') (hwhole : whole.openGroup o = .ok whole') :
    Continues k base around own' whole' := by
  have hflags := h.stack.flags
  cases o with
  | plain changes =>
    cases hown
    cases hwhole
    exact ⟨.inner (hflags ▸ .fresh _) h.stack, h.count⟩
  | capture name =>
    obtain ⟨hlevel, houter, hcount⟩ := openGroup_capture hown
    obtain ⟨hlevel', houter', hcount'⟩ := openGroup_capture hwhole
    have hindex : some (whole.count + 1) = (some (own.count + 1)).map (laterIndex k) := by
      rw [Option.map_some, laterIndex, if_neg (Nat.succ_ne_zero _), h.count]
      congr 1
      omega
    refine ⟨?_, by rw [hcount, hcount', h.count, Nat.add_assoc]⟩
    rw [hlevel, houter, hlevel', houter', hindex, hflags]
    exact .inner (.fresh _) h.stack

theorem closeGroup (h : Continues k base around own whole) (hown : own.closeGroup = .ok own')
    (hwhole : whole.closeGroup = .ok whole') : Continues k base around own' whole' := by
  obtain ⟨level, outer, count, names⟩ := own
  obtain ⟨level', outer', count', names'⟩ := whole
  obtain ⟨hstack, hcount⟩ := h
  dsimp only at hstack hcount
  cases hstack with
  | bottom => cases hown
  | @inner _ _ around₁ around₁' outer outer' index hlevel hrest =>
    cases hown
    cases hwhole
    refine ⟨?_, hcount⟩
    cases index with
    | none => exact hrest.map fun _ h => hlevel.regex ▸ h.push _
    | some index => exact hrest.map fun _ h => hlevel.regex ▸ h.push (.group index _)

theorem repeatLast {min : Nat} {max : Option Nat} {marked : Bool}
    (h : Continues k base around own whole) (hown : own.repeatLast min max marked = .ok own')
    (hwhole : whole.repeatLast min max marked = .ok whole') :
    Continues k base around own' whole' := by
  have hflags := h.stack.flags
  unfold Builder.repeatLast at hown hwhole
  split at hown
  · next r rest _ hitems =>
    split at hwhole
    · next r' rest' _ hitems' =>
      cases hown
      cases hwhole
      refine ⟨h.stack.map fun base hlevel => ⟨hlevel.flags, fun hbase => ?_⟩, h.count⟩
      obtain ⟨hbranches, hparts⟩ := hlevel.parts hbase
      rw [hitems, hitems'] at hparts
      obtain ⟨rfl, rfl⟩ := List.cons.inj hparts
      refine ⟨hbranches, ?_⟩
      rw [hflags, ← renumber_repeated]
      rfl
    · cases hwhole
  · cases hown

/-- Taking a token keeps it so. -/
theorem step {token : Token} (h : Continues k base around own whole)
    (hown : own.step token = .ok own') (hwhole : whole.step token = .ok whole') :
    Continues k base around own' whole' := by
  have hflags := h.stack.flags
  cases token with
  | opening o => exact h.openGroup hown hwhole
  | closing => exact h.closeGroup hown hwhole
  | repetition min max marked => exact h.repeatLast hown hwhole
  | bar =>
    cases hown
    cases hwhole
    exact ⟨h.stack.map fun _ hlevel => hlevel.nextBranch, h.count⟩
  | flags changes =>
    cases hown
    cases hwhole
    exact ⟨h.stack.map fun _ hlevel =>
      ⟨congrArg (Flags.change · changes) hlevel.flags, hlevel.parts⟩, h.count⟩
  | char c =>
    cases hown
    cases hwhole
    rw [pushSet, pushSet, hflags]
    exact h.push (.one _)
  | set s =>
    cases hown
    cases hwhole
    rw [pushSet, pushSet, hflags]
    exact h.push (.one _)
  | dot =>
    cases hown
    cases hwhole
    rw [hflags]
    exact h.push (.one _)
  | start =>
    cases hown
    cases hwhole
    rw [hflags]
    exact h.push (.anchor _)
  | stop =>
    cases hown
    cases hwhole
    rw [hflags]
    exact h.push (.anchor _)
  | anchor a =>
    cases hown
    cases hwhole
    exact h.push (.anchor a)

/-- Taking tokens keeps it so. -/
theorem run {tokens : List Token} (h : Continues k base around own whole)
    (hown : own.run tokens = .ok own') (hwhole : whole.run tokens = .ok whole') :
    Continues k base around own' whole' := by
  induction tokens generalizing own whole with
  | nil =>
    cases hown
    cases hwhole
    exact h
  | cons token tokens ih =>
    obtain ⟨own₁, hstep, hown⟩ := bind_eq_ok.1 hown
    obtain ⟨whole₁, hstep', hwhole⟩ := bind_eq_ok.1 hwhole
    exact ih (h.step hstep hstep') hown hwhole

end Continues

end Builder

/-- Tokens are taken in order. -/
theorem Builder.run_append (b : Builder) (tokens others : List Token) :
    b.run (tokens ++ others) = b.run tokens >>= (·.run others) := by
  induction tokens generalizing b with
  | nil => rfl
  | cons token tokens ih =>
    rw [List.cons_append, run, run, bind_assoc]
    exact bind_congr fun c => ih c

namespace Fragment

variable {flags : Flags} {tokens : List Token} {text : List Char} {f : Fragment}

/-- A pattern goes on by the tokens of a fragment as the fragment does. -/
theorem continues_of_run {b b' : Builder} (hf : ofTokens flags tokens = .ok f)
    (hflags : b.level.flags = flags) (hbranches : b.level.branches = [])
    (hrun : b.run tokens = .ok b') :
    f.level.Continues b.count b.level.items b'.level ∧ b'.outer = b.outer ∧
      b'.count = b.count + f.groups := by
  obtain ⟨own, hown, hf⟩ := bind_eq_ok.1 hf
  have hstart : Builder.Continues b.count b.level.items b.outer { level := { flags := flags } } b :=
    ⟨.bottom ⟨hflags, fun _ => ⟨hbranches, rfl⟩⟩, rfl⟩
  obtain ⟨hstack, hcount⟩ := hstart.run hown hrun
  split at hf
  · next hempty =>
    cases hf
    rw [List.isEmpty_iff.1 hempty] at hstack
    generalize b'.outer = outer at hstack
    cases hstack with
    | bottom hlevel => exact ⟨hlevel, rfl, hcount⟩
  · cases hf

/-- Without alternatives, the parts of the fragment come behind those that are there. -/
theorem parts_of_run {b b' : Builder} (hf : ofTokens flags tokens = .ok f)
    (hsequence : f.IsSequence) (hflags : b.level.flags = flags) (hbranches : b.level.branches = [])
    (hrun : b.run tokens = .ok b') :
    b'.level.branches = [] ∧
      b'.level.items = f.level.items.map (renumber b.count) ++ b.level.items ∧
      b'.level.flags = f.flags ∧ b'.count = b.count + f.groups := by
  obtain ⟨hlevel, -, hcount⟩ := continues_of_run hf hflags hbranches hrun
  obtain ⟨hbranches', hitems⟩ := hlevel.parts (.inr hsequence)
  rw [hsequence] at hbranches'
  exact ⟨hbranches', hitems, hlevel.flags, hcount⟩

/-- Inside a group, the fragment is one part behind those that are there, whatever alternatives it
has. -/
theorem group_of_run {b b' : Builder} {others : List Token}
    (hf : ofTokens b.level.flags tokens = .ok f)
    (hrun : b.run (.opening (.capture none) :: (tokens ++ .closing :: others)) = .ok b') :
    ∃ c : Builder, c.level = b.level.push (.group (b.count + 1) (f.regex.renumber (b.count + 1))) ∧
      c.count = b.count + 1 + f.groups ∧ c.run others = .ok b' := by
  obtain ⟨opened, hopened, hrun⟩ := bind_eq_ok.1 hrun
  rw [Builder.run_append] at hrun
  obtain ⟨inside, hinside, hrun⟩ := bind_eq_ok.1 hrun
  obtain ⟨closed, hclosed, hrun⟩ := bind_eq_ok.1 hrun
  change b.openGroup (.capture none) = .ok opened at hopened
  obtain ⟨hlevel, houter, hcount⟩ := Builder.openGroup_capture hopened
  obtain ⟨hinner, houter', hcount'⟩ := continues_of_run hf (hlevel ▸ rfl) (hlevel ▸ rfl) hinside
  rw [hlevel, hcount] at hinner
  change inside.closeGroup = .ok closed at hclosed
  unfold Builder.closeGroup at hclosed
  rw [houter', houter] at hclosed
  cases hclosed
  exact ⟨_, congrArg (fun r => b.level.push (.group (b.count + 1) r)) hinner.regex,
    hcount ▸ hcount', hrun⟩

/-- A fragment does not start with a question mark. -/
theorem head?_ne (h : read flags text = .ok f) : text.head? ≠ some '?' := by
  intro hhead
  obtain ⟨rest, rfl⟩ := List.head?_eq_some_iff.1 hhead
  obtain ⟨tokens, htokens, h⟩ := bind_eq_ok.1 h
  obtain ⟨⟨token, used⟩, hread, htokens⟩ := bind_eq_ok.1 htokens
  obtain ⟨others, -, htokens⟩ := bind_eq_ok.1 htokens
  obtain rfl := Except.ok.inj htokens
  -- a question mark is a repetition, and there is nothing before it
  obtain ⟨min, max, marked, rfl⟩ : ∃ min max marked, token = .repetition min max marked := by
    have hpair := congrArg Prod.fst (Except.ok.inj hread)
    unfold readRepetition at hpair
    split at hpair
    · exact ⟨0, some 1, true, hpair.symm⟩
    · exact ⟨0, some 1, false, hpair.symm⟩
  obtain ⟨b, hrun, -⟩ := bind_eq_ok.1 h
  obtain ⟨c, hstep, -⟩ := bind_eq_ok.1 hrun
  cases hstep

end Fragment

end ConventionalRelease.Regex
