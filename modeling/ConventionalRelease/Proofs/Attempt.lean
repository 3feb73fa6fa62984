import ConventionalRelease.Release.Failure
import Mathlib.Data.List.Forall2

/-!
# Results of attempts

When a sequence of attempts succeeds, each of them does (`bind_eq_ok`, `mapM_eq_ok`), and naming
what is being done changes neither the value of an attempt nor the cause of its failure
(`Attempt.within_eq_ok`, `Attempt.within_eq_error`).
-/

namespace ConventionalRelease

section
variable {ε δ α β : Type}

/-- A sequence succeeds when its first part does, and its second part does with the value of the
first. -/
theorem bind_eq_ok {x : Except ε α} {f : α → Except ε β} {b : β} :
    (x >>= f) = .ok b ↔ ∃ a, x = .ok a ∧ f a = .ok b := by
  cases x <;> simp [bind, Except.bind]

/-- A sequence fails when one of its parts does. -/
theorem bind_eq_error {x : Except ε α} {f : α → Except ε β} {e : ε} :
    (x >>= f) = .error e ↔ x = .error e ∨ ∃ a, x = .ok a ∧ f a = .error e := by
  cases x <;> simp [bind, Except.bind]

/-- A value that may be missing is one when it is there. -/
theorem elim_error_eq_ok {x : Option α} {e : ε} {a : α} :
    x.elim (.error e) .ok = Except.ok a ↔ x = some a := by
  cases x <;> simp

/-- Going through a list succeeds when each element does. -/
theorem mapM_eq_ok {f : α → Except ε β} {as : List α} {bs : List β} :
    as.mapM f = .ok bs ↔ List.Forall₂ (fun a b => f a = .ok b) as bs := by
  induction as generalizing bs with
  | nil =>
    rw [List.mapM_nil, List.forall₂_nil_left_iff]
    exact ⟨fun h => (Except.ok.inj h).symm, fun h => h ▸ rfl⟩
  | cons a as ih =>
    rw [List.mapM_cons, bind_eq_ok, List.forall₂_cons_left_iff]
    constructor
    · rintro ⟨b, hb, hrest⟩
      obtain ⟨cs, hcs, hret⟩ := bind_eq_ok.1 hrest
      exact ⟨b, cs, hb, ih.1 hcs, (Except.ok.inj hret).symm⟩
    · rintro ⟨b, cs, hb, hcs, rfl⟩
      exact ⟨b, hb, bind_eq_ok.2 ⟨cs, ih.2 hcs, rfl⟩⟩

/-- Going through a list comes to the same where each element does. -/
theorem mapM_congr {f g : α → Except ε β} {as : List α} (h : ∀ a ∈ as, f a = g a) :
    as.mapM f = as.mapM g := by
  induction as with
  | nil => rfl
  | cons a as ih =>
    rw [List.mapM_cons, List.mapM_cons, h a List.mem_cons_self,
      ih fun b hb => h b (List.mem_cons_of_mem _ hb)]

/-- Going through a list succeeds if each element has a value. -/
theorem exists_mapM_eq_ok {f : α → Except ε β} (as : List α) (h : ∀ a ∈ as, ∃ b, f a = .ok b) :
    ∃ bs, as.mapM f = .ok bs := by
  induction as with
  | nil => exact ⟨[], mapM_eq_ok.2 .nil⟩
  | cons a as ih =>
    obtain ⟨b, hb⟩ := h a List.mem_cons_self
    obtain ⟨bs, hbs⟩ := ih fun a ha => h a (List.mem_cons_of_mem _ ha)
    exact ⟨b :: bs, mapM_eq_ok.2 (.cons hb (mapM_eq_ok.1 hbs))⟩

/-- What comes of going through a list stands where the element stands that it comes of. -/
theorem getElem?_of_mapM {f : α → Except ε β} {as : List α} {bs : List β}
    (h : as.mapM f = .ok bs) {i : Nat} {a : α} (ha : as[i]? = some a) :
    ∃ b, bs[i]? = some b ∧ f a = .ok b := by
  rw [mapM_eq_ok] at h
  induction h generalizing i with
  | nil => cases ha
  | @cons c b as bs hhead _ ih =>
    cases i with
    | zero =>
      obtain rfl : c = a := Option.some.inj ha
      exact ⟨b, rfl, hhead⟩
    | succ i => exact ih ha

/-- What comes of going through a list comes of its elements. -/
theorem exists_of_mem_mapM {f : α → Except ε β} {as : List α} {bs : List β} (h : as.mapM f = .ok bs)
    {b : β} (hb : b ∈ bs) : ∃ a ∈ as, f a = .ok b := by
  rw [mapM_eq_ok] at h
  induction h with
  | nil => cases hb
  | cons hhead _ ih =>
    rcases List.mem_cons.1 hb with rfl | hb
    · exact ⟨_, List.mem_cons_self, hhead⟩
    · obtain ⟨a, ha, hab⟩ := ih hb
      exact ⟨a, List.mem_cons_of_mem _ ha, hab⟩

/-- An element that may be missing fails if it is there and fails. -/
theorem option_mapM_eq_error {f : α → Except ε β} {x : Option α} {e : ε} :
    (x.mapM f : Except ε (Option β)) = .error e ↔ ∃ a ∈ x, f a = .error e := by
  cases x with
  | none => exact ⟨nofun, nofun⟩
  | some a =>
    show (some <$> f a : Except ε (Option β)) = _ ↔ _
    cases hf : f a <;> simp [hf, Functor.map, Except.map]

/-- A sequence of steps fails when one of them does. -/
theorem exists_of_foldlM_eq_error {σ : Type} {f : σ → α → Except ε σ} {as : List α} {s : σ} {e : ε}
    (h : as.foldlM f s = .error e) : ∃ a ∈ as, ∃ s, f s a = .error e := by
  induction as generalizing s with
  | nil => cases h
  | cons a as ih =>
    rw [List.foldlM_cons] at h
    rcases bind_eq_error.1 h with h | ⟨_, -, h⟩
    · exact ⟨a, List.mem_cons_self, s, h⟩
    · obtain ⟨b, hb, hstep⟩ := ih h
      exact ⟨b, List.mem_cons_of_mem _ hb, hstep⟩

/-- Going through the elements that are kept gives what comes of them. -/
theorem mapM_filter {f : α → Except ε β} {as : List α} {bs : List β} (kept : α → Bool)
    (h : as.mapM f = .ok bs) :
    (as.filter kept).mapM f = .ok (((as.zip bs).filter (kept ·.1)).map (·.2)) := by
  rw [mapM_eq_ok] at h ⊢
  induction h with
  | nil => exact .nil
  | @cons a b as bs hhead _ ih =>
    rw [List.zip_cons_cons, List.filter_cons, List.filter_cons]
    cases kept a with
    | true => exact .cons hhead ih
    | false => exact ih

/-- Going through a list in two steps for each element succeeds when all first steps do, and all
second steps with their values. -/
theorem mapM_bind_eq_ok {γ : Type} {f : α → Except ε β} {g : α → β → Except ε γ} {as : List α}
    {cs : List γ} :
    (as.mapM fun a => f a >>= g a) = .ok cs ↔
      ∃ bs, as.mapM f = .ok bs ∧ (as.zip bs).mapM (fun (a, b) => g a b) = .ok cs := by
  induction as generalizing cs with
  | nil => exact ⟨fun h => ⟨[], rfl, h⟩, fun ⟨_, _, h⟩ => by rw [List.zip_nil_left] at h; exact h⟩
  | cons a as ih =>
    simp only [mapM_eq_ok, List.forall₂_cons_left_iff, bind_eq_ok] at ih ⊢
    constructor
    · rintro ⟨c, cs, ⟨b, hb, hc⟩, hcs, rfl⟩
      obtain ⟨bs, hbs, hzip⟩ := ih.1 hcs
      exact ⟨b :: bs, ⟨b, bs, hb, hbs, rfl⟩, .cons hc hzip⟩
    · rintro ⟨_, ⟨b, bs, hb, hbs, rfl⟩, hzip⟩
      obtain ⟨c, cs, hc, hcs, rfl⟩ := List.forall₂_cons_left_iff.1 hzip
      exact ⟨c, cs, ⟨b, hb, hc⟩, ih.2 ⟨bs, hbs, hcs⟩, rfl⟩

/-- Putting an error in other words changes no value. -/
theorem mapError_eq_ok {words : ε → δ} {x : Except ε α} {a : α} :
    x.mapError words = .ok a ↔ x = .ok a := by
  cases x with
  | error e => exact ⟨nofun, nofun⟩
  | ok b => exact ⟨fun h => congrArg Except.ok (Except.ok.inj h),
      fun h => congrArg Except.ok (Except.ok.inj h)⟩

/-- An error in other words comes from an error. -/
theorem error_of_mapError {words : ε → δ} {x : Except ε α} {d : δ}
    (h : x.mapError words = .error d) : ∃ e, x = .error e ∧ words e = d := by
  cases x with
  | error e => cases h; exact ⟨e, rfl, rfl⟩
  | ok b => cases h

/-- What is tried on the value of an attempt is true of it. -/
theorem exists_of_any {x : Except ε α} {p : α → Bool} (h : x.toOption.any p = true) :
    ∃ a, x = .ok a ∧ p a = true := by
  cases x with
  | error e => cases h
  | ok a => exact ⟨a, rfl, h⟩

/-- Two attempts come to the same: to values that are related, or to one error. -/
inductive Agrees (R : α → β → Prop) : Except ε α → Except ε β → Prop
  | ok {a : α} {b : β} (h : R a b) : Agrees R (.ok a) (.ok b)
  | error (e : ε) : Agrees R (.error e) (.error e)

/-- Sequences come to the same when their first parts do, and their second parts with related
values. -/
theorem Agrees.bind {α' β' : Type} {R : α → β → Prop} {S : α' → β' → Prop} {x : Except ε α}
    {y : Except ε β} {f : α → Except ε α'} {g : β → Except ε β'} (h : Agrees R x y)
    (hrest : ∀ a b, R a b → Agrees S (f a) (g b)) :
    Agrees S (x >>= f) (y >>= g) := by
  cases h with
  | ok hR => exact hrest _ _ hR
  | error e => exact .error e

/-- Of two attempts that come to the same both succeed or none. -/
theorem Agrees.exists_ok_iff {R : α → β → Prop} {x : Except ε α} {y : Except ε β}
    (h : Agrees R x y) :
    (∃ a, x = .ok a) ↔ ∃ b, y = .ok b := by
  cases h with
  | ok h => exact ⟨fun _ => ⟨_, rfl⟩, fun _ => ⟨_, rfl⟩⟩
  | error e => exact ⟨nofun, nofun⟩

/-- Of two attempts that come to the same one fails with an error if the other does. -/
theorem Agrees.eq_error_iff {R : α → β → Prop} {x : Except ε α} {y : Except ε β}
    (h : Agrees R x y) {e : ε} :
    x = .error e ↔ y = .error e := by
  cases h with
  | ok h => exact ⟨nofun, nofun⟩
  | error e' => exact ⟨fun h => congrArg Except.error (Except.error.inj h),
      fun h => congrArg Except.error (Except.error.inj h)⟩

end

namespace Attempt

variable {α : Type}

/-- Saying what is being done changes no value. -/
theorem within_eq_ok {context : String} {x : Attempt α} {a : α} :
    within context x = .ok a ↔ x = .ok a :=
  mapError_eq_ok

/-- Saying what is being done changes no cause. -/
theorem within_eq_error {context : String} {x : Attempt α} {f : Failure}
    (h : within context x = .error f) : ∃ g, x = .error g ∧ g.cause = f.cause := by
  obtain ⟨g, hg, rfl⟩ := error_of_mapError h
  exact ⟨g, hg, rfl⟩

end Attempt

end ConventionalRelease
