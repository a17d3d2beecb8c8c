import InfluenceProgram.Proofs.Success

/-!
Checks that are made one after the other. A computation that makes some checks in order has a result
if all of them hold, and otherwise its fault is what the first check that fails has to say.
-/

set_option autoImplicit false

namespace InfluenceProgram

/-- Something that has to hold, and what may be said where it does not. -/
structure Check (ε : Type) where
  holds : Prop
  blames : ε → Prop

namespace Check

variable {ε α β : Type}

/-- A check that has one thing to say. -/
def saying (holds : Prop) (fault : ε) : Check ε where
  holds
  blames := (· = fault)

/-- The fault is one that the first check that fails has to say. -/
def FirstFailing : List (Check ε) → ε → Prop
  | [], _ => False
  | check :: rest, fault =>
    (¬check.holds ∧ check.blames fault) ∨ (check.holds ∧ FirstFailing rest fault)

/-- The checks that a computation makes before it has a result. -/
structure Decide (outcome : Except ε α) (checks : List (Check ε)) : Prop where
  passes : (∃ a, outcome = .ok a) ↔ ∀ check ∈ checks, check.holds
  fails : ∀ fault, outcome = .error fault ↔ FirstFailing checks fault

variable {check : Check ε} {checks more : List (Check ε)} {fault : ε}

theorem firstFailing_append : FirstFailing (checks ++ more) fault ↔
    FirstFailing checks fault ∨ ((∀ check ∈ checks, check.holds) ∧ FirstFailing more fault) := by
  induction checks with
  | nil => simp [FirstFailing]
  | cons check checks ih =>
      rw [List.cons_append, FirstFailing, FirstFailing, ih, List.forall_mem_cons]
      tauto

/-- Only one of several checks fails first, so a fault is said only where one of them fails. -/
theorem FirstFailing.not_all (first : FirstFailing checks fault) :
    ¬∀ check ∈ checks, check.holds := by
  induction checks with
  | nil => exact first.elim
  | cons check checks ih =>
      rw [List.forall_mem_cons]
      rintro ⟨holds, rest⟩
      rcases first with ⟨fails, _⟩ | ⟨_, later⟩
      · exact fails holds
      · exact ih later rest

namespace Decide

theorem ok (a : α) : Decide (.ok a : Except ε α) [] where
  passes := by simp
  fails := by simp [FirstFailing]

/-- A computation that stops at a check that fails says what this check has to say. -/
theorem error (fails : ¬check.holds) (blame : ∀ other, check.blames other ↔ other = fault) :
    Decide (.error fault : Except ε α) (check :: more) where
  passes := by simp [fails]
  fails other := by
    simp only [Except.error.injEq, FirstFailing, fails, not_false_eq_true, true_and, false_and,
      or_false, blame]
    exact eq_comm

theorem error_saying {holds : Prop} (fails : ¬holds) (fault : ε) :
    Decide (.error fault : Except ε α) (.saying holds fault :: more) :=
  .error fails fun _ => Iff.rfl

/-- A check that holds leaves the others to be made. -/
theorem cons {outcome : Except ε α} (holds : check.holds) (rest : Decide outcome more) :
    Decide outcome (check :: more) where
  passes := by
    rw [rest.passes, List.forall_mem_cons]
    simp only [holds, true_and]
  fails other := by
    rw [rest.fails, FirstFailing]
    simp only [holds, not_true_eq_false, false_and, true_and, false_or]

theorem bind {first : Except ε α} {next : α → Except ε β} (begins : Decide first checks)
    (goesOn : ∀ a, first = .ok a → Decide (next a) more) :
    Decide (first >>= next) (checks ++ more) := by
  cases found : first with
  | ok a =>
      have rest := goesOn a found
      have all := begins.passes.mp ⟨a, found⟩
      rw [Success.ok_bind]
      constructor
      · rw [rest.passes, List.forall_mem_append]
        exact (and_iff_right all).symm
      · intro other
        have nothing : ¬FirstFailing checks other := fun first => first.not_all all
        rw [rest.fails, firstFailing_append, or_iff_right nothing, and_iff_right all]
  | error said =>
      have stopped := (begins.fails said).mp found
      have notAll : ¬∀ check ∈ checks, check.holds := stopped.not_all
      change Decide (.error said) (checks ++ more)
      constructor
      · rw [List.forall_mem_append]
        simp [notAll]
      · intro other
        rw [firstFailing_append, ← begins.fails, found]
        simp [notAll]

/-- What is done with a result has no say in the checks that were made for it. -/
theorem map_iff {outcome : Except ε α} {f : α → β} :
    Decide (outcome.map f) checks ↔ Decide outcome checks := by
  have passes : (∃ b, outcome.map f = .ok b) ↔ ∃ a, outcome = .ok a := by
    cases outcome <;> simp [Except.map]
  have fails : ∀ fault, outcome.map f = .error fault ↔ outcome = .error fault := by
    cases outcome <;> simp [Except.map]
  constructor
  · rintro ⟨passed, failed⟩
    exact ⟨passes.symm.trans passed, fun fault => (fails fault).symm.trans (failed fault)⟩
  · rintro ⟨passed, failed⟩
    exact ⟨passes.trans passed, fun fault => (fails fault).trans (failed fault)⟩

theorem mapM {f : α → Except ε β} {made : α → List (Check ε)} {xs : List α}
    (each : ∀ x ∈ xs, Decide (f x) (made x)) : Decide (xs.mapM f) (xs.flatMap made) := by
  induction xs with
  | nil => exact ok []
  | cons x xs ih =>
      obtain ⟨first, rest⟩ := List.forall_mem_cons.mp each
      rw [List.mapM_cons, List.flatMap_cons]
      refine first.bind fun y _ => ?_
      rw [← List.append_nil (xs.flatMap made)]
      exact (ih rest).bind fun ys _ => ok (y :: ys)

theorem forM {f : α → Except ε Unit} {made : α → List (Check ε)} {xs : List α}
    (each : ∀ x ∈ xs, Decide (f x) (made x)) : Decide (xs.forM f) (xs.flatMap made) := by
  induction xs with
  | nil => exact ok ()
  | cons x xs ih =>
      obtain ⟨first, rest⟩ := List.forall_mem_cons.mp each
      rw [List.forM_eq_forM, List.forM_cons, List.flatMap_cons]
      exact first.bind fun _ _ => ih rest

end Decide

end Check

end InfluenceProgram
