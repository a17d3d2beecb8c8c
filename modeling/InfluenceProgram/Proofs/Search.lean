import InfluenceProgram.Proofs.Success
import InfluenceProgram.Sorting.Search

/-!
Looking for a place. A test that holds exactly at the front of a row marks the end of this front,
and the search finds it, wherever it begins to look.
-/

set_option autoImplicit false

namespace InfluenceProgram.Sorting

/-- Below a limit a test holds exactly in front of a place. -/
def Marks (test : Test) (limit place : Nat) : Prop :=
  ∀ k < limit, test k = .ok (decide (k < place))

section Places

variable {test : Test} {limit place : Nat}

theorem bisect_eq {low high : Nat} (marks : Marks test high place) (above : low ≤ place)
    (below : place ≤ high) : bisect test low high = .ok place := by
  induction size : high - low using Nat.strong_induction_on generalizing low high with
  | _ size ih =>
    rw [bisect]
    by_cases more : low < high
    · have middle := marks (low + (high - low) / 2) (by omega)
      rw [if_pos more]
      dsimp only
      rw [middle, Success.ok_bind]
      by_cases front : low + (high - low) / 2 < place
      · rw [if_pos (by simpa using front)]
        exact ih (high - (low + (high - low) / 2 + 1)) (by omega) marks (by omega) below rfl
      · rw [if_neg (by simpa using front)]
        refine ih (low + (high - low) / 2 - low) (by omega) ?_ above (by omega) rfl
        exact fun k smaller => marks k (by omega)
    · rw [if_neg more, show low = place by omega]
      rfl

/-- Strides stop with the place between the last two of them. -/
theorem stride_spec {last : Nat} (marks : Marks test limit place) (inside : last < place)
    (within : place ≤ limit) (next : Nat) :
    ∃ a b, stride test limit last next = .ok (a, b) ∧ a < place ∧ place ≤ b := by
  induction size : limit - next using Nat.strong_induction_on generalizing last next with
  | _ size ih =>
    rw [stride]
    by_cases more : next < limit
    · rw [if_pos more, marks next more, Success.ok_bind]
      by_cases front : next < place
      · rw [if_pos (by simpa using front)]
        exact ih (limit - (2 * next + 1)) (by omega) front _ rfl
      · rw [if_neg (by simpa using front)]
        exact ⟨last, next, rfl, inside, by omega⟩
    · rw [if_neg more]
      exact ⟨last, limit, rfl, inside, within⟩

/-- The place that a test marks is found from any hint. -/
theorem boundary_eq {length : Nat} (marks : ∀ k, test k = .ok (decide (k < place)))
    (within : place ≤ length) (hint : Nat) : boundary test length hint = .ok place := by
  rw [boundary, marks hint, Success.ok_bind]
  by_cases front : hint < place
  · rw [if_pos (by simpa using front)]
    have ahead : Marks (fun k => test (hint + k)) (length - hint) (place - hint) := by
      intro k _
      dsimp only
      rw [marks]
      congr 2
      apply propext
      omega
    obtain ⟨a, b, found, low, high⟩ :=
      stride_spec ahead (show 0 < place - hint by omega) (by omega) 1
    rw [found, Success.ok_bind]
    exact bisect_eq (fun k _ => marks k) (by omega) (by omega)
  · rw [if_neg (by simpa using front)]
    have back : Marks (fun k => return !(← test (hint - k))) (hint + 1) (hint + 1 - place) := by
      intro k near
      have answer : (!decide (hint - k < place)) = decide (k < hint + 1 - place) := by
        rw [← decide_not]
        congr 1
        apply propext
        omega
      dsimp only
      rw [marks, Success.ok_bind, answer]
      rfl
    obtain ⟨a, b, found, low, high⟩ :=
      stride_spec back (show 0 < hint + 1 - place by omega) (by omega) 1
    rw [found, Success.ok_bind]
    exact bisect_eq (fun k _ => marks k) (by omega) (by omega)

end Places

variable {α : Type}

/-- A row in order splits where something stops to hold that does not begin to hold again. -/
theorem exists_split {order : α → α → Prop} (holds : α → Prop) [DecidablePred holds]
    {items : List α} (inOrder : items.Pairwise order)
    (closed : ∀ x y, order x y → holds y → holds x) :
    ∃ near far, near ++ far = items ∧ (∀ x ∈ near, holds x) ∧ ∀ x ∈ far, ¬holds x := by
  induction items with
  | nil => exact ⟨[], [], rfl, by simp, by simp⟩
  | cons x items ih =>
    obtain ⟨below, rest⟩ := List.pairwise_cons.mp inOrder
    by_cases first : holds x
    · obtain ⟨near, far, whole, held, fails⟩ := ih rest
      exact ⟨x :: near, far, by rw [List.cons_append, whole],
        List.forall_mem_cons.mpr ⟨first, held⟩, fails⟩
    · refine ⟨[], x :: items, rfl, by simp, List.forall_mem_cons.mpr ⟨first, ?_⟩⟩
      exact fun y member held => first (closed x y (below y member) held)

section Rows

variable {test : α → Except Fault Bool} {near far : List α}
  (holds : ∀ x ∈ near, test x = .ok true) (fails : ∀ x ∈ far, test x = .ok false)
include holds fails

/-- Asked for the items of a row one by one, a test marks the end of those for which it holds. -/
theorem testAt_append (k : Nat) :
    testAt test (near ++ far) k = .ok (decide (k < near.length)) := by
  rw [testAt]
  by_cases inside : k < near.length
  · rw [List.getElem?_append_left inside, List.getElem?_eq_getElem inside,
      decide_eq_true inside]
    exact holds _ (List.getElem_mem inside)
  · rw [List.getElem?_append_right (by omega), decide_eq_false inside]
    cases found : far[k - near.length]? with
    | none => rfl
    | some x => exact fails x (List.mem_of_getElem? found)

theorem boundary_append (hint : Nat) :
    boundary (testAt test (near ++ far)) (near ++ far).length hint = .ok near.length :=
  boundary_eq (testAt_append holds fails) (by simp) hint

theorem bisect_append :
    bisect (testAt test (near ++ far)) 0 (near ++ far).length = .ok near.length :=
  bisect_eq (fun k _ => testAt_append holds fails k) (Nat.zero_le _) (by simp)

end Rows

end InfluenceProgram.Sorting
