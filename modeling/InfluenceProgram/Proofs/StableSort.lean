import InfluenceProgram.Proofs.StableMerge
import InfluenceProgram.Proofs.StableRuns
import InfluenceProgram.Sorting

/-!
Sorting is stable. In whatever order the powers of the boundaries make neighbouring runs merge, the
pending runs stay in order and stand for the list so far, so in the end there is one run: the list
in order, with items of one rank as they came.
-/

set_option autoImplicit false

namespace InfluenceProgram.Sorting

variable {α κ : Type} [LinearOrder κ] {rank : α → κ} {known : α → Prop}
  {before : α → α → Except Fault Bool}

/-- Runs in order, the last one on its own and those before it backwards, stand for a list. -/
structure StandFor (rank : α → κ) (known : α → Prop) (runs : List (List α)) (last : List α)
    (items : List α) : Prop where
  runs_order : ∀ run ∈ runs, InOrder rank known run
  last_order : InOrder rank known last
  alike : Alike rank (runs.reverse.flatten ++ last) items

namespace StandFor

variable {runs : List (List α)} {run front last items : List α}

/-- A further run stands behind the others. -/
theorem push (standFor : StandFor rank known runs last items) (order : InOrder rank known run) :
    StandFor rank known (last :: runs) run (items ++ run) where
  runs_order := List.forall_mem_cons.mpr ⟨standFor.last_order, standFor.runs_order⟩
  last_order := order
  alike := by
    have behind := standFor.alike.append (.refl run)
    simpa using behind

theorem merge_last (answers : Answers before rank known)
    (standFor : StandFor rank known (run :: runs) last items) (patience : Nat) :
    ∃ out patience', merge before run last patience = .ok (out, patience') ∧
      StandFor rank known runs out items := by
  obtain ⟨order, rest⟩ := List.forall_mem_cons.mp standFor.runs_order
  obtain ⟨out, patience', merged, outOrder, alike⟩ :=
    merge_result answers order standFor.last_order patience
  refine ⟨out, patience', merged, rest, outOrder, ?_⟩
  have whole := standFor.alike
  rw [List.reverse_cons, List.flatten_append, List.flatten_singleton, List.append_assoc] at whole
  exact (alike.append_left _).trans whole

theorem merge_front (answers : Answers before rank known)
    (standFor : StandFor rank known (run :: front :: runs) last items) (patience : Nat) :
    ∃ out patience', merge before front run patience = .ok (out, patience') ∧
      StandFor rank known (out :: runs) last items := by
  obtain ⟨runOrder, rest⟩ := List.forall_mem_cons.mp standFor.runs_order
  obtain ⟨frontOrder, rest⟩ := List.forall_mem_cons.mp rest
  obtain ⟨out, patience', merged, outOrder, alike⟩ :=
    merge_result answers frontOrder runOrder patience
  refine ⟨out, patience', merged, List.forall_mem_cons.mpr ⟨outOrder, rest⟩,
    standFor.last_order, ?_⟩
  have whole := standFor.alike
  simp only [List.reverse_cons, List.flatten_append, List.flatten_singleton,
    List.append_assoc] at whole ⊢
  refine Alike.trans ?_ whole
  rw [← List.append_assoc front]
  exact (alike.append (.refl last)).append_left _

end StandFor

theorem collapse_spec (answers : Answers before rank known) (power : Nat)
    {pending : List (Pending α)} {last items : List α}
    (standFor : StandFor rank known (pending.map (·.run)) last items) (patience : Nat) :
    ∃ pending' last' patience', collapse before power pending last patience =
        .ok (pending', last', patience') ∧
      StandFor rank known (pending'.map (·.run)) last' items := by
  induction pending generalizing last patience with
  | nil => exact ⟨[], last, patience, rfl, standFor⟩
  | cons p rest ih =>
    rw [collapse]
    by_cases lower : power < p.power
    · obtain ⟨out, patience', merged, standFor'⟩ := standFor.merge_last answers patience
      rw [if_pos lower, merged, Success.ok_bind]
      exact ih standFor' patience'
    · rw [if_neg lower]
      exact ⟨p :: rest, last, patience, rfl, standFor⟩

theorem mergeAll_spec (answers : Answers before rank known) {fuel : Nat} {runs : List (List α)}
    {last items : List α} (enough : runs.length ≤ fuel)
    (standFor : StandFor rank known runs last items) (patience : Nat) :
    ∃ out, mergeAll before fuel runs last patience = .ok out ∧ InOrder rank known out ∧
      Alike rank out items := by
  induction fuel generalizing runs last patience with
  | zero =>
    rw [List.length_eq_zero_iff.mp (Nat.le_zero.mp enough)] at standFor
    exact ⟨last, by rw [mergeAll], standFor.last_order, standFor.alike⟩
  | succ fuel ih =>
    match runs with
    | [] => exact ⟨last, rfl, standFor.last_order, standFor.alike⟩
    | [run] =>
      obtain ⟨out, patience', merged, standFor'⟩ := standFor.merge_last answers patience
      rw [mergeAll, merged, Success.ok_bind]
      exact ih (Nat.zero_le _) standFor' patience'
    | run :: front :: rest =>
      rw [mergeAll]
      simp only [List.length_cons] at enough
      split
      · obtain ⟨out, patience', merged, standFor'⟩ := standFor.merge_front answers patience
        rw [merged, Success.ok_bind]
        exact ih (by rw [List.length_cons]; omega) standFor' patience'
      · obtain ⟨out, patience', merged, standFor'⟩ := standFor.merge_last answers patience
        rw [merged, Success.ok_bind]
        exact ih (by rw [List.length_cons]; omega) standFor' patience'

theorem mergeRuns_spec (answers : Answers before rank known) (total : Nat) {rest : List (List α)}
    (restOrder : ∀ run ∈ rest, InOrder rank known run) (start : Nat) {pending : List (Pending α)}
    {last items : List α} (standFor : StandFor rank known (pending.map (·.run)) last items)
    (patience : Nat) : ∃ out, mergeRuns before total rest start pending last patience = .ok out ∧
      InOrder rank known out ∧ Alike rank out (items ++ rest.flatten) := by
  induction rest generalizing start pending last items patience with
  | nil =>
    rw [List.flatten_nil, List.append_nil]
    exact mergeAll_spec answers (by rw [List.length_map]) standFor patience
  | cons run rest ih =>
    obtain ⟨order, others⟩ := List.forall_mem_cons.mp restOrder
    obtain ⟨pending', last', patience', collapsed, standFor'⟩ :=
      collapse_spec answers (power total start last.length run.length) standFor patience
    rw [mergeRuns, collapsed, Success.ok_bind, List.flatten_cons, ← List.append_assoc]
    have pushed : StandFor rank known
        ((⟨last', power total start last.length run.length⟩ :: pending').map Pending.run) run
        (items ++ run) := standFor'.push order
    exact ih others (start + last.length) pushed patience'

/-- Where a comparison of some items tells their ranks apart, sorting them is stable sorting. -/
theorem sort_eq_mergeSort {items : List α} {rank : α → κ}
    (answers : ∀ x ∈ items, ∀ y ∈ items, before x y = .ok (decide (rank x < rank y))) :
    sort before items = .ok (items.mergeSort fun x y => rank x ≤ rank y) := by
  have known : Answers before rank (· ∈ items) := fun x y first second => answers x first y second
  obtain ⟨cut, found, orders, alike⟩ :=
    runs_spec known (leastRun items.length) le_rfl fun x member => member
  have sorted : ∃ out, sort before items = .ok out ∧ InOrder rank (· ∈ items) out ∧
      Alike rank out items := by
    rw [sort, found, Success.ok_bind]
    cases cut with
    | nil => exact ⟨[], rfl, ⟨by simp, .nil⟩, alike⟩
    | cons run rest =>
      obtain ⟨order, others⟩ := List.forall_mem_cons.mp orders
      have standFor : StandFor rank (· ∈ items) (([] : List (Pending α)).map (·.run)) run run :=
        ⟨by simp, order, .refl run⟩
      obtain ⟨out, merged, outOrder, same⟩ :=
        mergeRuns_spec known items.length others 0 standFor worthwhile
      exact ⟨out, merged, outOrder, same.trans alike⟩
  obtain ⟨out, found, order, same⟩ := sorted
  rw [found, Alike.eq_of_ascending order.ascending (ascending_mergeSort rank items)
    (same.trans (alike_mergeSort rank items).symm)]

/-- Items that stand for others are sorted as those are. -/
theorem sort_map {β : Type} (f : β → α) (rank : α → κ) {items : List β}
    (answers : ∀ x ∈ items, ∀ y ∈ items,
      before (f x) (f y) = .ok (decide (rank (f x) < rank (f y)))) :
    sort before (items.map f) =
      .ok ((items.mergeSort fun x y => rank (f x) ≤ rank (f y)).map f) := by
  have listed : ∀ a ∈ items.map f, ∀ b ∈ items.map f,
      before a b = .ok (decide (rank a < rank b)) := by
    rw [List.forall_mem_map]
    intro x first
    rw [List.forall_mem_map]
    exact answers x first
  rw [sort_eq_mergeSort listed]
  congr 1
  symm
  apply List.map_mergeSort
  intro x _ y _
  rfl

end InfluenceProgram.Sorting
