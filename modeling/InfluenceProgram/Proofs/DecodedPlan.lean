import InfluenceProgram.Proofs.Decoding
import InfluenceProgram.Proofs.Given

/-!
Strategies read off data. Numbers are compared with one half by their exact values, so what is read
off the values of choices as they were given is what is read off the rational numbers that they
stand for.
-/

set_option autoImplicit false

namespace InfluenceProgram

/-- One step of reading choices: a choice that is made is set under its context. -/
def choiceStep {κ ν γ σ : Type} [BEq γ] (made : ν → Except Fault Bool)
    (split : κ → Except Fault (γ × σ)) (l : Keyed γ σ) (entry : κ × ν) :
    Except Fault (Keyed γ σ) := do
  if ← made entry.2 then
    let (context, x) ← split entry.1
    return l.set context x
  else return l

theorem decodeChoices_eq {κ ν γ σ : Type} [BEq γ] (made : ν → Except Fault Bool)
    (split : κ → Except Fault (γ × σ)) (values : List (κ × ν)) :
    decodeChoices made split values = values.foldlM (choiceStep made split) [] := rfl

namespace Datum

theorem sameItems_int (c c' : Path) : sameItems (c.map .int) (c'.map .int) = (c == c') := by
  induction c generalizing c' with
  | nil => cases c' <;> rfl
  | cons x c ih =>
      cases c' with
      | nil => rfl
      | cons y c' =>
          rw [List.map_cons, List.map_cons, sameItems, same_int, ih]
          rfl

end Datum

namespace LocalPlan

/-- A key of choices as data, with its value. -/
def Stands (given : Key × Datum) (choice : Path × Rat) : Prop :=
  given.1 = ⟨.list (choice.1.map .int)⟩ ∧ given.2.magnitude? = some (.exactly choice.2)

theorem half_magnitude : half.magnitude? = some (.exactly (1 / 2)) := by decide +kernel

theorem half_before {d : Datum} {q : Rat} (value : d.magnitude? = some (.exactly q)) :
    half.before d = .ok (decide (1 / 2 < q)) :=
  Datum.before_exactly half_magnitude value

theorem split_ofStrategy (key : Path) : split ⟨.list (key.map .int)⟩ =
    (LocalStrategy.split key).map fun e => (⟨.list (e.1.map .int)⟩, .int e.2) := by
  show splitParts .outsideTuple (key.map .int) = _
  unfold splitParts LocalStrategy.split
  rw [List.getLast?_map, ← List.map_dropLast]
  cases key.getLast? with
  | none => rfl
  | some x => rfl

theorem set_ofStrategy (l : LocalStrategy) (c : Path) (x : Int) :
    Keyed.set ⟨.list (c.map .int)⟩ (.int x) (ofStrategy l) = ofStrategy (l.set c x) := by
  induction l with
  | nil => rfl
  | cons entry l ih =>
      obtain ⟨c', x'⟩ := entry
      change (if (Datum.sameItems (c'.map .int) (c.map .int)) = true then _ else
        _ :: Keyed.set ⟨.list (c.map .int)⟩ (.int x) (ofStrategy l)) = _
      rw [Datum.sameItems_int, ih, Keyed.set]
      split
      · rfl
      · rfl

variable {given : Keyed Key Datum} {choices : List (Path × Rat)}

theorem choiceStep_eq {entry : Key × Datum} {choice : Path × Rat} (stands : Stands entry choice)
    (l : LocalStrategy) : choiceStep half.before split (ofStrategy l) entry =
      (choiceStep (fun value => .ok (decide (Scalar.decimal 5 1 < value))) LocalStrategy.split l
        choice).map ofStrategy := by
  obtain ⟨key, datum⟩ := entry
  obtain ⟨key', value⟩ := choice
  obtain ⟨rfl, exactly⟩ := stands
  unfold choiceStep
  rw [half_before exactly, split_ofStrategy, LocalStrategy.half_eq, Success.ok_bind,
    Success.ok_bind]
  by_cases made : 1 / 2 < value
  · rw [if_pos (decide_eq_true made), if_pos (decide_eq_true made)]
    cases LocalStrategy.split key' with
    | error fault => rfl
    | ok parts => exact congrArg Except.ok (set_ofStrategy l parts.1 parts.2)
  · rw [if_neg (mt of_decide_eq_true made), if_neg (mt of_decide_eq_true made)]
    rfl

/-- Reading the choices of one node goes the same way for data and for what they stand for. -/
theorem decode_eq (stands : List.Forall₂ Stands given choices) :
    decode given = (LocalStrategy.decode choices).map ofStrategy := by
  have reading : ∀ l, given.foldlM (choiceStep half.before split) (ofStrategy l) =
      (choices.foldlM (choiceStep (fun value => .ok (decide (Scalar.decimal 5 1 < value)))
        LocalStrategy.split) l).map ofStrategy := by
    induction stands with
    | nil => exact fun _ => rfl
    | cons first _ ih =>
        intro l
        rw [List.foldlM_cons, List.foldlM_cons, choiceStep_eq first]
        cases choiceStep _ LocalStrategy.split l _ with
        | error fault => rfl
        | ok l => exact ih l
  rw [decode, LocalStrategy.decode, decodeChoices_eq, decodeChoices_eq]
  exact reading []

end LocalPlan

namespace Plan

/-- Values of choices as data, each a number with its exact value. -/
def Gives (d : Diagram) (given : Keyed Key (Keyed Key Datum))
    (values : Keyed Int (Keyed Path Rat)) : Prop :=
  ∀ j ∈ d.decision, ∃ written choices, given.get? ⟨.int j⟩ = some written ∧
    values.get? j = some choices ∧ List.Forall₂ LocalPlan.Stands written choices

/-- A strategy is read off data as it is read off the numbers that they stand for. -/
theorem decode_eq {d : Diagram} {given : Keyed Key (Keyed Key Datum)}
    {values : Keyed Int (Keyed Path Rat)} (gives : Gives d given values) :
    decode (.ofDiagram d) given =
      (Strategy.decode d values).map fun σ => σ.map fun e => (e.1, LocalPlan.ofStrategy e.2) := by
  rw [decode, Strategy.decode, ← Success.mapM_map]
  refine Success.mapM_congr fun j decision => ?_
  obtain ⟨written, choices, found, stands, each⟩ := gives j decision
  rw [found, stands]
  show (do return (j, ← LocalPlan.decode written)) = _
  rw [LocalPlan.decode_eq each]
  show _ = (do return (j, ← LocalStrategy.decode choices) : Except Fault _).map _
  cases LocalStrategy.decode choices <;> rfl

end Plan

end InfluenceProgram
