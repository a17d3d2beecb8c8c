import InfluenceProgram.Proofs.Accepted
import InfluenceProgram.Proofs.PlainDrawing

/-!
Tables for integers. Where every node is written as the integer that it is, tables which come as
data are checked as the tables that they stand for, and a fault names the node that it names there.
-/

set_option autoImplicit false

namespace InfluenceProgram

/-- A fault in a table, if there is one, is a fault in the table of a certain node. -/
def Names {β : Type} (j : Int) (outcome : Except Fault β) : Prop :=
  outcome.mapError (Fault.at (.int j)) = outcome

namespace Names

variable {β γ : Type} {j : Int}

theorem bind {outcome : Except Fault β} {next : β → Except Fault γ} (first : Names j outcome)
    (rest : ∀ b, Names j (next b)) : Names j (outcome >>= next) := by
  cases outcome with
  | error fault => exact congrArg Except.error (Except.error.inj first)
  | ok b => exact rest b

theorem forM {check : β → Except Fault Unit} {xs : List β}
    (each : ∀ x ∈ xs, Names j (check x)) : Names j (xs.forM check) := by
  induction xs with
  | nil => rfl
  | cons x xs ih =>
    obtain ⟨first, rest⟩ := List.forall_mem_cons.mp each
    exact first.bind fun _ => ih rest

end Names

theorem Supplied.names_tensor {α : Type} (given : Supplied α) (j : Int) :
    Names j (given.tensor j) := by
  cases given <;> rfl

section Checks

variable {α : Type} [Scalar α] {d : Diagram} {j : Int}

theorem names_checkProbabilities (low : 1 ≤ j) (high : j ≤ d.inner) (t : Tensor α) :
    Names j (checkProbabilities d j t) := by
  simp only [checkProbabilities, d.contextCounts_eq, d.countOf_eq low high, Success.ok_bind]
  split
  · rfl
  rename_i shape
  split
  · rfl
  split
  · rfl
  refine Names.forM fun c context => ?_
  rw [Tensor.row_of_context (not_not.mp shape) context, Success.ok_bind]
  split
  · rfl
  · rfl

theorem names_checkUtilities (t : Tensor α) : Names j (checkUtilities d j t) := by
  simp only [checkUtilities, d.contextCounts_eq, Success.ok_bind]
  split
  · rfl
  split
  · rfl
  · rfl

theorem names_probabilityTable (low : 1 ≤ j) (high : j ≤ d.inner) (given : Option (Supplied α)) :
    Names j (probabilityTable d j given) := by
  cases given with
  | none => rfl
  | some given =>
    refine (given.names_tensor j).bind fun t => ?_
    exact (names_checkProbabilities low high t).bind fun _ => rfl

theorem names_utilityTable (given : Option (Supplied α)) :
    Names j (utilityTable d j given) := by
  cases given with
  | none => rfl
  | some given =>
    refine (given.names_tensor j).bind fun t => ?_
    exact (names_checkUtilities t).bind fun _ => rfl

end Checks

namespace Datum

/-- Tables under integers as data. -/
def tables (X : Keyed Int Datum) : GivenTables := X.map fun e => (⟨.int e.1⟩, e.2)

/-- The tables that data stand for. -/
def suppliedTables (X : Keyed Int Datum) : Keyed Int (Supplied Float) :=
  X.map fun e => (e.1, e.2.supplied)

theorem get?_tables (X : Keyed Int Datum) (j : Int) : (tables X).get? ⟨.int j⟩ = X.get? j := by
  induction X with
  | nil => rfl
  | cons entry X ih =>
    obtain ⟨k, t⟩ := entry
    change (if (Datum.int k).same (.int j) then _ else Keyed.get? ⟨.int j⟩ (tables X)) = _
    rw [same_int, ih, Keyed.get?]

theorem least?_ints (xs : List Int) : least? (ints xs) = .ok (xs.min?.map .int) := by
  have least : ∀ (xs : List Int) (m : Int),
      (ints xs).foldlM (fun m x => do return if ← x.before m then x else m) (int m) =
        (.ok (int (xs.foldl min m)) : Except Fault Datum) := by
    intro xs
    induction xs with
    | nil => exact fun _ => rfl
    | cons x xs ih =>
      intro m
      have lower : (if decide (x < m) = true then int x else int m) = int (min m x) := by
        by_cases below : x < m
        · rw [if_pos (decide_eq_true below), min_eq_right below.le]
        · rw [if_neg (by simpa using below), min_eq_left (not_lt.mp below)]
      rw [ints_cons, List.foldlM_cons, before_int, Success.ok_bind, lower, List.foldl_cons, ← ih]
      rfl
  cases xs with
  | nil => rfl
  | cons x xs =>
    rw [ints_cons, least?, least, List.min?_cons']
    rfl

end Datum

namespace Drawing

variable {d : Diagram} {j : Int}

theorem diagram_plain (d : Diagram) : (plain d).diagram = d := rfl

theorem label_plain (d : Diagram) (j : Int) : (plain d).label j = .int j := by
  rw [label, plain]
  generalize d.chance ++ d.decision ++ d.value = nodes
  by_cases node : j ∈ nodes
  · rw [Keyed.get?_map_of_mem _ node, Option.getD_some]
  · have keys : Keyed.keys (nodes.map fun j => (j, Datum.int j)) = nodes := by
      rw [Keyed.keys, List.map_map]
      exact List.map_id nodes
    rw [← keys] at node
    rw [Keyed.get?_of_not_mem_keys node, Option.getD_none]

theorem only_tables (X : Keyed Int Datum) (nodes : List Int) (defect : TableDefect) :
    (Datum.tables X).only nodes defect =
      (leastExtra? X.keys nodes).elim (.ok ()) fun j => .error (.table (.int j) defect) := by
  have keys : (Datum.tables X).keys.map Key.datum = Datum.ints X.keys := by
    rw [Keyed.keys, Datum.tables, List.map_map, List.map_map, Datum.ints, Keyed.keys, List.map_map]
    rfl
  have others : (Datum.ints X.keys).filter (fun d => !among nodes d) =
      Datum.ints (X.keys.filter fun j => !nodes.contains j) := by
    rw [Datum.ints, List.filter_map]
    refine congrArg _ (List.filter_congr fun j _ => ?_)
    rw [Function.comp_apply, among, Datum.whole?_int]
    rfl
  rw [GivenTables.only, keys, others, Datum.least?_ints, Success.ok_bind, ← leastExtra?]
  cases leastExtra? X.keys nodes <;> rfl

theorem find?_tables (X : Keyed Int Datum) (j : Int) :
    (Datum.tables X).find? j = (Datum.suppliedTables X).get? j := by
  rw [GivenTables.find?, Datum.get?_tables, Datum.suppliedTables, Keyed.get?_map]

theorem probabilityTable_tables (chance : j ∈ d.chance) (X : Keyed Int Datum) :
    (plain d).probabilityTable (Datum.tables X) j =
      InfluenceProgram.probabilityTable d j ((Datum.suppliedTables X).get? j) := by
  have range := d.inner_of_chance chance
  have names := names_probabilityTable range.1 range.2 ((Datum.suppliedTables X).get? j)
  rw [probabilityTable, find?_tables, label_plain, diagram_plain]
  cases found : (Datum.suppliedTables X).get? j with
  | none =>
    rw [found] at names
    exact names
  | some given =>
    rw [found] at names
    dsimp only
    rw [names, given.names_tensor j, checkPosition, label_plain, InfluenceProgram.probabilityTable]
    cases given.tensor j <;> rfl

theorem utilityTable_tables (X : Keyed Int Datum) (v : Int) :
    (plain d).utilityTable (Datum.tables X) v =
      InfluenceProgram.utilityTable d v ((Datum.suppliedTables X).get? v) := by
  rw [utilityTable, label_plain, find?_tables]
  exact names_utilityTable _

/-- Tables that come as data make the problem of the tables that they stand for. -/
theorem problem_tables (d : Diagram) (X Y : Keyed Int Datum) :
    (plain d).problem (Datum.tables X) (Datum.tables Y) =
      Problem.create d (Datum.suppliedTables X) (Datum.suppliedTables Y) := by
  have keys : ∀ X, (Datum.suppliedTables X).keys = X.keys :=
    fun X => Keyed.keys_map X Datum.supplied
  have tablesX : (plain d).probabilities (Datum.tables X) =
      validateProbabilities d (Datum.suppliedTables X) := by
    rw [probabilities, validateProbabilities, keys, only_tables, diagram_plain]
    cases leastExtra? X.keys d.chance with
    | some j => rfl
    | none =>
      refine Success.mapM_congr fun j chance => ?_
      rw [probabilityTable_tables chance]
  have tablesY : (plain d).utilities (Datum.tables Y) =
      validateUtilities d (Datum.suppliedTables Y) := by
    rw [utilities, validateUtilities, keys, only_tables, diagram_plain]
    cases leastExtra? Y.keys d.value with
    | some v => rfl
    | none =>
      refine Success.mapM_congr fun v _ => ?_
      rw [utilityTable_tables]
  rw [problem, tablesX, tablesY]
  rfl

end Drawing

end InfluenceProgram
