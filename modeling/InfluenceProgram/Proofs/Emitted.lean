import InfluenceProgram.Formulation
import InfluenceProgram.Proofs.Compatible

/-!
The decision model of a checked problem, written out. Building it cannot fail, and the program that
is built has the columns, the rows and the objective that stand here. The rows depend on the diagram
alone; the tables are asked for the probability and the utility of each path.
-/

set_option autoImplicit false

namespace InfluenceProgram

/-- The keys of the choices of a node: a context of the node and a state of it. -/
def Diagram.choiceKeys (d : Diagram) (j : Int) : List Path :=
  paths (Path.select d.counts (d.family j))

section Rows

variable {α : Type} [Scalar α]

/-- The column of a path that has at most a given probability. -/
def Formulation.columnUpTo (most : α) (s : Path) : Column Variable α :=
  { key := .path s, name := (Variable.path s).name,
    lower := some 0, upper := some most, binary := false }

/-- The row of a context over any scalars: exactly one of its states is chosen. -/
def Diagram.contextRow (d : Diagram) (node : Int → String) (j : Int) (c : Path) : Row Variable α :=
  { name := "local_strategy_" ++ node j ++ "_" ++ Path.key c,
    terms := (states (d.count j)).map fun x => (.choice j (c ++ [x]), 1),
    sense := .exactly, rhs := 1 }

/-- The row of a path and a decision node over any scalars: the path needs the choice on it. -/
def Diagram.pathRow (d : Diagram) (node : Int → String) (s : Path) (j : Int) : Row Variable α :=
  { name := "consistency_" ++ node j ++ "_" ++ Path.key s,
    terms := [(.path s, 1), (.choice j (s.select (d.family j)), 0 - 1)],
    sense := .atMost, rhs := 0 }

theorem Diagram.contextRow_name (d : Diagram) (node : Int → String) (j : Int) (c : Path) :
    (d.contextRow (α := α) node j c).name =
      "local_strategy_" ++ node j ++ "_" ++ Path.key c := rfl

theorem Diagram.contextRow_terms (d : Diagram) (node : Int → String) (j : Int) (c : Path) :
    (d.contextRow (α := α) node j c).terms =
      (states (d.count j)).map fun x => (.choice j (c ++ [x]), 1) := rfl

theorem Diagram.pathRow_name (d : Diagram) (node : Int → String) (s : Path) (j : Int) :
    (d.pathRow (α := α) node s j).name = "consistency_" ++ node j ++ "_" ++ Path.key s := rfl

theorem Diagram.pathRow_terms (d : Diagram) (node : Int → String) (s : Path) (j : Int) :
    (d.pathRow (α := α) node s j).terms =
      [(.path s, 1), (.choice j (s.select (d.family j)), 0 - 1)] := rfl

/-- The rows of all contexts of all decision nodes. -/
def Diagram.contextRows (d : Diagram) (node : Int → String) : List (Row Variable α) :=
  d.decision.flatMap fun j => (d.contexts j).map (d.contextRow node j)

/-- The rows of all paths, each with one for every decision node. -/
def Diagram.pathRows (d : Diagram) (node : Int → String) : List (Row Variable α) :=
  (paths d.counts).flatMap fun s => d.decision.map (d.pathRow node s)

/-- The decision model of a problem whose paths have some probabilities and utilities. -/
def Problem.emittedWith (p : Problem α) (weight gain : Path → α) (node : Int → String)
    (specs : Specs) (name : String) : Formulation α where
  problem := p
  specs := specs
  epsilon := (Scalar.least? (p.paths.map weight)).getD 1
  leastUtility := p.leastUtility
  program :=
    { name
      columns := (p.paths.map fun s => Formulation.columnUpTo (weight s) s) ++
        p.diagram.decision.flatMap fun j =>
          (p.diagram.choiceKeys j).map (Formulation.choiceColumn node j)
      rows := p.diagram.contextRows node ++ p.diagram.pathRows node
      objective := p.paths.map fun s => (.path s, gain s)
      constant := 0
      maximize := true }

end Rows

namespace Problem

/-- The column of a path. -/
def pathColumn (p : Problem Rat) (s : Path) : Column Variable Rat :=
  { key := .path s, name := (Variable.path s).name,
    lower := some 0, upper := some (p.weight s), binary := false }

/-- The row of a context: exactly one of its states is chosen. -/
def strategyRow (p : Problem Rat) (node : Int → String) (j : Int) (c : Path) : Row Variable Rat :=
  { name := "local_strategy_" ++ node j ++ "_" ++ Path.key c,
    terms := (states (p.diagram.count j)).map fun x => (.choice j (c ++ [x]), 1),
    sense := .exactly, rhs := 1 }

/-- The row of a path and a decision node: the path needs the choice that is made on it. -/
def consistencyRow (p : Problem Rat) (node : Int → String) (s : Path) (j : Int) :
    Row Variable Rat :=
  { name := "consistency_" ++ node j ++ "_" ++ Path.key s,
    terms := [(.path s, 1), (.choice j (s.select (p.diagram.family j)), 0 - 1)],
    sense := .atMost, rhs := 0 }

/-- The decision model of a problem. -/
def emitted (p : Problem Rat) (node : Int → String) (specs : Specs) (name : String) :
    Formulation Rat where
  problem := p
  specs := specs
  epsilon := (Scalar.least? (p.paths.map p.weight)).getD 1
  leastUtility := p.leastUtility
  program :=
    { name
      columns := p.paths.map p.pathColumn ++ p.diagram.decision.flatMap fun j =>
        (p.diagram.choiceKeys j).map (Formulation.choiceColumn node j)
      rows := (p.diagram.decision.flatMap fun j =>
          (p.diagram.contexts j).map (p.strategyRow node j)) ++
        p.paths.flatMap fun s => p.diagram.decision.map (p.consistencyRow node s)
      objective := p.paths.map fun s => (.path s, p.gain p.leastUtility s)
      constant := 0
      maximize := true }

variable {p : Problem Rat}

/-- The keys of all decision nodes, as the rows look them up. -/
def keysOf (d : Diagram) : Keyed Int (List Path) := d.decision.map fun j => (j, d.choiceKeys j)

theorem choice_eq {d : Diagram} {j : Int} (decision : j ∈ d.decision) {c : Path}
    (context : c ∈ d.contexts j) {x : Int} (state : x ∈ states (d.count j)) :
    Formulation.choice (keysOf d) j (c ++ [x]) = .ok (.choice j (c ++ [x])) := by
  have known : c ++ [x] ∈ d.choiceKeys j := Diagram.mem_paths_family.mpr ⟨c, context, x, state, rfl⟩
  rw [Formulation.choice, keysOf, Keyed.get?_map_of_mem d.choiceKeys decision]
  exact if_pos (List.contains_iff_mem.mpr known)

/-- Every path has the states of a choice at each decision node, and the choice is known. -/
theorem choice_of_select {d : Diagram} {j : Int} (decision : j ∈ d.decision) {s : Path}
    (member : s ∈ InfluenceProgram.paths d.counts) :
    Path.restrict s (d.family j) = .ok (s.select (d.family j)) ∧
      Formulation.choice (keysOf d) j (s.select (d.family j)) =
        .ok (.choice j (s.select (d.family j))) := by
  have range := d.inner_of_decision decision
  have covered := d.covers_family range.1 (s := s)
    (by rw [Diagram.length_of_path member]; exact range.2)
  refine ⟨Path.restrict_eq covered, ?_⟩
  rw [d.select_family]
  exact choice_eq decision (Diagram.select_mem_contexts member j)
    (Diagram.stateAt_mem_states member range.1 range.2)

theorem keys_eq (d : Diagram) :
    (d.decision.mapM fun j => return (j, ← Formulation.choiceKeys d j)) =
      (.ok (keysOf d) : Except Fault _) := by
  refine Success.mapM_eq fun j decision => ?_
  have range := d.inner_of_decision decision
  rw [Formulation.choiceKeys, d.countsAt_family range.1 range.2]
  rfl

section Rows

variable {α : Type} [Scalar α]

theorem contextRows_eq (d : Diagram) (node : Int → String) :
    Formulation.strategyRows (α := α) node d (keysOf d) = .ok (d.contextRows node) := by
  rw [Formulation.strategyRows, Success.mapM_eq (g := fun j =>
    (d.contexts j).map (d.contextRow node j))]
  · rw [Success.ok_bind, Diagram.contextRows, List.flatMap_def]
    rfl
  · intro j decision
    have range := d.inner_of_decision decision
    rw [d.contextCounts_eq, Success.ok_bind]
    refine Success.mapM_eq fun c context => ?_
    rw [d.countOf_eq range.1 range.2, Success.ok_bind, Formulation.strategyRow,
      Success.mapM_eq (g := fun x => (Variable.choice j (c ++ [x]), (1 : α)))]
    · rfl
    · intro x state
      rw [choice_eq decision context state]
      rfl

theorem pathRows_eq (d : Diagram) (node : Int → String) :
    Formulation.consistencyRows (α := α) node d (keysOf d) = .ok (d.pathRows node) := by
  rw [Formulation.consistencyRows, Success.mapM_eq (g := fun s =>
    d.decision.map (d.pathRow node s))]
  · rw [Success.ok_bind, Diagram.pathRows, List.flatMap_def]
    rfl
  · intro s member
    refine Success.mapM_eq fun j decision => ?_
    obtain ⟨restricted, known⟩ := choice_of_select decision member
    rw [Formulation.consistencyRow, restricted, Success.ok_bind, known]
    rfl

/-- Building a decision model only asks for the probability and the utility of each path. -/
theorem buildBy_of_paths {p : Problem α} {weight gain : Path → α}
    (weights : ∀ s ∈ p.paths, p.probability s = .ok (weight s))
    (gains : ∀ s ∈ p.paths, p.utility p.leastUtility s = .ok (gain s)) (node : Int → String)
    (specs : Specs) (name : String) :
    Formulation.buildBy node specs p name = .ok (p.emittedWith weight gain node specs name) := by
  have columns : p.paths.mapM (Formulation.pathColumn p) =
      .ok (p.paths.map fun s => Formulation.columnUpTo (weight s) s) := by
    refine Success.mapM_eq fun s member => ?_
    rw [Formulation.pathColumn, weights s member]
    rfl
  have objective : (p.paths.mapM fun s =>
        return (Variable.path s, ← p.utility p.leastUtility s)) =
      (.ok (p.paths.map fun s => (Variable.path s, gain s)) : Except Fault _) := by
    refine Success.mapM_eq fun s member => ?_
    rw [gains s member]
    rfl
  rw [Formulation.buildBy, leastProbability, Success.mapM_eq weights]
  simp only [Success.ok_bind, columns, keys_eq, objective, contextRows_eq, pathRows_eq]
  rw [emittedWith, keysOf, List.flatMap_map]
  rfl

end Rows

theorem strategyRows_eq (p : Problem Rat) (node : Int → String) :
    Formulation.strategyRows node p.diagram (keysOf p.diagram) =
      .ok (p.diagram.decision.flatMap fun j =>
        (p.diagram.contexts j).map (p.strategyRow node j)) :=
  contextRows_eq p.diagram node

/-- Building the decision model of a checked problem succeeds, whatever cuts are asked for. -/
theorem Weighed.buildBy_eq (weighed : p.Weighed) (valued : p.Valued) (node : Int → String)
    (specs : Specs) (name : String) :
    Formulation.buildBy node specs p name = .ok (p.emitted node specs name) :=
  buildBy_of_paths (fun _ member => weighed.probability_eq member)
    (fun _ member => valued.utility_eq p.leastUtility member) node specs name

end Problem

end InfluenceProgram
