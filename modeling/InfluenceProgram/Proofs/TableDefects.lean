import InfluenceProgram.Proofs.Accepted
import InfluenceProgram.Proofs.Checks
import InfluenceProgram.Proofs.FiniteScalar
import InfluenceProgram.Proofs.PlainTables

/-!
Which tables make a problem of a diagram. The tables of the chance nodes are checked before those of
the value nodes, the nodes of each kind in ascending order, and the contexts of a node in
lexicographic order. All checks hold for well-formed tables and for no others, these are kept as
they are, and the first check that fails says which node is at fault.
-/

set_option autoImplicit false

namespace InfluenceProgram.Problem

variable {α : Type}

/-- What is checked of tables for some nodes: that no other node has one, and then node by node that
there is a table and what has to hold of it. -/
def tableChecks (nodes : List Int) (extra missing : TableDefect)
    (each : Int → Tensor α → List (Check Fault)) (tables : Keyed Int (Tensor α)) :
    List (Check Fault) :=
  { holds := ∀ j ∈ tables.keys, j ∈ nodes
    blames := fun fault => ∃ j, IsLeast {i | i ∈ tables.keys ∧ i ∉ nodes} j ∧
      fault = .table (.int j) extra } ::
  nodes.flatMap fun j => .saying (j ∈ tables.keys) (.table (.int j) missing) ::
    ((tables.get? j).map (each j)).getD []

/-- Node by node, the tables of some nodes. -/
def readTables (nodes : List Int) (extra : TableDefect)
    (table : Int → Option (Supplied α) → Except Fault (Tensor α)) (X : Keyed Int (Supplied α)) :
    Except Fault (Keyed Int (Tensor α)) :=
  match leastExtra? X.keys nodes with
  | some j => .error (.table (.int j) extra)
  | none => nodes.mapM fun j => return (j, ← table j (X.get? j))

/-- A table is read by checking it. -/
structure ReadsBy (table : Int → Option (Supplied α) → Except Fault (Tensor α))
    (missing : TableDefect) (check : Int → Tensor α → Except Fault Unit) : Prop where
  absent : ∀ j, table j none = .error (.table (.int j) missing)
  present : ∀ j t, table j (some (.table t)) = (check j t).map fun _ => t

theorem leastExtra?_eq_some_iff {given allowed : List Int} {j : Int} :
    leastExtra? given allowed = some j ↔ IsLeast {i | i ∈ given ∧ i ∉ allowed} j := by
  rw [leastExtra?, List.min?_eq_some_iff]
  simp only [List.mem_filter, Bool.not_eq_true', List.contains_eq_mem, decide_eq_false_iff_not]
  rfl

theorem leastExtra?_eq_none_iff {given allowed : List Int} :
    leastExtra? given allowed = none ↔ ∀ j ∈ given, j ∈ allowed := by
  rw [leastExtra?, List.min?_eq_none_iff, List.filter_eq_nil_iff]
  simp

theorem get?_given (tables : Keyed Int (Tensor α)) (j : Int) :
    (given tables).get? j = (tables.get? j).map .table :=
  Keyed.get?_map tables Supplied.table j

section

variable {nodes : List Int} {extra missing : TableDefect}
  {table : Int → Option (Supplied α) → Except Fault (Tensor α)}
  {check : Int → Tensor α → Except Fault Unit} {each : Int → Tensor α → List (Check Fault)}
  {tables stored : Keyed Int (Tensor α)}

theorem tableChecks_hold_iff :
    (∀ check ∈ tableChecks nodes extra missing each tables, check.holds) ↔
      (∀ j, j ∈ tables.keys ↔ j ∈ nodes) ∧
        ∀ j t, tables.get? j = some t → ∀ check ∈ each j t, check.holds := by
  rw [tableChecks, List.forall_mem_cons, List.forall_mem_flatMap]
  simp only [List.forall_mem_cons]
  constructor
  · rintro ⟨within, fine⟩
    refine ⟨fun j => ⟨within j, fun node => (fine j node).1⟩, fun j t entry => ?_⟩
    have rest := (fine j (within j (Keyed.mem_keys (Keyed.mem_of_get? entry)))).2
    rw [entry] at rest
    exact rest
  · rintro ⟨keys, fine⟩
    refine ⟨fun j => (keys j).mp, fun j node => ⟨(keys j).mpr node, ?_⟩⟩
    obtain ⟨t, entry⟩ := Keyed.exists_of_mem_keys ((keys j).mpr node)
    rw [entry]
    exact fine j t entry

/-- Extra nodes are looked for first, and then the checks are made node by node. -/
theorem ReadsBy.decides (reads : ReadsBy table missing check)
    (decided : ∀ j ∈ nodes, ∀ t, Check.Decide (check j t) (each j t))
    (tables : Keyed Int (Tensor α)) : Check.Decide (readTables nodes extra table (given tables))
      (tableChecks nodes extra missing each tables) := by
  rw [readTables, keys_given]
  cases found : leastExtra? tables.keys nodes with
  | some j =>
      have least := leastExtra?_eq_some_iff.mp found
      refine .error (fun within => least.1.2 (within j least.1.1)) fun fault => ?_
      constructor
      · rintro ⟨i, leastToo, rfl⟩
        rw [leastToo.unique least]
      · exact fun same => ⟨j, least, same⟩
  | none =>
      refine .cons (leastExtra?_eq_none_iff.mp found) (Check.Decide.mapM fun j node => ?_)
      have paired : ∀ outcome : Except Fault (Tensor α),
          (do return (j, ← outcome)) = outcome.map fun t => (j, t) := by
        intro outcome
        cases outcome <;> rfl
      rw [paired, Check.Decide.map_iff, get?_given]
      cases entry : tables.get? j with
      | none =>
          rw [Option.map_none, reads.absent]
          refine .error_saying (fun member => ?_) _
          obtain ⟨t, present⟩ := Keyed.exists_of_mem_keys member
          cases entry.symm.trans present
      | some t =>
          refine .cons (Keyed.mem_keys (Keyed.mem_of_get? entry)) ?_
          rw [Option.map_some, reads.present, Check.Decide.map_iff]
          exact decided j node t

theorem within_of_read (read : readTables nodes extra table (given tables) = .ok stored) :
    (∀ j ∈ tables.keys, j ∈ nodes) ∧
      (nodes.mapM fun j => return (j, ← table j ((given tables).get? j))) = .ok stored := by
  rw [readTables, keys_given] at read
  cases found : leastExtra? tables.keys nodes with
  | some j =>
      rw [found] at read
      cases read
  | none =>
      rw [found] at read
      exact ⟨leastExtra?_eq_none_iff.mp found, read⟩

/-- Tables that were read are the tables that were given. -/
theorem ReadsBy.stored_eq (reads : ReadsBy table missing check)
    (read : readTables nodes extra table (given tables) = .ok stored) :
    stored.keys = nodes ∧ ∀ j, stored.get? j = tables.get? j := by
  obtain ⟨within, each⟩ := within_of_read read
  obtain ⟨keys, values⟩ := tables_of_mapM each
  refine ⟨keys, fun j => ?_⟩
  cases entry : stored.get? j with
  | none =>
      have outside : j ∉ nodes := by
        rw [← keys]
        intro member
        obtain ⟨t, present⟩ := Keyed.exists_of_mem_keys member
        cases entry.symm.trans present
      exact (Keyed.get?_of_not_mem_keys fun member => outside (within j member)).symm
  | some t =>
      have value := values j t (Keyed.mem_of_get? entry)
      rw [get?_given] at value
      cases source : tables.get? j with
      | none =>
          rw [source, Option.map_none, reads.absent] at value
          cases value
      | some t' =>
          rw [source, Option.map_some, reads.present] at value
          cases checked : check j t' with
          | error fault =>
              rw [checked] at value
              cases value
          | ok _ =>
              rw [checked] at value
              cases value
              rfl

/-- Tables that were read are read again. -/
theorem ReadsBy.again (reads : ReadsBy table missing check)
    (read : readTables nodes extra table (given tables) = .ok stored) :
    readTables nodes extra table (given stored) = .ok stored := by
  obtain ⟨keys, same⟩ := reads.stored_eq read
  obtain ⟨_, each⟩ := within_of_read read
  rw [readTables, keys_given, keys, leastExtra?_eq_none (List.Subset.refl _), ← each]
  refine Success.mapM_congr fun j _ => ?_
  rw [get?_given, get?_given, same]

end

variable [Scalar α]

/-- The probabilities that a table gives to the states of a node in one context. -/
def rowOf (d : Diagram) (j : Int) (t : Tensor α) (c : Path) : List α :=
  (states (d.count j)).map fun x => t.valueAt (c ++ [x])

/-- The probabilities of a context add up to one, up to the tolerance. -/
def AddsUp (value : α → Rat) (row : List α) : Prop := |(row.map value).sum - 1| ≤ 1 / 10 ^ 8

instance (value : α → Rat) (row : List α) : Decidable (AddsUp value row) :=
  inferInstanceAs (Decidable (|(row.map value).sum - 1| ≤ 1 / 10 ^ 8))

/-- What is checked of the table of a chance node, in order. -/
def probabilityChecks (value : α → Rat) (d : Diagram) (j : Int) (t : Tensor α) :
    List (Check Fault) :=
  .saying (t.shape = d.axes (d.family j))
      (.table (.int j) (.probabilityShape (d.axes (d.family j)) t.shape)) ::
  .saying (∀ x ∈ t.entries, Scalar.isFinite x = true) (.table (.int j) .probabilityNotFinite) ::
  .saying (∀ x ∈ t.entries, 0 ≤ value x) (.table (.int j) .negative) ::
  (d.contexts j).map fun c => .saying (AddsUp value (rowOf d j t c))
    (.table (.int j) (.total (Scalar.shown (Scalar.pairwiseSum (rowOf d j t c))) c))

/-- What is checked of the table of a value node, in order. -/
def utilityChecks (d : Diagram) (v : Int) (t : Tensor α) : List (Check Fault) :=
  [.saying (t.shape = d.axes (d.informationSet v))
      (.table (.int v) (.utilityShape (d.axes (d.informationSet v)) t.shape)),
    .saying (∀ x ∈ t.entries, Scalar.isFinite x = true) (.table (.int v) .utilityNotFinite)]

/-- What is checked of the tables of a problem, in order. -/
def allChecks (value : α → Rat) (d : Diagram) (X Y : Keyed Int (Tensor α)) : List (Check Fault) :=
  tableChecks d.chance .notChance .probabilitiesMissing (probabilityChecks value d) X ++
    tableChecks d.value .notValue .utilitiesMissing (utilityChecks d) Y

/-- Tables that are as they should be. -/
structure WellFormed (value : α → Rat) (d : Diagram) (X Y : Keyed Int (Tensor α)) : Prop where
  chanceKeys : ∀ j, j ∈ X.keys ↔ j ∈ d.chance
  valueKeys : ∀ v, v ∈ Y.keys ↔ v ∈ d.value
  probabilities : ∀ j t, X.get? j = some t → t.shape = d.axes (d.family j) ∧
    (∀ x ∈ t.entries, Scalar.isFinite x = true ∧ 0 ≤ value x) ∧
    ∀ c ∈ d.contexts j, AddsUp value (rowOf d j t c)
  utilities : ∀ v t, Y.get? v = some t → t.shape = d.axes (d.informationSet v) ∧
    ∀ x ∈ t.entries, Scalar.isFinite x = true

variable {value : α → Rat} {d : Diagram} {X Y : Keyed Int (Tensor α)}

/-- The total of finite scalars is compared with one as if it was calculated with rationals. -/
theorem addsUp_iff (exact : Scalar.Exact value) {row : List α}
    (finite : ∀ x ∈ row, Scalar.isFinite x = true) :
    Scalar.distance (Scalar.pairwiseSum row) 1 ≤ probabilityTolerance ↔ AddsUp value row := by
  have each : List.Forall₂ (Scalar.Stands value) row (row.map value) := by
    rw [List.forall₂_map_right_iff, List.forall₂_same]
    exact fun x member => ⟨finite x member, rfl⟩
  have total := exact.distance (exact.pairwiseSum each) exact.one
  rw [AddsUp, probabilityTolerance, exact.le total (exact.decimal 1 8), Nat.cast_one]

theorem finite_rowOf {j : Int} {t : Tensor α} (shape : t.shape = d.axes (d.family j))
    (finite : ∀ x ∈ t.entries, Scalar.isFinite x = true) {c : Path} (context : c ∈ d.contexts j) :
    ∀ x ∈ rowOf d j t c, Scalar.isFinite x = true := by
  intro x member
  obtain ⟨state, range, rfl⟩ := List.mem_map.mp member
  rw [d.axes_family] at shape
  exact finite _ (Tensor.get_of_path shape (mem_paths_concat context range)).2

theorem unbounded_iff {t : Tensor α} : (!t.entries.all Scalar.isFinite) = true ↔
    ¬∀ x ∈ t.entries, Scalar.isFinite x = true := by
  rw [Bool.not_eq_true', ← Bool.not_eq_true, Array.all_eq_true']

theorem negative_iff (exact : Scalar.Exact value) {t : Tensor α}
    (finite : ∀ x ∈ t.entries, Scalar.isFinite x = true) :
    t.entries.any (· < 0) = true ↔ ¬∀ x ∈ t.entries, 0 ≤ value x := by
  rw [Array.any_eq_true']
  push Not
  refine exists_congr fun x => and_congr_right fun member => ?_
  rw [decide_eq_true_iff]
  exact exact.lt ⟨finite x member, rfl⟩ exact.zero

/-- The checks of a probability table are made in order. -/
theorem decides_probabilities (exact : Scalar.Exact value) {j : Int} (low : 1 ≤ j)
    (high : j ≤ d.inner) (t : Tensor α) :
    Check.Decide (checkProbabilities d j t) (probabilityChecks value d j t) := by
  simp only [checkProbabilities, d.contextCounts_eq, d.countOf_eq low high, Success.ok_bind,
    ← d.axes_family]
  by_cases shape : t.shape = d.axes (d.family j)
  case neg =>
    rw [if_pos shape]
    exact .error_saying shape _
  refine .cons shape ?_
  rw [if_neg (not_not_intro shape)]
  by_cases finite : ∀ x ∈ t.entries, Scalar.isFinite x = true
  case neg =>
    rw [if_pos (unbounded_iff.mpr finite)]
    exact .error_saying finite _
  refine .cons finite ?_
  rw [if_neg (mt unbounded_iff.mp (not_not_intro finite))]
  by_cases signed : ∀ x ∈ t.entries, 0 ≤ value x
  case neg =>
    rw [if_pos ((negative_iff exact finite).mpr signed)]
    exact .error_saying signed _
  refine .cons signed ?_
  rw [if_neg (mt (negative_iff exact finite).mp (not_not_intro signed)), List.map_eq_flatMap]
  refine Check.Decide.forM fun c context => ?_
  have row : t.row c (d.count j) = .ok (rowOf d j t c) := by
    rw [d.axes_family] at shape
    exact Tensor.row_of_context shape context
  have total := addsUp_iff exact (finite_rowOf shape finite context)
  rw [row, Success.ok_bind]
  by_cases fine : AddsUp value (rowOf d j t c)
  · rw [if_pos (total.mpr fine)]
    exact .cons fine (.ok ())
  · rw [if_neg (mt total.mp fine)]
    exact .error_saying fine _

/-- The checks of a utility table are made in order. -/
theorem decides_utilities (v : Int) (t : Tensor α) :
    Check.Decide (checkUtilities d v t) (utilityChecks d v t) := by
  simp only [checkUtilities, d.contextCounts_eq, Success.ok_bind]
  rw [← Diagram.axes]
  by_cases shape : t.shape = d.axes (d.informationSet v)
  case neg =>
    rw [if_pos shape]
    exact .error_saying shape _
  refine .cons shape ?_
  rw [if_neg (not_not_intro shape)]
  by_cases finite : ∀ x ∈ t.entries, Scalar.isFinite x = true
  case neg =>
    rw [if_pos (unbounded_iff.mpr finite)]
    exact .error_saying finite _
  rw [if_neg (mt unbounded_iff.mp (not_not_intro finite))]
  exact .cons finite (.ok ())

theorem probabilityTable_reads (d : Diagram) :
    ReadsBy (α := α) (probabilityTable d) .probabilitiesMissing (checkProbabilities d) where
  absent _ := rfl
  present j t := by
    rw [probabilityTable, Supplied.tensor, Success.ok_bind]
    cases checkProbabilities d j t <;> rfl

theorem utilityTable_reads (d : Diagram) :
    ReadsBy (α := α) (utilityTable d) .utilitiesMissing (checkUtilities d) where
  absent _ := rfl
  present v t := by
    rw [utilityTable, Supplied.tensor, Success.ok_bind]
    cases checkUtilities d v t <;> rfl

theorem validateProbabilities_eq (d : Diagram) (X : Keyed Int (Supplied α)) :
    validateProbabilities d X = readTables d.chance .notChance (probabilityTable d) X := rfl

theorem validateUtilities_eq (d : Diagram) (Y : Keyed Int (Supplied α)) :
    validateUtilities d Y = readTables d.value .notValue (utilityTable d) Y := rfl

/-- All checks hold for well-formed tables. -/
theorem wellFormed_iff_checks :
    WellFormed value d X Y ↔ ∀ check ∈ allChecks value d X Y, check.holds := by
  simp only [allChecks, List.forall_mem_append, tableChecks_hold_iff, probabilityChecks,
    utilityChecks, List.forall_mem_cons, List.forall_mem_map, Check.saying, List.not_mem_nil,
    false_implies, implies_true, and_true]
  constructor
  · rintro ⟨chanceKeys, valueKeys, probabilities, utilities⟩
    refine ⟨⟨chanceKeys, fun j t entry => ?_⟩, valueKeys, utilities⟩
    obtain ⟨shape, entries, total⟩ := probabilities j t entry
    exact ⟨shape, fun x member => (entries x member).1, fun x member => (entries x member).2, total⟩
  · rintro ⟨⟨chanceKeys, probabilities⟩, valueKeys, utilities⟩
    refine ⟨chanceKeys, valueKeys, fun j t entry => ?_, utilities⟩
    obtain ⟨shape, finite, signed, total⟩ := probabilities j t entry
    exact ⟨shape, fun x member => ⟨finite x member, signed x member⟩, total⟩

theorem decides_create (exact : Scalar.Exact value) (d : Diagram) (X Y : Keyed Int (Tensor α)) :
    Check.Decide (create d (given X) (given Y)) (allChecks value d X Y) := by
  have probabilities : Check.Decide (validateProbabilities d (given X))
      (tableChecks d.chance .notChance .probabilitiesMissing (probabilityChecks value d) X) := by
    refine (probabilityTable_reads d).decides (fun j chance t => ?_) X
    have range := d.inner_of_chance chance
    exact decides_probabilities exact range.1 range.2 t
  have utilities : Check.Decide (validateUtilities d (given Y))
      (tableChecks d.value .notValue .utilitiesMissing (utilityChecks d) Y) :=
    (utilityTable_reads d).decides (fun v _ t => decides_utilities v t) Y
  rw [create, allChecks, ← List.append_nil (tableChecks d.value _ _ _ Y)]
  exact probabilities.bind fun _ _ => utilities.bind fun _ _ => .ok _

/-- Well-formed tables and no others make a problem, other tables are refused for the first check
that fails, and the problem holds the tables as they were given, which are accepted again. Tables
that come as data are checked as the tables that they stand for. -/
theorem accepts_wellFormed (exact : Scalar.Exact value) (d : Diagram)
    (X Y : Keyed Int (Tensor α)) :
    ((∃ p, create d (given X) (given Y) = .ok p) ↔ WellFormed value d X Y) ∧
    (∀ fault, create d (given X) (given Y) = .error fault ↔
      Check.FirstFailing (allChecks value d X Y) fault) ∧
    (d.chance.Pairwise (· < ·) ∧ d.value.Pairwise (· < ·) ∧
      ∀ j, (d.contexts j).Pairwise (· < ·)) ∧
    (∀ p, create d (given X) (given Y) = .ok p → p.diagram = d ∧
      p.probabilities.keys = d.chance ∧ (∀ j, p.probabilities.get? j = X.get? j) ∧
      p.utilities.keys = d.value ∧ (∀ v, p.utilities.get? v = Y.get? v) ∧
      create d (given p.probabilities) (given p.utilities) = .ok p) ∧
    ∀ X Y : Keyed Int Datum, (Drawing.plain d).problem (Datum.tables X) (Datum.tables Y) =
      create d (Datum.suppliedTables X) (Datum.suppliedTables Y) := by
  have decided := decides_create exact d X Y
  refine ⟨decided.passes.trans wellFormed_iff_checks.symm, decided.fails,
    ⟨lt_of_ascending d.layered.chance_ascending,
      lt_of_ascending (d.layered.value_eq ▸ pairwise_span _ _), fun j => pairwise_paths _⟩,
    fun p made => ?_, Drawing.problem_tables d⟩
  obtain ⟨probabilities, readX, rest⟩ := Success.bind_iff.mp made
  obtain ⟨utilities, readY, same⟩ := Success.bind_iff.mp rest
  cases Except.ok.inj same
  have readsX := probabilityTable_reads (α := α) d
  have readsY := utilityTable_reads (α := α) d
  obtain ⟨keysX, sameX⟩ := readsX.stored_eq readX
  obtain ⟨keysY, sameY⟩ := readsY.stored_eq readY
  refine ⟨rfl, keysX, sameX, keysY, sameY, ?_⟩
  rw [create, validateProbabilities_eq, readsX.again readX, Success.ok_bind,
    validateUtilities_eq, readsY.again readY]
  rfl

/-- The tables of the umbrella problem are accepted. A probability that is unknown is named before
one that is negative, and before a utility table that is missing. -/
theorem umbrella_tables_checked :
    (∃ p, create umbrella.diagram (given umbrella.probabilities) (given umbrella.utilities) =
        .ok p ∧ create umbrella.diagram (given p.probabilities) (given p.utilities) = .ok p) ∧
      create umbrella.diagram
          (given [(1, ⟨[2], #[Scalar.Reading.mk none, Scalar.Reading.mk (some (-1))], rfl⟩)])
          (given []) =
        .error (.table (.int 1) .probabilityNotFinite) := by
  constructor
  · obtain ⟨accepted, _, _, stored, _⟩ :=
      accepts_wellFormed Scalar.exact_rat umbrella.diagram umbrella.probabilities umbrella.utilities
    obtain ⟨p, made⟩ := accepted.mpr {
      chanceKeys := fun _ => Iff.rfl
      valueKeys := fun _ => Iff.rfl
      probabilities := by
        intro j t entry
        obtain ⟨rfl, rfl⟩ := Prod.mk.inj (List.mem_singleton.mp (Keyed.mem_of_get? entry))
        decide +kernel
      utilities := by
        intro v t entry
        obtain ⟨rfl, rfl⟩ := Prod.mk.inj (List.mem_singleton.mp (Keyed.mem_of_get? entry))
        decide +kernel }
    obtain ⟨_, _, _, _, _, again⟩ := stored p made
    exact ⟨p, made, again⟩
  · obtain ⟨_, refused, _⟩ := accepts_wellFormed Scalar.Reading.exact_value umbrella.diagram
      [(1, ⟨[2], #[⟨none⟩, ⟨some (-1)⟩], rfl⟩)] []
    apply (refused _).mpr
    refine .inr ⟨fun j => id, .inr ⟨List.mem_singleton.mpr rfl, .inr ⟨rfl, .inl ⟨?_, rfl⟩⟩⟩⟩
    intro finite
    cases finite ⟨none⟩ (by simp)

end InfluenceProgram.Problem
