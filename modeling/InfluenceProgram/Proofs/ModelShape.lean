import InfluenceProgram.Proofs.Multiplicity
import InfluenceProgram.Proofs.Shaped

/-!
How large a decision model is, and which variables stand in which rows. There is a variable for each
path and one for each key of each decision node. A choice is found in the row of its context and in
those of the paths that make it, which are as many as the nodes outside its family have combinations
of states; so the keys that the rows put together are those that the variables were made for.
-/

set_option autoImplicit false

namespace InfluenceProgram

/-- Items that are tagged by where they come from are different if those of one place are. -/
theorem nodup_flatMap_map {α β γ : Type} {xs : List α} {items : α → List β} {tag : α → β → γ}
    (distinct : xs.Nodup) (each : ∀ x ∈ xs, (items x).Nodup)
    (apart : ∀ x ∈ xs, ∀ x' ∈ xs, ∀ y ∈ items x, ∀ y' ∈ items x',
      tag x y = tag x' y' → x = x' ∧ y = y') :
    (xs.flatMap fun x => (items x).map (tag x)).Nodup := by
  refine List.nodup_flatMap.mpr ⟨fun x member => ?_, ?_⟩
  · exact List.Nodup.map_on
      (fun y first y' second same => (apart x member x member y first y' second same).2)
      (each x member)
  · refine distinct.imp_of_mem fun {x x'} member member' different => ?_
    rw [Function.onFun, List.disjoint_left]
    intro tagged first second
    obtain ⟨y, inX, rfl⟩ := List.mem_map.mp first
    obtain ⟨y', inX', same⟩ := List.mem_map.mp second
    exact different (apart x member x' member' y inX y' inX' same.symm).1

/-- Tagged items are counted place by place. -/
theorem countP_flatMap_map {α β γ : Type} {xs : List α} {items : α → List β} (tag : α → β → γ)
    (kept : γ → Bool) {own : α → β → Prop} [∀ x y, Decidable (own x y)]
    (kept_iff : ∀ x y, kept (tag x y) = true ↔ own x y) :
    (xs.flatMap fun x => (items x).map (tag x)).countP kept =
      (xs.map fun x => (items x).countP fun y => own x y).sum := by
  rw [List.countP_flatMap]
  refine congrArg _ (List.map_congr_left fun x _ => ?_)
  rw [Function.comp_apply, List.countP_map]
  exact List.countP_congr fun y _ => by rw [Function.comp_apply, kept_iff, decide_eq_true_eq]

/-- An item is found once among different ones. -/
theorem countP_eq_one {α : Type} [DecidableEq α] {xs : List α} (distinct : xs.Nodup) {x : α}
    (member : x ∈ xs) : xs.countP (fun y => y = x) = 1 := by
  rw [← List.count_eq_one_of_mem distinct member, List.count]
  exact List.countP_congr fun y _ => by rw [decide_eq_true_eq, beq_iff_eq]

/-- Whether a variable is a choice of a node. -/
def Variable.isChoiceOf (j : Int) : Variable → Bool
  | path _ => false
  | choice i _ => i == j

section Terms

variable {κ α : Type} [DecidableEq κ]

def Row.mentions (r : Row κ α) (v : κ) : Bool := r.terms.any (·.1 == v)

/-- The terms of a row in one variable. -/
def Row.termsIn (r : Row κ α) (v : κ) : Terms κ α := r.terms.filter (·.1 == v)

/-- Whether the name of a row starts with some text. -/
def Row.startsWith (r : Row κ α) (text : String) : Bool :=
  text.toList.isPrefixOf r.name.toList

/-- The rows whose names start with some text. -/
def Program.rowsStarting (q : Program κ α) (text : String) : List (Row κ α) :=
  q.rows.filter (·.startsWith text)

end Terms

namespace Diagram

variable {α : Type} [Scalar α] {d : Diagram} {node : Int → String}

/-- The variables of the choices of all decision nodes. -/
def choices (d : Diagram) : List Variable :=
  d.decision.flatMap fun j => (d.choiceKeys j).map (Variable.choice j)

theorem nodup_decision (d : Diagram) : d.decision.Nodup :=
  nodup_of_ascending d.layered.decision_ascending

theorem family_inner {j : Int} (decision : j ∈ d.decision) :
    ∀ i ∈ d.family j, i ∈ d.innerNodes := by
  have range := d.inner_of_decision decision
  have covered := d.covers_family range.1 (s := d.counts) (by rw [d.counts_length]; exact range.2)
  intro i member
  have inside := covered i member
  rw [d.counts_length] at inside
  exact d.mem_innerNodes.mpr inside

theorem informationSet_inner (j : Int) : ∀ i ∈ d.informationSet j, i ∈ d.innerNodes := by
  intro i member
  have below := d.informationSet_below member
  exact d.mem_innerNodes.mpr ⟨below.1, below.2.2⟩

theorem nodup_choices (d : Diagram) : d.choices.Nodup :=
  nodup_flatMap_map d.nodup_decision (fun _ _ => nodup_paths _) fun _ _ _ _ _ _ _ _ same =>
    Variable.choice.inj same

/-- Every path makes a choice at each decision node. -/
theorem select_mem_choices {s : Path} (path : s ∈ paths d.counts) {j : Int}
    (decision : j ∈ d.decision) : Variable.choice j (s.select (d.family j)) ∈ d.choices := by
  have covered : Path.Covers d.counts (d.family j) := by
    intro i given
    rw [d.counts_length]
    exact d.mem_innerNodes.mp (family_inner decision i given)
  exact List.mem_flatMap.mpr ⟨j, decision,
    List.mem_map_of_mem (Path.select_mem_paths path covered)⟩

theorem contextRow_mentions {i j : Int} {b c : Path} {x : Int} (state : x ∈ states (d.count j)) :
    (d.contextRow (α := α) node i b).mentions (.choice j (c ++ [x])) ↔ i = j ∧ b = c := by
  rw [Row.mentions, contextRow_terms, List.any_map, List.any_eq_true]
  constructor
  · rintro ⟨y, _, same⟩
    obtain ⟨node, key⟩ := Variable.choice.inj (eq_of_beq same)
    exact ⟨node, (List.append_inj' key rfl).1⟩
  · rintro ⟨rfl, rfl⟩
    exact ⟨x, state, beq_self_eq_true _⟩

/-- The row of a context has the choices of the context, each once. -/
theorem contextRow_termsIn {j : Int} {c : Path} {x : Int} (state : x ∈ states (d.count j)) :
    (d.contextRow (α := α) node j c).termsIn (.choice j (c ++ [x])) =
      [(.choice j (c ++ [x]), 1)] := by
  have own : ∀ y, ((.choice j (c ++ [y]) : Variable) == .choice j (c ++ [x])) = decide (y = x) := by
    intro y
    rw [Bool.eq_iff_iff, beq_iff_eq, decide_eq_true_eq, Variable.choice.injEq]
    simp
  rw [Row.termsIn, contextRow_terms, List.filter_map]
  simp only [Function.comp_def, own]
  rw [List.filter_eq, List.count_eq_one_of_mem (nodup_states _) state]
  rfl

/-- Of the rows of contexts, exactly one has a given choice. -/
theorem countP_contextRows {j : Int} (decision : j ∈ d.decision) {key : Path}
    (known : key ∈ d.choiceKeys j) :
    (d.contextRows (α := α) node).countP (·.mentions (.choice j key)) = 1 := by
  obtain ⟨c, context, x, state, rfl⟩ := Diagram.mem_paths_family.mp known
  rw [contextRows, countP_flatMap_map (d.contextRow node) (·.mentions (.choice j (c ++ [x])))
    fun i b => contextRow_mentions state, Scalar.sum_of_single d.nodup_decision decision]
  · simp only [true_and]
    exact countP_eq_one (nodup_paths _) context
  · intro i other _
    simp [other]

theorem pathRow_mentions_path {j : Int} {s t : Path} :
    (d.pathRow (α := α) node t j).mentions (.path s) ↔ t = s := by
  simp [Row.mentions, pathRow_terms]

theorem pathRow_mentions_choice {i j : Int} {t key : Path} :
    (d.pathRow (α := α) node t i).mentions (.choice j key) ↔
      i = j ∧ t.select (d.family j) = key := by
  simp only [Row.mentions, pathRow_terms, List.any_cons, List.any_nil, Bool.or_false,
    Bool.or_eq_true, beq_iff_eq, reduceCtorEq, false_or, Variable.choice.injEq]
  constructor
  · rintro ⟨rfl, same⟩
    exact ⟨rfl, same⟩
  · rintro ⟨rfl, same⟩
    exact ⟨rfl, same⟩

/-- The row of a path and a decision node has the path and the choice on it, each once. -/
theorem pathRow_termsIn {s : Path} {j : Int} :
    ∀ e ∈ (d.pathRow (α := α) node s j).terms,
      (d.pathRow (α := α) node s j).termsIn e.1 = [e] := by
  intro e term
  rcases List.mem_pair.mp term with rfl | rfl
  · simp [Row.termsIn, pathRow_terms]
  · simp [Row.termsIn, pathRow_terms]

/-- Of the rows of paths, a path has one for each decision node. -/
theorem countP_pathRows_path {s : Path} (member : s ∈ paths d.counts) :
    (d.pathRows (α := α) node).countP (·.mentions (.path s)) = d.decision.length := by
  rw [pathRows, countP_flatMap_map (d.pathRow node) (·.mentions (.path s))
    fun t j => pathRow_mentions_path, Scalar.sum_of_single (nodup_paths _) member]
  · simp
  · intro t other _
    simp [other]

/-- Of the rows of paths, a choice has one for each path that makes it. -/
theorem countP_pathRows_choice {j : Int} (decision : j ∈ d.decision) (key : Path) :
    (d.pathRows (α := α) node).countP (·.mentions (.choice j key)) =
      (paths d.counts).countP (·.select (d.family j) = key) := by
  have made : ∀ t : Path, d.decision.countP (fun i => i = j ∧ t.select (d.family j) = key) =
      if t.select (d.family j) = key then 1 else 0 := by
    intro t
    split
    · rename_i same
      simp only [same, and_true]
      exact countP_eq_one d.nodup_decision decision
    · rename_i other
      simp [other]
  rw [pathRows, countP_flatMap_map (d.pathRow node) (·.mentions (.choice j key))
    fun t i => pathRow_mentions_choice]
  simp only [made]
  exact Scalar.sum_ite_eq_countP _ _

theorem length_contextRows (d : Diagram) (node : Int → String) :
    ((d.contextRows (α := α) node).length : Int) =
      (d.decision.map fun j => ((d.informationSet j).map d.count).prod).sum := by
  have each : ∀ j, (((d.contexts j).map (d.contextRow (α := α) node j)).length : Int) =
      ((d.informationSet j).map d.count).prod := by
    intro j
    rw [List.length_map]
    exact d.length_paths_select (informationSet_inner j)
  rw [contextRows, List.length_flatMap, Nat.cast_list_sum, List.map_map]
  simp only [Function.comp_def, each]

theorem length_paths_counts (d : Diagram) : ((paths d.counts).length : Int) = d.counts.prod := by
  rw [length_paths, Path.number_eq_prod fun count member => zero_le_one.trans
    (d.counts_pos count member)]

theorem length_pathRows (d : Diagram) (node : Int → String) :
    ((d.pathRows (α := α) node).length : Int) = d.decision.length * d.counts.prod := by
  rw [pathRows, List.length_flatMap]
  simp only [List.length_map, List.map_const', List.sum_replicate, smul_eq_mul]
  rw [Nat.cast_mul, d.length_paths_counts, mul_comm]

theorem mem_contextRows {r : Row Variable α} :
    r ∈ d.contextRows node ↔
      ∃ j ∈ d.decision, ∃ c ∈ d.contexts j, d.contextRow node j c = r := by
  simp only [contextRows, List.mem_flatMap, List.mem_map]

theorem mem_pathRows {r : Row Variable α} :
    r ∈ d.pathRows node ↔ ∃ s ∈ paths d.counts, ∃ j ∈ d.decision, d.pathRow node s j = r := by
  simp only [pathRows, List.mem_flatMap, List.mem_map]

/-- The names of the rows say which of them belong to contexts, and which to paths. -/
theorem startsWith_of_mem_contextRows {r : Row Variable α} (member : r ∈ d.contextRows node) :
    r.startsWith "local_strategy_" = true ∧ ¬r.startsWith "consistency_" = true := by
  obtain ⟨j, _, c, _, rfl⟩ := mem_contextRows.mp member
  simp only [Row.startsWith, contextRow_name, String.toList_append, List.append_assoc]
  exact ⟨List.isPrefixOf_iff_prefix.mpr (List.prefix_append _ _), Bool.false_ne_true⟩

theorem startsWith_of_mem_pathRows {r : Row Variable α} (member : r ∈ d.pathRows node) :
    r.startsWith "consistency_" = true ∧ ¬r.startsWith "local_strategy_" = true := by
  obtain ⟨s, _, j, _, rfl⟩ := mem_pathRows.mp member
  simp only [Row.startsWith, pathRow_name, String.toList_append, List.append_assoc]
  exact ⟨List.isPrefixOf_iff_prefix.mpr (List.prefix_append _ _), Bool.false_ne_true⟩

end Diagram

section Shape

variable {α : Type} [Scalar α]

/-- The decision model of a diagram, counted: its variables, its rows, and where its variables
stand in its rows. -/
structure Program.ShapedBy (q : Program Variable α) (d : Diagram) : Prop where
  distinct : q.keys.Nodup
  continuous : (q.columns.filter (!·.binary)).map (·.key) = (paths d.counts).map .path
  continuous_number : ((q.columns.filter (!·.binary)).length : Int) = d.counts.prod
  binary : (q.columns.filter (·.binary)).map (·.key) = d.choices
  binary_number : ∀ j ∈ d.decision,
    (q.columns.countP (·.key.isChoiceOf j) : Int) = ((d.family j).map d.count).prod
  rows_number : (q.rows.length : Int) =
    (d.decision.map fun j => ((d.informationSet j).map d.count).prod).sum +
      d.decision.length * d.counts.prod
  rows_kinds : q.rows = q.rowsStarting "local_strategy_" ++ q.rowsStarting "consistency_"
  strategy_rows : ∀ v ∈ d.choices, (q.rowsStarting "local_strategy_").countP (·.mentions v) = 1
  strategy_terms : ∀ r ∈ q.rowsStarting "local_strategy_", ∀ e ∈ r.terms,
    e.1 ∈ d.choices ∧ r.termsIn e.1 = [(e.1, 1)]
  consistency_rows_path : ∀ s ∈ paths d.counts,
    (q.rowsStarting "consistency_").countP (·.mentions (.path s)) = d.decision.length
  consistency_rows_choice : ∀ j ∈ d.decision, ∀ key ∈ d.choiceKeys j,
    ((q.rowsStarting "consistency_").countP (·.mentions (.choice j key)) : Int) =
      ((d.innerNodes.filter (· ∉ d.family j)).map d.count).prod
  consistency_terms : ∀ r ∈ q.rowsStarting "consistency_", ∀ e ∈ r.terms,
    e.1 ∈ q.keys ∧ r.termsIn e.1 = [e]

namespace Problem

variable {p : Problem α} {weight gain : Path → α} {node : Int → String} {specs : Specs}
  {name : String}

theorem keys_emittedWith : (p.emittedWith weight gain node specs name).program.keys =
    p.paths.map .path ++ p.diagram.choices := by
  simp only [Program.keys, emittedWith, List.map_append, List.map_map, List.map_flatMap,
    Diagram.choices]
  rfl

theorem continuous_emittedWith :
    ((p.emittedWith weight gain node specs name).program.columns.filter (!·.binary)).map (·.key) =
      p.paths.map .path := by
  simp [emittedWith, Formulation.columnUpTo, Formulation.choiceColumn, List.filter_map,
    List.filter_flatMap, Function.comp_def]

theorem binary_emittedWith :
    ((p.emittedWith weight gain node specs name).program.columns.filter (·.binary)).map (·.key) =
      p.diagram.choices := by
  simp [emittedWith, Formulation.columnUpTo, Formulation.choiceColumn, Diagram.choices,
    List.filter_map, List.filter_flatMap, List.map_flatMap, Function.comp_def]

theorem countP_choiceColumns {j : Int} (decision : j ∈ p.diagram.decision) :
    (p.emittedWith weight gain node specs name).program.columns.countP (·.key.isChoiceOf j) =
      (p.diagram.choiceKeys j).length := by
  have paths : (p.paths.map fun s => Formulation.columnUpTo (weight s) s).countP
      (·.key.isChoiceOf j) = 0 := by
    simp [Formulation.columnUpTo, Variable.isChoiceOf]
  have own : ∀ i key, (Formulation.choiceColumn (α := α) node i key).key.isChoiceOf j = true ↔
      i = j := fun _ _ => beq_iff_eq
  rw [emittedWith, List.countP_append, paths, zero_add, countP_flatMap_map
    (Formulation.choiceColumn node) (·.key.isChoiceOf j) own,
    Scalar.sum_of_single p.diagram.nodup_decision decision]
  · simp
  · intro i other _
    simp [other]

theorem strategyRows_emittedWith :
    (p.emittedWith weight gain node specs name).program.rowsStarting "local_strategy_" =
      p.diagram.contextRows node := by
  rw [Program.rowsStarting, emittedWith, List.filter_append,
    List.filter_eq_self.mpr fun r member => (Diagram.startsWith_of_mem_contextRows member).1,
    List.filter_eq_nil_iff.mpr fun r member => (Diagram.startsWith_of_mem_pathRows member).2,
    List.append_nil]

theorem consistencyRows_emittedWith :
    (p.emittedWith weight gain node specs name).program.rowsStarting "consistency_" =
      p.diagram.pathRows node := by
  rw [Program.rowsStarting, emittedWith, List.filter_append,
    List.filter_eq_nil_iff.mpr fun r member => (Diagram.startsWith_of_mem_contextRows member).2,
    List.filter_eq_self.mpr fun r member => (Diagram.startsWith_of_mem_pathRows member).1,
    List.nil_append]

theorem emittedWith_shaped : (p.emittedWith weight gain node specs name).program.ShapedBy
    p.diagram where
  distinct := by
    rw [keys_emittedWith, List.nodup_append]
    refine ⟨(nodup_paths _).map fun s t same => Variable.path.inj same,
      p.diagram.nodup_choices, fun v path w choice same => ?_⟩
    obtain ⟨s, _, rfl⟩ := List.mem_map.mp path
    obtain ⟨j, _, known⟩ := List.mem_flatMap.mp choice
    obtain ⟨key, _, rfl⟩ := List.mem_map.mp known
    cases same
  continuous := continuous_emittedWith
  continuous_number := by
    rw [← List.length_map (·.key), continuous_emittedWith, List.length_map]
    exact p.diagram.length_paths_counts
  binary := binary_emittedWith
  binary_number j decision := by
    rw [countP_choiceColumns decision]
    exact p.diagram.length_paths_select (Diagram.family_inner decision)
  rows_number := by
    rw [← p.diagram.length_contextRows (α := α) node, ← p.diagram.length_pathRows (α := α) node,
      ← Nat.cast_add, ← List.length_append]
    rfl
  rows_kinds := by
    rw [strategyRows_emittedWith, consistencyRows_emittedWith]
    rfl
  strategy_rows v member := by
    obtain ⟨j, decision, keys⟩ := List.mem_flatMap.mp member
    obtain ⟨key, known, rfl⟩ := List.mem_map.mp keys
    rw [strategyRows_emittedWith]
    exact Diagram.countP_contextRows decision known
  strategy_terms r member e term := by
    rw [strategyRows_emittedWith] at member
    obtain ⟨j, decision, c, context, rfl⟩ := Diagram.mem_contextRows.mp member
    obtain ⟨x, state, rfl⟩ := List.mem_map.mp term
    refine ⟨List.mem_flatMap.mpr ⟨j, decision, List.mem_map_of_mem ?_⟩,
      Diagram.contextRow_termsIn state⟩
    exact Diagram.mem_paths_family.mpr ⟨c, context, x, state, rfl⟩
  consistency_rows_path s member := by
    rw [consistencyRows_emittedWith]
    exact Diagram.countP_pathRows_path member
  consistency_rows_choice j decision key known := by
    rw [consistencyRows_emittedWith, Diagram.countP_pathRows_choice decision]
    exact Diagram.countP_select (p.diagram.nodup_family j) (Diagram.family_inner decision) known
  consistency_terms r member e term := by
    rw [consistencyRows_emittedWith] at member
    obtain ⟨s, path, j, decision, rfl⟩ := Diagram.mem_pathRows.mp member
    refine ⟨?_, Diagram.pathRow_termsIn e term⟩
    rw [keys_emittedWith, List.mem_append]
    rcases List.mem_pair.mp term with rfl | rfl
    · exact Or.inl (List.mem_map_of_mem path)
    · exact Or.inr (Diagram.select_mem_choices path decision)

/-- Accepted tables give a decision model of the shape of the diagram, whatever numbers they hold
and whatever cuts are asked for. -/
theorem model_shape {d : Diagram} {X Y : Keyed Int (Supplied α)}
    (created : Problem.create d X Y = .ok p) (node : Int → String) (specs : Specs)
    (name : String) :
    ∃ f, Formulation.buildBy node specs p name = .ok f ∧ f.program.ShapedBy d := by
  obtain ⟨rfl, weight, gain, built⟩ := exists_buildBy created node specs name
  exact ⟨_, built, emittedWith_shaped⟩

/-- The umbrella problem has eight variables and six rows, and taking the umbrella when it rains
stands in two of them: that of the context and that of the one path on which this happens. -/
theorem umbrella_shape : ∃ X Y f, Problem.create umbrella.diagram X Y = .ok umbrella ∧
    Formulation.build {} umbrella "umbrella" = .ok f ∧
    (f.program.columns.filter (!·.binary)).length = 4 ∧
    f.program.columns.countP (·.key.isChoiceOf 2) = 4 ∧ f.program.rows.length = 6 ∧
    (f.program.rowsStarting "local_strategy_").countP (·.mentions (.choice 2 [1, 1])) = 1 ∧
    (f.program.rowsStarting "consistency_").countP (·.mentions (.choice 2 [1, 1])) = 1 := by
  obtain ⟨X, Y, created⟩ := umbrella_accepted
  obtain ⟨f, built, shaped⟩ := model_shape created toString {} "umbrella"
  have decision : 2 ∈ umbrella.diagram.decision := List.mem_singleton_self 2
  have known : [1, 1] ∈ umbrella.diagram.choiceKeys 2 := by decide +kernel
  have paths : umbrella.diagram.counts.prod = 4 := by decide +kernel
  have keys : ((umbrella.diagram.family 2).map umbrella.diagram.count).prod = 4 := by
    decide +kernel
  have rows : (umbrella.diagram.decision.map fun j =>
        ((umbrella.diagram.informationSet j).map umbrella.diagram.count).prod).sum +
      umbrella.diagram.decision.length * umbrella.diagram.counts.prod = 6 := by
    decide +kernel
  have others : ((umbrella.diagram.innerNodes.filter (· ∉ umbrella.diagram.family 2)).map
      umbrella.diagram.count).prod = 1 := by
    decide +kernel
  refine ⟨X, Y, f, created, built, ?_, ?_, ?_, ?_, ?_⟩
  · exact_mod_cast shaped.continuous_number.trans paths
  · exact_mod_cast (shaped.binary_number 2 decision).trans keys
  · exact_mod_cast shaped.rows_number.trans rows
  · exact shaped.strategy_rows _ (List.mem_flatMap.mpr ⟨2, decision, List.mem_map_of_mem known⟩)
  · exact_mod_cast (shaped.consistency_rows_choice 2 decision _ known).trans others

end Problem

end Shape

end InfluenceProgram
