import InfluenceProgram.Proofs.ExpectedValue
import InfluenceProgram.Proofs.Validated
import InfluenceProgram.Proofs.WorstShare

/-!
Utilities in another unit. Multiplying every entry of the value tables by a positive factor and
raising it by a constant moves the least utility in the same way, so the shift takes the constant
out of the objective again and leaves the factor. The distribution of the utility keeps its
probabilities, with the constant once for each value node, and its risk measures follow it.
-/

set_option autoImplicit false

namespace InfluenceProgram

/-- A scalar multiplied by a factor and raised by a constant. -/
def rescale (a b u : Rat) : Rat := a * u + b

variable {a : Rat}

theorem rescale_lt_iff (positive : 0 < a) (b : Rat) {u v : Rat} :
    rescale a b u < rescale a b v ↔ u < v := by
  rw [rescale, rescale, add_lt_add_iff_right, mul_lt_mul_iff_right₀ positive]

theorem rescale_le_iff (positive : 0 < a) (b : Rat) {u v : Rat} :
    rescale a b u ≤ rescale a b v ↔ u ≤ v := by
  rw [← not_lt, ← not_lt, rescale_lt_iff positive]

theorem rescale_inj (positive : 0 < a) (b : Rat) {u v : Rat} :
    rescale a b u = rescale a b v ↔ u = v := by
  rw [rescale, rescale, add_left_inj, mul_right_inj' positive.ne']

namespace Scalar

variable {f : Rat → Rat}

/-- A map that keeps the order keeps the place of the least scalar. -/
theorem least?_map (rising : ∀ {x y}, f x < f y ↔ x < y) (xs : List Rat) :
    least? (xs.map f) = (least? xs).map f := by
  cases xs with
  | nil => rfl
  | cons x xs =>
      simp only [List.map_cons, least?, List.foldl_map, Option.map_some, Option.some.injEq]
      rw [← List.foldl_hom f]
      intro m y
      simp only [rising, apply_ite f]

theorem lastLeast?_map (rising : ∀ {x y}, f x < f y ↔ x < y) (xs : List Rat) :
    lastLeast? (xs.map f) = (lastLeast? xs).map f := by
  cases xs with
  | nil => rfl
  | cons x xs =>
      simp only [List.map_cons, lastLeast?, List.foldl_map, Option.map_some, Option.some.injEq]
      rw [← List.foldl_hom f]
      intro m y
      simp only [rising, apply_ite f]

end Scalar

namespace Tensor

theorem get_map {α β : Type} (f : α → β) (t : Tensor α) (index : List Int) :
    (t.map f).get index = (t.get index).map f := by
  unfold get map
  dsimp only
  cases place 0 t.shape index with
  | ok k =>
      simp only [Array.getElem?_map]
      cases t.entries[k]? with
      | none => rfl
      | some x => rfl
  | error fault =>
      cases index.forM Position.checkWord with
      | ok _ => rfl
      | error word => rfl

theorem valueAt_map {f : Rat → Rat} {t : Tensor Rat} {counts : List Int}
    (shape : t.shape = counts.map Int.toNat) {s : Path} (member : s ∈ paths counts) :
    (t.map f).valueAt s = f (t.valueAt s) := by
  rw [valueAt, get_map, (get_of_path shape member).1]
  rfl

end Tensor

/-- What is given as a table with every entry changed. -/
def Supplied.map {α β : Type} (f : α → β) : Supplied α → Supplied β
  | table t => .table (t.map f)
  | notNumeric => .notNumeric
  | tooLarge => .tooLarge

/-- A check of utilities looks at their axes alone, so changed tables pass as they did. -/
theorem utilityTable_map {d : Diagram} {v : Int} {f : Rat → Rat} {given : Option (Supplied Rat)}
    {t : Tensor Rat} (valid : utilityTable d v given = .ok t) :
    utilityTable d v (given.map (Supplied.map f)) = .ok (t.map f) := by
  cases given with
  | none => cases valid
  | some supplied =>
      obtain ⟨u, tensor, rest⟩ := Success.bind_iff.mp valid
      obtain ⟨_, checked, same⟩ := Success.bind_iff.mp rest
      cases Except.ok.inj same
      have shape : (t.map f).shape = d.axes (d.informationSet v) :=
        (checkUtilities_iff t).mp checked
      cases supplied with
      | table w =>
          cases tensor
          rw [Option.map_some, Supplied.map, utilityTable, Supplied.tensor, Success.ok_bind,
            (checkUtilities_iff _).mpr shape]
          rfl
      | notNumeric => cases tensor
      | tooLarge => cases tensor

theorem validateUtilities_map {d : Diagram} (f : Rat → Rat) {Y : Keyed Int (Supplied Rat)}
    {utilities : Keyed Int (Tensor Rat)} (valid : validateUtilities d Y = .ok utilities) :
    validateUtilities d (Y.map fun e => (e.1, e.2.map f)) =
      .ok (utilities.map fun e => (e.1, e.2.map f)) := by
  unfold validateUtilities at valid ⊢
  rw [Keyed.keys_map]
  split at valid
  · cases valid
  · refine Success.mapM_iff.mpr (List.forall₂_map_right_iff.mpr ?_)
    refine (Success.mapM_iff.mp valid).imp fun v e found => ?_
    obtain ⟨t, table, same⟩ := Success.bind_iff.mp found
    cases Except.ok.inj same
    rw [Keyed.get?_map, utilityTable_map table]
    rfl

namespace Problem

/-- The problem with every utility multiplied by a factor and raised by a constant. -/
def rescaled (p : Problem Rat) (a b : Rat) : Problem Rat :=
  { p with utilities := p.utilities.map fun e => (e.1, e.2.map (rescale a b)) }

variable {p : Problem Rat} {σ : Strategy}

/-- Every value table has an entry, so with a value node there is a least one. -/
theorem Valued.exists_least (valued : p.Valued) {v : Int} (value : v ∈ p.diagram.value) :
    ∃ least, Scalar.least? (p.utilities.filterMap fun (_, t) =>
      Scalar.lastLeast? t.entries.toList) = some least := by
  obtain ⟨t, table, _⟩ := valued.table value
  obtain ⟨s, member⟩ := List.exists_mem_of_ne_nil _ (paths_ne_nil p.diagram.counts_pos)
  have covered := p.diagram.covers_informationSet_of_full p.diagram.counts_length v
  have entry := (Tensor.get_of_path (valued.shape v t table)
    (Path.select_mem_paths member covered)).2
  obtain ⟨smallest, found⟩ :=
    Scalar.exists_lastLeast? (List.ne_nil_of_mem (Array.mem_toList_iff.mpr entry))
  exact Scalar.exists_least?
    (List.ne_nil_of_mem (List.mem_filterMap.mpr ⟨(v, t), table, found⟩))

/-- The least utility is rescaled with the utilities. -/
theorem Valued.leastUtility_rescaled (valued : p.Valued) (positive : 0 < a) (b : Rat) {v : Int}
    (value : v ∈ p.diagram.value) :
    (p.rescaled a b).leastUtility = rescale a b p.leastUtility := by
  obtain ⟨least, found⟩ := valued.exists_least value
  have leasts : (p.rescaled a b).utilities.filterMap
      (fun (_, t) => Scalar.lastLeast? t.entries.toList) =
      (p.utilities.filterMap fun (_, t) => Scalar.lastLeast? t.entries.toList).map
        (rescale a b) := by
    rw [rescaled, List.filterMap_map, List.map_filterMap]
    refine List.filterMap_congr fun e _ => ?_
    simp only [Function.comp_apply, Tensor.map, Array.toList_map]
    exact Scalar.lastLeast?_map (rescale_lt_iff positive b) _
  rw [leastUtility, leasts, Scalar.least?_map (rescale_lt_iff positive b), leastUtility, found]
  rfl

theorem Valued.payoff_rescaled (valued : p.Valued) (a b : Rat) {v : Int}
    (value : v ∈ p.diagram.value) {s : Path} (member : s ∈ p.paths) :
    (p.rescaled a b).payoff v s = rescale a b (p.payoff v s) := by
  obtain ⟨t, table, found⟩ := valued.table value
  -- A changed table only has changed entries inside it, and a path of the problem never leaves it.
  have covered := p.diagram.covers_informationSet_of_full p.diagram.counts_length v
  rw [payoff, payoff, found, rescaled, Keyed.get?_map, found]
  exact Tensor.valueAt_map (valued.shape v t table) (Path.select_mem_paths member covered)

/-- What is won with the least utility taken from every value node is multiplied by the factor. -/
theorem Valued.gain_leastUtility_rescaled (valued : p.Valued) (positive : 0 < a) (b : Rat)
    {s : Path} (member : s ∈ p.paths) :
    (p.rescaled a b).gain (p.rescaled a b).leastUtility s = a * p.gain p.leastUtility s := by
  rw [gain, gain, ← List.sum_map_mul_left]
  refine congrArg List.sum (List.map_congr_left fun v value => ?_)
  rw [valued.payoff_rescaled a b value member, valued.leastUtility_rescaled positive b value,
    rescale, rescale]
  ring

/-- The utility of a path is multiplied by the factor and raised once for each value node. -/
theorem Valued.gain_rescaled (valued : p.Valued) (a b : Rat) {s : Path} (member : s ∈ p.paths) :
    (p.rescaled a b).gain 0 s = rescale a (p.diagram.value.length * b) (p.gain 0 s) := by
  have each : ∀ v ∈ p.diagram.value,
      (p.rescaled a b).payoff v s - 0 = a * (p.payoff v s - 0) + b := by
    intro v value
    rw [valued.payoff_rescaled a b value member, rescale, sub_zero, sub_zero]
  change (p.diagram.value.map fun v => (p.rescaled a b).payoff v s - 0).sum = _
  rw [List.map_congr_left each, List.sum_map_add, List.sum_map_mul_left, List.map_const',
    List.sum_replicate, nsmul_eq_mul]
  rfl

/-- Validation accepts the rescaled tables and returns the rescaled problem. -/
theorem create_rescaled {X Y : Keyed Int (Supplied Rat)} (created : create p.diagram X Y = .ok p)
    (a b : Rat) :
    create p.diagram X (Y.map fun e => (e.1, e.2.map (rescale a b))) = .ok (p.rescaled a b) := by
  obtain ⟨probabilities, validX, rest⟩ := Success.bind_iff.mp created
  obtain ⟨utilities, validY, same⟩ := Success.bind_iff.mp rest
  rw [create, validX, Success.ok_bind, validateUtilities_map _ validY]
  exact congrArg (fun made => Except.ok (made.rescaled a b)) (Except.ok.inj same)

/-- The decision model has the factor in its objective and is the same otherwise. -/
theorem Valued.program_rescaled (valued : p.Valued) (positive : 0 < a) (b : Rat)
    (node : Int → String) (specs : Specs) (name : String) :
    ((p.rescaled a b).emitted node specs name).program =
      { (p.emitted node specs name).program with
        objective := (p.emitted node specs name).program.objective.map
          fun e => (e.1, a * e.2) } := by
  have objective : ((p.rescaled a b).emitted node specs name).program.objective =
      (p.emitted node specs name).program.objective.map fun e => (e.1, a * e.2) := by
    simp only [emitted, List.map_map]
    refine List.map_congr_left fun s member => ?_
    rw [valued.gain_leastUtility_rescaled positive b member]
    rfl
  rw [← objective]
  rfl

/-- The paths of a utility are those of the rescaled utility. -/
theorem Valued.mass_rescaled (valued : p.Valued) (positive : 0 < a) (b u : Rat) :
    (p.rescaled a b).mass σ (rescale a (p.diagram.value.length * b) u) = p.mass σ u := by
  change ((p.taken σ).map _).sum = _
  refine congrArg List.sum (List.map_congr_left fun s member => ?_)
  rw [valued.gain_rescaled a b (mem_taken.mp member).1]
  simp only [rescale_inj positive]
  rfl

end Problem

/-- A distribution keeps its masses where its values are rescaled. -/
theorem Distributed.rescaled {mass mass' : Rat → Rat} {entries : List (Rat × Rat)}
    (distributed : Distributed mass entries) (positive : 0 < a) (c : Rat)
    (same : ∀ u, mass' (rescale a c u) = mass u) :
    Distributed mass' (entries.map fun e => (rescale a c e.1, e.2)) where
  ascending := by
    rw [List.pairwise_map]
    simp only [rescale_lt_iff positive]
    exact distributed.ascending
  mem_iff u m := by
    have back : rescale a c ((u - c) / a) = u := by
      rw [rescale, mul_div_cancel₀ _ positive.ne', sub_add_cancel]
    rw [← back, same, ← distributed.mem_iff, List.mem_map]
    simp only [Prod.mk.injEq, rescale_inj positive]
    constructor
    · rintro ⟨e, member, utility, rfl⟩
      exact utility ▸ member
    · exact fun member => ⟨_, member, rfl, rfl⟩

namespace Risk

variable {pairs : List (Rat × Rat)} {bound level v : Rat}

theorem upTo_rescale (positive : 0 < a) (c x : Rat) :
    upTo (pairs.map fun e => (rescale a c e.1, e.2)) (rescale a c x) = upTo pairs x := by
  simp only [upTo, List.map_map, Function.comp_def, rescale_le_iff positive]

theorem shortfall_rescale (positive : 0 < a) (c x : Rat) :
    shortfall (pairs.map fun e => (rescale a c e.1, e.2)) (rescale a c x) =
      a * shortfall pairs x := by
  rw [shortfall, shortfall, List.map_map, ← List.sum_map_mul_left]
  refine congrArg List.sum (List.map_congr_left fun e _ => ?_)
  have difference : rescale a c x - rescale a c e.1 = a * (x - e.1) := by
    rw [rescale, rescale]
    ring
  rw [Function.comp_apply, difference, ← mul_assoc, mul_max_of_nonneg _ _ positive.le, mul_zero]

theorem FirstUpTo.rescaled (first : FirstUpTo pairs bound v) (positive : 0 < a) (c : Rat) :
    FirstUpTo (pairs.map fun e => (rescale a c e.1, e.2)) bound (rescale a c v) := by
  have utilities : (pairs.map fun e => (rescale a c e.1, e.2)).map (·.1) =
      (pairs.map (·.1)).map (rescale a c) := by
    rw [List.map_map, List.map_map]
    rfl
  refine ⟨?_, ?_, ?_⟩
  · rw [utilities]
    exact List.mem_map_of_mem first.member
  · rw [utilities]
    refine List.forall_mem_map.mpr fun x member below => ?_
    rw [upTo_rescale positive]
    exact first.before x member ((rescale_lt_iff positive c).mp below)
  · rw [utilities, upTo_rescale positive]
    refine first.reached.imp_right fun greatest => List.forall_mem_map.mpr fun x member => ?_
    exact (rescale_le_iff positive c).mpr (greatest x member)

/-- The risk measures of a rescaled distribution are the rescaled measures. -/
theorem measures_rescaled (positive : 0 < a) (c : Rat) (some : pairs ≠ [])
    (nonneg : ∀ e ∈ pairs, 0 ≤ e.2) (low : 0 < level) (high : level ≤ 1) :
    ∃ v m, valueAtRisk (pairs.map (·.1)) (pairs.map (·.2)) level = .ok v ∧
      conditionalValueAtRisk (pairs.map (·.1)) (pairs.map (·.2)) level = .ok m ∧
      valueAtRisk (pairs.map (rescale a c ·.1)) (pairs.map (·.2)) level = .ok (rescale a c v) ∧
      conditionalValueAtRisk (pairs.map (rescale a c ·.1)) (pairs.map (·.2)) level =
        .ok (rescale a c m) := by
  have probable : ∀ p ∈ pairs.map (·.2), 0 ≤ p := List.forall_mem_map.mpr nonneg
  have zipped : (pairs.map (·.1)).zip (pairs.map (·.2)) = pairs := by
    rw [List.zip_map', List.map_id']
  have present : pairs.map (·.1) ≠ [] := mt List.map_eq_nil_iff.mp some
  have moved : pairs.map (rescale a c ·.1) ≠ [] := mt List.map_eq_nil_iff.mp some
  obtain ⟨v, value, mean, first⟩ :=
    conditionalValueAtRisk_spec present (by simp) probable low high
  obtain ⟨w, value', mean', first'⟩ :=
    conditionalValueAtRisk_spec moved (by simp) probable low high
  rw [zipped] at first mean
  rw [List.zip_map'] at first' mean'
  -- Both quantiles are pinned down by the pairs alone, so the search is not followed again.
  have same : w = rescale a c v := first'.unique (first.rescaled positive c)
  subst same
  refine ⟨v, _, value, mean, value', ?_⟩
  rw [mean', shortfall_rescale positive, rescale, rescale]
  refine congrArg Except.ok ?_
  have apart := low.ne'
  field_simp
  ring

end Risk

namespace Problem

variable {p : Problem Rat}

/-- Rescaled utilities are accepted wherever the utilities are. In the decision model only the
objective changes, by the factor, and for every complete strategy the utilities and their risk
measures change by the factor and by the constant once for each value node, while the probabilities
stay what they are. -/
theorem rescaled_utilities {X Y : Keyed Int (Supplied Rat)}
    (created : create p.diagram X Y = .ok p) (positive : 0 < a) (b : Rat) :
    create p.diagram X (Y.map fun e => (e.1, e.2.map (rescale a b))) = .ok (p.rescaled a b) ∧
      (∀ specs name, ∃ f g, Formulation.build specs p name = .ok f ∧
        Formulation.build specs (p.rescaled a b) name = .ok g ∧
        g.pathVariables = f.pathVariables ∧ g.choiceVariables = f.choiceVariables ∧
        g.epsilon = f.epsilon ∧
        g.program = { f.program with
          objective := f.program.objective.map fun e => (e.1, a * e.2) }) ∧
      ∀ σ : Strategy, σ.Complete p.diagram → ∃ entries, p.utilityDistribution σ = .ok entries ∧
        (p.rescaled a b).utilityDistribution σ = .ok (entries.map fun e =>
          (rescale a (p.diagram.value.length * b) e.1, e.2)) ∧
        ∀ level, 0 < level → level ≤ 1 → ∃ v m,
          Risk.valueAtRisk (entries.map (·.1)) (entries.map (·.2)) level = .ok v ∧
          Risk.conditionalValueAtRisk (entries.map (·.1)) (entries.map (·.2)) level = .ok m ∧
          Risk.valueAtRisk (entries.map (rescale a (p.diagram.value.length * b) ·.1))
            (entries.map (·.2)) level = .ok (rescale a (p.diagram.value.length * b) v) ∧
          Risk.conditionalValueAtRisk (entries.map (rescale a (p.diagram.value.length * b) ·.1))
            (entries.map (·.2)) level = .ok (rescale a (p.diagram.value.length * b) m) := by
  have accepted : p.Accepted := ⟨X, Y, created⟩
  have moved : (p.rescaled a b).Accepted := ⟨X, _, create_rescaled created a b⟩
  have weighed := accepted.weighed
  have valued := accepted.valued
  refine ⟨create_rescaled created a b, fun specs name => ?_, fun σ complete => ?_⟩
  · exact ⟨_, _, weighed.buildBy_eq valued toString specs name,
      moved.weighed.buildBy_eq moved.valued toString specs name, rfl, rfl, rfl,
      valued.program_rescaled positive b toString specs name⟩
  · obtain ⟨entries, found, distributed⟩ :=
      valued.utilityDistribution_spec weighed complete.entered
    obtain ⟨entries', found', distributed'⟩ :=
      moved.valued.utilityDistribution_spec moved.weighed complete.entered
    have image := distributed.rescaled positive (p.diagram.value.length * b)
      (valued.mass_rescaled positive b)
    rw [distributed'.unique image] at found'
    refine ⟨entries, found, found', fun level low high => ?_⟩
    obtain ⟨_, filled, some⟩ := valued.utilityDistribution_ne_nil weighed complete
    cases found.symm.trans filled
    refine Risk.measures_rescaled positive _ some (fun e member => ?_) low high
    exact ((distributed.mem_iff _ _).mp member).1.le

/-- What is lost by the careful choices, counted double and with five on top of it. -/
theorem losses_in_another_unit : ∃ X Y entries v m, create losses.diagram X Y = .ok losses ∧
    create losses.diagram X (Y.map fun e => (e.1, e.2.map (rescale 2 5))) =
      .ok (losses.rescaled 2 5) ∧
    losses.utilityDistribution Strategy.careful = .ok entries ∧
    (losses.rescaled 2 5).utilityDistribution Strategy.careful =
      .ok (entries.map fun e => (rescale 2 5 e.1, e.2)) ∧
    Risk.conditionalValueAtRisk (entries.map (·.1)) (entries.map (·.2)) (1 / 2) = .ok m ∧
    Risk.conditionalValueAtRisk (entries.map (rescale 2 5 ·.1)) (entries.map (·.2)) (1 / 2) =
      .ok (rescale 2 5 m) ∧
    Risk.valueAtRisk (entries.map (rescale 2 5 ·.1)) (entries.map (·.2)) (1 / 2) =
      .ok (rescale 2 5 v) := by
  obtain ⟨X, Y, created⟩ := losses_accepted
  have complete : Strategy.careful.Complete losses.diagram := Strategy.careful_complete
  obtain ⟨moved, _, strategies⟩ := rescaled_utilities created (a := 2) (by norm_num) 5
  obtain ⟨entries, found, found', measures⟩ := strategies _ complete
  obtain ⟨v, m, _, mean, value', mean'⟩ := measures (1 / 2) (by norm_num) (by norm_num)
  have single : (losses.diagram.value.length : Rat) * 5 = 5 := by decide +kernel
  rw [single] at found' value' mean'
  exact ⟨X, Y, entries, v, m, created, moved, found, found', mean, mean', value'⟩

end Problem

end InfluenceProgram
