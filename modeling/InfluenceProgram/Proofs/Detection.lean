import InfluenceProgram.Cut
import InfluenceProgram.Proofs.CutRow

/-!
Detection of the cuts in exact arithmetic, where each path has all of its probability or nothing.
The tolerance of both cuts is the least probability of a path. So the sum cut overlooks one missing
path of this probability, and the count cut sees nothing at all if some path is impossible.
-/

set_option autoImplicit false

namespace InfluenceProgram

/-- The values of the path variables, in the order in which the cuts read them. -/
def Formulation.pathValues (f : Formulation Rat) (x : Variable → Rat) : List Rat :=
  f.pathVariables.map fun e => x e.2

namespace CutKind

theorem violated_probabilitySum_iff (epsilon : Rat) (values : List Rat) :
    probabilitySum.violated epsilon values = true ↔ epsilon < |values.sum - 1| := by
  rw [violated, sumMissed, decide_eq_true_eq, Scalar.sum_eq, Scalar.distance_eq]

theorem pathCountTolerance_eq : (pathCountTolerance : Rat) = 9 / 10 := by
  change mkRat 9 (Nat.pow 10 1) = _
  norm_num [Rat.mkRat_eq_div]

/-- Numbers of paths differ by whole numbers, so the tolerance lets no difference pass. -/
theorem countMissed_iff (active number : Nat) :
    countMissed Rat active number = true ↔ active ≠ number := by
  have gap : ∀ n : Nat, (Scalar.ofInt (Int.ofNat n) : Rat) = n := fun _ => rfl
  rw [countMissed, decide_eq_true_eq, gap, pathCountTolerance_eq]
  constructor
  · rintro missed rfl
    norm_num at missed
  · intro different
    have apart : 1 ≤ (Int.ofNat active - Int.ofNat number).natAbs := by
      simp only [Int.ofNat_eq_natCast]
      omega
    have far : (1 : Rat) ≤ (Int.ofNat active - Int.ofNat number).natAbs := by exact_mod_cast apart
    linarith

theorem violated_pathCount_iff (epsilon : Rat) (values : List Rat) (number : Nat) :
    (pathCount number).violated epsilon values = true ↔
      values.countP (epsilon ≤ ·) ≠ number := countMissed_iff _ _

end CutKind

/-- Among amounts that reach a threshold, only none and the threshold alone do not exceed it. -/
theorem exceeds_iff {threshold : Rat} {amounts : List Rat} (nonneg : 0 ≤ threshold)
    (reach : ∀ a ∈ amounts, threshold ≤ a ∧ 0 < a) :
    threshold < amounts.sum ↔ amounts ≠ [] ∧ amounts ≠ [threshold] := by
  match amounts with
  | [] => simpa using nonneg
  | [a] =>
      have least := (reach a (by simp)).1
      simpa [eq_comm] using least.lt_iff_ne
  | a :: b :: rest =>
      have first := reach a (by simp)
      have second := reach b (by simp)
      have others : 0 ≤ rest.sum :=
        List.sum_nonneg fun c member => (reach c (by simp [member])).2.le
      refine iff_of_true ?_ (by simp)
      rw [List.sum_cons, List.sum_cons]
      linarith

namespace Problem

variable {p : Problem Rat} {σ : Strategy} {x : Variable → Rat}

/-- The least probability of a path. -/
def least (p : Problem Rat) : Rat := (Scalar.least? (p.paths.map p.weight)).getD 1

theorem least_spec (p : Problem Rat) :
    (∃ s ∈ p.paths, p.weight s = p.least) ∧ ∀ s ∈ p.paths, p.least ≤ p.weight s := by
  obtain ⟨m, found⟩ : ∃ m, Scalar.least? (p.paths.map p.weight) = some m := by
    cases weights : p.paths.map p.weight with
    | nil => exact absurd (List.map_eq_nil_iff.mp weights) (paths_ne_nil p.diagram.counts_pos)
    | cons _ _ => exact ⟨_, rfl⟩
  obtain ⟨attained, below⟩ := Scalar.least?_some found
  rw [least, found, Option.getD_some]
  exact ⟨List.mem_map.mp attained, List.forall_mem_map.mp below⟩

theorem Weighed.least_nonneg (weighed : p.Weighed) : 0 ≤ p.least := by
  obtain ⟨s, member, same⟩ := p.least_spec.1
  exact same ▸ weighed.weight_nonneg member

/-- The least probability is zero exactly if some path is impossible. -/
theorem Weighed.least_eq_zero_iff (weighed : p.Weighed) :
    p.least = 0 ↔ ∃ s ∈ p.paths, p.probability s = .ok 0 := by
  obtain ⟨⟨s, member, same⟩, below⟩ := p.least_spec
  constructor
  · intro zero
    exact ⟨s, member, by rw [weighed.probability_eq member, same, zero]⟩
  · rintro ⟨t, member, impossible⟩
    rw [weighed.probability_eq member, Except.ok.injEq] at impossible
    exact le_antisymm (impossible ▸ below t member) weighed.least_nonneg

theorem pathValues_emitted (node : Int → String) (specs : Specs) (name : String) :
    (p.emitted node specs name).pathValues x = p.paths.map fun s => x (.path s) := by
  rw [Formulation.pathValues, Formulation.pathVariables, List.map_map]
  rfl

theorem epsilon_emitted (node : Int → String) (specs : Specs) (name : String) :
    (p.emitted node specs name).epsilon = p.least := rfl

/-- Each path has all of its probability or nothing. -/
def Vertex (p : Problem Rat) (x : Variable → Rat) : Prop :=
  ∀ s ∈ p.paths, ∃ weight, p.probability s = .ok weight ∧
    (x (.path s) = 0 ∨ x (.path s) = weight)

theorem Weighed.vertex_iff (weighed : p.Weighed) :
    p.Vertex x ↔ ∀ s ∈ p.paths, x (.path s) = 0 ∨ x (.path s) = p.weight s := by
  refine forall₂_congr fun s member => ?_
  rw [weighed.probability_eq member]
  simp

/-- If all paths are possible, the active ones are those that have all of their probability. -/
theorem count_of_least_pos (possible : 0 < p.least)
    (vertex : ∀ s ∈ p.paths, x (.path s) = 0 ∨ x (.path s) = p.weight s) :
    (p.paths.map (p.fraction x)).sum =
      (p.paths.map fun s => x (.path s)).countP (p.least ≤ ·) := by
  have each : ∀ s ∈ p.paths, p.fraction x s = if p.least ≤ x (.path s) then 1 else 0 := by
    intro s member
    have low := p.least_spec.2 s member
    have positive := possible.trans_le low
    rw [fraction, if_pos positive]
    rcases vertex s member with nothing | all
    · rw [nothing, zero_div, if_neg (not_le.mpr possible)]
    · rw [all, div_self positive.ne', if_pos low]
  rw [List.map_congr_left each, Scalar.sum_ite_eq_countP, List.countP_map]
  rfl

/-- If some path is impossible, every path counts as active. -/
theorem Weighed.count_of_least_zero (weighed : p.Weighed) (impossible : p.least = 0)
    (vertex : ∀ s ∈ p.paths, x (.path s) = 0 ∨ x (.path s) = p.weight s) :
    (p.paths.map fun s => x (.path s)).countP (p.least ≤ ·) = p.paths.length := by
  have all : ∀ s ∈ p.paths, decide (p.least ≤ x (.path s)) = true := by
    intro s member
    rw [decide_eq_true_eq, impossible]
    rcases vertex s member with nothing | whole
    · rw [nothing]
    · rw [whole]
      exact weighed.weight_nonneg member
  rw [List.countP_map]
  exact List.countP_eq_length.mpr all

/-- What the detection of the count cut says, against the row that the cut submits: they agree if
all paths are possible, and otherwise the detection looks at the number of all paths alone. -/
theorem count_detection (accepted : p.Accepted) (specs : Specs) (name : String) :
    ∃ f, Formulation.build specs p name = .ok f ∧ 0 ≤ f.epsilon ∧
      (f.epsilon = 0 ↔ ∃ s ∈ p.paths, p.probability s = .ok 0) ∧
      ∀ number, ∃ row, f.cutRow (.pathCount number) = .ok row ∧ ∀ x, p.Vertex x →
        (0 < f.epsilon →
          ((CutKind.pathCount number).violated f.epsilon (f.pathValues x) = true ↔
            row.holds 0 x = false)) ∧
        (f.epsilon = 0 →
          ((CutKind.pathCount number).violated f.epsilon (f.pathValues x) = true ↔
            p.paths.length ≠ number)) := by
  have weighed := accepted.weighed
  refine ⟨_, weighed.buildBy_eq accepted.valued toString specs name, weighed.least_nonneg,
    weighed.least_eq_zero_iff, fun number => ⟨p.countRow number,
      weighed.cutRow_eq toString specs name number, fun x vertex => ⟨?_, ?_⟩⟩⟩
  · intro possible
    have count := count_of_least_pos possible (weighed.vertex_iff.mp vertex)
    have reaches : (p.countRow number).holds 0 x = true ↔
        (p.countRow number).terms.value x = number := by
      rw [Row.holds]
      exact holds_exactly_iff _ _
    rw [CutKind.violated_pathCount_iff, pathValues_emitted, epsilon_emitted, ← Bool.not_eq_true,
      reaches, countRow_value, count, Nat.cast_inj]
  · intro impossible
    rw [CutKind.violated_pathCount_iff, pathValues_emitted, epsilon_emitted,
      weighed.count_of_least_zero impossible (weighed.vertex_iff.mp vertex)]

/-- All paths of the umbrella problem are possible, and two of them are what two asks for. -/
theorem umbrella_count_detection : ∃ f row,
    Formulation.build ⟨false, 2⟩ umbrella "umbrella" = .ok f ∧
      f.cutRow (.pathCount 2) = .ok row ∧ umbrella.Vertex umbrellaTaken ∧ 0 < f.epsilon ∧
      ((CutKind.pathCount 2).violated f.epsilon (f.pathValues umbrellaTaken) = true ↔
        row.holds 0 umbrellaTaken = false) := by
  have weighed := umbrella_accepted.weighed
  obtain ⟨f, built, _, _, rows⟩ := count_detection umbrella_accepted ⟨false, 2⟩ "umbrella"
  obtain ⟨row, found, agree⟩ := rows 2
  have vertex : umbrella.Vertex umbrellaTaken := weighed.vertex_iff.mpr (by decide +kernel)
  have possible : 0 < f.epsilon := by
    obtain rfl := Except.ok.inj ((weighed.buildBy_eq umbrella_accepted.valued toString ⟨false, 2⟩
      "umbrella").symm.trans built)
    decide +kernel
  exact ⟨f, row, built, found, vertex, possible, (agree _ vertex).1 possible⟩

theorem tossed_layered : (Outline.ofLists [1] [] [] []).Layered :=
  (@Outline.layered_of_defect [1] [] [] [] 1 rfl).1

/-- One chance node with two states. -/
def tossed (q : Rat) : Problem Rat where
  diagram := {
    toOutline := Outline.ofLists [1] [] [] []
    counts := [2]
    layered := tossed_layered
    counts_length := rfl
    counts_pos := by decide }
  probabilities := [(1, ⟨[2], #[q, 1 - q], rfl⟩)]
  utilities := []

/-- Of a toss, only the second state has its probability. -/
def secondOnly (q : Rat) : Variable → Rat
  | .path s => if s = [2] then 1 - q else 0
  | .choice _ _ => 0

/-- If the first state is impossible, the second one alone is one possible path, as the row says,
but both paths count as active. -/
theorem impossible_path_miscounted : (tossed 0).Accepted ∧ ∃ f row,
    Formulation.build ⟨false, 1⟩ (tossed 0) "tossed" = .ok f ∧ f.epsilon = 0 ∧
      f.cutRow (.pathCount 1) = .ok row ∧ (tossed 0).Vertex (secondOnly 0) ∧
        row.holds 0 (secondOnly 0) = true ∧
          (CutKind.pathCount 1).violated f.epsilon (f.pathValues (secondOnly 0)) = true := by
  have accepted : (tossed 0).Accepted := (tossed 0).accepted_iff.mpr (by decide +kernel)
  have weighed := accepted.weighed
  refine ⟨accepted, _, (tossed 0).countRow 1,
    weighed.buildBy_eq accepted.valued toString ⟨false, 1⟩ "tossed", ?_,
    weighed.cutRow_eq toString ⟨false, 1⟩ "tossed" 1, weighed.vertex_iff.mpr ?_, ?_, ?_⟩
  · decide +kernel
  · decide +kernel
  · decide +kernel
  · decide +kernel

/-- The probabilities of the possible paths that have nothing. -/
def missing (weighted : List (Path × Rat)) (x : Variable → Rat) : List Rat :=
  (weighted.filter fun e => 0 < e.2 ∧ x (.path e.1) = 0).map (·.2)

/-- Some paths have all of their probability or nothing, and all others have nothing. -/
structure VertexOn (p : Problem Rat) (weighted : List (Path × Rat)) (x : Variable → Rat) :
    Prop where
  inside : ∀ e ∈ weighted, x (.path e.1) = 0 ∨ x (.path e.1) = e.2
  outside : ∀ s ∈ p.paths, s ∉ weighted.map (·.1) → x (.path s) = 0

instance (p : Problem Rat) (weighted : List (Path × Rat)) (x : Variable → Rat) :
    Decidable (p.VertexOn weighted x) :=
  decidable_of_iff ((∀ e ∈ weighted, x (.path e.1) = 0 ∨ x (.path e.1) = e.2) ∧
      ∀ s ∈ p.paths, s ∉ weighted.map (·.1) → x (.path s) = 0)
    ⟨fun ⟨inside, outside⟩ => ⟨inside, outside⟩, fun vertex => ⟨vertex.inside, vertex.outside⟩⟩

/-- What the compatible paths have falls short of one by what is missing. -/
theorem Weighed.sum_of_vertexOn (weighed : p.Weighed) (normalized : p.Normalized)
    (complete : σ.Complete p.diagram)
    (vertex : p.VertexOn ((p.taken σ).map fun s => (s, p.weight s)) x) :
    (p.paths.map fun s => x (.path s)).sum =
      1 - (missing ((p.taken σ).map fun s => (s, p.weight s)) x).sum := by
  have outside : ∀ s ∈ p.paths, ¬σ.Takes p.diagram s → x (.path s) = 0 := by
    intro s member leaves
    apply vertex.outside s member
    rw [List.map_map, Function.comp_def, List.map_id']
    exact fun taken => leaves (mem_taken.mp taken).2
  -- An impossible path has its whole probability even if it has nothing, and misses nothing.
  have split : ∀ s ∈ p.taken σ, p.weight s =
      x (.path s) + if 0 < p.weight s ∧ x (.path s) = 0 then p.weight s else 0 := by
    intro s member
    rcases vertex.inside _ (List.mem_map_of_mem member) with nothing | all
    · by_cases possible : 0 < p.weight s
      · rw [if_pos ⟨possible, nothing⟩, nothing, zero_add]
      · rw [if_neg (fun both => possible both.1), nothing, zero_add]
        exact weighed.weight_eq_zero (mem_taken.mp member).1 possible
    · rw [all, if_neg (fun both => both.1.ne' both.2), add_zero]
  have parts : (missing ((p.taken σ).map fun s => (s, p.weight s)) x).sum =
      ((p.taken σ).map fun s =>
        if 0 < p.weight s ∧ x (.path s) = 0 then p.weight s else 0).sum := by
    rw [missing, List.filter_map, List.map_map, List.sum_map_ite]
    simp [Function.comp_def]
  rw [sum_paths_eq outside, parts, ← weighed.sum_weight normalized complete, eq_sub_iff_add_eq,
    ← List.sum_map_add, List.map_congr_left split]

/-- What the compatible paths of a complete strategy miss is detected by the sum cut, unless it is
one path of the least probability, which is the tolerance of the cut. -/
theorem sum_detection (accepted : p.Accepted) (normalized : p.Normalized)
    (complete : σ.Complete p.diagram) (specs : Specs) (name : String) :
    ∃ f weighted, Formulation.build specs p name = .ok f ∧ p.weightedPaths σ = .ok weighted ∧
      ∀ x, p.VertexOn weighted x →
        (f.pathValues x).sum = 1 - (missing weighted x).sum ∧
        (CutKind.probabilitySum.violated f.epsilon (f.pathValues x) = true ↔
          (f.pathValues x).sum ≠ 1 ∧ (f.pathValues x).sum ≠ 1 - f.epsilon) ∧
        (CutKind.probabilitySum.violated f.epsilon (f.pathValues x) = true ↔
          missing weighted x ≠ [] ∧ missing weighted x ≠ [f.epsilon]) := by
  have weighed := accepted.weighed
  refine ⟨_, _, weighed.buildBy_eq accepted.valued toString specs name,
    weighed.weightedPaths_eq complete.entered, fun x vertex => ?_⟩
  rw [pathValues_emitted, epsilon_emitted, CutKind.violated_probabilitySum_iff,
    weighed.sum_of_vertexOn normalized complete vertex]
  have reach : ∀ a ∈ missing ((p.taken σ).map fun s => (s, p.weight s)) x,
      p.least ≤ a ∧ 0 < a := by
    intro a member
    obtain ⟨e, kept, rfl⟩ := List.mem_map.mp member
    obtain ⟨listed, possible⟩ := List.mem_filter.mp kept
    obtain ⟨s, taken, rfl⟩ := List.mem_map.mp listed
    exact ⟨p.least_spec.2 s (mem_taken.mp taken).1, (of_decide_eq_true possible).1⟩
  generalize missing ((p.taken σ).map fun s => (s, p.weight s)) x = amounts at reach ⊢
  have nonneg : 0 ≤ amounts.sum := List.sum_nonneg fun a member => (reach a member).2.le
  have gap : |1 - amounts.sum - 1| = amounts.sum := by
    rw [sub_sub_cancel_left, abs_neg, abs_of_nonneg nonneg]
  have exceeds := exceeds_iff weighed.least_nonneg reach
  rw [gap]
  refine ⟨rfl, ?_, exceeds⟩
  constructor
  · intro more
    have least := weighed.least_nonneg
    constructor <;> intro same <;> linarith
  · rintro ⟨some, other⟩
    refine exceeds.mpr ⟨?_, ?_⟩
    · rintro rfl
      exact some (by simp)
    · rintro rfl
      exact other (by simp)

/-- With nothing on any path the careful strategy misses both of its paths. -/
theorem umbrella_sum_detection : ∃ f, Formulation.build ⟨true, 0⟩ umbrella "umbrella" = .ok f ∧
    CutKind.probabilitySum.violated f.epsilon (f.pathValues fun _ => 0) = true := by
  obtain ⟨f, weighted, built, found, detects⟩ := sum_detection umbrella_accepted
    umbrella_normalized Strategy.careful_complete ⟨true, 0⟩ "umbrella"
  have two : weighted = [([1, 1], 3 / 10), ([2, 2], 7 / 10)] := by
    rw [umbrella_accepted.weighed.weightedPaths_eq Strategy.careful_complete.entered] at found
    cases found
    decide +kernel
  subst two
  have vertex : umbrella.VertexOn [([1, 1], 3 / 10), ([2, 2], 7 / 10)] fun _ => 0 := by
    decide +kernel
  refine ⟨f, built, (detects _ vertex).2.2.mpr ⟨by decide +kernel, ?_⟩⟩
  have both : missing [([1, 1], 3 / 10), ([2, 2], 7 / 10)] (fun _ => 0) = [3 / 10, 7 / 10] := by
    decide +kernel
  rw [both]
  simp

/-- A missing path of the least probability is within the tolerance, so the sum is not one and the
cut is not violated. -/
theorem least_path_overlooked : (tossed (1 / 4)).Accepted ∧ (tossed (1 / 4)).Normalized ∧
    Strategy.Complete [] (tossed (1 / 4)).diagram ∧ ∃ f weighted,
      Formulation.build ⟨true, 0⟩ (tossed (1 / 4)) "tossed" = .ok f ∧
        (tossed (1 / 4)).weightedPaths [] = .ok weighted ∧
          (tossed (1 / 4)).VertexOn weighted (secondOnly (1 / 4)) ∧
            (f.pathValues (secondOnly (1 / 4))).sum ≠ 1 ∧
              CutKind.probabilitySum.violated f.epsilon (f.pathValues (secondOnly (1 / 4))) =
                false := by
  have accepted : (tossed (1 / 4)).Accepted := (tossed (1 / 4)).accepted_iff.mpr (by decide +kernel)
  have complete : Strategy.Complete [] (tossed (1 / 4)).diagram := by decide
  have weighed := accepted.weighed
  refine ⟨accepted, by decide +kernel, complete, _, _,
    weighed.buildBy_eq accepted.valued toString ⟨true, 0⟩ "tossed",
    weighed.weightedPaths_eq complete.entered, ?_, ?_, ?_⟩
  · decide +kernel
  · decide +kernel
  · decide +kernel

end Problem

end InfluenceProgram
