import InfluenceProgram.Proofs.Decoding
import InfluenceProgram.Proofs.Feasible

/-!
The feasible assignments of a decision model. They are those that follow a complete strategy: the
choices are the ones of the strategy, a compatible path has no more than the probability that its
column and its choices leave it, and every other path has none.
-/

set_option autoImplicit false

namespace InfluenceProgram

/-- Values that are zero or one and add up to one are one at a single place. -/
theorem exactly_one {xs : List Int} {f : Int → Rat} (binary : ∀ x ∈ xs, f x = 0 ∨ f x = 1)
    (distinct : xs.Nodup) (total : (xs.map f).sum = 1) :
    ∃ y ∈ xs, ∀ x ∈ xs, f x = if y = x then 1 else 0 := by
  induction xs with
  | nil => exact absurd total (by simp)
  | cons x xs ih =>
      obtain ⟨fresh, distinct⟩ := List.nodup_cons.mp distinct
      have rest := fun x' member => binary x' (List.mem_cons_of_mem x member)
      rw [List.map_cons, List.sum_cons] at total
      rcases binary x List.mem_cons_self with zero | one
      · obtain ⟨y, member, values⟩ := ih rest distinct (by linarith)
        refine ⟨y, List.mem_cons_of_mem x member, ?_⟩
        intro x' within
        rcases List.mem_cons.mp within with rfl | later
        · have other : y ≠ x' := by
            rintro rfl
            exact fresh member
          rw [zero, if_neg other]
        · exact values x' later
      · refine ⟨x, List.mem_cons_self, ?_⟩
        have nonneg : ∀ value ∈ xs.map f, 0 ≤ value := by
          intro value member
          obtain ⟨x', later, rfl⟩ := List.mem_map.mp member
          rcases rest x' later with zero | one
          · exact zero.ge
          · exact one ▸ zero_le_one
        intro x' within
        rcases List.mem_cons.mp within with rfl | later
        · rw [one, if_pos rfl]
        · have other : x ≠ x' := by
            rintro rfl
            exact fresh later
          rw [if_neg other]
          exact List.all_zero_of_le_zero_le_of_sum_eq_zero nonneg (by linarith)
            (List.mem_map_of_mem later)

/-- The choices of an assignment are those of a strategy. -/
def Strategy.Encodes (σ : Strategy) (d : Diagram) (x : Variable → Rat) : Prop :=
  ∀ j ∈ d.decision, ∀ c ∈ d.contexts j, ∀ y ∈ states (d.count j),
    x (.choice j (c ++ [y])) = if σ.choose? j c = some y then 1 else 0

/-- The choices of a strategy, with some share for every path. -/
def Strategy.assignment (σ : Strategy) (shares : Path → Rat) : Variable → Rat
  | .path s => shares s
  | .choice j key => if σ.choose? j key.dropLast = some (key.getLastD 0) then 1 else 0

theorem Strategy.assignment_encodes (σ : Strategy) (shares : Path → Rat) (d : Diagram) :
    σ.Encodes d (σ.assignment shares) := by
  intro j _ c _ y _
  rw [assignment, List.dropLast_concat, List.getLastD_concat]

/-- The strategy that is read off the choices of an assignment. -/
def Formulation.decode (f : Formulation Rat) (x : Variable → Rat) : Except Fault Strategy := do
  let found ← f.choiceVariables
  Strategy.decode f.problem.diagram
    (found.map fun (j, keyed) => (j, keyed.map fun (key, v) => (key, x v)))

namespace Problem

variable {p : Problem Rat} {σ : Strategy} {x : Variable → Rat}

theorem decode_emitted (node : Int → String) (specs : Specs) (name : String)
    (x : Variable → Rat) :
    (p.emitted node specs name).decode x = Strategy.decode p.diagram
      (p.diagram.decision.map fun j =>
        (j, (p.diagram.choiceKeys j).map fun key => (key, x (.choice j key)))) := by
  have keys : (p.emitted node specs name).choiceVariables = .ok (p.diagram.decision.map fun j =>
      (j, (p.diagram.choiceKeys j).map fun key => (key, .choice j key))) := by
    refine Success.mapM_eq fun j decision => ?_
    have range := p.diagram.inner_of_decision decision
    change (do return (j, (← Formulation.choiceKeys p.diagram j).map _)) = _
    rw [Formulation.choiceKeys, p.diagram.countsAt_family range.1 range.2]
    rfl
  rw [Formulation.decode, keys, Success.ok_bind, List.map_map]
  simp only [Function.comp_def, List.map_map]
  rfl

/-- The choices of a feasible assignment are those of the complete strategy that is read off it. -/
theorem Feasible.decode_eq (feasible : p.Feasible x) (node : Int → String) (specs : Specs)
    (name : String) : ∃ σ, (p.emitted node specs name).decode x = .ok σ ∧ σ.Complete p.diagram ∧
      σ.Encodes p.diagram x := by
  have each : ∀ j c, ∃ y, j ∈ p.diagram.decision → c ∈ p.diagram.contexts j →
      y ∈ states (p.diagram.count j) ∧
        ∀ y' ∈ states (p.diagram.count j), x (.choice j (c ++ [y'])) = if y = y' then 1 else 0 := by
    intro j c
    by_cases here : j ∈ p.diagram.decision ∧ c ∈ p.diagram.contexts j
    · obtain ⟨y, state, values⟩ := exactly_one (feasible.binary j here.1 c here.2)
        (nodup_states _) (feasible.strategy j here.1 c here.2)
      exact ⟨y, fun _ _ => ⟨state, values⟩⟩
    · exact ⟨0, fun decision context => absurd ⟨decision, context⟩ here⟩
  choose chosen picked using each
  let value : Int → Path → Rat := fun j key => x (.choice j key)
  have made : ∀ j ∈ p.diagram.decision, ∀ c ∈ p.diagram.contexts j,
      ∀ y ∈ states (p.diagram.count j), 1 / 2 < value j (c ++ [y]) ↔ y = chosen j c := by
    intro j decision c context y state
    change 1 / 2 < x _ ↔ _
    rw [(picked j c decision context).2 y state]
    split
    · rename_i same
      exact iff_of_true (by norm_num) same.symm
    · rename_i other
      exact iff_of_false (by norm_num) (Ne.symm other)
  obtain ⟨σ, decoded, choices⟩ := Strategy.decode_of_unique value chosen
    (fun j decision => ⟨p.diagram.choiceKeys j, fun _ => Iff.rfl, Keyed.get?_map_of_mem
      (fun j => (p.diagram.choiceKeys j).map fun key => (key, value j key)) decision⟩)
    (fun j decision c context => (picked j c decision context).1) made
  refine ⟨σ, (decode_emitted node specs name x).trans decoded, ?_, ?_⟩
  · intro j decision c context
    exact ⟨_, (picked j c decision context).1, choices j decision c context⟩
  · intro j decision c context y state
    rw [(picked j c decision context).2 y state, choices j decision c context]
    simp only [Option.some.injEq]

/-- The choice that an assignment makes at a decision node of a path. -/
theorem choice_of_path (encodes : σ.Encodes p.diagram x) {s : Path} (member : s ∈ p.paths)
    {j : Int} (decision : j ∈ p.diagram.decision) :
    x (.choice j (s.select (p.diagram.family j))) =
      if σ.choose? j (s.select (p.diagram.informationSet j)) = some (s.stateAt j)
      then 1 else 0 := by
  have range := p.diagram.inner_of_decision decision
  rw [p.diagram.select_family]
  exact encodes j decision _ (Diagram.select_mem_contexts member j) _
    (Diagram.stateAt_mem_states member range.1 range.2)

/-- The most that a compatible path can have. Without decision nodes no row holds a path below one,
only its column bounds it. -/
def cap (p : Problem Rat) (weight : Rat) : Rat :=
  if p.diagram.decision = [] then weight else min weight 1

theorem cap_le_weight (p : Problem Rat) (weight : Rat) : p.cap weight ≤ weight := by
  unfold cap
  split
  · exact le_rfl
  · exact min_le_left _ _

theorem cap_le_one (weight : Rat) {j : Int} (decision : j ∈ p.diagram.decision) :
    p.cap weight ≤ 1 := by
  rw [cap, if_neg (List.ne_nil_of_mem decision)]
  exact min_le_right _ _

/-- Where the choices are those of a strategy, bounds and rows say how much each path has. -/
theorem Weighed.feasible_iff (weighed : p.Weighed) (complete : σ.Complete p.diagram)
    (encodes : σ.Encodes p.diagram x) :
    p.Feasible x ↔ ∀ s ∈ p.paths, if σ.Takes p.diagram s
      then 0 ≤ x (.path s) ∧ x (.path s) ≤ p.cap (p.weight s) else x (.path s) = 0 := by
  constructor
  · rintro ⟨bounds, _, _, consistency⟩ s member
    split
    · rename_i takes
      refine ⟨(bounds s member).1, ?_⟩
      unfold cap
      split
      · exact (bounds s member).2
      · rename_i some
        obtain ⟨j, decision⟩ := List.exists_mem_of_ne_nil _ some
        have below := consistency s member j decision
        rw [choice_of_path encodes member decision, if_pos (takes j decision)] at below
        exact le_min (bounds s member).2 below
    · rename_i leaves
      obtain ⟨j, decision, other⟩ := Strategy.exists_other_of_not_takes leaves
      have below := consistency s member j decision
      rw [choice_of_path encodes member decision, if_neg other] at below
      exact le_antisymm below (bounds s member).1
  · intro shares
    refine ⟨?_, ?_, ?_, ?_⟩
    · intro s member
      have share := shares s member
      split at share
      · exact ⟨share.1, share.2.trans (p.cap_le_weight _)⟩
      · rw [share]
        exact ⟨le_rfl, weighed.weight_nonneg member⟩
    · intro j decision c context y state
      rw [encodes j decision c context y state]
      split
      · exact Or.inr rfl
      · exact Or.inl rfl
    · intro j decision c context
      rw [List.map_congr_left (encodes j decision c context)]
      exact complete.sum_chosen decision context
    · intro s member j decision
      have share := shares s member
      rw [choice_of_path encodes member decision]
      split at share
      · rename_i takes
        rw [if_pos (takes j decision)]
        exact share.2.trans (cap_le_one _ decision)
      · rw [share]
        split
        · exact zero_le_one
        · exact le_rfl

/-- An assignment follows a strategy if its choices are those of the strategy and its paths have
what a cap on their probabilities allows where they are compatible, and nothing elsewhere. -/
structure Follows (p : Problem Rat) (cap : Rat → Rat) (σ : Strategy) (x : Variable → Rat) :
    Prop where
  complete : σ.Complete p.diagram
  encodes : σ.Encodes p.diagram x
  shares : ∃ compatible, σ.compatiblePaths p.diagram = .ok compatible ∧
    ∀ s ∈ p.paths, ∃ weight, p.probability s = .ok weight ∧
      if s ∈ compatible then 0 ≤ x (.path s) ∧ x (.path s) ≤ cap weight else x (.path s) = 0

theorem Weighed.follows_iff (weighed : p.Weighed) (cap : Rat → Rat) :
    p.Follows cap σ x ↔ σ.Complete p.diagram ∧ σ.Encodes p.diagram x ∧
      ∀ s ∈ p.paths, if σ.Takes p.diagram s
        then 0 ≤ x (.path s) ∧ x (.path s) ≤ cap (p.weight s) else x (.path s) = 0 := by
  constructor
  · rintro ⟨complete, encodes, compatible, found, shares⟩
    rw [complete.entered.compatiblePaths_eq] at found
    cases found
    refine ⟨complete, encodes, fun s member => ?_⟩
    obtain ⟨weight, weighs, share⟩ := shares s member
    rw [weighed.probability_eq member] at weighs
    cases weighs
    have within : s ∈ InfluenceProgram.paths p.diagram.counts := member
    simpa only [List.mem_filter, decide_eq_true_eq, and_iff_right within] using share
  · rintro ⟨complete, encodes, shares⟩
    refine ⟨complete, encodes, p.taken σ, complete.entered.compatiblePaths_eq, fun s member => ?_⟩
    refine ⟨p.weight s, weighed.probability_eq member, ?_⟩
    simpa only [mem_taken, and_iff_right member] using shares s member

/-- The feasible assignments of the decision model of an accepted problem are those that follow a
complete strategy. -/
theorem feasible_iff_follows (accepted : p.Accepted) (specs : Specs) (name : String) :
    ∃ f, Formulation.build specs p name = .ok f ∧
      ∀ x, f.program.feasible 0 x = true ↔ ∃ σ, p.Follows p.cap σ x := by
  have weighed := accepted.weighed
  refine ⟨_, weighed.buildBy_eq accepted.valued toString specs name, fun x => ?_⟩
  rw [feasible_emitted_iff]
  constructor
  · intro feasible
    obtain ⟨σ, _, complete, encodes⟩ := feasible.decode_eq toString specs name
    exact ⟨σ, (weighed.follows_iff p.cap).mpr
      ⟨complete, encodes, (weighed.feasible_iff complete encodes).mp feasible⟩⟩
  · rintro ⟨σ, follows⟩
    obtain ⟨complete, encodes, shares⟩ := (weighed.follows_iff p.cap).mp follows
    exact (weighed.feasible_iff complete encodes).mpr shares

/-- The careful choices, and every path that they lead to with its whole probability. -/
def umbrellaTaken : Variable → Rat
  | .path s => if s = [1, 1] then 3 / 10 else if s = [2, 2] then 7 / 10 else 0
  | .choice _ key => if key = [1, 1] ∨ key = [2, 2] then 1 else 0

theorem umbrellaTaken_follows : umbrella.Follows umbrella.cap Strategy.careful umbrellaTaken := by
  refine (umbrella_accepted.weighed.follows_iff _).mpr
    ⟨Strategy.careful_complete, ?_, ?_⟩
  · unfold Strategy.Encodes
    decide +kernel
  · decide +kernel

theorem umbrella_feasible : ∃ f, Formulation.build {} umbrella "umbrella" = .ok f ∧
    f.program.feasible 0 umbrellaTaken = true := by
  obtain ⟨f, built, feasible⟩ := feasible_iff_follows umbrella_accepted {} "umbrella"
  exact ⟨f, built, (feasible umbrellaTaken).mpr ⟨_, umbrellaTaken_follows⟩⟩

/-- A single state whose probability is above one, as far as the tolerance goes. -/
def heavy : Problem Rat where
  diagram := {
    toOutline := Outline.ofLists [1] [] [] []
    counts := [1]
    layered := (@Outline.layered_of_defect [1] [] [] [] 1 rfl).1
    counts_length := rfl
    counts_pos := by decide }
  probabilities := [(1, ⟨[1], #[100000001 / 100000000], rfl⟩)]
  utilities := []

theorem heavy_accepted : heavy.Accepted := heavy.accepted_iff.mpr (by decide +kernel)

/-- Without decision nodes a path can have more than one. -/
theorem heavy_above_one : heavy.Accepted ∧ ∃ f, Formulation.build {} heavy "heavy" = .ok f ∧
    f.program.feasible 0 (fun _ => 100000001 / 100000000) = true ∧
      ¬∃ σ, heavy.Follows (min · 1) σ fun _ => 100000001 / 100000000 := by
  have weighed := heavy_accepted.weighed
  refine ⟨heavy_accepted, _, weighed.buildBy_eq heavy_accepted.valued toString {} "heavy", ?_, ?_⟩
  · have feasible : heavy.Feasible fun _ => 100000001 / 100000000 := by
      refine ⟨?_, ?_, ?_, ?_⟩ <;> decide +kernel
    exact feasible_emitted_iff.mpr feasible
  · rintro ⟨σ, follows⟩
    obtain ⟨_, _, shares⟩ := (weighed.follows_iff _).mp follows
    have share := shares [1] (by decide)
    rw [if_pos] at share
    · revert share
      norm_num
    · intro j decision
      cases decision

end Problem

end InfluenceProgram
