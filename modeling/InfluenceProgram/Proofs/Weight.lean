import InfluenceProgram.Proofs.Accepted
import InfluenceProgram.Proofs.Sequential

/-!
The probability and the utility of a path as products and sums over nodes. In a problem whose tables
have been checked both have a value at every path, and probabilities are not negative.
-/

set_option autoImplicit false

namespace InfluenceProgram.Problem

/-- The conditional probability of a state of a chance node in a context. -/
def conditional (p : Problem Rat) : Kernel := fun j c x =>
  ((p.probabilities.get? j).map fun t => t.valueAt (c ++ [x])).getD 1

/-- The product of the conditional probabilities along a path. -/
def weight (p : Problem Rat) (s : Path) : Rat := p.conditional.along p.diagram p.diagram.chance s

/-- The entry that a path selects from the table of a value node. -/
def payoff (p : Problem Rat) (v : Int) (s : Path) : Rat :=
  ((p.utilities.get? v).map fun t => t.valueAt (s.select (p.diagram.informationSet v))).getD 0

/-- The sum of the payoffs of a path, `least` taken from each of them. -/
def gain (p : Problem Rat) (least : Rat) (s : Path) : Rat :=
  (p.diagram.value.map fun v => p.payoff v s - least).sum

theorem gain_eq_sub (p : Problem Rat) (least : Rat) (s : Path) :
    p.gain least s = p.gain 0 s - p.diagram.value.length * least := by
  unfold gain
  induction p.diagram.value with
  | nil => simp
  | cons v nodes ih =>
      rw [List.map_cons, List.sum_cons, ih, List.map_cons, List.sum_cons, List.length_cons]
      push_cast
      ring

/-- A factor whose axes are those of its nodes has an entry at every path. -/
theorem Factor.read_eq {d : Diagram} {t : Tensor Rat} {nodes : List Int}
    (shape : t.shape = d.axes nodes) (covered : Path.Covers d.counts nodes) {s : Path}
    (member : s ∈ InfluenceProgram.paths d.counts) :
    Factor.read ⟨t, nodes⟩ s = .ok (t.valueAt (s.select nodes)) := by
  have reached := covered.of_length (length_of_mem_paths member)
  rw [Factor.read, Path.restrict_eq reached, Success.ok_bind]
  exact (Tensor.get_of_path shape (Path.select_mem_paths member covered)).1

variable {p : Problem Rat}

theorem Weighed.inner (weighed : p.Weighed) {j : Int} {t : Tensor Rat}
    (member : (j, t) ∈ p.probabilities) : 1 ≤ j ∧ j ≤ p.diagram.inner :=
  p.diagram.inner_of_chance (weighed.keys ▸ Keyed.mem_keys member)

theorem Weighed.covers (weighed : p.Weighed) {j : Int} {t : Tensor Rat}
    (member : (j, t) ∈ p.probabilities) : Path.Covers p.diagram.counts (p.diagram.family j) := by
  have range := weighed.inner member
  exact p.diagram.covers_family range.1 (by rw [p.diagram.counts_length]; exact range.2)

theorem Weighed.distinct (weighed : p.Weighed) : p.probabilities.keys.Nodup := by
  rw [weighed.keys]
  exact p.diagram.nodup_chance

theorem Valued.distinct (valued : p.Valued) : p.utilities.keys.Nodup := by
  rw [valued.keys]
  exact p.diagram.nodup_value

theorem Weighed.table (weighed : p.Weighed) {j : Int} (chance : j ∈ p.diagram.chance) :
    ∃ t, (j, t) ∈ p.probabilities ∧ p.probabilities.get? j = some t := by
  rw [← weighed.keys] at chance
  obtain ⟨⟨_, t⟩, member, rfl⟩ := List.mem_map.mp chance
  exact ⟨t, member, Keyed.get?_of_mem weighed.distinct member⟩

theorem Valued.table (valued : p.Valued) {v : Int} (value : v ∈ p.diagram.value) :
    ∃ t, (v, t) ∈ p.utilities ∧ p.utilities.get? v = some t := by
  rw [← valued.keys] at value
  obtain ⟨⟨_, t⟩, member, rfl⟩ := List.mem_map.mp value
  exact ⟨t, member, Keyed.get?_of_mem valued.distinct member⟩

theorem Weighed.probability_eq (weighed : p.Weighed) {s : Path} (member : s ∈ p.paths) :
    p.probability s = .ok (p.weight s) := by
  have read : ∀ product : Rat, ∀ f ∈ p.chanceFactors,
      (do return product * (← f.read s)) =
        (.ok (product * f.table.valueAt (s.select f.nodes)) : Except Fault Rat) := by
    intro product f factor
    obtain ⟨⟨j, t⟩, table, rfl⟩ := List.mem_map.mp factor
    rw [Factor.read_eq (weighed.shape j t table) (weighed.covers table) member, Success.ok_bind]
    rfl
  have factors : p.chanceFactors.map (fun f => f.table.valueAt (s.select f.nodes)) =
      p.diagram.chance.map (p.conditional.on p.diagram s) := by
    rw [chanceFactors, List.map_map, ← weighed.keys]
    refine (Keyed.map_eq_map_keys weighed.distinct _
      (fun j t => (t.map fun t => t.valueAt (s.select (p.diagram.family j))).getD 1)
      fun _ _ => rfl).trans ?_
    apply List.map_congr_left
    intro j _
    rw [p.diagram.select_family]
    rfl
  rw [probability, probabilityBy, Success.foldlM_eq read, weight, Kernel.along, ← factors,
    List.prod_eq_foldl,
    List.foldl_map]

theorem Valued.utility_eq (valued : p.Valued) (least : Rat) {s : Path} (member : s ∈ p.paths) :
    p.utility least s = .ok (p.gain least s) := by
  have read : ∀ f ∈ p.valueFactors, (do return (← f.read s) - least) =
      (.ok (f.table.valueAt (s.select f.nodes) - least) : Except Fault Rat) := by
    intro f factor
    obtain ⟨⟨v, t⟩, table, rfl⟩ := List.mem_map.mp factor
    have covered := p.diagram.covers_informationSet_of_full p.diagram.counts_length v
    rw [Factor.read_eq (valued.shape v t table) covered member, Success.ok_bind]
    rfl
  have factors : p.valueFactors.map (fun f => f.table.valueAt (s.select f.nodes) - least) =
      p.diagram.value.map fun v => p.payoff v s - least := by
    rw [valueFactors, List.map_map, ← valued.keys]
    exact Keyed.map_eq_map_keys valued.distinct _
      (fun v t => (t.map fun t => t.valueAt (s.select (p.diagram.informationSet v))).getD 0 - least)
      fun _ _ => rfl
  rw [utility, utility?, utilityBy?, sumBy?, Success.mapM_eq read, factors, gain]
  cases p.diagram.value with
  | nil => rfl
  | cons v nodes => exact congrArg Except.ok (Scalar.sum_eq _)

theorem Weighed.conditional_nonneg (weighed : p.Weighed) {j : Int} (chance : j ∈ p.diagram.chance)
    {c : Path} (context : c ∈ p.diagram.contexts j) {x : Int}
    (state : x ∈ states (p.diagram.count j)) : 0 ≤ p.conditional j c x := by
  obtain ⟨t, table, found⟩ := weighed.table chance
  have member := Diagram.mem_paths_family.mpr ⟨c, context, x, state, rfl⟩
  rw [conditional, found]
  exact weighed.nonneg j t table _ (Tensor.get_of_path (weighed.shape j t table) member).2

theorem Weighed.conditional_total (weighed : p.Weighed) {j : Int} {t : Tensor Rat}
    (table : (j, t) ∈ p.probabilities) (c : Path) :
    p.conditional.total p.diagram j c = t.total p.diagram j c := by
  have entries : p.conditional j c = fun x => t.valueAt (c ++ [x]) := by
    funext x
    rw [conditional, Keyed.get?_of_mem weighed.distinct table]
    rfl
  rw [Kernel.total, Tensor.total, entries]

theorem Weighed.weight_nonneg (weighed : p.Weighed) {s : Path} (member : s ∈ p.paths) :
    0 ≤ p.weight s := by
  apply List.prod_nonneg
  intro x factor
  obtain ⟨j, chance, rfl⟩ := List.mem_map.mp factor
  have range := p.diagram.inner_of_chance chance
  exact weighed.conditional_nonneg chance (Diagram.select_mem_contexts member j)
    (Diagram.stateAt_mem_states member range.1 range.2)

theorem Weighed.weight_eq_zero (weighed : p.Weighed) {s : Path} (member : s ∈ p.paths)
    (impossible : ¬0 < p.weight s) : p.weight s = 0 :=
  le_antisymm (not_lt.mp impossible) (weighed.weight_nonneg member)

end InfluenceProgram.Problem
