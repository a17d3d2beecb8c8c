import InfluenceProgram.Analysis.Distribution
import InfluenceProgram.Proofs.Weight

/-!
Strategies as functions of contexts, and the paths compatible with them. A complete strategy has a
state in range for every context of every decision node.
-/

set_option autoImplicit false

namespace InfluenceProgram

namespace Strategy

/-- The state that a strategy takes at a node in a context, if it takes any. -/
def choose? (σ : Strategy) (j : Int) (context : Path) : Option Int :=
  (σ.get? j).bind (·.get? context)

/-- Every context of every decision node has a state, and it is one of the node. -/
def Complete (σ : Strategy) (d : Diagram) : Prop :=
  ∀ j ∈ d.decision, ∀ c ∈ d.contexts j, ∃ x ∈ states (d.count j), σ.choose? j c = some x

instance (σ : Strategy) (d : Diagram) : Decidable (σ.Complete d) :=
  inferInstanceAs (Decidable (∀ j ∈ d.decision, ∀ c ∈ d.contexts j,
    ∃ x ∈ states (d.count j), σ.choose? j c = some x))

/-- Every decision node has a local strategy, whatever contexts that is defined on. -/
def Entered (σ : Strategy) (d : Diagram) : Prop := ∀ j ∈ d.decision, ∃ l, σ.get? j = some l

instance (σ : Strategy) (d : Diagram) : Decidable (σ.Entered d) :=
  decidable_of_iff (∀ j ∈ d.decision, (σ.get? j).isSome)
    (forall₂_congr fun _ _ => Option.isSome_iff_exists)

/-- A path has at every decision node the state that the strategy takes in the context on it. -/
def Takes (σ : Strategy) (d : Diagram) (s : Path) : Prop :=
  ∀ j ∈ d.decision, σ.choose? j (s.select (d.informationSet j)) = some (s.stateAt j)

instance (σ : Strategy) (d : Diagram) (s : Path) : Decidable (σ.Takes d s) :=
  inferInstanceAs (Decidable (∀ j ∈ d.decision,
    σ.choose? j (s.select (d.informationSet j)) = some (s.stateAt j)))

end Strategy

namespace Diagram

variable (d : Diagram)

theorem contexts_ne_nil (j : Int) : d.contexts j ≠ [] := by
  apply paths_ne_nil
  intro count member
  obtain ⟨i, parent, rfl⟩ := List.mem_map.mp member
  have below := d.informationSet_below parent
  exact d.count_pos below.1 below.2.2

end Diagram

namespace Strategy

variable {d : Diagram} {σ : Strategy}

theorem Complete.entered (complete : σ.Complete d) : σ.Entered d := by
  intro j decision
  obtain ⟨c, context⟩ := List.exists_mem_of_ne_nil _ (d.contexts_ne_nil j)
  obtain ⟨x, _, chosen⟩ := complete j decision c context
  obtain ⟨l, found, _⟩ := Option.bind_eq_some_iff.mp chosen
  exact ⟨l, found⟩

/-- The strategy that takes some given state in every context. -/
def tabulate (d : Diagram) (choice : Int → Path → Int) : Strategy :=
  d.decision.map fun j => (j, (d.contexts j).map fun c => (c, choice j c))

theorem choose?_tabulate (choice : Int → Path → Int) {j : Int} (decision : j ∈ d.decision)
    {c : Path} (context : c ∈ d.contexts j) :
    (tabulate d choice).choose? j c = some (choice j c) := by
  rw [choose?, tabulate,
    Keyed.get?_map_of_mem (fun j => (d.contexts j).map fun c => (c, choice j c)) decision]
  exact Keyed.get?_map_of_mem (choice j) context

theorem tabulate_complete {choice : Int → Path → Int}
    (state : ∀ j ∈ d.decision, ∀ c ∈ d.contexts j, choice j c ∈ states (d.count j)) :
    (tabulate d choice).Complete d := fun j decision c context =>
  ⟨choice j c, state j decision c context, choose?_tabulate choice decision context⟩

theorem exists_other_of_not_takes {s : Path} (leaves : ¬σ.Takes d s) :
    ∃ j ∈ d.decision, σ.choose? j (s.select (d.informationSet j)) ≠ some (s.stateAt j) := by
  unfold Takes at leaves
  push Not at leaves
  exact leaves

/-- A complete strategy takes exactly one state in each context. -/
theorem Complete.sum_chosen (complete : σ.Complete d) {j : Int} (decision : j ∈ d.decision)
    {c : Path} (context : c ∈ d.contexts j) :
    ((states (d.count j)).map fun x =>
      if σ.choose? j c = some x then (1 : Rat) else 0).sum = 1 := by
  obtain ⟨y, state, chosen⟩ := complete j decision c context
  simp only [chosen, Option.some.injEq]
  exact Scalar.sum_single (nodup_states _) state fun _ => 1

theorem agrees_eq {s : Path} (member : s ∈ paths d.counts) {j : Int} (decision : j ∈ d.decision)
    (l : LocalStrategy) :
    agrees d l j s = .ok (l.get? (s.select (d.informationSet j)) == some (s.stateAt j)) := by
  have range := d.inner_of_decision decision
  have length := Diagram.length_of_path member
  rw [agrees, Path.restrict_eq (d.covers_informationSet_of_full length j), Success.ok_bind,
    Path.pick_eq range.1 (by rw [length]; exact range.2)]
  rfl

/-- The compatible paths are the enumerated paths that take the choices of the strategy. -/
theorem Entered.compatiblePaths_eq (entered : σ.Entered d) :
    σ.compatiblePaths d = .ok ((paths d.counts).filter (σ.Takes d ·)) := by
  have locals : (d.decision.mapM fun j => return (j, ← σ.local? j)) =
      (.ok (d.decision.map fun j => (j, (σ.get? j).getD [])) : Except Fault _) := by
    refine Success.mapM_eq fun j decision => ?_
    obtain ⟨l, found⟩ := entered j decision
    rw [local?, found]
    rfl
  rw [compatiblePaths, locals, Success.ok_bind]
  apply Success.filterM_eq
  intro s member
  rw [Success.allM_eq (g := fun e => e.2.get? (s.select (d.informationSet e.1)) ==
    some (s.stateAt e.1))]
  · congr 1
    rw [Bool.eq_iff_iff, List.all_map, List.all_eq_true, decide_eq_true_eq]
    refine forall₂_congr fun j decision => ?_
    obtain ⟨l, found⟩ := entered j decision
    simp [choose?, found]
  · rintro e entry
    obtain ⟨j, decision, rfl⟩ := List.mem_map.mp entry
    exact agrees_eq member decision _

end Strategy

/-- The paths compatible with a strategy, in the order of all paths. -/
def Problem.taken (p : Problem Rat) (σ : Strategy) : List Path :=
  p.paths.filter (σ.Takes p.diagram ·)

theorem Problem.mem_taken {p : Problem Rat} {σ : Strategy} {s : Path} :
    s ∈ p.taken σ ↔ s ∈ p.paths ∧ σ.Takes p.diagram s := by
  rw [taken, List.mem_filter, decide_eq_true_eq]

/-- A sum over all paths is one over the compatible paths if nothing else contributes. -/
theorem Problem.sum_paths_eq {p : Problem Rat} {σ : Strategy} {f : Path → Rat}
    (outside : ∀ s ∈ p.paths, ¬σ.Takes p.diagram s → f s = 0) :
    (p.paths.map f).sum = ((p.taken σ).map f).sum :=
  (Scalar.sum_filter_eq outside).symm

theorem Problem.Weighed.weightedPaths_eq {p : Problem Rat} (weighed : p.Weighed) {σ : Strategy}
    (entered : σ.Entered p.diagram) :
    p.weightedPaths σ = .ok ((p.taken σ).map fun s => (s, p.weight s)) := by
  rw [weightedPaths, entered.compatiblePaths_eq, Success.ok_bind]
  refine Success.mapM_eq fun s member => ?_
  rw [weighed.probability_eq (List.mem_filter.mp member).1]
  rfl

/-- In the umbrella problem, each state of the weather is met with its own choice. -/
def Strategy.careful : Strategy := [(2, [([1], 1), ([2], 2)])]

theorem Strategy.careful_complete : careful.Complete Problem.umbrella.diagram := by decide

end InfluenceProgram
