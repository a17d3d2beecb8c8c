import InfluenceProgram.Proofs.Unreached

/-!
Compatible paths and outcomes of chance. What chance nodes come to, together with a strategy, leaves
no state open: going through the nodes in order, each decision is made in a context that is known by
then. So no two compatible paths share their chance states, and a complete strategy, which has as
many compatible paths as chance has outcomes, has exactly one for each.
-/

set_option autoImplicit false

namespace InfluenceProgram

namespace Diagram

theorem covers_chance (d : Diagram) : Path.Covers d.counts d.chance := by
  intro j chance
  rw [d.counts_length]
  exact d.inner_of_chance chance

/-- A path has an outcome of chance. -/
theorem restrict_chance (d : Diagram) {s : Path} (member : s ∈ paths d.counts) :
    Path.restrict s d.chance = .ok (s.select d.chance) :=
  Path.restrict_eq (d.covers_chance.of_length (length_of_mem_paths member))

/-- There is one outcome for each combination of states of the chance nodes. -/
theorem length_outcomes (d : Diagram) :
    ((paths (d.chance.map d.count)).length : Int) = (d.chance.map d.count).prod :=
  d.length_paths_select fun _ chance => d.mem_innerNodes.mpr (d.inner_of_chance chance)

end Diagram

namespace Strategy

variable {d : Diagram} {σ : Strategy} {s t : Path}

/-- The paths on which a strategy is followed. -/
def followed (σ : Strategy) (d : Diagram) : List Path := (paths d.counts).filter (σ.Takes d ·)

theorem mem_followed : s ∈ σ.followed d ↔ s ∈ paths d.counts ∧ σ.Takes d s := by
  rw [followed, List.mem_filter, decide_eq_true_eq]

theorem pairwise_followed (σ : Strategy) (d : Diagram) : (σ.followed d).Pairwise (· < ·) :=
  (pairwise_paths _).filter _

/-- Compatible paths are found exactly if every decision node has a local strategy. -/
theorem compatiblePaths_iff {compatible : List Path} :
    σ.compatiblePaths d = .ok compatible ↔ σ.Entered d ∧ compatible = σ.followed d := by
  constructor
  · intro found
    obtain ⟨locals, read, _⟩ := Success.bind_iff.mp found
    have entered : σ.Entered d := by
      intro j decision
      obtain ⟨entry, step⟩ := Success.exists_of_mapM read j decision
      obtain ⟨l, present, _⟩ := Success.bind_iff.mp step
      unfold local? at present
      split at present
      · exact ⟨_, ‹_›⟩
      · cases present
    rw [entered.compatiblePaths_eq] at found
    exact ⟨entered, (Except.ok.inj found).symm⟩
  · rintro ⟨entered, rfl⟩
    exact entered.compatiblePaths_eq

/-- Paths on which a strategy is followed are the same if their chance states are. The induction is
on the nodes in order, since the context of a decision has the states of earlier nodes only. -/
theorem eq_of_select_chance (first : s ∈ σ.followed d) (second : t ∈ σ.followed d)
    (chance : s.select d.chance = t.select d.chance) : s = t := by
  rw [mem_followed] at first second
  have outcome : ∀ j ∈ d.chance, s.stateAt j = t.stateAt j := List.map_inj_left.mp chance
  refine Path.ext (Diagram.length_of_path first.1) (Diagram.length_of_path second.1)
    fun j low high => ?_
  induction before : j.toNat using Nat.strong_induction_on generalizing j with
  | _ n ih =>
    rcases (d.layered.inner_iff j).mpr ⟨low, high⟩ with own | decision
    · exact outcome j own
    · have context : s.select (d.informationSet j) = t.select (d.informationSet j) := by
        refine List.map_congr_left fun i parent => ?_
        have below := d.informationSet_below parent
        exact ih i.toNat (by omega) i below.1 below.2.2 rfl
      have taken := first.2 j decision
      rw [context, second.2 j decision] at taken
      exact (Option.some.inj taken).symm

theorem eq_of_outcome {c : Path} (first : s ∈ σ.followed d) (second : t ∈ σ.followed d)
    (own : Path.restrict s d.chance = .ok c) (other : Path.restrict t d.chance = .ok c) :
    s = t := by
  rw [d.restrict_chance (mem_followed.mp first).1] at own
  rw [d.restrict_chance (mem_followed.mp second).1, ← own] at other
  exact eq_of_select_chance first second (Except.ok.inj other).symm

/-- The outcomes on the paths on which a complete strategy is followed are all there are: they are
different from each other, and as many as all of them. -/
theorem Complete.outcomes_perm (complete : σ.Complete d) :
    ((σ.followed d).map (·.select d.chance)).Perm (paths (d.chance.map d.count)) := by
  have distinct : ((σ.followed d).map (·.select d.chance)).Nodup :=
    List.Nodup.map_on (fun s first t second => eq_of_select_chance first second)
      ((nodup_paths _).filter _)
  have within : (σ.followed d).map (·.select d.chance) ⊆ paths (d.chance.map d.count) := by
    intro c member
    obtain ⟨s, inside, rfl⟩ := List.mem_map.mp member
    exact Path.select_mem_paths (mem_followed.mp inside).1 d.covers_chance
  have many : ((paths (d.chance.map d.count)).length : Int) = (σ.followed d).length :=
    d.length_outcomes.trans complete.length_taken.symm
  refine (distinct.subperm within).perm_of_length_le ?_
  rw [List.length_map]
  exact_mod_cast many.le

/-- Each outcome of chance has its own path on which a complete strategy is followed. -/
theorem Complete.existsUnique_followed (complete : σ.Complete d) {c : Path}
    (outcome : c ∈ paths (d.chance.map d.count)) :
    ∃! s, s ∈ σ.followed d ∧ Path.restrict s d.chance = .ok c := by
  obtain ⟨s, member, rfl⟩ := List.mem_map.mp (complete.outcomes_perm.mem_iff.mpr outcome)
  have own := d.restrict_chance (mem_followed.mp member).1
  exact ⟨s, ⟨member, own⟩, fun t other => eq_of_outcome other.1 member other.2 own⟩

/-- Every path is followed by the strategy that takes its states whatever is known. -/
theorem exists_complete_takes (member : s ∈ paths d.counts) :
    ∃ σ : Strategy, σ.Complete d ∧ σ.Takes d s := by
  refine ⟨tabulate d fun j _ => s.stateAt j, tabulate_complete fun j decision _ _ => ?_,
    fun j decision => choose?_tabulate _ decision (Diagram.select_mem_contexts member j)⟩
  have range := d.inner_of_decision decision
  exact Diagram.stateAt_mem_states member range.1 range.2

end Strategy

/-- The paths that are compatible with a complete strategy are enumerated in lexicographic order,
one for each outcome of chance, so there are as many of them as outcomes. Whatever a strategy leaves
open or takes out of range, it has no two compatible paths of one outcome. And every path is
compatible with some complete strategy. -/
theorem Diagram.compatible_paths_by_outcome (d : Diagram) :
    (∀ σ : Strategy, σ.Complete d → ∃ compatible, σ.compatiblePaths d = .ok compatible ∧
      compatible.Pairwise (· < ·) ∧
      (∀ c ∈ paths (d.chance.map d.count),
        ∃! s, s ∈ compatible ∧ Path.restrict s d.chance = .ok c) ∧
      (∀ s ∈ compatible, ∃ c ∈ paths (d.chance.map d.count),
        Path.restrict s d.chance = .ok c) ∧
      (compatible.length : Int) = (d.chance.map d.count).prod) ∧
    (∀ σ : Strategy, (σ.Entered d → ∃ compatible, σ.compatiblePaths d = .ok compatible) ∧
      ∀ compatible, σ.compatiblePaths d = .ok compatible → compatible.Pairwise (· < ·) ∧
        ∀ c, ∀ s ∈ compatible, ∀ t ∈ compatible, Path.restrict s d.chance = .ok c →
          Path.restrict t d.chance = .ok c → s = t) ∧
    ∀ s ∈ paths d.counts, ∃ σ : Strategy, σ.Complete d ∧
      ∃ compatible, σ.compatiblePaths d = .ok compatible ∧ s ∈ compatible := by
  refine ⟨fun σ complete => ?_, fun σ => ⟨fun entered => ⟨_, entered.compatiblePaths_eq⟩, ?_⟩,
    fun s member => ?_⟩
  · refine ⟨σ.followed d, complete.entered.compatiblePaths_eq, σ.pairwise_followed d,
      fun c outcome => complete.existsUnique_followed outcome, fun s member => ?_,
      complete.length_taken⟩
    have path := (Strategy.mem_followed.mp member).1
    exact ⟨_, Path.select_mem_paths path d.covers_chance, d.restrict_chance path⟩
  · intro compatible found
    obtain ⟨_, rfl⟩ := Strategy.compatiblePaths_iff.mp found
    exact ⟨σ.pairwise_followed d, fun c s first t second => Strategy.eq_of_outcome first second⟩
  · obtain ⟨σ, complete, takes⟩ := Strategy.exists_complete_takes member
    exact ⟨σ, complete, _, complete.entered.compatiblePaths_eq,
      Strategy.mem_followed.mpr ⟨member, takes⟩⟩

/-- A trial that is left out still has one path for each of its results. One that is made, with a
plan for a good result only, has no two paths of one result, and a bad result is on the path of some
other strategy. -/
theorem Problem.trial_outcomes : (∃ compatible,
      (withoutTrial 2 1).compatiblePaths trial.diagram = .ok compatible ∧ compatible.length = 2 ∧
        ∃! s, s ∈ compatible ∧ Path.restrict s trial.diagram.chance = .ok [2]) ∧
    (∃ compatible,
      Strategy.compatiblePaths trial.diagram [(1, [([], 1)]), (3, [([1, 1], 1)])] =
          .ok compatible ∧
        ∀ c, ∀ s ∈ compatible, ∀ t ∈ compatible, Path.restrict s trial.diagram.chance = .ok c →
          Path.restrict t trial.diagram.chance = .ok c → s = t) ∧
    ∃ σ : Strategy, σ.Complete trial.diagram ∧
      ∃ compatible, σ.compatiblePaths trial.diagram = .ok compatible ∧ [1, 2, 1] ∈ compatible := by
  have complete : (withoutTrial 2 1).Complete trial.diagram := by decide +kernel
  have entered : Strategy.Entered [(1, [([], 1)]), (3, [([1, 1], 1)])] trial.diagram := by
    decide +kernel
  obtain ⟨whole, partly, back⟩ := trial.diagram.compatible_paths_by_outcome
  obtain ⟨compatible, found, _, one, _, count⟩ := whole _ complete
  have outcomes : (trial.diagram.chance.map trial.diagram.count).prod = 2 := by decide +kernel
  rw [outcomes] at count
  obtain ⟨some, found'⟩ := (partly _).1 entered
  exact ⟨⟨compatible, found, by exact_mod_cast count, one [2] (by decide +kernel)⟩,
    ⟨some, found', ((partly _).2 some found').2⟩, back [1, 2, 1] (by decide +kernel)⟩

end InfluenceProgram
