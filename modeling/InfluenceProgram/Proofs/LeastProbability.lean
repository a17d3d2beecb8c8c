import InfluenceProgram.Proofs.Ancestors
import InfluenceProgram.Proofs.Axes
import InfluenceProgram.Proofs.ChanceOutcomes
import InfluenceProgram.Proofs.Detection
import InfluenceProgram.Proofs.Outline

/-!
The least probability of a path. Every entry of a probability table is on some path, since the
states that select it can be continued by any states of the other nodes. So the least probability is
positive exactly if all entries are. The compatible paths of one strategy share the probability one,
and the least probability is at most the mean of theirs.
-/

set_option autoImplicit false

namespace InfluenceProgram

namespace Path

/-- The path that has given states at some of its nodes, and the first state at the others. -/
def continued (length : Nat) (nodes : List Int) (c : Path) : Path :=
  (span 1 length).map fun k => if k ∈ nodes then c.getD (nodes.idxOf k) 0 else 1

theorem select_continued {length : Nat} {nodes : List Int} {c : Path} (distinct : nodes.Nodup)
    (inside : ∀ j ∈ nodes, 1 ≤ j ∧ j ≤ length) (size : c.length = nodes.length) :
    (continued length nodes c).select nodes = c := by
  have states : (continued length nodes c).select nodes =
      nodes.map fun j => c.getD (nodes.idxOf j) 0 := by
    apply List.map_congr_left
    intro j member
    rw [continued, stateAt_map_span (inside j member).1 (inside j member).2, if_pos member]
  rw [states]
  apply List.ext_getElem
  · rw [List.length_map, size]
  · intro k first second
    rw [List.getElem_map, distinct.idxOf_getElem, List.getD_eq_getElem _ _ second]

/-- States of some nodes are on a path. -/
theorem exists_select_eq {counts : List Int} (positive : ∀ count ∈ counts, 1 ≤ count)
    {nodes : List Int} (distinct : nodes.Nodup) (covered : Path.Covers counts nodes) {c : Path}
    (member : c ∈ paths (Path.select counts nodes)) :
    ∃ s ∈ paths counts, s.select nodes = c := by
  have size : c.length = nodes.length := by
    rw [length_of_mem_paths member, select, List.length_map]
  refine ⟨continued counts.length nodes c, map_span_mem_paths ?_,
    select_continued distinct covered size⟩
  intro k low high
  split
  · rename_i given
    have place : nodes.idxOf k < nodes.length := List.idxOf_lt_length_iff.mpr given
    have range := (mem_paths.mp member).get (i := nodes.idxOf k) (size ▸ place)
      (by rwa [select, List.length_map])
    rw [List.getD_eq_getElem _ _ (size ▸ place)]
    simpa only [select, List.get_eq_getElem, List.getElem_map, List.getElem_idxOf] using range
  · have inside : (k - 1).toNat < counts.length := by omega
    rw [stateAt, List.getD_eq_getElem _ _ inside]
    exact ⟨le_rfl, positive _ (List.getElem_mem inside)⟩

end Path

namespace Tensor

theorem offset_of_digit {count : Int} {k : Nat} (below : k < count.toNat) :
    Position.offset? count.toNat ((k : Int) + 1 - 1) = some k := by
  rw [offset_of_state (by omega) (by omega)]
  congr 1
  omega

/-- The index of the path of a rank has its place at this rank. -/
theorem place_ofRank {counts : List Int} {k : Nat} (below : k < Path.number counts) (axis : Nat) :
    place axis (counts.map Int.toNat) (Path.toIndex (Path.ofRank counts k)) = .ok k := by
  induction counts generalizing k axis with
  | nil =>
      rw [Nat.lt_one_iff.mp below]
      rfl
  | cons count counts ih =>
      rw [Path.number] at below
      have rest : 0 < Path.number counts := Nat.pos_of_mul_pos_left (Nat.zero_lt_of_lt below)
      have digit : k / Path.number counts < count.toNat :=
        Nat.div_lt_of_lt_mul (by rwa [Nat.mul_comm])
      rw [Path.ofRank, Nat.mod_eq_of_lt digit, Int.ofNat_eq_natCast]
      simp only [Path.toIndex, List.map_cons, place, offset_of_digit digit]
      change (place (axis + 1) (counts.map Int.toNat) (Path.toIndex _)).map _ = _
      rw [ih (Nat.mod_lt k rest) (axis + 1), ← Path.number_eq_volume]
      exact congrArg Except.ok (Nat.div_add_mod' k _)

/-- Every entry of a table stands at a path. -/
theorem exists_of_mem_entries {t : Tensor Rat} {counts : List Int}
    (shape : t.shape = counts.map Int.toNat) {x : Rat} (member : x ∈ t.entries) :
    ∃ s ∈ paths counts, t.valueAt s = x := by
  obtain ⟨k, inside, rfl⟩ := Array.mem_iff_getElem.mp member
  have below : k < Path.number counts := by
    rwa [Path.number_eq_volume, ← shape, ← t.size_eq]
  refine ⟨_, Path.ofRank_mem_paths below, ?_⟩
  rw [valueAt, get, shape, place_ofRank below]
  simp only [Array.getElem?_eq_getElem inside]
  rfl

end Tensor

theorem Diagram.nodup_family (d : Diagram) (j : Int) : (d.family j).Nodup := by
  apply List.nodup_append_comm.mp
  apply List.nodup_cons.mpr ⟨?_, nodup_of_ascending (d.pairwise_informationSet j)⟩
  intro own
  have below := d.informationSet_below own
  omega

namespace Problem

variable {p : Problem Rat}

/-- Every entry of a probability table is the share of its node on some path. -/
theorem Weighed.exists_share (weighed : p.Weighed) {j : Int} {t : Tensor Rat}
    (table : (j, t) ∈ p.probabilities) {x : Rat} (member : x ∈ t.entries) :
    ∃ s ∈ p.paths, p.conditional.on p.diagram s j = x := by
  obtain ⟨key, inside, rfl⟩ := Tensor.exists_of_mem_entries (weighed.shape j t table) member
  obtain ⟨s, path, rfl⟩ := Path.exists_select_eq p.diagram.counts_pos (p.diagram.nodup_family j)
    (weighed.covers table) inside
  refine ⟨s, path, ?_⟩
  rw [Kernel.on, conditional, Keyed.get?_of_mem weighed.distinct table, p.diagram.select_family]
  rfl

/-- The share of a chance node on a path is an entry of its table. -/
theorem Weighed.share_mem (weighed : p.Weighed) {j : Int} {t : Tensor Rat}
    (table : (j, t) ∈ p.probabilities) {s : Path} (member : s ∈ p.paths) :
    p.conditional.on p.diagram s j ∈ t.entries := by
  rw [Kernel.on, conditional, Keyed.get?_of_mem weighed.distinct table]
  change t.valueAt (s.select (p.diagram.informationSet j) ++ [s.stateAt j]) ∈ t.entries
  rw [← p.diagram.select_family]
  exact (Tensor.get_of_path (weighed.shape j t table)
    (Path.select_mem_paths member (weighed.covers table))).2

/-- The least probability is found wherever there is room to walk through the paths. -/
theorem Weighed.minimumProbability_eq (weighed : p.Weighed) :
    p.minimumProbability = Path.walking p.diagram.counts fun _ => .ok p.least := by
  rw [minimumProbability, leastProbability,
    Success.mapM_eq fun _ member => weighed.probability_eq member]
  rfl

/-- All paths are possible exactly if all entries of all tables are positive. -/
theorem Weighed.least_pos_iff (weighed : p.Weighed) :
    0 < p.least ↔ ∀ j t, (j, t) ∈ p.probabilities → ∀ x ∈ t.entries, 0 < x := by
  obtain ⟨⟨s, path, same⟩, below⟩ := p.least_spec
  constructor
  · intro possible j t table x member
    obtain ⟨u, inside, rfl⟩ := weighed.exists_share table member
    have weight : p.weight u ≠ 0 := (possible.trans_le (below u inside)).ne'
    have share := Kernel.along_ne_zero_iff.mp weight j (weighed.keys ▸ Keyed.mem_keys table)
    exact lt_of_le_of_ne (weighed.nonneg j t table _ member) share.symm
  · intro positive
    rw [← same]
    apply List.prod_pos
    intro x member
    obtain ⟨j, chance, rfl⟩ := List.mem_map.mp member
    obtain ⟨t, table, _⟩ := weighed.table chance
    exact positive j t table _ (weighed.share_mem table path)

/-- The compatible paths of a complete strategy share the probability one. -/
theorem Weighed.least_mul_outcomes_le (weighed : p.Weighed) (normalized : p.Normalized) :
    p.least * (p.diagram.chance.map p.diagram.count).prod ≤ 1 := by
  obtain ⟨s, path⟩ := List.exists_mem_of_ne_nil _ (paths_ne_nil p.diagram.counts_pos)
  obtain ⟨σ, complete, _⟩ := Strategy.exists_complete_takes path
  have each : ∀ x ∈ (p.taken σ).map p.weight, p.least ≤ x :=
    List.forall_mem_map.mpr fun t member => p.least_spec.2 t (mem_taken.mp member).1
  have length : ((p.taken σ).length : Int) = _ := complete.length_taken
  calc p.least * ((p.diagram.chance.map p.diagram.count).prod : Int)
      = ((p.taken σ).map p.weight).length • p.least := by
        rw [← length, List.length_map, nsmul_eq_mul, mul_comm]
        norm_cast
    _ ≤ ((p.taken σ).map p.weight).sum := List.card_nsmul_le_sum _ _ each
    _ = 1 := weighed.sum_weight normalized complete

/-- The number that a decision model takes as the least probability of a path is attained and never
undercut. It is positive exactly if no table has a zero, and with exact tables it is at most one
divided by the number of outcomes of chance. -/
theorem epsilon_is_least (accepted : p.Accepted) (specs : Specs) (name : String) :
    ∃ f, Formulation.build specs p name = .ok f ∧
      (∃ s ∈ p.paths, p.probability s = .ok f.epsilon) ∧
      (∀ s ∈ p.paths, ∃ weight, p.probability s = .ok weight ∧ f.epsilon ≤ weight) ∧
      (0 < f.epsilon ↔ ∀ j t, (j, t) ∈ p.probabilities → ∀ x ∈ t.entries, 0 < x) ∧
      (p.Normalized → f.epsilon * (p.diagram.chance.map p.diagram.count).prod ≤ 1) := by
  have weighed := accepted.weighed
  obtain ⟨⟨s, path, attained⟩, below⟩ := p.least_spec
  refine ⟨_, weighed.buildBy_eq accepted.valued toString specs name, ⟨s, path, ?_⟩,
    fun t member => ⟨_, weighed.probability_eq member, below t member⟩, weighed.least_pos_iff,
    weighed.least_mul_outcomes_le⟩
  rw [weighed.probability_eq path, attained]
  rfl

/-- A forecast that is right three times out of four leaves every path of the errand possible, and
one of the four outcomes of chance has at most a quarter. One that is always right does not. -/
theorem errand_epsilon :
    (∃ f, Formulation.build {} (errand (3 / 4)) "errand" = .ok f ∧ 0 < f.epsilon ∧
      f.epsilon * 4 ≤ 1) ∧
    ∃ f, Formulation.build {} (errand 1) "errand" = .ok f ∧ ¬0 < f.epsilon := by
  have often : (errand (3 / 4)).Accepted := (accepted_iff _).mpr (by decide +kernel)
  have always : (errand 1).Accepted := (accepted_iff _).mpr (by decide +kernel)
  constructor
  · obtain ⟨f, built, _, _, positive, mean⟩ := epsilon_is_least often {} "errand"
    have outcomes : ((errand (3 / 4)).diagram.chance.map (errand (3 / 4)).diagram.count).prod =
        4 := by decide +kernel
    have entries : ∀ e ∈ (errand (3 / 4)).probabilities, ∀ x ∈ e.2.entries, 0 < x := by
      decide +kernel
    have share := mean (by decide +kernel)
    rw [outcomes] at share
    exact ⟨f, built, positive.mpr fun _ _ table => entries _ table, share⟩
  · obtain ⟨f, built, _, _, positive, _⟩ := epsilon_is_least always {} "errand"
    refine ⟨f, built, fun possible => ?_⟩
    have table : (2, ⟨[2, 2], #[1, 1 - 1, 1 - 1, 1], rfl⟩) ∈ (errand 1).probabilities :=
      List.mem_cons_of_mem _ (List.mem_singleton_self _)
    have never : (0 : Rat) < 1 - 1 := positive.mp possible 2 _ table _ (by simp)
    norm_num at never

end Problem

end InfluenceProgram
