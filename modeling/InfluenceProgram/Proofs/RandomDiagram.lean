import InfluenceProgram.Proofs.RandomOutline

/-!
Diagrams with a random outline. Whatever is drawn, the outline is layered, so it makes a diagram
with any positive state counts. Its inner nodes have no more parents than they may have, each of
them is a parent, and each value node has one.
-/

set_option autoImplicit false

namespace InfluenceProgram

namespace Random

open Experiment

namespace Draft

variable {x : Draft} {inner values chance : Nat} {limit : Int}

theorem keys_sets : (x.sets inner values).keys = span 1 inner ++ span (inner + 1) values := by
  simp only [sets, Keyed.keys, List.map_append, List.map_map, Function.comp_def, List.map_id']

theorem nodup_keys_sets : (x.sets inner values).keys.Nodup := by
  rw [keys_sets, List.nodup_append]
  refine ⟨nodup_span _ _, nodup_span _ _, fun i low j high same => ?_⟩
  rw [mem_span] at low high
  omega

/-- The arcs into an inner node come from its parents. -/
theorem mem_arcs_inner {i j : Int} (node : j ∈ span 1 inner) :
    (i, j) ∈ (x.outline inner values chance).arcs ↔ i ∈ x.parents j := by
  have listed : (j, x.parents j) ∈ x.sets inner values :=
    List.mem_append_left _ (List.mem_map_of_mem node)
  rw [outline, mem_arcsOfInformationSets_iff nodup_keys_sets,
    Keyed.get?_of_mem nodup_keys_sets listed, Option.getD_some]

/-- The arcs into a value node come from the nodes that it looks at. -/
theorem mem_arcs_value {i v : Int} (node : v ∈ span (inner + 1) values) :
    (i, v) ∈ (x.outline inner values chance).arcs ↔ i ∈ x.sources v := by
  have listed : (v, x.sources v) ∈ x.sets inner values :=
    List.mem_append_right _ (List.mem_map_of_mem node)
  rw [outline, mem_arcsOfInformationSets_iff nodup_keys_sets,
    Keyed.get?_of_mem nodup_keys_sets listed, Option.getD_some]

/-- Every node that arcs lead to is an inner node or a value node. -/
theorem node_of_mem_arcs {a : Arc} (member : a ∈ (x.outline inner values chance).arcs) :
    a.2 ∈ span 1 inner ∨ a.2 ∈ span (inner + 1) values := by
  obtain ⟨parents, listed, _⟩ := mem_arcsOfInformationSets.mp member
  have key := Keyed.mem_keys listed
  rwa [keys_sets, List.mem_append] at key

namespace Fits

theorem nodup_order (fits : x.Fits inner values limit) : x.order.Nodup :=
  fits.order.nodup_iff.mpr (nodup_span _ _)

theorem length_order (fits : x.Fits inner values limit) : x.order.length = inner := by
  rw [fits.order.length_eq, length_span]

theorem length_chance (fits : x.Fits inner values limit) (most : chance ≤ inner) :
    (x.outline inner values chance).chance.length = chance := by
  have distinct := fits.nodup_order.sublist (List.take_sublist chance x.order)
  rw [outline, (Ascending.ofList_perm nodeBefore_strict distinct).length_eq, List.length_take,
    fits.length_order]
  omega

theorem length_decision (fits : x.Fits inner values limit) :
    (x.outline inner values chance).decision.length = inner - chance := by
  have distinct := fits.nodup_order.sublist (List.drop_sublist chance x.order)
  rw [outline, (Ascending.ofList_perm nodeBefore_strict distinct).length_eq, List.length_drop,
    fits.length_order]

theorem length_value : (x.outline inner values chance).value.length = values := length_span _ _

theorem inner_outline (fits : x.Fits inner values limit) (most : chance ≤ inner) :
    (x.outline inner values chance).inner = inner := by
  rw [Outline.inner, fits.length_chance most, fits.length_decision]
  omega

theorem total_outline (fits : x.Fits inner values limit) (most : chance ≤ inner) :
    (x.outline inner values chance).total = inner + values := by
  rw [Outline.total, fits.inner_outline most, length_value]

/-- The order is split between chance and decision nodes. -/
theorem mem_inner (fits : x.Fits inner values limit) (j : Int) :
    j ∈ (x.outline inner values chance).chance ∨ j ∈ (x.outline inner values chance).decision ↔
      j ∈ span 1 inner := by
  rw [← fits.order.mem_iff, ← List.take_append_drop chance x.order, List.mem_append]
  exact or_congr (Ascending.mem_ofList nodeBefore_strict) (Ascending.mem_ofList nodeBefore_strict)

theorem nodup_set (fits : x.Fits inner values limit) {e : Int × List Int}
    (member : e ∈ x.sets inner values) : e.2.Nodup := by
  rcases List.mem_append.mp member with lower | higher
  · obtain ⟨j, node, rfl⟩ := List.mem_map.mp lower
    exact (fits.parents j node).1.nodup
  · obtain ⟨v, node, rfl⟩ := List.mem_map.mp higher
    exact (fits.sources v node).upTo.nodup

/-- Arcs lead from an inner node to a higher node. -/
theorem arc_bounds (fits : x.Fits inner values limit) {a : Arc}
    (member : a ∈ (x.outline inner values chance).arcs) :
    1 ≤ a.1 ∧ a.1 < a.2 ∧ a.2 ≤ inner + values ∧ a.1 ≤ inner := by
  rcases node_of_mem_arcs member with lower | higher
  · have bounds := (fits.parents a.2 lower).1.bounds a.1 ((mem_arcs_inner lower).mp member)
    rw [mem_span] at lower
    omega
  · have bounds := (fits.sources a.2 higher).upTo.bounds a.1 ((mem_arcs_value higher).mp member)
    rw [mem_span] at higher
    omega

theorem layered (fits : x.Fits inner values limit) (most : chance ≤ inner) :
    (x.outline inner values chance).Layered where
  chance_ascending := Ascending.pairwise_ofList nodeBefore_strict _
  decision_ascending := Ascending.pairwise_ofList nodeBefore_strict _
  arcs_ascending := ascending_arcsOfInformationSets nodup_keys_sets fun _ => fits.nodup_set
  disjoint j first second := by
    have split := fits.nodup_order
    rw [← List.take_append_drop chance x.order, List.nodup_append] at split
    exact split.2.2 j ((Ascending.mem_ofList nodeBefore_strict).mp first) j
      ((Ascending.mem_ofList nodeBefore_strict).mp second) rfl
  inner_iff j := by
    rw [fits.inner_outline most, fits.mem_inner, mem_span]
    omega
  value_eq := by
    rw [fits.inner_outline most, length_value]
    rfl
  arc_bounds a member := by
    have bounds := fits.arc_bounds member
    rw [fits.inner_outline most, fits.total_outline most]
    omega

variable {d : Diagram}

/-- The diagram of a draft that fits and some state counts. -/
theorem exists_diagram (fits : x.Fits inner values limit) (most : chance ≤ inner)
    {counts : List Int} (length : counts.length = inner) (positive : ∀ c ∈ counts, 1 ≤ c) :
    ∃ d : Diagram, d.toOutline = x.outline inner values chance ∧ d.counts = counts :=
  ⟨{ x.outline inner values chance with
      counts
      layered := fits.layered most
      counts_length := length.trans (fits.inner_outline most).symm
      counts_pos := positive }, rfl, rfl⟩

theorem informationSet_inner (fits : x.Fits inner values limit)
    (same : d.toOutline = x.outline inner values chance) {j : Int} (node : j ∈ span 1 inner) :
    d.informationSet j = x.parents j := by
  refine Ascending.eq_of_mem_iff nodeBefore_strict (d.pairwise_informationSet j)
    (fits.parents j node).1.ascending fun i => ?_
  rw [d.mem_informationSet, same, mem_arcs_inner node]

end Fits

end Draft

/-- Numbers of nodes, and a limit on parents, that an outline can be drawn with. -/
structure Admissible (chance decision value limit : Int) : Prop where
  chance_nonneg : 0 ≤ chance
  decision_nonneg : 0 ≤ decision
  inner_pos : 1 ≤ chance + decision
  value_pos : 1 ≤ value
  limit_pos : 1 ≤ limit

section Counts

variable {α : Type} {real : α → Prop} {chance decision value limit : Int}

theorem Admissible.checkCounts_eq (admissible : Admissible chance decision value limit) :
    (checkCounts chance decision value limit : Experiment α Unit) = done () := by
  obtain ⟨first, second, third, fourth, fifth⟩ := admissible
  simp only [checkCounts, require, decide_true, if_true, done_bind, *]

/-- Numbers that cannot be drawn with are refused for the first of them that does not fit. -/
theorem checkCounts_of_not_admissible (refused : ¬Admissible chance decision value limit) :
    ∃ violation, (checkCounts chance decision value limit : Experiment α Unit) =
      failed (.domain violation) := by
  unfold checkCounts
  by_cases first : 0 ≤ chance
  case neg => exact ⟨_, by rw [require_of_not (by simpa using first), failed_bind]⟩
  rw [require_of (by simpa using first), done_bind]
  by_cases second : 0 ≤ decision
  case neg => exact ⟨_, by rw [require_of_not (by simpa using second), failed_bind]⟩
  rw [require_of (by simpa using second), done_bind]
  by_cases third : 1 ≤ chance + decision
  case neg => exact ⟨_, by rw [require_of_not (by simpa using third), failed_bind]⟩
  rw [require_of (by simpa using third), done_bind]
  by_cases fourth : 1 ≤ value
  case neg => exact ⟨_, by rw [require_of_not (by simpa using fourth), failed_bind]⟩
  rw [require_of (by simpa using fourth), done_bind]
  have fifth : ¬1 ≤ limit := fun fifth => refused ⟨first, second, third, fourth, fifth⟩
  exact ⟨_, require_of_not (by simpa using fifth) _⟩

/-- With numbers that can be drawn with, what comes out is the outline of a draft that fits. -/
theorem Admissible.outline_spans (admissible : Admissible chance decision value limit) :
    Spans real (outline chance decision value limit) fun o =>
      ∃ x : Draft, x.Fits (chance + decision).toNat value.toNat limit ∧
        o = x.outline (chance + decision).toNat value.toNat chance.toNat := by
  rw [outline, admissible.checkCounts_eq, done_bind]
  exact outlineBy_spans admissible.value_pos (by have := admissible.limit_pos; omega)

/-- A draft in which no inner node has a parent, all of them go to the first value node, and every
value node looks at all of them. -/
def Draft.plain (inner : Nat) : Draft where
  order := span 1 inner
  parents _ := []
  home _ := inner + 1
  sources _ := span 1 inner

theorem Draft.plain_fits {inner values : Nat} (some : 1 ≤ values) (nonneg : 0 ≤ limit) :
    (Draft.plain inner).Fits inner values limit where
  order := .refl _
  parents j _ := ⟨⟨.nil, by simp [plain]⟩, nonneg⟩
  home i _ := mem_span.mpr (by simp only [plain]; omega)
  sources v _ :=
    supplements_all (List.Subset.trans (List.filter_subset_self _) (List.filter_subset_self _))

end Counts

end Random

end InfluenceProgram
