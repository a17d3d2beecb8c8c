import InfluenceProgram.Proofs.RandomDiagram

/-!
Leaves of random outlines. Each leaf is given to a value node, and a value node looks at its own
leaves and at some other node, if there is another node. But the other nodes of one value node
include the leaves of the others. So a leaf may have several value nodes as children as soon as
there are several, and a value node may look at nothing but leaves while there are other nodes.
-/

set_option autoImplicit false

namespace InfluenceProgram

namespace Outline

variable (o : Outline)

def IsInner (i : Int) : Prop := i ∈ o.chance ∨ i ∈ o.decision

/-- An inner node that is no parent of an inner node. -/
def Leaf (i : Int) : Prop := o.IsInner i ∧ ∀ j, o.IsInner j → (i, j) ∉ o.arcs

/-- Every leaf is a parent of exactly one value node. -/
def LeavesHaveOneChild : Prop := ∀ i, o.Leaf i → ∃! v, v ∈ o.value ∧ (i, v) ∈ o.arcs

/-- Every value node has a parent that is no leaf if there is an inner node that is none. -/
def ValuesHaveOtherParents : Prop :=
  (∃ i, o.IsInner i ∧ ¬o.Leaf i) → ∀ v ∈ o.value, ∃ i, (i, v) ∈ o.arcs ∧ ¬o.Leaf i

/-- Leaves are given to value nodes, which look at them and at a node that was not given to them if
there is one. -/
structure Housed (home : Int → Int) : Prop where
  leaf : ∀ i, o.Leaf i → home i ∈ o.value ∧ (i, home i) ∈ o.arcs
  other : ∀ v ∈ o.value, (∃ i, o.IsInner i ∧ ¬(o.Leaf i ∧ home i = v)) →
    ∃ i, (i, v) ∈ o.arcs ∧ ¬(o.Leaf i ∧ home i = v)

variable {o} {home : Int → Int} {v : Int}

/-- All leaves of a single value node have one child. -/
theorem Housed.one_child (housed : o.Housed home) (single : o.value = [v]) :
    o.LeavesHaveOneChild := by
  intro i leaf
  obtain ⟨value, arc⟩ := housed.leaf i leaf
  refine ⟨home i, ⟨value, arc⟩, fun w other => ?_⟩
  rw [single, List.mem_singleton] at value other
  rw [value, other.1]

/-- A single value node is given every leaf, so the other nodes are no leaves. -/
theorem Housed.other_parents (housed : o.Housed home) (single : o.value = [v]) :
    o.ValuesHaveOtherParents := by
  rintro ⟨k, inner, other⟩ w value
  have given : ∀ i, o.Leaf i → home i = w := by
    intro i leaf
    have member := (housed.leaf i leaf).1
    rw [single, List.mem_singleton] at member value
    rw [member, value]
  obtain ⟨i, arc, foreign⟩ := housed.other w value ⟨k, inner, fun leaf => other leaf.1⟩
  exact ⟨i, arc, fun leaf => foreign ⟨leaf, given i leaf⟩⟩

end Outline

namespace Random

open Experiment

namespace Draft

variable {x : Draft} {inner values chance : Nat} {limit : Int}

theorem mem_leaves {i : Int} : i ∈ x.leaves inner ↔
    i ∈ span 1 inner ∧ ∀ j ∈ span 1 inner, i ∉ x.parents j := by
  simp only [leaves, List.mem_filter, Bool.not_eq_true', List.contains_eq_mem,
    decide_eq_false_iff_not, List.mem_flatMap, not_exists, not_and]

namespace Fits

theorem leaf_iff (fits : x.Fits inner values limit) {i : Int} :
    (x.outline inner values chance).Leaf i ↔ i ∈ x.leaves inner := by
  rw [mem_leaves, Outline.Leaf, Outline.IsInner, fits.mem_inner]
  refine and_congr_right fun _ => forall_congr' fun j => ?_
  rw [Outline.IsInner, fits.mem_inner]
  exact forall_congr' fun node => not_congr (mem_arcs_inner node)

/-- The leaves of a draft have the homes that were drawn for them. -/
theorem housed (fits : x.Fits inner values limit) :
    (x.outline inner values chance).Housed x.home where
  leaf i leaf := by
    rw [fits.leaf_iff] at leaf
    have home := fits.home i leaf
    have mine : i ∈ x.assigned inner (x.home i) := List.mem_filter.mpr ⟨leaf, by simp⟩
    exact ⟨home, (mem_arcs_value home).mpr ((fits.sources _ home).owns mine)⟩
  other v value := by
    have mine : ∀ i, (x.outline inner values chance).Leaf i ∧ x.home i = v ↔
        i ∈ x.assigned inner v := by
      intro i
      rw [fits.leaf_iff, assigned, List.mem_filter, beq_iff_eq]
    simp only [mine, Outline.IsInner, fits.mem_inner]
    rintro ⟨i, node, foreign⟩
    rw [mem_span] at node
    obtain ⟨k, present, absent⟩ := (fits.sources v value).other i node.1 (by omega) foreign
    exact ⟨k, (mem_arcs_value value).mpr present, absent⟩

end Fits

/-- A draft in which the second node sees the first, all leaves go to the first value node, and the
other value nodes look at the second node only. -/
def chained (inner : Nat) : Draft where
  order := span 1 inner
  parents j := if j = 2 then [1] else []
  home _ := inner + 1
  sources v := if v = inner + 1 then span 1 inner else [2]

theorem chained_fits (two : 2 ≤ inner) (some : 1 ≤ values) (positive : 1 ≤ limit) :
    (chained inner).Fits inner values limit where
  order := .refl _
  parents j node := by
    by_cases second : j = 2
    · subst second
      exact ⟨⟨List.pairwise_singleton _ _, by simp [chained]⟩, positive⟩
    · simp only [chained, if_neg second]
      exact ⟨⟨.nil, by simp⟩, by simp only [List.length_nil]; omega⟩
  home i _ := mem_span.mpr (by simp only [chained]; omega)
  sources v _ := by
    by_cases first : v = inner + 1
    · simp only [chained, if_pos first]
      exact supplements_all
        (List.Subset.trans (List.filter_subset_self _) (List.filter_subset_self _))
    · have nothing : (chained inner).assigned inner v = [] := by
        refine List.filter_eq_nil_iff.mpr fun i _ => ?_
        simpa [chained] using Ne.symm first
      rw [nothing]
      simp only [chained, if_neg first]
      exact ⟨⟨List.pairwise_singleton _ _, by simp; omega⟩, by simp, by simp⟩

/-- A leaf of the plain draft is a parent of every value node. -/
theorem plain_children (some : 1 ≤ inner) (nonneg : 0 ≤ limit) (two : 2 ≤ values) :
    ¬((plain inner).outline inner values chance).LeavesHaveOneChild := by
  intro unique
  have fits : (plain inner).Fits inner values limit := plain_fits (by omega) nonneg
  have node : (1 : Int) ∈ span 1 inner := mem_span.mpr (by omega)
  have leaf : ((plain inner).outline inner values chance).Leaf 1 :=
    fits.leaf_iff.mpr (mem_leaves.mpr ⟨node, by simp [plain]⟩)
  have child : ∀ v ∈ span (inner + 1) values,
      v ∈ ((plain inner).outline inner values chance).value ∧
        (1, v) ∈ ((plain inner).outline inner values chance).arcs :=
    fun v value => ⟨value, (mem_arcs_value value).mpr node⟩
  have first : (inner + 1 : Int) ∈ span (inner + 1) values := mem_span.mpr (by omega)
  have second : (inner + 2 : Int) ∈ span (inner + 1) values := mem_span.mpr (by omega)
  have same := (unique 1 leaf).unique (child _ first) (child _ second)
  omega

/-- A value node of the chained draft has a leaf as its only parent, and the first node is none. -/
theorem chained_parents (two : 2 ≤ inner) (positive : 1 ≤ limit) (several : 2 ≤ values) :
    ¬((chained inner).outline inner values chance).ValuesHaveOtherParents := by
  intro others
  have fits : (chained inner).Fits inner values limit := chained_fits two (by omega) positive
  have first : (1 : Int) ∈ span 1 inner := mem_span.mpr (by omega)
  have second : (2 : Int) ∈ span 1 inner := mem_span.mpr (by omega)
  have parent : (1 : Int) ∉ (chained inner).leaves inner := by
    rw [mem_leaves]
    rintro ⟨_, none⟩
    exact none 2 second (by simp [chained])
  have leaf : (2 : Int) ∈ (chained inner).leaves inner := by
    refine mem_leaves.mpr ⟨second, fun j _ => ?_⟩
    simp only [chained]
    split <;> simp
  have value : (inner + 2 : Int) ∈ span (inner + 1) values := mem_span.mpr (by omega)
  obtain ⟨i, arc, foreign⟩ :=
    others ⟨1, (fits.mem_inner 1).mpr first, mt fits.leaf_iff.mp parent⟩ _ value
  rw [mem_arcs_value value] at arc
  have only : i = 2 := by simpa [chained] using arc
  exact foreign (fits.leaf_iff.mpr (only ▸ leaf))

end Draft

variable {α : Type} {real : α → Prop} {chance decision value limit : Int}

/-- The leaves of a random outline are given to value nodes. They have no other child among the
value nodes, whatever is drawn, only if there is a single value node, and all value nodes have
parents that are no leaves only if there is a single value node or a single inner node. -/
theorem leaf_homes (admissible : Admissible chance decision value limit) :
    (∀ r, Outcome real (outline chance decision value limit) r →
      ∃ o home, r = .ok o ∧ o.Housed home) ∧
    ((∀ o, Outcome real (outline chance decision value limit) (.ok o) → o.LeavesHaveOneChild) ↔
      value = 1) ∧
    ((∀ o, Outcome real (outline chance decision value limit) (.ok o) →
        o.ValuesHaveOtherParents) ↔ value = 1 ∨ chance + decision = 1) := by
  have draws := @Admissible.outline_spans α real _ _ _ _ admissible
  simp only [draws.ok_iff]
  obtain ⟨_, _, some, several, positive⟩ := admissible
  refine ⟨fun r drawn => ?_, ⟨fun all => ?_, ?_⟩, ⟨fun all => ?_, ?_⟩⟩
  · obtain ⟨_, rfl, x, fits, rfl⟩ := (draws r).mp drawn
    exact ⟨_, _, rfl, fits.housed⟩
  · by_contra more
    have fits := @Draft.plain_fits limit (chance + decision).toNat value.toNat (by omega) (by omega)
    exact Draft.plain_children (by omega) (by omega) (by omega) (all _ ⟨_, fits, rfl⟩)
  · rintro rfl o ⟨x, fits, rfl⟩
    exact fits.housed.one_child rfl
  · by_contra more
    have fits := @Draft.chained_fits (chance + decision).toNat value.toNat limit (by omega)
      (by omega) positive
    exact Draft.chained_parents (by omega) positive (by omega) (all _ ⟨_, fits, rfl⟩)
  · rintro (rfl | single) o ⟨x, fits, rfl⟩
    · exact fits.housed.other_parents rfl
    · rintro ⟨i, inner, other⟩
      refine absurd (fits.leaf_iff.mpr (Draft.mem_leaves.mpr
        ⟨(fits.mem_inner i).mp inner, fun j node parent => ?_⟩)) other
      have bounds := (fits.parents j node).1.bounds i parent
      rw [mem_span] at node
      omega

/-- With two value nodes some leaf may have both of them as children, but not with one. -/
theorem leaf_homes_of_two :
    (∃ o home, Outcome (fun x : Rat => 0 < x) (outline 2 0 2 1) (.ok o) ∧ o.Housed home) ∧
    (∃ o, Outcome (fun x : Rat => 0 < x) (outline 2 0 2 1) (.ok o) ∧ ¬o.LeavesHaveOneChild) ∧
    ∀ o, Outcome (fun x : Rat => 0 < x) (outline 2 0 1 1) (.ok o) → o.LeavesHaveOneChild := by
  have two : Admissible 2 0 2 1 := by constructor <;> decide
  have one : Admissible 2 0 1 1 := by constructor <;> decide
  obtain ⟨houses, onlyOne, _⟩ := @leaf_homes Rat (fun x => 0 < x) _ _ _ _ two
  have drawn : ∃ o, Outcome (fun x : Rat => 0 < x) (outline 2 0 2 1) (.ok o) ∧
      ¬o.LeavesHaveOneChild := by
    simpa using mt onlyOne.mp (by decide)
  refine ⟨?_, drawn, (leaf_homes one).2.1.mpr rfl⟩
  obtain ⟨o, drawn, _⟩ := drawn
  obtain ⟨_, home, same, housed⟩ := houses _ drawn
  cases same
  exact ⟨o, home, drawn, housed⟩

/-- Two inner nodes and two value nodes. The second inner node is a leaf that both value nodes look
at, and the second value node looks at nothing else. -/
def sharedLeaf : Outline where
  chance := [1, 2]
  decision := []
  value := [3, 4]
  arcs := [(1, 2), (1, 3), (2, 3), (2, 4)]

/-- A leaf with two value nodes as children, one of which has no other parent, can be drawn. -/
theorem sharedLeaf_drawn : Outcome (fun x : Rat => 0 < x) (outline 2 0 2 1) (.ok sharedLeaf) ∧
    ¬sharedLeaf.LeavesHaveOneChild ∧ ¬sharedLeaf.ValuesHaveOtherParents := by
  have same : (Draft.chained 2).outline 2 2 2 = sharedLeaf := by cbv
  have fits : (Draft.chained 2).Fits 2 2 1 :=
    Draft.chained_fits (by decide) (by decide) (by decide)
  have leaf : sharedLeaf.Leaf 2 := by
    refine ⟨.inl (by decide), ?_⟩
    rintro j (first | second)
    · revert j
      decide
    · cases second
  refine ⟨?_, fun unique => ?_, ?_⟩
  · have two : Admissible 2 0 2 1 := by constructor <;> decide
    exact two.outline_spans.ok_iff.mpr ⟨_, fits, same.symm⟩
  · have both : (3 : Int) = 4 :=
      (unique 2 leaf).unique ⟨by decide, by decide⟩ ⟨by decide, by decide⟩
    cases both
  · rw [← same]
    exact @Draft.chained_parents 2 2 2 1 (by decide) (by decide) (by decide)

end Random

end InfluenceProgram
