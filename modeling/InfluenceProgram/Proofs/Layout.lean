import InfluenceProgram.Proofs.Context

/-!
Layouts that pass every check. Ascending lists are their own normal form, so the lists of a layered
outline are taken as they are, and a diagram is made anew from its own lists. One more arc from a
lower inner node to a higher node keeps the layout and enters one information set.
-/

set_option autoImplicit false

namespace InfluenceProgram

theorem Ascending.ofList_eq {α : Type} {before : α → α → Bool} (strict : Strict before)
    {xs : List α} (ascending : xs.Pairwise fun a b => before a b) : ofList before xs = xs :=
  eq_of_mem_iff strict (pairwise_ofList strict xs) ascending fun _ => mem_ofList strict

/-- Bringing different items into order loses none of them. -/
theorem Ascending.ofList_perm {α : Type} {before : α → α → Bool} (strict : Strict before)
    {xs : List α} (distinct : xs.Nodup) : (ofList before xs).Perm xs := by
  have nodup : (ofList before xs).Nodup :=
    (pairwise_ofList strict xs).imp fun {a b} below same => by
      subst same
      rw [strict.irrefl] at below
      cases below
  exact (List.perm_ext_iff_of_nodup nodup distinct).mpr fun _ => mem_ofList strict

namespace Outline

variable {o : Outline}

/-- The lists of a layered outline are in their normal form. -/
theorem Layered.ofLists_eq (layered : o.Layered) :
    ofLists o.chance o.decision o.value o.arcs = o := by
  have values : o.value.Pairwise fun i j => nodeBefore i j := by
    rw [layered.value_eq]
    exact pairwise_span _ _
  rw [ofLists, Ascending.ofList_eq nodeBefore_strict layered.chance_ascending,
    Ascending.ofList_eq nodeBefore_strict layered.decision_ascending,
    Ascending.ofList_eq nodeBefore_strict values,
    Ascending.ofList_eq Arc.before_strict layered.arcs_ascending]

/-- A layered outline has no defect. -/
theorem Layered.defect_eq_none (layered : o.Layered) : o.defect? o.inner = none := by
  have shared : o.chance.filter o.decision.contains = [] := by
    rw [List.filter_eq_nil_iff]
    intro j chance both
    exact layered.disjoint j chance (List.contains_iff_mem.mp both)
  have union : Ascending.ofList nodeBefore (o.chance ++ o.decision) = span 1 o.inner := by
    refine Ascending.eq_of_mem_iff nodeBefore_strict
      (Ascending.pairwise_ofList nodeBefore_strict _) (pairwise_span _ _) fun j => ?_
    rw [Ascending.mem_ofList nodeBefore_strict, List.mem_append, layered.inner_iff, mem_span]
    omega
  have arcs : o.arcs.findSome? o.arcDefect? = none := by
    rw [List.findSome?_eq_none_iff]
    intro arc member
    have bounds := layered.arc_bounds arc member
    rw [arcDefect?, if_neg (not_not.mpr ⟨bounds.1, bounds.2.1, bounds.2.2.1⟩),
      if_neg (not_lt.mpr bounds.2.2.2)]
  simp only [defect?, shared, union, ← layered.value_eq, arcs, ne_eq, not_true_eq_false, if_false]

end Outline

theorem readCounts_eq {counts : List Int} (positive : ∀ c ∈ counts, 1 ≤ c) (j : Int) :
    readCounts j (counts.map .int) = .ok counts := by
  induction counts generalizing j with
  | nil => rfl
  | cons c counts ih =>
      obtain ⟨first, rest⟩ := List.forall_mem_cons.mp positive
      rw [List.map_cons, readCounts, if_neg (by omega), ih rest]
      rfl

namespace Diagram

/-- The lists of the outline of a diagram, in whatever order, make this diagram. -/
theorem create_eq (d : Diagram) {chance decision value : List Int} {arcs : List Arc}
    (lists : Outline.ofLists chance decision value arcs = d.toOutline) :
    create chance decision value arcs (d.counts.map .int) = .ok d := by
  have fine : d.toOutline.defect? (d.counts.map Datum.int).length = none := by
    rw [List.length_map, d.counts_length]
    exact d.layered.defect_eq_none
  have read := readCounts_eq d.counts_pos 1
  obtain ⟨outline, counts, layered, length, positive⟩ := d
  subst lists
  unfold create
  dsimp only at fine read ⊢
  split
  · rename_i defect found
    cases fine.symm.trans found
  · split
    · rename_i defect found
      cases read.symm.trans found
    · rename_i found
      cases read.symm.trans found
      rfl

/-- A diagram is made anew from its own lists. -/
theorem revalidate_eq (d : Diagram) : d.revalidate = .ok d :=
  create_eq d d.layered.ofLists_eq

/-- A diagram with one more arc. -/
def withArc (d : Diagram) (i j : Int)
    (fits : 1 ≤ i ∧ i < j ∧ j ≤ d.total ∧ i ≤ d.inner) : Diagram :=
  { d with
    arcs := Ascending.insert Arc.before (i, j) d.arcs
    layered :=
      { d.layered with
        arcs_ascending := Ascending.pairwise_insert Arc.before_strict d.layered.arcs_ascending
        arc_bounds := by
          intro arc member
          rcases (Ascending.mem_insert Arc.before_strict).mp member with rfl | old
          · exact fits
          · exact d.layered.arc_bounds arc old } }

variable {d : Diagram} {i j : Int} {fits : 1 ≤ i ∧ i < j ∧ j ≤ d.total ∧ i ≤ d.inner}

/-- The lists of a diagram and one more arc make the diagram with this arc. -/
theorem create_withArc (fits : 1 ≤ i ∧ i < j ∧ j ≤ d.total ∧ i ≤ d.inner) :
    create d.chance d.decision d.value ((i, j) :: d.arcs) (d.counts.map .int) =
      .ok (d.withArc i j fits) := by
  have arcs : Ascending.ofList Arc.before ((i, j) :: d.arcs) =
      Ascending.insert Arc.before (i, j) d.arcs :=
    congrArg _ (Ascending.ofList_eq Arc.before_strict d.layered.arcs_ascending)
  have lists : Outline.ofLists d.chance d.decision d.value ((i, j) :: d.arcs) =
      (d.withArc i j fits).toOutline := by
    change { Outline.ofLists d.chance d.decision d.value d.arcs with
      arcs := Ascending.ofList Arc.before ((i, j) :: d.arcs) } = _
    rw [d.layered.ofLists_eq, arcs]
    rfl
  exact create_eq (d.withArc i j fits) lists

theorem mem_informationSet_withArc {k l : Int} :
    k ∈ (d.withArc i j fits).informationSet l ↔ (k = i ∧ l = j) ∨ k ∈ d.informationSet l := by
  rw [mem_informationSet, mem_informationSet, withArc, Ascending.mem_insert Arc.before_strict,
    Prod.mk.injEq]

/-- The information sets of other nodes stay as they were. -/
theorem informationSet_withArc_of_ne {l : Int} (other : l ≠ j) :
    (d.withArc i j fits).informationSet l = d.informationSet l := by
  have kept : (Ascending.insert Arc.before (i, j) d.arcs).filter (·.2 == l) =
      d.arcs.filter (·.2 == l) := by
    refine Ascending.eq_of_mem_iff Arc.before_strict
      ((Ascending.pairwise_insert Arc.before_strict d.layered.arcs_ascending).filter _)
      (d.layered.arcs_ascending.filter _) fun arc => ?_
    rw [List.mem_filter, List.mem_filter, Ascending.mem_insert Arc.before_strict]
    constructor
    · rintro ⟨rfl | old, here⟩
      · exact absurd (eq_of_beq here).symm other
      · exact ⟨old, here⟩
    · rintro ⟨old, here⟩
      exact ⟨Or.inr old, here⟩
  rw [informationSet, informationSet, withArc, kept]

end Diagram

end InfluenceProgram
