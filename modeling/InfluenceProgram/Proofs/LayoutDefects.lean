import InfluenceProgram.Proofs.Checks
import InfluenceProgram.Proofs.PlainDrawing

/-!
Which lists make a diagram. Six checks are made in order, each on what the lists hold as sets, and
they accept exactly the layered lists. Of arcs the least one in lexicographic order is named that
does not fit, and of state counts the one of the lowest node.
-/

set_option autoImplicit false

namespace InfluenceProgram

/-- The lists that a diagram is asked for with, in any order and with any repetition. -/
structure Sketch where
  chance : List Int
  decision : List Int
  value : List Int
  arcs : List Arc
  /-- The number of states of each chance and decision node, in node order. -/
  counts : List Int

namespace Sketch

variable (k : Sketch)

/-- The diagram that is drawn with the lists as data. -/
def diagram : Except Fault Diagram :=
  (Drawing.create (.list (Datum.ints k.chance)) (.list (Datum.ints k.decision))
    (.list (Datum.ints k.value)) (.list (k.arcs.map Arc.datum))
    (.list (Datum.ints k.counts))).map Drawing.diagram

theorem diagram_eq : k.diagram =
    Diagram.create k.chance k.decision k.value k.arcs (k.counts.map .int) := by
  rw [diagram, Drawing.create_ints, Datum.ints]
  cases Diagram.create k.chance k.decision k.value k.arcs (k.counts.map .int) <;> rfl

/-- How many different chance nodes and how many different decision nodes there are. -/
def inner : Nat := k.chance.toFinset.card + k.decision.toFinset.card

def total : Nat := k.inner + k.value.toFinset.card

/-- An arc leads from a node to a higher one. -/
def Ascends (a : Arc) : Prop := 1 ≤ a.1 ∧ a.1 < a.2 ∧ a.2 ≤ k.total

/-- An arc leads from a chance or decision node to a higher node. -/
def Fits (a : Arc) : Prop := k.Ascends a ∧ a.1 ≤ k.inner

instance (a : Arc) : Decidable (k.Ascends a) :=
  inferInstanceAs (Decidable (1 ≤ a.1 ∧ a.1 < a.2 ∧ a.2 ≤ k.total))

instance (a : Arc) : Decidable (k.Fits a) :=
  inferInstanceAs (Decidable (k.Ascends a ∧ a.1 ≤ k.inner))

/-- The first arc in lexicographic order that does not fit. -/
structure LeastMisfit (a : Arc) : Prop where
  member : a ∈ k.arcs
  misfit : ¬k.Fits a
  least : ∀ b ∈ k.arcs, ¬k.Fits b → toLex a ≤ toLex b

/-- The lowest node that has no positive number of states, split off between the others. -/
structure LeastLow (lower : List Int) (c : Int) (higher : List Int) : Prop where
  split : k.counts = lower ++ c :: higher
  low : c < 1
  least : ∀ x ∈ lower, 1 ≤ x

/-- What is wrong with an arc that does not fit. -/
def arcDefect (a : Arc) : LayoutDefect :=
  if k.Ascends a then .arcFromValue a else .arcRange a k.total

/-- Lists that make a diagram. -/
structure Layered : Prop where
  disjoint : Disjoint k.chance.toFinset k.decision.toFinset
  inner_eq : k.chance.toFinset ∪ k.decision.toFinset = Finset.Icc 1 (k.inner : Int)
  value_eq : k.value.toFinset = Finset.Icc (k.inner + 1 : Int) k.total
  arcs_fit : ∀ a ∈ k.arcs, k.Fits a
  counts_length : k.counts.length = k.inner
  counts_pos : ∀ c ∈ k.counts, 1 ≤ c

/-- Some nodes in ascending order, as they are shown. -/
def listed (nodes : Finset Int) : List Datum := (nodes.sort (· ≤ ·)).map .int

/-- What is checked of lists, in order, and what is said where it does not hold. -/
def checks : List (Check Fault) :=
  [.saying (Disjoint k.chance.toFinset k.decision.toFinset)
      (.layout (.overlap (listed (k.chance.toFinset ∩ k.decision.toFinset)))),
    .saying (k.chance.toFinset ∪ k.decision.toFinset = Finset.Icc 1 (k.inner : Int))
      (.layout (.union k.inner (listed (k.chance.toFinset ∪ k.decision.toFinset)))),
    .saying (k.value.toFinset = Finset.Icc (k.inner + 1 : Int) k.total)
      (.layout (.values (k.inner + 1) k.total (listed k.value.toFinset))),
    { holds := ∀ a ∈ k.arcs, k.Fits a
      blames := fun fault => ∃ a, k.LeastMisfit a ∧ fault = .layout (k.arcDefect a) },
    .saying (k.counts.length = k.inner) (.layout (.countsLength k.inner k.counts.length)),
    { holds := ∀ c ∈ k.counts, 1 ≤ c
      blames := fun fault => ∃ lower c higher, k.LeastLow lower c higher ∧
        fault = .layout (.countLow (lower.length + 1) c) }]

theorem layered_iff_checks : k.Layered ↔ ∀ check ∈ k.checks, check.holds := by
  simp only [checks, Check.saying, List.forall_mem_cons, List.not_mem_nil, false_implies,
    implies_true, and_true]
  constructor
  · rintro ⟨disjoint, inner, value, arcs, length, positive⟩
    exact ⟨disjoint, inner, value, arcs, length, positive⟩
  · rintro ⟨disjoint, inner, value, arcs, length, positive⟩
    exact ⟨disjoint, inner, value, arcs, length, positive⟩

/-- The normal form of the lists. -/
def outline : Outline := Outline.ofLists k.chance k.decision k.value k.arcs

theorem inner_outline : k.outline.inner = k.inner := by
  simp only [outline, Outline.inner, Outline.ofLists, ofList_eq_sort, Finset.length_sort, inner]

theorem total_outline : k.outline.total = k.total := by
  rw [Outline.total, k.inner_outline]
  simp only [outline, Outline.ofLists, ofList_eq_sort, Finset.length_sort, total]

theorem mem_arcs_outline {a : Arc} : a ∈ k.outline.arcs ↔ a ∈ k.arcs :=
  Ascending.mem_ofList Arc.before_strict

theorem shared_outline : k.outline.chance.filter k.outline.decision.contains =
    (k.chance.toFinset ∩ k.decision.toFinset).sort (· ≤ ·) := by
  apply eq_sort_of_ascending ((Ascending.pairwise_ofList nodeBefore_strict _).filter _)
  intro j
  simp only [outline, Outline.ofLists, List.mem_filter, List.contains_iff_mem, Finset.mem_inter,
    List.mem_toFinset, Ascending.mem_ofList nodeBefore_strict]

theorem union_outline : Ascending.ofList nodeBefore (k.outline.chance ++ k.outline.decision) =
    (k.chance.toFinset ∪ k.decision.toFinset).sort (· ≤ ·) := by
  apply eq_sort_of_ascending (Ascending.pairwise_ofList nodeBefore_strict _)
  intro j
  simp only [outline, Outline.ofLists, List.mem_append, Finset.mem_union, List.mem_toFinset,
    Ascending.mem_ofList nodeBefore_strict]

theorem value_outline : k.outline.value = k.value.toFinset.sort (· ≤ ·) := ofList_eq_sort _

end Sketch

/-- The state count that is named is the first one that is no positive number. -/
theorem readCounts_of_low {lower higher : List Int} {c : Int} (good : ∀ x ∈ lower, 1 ≤ x)
    (low : c < 1) (j : Int) : readCounts j ((lower ++ c :: higher).map .int) =
      .error (.countLow (j + lower.length) c) := by
  induction lower generalizing j with
  | nil => simp [readCounts, low]
  | cons x lower ih =>
      obtain ⟨first, rest⟩ := List.forall_mem_cons.mp good
      rw [List.cons_append, List.map_cons, readCounts, if_neg (by omega), ih rest]
      simp only [Except.map, List.length_cons, Nat.cast_add, Nat.cast_one]
      rw [add_assoc, add_comm 1]

namespace Sketch

variable {k : Sketch}

theorem arcDefect?_outline (a : Arc) :
    k.outline.arcDefect? a = if k.Fits a then none else some (k.arcDefect a) := by
  simp only [Outline.arcDefect?, k.total_outline, k.inner_outline, arcDefect]
  by_cases ascends : k.Ascends a
  · have inRange : 1 ≤ a.1 ∧ a.1 < a.2 ∧ a.2 ≤ k.total := ascends
    by_cases inner : a.1 ≤ k.inner
    · rw [if_neg (not_not_intro inRange), if_neg (by omega), if_pos ⟨ascends, inner⟩]
    · rw [if_neg (not_not_intro inRange), if_pos (by omega), if_neg fun fits => inner fits.2,
        if_pos ascends]
  · have outOfRange : ¬(1 ≤ a.1 ∧ a.1 < a.2 ∧ a.2 ≤ k.total) := ascends
    rw [if_pos outOfRange, if_neg fun fits => ascends fits.1, if_neg ascends]

theorem exists_leastMisfit (misfit : ¬∀ a ∈ k.arcs, k.Fits a) : ∃ a, k.LeastMisfit a := by
  push Not at misfit
  obtain ⟨a, member, wrong⟩ := misfit
  obtain ⟨b, found, least⟩ := (k.arcs.toFinset.filter (¬k.Fits ·)).exists_min_image toLex
    ⟨a, Finset.mem_filter.mpr ⟨List.mem_toFinset.mpr member, wrong⟩⟩
  obtain ⟨present, misfit⟩ := Finset.mem_filter.mp found
  refine ⟨b, List.mem_toFinset.mp present, misfit, fun a member wrong => ?_⟩
  exact least a (Finset.mem_filter.mpr ⟨List.mem_toFinset.mpr member, wrong⟩)

/-- The arcs are gone through in order, so the least of those that do not fit is found. -/
theorem LeastMisfit.found {a : Arc} (least : k.LeastMisfit a) :
    k.outline.arcs.findSome? k.outline.arcDefect? = some (k.arcDefect a) := by
  obtain ⟨front, back, split⟩ := List.append_of_mem (k.mem_arcs_outline.mpr least.member)
  have ascending : k.outline.arcs.Pairwise fun a b => Arc.before a b :=
    Ascending.pairwise_ofList Arc.before_strict _
  rw [split] at ascending ⊢
  refine List.findSome?_eq_some_iff.mpr ⟨front, a, back, rfl, ?_, fun b earlier => ?_⟩
  · rw [arcDefect?_outline, if_neg least.misfit]
  · have below := (List.pairwise_append.mp ascending).2.2 b earlier a List.mem_cons_self
    have member : b ∈ k.arcs := by
      rw [← k.mem_arcs_outline, split]
      exact List.mem_append_left _ earlier
    rw [arcDefect?_outline, if_pos]
    by_contra misfit
    exact (Arc.before_iff.mp below).not_ge (least.least b member misfit)

theorem findSome?_of_fits (fits : ∀ a ∈ k.arcs, k.Fits a) :
    k.outline.arcs.findSome? k.outline.arcDefect? = none := by
  refine List.findSome?_eq_none_iff.mpr fun a member => ?_
  rw [arcDefect?_outline, if_pos (fits a (k.mem_arcs_outline.mp member))]

theorem LeastMisfit.blames_iff {a : Arc} (least : k.LeastMisfit a) (fault : Fault) :
    (∃ b, k.LeastMisfit b ∧ fault = .layout (k.arcDefect b)) ↔
      fault = .layout (k.arcDefect a) := by
  constructor
  · rintro ⟨b, other, rfl⟩
    rw [Option.some.inj (other.found.symm.trans least.found)]
  · exact fun same => ⟨a, least, same⟩

theorem exists_leastLow (low : ¬∀ c ∈ k.counts, 1 ≤ c) :
    ∃ lower c higher, k.LeastLow lower c higher := by
  push Not at low
  obtain ⟨c, member, small⟩ := low
  cases found : k.counts.find? (· < 1) with
  | none => exact absurd small (by simpa using List.find?_eq_none.mp found c member)
  | some c =>
      obtain ⟨first, lower, higher, split, good⟩ := List.find?_eq_some_iff_append.mp found
      refine ⟨lower, c, higher, split, by simpa using first, fun x earlier => ?_⟩
      simpa using good x earlier

/-- The counts are gone through in node order, so the lowest node is named. -/
theorem LeastLow.found {lower higher : List Int} {c : Int} (least : k.LeastLow lower c higher) :
    readCounts 1 (k.counts.map .int) = .error (.countLow (lower.length + 1) c) := by
  rw [least.split, readCounts_of_low least.least least.low, add_comm]

theorem LeastLow.blames_iff {lower higher : List Int} {c : Int}
    (least : k.LeastLow lower c higher) (fault : Fault) :
    (∃ lower c higher, k.LeastLow lower c higher ∧
      fault = .layout (.countLow (lower.length + 1) c)) ↔
      fault = .layout (.countLow (lower.length + 1) c) := by
  constructor
  · rintro ⟨_, _, _, other, rfl⟩
    rw [Except.error.inj (other.found.symm.trans least.found)]
  · exact fun same => ⟨lower, c, higher, least, same⟩

theorem shared_iff : k.outline.chance.filter k.outline.decision.contains ≠ [] ↔
    ¬Disjoint k.chance.toFinset k.decision.toFinset := by
  rw [k.shared_outline, ← Finset.sort_empty (· ≤ ·), ne_eq, sort_inj,
    Finset.disjoint_iff_inter_eq_empty]

theorem union_iff :
    Ascending.ofList nodeBefore (k.outline.chance ++ k.outline.decision) ≠
        span 1 k.outline.inner ↔
      ¬k.chance.toFinset ∪ k.decision.toFinset = Finset.Icc 1 (k.inner : Int) := by
  rw [k.union_outline, k.inner_outline, span_eq_sort, add_sub_cancel_left, ne_eq, sort_inj]

theorem value_iff :
    k.outline.value ≠ span (k.outline.inner + 1) k.outline.value.length ↔
      ¬k.value.toFinset = Finset.Icc (k.inner + 1 : Int) k.total := by
  have last : (k.inner : Int) + 1 + k.value.toFinset.card - 1 = k.total := by
    rw [total, Nat.cast_add]
    omega
  rw [k.value_outline, k.inner_outline, Finset.length_sort, span_eq_sort, last, ne_eq, sort_inj]

/-- The checks are made in order, each on the normal form of the lists. -/
theorem decides (k : Sketch) : Check.Decide k.diagram k.checks := by
  have outline : Outline.ofLists k.chance k.decision k.value k.arcs = k.outline := rfl
  rw [diagram_eq, ← Check.Decide.map_iff (f := fun d => (d.toOutline, d.counts)),
    ← Diagram.parts_eq, Diagram.parts, outline, List.length_map, Outline.defect?]
  by_cases disjoint : Disjoint k.chance.toFinset k.decision.toFinset
  case neg =>
    rw [if_pos (shared_iff.mpr disjoint), k.shared_outline]
    exact .error_saying disjoint _
  refine .cons disjoint ?_
  rw [if_neg (mt shared_iff.mp (not_not_intro disjoint))]
  by_cases inner : k.chance.toFinset ∪ k.decision.toFinset = Finset.Icc 1 (k.inner : Int)
  case neg =>
    rw [if_pos (union_iff.mpr inner), k.union_outline, k.inner_outline]
    exact .error_saying inner _
  refine .cons inner ?_
  rw [if_neg (mt union_iff.mp (not_not_intro inner))]
  by_cases value : k.value.toFinset = Finset.Icc (k.inner + 1 : Int) k.total
  case neg =>
    rw [if_pos (value_iff.mpr value), k.value_outline, k.inner_outline, k.total_outline]
    exact .error_saying value _
  refine .cons value ?_
  rw [if_neg (mt value_iff.mp (not_not_intro value))]
  by_cases arcs : ∀ a ∈ k.arcs, k.Fits a
  case neg =>
    obtain ⟨a, least⟩ := exists_leastMisfit arcs
    rw [least.found]
    exact .error arcs least.blames_iff
  refine .cons arcs ?_
  rw [findSome?_of_fits arcs, k.inner_outline]
  by_cases length : k.counts.length = k.inner
  case neg =>
    rw [if_pos length]
    exact .error_saying length _
  refine .cons length ?_
  rw [if_neg (not_not_intro length)]
  by_cases positive : ∀ c ∈ k.counts, 1 ≤ c
  case neg =>
    obtain ⟨lower, c, higher, least⟩ := exists_leastLow positive
    rw [least.found]
    exact .error positive least.blames_iff
  refine .cons positive ?_
  rw [readCounts_eq positive]
  exact .ok _

end Sketch

namespace Diagram

/-- Arcs lead to higher nodes, so a walk along arcs ends above its start. -/
theorem lt_of_transGen {d : Diagram} {i j : Int}
    (walk : Relation.TransGen (fun i j => (i, j) ∈ d.arcs) i j) : i < j := by
  induction walk with
  | single arc => exact (d.layered.arc_bounds _ arc).2.1
  | tail _ arc ih => exact ih.trans (d.layered.arc_bounds _ arc).2.1

theorem acyclic (d : Diagram) (v : Int) :
    ¬Relation.TransGen (fun i j => (i, j) ∈ d.arcs) v v :=
  fun walk => (lt_of_transGen walk).false

end Diagram

namespace Sketch

variable {k : Sketch} {d : Diagram}

theorem outline_of_diagram (made : k.diagram = .ok d) : d.toOutline = k.outline := by
  rw [diagram_eq] at made
  exact Diagram.outline_of_create made

/-- The information sets of a diagram list what the arcs it was made from lead from, in order. -/
theorem informationSet_of_diagram (made : k.diagram = .ok d) {j : Int} (low : 1 ≤ j)
    (high : j ≤ k.total) : ∃ parents, d.informationSet? j = .ok parents ∧
      parents.Pairwise (· < ·) ∧ (∀ i, i ∈ parents ↔ (i, j) ∈ k.arcs) ∧
      ∀ i ∈ parents, i < j ∧ i ≤ k.inner := by
  have same := outline_of_diagram made
  rw [diagram_eq] at made
  rw [← k.total_outline, ← same] at high
  rw [← k.inner_outline, ← same]
  refine ⟨d.informationSet j, Diagram.informationSet?_eq low high,
    lt_of_ascending (d.pairwise_informationSet j), fun i => ?_, ?_⟩
  · rw [d.mem_informationSet, Diagram.mem_arcs_of_create made]
  · intro i parent
    have bounds := d.layered.arc_bounds _ (d.mem_informationSet.mp parent)
    exact ⟨bounds.2.1, bounds.2.2.2⟩

/-- Layered lists and no others make a diagram, other lists are refused for the first check that
fails, and the information sets of a diagram are what its arcs lead from, which no walk along arcs
comes back to. -/
theorem accepts_layered (k : Sketch) :
    ((∃ d, k.diagram = .ok d) ↔ k.Layered) ∧
    (∀ fault, k.diagram = .error fault ↔ Check.FirstFailing k.checks fault) ∧
    ∀ d, k.diagram = .ok d →
      (∀ j : Int, 1 ≤ j → j ≤ k.total → ∃ parents, d.informationSet? j = .ok parents ∧
        parents.Pairwise (· < ·) ∧ (∀ i, i ∈ parents ↔ (i, j) ∈ k.arcs) ∧
        ∀ i ∈ parents, i < j ∧ i ≤ k.inner) ∧
      ∀ v, ¬Relation.TransGen (fun i j => (i, j) ∈ d.arcs) v v := by
  refine ⟨?_, k.decides.fails, fun d made => ⟨fun j low high => ?_, d.acyclic⟩⟩
  · rw [k.layered_iff_checks]
    exact k.decides.passes
  · exact informationSet_of_diagram made low high

/-- Lists in disorder are accepted if they are layered. Of two arcs that do not fit the lower one is
named, and not the node without states. -/
theorem disorder_accepted_descent_refused :
    (∃ d, (Sketch.mk [3, 1, 1] [2] [5, 4] [(2, 3), (1, 3), (2, 3)] [2, 3, 2]).diagram = .ok d ∧
      (∃ parents, d.informationSet? 3 = .ok parents ∧ parents.Pairwise (· < ·) ∧
        ∀ i, i ∈ parents ↔ i = 1 ∨ i = 2) ∧
      ¬Relation.TransGen (fun i j => (i, j) ∈ d.arcs) 3 3) ∧
    (Sketch.mk [1] [2] [3] [(3, 4), (2, 1), (1, 3)] [2, 0]).diagram =
      .error (.layout (.arcRange (2, 1) 3)) := by
  constructor
  · obtain ⟨accepted, _, made⟩ :=
      accepts_layered ⟨[3, 1, 1], [2], [5, 4], [(2, 3), (1, 3), (2, 3)], [2, 3, 2]⟩
    obtain ⟨d, success⟩ := accepted.mpr
      ⟨by decide, by decide, by decide, by decide, by decide, by decide⟩
    obtain ⟨sets, acyclic⟩ := made d success
    obtain ⟨parents, found, ascending, members, _⟩ := sets 3 (by decide) (by decide)
    refine ⟨d, success, ⟨parents, found, ascending, fun i => ?_⟩, acyclic 3⟩
    rw [members]
    simp only [List.mem_cons, Prod.mk.injEq, List.not_mem_nil, and_true]
    tauto
  · obtain ⟨_, refused, _⟩ := accepts_layered ⟨[1], [2], [3], [(3, 4), (2, 1), (1, 3)], [2, 0]⟩
    have least : LeastMisfit ⟨[1], [2], [3], [(3, 4), (2, 1), (1, 3)], [2, 0]⟩ (2, 1) :=
      ⟨by decide, by decide, by decide⟩
    apply (refused _).mpr
    refine .inr ⟨show Disjoint _ _ by decide, .inr ⟨show _ = Finset.Icc _ _ by decide,
      .inr ⟨show _ = Finset.Icc _ _ by decide, .inl ⟨?_, (2, 1), least, by decide⟩⟩⟩⟩
    exact fun fit => least.misfit (fit _ least.member)

end Sketch

end InfluenceProgram
