import InfluenceProgram.Proofs.Draws
import InfluenceProgram.Proofs.LayoutDefects
import InfluenceProgram.Random.Instance

/-!
Which outlines can be drawn at random. An order of the inner nodes, parents of each of them, a home
for each leaf and nodes that each value node looks at make an outline, and the outlines that can be
drawn are those of such drafts. All of them are layered, so any state counts make a diagram of them.
-/

set_option autoImplicit false

namespace InfluenceProgram.Random

open Experiment

variable {α : Type} {real : α → Prop}

/-- Some of the nodes from one on, in order. -/
structure NodesUpTo (last : Int) (nodes : List Int) : Prop where
  ascending : nodes.Pairwise fun i j => nodeBefore i j
  bounds : ∀ i ∈ nodes, 1 ≤ i ∧ i ≤ last

theorem NodesUpTo.nodup {last : Int} {nodes : List Int} (upTo : NodesUpTo last nodes) :
    nodes.Nodup := nodup_of_ascending upTo.ascending

theorem nodesUpTo_span (length : Nat) : NodesUpTo length (span 1 length) where
  ascending := pairwise_span 1 length
  bounds i member := by
    rw [mem_span] at member
    omega

/-- Nodes brought into order. -/
theorem nodesUpTo_ofList {last : Int} {nodes : List Int} (bounds : ∀ i ∈ nodes, 1 ≤ i ∧ i ≤ last) :
    NodesUpTo last (Ascending.ofList nodeBefore nodes) where
  ascending := Ascending.pairwise_ofList nodeBefore_strict nodes
  bounds i member := bounds i ((Ascending.mem_ofList nodeBefore_strict).mp member)

theorem NodesUpTo.length_le {last : Int} {nodes : List Int} (upTo : NodesUpTo last nodes) :
    nodes.length ≤ last.toNat := by
  have inside : nodes ⊆ span 1 last.toNat := by
    intro i member
    have bounds := upTo.bounds i member
    rw [mem_span]
    omega
  simpa only [length_span] using (List.subperm_of_subset upTo.nodup inside).length_le

/-- Any different items of a list come first when the list is shuffled the right way. -/
theorem exists_shuffle {items part : List Int} (distinct : part.Nodup) (inside : part ⊆ items) :
    ∃ shuffled : List Int, shuffled.Perm items ∧ shuffled.take part.length = part := by
  obtain ⟨front, same, within⟩ := List.subperm_of_subset distinct inside
  obtain ⟨back, whole⟩ := within.exists_perm_append
  exact ⟨part ++ back, (same.symm.append_right back).trans whole.symm, List.take_left⟩

/-- The parents of an inner node are any earlier nodes, as many as the limit allows. -/
theorem informationSet_spans {limit j : Int} (nonneg : 0 ≤ limit) (low : 1 ≤ j) :
    Spans real (informationSet (drawInteger 0 (limit + 1)) j) fun parents =>
      NodesUpTo (j - 1) parents ∧ parents.length ≤ limit := by
  have draws : (0 : Int) < limit + 1 := by omega
  refine ((drawInteger_spans draws).bind fun size _ =>
    (drawShuffle_spans _).map fun earlier =>
      Ascending.ofList nodeBefore (earlier.take (min size (j - 1)).toNat)).congr fun parents => ?_
  constructor
  · rintro ⟨size, ⟨_, below⟩, earlier, shuffled, rfl⟩
    have distinct : earlier.Nodup :=
      shuffled.nodup_iff.mpr (nodup_of_ascending (pairwise_span _ _))
    have length := (Ascending.ofList_perm nodeBefore_strict
      (distinct.sublist (List.take_sublist (min size (j - 1)).toNat earlier))).length_eq
    rw [List.length_take] at length
    refine ⟨nodesUpTo_ofList fun i member => ?_, by omega⟩
    have node := shuffled.mem_iff.mp (List.mem_of_mem_take member)
    rw [mem_span] at node
    omega
  · rintro ⟨upTo, few⟩
    have length := upTo.length_le
    have inside : parents ⊆ span 1 (j - 1).toNat := by
      intro i member
      have bounds := upTo.bounds i member
      rw [mem_span]
      omega
    obtain ⟨shuffled, same, first⟩ := exists_shuffle upTo.nodup inside
    refine ⟨parents.length, by omega, shuffled, same, ?_⟩
    have size : (min (parents.length : Int) (j - 1)).toNat = parents.length := by omega
    rw [size, first, Ascending.ofList_eq nodeBefore_strict upTo.ascending]

/-- Nodes that a value node looks at: its own, and another one if there is another one. -/
structure Supplements (inner : Nat) (own nodes : List Int) : Prop where
  upTo : NodesUpTo inner nodes
  owns : own ⊆ nodes
  other : ∀ i : Int, 1 ≤ i → i ≤ inner → i ∉ own → ∃ k ∈ nodes, k ∉ own

theorem supplements_all {inner : Nat} {own : List Int} (inside : own ⊆ span 1 inner) :
    Supplements inner own (span 1 inner) where
  upTo := nodesUpTo_span inner
  owns := inside
  other i low high absent := ⟨i, mem_span.mpr (by omega), absent⟩

theorem mem_others {inner : Nat} {own : List Int} {i : Int} :
    i ∈ (span 1 inner).filter (fun i => !own.contains i) ↔ (1 ≤ i ∧ i ≤ inner) ∧ i ∉ own := by
  simp only [List.mem_filter, mem_span, Bool.not_eq_true', List.contains_eq_mem,
    decide_eq_false_iff_not]
  refine and_congr_left fun _ => ?_
  omega

theorem valueInformationSet_spans {inner : Nat} {own : List Int} (inside : own ⊆ span 1 inner) :
    Spans real (valueInformationSet own inner) (Supplements inner own) := by
  have rest : ∀ others : List Int, Spans real
      (if others.isEmpty then Pure.pure (Ascending.ofList nodeBefore own)
        else do
          let size ← drawInteger 1 (others.length + 1)
          Pure.pure (Ascending.ofList nodeBefore (own ++ others.take size.toNat)))
      fun nodes => ∃ size : Nat, size ≤ others.length ∧ (others ≠ [] → 1 ≤ size) ∧
        nodes = Ascending.ofList nodeBefore (own ++ others.take size) := by
    intro others
    by_cases empty : others = []
    · subst empty
      refine (Spans.pure _).congr fun nodes => ?_
      simp
    · have draws : (1 : Int) < others.length + 1 := by
        have some := List.length_pos_of_ne_nil empty
        omega
      rw [if_neg (by simpa using empty)]
      refine ((drawInteger_spans draws).map _).congr fun nodes => ?_
      constructor
      · rintro ⟨size, range, rfl⟩
        exact ⟨size.toNat, by omega, fun _ => by omega, rfl⟩
      · rintro ⟨size, high, low, rfl⟩
        have positive := low empty
        exact ⟨size, by omega, rfl⟩
  refine ((drawShuffle_spans _).bind fun others _ => rest others).congr fun nodes => ?_
  constructor
  · rintro ⟨others, shuffled, size, high, low, rfl⟩
    have outside : ∀ i, i ∈ others ↔ (1 ≤ i ∧ i ≤ inner) ∧ i ∉ own :=
      fun i => shuffled.mem_iff.trans mem_others
    refine ⟨nodesUpTo_ofList fun i member => ?_, fun i member => ?_, fun i first last absent => ?_⟩
    · rcases List.mem_append.mp member with mine | taken
      · have bounds := mem_span.mp (inside mine)
        omega
      · exact ((outside i).mp (List.mem_of_mem_take taken)).1
    · exact (Ascending.mem_ofList nodeBefore_strict).mpr (List.mem_append_left _ member)
    · have some : others ≠ [] := List.ne_nil_of_mem ((outside i).mpr ⟨⟨first, last⟩, absent⟩)
      have positive := low some
      have taken : others.take size ≠ [] := by
        apply List.ne_nil_of_length_pos
        rw [List.length_take]
        omega
      obtain ⟨k, member⟩ := List.exists_mem_of_ne_nil _ taken
      refine ⟨k, ?_, ((outside k).mp (List.mem_of_mem_take member)).2⟩
      exact (Ascending.mem_ofList nodeBefore_strict).mpr (List.mem_append_right _ member)
  · intro supplements
    have part : nodes.filter (fun i => !own.contains i) ⊆
        (span 1 inner).filter (fun i => !own.contains i) := by
      intro i member
      obtain ⟨present, absent⟩ := List.mem_filter.mp member
      have bounds := supplements.upTo.bounds i present
      exact List.mem_filter.mpr ⟨mem_span.mpr (by omega), absent⟩
    obtain ⟨others, shuffled, first⟩ := exists_shuffle (supplements.upTo.nodup.filter _) part
    refine ⟨others, shuffled, (nodes.filter fun i => !own.contains i).length, ?_, ?_, ?_⟩
    · rw [← first, List.length_take]
      omega
    · intro some
      obtain ⟨i, member⟩ := List.exists_mem_of_ne_nil _ some
      obtain ⟨bounds, absent⟩ := mem_others.mp (shuffled.mem_iff.mp member)
      obtain ⟨k, present, foreign⟩ := supplements.other i bounds.1 bounds.2 absent
      refine List.length_pos_of_mem (List.mem_filter.mpr ⟨present, ?_⟩)
      simpa using foreign
    · rw [first]
      refine Ascending.eq_of_mem_iff nodeBefore_strict supplements.upTo.ascending
        (Ascending.pairwise_ofList nodeBefore_strict _) fun i => ?_
      have mine := @supplements.owns i
      simp only [Ascending.mem_ofList nodeBefore_strict, List.mem_append, List.mem_filter,
        Bool.not_eq_true', List.contains_eq_mem, decide_eq_false_iff_not]
      tauto

/-- What is drawn for an outline. -/
structure Draft where
  /-- The inner nodes in some order; the chance nodes come first. -/
  order : List Int
  /-- The parents of each inner node. -/
  parents : Int → List Int
  /-- The value node that a leaf is given to. -/
  home : Int → Int
  /-- The nodes that each value node looks at. -/
  sources : Int → List Int

namespace Draft

variable (x : Draft) (inner values : Nat)

/-- The inner nodes that are no parent of another one. -/
def leaves : List Int :=
  (span 1 inner).filter fun i => !((span 1 inner).flatMap x.parents).contains i

/-- The leaves that are given to a value node. -/
def assigned (v : Int) : List Int := (x.leaves inner).filter fun i => x.home i == v

def sets : Keyed Int (List Int) :=
  ((span 1 inner).map fun j => (j, x.parents j)) ++
    (span (inner + 1) values).map fun v => (v, x.sources v)

/-- The outline of a draft, so many of its inner nodes being chance nodes. -/
def outline (chance : Nat) : Outline where
  chance := Ascending.ofList nodeBefore (x.order.take chance)
  decision := Ascending.ofList nodeBefore (x.order.drop chance)
  value := span (inner + 1) values
  arcs := arcsOfInformationSets (x.sets inner values)

/-- A draft that can be drawn with a limit on the parents of inner nodes. -/
structure Fits (limit : Int) : Prop where
  order : x.order.Perm (span 1 inner)
  parents : ∀ j ∈ span 1 inner, NodesUpTo (j - 1) (x.parents j) ∧ (x.parents j).length ≤ limit
  home : ∀ i ∈ x.leaves inner, x.home i ∈ span (inner + 1) values
  sources : ∀ v ∈ span (inner + 1) values,
    Supplements inner (x.assigned inner v) (x.sources v)

end Draft

theorem nodup_span (first : Int) (length : Nat) : (span first length).Nodup :=
  nodup_of_ascending (pairwise_span first length)

/-- The home of a leaf is any value node. -/
theorem home_spans {inner : Nat} {value : Int} (some : 1 ≤ value) (i : Int) :
    Spans real (do return (i, (inner : Int) + 1 + (← drawInteger 0 value))) fun e =>
      ∃ home, home ∈ span (inner + 1) value.toNat ∧ e = (i, home) := by
  have draws : (0 : Int) < value := by omega
  refine ((drawInteger_spans draws).map _).congr fun e => ?_
  constructor
  · rintro ⟨k, range, rfl⟩
    exact ⟨_, mem_span.mpr (by omega), rfl⟩
  · rintro ⟨home, member, rfl⟩
    rw [mem_span] at member
    exact ⟨home - (inner + 1), by omega, by rw [add_sub_cancel]⟩

/-- The leaves whose home is a value node, found by their entries. -/
theorem assigned_eq (leaves : List Int) (home : Int → Int) (v : Int) :
    ((leaves.map fun i => (i, home i)).filter (·.2 == v)).map (·.1) =
      leaves.filter fun i => home i == v := by
  rw [List.filter_map, List.map_map]
  exact List.map_id _

/-- The outlines that can be drawn are those of the drafts that fit. -/
theorem outlineBy_spans {chance decision value limit : Int} (some : 1 ≤ value)
    (nonneg : 0 ≤ limit) :
    Spans real (outlineBy (drawInteger 0 (limit + 1)) chance decision value) fun o =>
      ∃ x : Draft, x.Fits (chance + decision).toNat value.toNat limit ∧
        o = x.outline (chance + decision).toNat value.toNat chance.toNat := by
  generalize inner_eq : (chance + decision).toNat = inner
  have sets : ∀ j ∈ span 1 inner, Spans real
      (do return (j, ← informationSet (drawInteger 0 (limit + 1)) j)) fun e =>
        ∃ parents, (NodesUpTo (j - 1) parents ∧ parents.length ≤ limit) ∧ e = (j, parents) :=
    fun j member => (informationSet_spans nonneg (mem_span.mp member).1).map fun parents =>
      (j, parents)
  have valueSets : ∀ own : Int → List Int, (∀ v, own v ⊆ span 1 inner) →
      ∀ v ∈ span (inner + 1) value.toNat, Spans real
        (do return (v, ← valueInformationSet (own v) inner)) fun e =>
          ∃ nodes, Supplements inner (own v) nodes ∧ e = (v, nodes) :=
    fun own inside v _ => (valueInformationSet_spans (inside v)).map fun nodes => (v, nodes)
  rw [outlineBy, inner_eq]
  refine ((drawShuffle_spans _).bind fun order _ =>
    Spans.tabulated_bind (nodup_span _ _) sets fun parents _ => by
      rw [List.flatMap_map]
      exact Spans.tabulated_bind ((nodup_span _ _).filter _) (fun i _ => home_spans some i)
        fun home _ => by
          simp only [assigned_eq]
          exact Spans.tabulated_bind (nodup_span _ _)
            (valueSets _ fun v =>
              List.Subset.trans (List.filter_subset_self _) (List.filter_subset_self _))
            fun sources _ => Spans.pure _).congr fun o => ?_
  constructor
  · rintro ⟨order, shuffled, parents, below, home, given, sources, supplied, rfl⟩
    exact ⟨⟨order, parents, home, sources⟩, ⟨shuffled, below, given, supplied⟩, rfl⟩
  · rintro ⟨⟨order, parents, home, sources⟩, ⟨shuffled, below, given, supplied⟩, rfl⟩
    exact ⟨order, shuffled, parents, below, home, given, sources, supplied, rfl⟩

end InfluenceProgram.Random
