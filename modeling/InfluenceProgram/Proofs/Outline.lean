import InfluenceProgram.Proofs.Keyed
import InfluenceProgram.Proofs.Layout

/-!
What a diagram is made from. Lists with the same members make the same diagram or have the same
fault, and the information sets of a diagram list its arcs, each set in order and every arc once.
-/

set_option autoImplicit false

namespace InfluenceProgram

/-- Lists with the same members have the same normal form. -/
theorem Ascending.ofList_congr {α : Type} {before : α → α → Bool} (strict : Strict before)
    {xs ys : List α} (same : ∀ x, x ∈ xs ↔ x ∈ ys) : ofList before xs = ofList before ys := by
  apply eq_of_mem_iff strict (pairwise_ofList strict xs) (pairwise_ofList strict ys)
  intro x
  rw [mem_ofList strict, mem_ofList strict, same]

/-- Ascending nodes are the sorted members of a set. -/
theorem eq_sort_of_ascending {nodes : List Int}
    (ascending : nodes.Pairwise fun i j => nodeBefore i j) {members : Finset Int}
    (same : ∀ j, j ∈ nodes ↔ j ∈ members) : nodes = members.sort (· ≤ ·) := by
  apply Ascending.eq_of_mem_iff nodeBefore_strict ascending
  · refine members.sortedLT_sort.pairwise.imp ?_
    intro i j below
    simpa only [nodeBefore, decide_eq_true_eq] using below
  · intro j
    rw [same, Finset.mem_sort]

theorem ofList_eq_sort (nodes : List Int) :
    Ascending.ofList nodeBefore nodes = nodes.toFinset.sort (· ≤ ·) := by
  apply eq_sort_of_ascending (Ascending.pairwise_ofList nodeBefore_strict nodes)
  intro j
  rw [Ascending.mem_ofList nodeBefore_strict, List.mem_toFinset]

theorem sort_inj {s t : Finset Int} : s.sort (· ≤ ·) = t.sort (· ≤ ·) ↔ s = t := by
  constructor
  · intro same
    rw [← Finset.sort_toFinset s (· ≤ ·), same, Finset.sort_toFinset]
  · exact fun same => same ▸ rfl

theorem span_eq_sort (first : Int) (length : Nat) :
    span first length = (Finset.Icc first (first + length - 1)).sort (· ≤ ·) := by
  apply eq_sort_of_ascending (pairwise_span first length)
  intro j
  rw [mem_span, Finset.mem_Icc]
  omega

theorem Arc.before_iff {a b : Arc} : Arc.before a b = true ↔ toLex a < toLex b := by
  simp only [before, Prod.Lex.toLex_lt_toLex, Bool.or_eq_true, Bool.and_eq_true,
    decide_eq_true_eq, beq_iff_eq]

theorem Arc.not_before_trans (a b c : Arc) (first : (!Arc.before b a) = true)
    (second : (!Arc.before c b) = true) : (!Arc.before c a) = true := by
  simp only [Arc.before, Bool.not_eq_true', Bool.or_eq_false_iff, Bool.and_eq_false_iff,
    decide_eq_false_iff_not, beq_eq_false_iff_ne] at *
  omega

theorem Arc.not_before_total (a b : Arc) : ((!Arc.before b a) || (!Arc.before a b)) = true := by
  simp only [Arc.before, Bool.or_eq_true, Bool.not_eq_true', Bool.or_eq_false_iff,
    Bool.and_eq_false_iff, decide_eq_false_iff_not, beq_eq_false_iff_ne]
  omega

/-- The arcs of information sets are in order. -/
theorem pairwise_arcsOfInformationSets (sets : List (Int × List Int)) :
    (arcsOfInformationSets sets).Pairwise fun a b => !Arc.before b a :=
  List.pairwise_mergeSort Arc.not_before_trans Arc.not_before_total _

/-- Every node of an information set is listed with the node that the set belongs to. -/
theorem arcsOfInformationSets_perm (sets : List (Int × List Int)) :
    (arcsOfInformationSets sets).Perm (sets.flatMap fun e => e.2.map fun i => (i, e.1)) :=
  List.mergeSort_perm _ _

/-- The arcs of information sets are strictly in order if no node is listed twice, whether as one
that a set belongs to or inside of one set. -/
theorem ascending_arcsOfInformationSets {m : Keyed Int (List Int)} (distinct : m.keys.Nodup)
    (each : ∀ e ∈ m, e.2.Nodup) :
    (arcsOfInformationSets m).Pairwise fun a b => Arc.before a b := by
  have once : (arcsOfInformationSets m).Nodup := by
    rw [(arcsOfInformationSets_perm m).nodup_iff, List.nodup_flatMap]
    constructor
    · intro e member
      exact (each e member).map fun _ _ same => congrArg Prod.fst same
    · refine (List.pairwise_map.mp distinct).imp fun {e e'} different a first second => ?_
      obtain ⟨_, _, rfl⟩ := List.mem_map.mp first
      obtain ⟨_, _, same⟩ := List.mem_map.mp second
      exact different (congrArg Prod.snd same).symm
  refine ((pairwise_arcsOfInformationSets m).and once).imp ?_
  rintro a b ⟨inOrder, different⟩
  by_contra notBefore
  apply different
  apply Arc.before_strict.eq_of_neither
  · simpa only [Bool.not_eq_true] using notBefore
  · simpa only [Bool.not_eq_true'] using inOrder

theorem mem_arcsOfInformationSets {sets : List (Int × List Int)} {a : Arc} :
    a ∈ arcsOfInformationSets sets ↔ ∃ parents, (a.2, parents) ∈ sets ∧ a.1 ∈ parents := by
  rw [(arcsOfInformationSets_perm sets).mem_iff, List.mem_flatMap]
  constructor
  · rintro ⟨⟨j, parents⟩, member, listed⟩
    obtain ⟨i, parent, rfl⟩ := List.mem_map.mp listed
    exact ⟨parents, member, parent⟩
  · rintro ⟨parents, member, parent⟩
    exact ⟨(a.2, parents), member, List.mem_map.mpr ⟨a.1, parent, rfl⟩⟩

/-- Under a node that is listed once stand all that lead to it. -/
theorem mem_arcsOfInformationSets_iff {m : Keyed Int (List Int)} (distinct : m.keys.Nodup)
    {i j : Int} : (i, j) ∈ arcsOfInformationSets m ↔ i ∈ (m.get? j).getD [] := by
  rw [mem_arcsOfInformationSets]
  constructor
  · rintro ⟨parents, member, parent⟩
    rw [Keyed.get?_of_mem distinct member]
    exact parent
  · intro parent
    cases found : m.get? j with
    | none =>
        rw [found] at parent
        cases parent
    | some parents =>
        rw [found] at parent
        exact ⟨parents, Keyed.mem_of_get? found, parent⟩

namespace Diagram

/-- What a diagram is made of, computed without the proof that it is one. -/
def parts (chance decision value : List Int) (arcs : List Arc) (counts : List Datum) :
    Except Fault (Outline × List Int) :=
  let o := Outline.ofLists chance decision value arcs
  match o.defect? counts.length with
  | some defect => .error (.layout defect)
  | none => ((readCounts 1 counts).mapError .layout).map fun counts => (o, counts)

theorem parts_eq (chance decision value : List Int) (arcs : List Arc) (counts : List Datum) :
    parts chance decision value arcs counts =
      (create chance decision value arcs counts).map fun d => (d.toOutline, d.counts) := by
  unfold create parts
  dsimp only
  split
  · rename_i defect found
    split
    · rename_i defect' found'
      cases found.symm.trans found'
      rfl
    · rename_i found'
      cases found.symm.trans found'
  · rename_i found
    split
    · rename_i defect found'
      cases found.symm.trans found'
    · split
      · rename_i defect read
        rw [read]
        rfl
      · rename_i counts read
        show _ = Except.ok (Outline.ofLists chance decision value arcs, counts)
        rw [read]
        rfl

variable {chance decision value chance' decision' value' : List Int} {arcs arcs' : List Arc}
  {counts counts' : List Datum} {d : Diagram}

/-- A diagram is determined by its parts, and so is the fault where there is none. -/
theorem create_eq_of_parts (same : parts chance decision value arcs counts =
      parts chance' decision' value' arcs' counts') :
    create chance decision value arcs counts = create chance' decision' value' arcs' counts' := by
  rw [parts_eq, parts_eq] at same
  refine Success.map_injective ?_ same
  rintro ⟨outline, counts, _, _, _⟩ ⟨outline', counts', _, _, _⟩ equal
  cases equal
  rfl

/-- Lists with the same members make the same diagram, or have the same fault. -/
theorem create_congr (sameChance : ∀ j, j ∈ chance ↔ j ∈ chance')
    (sameDecision : ∀ j, j ∈ decision ↔ j ∈ decision') (sameValue : ∀ j, j ∈ value ↔ j ∈ value')
    (sameArcs : ∀ a, a ∈ arcs ↔ a ∈ arcs') (counts : List Datum) :
    create chance decision value arcs counts = create chance' decision' value' arcs' counts := by
  have outline : Outline.ofLists chance decision value arcs =
      Outline.ofLists chance' decision' value' arcs' := by
    simp only [Outline.ofLists, Ascending.ofList_congr nodeBefore_strict sameChance,
      Ascending.ofList_congr nodeBefore_strict sameDecision,
      Ascending.ofList_congr nodeBefore_strict sameValue,
      Ascending.ofList_congr Arc.before_strict sameArcs]
  apply create_eq_of_parts
  rw [parts, parts, outline]

/-- The outline of a diagram is that of the lists it was made from. -/
theorem outline_of_create (made : create chance decision value arcs counts = .ok d) :
    d.toOutline = Outline.ofLists chance decision value arcs := by
  have whole := parts_eq chance decision value arcs counts
  rw [made, parts] at whole
  split at whole
  · cases whole
  · cases read : readCounts 1 counts with
    | error defect =>
        rw [read] at whole
        cases whole
    | ok counts =>
        rw [read] at whole
        exact (congrArg Prod.fst (Except.ok.inj whole)).symm

theorem mem_arcs_of_create (made : create chance decision value arcs counts = .ok d) {a : Arc} :
    a ∈ d.arcs ↔ a ∈ arcs := by
  rw [congrArg Outline.arcs (outline_of_create made)]
  exact Ascending.mem_ofList Arc.before_strict

/-- An information set is in order and repeats no node. -/
theorem pairwise_informationSet (d : Diagram) (j : Int) :
    (d.informationSet j).Pairwise fun i k => nodeBefore i k := by
  have ending : (d.arcs.filter (·.2 == j)).Pairwise fun a b => Arc.before a b :=
    d.layered.arcs_ascending.filter _
  rw [informationSet, List.pairwise_map]
  refine ending.imp_of_mem ?_
  intro a b first second below
  have same : a.2 = j := eq_of_beq (List.mem_filter.mp first).2
  have same' : b.2 = j := eq_of_beq (List.mem_filter.mp second).2
  simp only [Arc.before, nodeBefore, Bool.or_eq_true, Bool.and_eq_true, decide_eq_true_eq,
    beq_iff_eq] at below ⊢
  omega

theorem informationSet_eq_sort (d : Diagram) (j : Int) {members : Finset Int}
    (same : ∀ i, (i, j) ∈ d.arcs ↔ i ∈ members) : d.informationSet j = members.sort (· ≤ ·) := by
  apply eq_sort_of_ascending (d.pairwise_informationSet j)
  intro i
  rw [mem_informationSet, same]

theorem mem_arcs_informationSets {d : Diagram} {a : Arc} :
    a ∈ arcsOfInformationSets d.informationSets ↔ a ∈ d.arcs := by
  rw [mem_arcsOfInformationSets]
  constructor
  · rintro ⟨parents, member, parent⟩
    obtain ⟨j, _, same⟩ := List.mem_map.mp member
    cases same
    exact d.mem_informationSet.mp parent
  · intro member
    have bounds := d.layered.arc_bounds a member
    have node : a.2 ∈ d.nodes := by
      rw [nodes, mem_span]
      omega
    exact ⟨_, List.mem_map.mpr ⟨a.2, node, rfl⟩, d.mem_informationSet.mpr member⟩

/-- The information sets of a diagram stand for its arcs. -/
theorem arcs_informationSets (d : Diagram) : arcsOfInformationSets d.informationSets = d.arcs := by
  have distinct : (Keyed.keys d.informationSets).Nodup := by
    rw [informationSets, Keyed.keys, List.map_map]
    exact (nodup_of_ascending (pairwise_span _ _)).map fun _ _ same => same
  have each : ∀ e ∈ d.informationSets, e.2.Nodup := by
    intro e member
    obtain ⟨j, _, rfl⟩ := List.mem_map.mp member
    exact nodup_of_ascending (d.pairwise_informationSet j)
  have strictly := ascending_arcsOfInformationSets distinct each
  exact Ascending.eq_of_mem_iff Arc.before_strict strictly d.layered.arcs_ascending
    fun _ => mem_arcs_informationSets

theorem informationSet?_eq {d : Diagram} {j : Int} (low : 1 ≤ j) (high : j ≤ d.total) :
    d.informationSet? j = .ok (d.informationSet j) := if_pos ⟨low, high⟩

end Diagram

end InfluenceProgram
