import InfluenceProgram.Drawing.Tables
import InfluenceProgram.Proofs.Given
import InfluenceProgram.Proofs.Outline
import InfluenceProgram.Proofs.StableSort

/-!
Diagrams drawn with integers. Where every node is written as the integer that it is, sorting and
comparing data is sorting and comparing integers, so data make the diagram that the lists of
integers make, or have the same fault.
-/

set_option autoImplicit false

namespace InfluenceProgram

/-- Integers as data. -/
def Datum.ints (xs : List Int) : List Datum := xs.map .int

/-- An arc as data. -/
def Arc.datum (a : Arc) : Datum := .list [.int a.1, .int a.2]

/-- Different integers in order are the normal form of their set. -/
theorem mergeSort_eq_ofList {xs ys : List Int} (distinct : ys.Nodup)
    (same : ∀ j, j ∈ ys ↔ j ∈ xs) :
    (ys.mergeSort fun i j => i ≤ j) = Ascending.ofList nodeBefore xs := by
  have permuted := List.mergeSort_perm ys fun i j => decide (i ≤ j)
  have ordered : (ys.mergeSort fun i j => i ≤ j).Pairwise fun i j => i ≤ j :=
    Sorting.ascending_mergeSort id ys
  apply Ascending.eq_of_mem_iff nodeBefore_strict _ (Ascending.pairwise_ofList nodeBefore_strict xs)
  · intro j
    rw [permuted.mem_iff, same, Ascending.mem_ofList nodeBefore_strict]
  · refine (ordered.and (permuted.nodup_iff.mpr distinct)).imp fun both => ?_
    exact decide_eq_true (lt_of_le_of_ne both.1 both.2)

namespace Datum

theorem sorted_ints (xs : List Int) :
    sorted (ints xs) = .ok (ints (xs.mergeSort fun i j => i ≤ j)) := by
  have rank : ∀ i, (int i).whole?.getD 0 = i := fun i => by rw [whole?_int, Option.getD_some]
  have sorted : Sorting.sort before (xs.map int) = _ :=
    Sorting.sort_map int (fun d => d.whole?.getD 0) fun i _ j _ => by rw [rank, rank, before_int]
  simp only [rank] at sorted
  exact sorted

/-- The place of an arc in the lexicographic order, read off an arc as data. -/
def arcRank : Datum → Int ×ₗ Int
  | list [i, j] => toLex (i.whole?.getD 0, j.whole?.getD 0)
  | _ => toLex (0, 0)

theorem arcRank_datum (a : Arc) : arcRank a.datum = toLex a := by
  rw [Arc.datum, arcRank, whole?_int, whole?_int]
  rfl

theorem before_datum (a b : Arc) : a.datum.before b.datum = .ok (Arc.before a b) := by
  rw [Arc.datum, Arc.datum, before, Arc.before, itemsBefore, same_int]
  by_cases start : a.1 = b.1
  · rw [if_pos (beq_iff_eq.mpr start), itemsBefore, same_int]
    by_cases finish : a.2 = b.2
    · rw [if_pos (beq_iff_eq.mpr finish)]
      simp [itemsBefore, start, finish]
    · rw [if_neg (by simpa using finish), before_int]
      simp [start]
  · rw [if_neg (by simpa using start), before_int]
    simp [start]

theorem sorted_arcs (arcs : List Arc) : sorted (arcs.map Arc.datum) =
    .ok ((arcs.mergeSort fun a b => !Arc.before b a).map Arc.datum) := by
  have less : ∀ a b : Arc, decide (toLex a < toLex b) = Arc.before a b := by
    intro a b
    rw [Bool.eq_iff_iff, decide_eq_true_eq, Arc.before_iff]
  have atMost : ∀ a b : Arc, decide (toLex a ≤ toLex b) = !Arc.before b a := by
    intro a b
    rw [← less, ← decide_not]
    simp only [not_lt]
  have sorted : Sorting.sort before (arcs.map Arc.datum) = _ :=
    Sorting.sort_map Arc.datum arcRank fun a _ b _ => by
      rw [arcRank_datum, arcRank_datum, less, before_datum]
  simp only [arcRank_datum, atMost] at sorted
  exact sorted

theorem ints_cons (x : Int) (xs : List Int) : ints (x :: xs) = int x :: ints xs := rfl

theorem ints_append (xs ys : List Int) : ints (xs ++ ys) = ints xs ++ ints ys := List.map_append

theorem any_same_int (xs : List Int) (j : Int) :
    (ints xs).any (·.same (.int j)) = decide (j ∈ xs) := by
  rw [Bool.eq_iff_iff, List.any_eq_true, decide_eq_true_eq, ints]
  simp only [List.mem_map, exists_exists_and_eq_and, same_int, beq_iff_eq, exists_eq_right]

/-- The first of each value are different integers, and all of them. -/
theorem distinct_ints (xs : List Int) :
    ∃ ys, distinct (ints xs) = ints ys ∧ ys.Nodup ∧ ∀ j, j ∈ ys ↔ j ∈ xs := by
  have collected : ∀ kept : List Int, kept.Nodup → ∃ ys,
      (ints xs).foldl (fun kept d => if kept.any (same · d) then kept else kept ++ [d])
        (ints kept) = ints ys ∧ ys.Nodup ∧ ∀ j, j ∈ ys ↔ j ∈ kept ∨ j ∈ xs := by
    induction xs with
    | nil => exact fun kept distinct => ⟨kept, rfl, distinct, by simp⟩
    | cons x xs ih =>
      intro kept distinct
      rw [ints_cons, List.foldl_cons, any_same_int]
      by_cases known : x ∈ kept
      · rw [if_pos (by simpa using known)]
        obtain ⟨ys, found, nodup, members⟩ := ih kept distinct
        refine ⟨ys, found, nodup, fun j => ?_⟩
        rw [members, List.mem_cons]
        constructor
        · exact Or.imp_right .inr
        · rintro (old | rfl | later)
          · exact .inl old
          · exact .inl known
          · exact .inr later
      · rw [if_neg (by simpa using known)]
        have fresh : (kept ++ [x]).Nodup :=
          List.nodup_append_comm.mp (List.nodup_cons.mpr ⟨known, distinct⟩)
        obtain ⟨ys, found, nodup, members⟩ := ih (kept ++ [x]) fresh
        rw [ints_append] at found
        refine ⟨ys, found, nodup, fun j => ?_⟩
        rw [members, List.mem_append, List.mem_singleton, List.mem_cons, or_assoc]
  obtain ⟨ys, found, nodup, members⟩ := collected [] List.nodup_nil
  exact ⟨ys, found, nodup, by simpa using members⟩

end Datum

open Datum (ints)

namespace Drawing

theorem readNodes_ints (xs : List Int) :
    readNodes (.list (ints xs)) = .ok (ints (Ascending.ofList nodeBefore xs)) := by
  obtain ⟨ys, found, nodup, members⟩ := Datum.distinct_ints xs
  rw [readNodes, Datum.items, Success.ok_bind, Success.mapM_eq (g := id), List.map_id,
    Success.ok_bind, found, Datum.sorted_ints, mergeSort_eq_ofList nodup members]
  rw [ints, List.forall_mem_map]
  exact fun _ _ => rfl

theorem numbers_ints (xs : List Int) : numbers (ints xs) = xs := by
  rw [numbers, ints, List.filterMap_map]
  exact (List.filterMap_congr fun j _ => Datum.whole?_int j).trans List.filterMap_some

/-- The nodes of both lists are those of one of them that the other one has too. -/
theorem exists_shared {xs ys : List Int} (distinct : xs.Nodup) (distinct' : ys.Nodup) :
    ∃ both, shared (ints xs) (ints ys) = ints both ∧ both.Nodup ∧
      ∀ j, j ∈ both ↔ j ∈ xs ∧ j ∈ ys := by
  have known : ∀ nodes others : List Int,
      (ints nodes).filter (fun x => (ints others).any (·.same x)) =
        ints (nodes.filter fun j => j ∈ others) := by
    intro nodes others
    rw [show ints nodes = nodes.map .int from rfl, List.filter_map]
    refine congrArg _ (List.filter_congr fun j _ => ?_)
    exact Datum.any_same_int others j
  rw [shared, known, known]
  split
  · exact ⟨_, rfl, distinct.filter _, by simp⟩
  · exact ⟨_, rfl, distinct'.filter _, by simp [and_comm]⟩

/-- So many different nodes fill a span exactly if they are the nodes of it. -/
theorem fill_ints {first : Int} {length : Nat} {nodes : List Int} (distinct : nodes.Nodup) :
    fill first length (ints nodes) = true ↔
      Ascending.ofList nodeBefore nodes = span first length := by
  have fills : fill first length (ints nodes) = true ↔
      nodes.length = length ∧ ∀ j ∈ nodes, first ≤ j ∧ j < first + length := by
    rw [fill, Bool.and_eq_true, beq_iff_eq, ints, List.length_map, List.all_eq_true,
      List.forall_mem_map]
    simp only [Datum.whole?_int, Bool.and_eq_true, decide_eq_true_eq]
  have count : (Finset.Icc first (first + length - 1)).card = length := by
    rw [Int.card_Icc]
    omega
  have members : ∀ j, j ∈ Finset.Icc first (first + length - 1) ↔
      first ≤ j ∧ j < first + length := by
    intro j
    rw [Finset.mem_Icc]
    omega
  rw [fills, ofList_eq_sort, span_eq_sort, sort_inj, ← List.toFinset_card_of_nodup distinct]
  constructor
  · rintro ⟨full, inside⟩
    apply Finset.eq_of_subset_of_card_le
    · exact fun j member => (members j).mpr (inside j (List.mem_toFinset.mp member))
    · rw [count, full]
  · intro same
    refine ⟨same ▸ count, fun j member => (members j).mp ?_⟩
    rw [← same, List.mem_toFinset]
    exact member

theorem toArcs (arcs : List Arc) : (arcs.map Arc.datum).mapM Datum.toArc = .ok arcs := by
  rw [Success.mapM_iff, List.forall₂_map_left_iff, List.forall₂_same]
  exact fun _ _ => rfl

end Drawing

namespace Outline

/-- The first thing that is wrong with the nodes of an outline. -/
def nodeDefect? (o : Outline) : Option LayoutDefect :=
  if o.chance.filter o.decision.contains ≠ [] then
    some (.overlap (Datum.ints (o.chance.filter o.decision.contains)))
  else if Ascending.ofList nodeBefore (o.chance ++ o.decision) ≠ span 1 o.inner then
    some (.union o.inner (Datum.ints (Ascending.ofList nodeBefore (o.chance ++ o.decision))))
  else if o.value ≠ span (o.inner + 1) o.value.length then
    some (.values (o.inner + 1) o.total (Datum.ints o.value))
  else none

/-- Nodes are looked at before arcs, and arcs before state counts. -/
theorem defect?_eq (o : Outline) (length : Nat) : o.defect? length =
    (o.nodeDefect?.or (o.arcs.findSome? o.arcDefect?)).or
      (if length ≠ o.inner then some (.countsLength o.inner length) else none) := by
  rw [defect?, nodeDefect?]
  split
  · rfl
  · split
    · rfl
    · split
      · rfl
      · cases o.arcs.findSome? o.arcDefect? <;> rfl

end Outline

namespace Diagram

variable {chance decision value : List Int} {arcs : List Arc} {counts : List Datum}

theorem create_of_defect {defect : LayoutDefect}
    (found : (Outline.ofLists chance decision value arcs).defect? counts.length = some defect) :
    create chance decision value arcs counts = .error (.layout defect) := by
  have whole := parts_eq chance decision value arcs counts
  rw [parts, found] at whole
  cases made : create chance decision value arcs counts with
  | error fault =>
    rw [made] at whole
    cases whole
    rfl
  | ok d =>
    rw [made] at whole
    cases whole

end Diagram

namespace Drawing

theorem checkNodes_ints {o : Outline} (chance : o.chance.Pairwise fun i j => nodeBefore i j)
    (decision : o.decision.Pairwise fun i j => nodeBefore i j)
    (value : o.value.Pairwise fun i j => nodeBefore i j) :
    checkNodes (ints o.chance) (ints o.decision) (ints o.value) =
      o.nodeDefect?.elim (.ok ()) fun defect => .error (.layout defect) := by
  have chanceNodup := nodup_of_ascending chance
  have decisionNodup := nodup_of_ascending decision
  obtain ⟨both, found, nodup, members⟩ := exists_shared chanceNodup decisionNodup
  have same : ∀ j, j ∈ both ↔ j ∈ o.chance.filter o.decision.contains := by
    simpa only [List.mem_filter, List.contains_iff_mem] using members
  have sorted : (both.mergeSort fun i j => i ≤ j) = o.chance.filter o.decision.contains := by
    rw [mergeSort_eq_ofList nodup same, Ascending.ofList_eq nodeBefore_strict (chance.filter _)]
  have none : both = [] ↔ o.chance.filter o.decision.contains = [] := by
    simp only [List.eq_nil_iff_forall_not_mem, same]
  rw [checkNodes, found, Outline.nodeDefect?]
  by_cases overlap : o.chance.filter o.decision.contains = []
  case neg =>
    rw [if_pos (by simpa [ints] using mt none.mp overlap), Datum.sorted_ints, Success.ok_bind,
      sorted, if_pos overlap]
    rfl
  have innerNodup : (o.chance ++ o.decision).Nodup := by
    refine List.nodup_append.mpr ⟨chanceNodup, decisionNodup, fun i first j second equal => ?_⟩
    subst equal
    have shared := (members i).mpr ⟨first, second⟩
    rw [none.mpr overlap] at shared
    cases shared
  have inner : (ints o.chance).length + (ints o.decision).length = o.inner := by
    rw [ints, ints, List.length_map, List.length_map]
    rfl
  rw [none.mpr overlap, if_neg (by simp [ints]), if_neg (not_not_intro overlap), inner,
    ← Datum.ints_append]
  by_cases union : Ascending.ofList nodeBefore (o.chance ++ o.decision) = span 1 o.inner
  case neg =>
    have unfilled := mt (fill_ints innerNodup).mp union
    rw [if_pos (by simpa using unfilled), Datum.sorted_ints, Success.ok_bind,
      mergeSort_eq_ofList innerNodup fun _ => Iff.rfl, if_pos union]
    rfl
  have filled := (fill_ints innerNodup).mpr union
  rw [if_neg (by simpa using filled), if_neg (not_not_intro union)]
  have length : (ints o.value).length = o.value.length := List.length_map _
  have values : fill (o.inner + 1) o.value.length (ints o.value) = true ↔
      o.value = span (o.inner + 1) o.value.length := by
    rw [fill_ints (nodup_of_ascending value), Ascending.ofList_eq nodeBefore_strict value]
  rw [length]
  by_cases span : o.value = span (o.inner + 1) o.value.length
  case neg =>
    rw [if_pos (by simpa using mt values.mp span), if_pos span, Outline.total, Nat.cast_add]
    rfl
  rw [if_neg (by simpa using values.mpr span), if_neg (not_not_intro span)]
  rfl

/-- The drawing of a diagram with integers. -/
def plain (d : Diagram) : Drawing where
  diagram := d
  written := (d.chance ++ d.decision ++ d.value).map fun j => (j, .int j)

theorem written_ints (nodes : List Int) :
    (ints nodes).filterMap (fun node => node.whole?.map fun j => (j, node)) =
      nodes.map fun j => (j, .int j) := by
  rw [ints, List.filterMap_map, ← List.filterMap_eq_map]
  refine List.filterMap_congr fun j _ => ?_
  rw [Function.comp_apply, Datum.whole?_int]
  rfl

/-- The diagram that integers stand for as data is the diagram of these integers. -/
theorem create_ints (chance decision value : List Int) (arcs : List Arc) (counts : List Datum) :
    create (.list (ints chance)) (.list (ints decision)) (.list (ints value))
        (.list (arcs.map Arc.datum)) (.list counts) =
      (Diagram.create chance decision value arcs counts).map plain := by
  have members : ∀ (nodes : List Int) (j : Int),
      j ∈ Ascending.ofList nodeBefore nodes ↔ j ∈ nodes :=
    fun _ _ => Ascending.mem_ofList nodeBefore_strict
  have again : ∀ nodes : List Int, Ascending.ofList nodeBefore (Ascending.ofList nodeBefore nodes) =
      Ascending.ofList nodeBefore nodes :=
    fun nodes => Ascending.ofList_congr nodeBefore_strict (members nodes)
  generalize made : Outline.ofLists chance decision value arcs = o
  have outline : Outline.ofLists (Ascending.ofList nodeBefore chance)
      (Ascending.ofList nodeBefore decision) (Ascending.ofList nodeBefore value) arcs = o := by
    rw [← made]
    simp only [Outline.ofLists, again]
  have checked : checkNodes (ints (Ascending.ofList nodeBefore chance))
      (ints (Ascending.ofList nodeBefore decision)) (ints (Ascending.ofList nodeBefore value)) =
        o.nodeDefect?.elim (.ok ()) fun defect => .error (.layout defect) := by
    rw [← made]
    exact checkNodes_ints (o := Outline.ofLists chance decision value arcs)
      (Ascending.pairwise_ofList nodeBefore_strict _)
      (Ascending.pairwise_ofList nodeBefore_strict _)
      (Ascending.pairwise_ofList nodeBefore_strict _)
  have defects := o.defect?_eq counts.length
  rw [create, readNodes_ints, readNodes_ints, readNodes_ints, Success.ok_bind, Success.ok_bind,
    Success.ok_bind, Datum.items, Success.ok_bind, toArcs, Success.ok_bind, checked]
  simp only [numbers_ints, outline]
  cases nodes : o.nodeDefect? with
  | some defect =>
    rw [nodes, Option.some_or, Option.some_or] at defects
    rw [Diagram.create_of_defect (made ▸ defects)]
    rfl
  | none =>
    rw [nodes, Option.none_or] at defects
    rw [Option.elim_none, Success.ok_bind]
    cases arcDefects : o.arcs.findSome? o.arcDefect? with
    | some defect =>
      rw [arcDefects, Option.some_or] at defects
      rw [Diagram.create_of_defect (made ▸ defects)]
      rfl
    | none =>
      dsimp only
      rw [Datum.items, Success.ok_bind, Diagram.create_congr (members chance) (members decision)
        (members value) (fun a => (Iff.rfl : a ∈ arcs ↔ a ∈ arcs))]
      cases success : Diagram.create chance decision value arcs counts with
      | error fault => rfl
      | ok d =>
        have parts := Diagram.outline_of_create success
        rw [Success.ok_bind, ← Datum.ints_append, ← Datum.ints_append, written_ints, Except.map,
          plain, parts]
        rfl

end Drawing

/-- Information sets as data. -/
def Datum.sets (sets : List (Int × List Int)) : Keyed Key Datum :=
  sets.map fun e => (⟨.int e.1⟩, .list (ints e.2))

/-- The arcs into one node as data. -/
def arcsInto (set : Key × Datum) : Except Fault (List Datum) := do
  return (← set.2.items).map fun i => .list [i, set.1.datum]

theorem drawnArcs_eq (sets : Keyed Key Datum) :
    drawnArcs sets = (do Datum.sorted (← sets.mapM arcsInto).flatten) := rfl

/-- The arcs of information sets that are data are the arcs of these sets. -/
theorem drawnArcs_sets (sets : List (Int × List Int)) :
    drawnArcs (Datum.sets sets) = .ok ((arcsOfInformationSets sets).map Arc.datum) := by
  have groups : (Datum.sets sets).mapM arcsInto =
      .ok (sets.map fun e => (e.2.map fun i => (i, e.1)).map Arc.datum) := by
    rw [Datum.sets, Success.mapM_iff, List.forall₂_map_left_iff, List.forall₂_map_right_iff,
      List.forall₂_same]
    intro e _
    rw [arcsInto, Datum.items, Success.ok_bind, ints, List.map_map, List.map_map]
    rfl
  have flat : (sets.map fun e => (e.2.map fun i => (i, e.1)).map Arc.datum).flatten =
      (sets.flatMap fun e => e.2.map fun i => (i, e.1)).map Arc.datum := by
    rw [List.map_flatMap, List.flatMap_def]
  rw [drawnArcs_eq, groups, Success.ok_bind, flat, Datum.sorted_arcs]
  rfl

end InfluenceProgram
