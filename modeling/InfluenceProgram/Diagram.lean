import InfluenceProgram.Ascending
import InfluenceProgram.Datum.Conversion
import InfluenceProgram.Path

/-!
Influence diagrams. Nodes are layered: chance and decision nodes together are `1, …, n`, value
nodes follow, and arcs lead from a lower chance or decision node to a higher node, so no directed
path returns to its start. A `Diagram` exists only for a layout that passed every check.
-/

namespace InfluenceProgram

abbrev Arc := Int × Int

def nodeBefore (a b : Int) : Bool := a < b

theorem nodeBefore_strict : Ascending.Strict nodeBefore where
  irrefl a := by simp [nodeBefore]
  trans hab hbc := by simp only [nodeBefore, decide_eq_true_eq] at *; omega
  eq_of_neither hab hba := by simp only [nodeBefore, decide_eq_false_iff_not] at *; omega

/-- Arcs are ordered by their start, then by their end. -/
def Arc.before (a b : Arc) : Bool := a.1 < b.1 || (a.1 == b.1 && a.2 < b.2)

theorem Arc.before_strict : Ascending.Strict Arc.before where
  irrefl a := by simp [Arc.before]
  trans hab hbc := by
    simp only [Arc.before, Bool.or_eq_true, Bool.and_eq_true, decide_eq_true_eq, beq_iff_eq] at *
    omega
  eq_of_neither hab hba := by
    simp only [Arc.before, Bool.or_eq_false_iff, Bool.and_eq_false_iff, decide_eq_false_iff_not,
      beq_eq_false_iff_ne] at *
    exact Prod.ext (by omega) (by omega)

/-- The nodes `first, first + 1, …`, so many of them. -/
def span (first : Int) (length : Nat) : List Int :=
  (List.range length).map fun k => first + Int.ofNat k

theorem mem_span {first : Int} {length : Nat} {j : Int} :
    j ∈ span first length ↔ first ≤ j ∧ j < first + length := by
  simp only [span, List.mem_map, List.mem_range]
  constructor
  · rintro ⟨k, hk, rfl⟩
    simp only [Int.ofNat_eq_natCast]
    omega
  · intro h
    refine ⟨(j - first).toNat, by omega, ?_⟩
    simp only [Int.ofNat_eq_natCast]
    omega

/-- The nodes and arcs of a diagram, each list ascending and without repetition. -/
structure Outline where
  chance : List Int
  decision : List Int
  value : List Int
  arcs : List Arc
deriving DecidableEq, Repr

namespace Outline

/-- The outline of lists in any order and with any repetition. -/
def ofLists (chance decision value : List Int) (arcs : List Arc) : Outline where
  chance := Ascending.ofList nodeBefore chance
  decision := Ascending.ofList nodeBefore decision
  value := Ascending.ofList nodeBefore value
  arcs := Ascending.ofList Arc.before arcs

def inner (o : Outline) : Nat := o.chance.length + o.decision.length

def total (o : Outline) : Nat := o.inner + o.value.length

def arcDefect? (o : Outline) (arc : Arc) : Option LayoutDefect :=
  if ¬(1 ≤ arc.1 ∧ arc.1 < arc.2 ∧ arc.2 ≤ o.total) then some (.arcRange arc o.total)
  else if o.inner < arc.1 then some (.arcFromValue arc)
  else none

/--
The first thing that keeps an outline from being layered, given how many state counts come with
it: shared nodes, the span of the inner nodes, the span of the value nodes, the arcs in order,
the number of state counts.
-/
def defect? (o : Outline) (countsLength : Nat) : Option LayoutDefect :=
  let shared := o.chance.filter o.decision.contains
  let union := Ascending.ofList nodeBefore (o.chance ++ o.decision)
  if shared ≠ [] then some (.overlap (shared.map .int))
  else if union ≠ span 1 o.inner then some (.union o.inner (union.map .int))
  else if o.value ≠ span (o.inner + 1) o.value.length then
    some (.values (o.inner + 1) o.total (o.value.map .int))
  else
    match o.arcs.findSome? o.arcDefect? with
    | some defect => some defect
    | none => if countsLength ≠ o.inner then some (.countsLength o.inner countsLength) else none

/-- Chance and decision nodes fill `1, …, n`, value nodes follow, arcs ascend from inner nodes. -/
structure Layered (o : Outline) : Prop where
  chance_ascending : o.chance.Pairwise fun i j => nodeBefore i j
  decision_ascending : o.decision.Pairwise fun i j => nodeBefore i j
  arcs_ascending : o.arcs.Pairwise fun a b => Arc.before a b
  disjoint : ∀ j ∈ o.chance, j ∉ o.decision
  inner_iff : ∀ j, j ∈ o.chance ∨ j ∈ o.decision ↔ 1 ≤ j ∧ j ≤ o.inner
  value_eq : o.value = span (o.inner + 1) o.value.length
  arc_bounds : ∀ a ∈ o.arcs, 1 ≤ a.1 ∧ a.1 < a.2 ∧ a.2 ≤ o.total ∧ a.1 ≤ o.inner

theorem arc_bounds_of_defect {o : Outline} {a : Arc} (fine : o.arcDefect? a = none) :
    1 ≤ a.1 ∧ a.1 < a.2 ∧ a.2 ≤ o.total ∧ a.1 ≤ o.inner := by
  simp only [arcDefect?] at fine
  split at fine
  · simp at fine
  · split at fine
    · simp at fine
    · omega

/-- An outline without defect that was made from lists is layered, and its counts fit. -/
theorem layered_of_defect {chance decision value : List Int} {arcs : List Arc} {length : Nat}
    (fine : (ofLists chance decision value arcs).defect? length = none) :
    (ofLists chance decision value arcs).Layered ∧
      length = (ofLists chance decision value arcs).inner := by
  generalize ho : ofLists chance decision value arcs = o at fine
  simp only [defect?] at fine
  split at fine
  · simp at fine
  split at fine
  · simp at fine
  split at fine
  · simp at fine
  split at fine
  · simp at fine
  next shared union values _ arcsFine =>
  split at fine
  · simp at fine
  next counts =>
  refine ⟨⟨?_, ?_, ?_, ?_, ?_, ?_, ?_⟩, ?_⟩
  · subst ho
    exact Ascending.pairwise_ofList nodeBefore_strict _
  · subst ho
    exact Ascending.pairwise_ofList nodeBefore_strict _
  · subst ho
    exact Ascending.pairwise_ofList Arc.before_strict _
  · simp only [ne_eq, Decidable.not_not, List.filter_eq_nil_iff] at shared
    intro j hj hd
    exact shared j hj (List.contains_iff_mem.2 hd)
  · intro j
    simp only [ne_eq, Decidable.not_not] at union
    rw [← List.mem_append, ← Ascending.mem_ofList nodeBefore_strict, union, mem_span]
    omega
  · simpa using values
  · intro a ha
    exact arc_bounds_of_defect (List.findSome?_eq_none_iff.1 arcsFine a ha)
  · simpa using counts

end Outline

/-- The state counts from node `j` on; each has to be a positive integer. -/
def readCounts (j : Int) : List Datum → Except LayoutDefect (List Int)
  | [] => .ok []
  | .int c :: rest =>
    if c < 1 then .error (.countLow j c)
    else (readCounts (j + 1) rest).map (c :: ·)
  | d :: _ => .error (.countKind j d.shown)

theorem readCounts_fine {j : Int} {data : List Datum} {counts : List Int}
    (h : readCounts j data = .ok counts) : counts.length = data.length ∧ ∀ c ∈ counts, 1 ≤ c := by
  induction data generalizing j counts with
  | nil =>
    cases h
    simp
  | cons d rest ih =>
    cases d with
    | int c =>
      simp only [readCounts] at h
      split at h
      · cases h
      next high =>
      cases hr : readCounts (j + 1) rest with
      | error e =>
        rw [hr] at h
        cases h
      | ok tail =>
        rw [hr] at h
        cases h
        obtain ⟨hl, hp⟩ := ih hr
        refine ⟨by simp [hl], fun x hx => ?_⟩
        rcases List.mem_cons.1 hx with rfl | hx
        · omega
        · exact hp x hx
    | _ => simp [readCounts] at h

structure Diagram extends Outline where
  /-- The number of states of each chance and decision node, in node order. -/
  counts : List Int
  layered : toOutline.Layered
  counts_length : counts.length = toOutline.inner
  counts_pos : ∀ c ∈ counts, 1 ≤ c
deriving DecidableEq

namespace Diagram

/-- The diagram of the given lists, or the first defect that keeps it from being one. -/
def create (chance decision value : List Int) (arcs : List Arc) (counts : List Datum) :
    Except Fault Diagram :=
  let o := Outline.ofLists chance decision value arcs
  match h : o.defect? counts.length with
  | some defect => .error (.layout defect)
  | none =>
    match hc : readCounts 1 counts with
    | .error defect => .error (.layout defect)
    | .ok counts =>
      .ok { o with
        counts
        layered := (Outline.layered_of_defect h).1
        counts_length := (readCounts_fine hc).1.trans (Outline.layered_of_defect h).2
        counts_pos := (readCounts_fine hc).2 }

/-- A diagram made anew from the lists of another. -/
def revalidate (d : Diagram) : Except Fault Diagram :=
  create d.chance d.decision d.value d.arcs (d.counts.map .int)

/-- The nodes that arcs lead from into a node, ascending. -/
def informationSet (d : Diagram) (j : Int) : List Int :=
  (d.arcs.filter (·.2 == j)).map (·.1)

def informationSet? (d : Diagram) (j : Int) : Except Fault (List Int) :=
  if 1 ≤ j ∧ j ≤ d.total then .ok (d.informationSet j) else .error (.missingKey (.int j))

def countsAt (d : Diagram) (nodes : List Int) : Except Fault (List Int) :=
  Path.restrict d.counts nodes

def isChance (d : Diagram) (j : Int) : Bool := d.chance.contains j

def isDecision (d : Diagram) (j : Int) : Bool := d.decision.contains j

/-- Every node past the inner ones counts as a value node. -/
def isValue (d : Diagram) (j : Int) : Bool := d.inner < j

def innerNodes (d : Diagram) : List Int := span 1 d.inner

def nodes (d : Diagram) : List Int := span 1 d.total

def informationSets (d : Diagram) : List (Int × List Int) :=
  d.nodes.map fun j => (j, d.informationSet j)

def family (d : Diagram) (j : Int) : List Int := d.informationSet j ++ [j]

/-- How a diagram is shown, given how its nodes are. -/
def textWith (d : Diagram) (nodes : List Int → String) : String :=
  "InfluenceDiagram(C=" ++ nodes d.chance ++ ", D=" ++ nodes d.decision ++ ", V=" ++
    nodes d.value ++ ", A=" ++ Text.bracketed (d.arcs.map Text.arcText) ++ ", S_j=" ++
    Text.listText d.counts ++ ")"

def text (d : Diagram) : String := d.textWith Text.listText

end Diagram

/-- The arcs that information sets stand for, in order. -/
def arcsOfInformationSets (sets : List (Int × List Int)) : List Arc :=
  (sets.flatMap fun (j, parents) => parents.map fun i => (i, j)).mergeSort fun a b =>
    !Arc.before b a

end InfluenceProgram
