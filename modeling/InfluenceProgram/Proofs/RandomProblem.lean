import InfluenceProgram.Proofs.RandomDiagram
import InfluenceProgram.Proofs.RandomTables

/-!
Random problems. State counts are some of the choices, so they are positive and make a diagram of
the outline; the tables that are drawn for its nodes pass their checks. What is asked for with data
is drawn in the same way as long as its table can be held.
-/

set_option autoImplicit false

namespace InfluenceProgram

namespace Diagram.ExactTable

variable {d : Diagram} {j zeros : Int} {t : Tensor Rat}

theorem nearly_total (exact : d.ExactTable j zeros t) :
    ∀ c ∈ d.contexts j, |t.total d j c - 1| ≤ probabilityTolerance := by
  intro c context
  rw [exact.total c context, Problem.probabilityTolerance_eq]
  norm_num

/-- Exact probabilities pass the check of a table. -/
theorem checked (exact : d.ExactTable j zeros t) (low : 1 ≤ j) (high : j ≤ d.inner) :
    checkProbabilities d j t = .ok () :=
  (checkProbabilities_iff low high t).mpr ⟨exact.shape, exact.nonneg, exact.nearly_total⟩

end Diagram.ExactTable

/-- Exact tables of the chance nodes and tables of the value nodes are accepted as they are. -/
theorem Problem.create_given {p : Problem Rat} (keys : p.probabilities.keys = p.diagram.chance)
    (exact : ∀ j t, (j, t) ∈ p.probabilities → p.diagram.ExactTable j 0 t) (valued : p.Valued) :
    create p.diagram (given p.probabilities) (given p.utilities) = .ok p := by
  have weighed : p.Weighed := ⟨keys, fun j t table => (exact j t table).shape,
    fun j t table => (exact j t table).nonneg, fun j t table => (exact j t table).nearly_total⟩
  rw [create, weighed.validate_given, Success.ok_bind, valued.validate_given]
  rfl

namespace Random

open Experiment

section Draws

variable {α : Type} {real : α → Prop}

/-- Every list of so many of the items can be drawn, and no other. -/
theorem drawItems_spans {β : Type} {fallback : β} {items : List β} (some : items ≠ [])
    (count : Nat) : Spans real (drawItems fallback items count) fun drawn =>
      drawn.length = count ∧ ∀ x ∈ drawn, x ∈ items := by
  have length := List.length_pos_of_ne_nil some
  have each : ∀ i ∈ List.range count, Spans real (do
      let k ← drawInteger 0 items.length
      return items.getD k.toNat fallback) (· ∈ items) := by
    intro _ _
    refine ((drawInteger_spans (by omega)).map _).congr fun x => ?_
    rw [List.mem_iff_getElem]
    constructor
    · rintro ⟨k, ⟨low, high⟩, rfl⟩
      exact ⟨k.toNat, by omega, (List.getD_eq_getElem _ _ (by omega)).symm⟩
    · rintro ⟨k, inside, rfl⟩
      exact ⟨k, ⟨by omega, by omega⟩, (List.getD_eq_getElem _ _ inside).symm⟩
  refine (Spans.mapM each).congr fun drawn => ?_
  have same : List.Forall₂ (fun _ x => x ∈ items) (List.range count) drawn ↔
      List.Forall₂ (fun x _ => x ∈ items ∧ True) drawn (List.range count) := by
    simp only [and_true]
    exact ⟨fun paired => paired.flip, fun paired => paired.flip⟩
  rw [same, List.forall₂_and_left, and_comm, List.forall₂_iff_get]
  simp

theorem states_spans {choices : List Int} {nodes : Int} (some : choices ≠ [])
    (positive : ∀ c ∈ choices, 1 ≤ c) :
    Spans real (states choices nodes) fun counts =>
      counts.length = nodes.toNat ∧ ∀ c ∈ counts, c ∈ choices := by
  have fine : (!choices.isEmpty && choices.all fun c => 1 ≤ c) = true := by
    simpa [some] using positive
  rw [states, require_of fine, done_bind]
  exact drawItems_spans some _

theorem states_ensures {choices : List Int} {nodes : Int} (some : choices ≠ [])
    (positive : ∀ c ∈ choices, 1 ≤ c) :
    Ensures real (states choices nodes) fun counts =>
      counts.length = nodes.toNat ∧ ∀ c ∈ counts, 1 ≤ c := by
  obtain ⟨c, choice⟩ := List.exists_mem_of_ne_nil choices some
  refine (states_spans some positive).ensures
    ⟨List.replicate nodes.toNat c, List.length_replicate, fun x member => ?_⟩
    fun counts fine => ⟨fine.1, fun x member => positive x (fine.2 x member)⟩
  rw [(List.mem_replicate.mp member).2]
  exact choice

/-- What is drawn for some nodes one by one are tables under these nodes. -/
theorem drawTables_ensures {nodes : List Int} {draw : Int → Experiment α (Tensor Rat)}
    {fine : Int → Tensor Rat → Prop} (each : ∀ j ∈ nodes, Ensures real (draw j) (fine j)) :
    Ensures real (nodes.mapM fun j => do return (j, Supplied.table (← draw j))) fun X =>
      ∃ tables : Keyed Int (Tensor Rat), X = Problem.given tables ∧ tables.keys = nodes ∧
        ∀ j t, (j, t) ∈ tables → fine j t := by
  induction nodes with
  | nil =>
      rw [List.mapM_nil]
      exact .pure ⟨[], rfl, rfl, fun _ _ member => absurd member List.not_mem_nil⟩
  | cons j nodes ih =>
      obtain ⟨first, rest⟩ := List.forall_mem_cons.mp each
      rw [List.mapM_cons, bind_assoc]
      refine first.bind fun t head => ?_
      rw [pure_bind]
      refine (ih rest).bind fun X ⟨tables, given, keys, tail⟩ => .pure ?_
      refine ⟨(j, t) :: tables, congrArg _ given, congrArg _ keys, fun i t' member => ?_⟩
      rcases List.mem_cons.mp member with same | later
      · cases same
        exact head
      · exact tail i t' later

end Draws

section Utilities

/-- Shares of a width on top of a lowest value are drawn for a value node, provided that the bounds
of its utilities are in order. -/
def drawSpread {α : Type} [Scalar α] (ordered : Bool) (d : Diagram) (v : Int) (low width : α) :
    Experiment α (Tensor α) := do
  require ordered .utilityRange
  let shares ← drawUniforms (Path.number (Path.select d.counts (d.informationSet v)))
  return spread (Path.select d.counts (d.informationSet v)) low width shares

variable {d : Diagram} {v : Int}

theorem informationSet?_of_value (value : v ∈ d.value) :
    d.informationSet? v = .ok (d.informationSet v) := by
  rw [d.layered.value_eq, mem_span] at value
  apply Diagram.informationSet?_eq
  · omega
  · rw [Outline.total]
    omega

theorem utilities_eq {α : Type} [Scalar α] (value : v ∈ d.value) (low high : α) :
    utilities d v low high = drawSpread (low < high) d v low (high - low) := by
  have contexts : (d.informationSet? v >>= d.countsAt) =
      .ok (Path.select d.counts (d.informationSet v)) := by
    rw [informationSet?_of_value value, Success.ok_bind]
    exact d.contextCounts_eq v
  rw [utilities, contexts]
  rfl

theorem utilities_ensures {real : Rat → Prop} (some : ∃ x, real x) (value : v ∈ d.value)
    {low high : Rat} (order : low < high) :
    Ensures real (utilities d v low high) fun t => t.shape = d.axes (d.informationSet v) := by
  rw [utilities_eq value, drawSpread, require_of (decide_eq_true order), done_bind]
  exact (drawUniforms_ensures some _).bind fun _ _ => .pure rfl

end Utilities

section Problem

variable {chance decision value limit : Int} {choices : List Int} {low high : Rat}

/-- With any positive state counts, the outline of a draft that fits makes a diagram. -/
theorem Draft.Fits.exists_created {x : Draft} {inner values chance : Nat} {counts : List Int}
    (fits : x.Fits inner values limit) (most : chance ≤ inner) (length : counts.length = inner)
    (positive : ∀ c ∈ counts, 1 ≤ c) : ∃ d : Diagram,
      d.toOutline = x.outline inner values chance ∧ d.counts = counts ∧
      Diagram.create d.chance d.decision d.value d.arcs (counts.map .int) = .ok d := by
  obtain ⟨d, same, rfl⟩ := fits.exists_diagram most length positive
  exact ⟨d, same, rfl, d.revalidate_eq⟩

/-- A random problem has exact tables, so it passes its own validation unchanged. -/
theorem problem_ensures (admissible : Admissible chance decision value limit)
    (some : choices ≠ []) (positive : ∀ c ∈ choices, 1 ≤ c) (order : low < high) :
    Ensures (fun x : Rat => 0 < x) (problem chance decision value limit choices low high) fun p =>
      p.diagram.revalidate = .ok p.diagram ∧
        Problem.create p.diagram (Problem.given p.probabilities) (Problem.given p.utilities) =
          .ok p := by
  have values : 1 ≤ value.toNat := by
    have := admissible.value_pos
    omega
  have plain : (Draft.plain (chance + decision).toNat).Fits _ value.toNat limit :=
    Draft.plain_fits values (zero_le_one.trans admissible.limit_pos)
  have outlines : Ensures (fun x : Rat => 0 < x) (outline chance decision value limit) _ :=
    admissible.outline_spans.ensures ⟨_, _, plain, rfl⟩ fun _ => id
  rw [problem, assemble]
  refine outlines.bind ?_
  rintro _ ⟨x, fits, rfl⟩
  refine (states_ensures some positive).bind fun counts ⟨length, fine⟩ => ?_
  have most : chance.toNat ≤ (chance + decision).toNat := by
    have := admissible.decision_nonneg
    omega
  obtain ⟨d, same, _, made⟩ := fits.exists_created most length fine
  rw [← same, made, ofExcept_ok, done_bind]
  have odds : ∀ j ∈ d.chance, Ensures (fun x : Rat => 0 < x) (probabilities d j 0)
      (d.ExactTable j 0) := by
    intro j chance
    have range := d.inner_of_chance chance
    have states := d.count_pos range.1 range.2
    refine probabilities_ensures range.1 range.2 (Diagram.canLose_iff.mpr ⟨le_rfl, ?_⟩)
    exact mul_nonneg (Int.natCast_nonneg _) (by omega)
  have gains : ∀ v ∈ d.value, Ensures (fun x : Rat => 0 < x) (utilities d v low high) _ :=
    fun v value => utilities_ensures ⟨1, zero_lt_one⟩ value order
  refine (drawTables_ensures odds).bind fun X ⟨tables, given, keys, exact⟩ => ?_
  refine (drawTables_ensures gains).bind fun Y ⟨tables', given', keys', shaped⟩ => ?_
  have accepted := @Problem.create_given ⟨d, tables, tables'⟩ keys exact ⟨keys', shaped⟩
  rw [given, given', accepted]
  exact .pure ⟨d.revalidate_eq, accepted⟩

end Problem

end Random

end InfluenceProgram
