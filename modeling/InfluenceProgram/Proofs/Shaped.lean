import InfluenceProgram.Proofs.Emitted

/-!
Problems over any scalars, as far as their numbers do not matter. A table that was checked has the
axes of its node, so every path has a probability and a utility, and the decision model is built.
-/

set_option autoImplicit false

namespace InfluenceProgram.Problem

variable {α : Type} [Scalar α]

/-- The tables of a problem belong to its nodes and have their axes. -/
structure Shaped (p : Problem α) : Prop where
  chance : ∀ j t, (j, t) ∈ p.probabilities → j ∈ p.diagram.chance
  probabilities : ∀ j t, (j, t) ∈ p.probabilities → t.shape = p.diagram.axes (p.diagram.family j)
  utilities : ∀ v t, (v, t) ∈ p.utilities → t.shape = p.diagram.axes (p.diagram.informationSet v)

theorem shape_of_checkProbabilities {d : Diagram} {j : Int} (low : 1 ≤ j) (high : j ≤ d.inner)
    {t : Tensor α} (fine : checkProbabilities d j t = .ok ()) : t.shape = d.axes (d.family j) := by
  simp only [checkProbabilities, d.contextCounts_eq, d.countOf_eq low high, Success.ok_bind,
    ← d.axes_family] at fine
  split at fine
  · cases fine
  · rename_i same
    exact not_not.mp same

theorem shape_of_checkUtilities {d : Diagram} {v : Int} {t : Tensor α}
    (fine : checkUtilities d v t = .ok ()) : t.shape = d.axes (d.informationSet v) := by
  simp only [checkUtilities, d.contextCounts_eq, Success.ok_bind] at fine
  split at fine
  · cases fine
  · rename_i same
    exact not_not.mp same

variable {d : Diagram} {X Y : Keyed Int (Supplied α)} {p : Problem α}

theorem diagram_of_create (created : Problem.create d X Y = .ok p) : p.diagram = d := by
  obtain ⟨probabilities, _, rest⟩ := Success.bind_iff.mp created
  obtain ⟨utilities, _, same⟩ := Success.bind_iff.mp rest
  cases Except.ok.inj same
  rfl

theorem shaped_of_create (created : Problem.create d X Y = .ok p) : p.Shaped := by
  obtain ⟨probabilities, weighed, rest⟩ := Success.bind_iff.mp created
  obtain ⟨utilities, valued, same⟩ := Success.bind_iff.mp rest
  cases Except.ok.inj same
  obtain ⟨keys, chance⟩ := probabilities_checked weighed
  obtain ⟨_, value⟩ := utilities_checked valued
  have own : ∀ j t, (j, t) ∈ probabilities → j ∈ d.chance :=
    fun _ _ member => keys ▸ Keyed.mem_keys member
  refine ⟨own, fun j t member => ?_, fun v t member => shape_of_checkUtilities (value v t member)⟩
  have inner := d.inner_of_chance (own j t member)
  exact shape_of_checkProbabilities inner.1 inner.2 (chance j t member)

/-- A factor whose axes are those of its nodes has an entry at every path. -/
theorem Factor.exists_read {t : Tensor α} {nodes : List Int} (shape : t.shape = d.axes nodes)
    (covered : Path.Covers d.counts nodes) {s : Path}
    (member : s ∈ InfluenceProgram.paths d.counts) : ∃ x, Factor.read ⟨t, nodes⟩ s = .ok x := by
  have reached := covered.of_length (length_of_mem_paths member)
  rw [Factor.read, Path.restrict_eq reached, Success.ok_bind]
  exact ⟨_, (Tensor.get_of_path shape (Path.select_mem_paths member covered)).1⟩

theorem Shaped.exists_probability (shaped : p.Shaped) {s : Path} (member : s ∈ p.paths) :
    ∃ x, p.probability s = .ok x := by
  refine Success.exists_foldlM (fun product f factor => ?_) 1
  obtain ⟨⟨j, t⟩, table, rfl⟩ := List.mem_map.mp factor
  have inner := p.diagram.inner_of_chance (shaped.chance j t table)
  have covered := p.diagram.covers_family inner.1 (s := p.diagram.counts)
    (by rw [p.diagram.counts_length]; exact inner.2)
  obtain ⟨x, read⟩ := Factor.exists_read (shaped.probabilities j t table) covered member
  exact ⟨product * x, Success.bind_iff.mpr ⟨x, read, rfl⟩⟩

theorem Shaped.exists_utility (shaped : p.Shaped) (least : α) {s : Path} (member : s ∈ p.paths) :
    ∃ x, p.utility least s = .ok x := by
  obtain ⟨gains, read⟩ : ∃ gains, (p.valueFactors.mapM fun f => do return (← f.read s) - least) =
      (.ok gains : Except Fault _) := by
    refine Success.exists_mapM fun f factor => ?_
    obtain ⟨⟨v, t⟩, table, rfl⟩ := List.mem_map.mp factor
    have covered := p.diagram.covers_informationSet_of_full p.diagram.counts_length v
    obtain ⟨x, read⟩ := Factor.exists_read (shaped.utilities v t table) covered member
    exact ⟨x - least, Success.bind_iff.mpr ⟨x, read, rfl⟩⟩
  rw [utility, utility?, utilityBy?, sumBy?, read]
  exact ⟨_, rfl⟩

/-- The decision model of a problem is built, with the rows of its diagram. -/
theorem exists_buildBy (created : Problem.create d X Y = .ok p) (node : Int → String)
    (specs : Specs) (name : String) : p.diagram = d ∧ ∃ weight gain,
      Formulation.buildBy node specs p name = .ok (p.emittedWith weight gain node specs name) := by
  have shaped := shaped_of_create created
  choose weight weights using fun s (member : s ∈ p.paths) => shaped.exists_probability member
  choose gain gains using fun s (member : s ∈ p.paths) =>
    shaped.exists_utility p.leastUtility member
  refine ⟨diagram_of_create created, fun s => if member : s ∈ p.paths then weight s member else 0,
    fun s => if member : s ∈ p.paths then gain s member else 0,
    buildBy_of_paths (fun s member => ?_) (fun s member => ?_) node specs name⟩
  · rw [dif_pos member, weights s member]
  · rw [dif_pos member, gains s member]

end InfluenceProgram.Problem
