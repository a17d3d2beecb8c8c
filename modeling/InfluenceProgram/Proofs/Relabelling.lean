import InfluenceProgram.Proofs.Axes

/-!
Other labels for the nodes of a diagram. A relabelling permutes the chance and decision nodes and
keeps arcs between them ascending. The relabelled diagram has the renamed nodes and arcs, so the
information set of a renamed node has the renamed nodes in it, but in the order of their new labels,
and a context is taken back to the old labels by looking each of its states up.
-/

set_option autoImplicit false

namespace InfluenceProgram

namespace Path

/-- The path over so many nodes that has at each of them the state of its old node. -/
def rename (length : Nat) (old : Int → Int) (s : Path) : Path :=
  (span 1 length).map fun k => s.stateAt (old k)

variable {length : Nat} {old new : Int → Int} {s t : Path}

theorem length_rename (length : Nat) (old : Int → Int) (s : Path) :
    (rename length old s).length = length := by
  rw [rename, List.length_map, length_span]

theorem stateAt_rename {k : Int} (low : 1 ≤ k) (high : k ≤ length) :
    (rename length old s).stateAt k = s.stateAt (old k) :=
  stateAt_map_span low high

/-- Renaming back gives the path again. -/
theorem rename_rename (size : s.length = length)
    (inside : ∀ k : Int, 1 ≤ k → k ≤ length → 1 ≤ old k ∧ old k ≤ length)
    (back : ∀ k, new (old k) = k) : rename length old (rename length new s) = s := by
  refine ext (length_rename _ _ _) size fun k low high => ?_
  rw [stateAt_rename low high, stateAt_rename (inside k low high).1 (inside k low high).2, back]

/-- A renamed path is one over the renamed state counts. -/
theorem rename_mem_paths {counts : List Int} (member : s ∈ paths counts)
    (size : counts.length = length)
    (inside : ∀ k : Int, 1 ≤ k → k ≤ length → 1 ≤ old k ∧ old k ≤ length) :
    rename length old s ∈ paths (rename length old counts) := by
  rw [mem_paths, rename, rename, List.forall₂_map_left_iff, List.forall₂_map_right_iff,
    List.forall₂_same]
  intro k node
  rw [mem_span] at node
  have range := inside k (by omega) (by omega)
  exact stateAt_range member range.1 (by omega)

end Path

namespace Diagram

/-- A permutation of the chance and decision nodes that keeps arcs between them ascending. -/
structure Relabelling (d : Diagram) where
  label : Equiv.Perm Int
  fixes : ∀ j : Int, ¬(1 ≤ j ∧ j ≤ d.inner) → label j = j
  ascending : ∀ a ∈ d.arcs, a.2 ≤ d.inner → label a.1 < label a.2

namespace Relabelling

variable {d : Diagram} (ρ : d.Relabelling)

theorem inner_iff (j : Int) : 1 ≤ ρ.label j ∧ ρ.label j ≤ d.inner ↔ 1 ≤ j ∧ j ≤ d.inner := by
  constructor
  · intro image
    by_contra outside
    rw [ρ.fixes j outside] at image
    exact outside image
  · intro inner
    by_contra outside
    -- A node that goes outside would go where something stays.
    have same := ρ.label.injective (ρ.fixes _ outside)
    rw [same] at outside
    exact outside inner

theorem inner_symm_iff (k : Int) :
    1 ≤ ρ.label.symm k ∧ ρ.label.symm k ≤ d.inner ↔ 1 ≤ k ∧ k ≤ d.inner := by
  rw [← ρ.inner_iff, Equiv.apply_symm_apply]

theorem value_eq {v : Int} (value : v ∈ d.value) : ρ.label v = v := by
  rw [d.layered.value_eq, mem_span] at value
  exact ρ.fixes v (by omega)

/-- An arc between the new labels. -/
def arc (a : Arc) : Arc := (ρ.label a.1, ρ.label a.2)

theorem arc_injective : Function.Injective ρ.arc := by
  intro a b same
  obtain ⟨first, second⟩ := Prod.mk.inj same
  exact Prod.ext (ρ.label.injective first) (ρ.label.injective second)

/-- The nodes and arcs under their new labels. -/
def outline : Outline :=
  .ofLists (d.chance.map ρ.label) (d.decision.map ρ.label) d.value (d.arcs.map ρ.arc)

theorem chance_perm : ρ.outline.chance.Perm (d.chance.map ρ.label) :=
  Ascending.ofList_perm nodeBefore_strict (d.nodup_chance.map ρ.label.injective)

theorem decision_perm : ρ.outline.decision.Perm (d.decision.map ρ.label) :=
  Ascending.ofList_perm nodeBefore_strict
    ((nodup_of_ascending d.layered.decision_ascending).map ρ.label.injective)

theorem value_outline : ρ.outline.value = d.value := by
  refine Ascending.ofList_eq nodeBefore_strict ?_
  rw [d.layered.value_eq]
  exact pairwise_span _ _

theorem mem_chance {j : Int} : ρ.label j ∈ ρ.outline.chance ↔ j ∈ d.chance := by
  rw [ρ.chance_perm.mem_iff, List.mem_map_of_injective ρ.label.injective]

theorem mem_decision {j : Int} : ρ.label j ∈ ρ.outline.decision ↔ j ∈ d.decision := by
  rw [ρ.decision_perm.mem_iff, List.mem_map_of_injective ρ.label.injective]

theorem mem_arcs {a : Arc} : ρ.arc a ∈ ρ.outline.arcs ↔ a ∈ d.arcs := by
  rw [outline, Outline.ofLists, Ascending.mem_ofList Arc.before_strict,
    List.mem_map_of_injective ρ.arc_injective]

theorem inner_outline : ρ.outline.inner = d.inner := by
  rw [Outline.inner, ρ.chance_perm.length_eq, ρ.decision_perm.length_eq, List.length_map,
    List.length_map, Outline.inner]

theorem total_outline : ρ.outline.total = d.total := by
  rw [Outline.total, ρ.inner_outline, ρ.value_outline, Outline.total]

/-- New labels of an arc are those of an arc that fits. -/
theorem arc_bounds {a : Arc} (member : a ∈ d.arcs) :
    1 ≤ ρ.label a.1 ∧ ρ.label a.1 < ρ.label a.2 ∧ ρ.label a.2 ≤ d.total ∧
      ρ.label a.1 ≤ d.inner := by
  have bounds := d.layered.arc_bounds a member
  have start := (ρ.inner_iff a.1).mpr ⟨bounds.1, bounds.2.2.2⟩
  have most : (d.inner : Int) ≤ d.total := by
    rw [Outline.total]
    omega
  by_cases inner : a.2 ≤ d.inner
  · have finish := (ρ.inner_iff a.2).mpr ⟨by omega, inner⟩
    exact ⟨start.1, ρ.ascending a member inner, by omega, start.2⟩
  · have stays := ρ.fixes a.2 (by omega)
    omega

theorem layered : ρ.outline.Layered where
  chance_ascending := Ascending.pairwise_ofList nodeBefore_strict _
  decision_ascending := Ascending.pairwise_ofList nodeBefore_strict _
  arcs_ascending := Ascending.pairwise_ofList Arc.before_strict _
  disjoint := by
    intro k chance decision
    rw [← ρ.label.apply_symm_apply k] at chance decision
    exact d.layered.disjoint _ (ρ.mem_chance.mp chance) (ρ.mem_decision.mp decision)
  inner_iff := by
    intro k
    rw [ρ.inner_outline, ← ρ.inner_symm_iff, ← d.layered.inner_iff, ← ρ.mem_chance,
      ← ρ.mem_decision, ρ.label.apply_symm_apply]
  value_eq := by
    rw [ρ.value_outline, ρ.inner_outline]
    exact d.layered.value_eq
  arc_bounds := by
    intro a member
    obtain ⟨b, old, rfl⟩ := List.mem_map.mp ((Ascending.mem_ofList Arc.before_strict).mp member)
    rw [ρ.total_outline, ρ.inner_outline]
    exact ρ.arc_bounds old

/-- The path on which each node has, under its new label, the state that it had. -/
def path (s : Path) : Path := s.rename d.inner ρ.label.symm

/-- The diagram under the new labels. -/
def diagram : Diagram where
  toOutline := ρ.outline
  counts := ρ.path d.counts
  layered := ρ.layered
  counts_length := (Path.length_rename _ _ _).trans ρ.inner_outline.symm
  counts_pos := by
    refine List.forall_mem_map.mpr fun k node => ?_
    rw [mem_span] at node
    have range := (ρ.inner_symm_iff k).mpr (by omega)
    exact d.count_pos range.1 range.2

/-- The renamed lists and state counts make the relabelled diagram. -/
theorem create_eq : create (d.chance.map ρ.label) (d.decision.map ρ.label) d.value
    (d.arcs.map ρ.arc) ((ρ.path d.counts).map .int) = .ok ρ.diagram := ρ.diagram.create_eq rfl

theorem inner_diagram : ρ.diagram.inner = d.inner := ρ.inner_outline

theorem stateAt_path (s : Path) {j : Int} (low : 1 ≤ j) (high : j ≤ d.inner) :
    (ρ.path s).stateAt (ρ.label j) = s.stateAt j := by
  have range := (ρ.inner_iff j).mpr ⟨low, high⟩
  rw [path, Path.stateAt_rename range.1 range.2, ρ.label.symm_apply_apply]

theorem count_eq {j : Int} (low : 1 ≤ j) (high : j ≤ d.inner) :
    ρ.diagram.count (ρ.label j) = d.count j := ρ.stateAt_path d.counts low high

theorem select_path (s : Path) {nodes : List Int} (inner : ∀ j ∈ nodes, 1 ≤ j ∧ j ≤ d.inner) :
    (ρ.path s).select (nodes.map ρ.label) = s.select nodes := by
  rw [Path.select, List.map_map]
  exact List.map_congr_left fun j member => ρ.stateAt_path s (inner j member).1 (inner j member).2

theorem path_mem {s : Path} (member : s ∈ paths d.counts) : ρ.path s ∈ paths ρ.diagram.counts :=
  Path.rename_mem_paths member d.counts_length fun k low high =>
    (ρ.inner_symm_iff k).mpr ⟨low, high⟩

/-- The paths of the relabelled diagram are the renamed paths. -/
theorem paths_perm : (paths ρ.diagram.counts).Perm ((paths d.counts).map ρ.path) := by
  have there : ∀ k, 1 ≤ k → k ≤ (d.inner : Int) → 1 ≤ ρ.label k ∧ ρ.label k ≤ d.inner :=
    fun k low high => (ρ.inner_iff k).mpr ⟨low, high⟩
  have back : ∀ k, 1 ≤ k → k ≤ (d.inner : Int) → 1 ≤ ρ.label.symm k ∧ ρ.label.symm k ≤ d.inner :=
    fun k low high => (ρ.inner_symm_iff k).mpr ⟨low, high⟩
  have distinct : ((paths d.counts).map ρ.path).Nodup := by
    refine List.Nodup.map_on (fun s first t second same => ?_) (nodup_paths _)
    rw [← Path.rename_rename (length_of_path first) there ρ.label.symm_apply_apply,
      ← Path.rename_rename (length_of_path second) there ρ.label.symm_apply_apply]
    exact congrArg _ same
  refine (List.perm_ext_iff_of_nodup (nodup_paths _) distinct).mpr fun s => ⟨fun member => ?_, ?_⟩
  · have size : s.length = d.inner := (length_of_path member).trans ρ.inner_diagram
    have counts : Path.rename d.inner ρ.label ρ.diagram.counts = d.counts :=
      Path.rename_rename d.counts_length there ρ.label.symm_apply_apply
    have old := Path.rename_mem_paths member (ρ.diagram.counts_length.trans ρ.inner_diagram) there
    rw [counts] at old
    exact List.mem_map.mpr ⟨_, old, Path.rename_rename size back ρ.label.apply_symm_apply⟩
  · intro member
    obtain ⟨t, old, rfl⟩ := List.mem_map.mp member
    exact ρ.path_mem old

theorem mem_informationSet {i j : Int} :
    ρ.label i ∈ ρ.diagram.informationSet (ρ.label j) ↔ i ∈ d.informationSet j := by
  rw [Diagram.mem_informationSet, Diagram.mem_informationSet]
  exact ρ.mem_arcs (a := (i, j))

/-- Some nodes that belong to a node of a diagram go along with it when it is relabelled. -/
structure Carries (nodes : Diagram → Int → List Int) (j : Int) : Prop where
  inner : ∀ i ∈ nodes d j, 1 ≤ i ∧ i ≤ d.inner
  covers : Path.Covers ρ.diagram.counts (nodes ρ.diagram (ρ.label j))
  within : (nodes d j).map ρ.label ⊆ nodes ρ.diagram (ρ.label j)

theorem carries_informationSet (j : Int) : ρ.Carries informationSet j where
  inner i member := by
    have below := d.informationSet_below member
    exact ⟨below.1, below.2.2⟩
  covers := ρ.diagram.covers_informationSet_of_full ρ.diagram.counts_length _
  within := by
    refine List.forall_mem_map.mpr fun i member => ?_
    exact ρ.mem_informationSet.mpr member

theorem carries_family {j : Int} (low : 1 ≤ j) (high : j ≤ d.inner) : ρ.Carries family j where
  inner i member := by
    rcases List.mem_append.mp member with parent | own
    · exact (ρ.carries_informationSet j).inner i parent
    · rw [List.mem_singleton.mp own]
      exact ⟨low, high⟩
  covers := by
    have range := (ρ.inner_iff j).mpr ⟨low, high⟩
    refine ρ.diagram.covers_family range.1 ?_
    rw [ρ.diagram.counts_length, ρ.inner_diagram]
    exact range.2
  within := by
    rw [family, List.map_append]
    exact List.append_subset.mpr
      ⟨List.subset_append_of_subset_left _ (ρ.carries_informationSet j).within,
        List.subset_append_right _ _⟩

/-- The states of some nodes that belong to a node, in the order of their old labels. -/
def old (nodes : Diagram → Int → List Int) (j : Int) (c : Path) : Path :=
  c.project (nodes ρ.diagram (ρ.label j)) ((nodes d j).map ρ.label)

variable {ρ} {nodes : Diagram → Int → List Int} {j : Int}

theorem Carries.old_select (carries : ρ.Carries nodes j) (s : Path) :
    ρ.old nodes j ((ρ.path s).select (nodes ρ.diagram (ρ.label j))) = s.select (nodes d j) := by
  rw [old, Path.project_select carries.within, ρ.select_path s carries.inner]

theorem Carries.old_mem (carries : ρ.Carries nodes j) {c : Path}
    (member : c ∈ paths (Path.select ρ.diagram.counts (nodes ρ.diagram (ρ.label j)))) :
    ρ.old nodes j c ∈ paths (Path.select d.counts (nodes d j)) := by
  rw [← ρ.select_path d.counts carries.inner]
  exact Path.project_mem_paths carries.within member

/-- The state of a node itself comes last under old and new labels. -/
theorem old_concat {c : Path} (context : c ∈ ρ.diagram.contexts (ρ.label j)) (x : Int) :
    ρ.old family j (c ++ [x]) = ρ.old informationSet j c ++ [x] := by
  have length : c.length = (ρ.diagram.informationSet (ρ.label j)).length := by
    rw [length_of_mem_paths context, Path.select, List.length_map]
  have fresh : ρ.label j ∉ ρ.diagram.informationSet (ρ.label j) := fun member =>
    (ρ.diagram.informationSet_below member).2.1.ne rfl
  rw [old, family, family, List.map_append]
  exact Path.project_concat (ρ.carries_informationSet j).within length fresh x

end Relabelling

end Diagram

end InfluenceProgram
