import InfluenceProgram.Problem
import InfluenceProgram.Proofs.Path

/-!
Contexts of the nodes of a diagram. The information set of a node lies below the node and among
the chance and decision nodes, so a path has a context at every node, and nothing that follows a
node has a say in its context.
-/

set_option autoImplicit false

namespace InfluenceProgram

theorem span_succ (first : Int) (length : Nat) :
    span first (length + 1) = first :: span (first + 1) length := by
  rw [span, List.range_succ_eq_map, List.map_cons, List.map_map, span]
  congr 1
  · simp
  · apply List.map_congr_left
    intro k _
    simp only [Function.comp_apply, Int.ofNat_eq_natCast, Nat.succ_eq_add_one]
    omega

theorem pairwise_span (first : Int) (length : Nat) :
    (span first length).Pairwise fun i j => nodeBefore i j := by
  rw [span, List.pairwise_map]
  refine List.pairwise_lt_range.imp ?_
  intro a b below
  simp only [nodeBefore, Int.ofNat_eq_natCast, decide_eq_true_eq]
  omega

theorem lt_of_ascending {nodes : List Int}
    (ascending : nodes.Pairwise fun i j => nodeBefore i j) : nodes.Pairwise (· < ·) := by
  refine ascending.imp ?_
  intro i j below
  simpa only [nodeBefore, decide_eq_true_eq] using below

theorem nodup_of_ascending {nodes : List Int}
    (ascending : nodes.Pairwise fun i j => nodeBefore i j) : nodes.Nodup :=
  (lt_of_ascending ascending).imp fun below => below.ne

theorem length_span (first : Int) (length : Nat) : (span first length).length = length := by
  rw [span, List.length_map, List.length_range]

namespace Path

/-- A path that is laid out node by node has at each node the state that was laid out there. -/
theorem stateAt_map_span {length : Nat} {f : Int → Int} {k : Int} (low : 1 ≤ k)
    (high : k ≤ length) : Path.stateAt ((span 1 length).map f) k = f k := by
  have inside : (k - 1).toNat < ((span 1 length).map f).length := by
    rw [List.length_map, length_span]
    omega
  have node : 1 + Int.ofNat (k - 1).toNat = k := by
    rw [Int.ofNat_eq_natCast]
    omega
  rw [stateAt, List.getD_eq_getElem _ _ inside]
  simp only [span, List.getElem_map, List.getElem_range, node]

/-- States that are in range node by node make a path. -/
theorem map_span_mem_paths {counts : List Int} {f : Int → Int}
    (range : ∀ k : Int, 1 ≤ k → k ≤ counts.length → 1 ≤ f k ∧ f k ≤ Path.stateAt counts k) :
    (span 1 counts.length).map f ∈ paths counts := by
  have same : (span 1 counts.length).map (Path.stateAt counts) = counts :=
    ext (by rw [List.length_map, length_span]) rfl fun k low high => stateAt_map_span low high
  have each : (span 1 counts.length).map f ∈
      paths ((span 1 counts.length).map (Path.stateAt counts)) := by
    rw [mem_paths, List.forall₂_map_left_iff, List.forall₂_map_right_iff, List.forall₂_same]
    intro k node
    rw [mem_span] at node
    exact range k (by omega) (by omega)
  rwa [same] at each

end Path

namespace Diagram

variable (d : Diagram)

theorem mem_innerNodes {j : Int} : j ∈ d.innerNodes ↔ 1 ≤ j ∧ j ≤ d.inner := by
  rw [innerNodes, mem_span]
  omega

theorem inner_of_chance {j : Int} (chance : j ∈ d.chance) : 1 ≤ j ∧ j ≤ d.inner :=
  (d.layered.inner_iff j).mp (Or.inl chance)

theorem inner_of_decision {j : Int} (decision : j ∈ d.decision) : 1 ≤ j ∧ j ≤ d.inner :=
  (d.layered.inner_iff j).mp (Or.inr decision)

theorem nodup_chance : d.chance.Nodup := nodup_of_ascending d.layered.chance_ascending

theorem nodup_value : d.value.Nodup := by
  rw [d.layered.value_eq]
  exact nodup_of_ascending (pairwise_span _ _)

/-- An ascending list of inner nodes is what it keeps of all of them. -/
theorem eq_filter_innerNodes {nodes : List Int}
    (ascending : nodes.Pairwise fun i j => nodeBefore i j)
    (inside : ∀ j ∈ nodes, 1 ≤ j ∧ j ≤ d.inner) :
    nodes = d.innerNodes.filter (· ∈ nodes) := by
  refine Ascending.eq_of_mem_iff nodeBefore_strict ascending ((pairwise_span _ _).filter _) ?_
  intro j
  rw [List.mem_filter, decide_eq_true_eq, innerNodes, mem_span]
  constructor
  · intro member
    have range := inside j member
    exact ⟨by omega, member⟩
  · exact fun member => member.2

theorem chance_eq_filter : d.chance = d.innerNodes.filter (· ∈ d.chance) :=
  d.eq_filter_innerNodes d.layered.chance_ascending fun _ => d.inner_of_chance

theorem decision_eq_filter : d.decision = d.innerNodes.filter (· ∈ d.decision) :=
  d.eq_filter_innerNodes d.layered.decision_ascending fun _ => d.inner_of_decision

/-- A product over all inner nodes splits into decision and chance nodes. -/
theorem prod_innerNodes (f g : Int → Rat) :
    (d.innerNodes.map fun j => if j ∈ d.decision then f j else g j).prod =
      (d.decision.map f).prod * (d.chance.map g).prod := by
  have others : d.innerNodes.filter (· ∉ d.decision) = d.chance := by
    rw [d.chance_eq_filter]
    apply List.filter_congr
    intro j inner
    rw [innerNodes, mem_span] at inner
    have either := (d.layered.inner_iff j).mpr (by omega)
    have apart := d.layered.disjoint j
    simp only [decide_eq_decide]
    tauto
  rw [List.prod_map_ite, ← d.decision_eq_filter, others]

theorem mem_informationSet {i j : Int} : i ∈ d.informationSet j ↔ (i, j) ∈ d.arcs := by
  simp only [informationSet, List.mem_map, List.mem_filter, beq_iff_eq]
  constructor
  · rintro ⟨⟨start, _⟩, ⟨member, rfl⟩, rfl⟩
    exact member
  · intro member
    exact ⟨(i, j), ⟨member, rfl⟩, rfl⟩

theorem informationSet_below {i j : Int} (member : i ∈ d.informationSet j) :
    1 ≤ i ∧ i < j ∧ i ≤ d.inner := by
  have bounds := d.layered.arc_bounds _ ((d.mem_informationSet).mp member)
  exact ⟨bounds.1, bounds.2.1, bounds.2.2.2⟩

/-- A path that reaches up to a node has the information set of the node. -/
theorem covers_informationSet {s : Path} {j : Int} (reached : j ≤ s.length + 1) :
    s.Covers (d.informationSet j) := by
  intro i member
  have below := d.informationSet_below member
  omega

/-- A path over all inner nodes has the information set of any node. -/
theorem covers_informationSet_of_full {s : Path} (full : s.length = d.inner) (j : Int) :
    s.Covers (d.informationSet j) := by
  intro i member
  have below := d.informationSet_below member
  omega

theorem covers_family {s : Path} {j : Int} (low : 1 ≤ j) (reached : j ≤ s.length) :
    s.Covers (d.family j) := by
  intro i member
  rcases List.mem_append.mp member with parent | own
  · exact d.covers_informationSet (by omega) i parent
  · rw [List.mem_singleton] at own
    omega

/-- The number of states of a node. -/
def count (j : Int) : Int := Path.stateAt d.counts j

/-- The contexts of a node: a state for each node of its information set. -/
def contexts (j : Int) : List Path := paths (Path.select d.counts (d.informationSet j))

theorem count_mem {j : Int} (low : 1 ≤ j) (high : j ≤ d.inner) : d.count j ∈ d.counts := by
  have inside : (j - 1).toNat < d.counts.length := by
    rw [d.counts_length]
    omega
  rw [count, Path.stateAt, List.getD_eq_getElem _ _ inside]
  exact List.getElem_mem inside

theorem count_pos {j : Int} (low : 1 ≤ j) (high : j ≤ d.inner) : 1 ≤ d.count j :=
  d.counts_pos _ (d.count_mem low high)

/-- There is a path over some nodes for each combination of their states. -/
theorem length_paths_select {nodes : List Int} (inside : ∀ j ∈ nodes, j ∈ d.innerNodes) :
    ((paths (Path.select d.counts nodes)).length : Int) = (nodes.map d.count).prod := by
  rw [length_paths, Path.number_eq_prod]
  · rfl
  · refine List.forall_mem_map.mpr fun j member => ?_
    have range := d.mem_innerNodes.mp (inside j member)
    exact zero_le_one.trans (d.count_pos range.1 range.2)

theorem countOf_eq {j : Int} (low : 1 ≤ j) (high : j ≤ d.inner) : d.countOf j = .ok (d.count j) :=
  Path.pick_eq low (by rw [d.counts_length]; exact high)

theorem contextCounts_eq (j : Int) :
    d.contextCounts j = .ok (Path.select d.counts (d.informationSet j)) :=
  Path.restrict_eq (d.covers_informationSet_of_full d.counts_length j)

theorem countsAt_family {j : Int} (low : 1 ≤ j) (high : j ≤ d.inner) :
    d.countsAt (d.family j) = .ok (Path.select d.counts (d.family j)) :=
  Path.restrict_eq (d.covers_family low (by rw [d.counts_length]; exact high))

theorem select_family (s : Path) (j : Int) :
    s.select (d.family j) = s.select (d.informationSet j) ++ [s.stateAt j] :=
  Path.select_append s _ _

variable {d}

theorem length_of_path {s : Path} (member : s ∈ paths d.counts) : s.length = d.inner :=
  (length_of_mem_paths member).trans d.counts_length

theorem stateAt_mem_states {s : Path} (member : s ∈ paths d.counts) {j : Int} (low : 1 ≤ j)
    (high : j ≤ d.inner) : s.stateAt j ∈ states (d.count j) := by
  rw [mem_states]
  exact Path.stateAt_range member low (by rw [d.counts_length]; exact high)

theorem select_mem_contexts {s : Path} (member : s ∈ paths d.counts) (j : Int) :
    s.select (d.informationSet j) ∈ d.contexts j :=
  Path.select_mem_paths member (d.covers_informationSet_of_full d.counts_length j)

/-- The states of a path at the family of a node are a context of the node and a state of it. -/
theorem mem_paths_family {j : Int} {key : Path} :
    key ∈ paths (Path.select d.counts (d.family j)) ↔
      ∃ c ∈ d.contexts j, ∃ x ∈ states (d.count j), key = c ++ [x] := by
  rw [select_family, mem_paths_append]
  constructor
  · rintro ⟨c, context, last, state, rfl⟩
    obtain ⟨x, range, rfl⟩ := mem_paths_singleton.mp state
    exact ⟨c, context, x, range, rfl⟩
  · rintro ⟨c, context, x, range, rfl⟩
    exact ⟨c, context, [x], mem_paths_singleton.mpr ⟨x, range, rfl⟩, rfl⟩

end Diagram

end InfluenceProgram
