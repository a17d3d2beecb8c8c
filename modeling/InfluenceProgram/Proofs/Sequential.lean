import InfluenceProgram.Proofs.Context
import InfluenceProgram.Proofs.Exact

/-!
Products along paths, summed over all paths. Each node contributes a share that depends on its
context and its state only. Since contexts lie below their nodes, the nodes can be summed out from
the last one backwards, and bounds on the totals of single contexts multiply.
-/

set_option autoImplicit false

namespace InfluenceProgram

/-- The share that a node gives to a state in a context. -/
abbrev Kernel := Int → Path → Int → Rat

/-- After a path over the first nodes comes an inner node, with a context on the path. -/
theorem Diagram.next_node (d : Diagram) {before after : List Int} {count : Int}
    (split : d.counts = before ++ count :: after) {s : Path} (member : s ∈ paths before) :
    (s.length : Int) + 1 ∈ d.innerNodes ∧ d.count (s.length + 1) = count ∧
      s.select (d.informationSet (s.length + 1)) ∈ d.contexts (s.length + 1) := by
  have length := length_of_mem_paths member
  have covered : Path.Covers before (d.informationSet (s.length + 1)) :=
    d.covers_informationSet (by omega)
  refine ⟨?_, ?_, ?_⟩
  · rw [innerNodes, mem_span, ← d.counts_length, split, List.length_append, List.length_cons]
    omega
  · rw [Diagram.count, split, length, List.append_cons,
      Path.stateAt_append after (by omega) (by simp), Path.stateAt_length]
  · rw [contexts, split, covered.select_append]
    exact Path.select_mem_paths member covered

namespace Kernel

/-- The share of a node on a path. -/
def on (K : Kernel) (d : Diagram) (s : Path) (j : Int) : Rat :=
  K j (s.select (d.informationSet j)) (s.stateAt j)

/-- The shares of some nodes on a path multiplied. -/
def along (K : Kernel) (d : Diagram) (nodes : List Int) (s : Path) : Rat :=
  (nodes.map (K.on d s)).prod

/-- The total of a context over the states of a node. -/
def total (K : Kernel) (d : Diagram) (j : Int) (c : Path) : Rat :=
  ((states (d.count j)).map (K j c)).sum

/-- What the extensions of a path by further nodes add up to, each counted by a value. -/
def expectation (K : Kernel) (d : Diagram) (value : Path → Rat) (s : Path) (counts : List Int) :
    Rat :=
  ((paths counts).map fun t =>
    value (s ++ t) * K.along d (span (s.length + 1) counts.length) (s ++ t)).sum

/-- What the extensions of a path by further nodes add up to. -/
def extensions (K : Kernel) (d : Diagram) (s : Path) (counts : List Int) : Rat :=
  ((paths counts).map fun t => K.along d (span (s.length + 1) counts.length) (s ++ t)).sum

theorem extensions_eq (K : Kernel) (d : Diagram) (s : Path) (counts : List Int) :
    K.extensions d s counts = K.expectation d (fun _ => 1) s counts := by
  simp only [extensions, expectation, one_mul]

theorem on_append (K : Kernel) (d : Diagram) {s : Path} (t : Path) {j : Int} (low : 1 ≤ j)
    (high : j ≤ s.length) : K.on d (s ++ t) j = K.on d s j := by
  have covered : s.Covers (d.informationSet j) := d.covers_informationSet (by omega)
  rw [on, on, covered.select_append, Path.stateAt_append t low high]

theorem on_last (K : Kernel) (d : Diagram) (s : Path) (x : Int) :
    K.on d (s ++ [x]) (s.length + 1) =
      K (s.length + 1) (s.select (d.informationSet (s.length + 1))) x := by
  have covered : s.Covers (d.informationSet (s.length + 1)) := d.covers_informationSet (by omega)
  rw [on, covered.select_append, Path.stateAt_length]

/-- The next node is summed out first: its share does not depend on what follows it. -/
theorem expectation_cons (K : Kernel) (d : Diagram) (value : Path → Rat) (s : Path) (count : Int)
    (counts : List Int) :
    K.expectation d value s (count :: counts) =
      ((states count).map fun x =>
        K (s.length + 1) (s.select (d.informationSet (s.length + 1))) x *
          K.expectation d value (s ++ [x]) counts).sum := by
  rw [expectation, paths, List.flatMap_def, List.map_flatten, List.sum_flatten, List.map_map,
    List.map_map]
  congr 1
  apply List.map_congr_left
  intro x _
  simp only [Function.comp_apply, List.map_map]
  rw [expectation, ← List.sum_map_mul_left]
  congr 1
  apply List.map_congr_left
  intro t _
  have length : ((s ++ [x]).length : Int) = s.length + 1 := by simp
  rw [Function.comp_apply, List.length_cons, along, span_succ, List.map_cons, List.prod_cons,
    List.append_cons, on_append K d t (by omega) (by omega), on_last, along, length]
  exact mul_left_comm _ _ _

theorem extensions_cons (K : Kernel) (d : Diagram) (s : Path) (count : Int) (counts : List Int) :
    K.extensions d s (count :: counts) =
      ((states count).map fun x =>
        K (s.length + 1) (s.select (d.informationSet (s.length + 1))) x *
          K.extensions d (s ++ [x]) counts).sum := by
  simp only [extensions_eq, expectation_cons]

/-- The shares of some nodes are not negative, and the totals of their contexts are bounded. -/
structure Bounded (K : Kernel) (d : Diagram) (nodes : List Int) (low high : Int → Rat) : Prop where
  low_nonneg : ∀ j, 0 ≤ low j
  high_nonneg : ∀ j, 0 ≤ high j
  nonneg : ∀ j ∈ nodes, ∀ c ∈ d.contexts j, ∀ x ∈ states (d.count j), 0 ≤ K j c x
  total : ∀ j ∈ nodes, ∀ c ∈ d.contexts j, low j ≤ K.total d j c ∧ K.total d j c ≤ high j

variable {d : Diagram} {K : Kernel} {low high : Int → Rat}

/-- The bounds on the contexts of single nodes multiply to bounds on what extensions add up to. The
induction is on the nodes that are still to come, for every path that reaches up to them. -/
theorem Bounded.extensions_bounds (bounded : K.Bounded d d.innerNodes low high)
    {before after : List Int} (split : d.counts = before ++ after) {s : Path}
    (member : s ∈ paths before) :
    ((span (s.length + 1) after.length).map low).prod ≤ K.extensions d s after ∧
      K.extensions d s after ≤ ((span (s.length + 1) after.length).map high).prod := by
  induction after generalizing before s with
  | nil => simp [extensions, paths, along, span]
  | cons count after ih =>
      obtain ⟨inner, own, context⟩ := d.next_node split member
      have share := bounded.nonneg _ inner _ context
      have bounds := bounded.total _ inner _ context
      rw [Kernel.total, own] at bounds
      rw [own] at share
      have rest : ∀ x ∈ states count,
          ((span (s.length + 1 + 1) after.length).map low).prod ≤ K.extensions d (s ++ [x]) after ∧
            K.extensions d (s ++ [x]) after ≤
              ((span (s.length + 1 + 1) after.length).map high).prod := by
        intro x state
        have longer : ((s ++ [x]).length : Int) = s.length + 1 := by simp
        simpa only [longer] using
          ih (by rw [split, List.append_cons]) (mem_paths_concat member state)
      rw [extensions_cons, List.length_cons, span_succ, List.map_cons, List.prod_cons,
        List.map_cons, List.prod_cons]
      constructor
      · refine (mul_le_mul_of_nonneg_right bounds.1 (List.prod_nonneg ?_)).trans ?_
        · simpa using fun j _ => bounded.low_nonneg j
        · rw [← List.sum_map_mul_right]
          exact List.sum_le_sum fun x state =>
            mul_le_mul_of_nonneg_left (rest x state).1 (share x state)
      · refine le_trans ?_ (mul_le_mul_of_nonneg_right bounds.2 (List.prod_nonneg ?_))
        · rw [← List.sum_map_mul_right]
          exact List.sum_le_sum fun x state =>
            mul_le_mul_of_nonneg_left (rest x state).2 (share x state)
        · simpa using fun j _ => bounded.high_nonneg j

/-- The shares of all nodes multiplied, summed over all paths. -/
theorem Bounded.sum_along (bounded : K.Bounded d d.innerNodes low high) :
    (d.innerNodes.map low).prod ≤ ((paths d.counts).map (K.along d d.innerNodes)).sum ∧
      ((paths d.counts).map (K.along d d.innerNodes)).sum ≤ (d.innerNodes.map high).prod := by
  have bounds := bounded.extensions_bounds
    (List.nil_append d.counts).symm (s := []) (by simp [paths])
  rw [d.counts_length] at bounds
  simpa only [extensions, d.counts_length, Diagram.innerNodes, List.nil_append, List.length_nil,
    Nat.cast_zero, zero_add] using bounds

end Kernel

end InfluenceProgram
