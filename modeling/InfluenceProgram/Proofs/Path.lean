import InfluenceProgram.Path
import InfluenceProgram.Proofs.Success

/-!
Paths as functions of their nodes. A path over given state counts has one state in range for each
of them, every such path is enumerated once, and taking its states at nodes that it has succeeds.
-/

set_option autoImplicit false

namespace InfluenceProgram

theorem mem_states {count x : Int} : x ∈ states count ↔ 1 ≤ x ∧ x ≤ count := by
  simp only [states, List.mem_map, List.mem_range, Int.ofNat_eq_natCast]
  constructor
  · rintro ⟨k, below, rfl⟩
    omega
  · intro range
    exact ⟨(x - 1).toNat, by omega, by omega⟩

theorem pairwise_states (count : Int) : (states count).Pairwise (· < ·) := by
  rw [states, List.pairwise_map]
  refine List.pairwise_lt_range.imp ?_
  intro a b below
  simp only [Int.ofNat_eq_natCast]
  omega

theorem nodup_states (count : Int) : (states count).Nodup :=
  (pairwise_states count).imp fun below => below.ne

theorem length_states (count : Int) : (states count).length = count.toNat := by
  rw [states, List.length_map, List.length_range]

theorem mem_paths {counts : List Int} {s : Path} :
    s ∈ paths counts ↔ List.Forall₂ (fun x count => 1 ≤ x ∧ x ≤ count) s counts := by
  induction counts generalizing s with
  | nil => simp [paths]
  | cons count counts ih =>
      simp only [paths, List.mem_flatMap, List.mem_map, mem_states, ih,
        List.forall₂_cons_right_iff]
      constructor
      · rintro ⟨x, range, rest, within, rfl⟩
        exact ⟨x, rest, range, within, rfl⟩
      · rintro ⟨x, rest, range, within, rfl⟩
        exact ⟨x, range, rest, within, rfl⟩

/-- Paths are enumerated in lexicographic order. -/
theorem pairwise_paths (counts : List Int) : (paths counts).Pairwise (· < ·) := by
  induction counts with
  | nil => exact List.pairwise_singleton _ _
  | cons count counts ih =>
      rw [paths, List.pairwise_flatMap]
      refine ⟨fun x _ => ?_, ?_⟩
      · rw [List.pairwise_map]
        exact ih.imp fun below => List.cons_lt_cons_iff.mpr (Or.inr ⟨rfl, below⟩)
      · refine (pairwise_states count).imp ?_
        intro x y below s inX t inY
        obtain ⟨_, _, rfl⟩ := List.mem_map.mp inX
        obtain ⟨_, _, rfl⟩ := List.mem_map.mp inY
        exact List.cons_lt_cons_iff.mpr (Or.inl below)

theorem nodup_paths (counts : List Int) : (paths counts).Nodup :=
  (pairwise_paths counts).imp fun below => below.ne

theorem length_of_mem_paths {counts : List Int} {s : Path} (member : s ∈ paths counts) :
    s.length = counts.length :=
  (mem_paths.mp member).length_eq

/-- There are as many paths as their ranks count. -/
theorem length_paths (counts : List Int) : (paths counts).length = Path.number counts := by
  induction counts with
  | nil => rfl
  | cons count counts ih =>
      simp only [paths, List.length_flatMap, List.length_map, ih, List.map_const',
        List.sum_replicate, length_states, Path.number, smul_eq_mul]

theorem Path.number_eq_prod {counts : List Int} (nonneg : ∀ count ∈ counts, 0 ≤ count) :
    (Path.number counts : Int) = counts.prod := by
  induction counts with
  | nil => rfl
  | cons count counts ih =>
      obtain ⟨first, rest⟩ := List.forall_mem_cons.mp nonneg
      rw [Path.number, Nat.cast_mul, ih rest, Int.toNat_of_nonneg first, List.prod_cons]

theorem paths_ne_nil {counts : List Int} (positive : ∀ count ∈ counts, 1 ≤ count) :
    paths counts ≠ [] := by
  have ones : List.replicate counts.length 1 ∈ paths counts := by
    rw [mem_paths, List.forall₂_iff_get]
    refine ⟨List.length_replicate, fun i _ inside => ?_⟩
    simpa using positive _ (List.get_mem counts ⟨i, inside⟩)
  exact List.ne_nil_of_mem ones

/-- The paths over appended counts are the paths over the first ones, each with every extension. -/
theorem paths_append (front back : List Int) :
    paths (front ++ back) = (paths front).flatMap fun s => (paths back).map (s ++ ·) := by
  induction front with
  | nil => simp [paths]
  | cons count front ih =>
      simp only [List.cons_append, paths, ih, List.flatMap_assoc, List.map_flatMap,
        List.flatMap_map, List.map_map]
      rfl

theorem mem_paths_append {front back : List Int} {s : Path} :
    s ∈ paths (front ++ back) ↔ ∃ a ∈ paths front, ∃ b ∈ paths back, s = a ++ b := by
  simp only [paths_append, List.mem_flatMap, List.mem_map, eq_comm]

theorem mem_paths_singleton {count : Int} {s : Path} :
    s ∈ paths [count] ↔ ∃ x ∈ states count, s = [x] := by
  simp only [paths, List.mem_flatMap, List.mem_map, List.mem_singleton, exists_eq_left, eq_comm]

theorem mem_paths_concat {front : List Int} {count x : Int} {s : Path} (member : s ∈ paths front)
    (state : x ∈ states count) : s ++ [x] ∈ paths (front ++ [count]) :=
  mem_paths_append.mpr ⟨s, member, [x], mem_paths_singleton.mpr ⟨x, state, rfl⟩, rfl⟩

namespace Path

/-- The state of a path at a node. -/
def stateAt (s : Path) (j : Int) : Int := s.getD (j - 1).toNat 0

/-- The states of a path at some nodes, provided that it has them. -/
def select (s : Path) (nodes : List Int) : Path := nodes.map s.stateAt

/-- Some nodes are among those of a path. -/
def Covers (s : Path) (nodes : List Int) : Prop := ∀ j ∈ nodes, 1 ≤ j ∧ j ≤ s.length

theorem pick_eq {s : Path} {j : Int} (low : 1 ≤ j) (high : j ≤ s.length) :
    Position.pick .outsideTuple s (j - 1) = .ok (s.stateAt j) := by
  have inside : (j - 1).toNat < s.length := by omega
  have offset : Position.offset? s.length (j - 1) = some (j - 1).toNat := by
    simp only [Position.offset?]
    rw [if_neg (show ¬j - 1 < 0 by omega), if_pos (by omega)]
  rw [Position.pick, offset]
  simp only [List.getElem?_eq_getElem inside, stateAt, List.getD_eq_getElem _ _ inside]

theorem restrict_eq {s : Path} {nodes : List Int} (covered : s.Covers nodes) :
    restrict s nodes = .ok (s.select nodes) :=
  Success.mapM_eq fun j member => pick_eq (covered j member).1 (covered j member).2

theorem Covers.of_length {s t : Path} {nodes : List Int} (covered : s.Covers nodes)
    (same : t.length = s.length) : t.Covers nodes := by
  intro j member
  rw [same]
  exact covered j member

theorem select_append (s : Path) (first second : List Int) :
    s.select (first ++ second) = s.select first ++ s.select second := List.map_append

/-- Paths with the same states at their nodes are the same. -/
theorem ext {s t : Path} {length : Nat} (sizeS : s.length = length) (sizeT : t.length = length)
    (same : ∀ k : Int, 1 ≤ k → k ≤ length → s.stateAt k = t.stateAt k) : s = t := by
  refine List.ext_getElem (sizeS.trans sizeT.symm) fun k first second => ?_
  have place : ((k : Int) + 1 - 1).toNat = k := by omega
  have state := same (k + 1) (by omega) (by omega)
  rwa [stateAt, stateAt, place, List.getD_eq_getElem _ _ first,
    List.getD_eq_getElem _ _ second] at state

/-- What follows a path does not change its states. -/
theorem stateAt_append {s : Path} {j : Int} (t : Path) (low : 1 ≤ j) (high : j ≤ s.length) :
    Path.stateAt (s ++ t) j = s.stateAt j := by
  rw [stateAt, stateAt, List.getD_append _ _ _ _ (by omega)]

theorem Covers.select_append {s : Path} {nodes : List Int} (covered : s.Covers nodes) (t : Path) :
    Path.select (s ++ t) nodes = s.select nodes :=
  List.map_congr_left fun j member => stateAt_append t (covered j member).1 (covered j member).2

theorem stateAt_length (s : Path) (x : Int) :
    Path.stateAt (s ++ [x]) (s.length + 1) = x := by
  have last : ((s.length : Int) + 1 - 1).toNat = s.length := by omega
  rw [stateAt, last, List.getD_append_right _ _ _ _ le_rfl, Nat.sub_self]
  rfl

/-- A state of an enumerated path is one of its node. -/
theorem stateAt_range {counts : List Int} {s : Path} (member : s ∈ paths counts) {j : Int}
    (low : 1 ≤ j) (high : j ≤ counts.length) :
    1 ≤ s.stateAt j ∧ s.stateAt j ≤ Path.stateAt counts j := by
  have length := length_of_mem_paths member
  have inside : (j - 1).toNat < s.length := by omega
  have range := (mem_paths.mp member).get inside (by omega)
  simpa only [stateAt, List.getD_eq_getElem _ _ inside, List.get_eq_getElem,
    List.getD_eq_getElem _ _ (show (j - 1).toNat < counts.length by omega)] using range

theorem select_mem_paths {counts : List Int} {s : Path} (member : s ∈ paths counts)
    {nodes : List Int} (covered : Path.Covers counts nodes) :
    s.select nodes ∈ paths (Path.select counts nodes) := by
  rw [mem_paths, select, select, List.forall₂_map_left_iff, List.forall₂_map_right_iff,
    List.forall₂_same]
  exact fun j inside => stateAt_range member (covered j inside).1 (covered j inside).2

end Path

end InfluenceProgram
