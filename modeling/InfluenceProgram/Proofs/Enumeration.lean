import InfluenceProgram.Proofs.Axes
import InfluenceProgram.Proofs.Given

/-!
Paths by their ranks. The path of a rank stands at this place of the enumeration, and its states are
the mixed-radix digits of the rank. So any number of walks, each with a place of its own, go through
the same enumeration, whatever is done with the other walks meanwhile.
-/

set_option autoImplicit false

namespace InfluenceProgram

/-- The numbers below a product in groups of equal length. -/
theorem range_mul (m n : Nat) :
    List.range (m * n) = (List.range m).flatMap fun i => (List.range n).map (i * n + ·) := by
  induction m with
  | zero => rw [Nat.zero_mul, List.range_zero, List.flatMap_nil]
  | succ m ih =>
      rw [Nat.succ_mul, List.range_add, ih, List.range_succ, List.flatMap_append,
        List.flatMap_singleton]

namespace Path

/-- The paths are those of all ranks in order. -/
theorem paths_eq_map_ofRank (counts : List Int) :
    paths counts = (List.range (number counts)).map (ofRank counts) := by
  induction counts with
  | nil => rfl
  | cons count counts ih =>
      rw [paths, number, range_mul, List.map_flatMap, states, List.flatMap_map, ih]
      refine List.flatMap_congr fun i leading => ?_
      rw [List.map_map, List.map_map]
      refine List.map_congr_left fun k rest => ?_
      rw [Function.comp_apply, Function.comp_apply,
        ofRank_mul_add (List.mem_range.mp leading) (List.mem_range.mp rest)]
      rfl

theorem number_drop_dvd (counts : List Int) (k : Nat) :
    number (counts.drop k) ∣ number counts := by
  induction k generalizing counts with
  | zero => rw [List.drop_zero]
  | succ k ih =>
      cases counts with
      | nil => exact dvd_refl _
      | cons count counts => exact (ih counts).trans (Dvd.intro_left _ rfl)

/-- The mixed-radix digit of a rank at a node: one more there stands for all paths over the nodes
that follow. -/
def digit (counts : List Int) (rank k : Nat) : Int :=
  rank / (counts.drop (k + 1)).prod % counts.getD k 0

variable {counts : List Int}

theorem digit_eq (nonneg : ∀ count ∈ counts, 0 ≤ count) (rank : Nat) {k : Nat}
    (inside : k < counts.length) :
    digit counts rank k =
      (rank / number (counts.drop (k + 1)) % (counts.getD k 0).toNat : Nat) := by
  have later : ∀ count ∈ counts.drop (k + 1), 0 ≤ count :=
    fun count member => nonneg count (List.mem_of_mem_drop member)
  have own : 0 ≤ counts.getD k 0 := by
    rw [List.getD_eq_getElem _ _ inside]
    exact nonneg _ (List.getElem_mem inside)
  rw [digit, ← number_eq_prod later, Int.natCast_emod, Int.natCast_ediv, Int.toNat_of_nonneg own]

/-- What full rounds through the later nodes add to a rank does not change their digits. -/
theorem digit_mod (nonneg : ∀ count ∈ counts, 0 ≤ count) (rank : Nat) {k : Nat}
    (inside : k < counts.length) :
    digit counts (rank % number counts) k = digit counts rank k := by
  have divides : number (counts.drop (k + 1)) * (counts.getD k 0).toNat ∣ number counts := by
    have all := number_drop_dvd counts k
    rwa [List.drop_eq_getElem_cons inside, number, Nat.mul_comm,
      ← List.getD_eq_getElem _ 0 inside] at all
  rw [digit_eq nonneg _ inside, digit_eq nonneg _ inside, ← Nat.mod_mul_right_div_self,
    Nat.mod_mod_of_dvd _ divides, Nat.mod_mul_right_div_self]

/-- The states of the path of a rank are the digits of the rank, counted from one. -/
theorem ofRank_eq_map_digit (nonneg : ∀ count ∈ counts, 0 ≤ count) (rank : Nat) :
    ofRank counts rank = (List.range counts.length).map fun k => digit counts rank k + 1 := by
  induction counts generalizing rank with
  | nil => rfl
  | cons count counts ih =>
      have rest := (List.forall_mem_cons.mp nonneg).2
      rw [ofRank, List.length_cons, List.range_succ_eq_map, List.map_cons, List.map_map,
        ih rest, digit_eq nonneg rank (Nat.zero_lt_succ _)]
      refine congrArg _ (List.map_congr_left fun k inside => ?_)
      rw [digit_mod rest rank (List.mem_range.mp inside)]
      rfl

theorem getElem?_paths (nonneg : ∀ count ∈ counts, 0 ≤ count) {rank : Nat}
    (below : rank < counts.prod) :
    (paths counts)[rank]? =
      some ((List.range counts.length).map fun k => digit counts rank k + 1) := by
  rw [← number_eq_prod nonneg] at below
  rw [paths_eq_map_ofRank, List.getElem?_map, List.getElem?_range (Int.ofNat_lt.mp below),
    Option.map_some, ofRank_eq_map_digit nonneg]

theorem length?_eq (nonneg : ∀ count ∈ counts, 0 ≤ count) :
    length? counts =
      if counts.prod < 2 ^ 63 then .ok counts.prod.toNat else .error .lengthTooLarge := by
  have product : counts.foldl (· * ·) 1 = counts.prod := List.prod_eq_foldl.symm
  have low : ¬counts.prod < 0 := not_lt.mpr (List.prod_nonneg nonneg)
  have bound : Nat.pow 2 63 ≤ counts.prod.toNat ↔ ¬counts.prod < 2 ^ 63 := by
    rw [Nat.pow_eq]
    omega
  simp only [length?, product, if_neg low, bound, ite_not]

end Path

namespace Walks

/-- The paths from a place on, as many as a limit lets through, are those that stand there. -/
theorem stretch_eq (counts : List Int) (place limit : Nat) :
    stretch counts place limit = ((paths counts).drop place).take limit := by
  have ranks : List.range' place (min limit (Path.number counts - place)) =
      ((List.range (Path.number counts)).drop place).take limit := by
    rw [List.range_eq_range', List.drop_range', Nat.zero_add, Nat.mul_one,
      List.take_eq_take_min, List.length_range']
    exact (List.take_range'_of_length_ge (Nat.min_le_right _ _)).symm
  rw [stretch, ranks, Path.paths_eq_map_ofRank, List.map_take, List.map_drop]

end Walks

end InfluenceProgram
