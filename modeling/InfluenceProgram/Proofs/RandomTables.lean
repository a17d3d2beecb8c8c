import InfluenceProgram.Proofs.Axes
import InfluenceProgram.Proofs.Draws
import InfluenceProgram.Proofs.Merging
import InfluenceProgram.Random.Instance

/-!
Random tables of exact probabilities. A context can be drawn once less often than there are
outcomes, so it keeps at least one outcome, and its uniform draws have a positive sum to be divided
by. The rows of all contexts one after the other are the entries of the table.
-/

set_option autoImplicit false

namespace InfluenceProgram

theorem volume_concat (axes : List Nat) (last : Nat) :
    volume (axes ++ [last]) = volume axes * last := by
  induction axes with
  | nil => exact (Nat.mul_one last).trans (Nat.one_mul last).symm
  | cons axis axes ih => rw [List.cons_append, volume, volume, ih, Nat.mul_assoc]

/-- The place of a path is that of its states before the last one, and then that of the last one. -/
theorem Tensor.place_concat {counts : List Int} {c : Path} {count x : Int}
    (context : c ∈ paths counts) (state : x ∈ states count) {axis k : Nat}
    (found : place axis (counts.map Int.toNat) (Path.toIndex c) = .ok k) :
    place axis ((counts ++ [count]).map Int.toNat) (Path.toIndex (c ++ [x])) =
      .ok (k * count.toNat + (x - 1).toNat) := by
  have range := mem_states.mp state
  induction mem_paths.mp context generalizing axis k with
  | nil =>
      cases found
      simp [Path.toIndex, place, offset_of_state range.1 range.2, volume, Except.map]
  | @cons y own c counts first within ih =>
      obtain ⟨i, place, _⟩ := place_of_path (mem_paths.mpr within) (axis + 1)
      simp only [Path.toIndex, List.map_cons, Tensor.place, offset_of_state first.1 first.2]
        at found
      change (Tensor.place (axis + 1) (counts.map Int.toNat) (Path.toIndex c)).map _ = _ at found
      rw [place] at found
      cases found
      have rest := ih (mem_paths.mpr within) place
      simp only [List.cons_append, Path.toIndex, List.map_cons, Tensor.place,
        offset_of_state first.1 first.2]
      change (Tensor.place (axis + 1) ((counts ++ [count]).map Int.toNat)
        (Path.toIndex (c ++ [x]))).map _ = _
      rw [rest, List.map_append, List.map_singleton, volume_concat]
      refine congrArg Except.ok ?_
      ring

/-- How many contexts a node has. -/
def Diagram.contextNumber (d : Diagram) (j : Int) : Nat :=
  Path.number (Path.select d.counts (d.informationSet j))

/-- So many outcomes of a node can be impossible while every context keeps one. -/
def Diagram.CanLose (d : Diagram) (j : Int) (zeros : Int) : Prop :=
  0 ≤ zeros ∧ zeros ≤ (Path.select d.counts (d.informationSet j)).prod * (d.count j - 1)

instance (d : Diagram) (j zeros : Int) : Decidable (d.CanLose j zeros) :=
  inferInstanceAs (Decidable (_ ∧ _))

theorem Diagram.contextNumber_eq (d : Diagram) (j : Int) :
    (d.contextNumber j : Int) = (Path.select d.counts (d.informationSet j)).prod := by
  refine Path.number_eq_prod fun count member => ?_
  obtain ⟨i, parent, rfl⟩ := List.mem_map.mp member
  have range := d.informationSet_below parent
  have positive := d.count_pos range.1 range.2.2
  exact zero_le_one.trans positive

theorem Diagram.canLose_iff {d : Diagram} {j zeros : Int} : d.CanLose j zeros ↔
    0 ≤ zeros ∧ zeros ≤ d.contextNumber j * (d.count j - 1) := by
  rw [contextNumber_eq, CanLose]

/-- A table of exact probabilities of a node, so many of which are zero. -/
structure Diagram.ExactTable (d : Diagram) (j : Int) (zeros : Int) (t : Tensor Rat) : Prop where
  shape : t.shape = d.axes (d.family j)
  nonneg : ∀ x ∈ t.entries, 0 ≤ x
  zeros : t.entries.toList.count 0 = zeros
  possible : ∀ c ∈ d.contexts j, ∃ x ∈ states (d.count j), 0 < t.valueAt (c ++ [x])
  total : ∀ c ∈ d.contexts j, t.total d j c = 1

/-- The items of a list that is as long as there are states, state by state. -/
theorem map_states_getD {count : Int} {row : List Rat} (length : row.length = count.toNat) :
    ((states count).map fun x => row.getD (x - 1).toNat 0) = row := by
  apply List.ext_getElem
  · rw [List.length_map, length_states, length]
  · intro k first second
    rw [List.getElem_map, ← List.getD_eq_getElem _ 0 second]
    simp [states]

namespace Random

open Experiment

variable {contexts count size : Nat}

section Inactive

variable {α : Type} {real : α → Prop}

/-- How many outcomes are taken from some contexts: fewer than there are from each of them. -/
structure FairLosses (contexts count size : Nat) (losses : Keyed Nat Nat) : Prop where
  distinct : losses.keys.Nodup
  context : ∀ e ∈ losses, e.1 < contexts
  few : ∀ e ∈ losses, e.2 < count
  total : losses.values.sum = size

/-- Different places of a pool with so many places for each context. -/
theorem countP_div_le {chosen : List Nat} (distinct : chosen.Nodup) {places : Nat}
    (some : 0 < places) (c : Nat) : chosen.countP (· / places = c) ≤ places := by
  have inside : chosen.filter (· / places = c) ⊆ List.range' (c * places) places := by
    intro k member
    have block := (List.mem_filter.mp member).2
    rw [decide_eq_true_eq, Nat.div_eq_iff some] at block
    rw [List.mem_range'_1]
    omega
  rw [List.countP_eq_length_filter]
  simpa using (List.subperm_of_subset (distinct.filter _) inside).length_le

theorem drawLosses_ensures (some : 1 ≤ count) (fits : size ≤ contexts * (count - 1)) :
    Ensures real (drawLosses contexts count size) (FairLosses contexts count size) := by
  have draws : Ensures real (drawSample (contexts * (count - 1)) size) _ :=
    (drawSample_spans _ _).ensures ⟨List.range size, List.length_range,
      fun k member => by rw [List.mem_range] at member; omega, List.nodup_range⟩ fun _ => id
  refine draws.bind fun chosen ⟨length, below, distinct⟩ => .pure ?_
  generalize merged : chosen.foldl
    (fun losses k => Keyed.update (k / (count - 1)) 0 (· + 1) losses) [] = losses
  have nodup : losses.keys.Nodup :=
    merged ▸ Keyed.nodup_foldl_update chosen (· / (count - 1)) (fun _ => 1) List.nodup_nil
  have drawn : ∀ e ∈ losses, ∃ k ∈ chosen, k / (count - 1) = e.1 := by
    intro e member
    have key := Keyed.mem_keys member
    rw [← merged] at key
    exact ((Keyed.mem_keys_foldl_update chosen (· / (count - 1)) (fun _ => 1) [] e.1).mp
      key).resolve_left List.not_mem_nil
  have value : ∀ e ∈ losses, e.2 = chosen.countP (· / (count - 1) = e.1) := by
    intro e member
    have sum := Keyed.getD_foldl_update chosen (· / (count - 1)) (fun _ => 1) [] e.1
    rw [merged, Keyed.get?_of_mem nodup member, Scalar.sum_ite_eq_countP] at sum
    exact sum.trans (Nat.zero_add _)
  refine ⟨nodup, fun e member => ?_, fun e member => ?_, ?_⟩
  · obtain ⟨k, listed, same⟩ := drawn e member
    rw [← same]
    exact Nat.div_lt_of_lt_mul (by simpa only [Nat.mul_comm] using below k listed)
  · obtain ⟨k, listed, _⟩ := drawn e member
    have places : 0 < count - 1 := Nat.pos_of_mul_pos_left (Nat.zero_lt_of_lt (below k listed))
    have most := countP_div_le distinct places e.1
    rw [value e member]
    omega
  · have sum := Keyed.sum_foldl_update (fun _ : Nat => 1) chosen (· / (count - 1)) (fun _ => 1) []
    simp only [merged, smul_eq_mul, mul_one, List.map_nil, List.sum_nil, zero_add, List.map_const',
      List.sum_replicate, length] at sum
    exact sum

/-- Different outcomes, but not all of them. -/
structure SomeMissing (count : Nat) (lost : List Nat) : Prop where
  distinct : lost.Nodup
  below : ∀ k ∈ lost, k < count
  few : lost.length < count

theorem someMissing_nil (some : 1 ≤ count) : SomeMissing count [] :=
  ⟨List.nodup_nil, by simp, some⟩

/-- So many outcomes, taken from some contexts, none of which loses all of its own. -/
structure TakenAway (contexts count size : Nat) (inactive : Keyed Nat (List Nat)) : Prop where
  distinct : inactive.keys.Nodup
  context : ∀ e ∈ inactive, e.1 < contexts
  missing : ∀ e ∈ inactive, SomeMissing count e.2
  total : (inactive.map fun e => e.2.length).sum = size

theorem drawInactive_ensures (some : 1 ≤ count) (fits : size ≤ contexts * (count - 1)) :
    Ensures real (drawInactive contexts count size) (TakenAway contexts count size) := by
  refine (drawLosses_ensures some fits).bind fun losses fair => ?_
  have each : ∀ e ∈ losses, Ensures real
      (do return (e.1, ← drawSample count e.2)) fun e' =>
        e'.1 = e.1 ∧ e'.2.length = e.2 ∧ SomeMissing count e'.2 := by
    intro e member
    have few := fair.few e member
    have draws : Ensures real (drawSample count e.2) fun lost =>
        lost.length = e.2 ∧ SomeMissing count lost :=
      (drawSample_spans _ _).ensures ⟨List.range e.2, List.length_range,
        fun k member => by rw [List.mem_range] at member; omega, List.nodup_range⟩
        fun lost ⟨length, below, distinct⟩ => ⟨length, distinct, below, length.trans_lt few⟩
    exact draws.bind fun lost fine => .pure ⟨rfl, fine⟩
  refine (Ensures.mapM each).mono fun (inactive : Keyed Nat (List Nat)) paired => ?_
  have keys : losses.keys = inactive.keys :=
    forall₂_eq_iff.mp (paired.imp fun _ _ both => both.1.symm)
  have lengths : losses.values = inactive.map fun e => e.2.length :=
    forall₂_eq_iff.mp (paired.imp fun _ _ both => both.2.1.symm)
  have missing := ((List.forall₂_and_left inactive losses).mp
    (paired.flip.imp fun _ _ both => ⟨both.2.2, both⟩)).1
  refine ⟨keys ▸ fair.distinct, fun e member => ?_, missing, lengths ▸ fair.total⟩
  have key := Keyed.mem_keys member
  rw [← keys] at key
  obtain ⟨e', member', same⟩ := List.mem_map.mp key
  exact same ▸ fair.context e' member'

/-- The outcomes that are taken from a context. -/
def lostIn (inactive : Keyed Nat (List Nat)) (r : Nat) : List Nat := (inactive.get? r).getD []

variable {inactive : Keyed Nat (List Nat)}

theorem TakenAway.someMissing (taken : TakenAway contexts count size inactive) (some : 1 ≤ count)
    (r : Nat) : SomeMissing count (lostIn inactive r) := by
  unfold lostIn
  cases found : inactive.get? r with
  | none => exact someMissing_nil some
  | some lost => exact taken.missing _ (Keyed.mem_of_get? found)

theorem TakenAway.sum_lost (taken : TakenAway contexts count size inactive) :
    ((List.range contexts).map fun r => (lostIn inactive r).length).sum = size := by
  rw [← taken.total]
  refine (Keyed.sum_eq_sum_getD taken.distinct List.nodup_range (fun r key => ?_)
    (fun _ lost => lost.length) fun _ => rfl).symm
  obtain ⟨e, member, rfl⟩ := List.mem_map.mp key
  exact List.mem_range.mpr (taken.context e member)

/-- Whether an outcome of a context is taken away. -/
theorem any_lost (distinct : inactive.keys.Nodup) (r k : Nat) :
    (inactive.any fun (context, lost) => context == r && lost.contains k) =
      decide (k ∈ lostIn inactive r) := by
  rw [Bool.eq_iff_iff, List.any_eq_true, decide_eq_true_eq, lostIn]
  constructor
  · rintro ⟨⟨context, lost⟩, member, both⟩
    rw [Bool.and_eq_true, beq_iff_eq] at both
    obtain ⟨rfl, listed⟩ := both
    rw [Keyed.get?_of_mem distinct member]
    exact List.contains_iff_mem.mp listed
  · intro listed
    cases found : inactive.get? r with
    | none =>
        rw [found] at listed
        cases listed
    | some lost =>
        rw [found] at listed
        exact ⟨(r, lost), Keyed.mem_of_get? found, by simpa using listed⟩

end Inactive

section Rows

/-- A row with zeros at some places. -/
def strike (lost : List Nat) (row : List Rat) : List Rat :=
  row.zipIdx.map fun e => if e.2 ∈ lost then 0 else e.1

/-- The share that each number of a row has in its sum. -/
def shares (row : List Rat) : List Rat := row.map (· / row.sum)

variable {lost : List Nat} {row : List Rat}

theorem length_strike : (strike lost row).length = row.length := by
  rw [strike, List.length_map, List.length_zipIdx]

theorem mem_strike {x : Rat} (positive : ∀ x ∈ row, 0 < x) (member : x ∈ strike lost row) :
    0 ≤ x := by
  obtain ⟨e, listed, rfl⟩ := List.mem_map.mp member
  split
  · exact le_rfl
  · exact (positive _ (List.fst_mem_of_mem_zipIdx listed)).le

/-- The places of a row at which something is missing. -/
theorem countP_missing (missing : SomeMissing count lost) :
    (List.range count).countP (· ∈ lost) = lost.length := by
  have same : ((List.range count).filter (· ∈ lost)).Perm lost := by
    rw [List.perm_ext_iff_of_nodup (List.nodup_range.filter _) missing.distinct]
    intro k
    rw [List.mem_filter, List.mem_range, decide_eq_true_eq]
    exact ⟨And.right, fun member => ⟨missing.below k member, member⟩⟩
  rw [List.countP_eq_length_filter]
  exact same.length_eq

theorem count_strike (missing : SomeMissing count lost) (length : row.length = count)
    (positive : ∀ x ∈ row, 0 < x) : (strike lost row).count 0 = lost.length := by
  have zeros : (strike lost row).count 0 = row.zipIdx.countP fun e => e.2 ∈ lost := by
    rw [strike, List.count, List.countP_map]
    refine List.countP_congr fun e listed => ?_
    have nonzero := (positive _ (List.fst_mem_of_mem_zipIdx listed)).ne'
    simp [nonzero]
  have places : row.zipIdx.map (·.2) = List.range count := by
    rw [List.zipIdx_map_snd, length, List.range_eq_range']
  rw [zeros, ← countP_missing missing, ← places, List.countP_map]
  rfl

/-- A row that keeps a positive number has a positive sum. -/
theorem sum_strike_pos (missing : SomeMissing count lost) (length : row.length = count)
    (positive : ∀ x ∈ row, 0 < x) : 0 < (strike lost row).sum := by
  have nonneg : ∀ x ∈ strike lost row, 0 ≤ x := fun x => mem_strike positive
  have kept : (strike lost row).count 0 < (strike lost row).length := by
    rw [count_strike missing length positive, length_strike, length]
    exact missing.few
  refine lt_of_le_of_ne (List.sum_nonneg nonneg) fun nothing => kept.ne ?_
  exact List.count_eq_length.mpr fun x member =>
    (List.all_zero_of_le_zero_le_of_sum_eq_zero nonneg nothing.symm member).symm

theorem sum_shares (positive : 0 < row.sum) : (shares row).sum = 1 := by
  simp only [shares, div_eq_mul_inv, List.sum_map_mul_right, List.map_id']
  exact mul_inv_cancel₀ positive.ne'

theorem count_shares (positive : 0 < row.sum) : (shares row).count 0 = row.count 0 := by
  have injective : Function.Injective fun x : Rat => x / row.sum :=
    fun _ _ same => (div_left_inj' positive.ne').mp same
  simpa only [shares, zero_div] using List.count_map_of_injective row _ injective 0

/-- A row of exact probabilities, so many of which are zero. -/
structure Fair (count zeros : Nat) (row : List Rat) : Prop where
  length : row.length = count
  nonneg : ∀ x ∈ row, 0 ≤ x
  zeros : row.count 0 = zeros
  total : row.sum = 1

theorem fair_shares (missing : SomeMissing count lost) (length : row.length = count)
    (positive : ∀ x ∈ row, 0 < x) : Fair count lost.length (shares (strike lost row)) where
  length := by rw [shares, List.length_map, length_strike, length]
  nonneg := by
    intro x member
    obtain ⟨y, listed, rfl⟩ := List.mem_map.mp member
    exact div_nonneg (mem_strike positive listed) (sum_strike_pos missing length positive).le
  zeros := by
    rw [count_shares (sum_strike_pos missing length positive), count_strike missing length positive]
  total := sum_shares (sum_strike_pos missing length positive)

end Rows

section Table

/-- The rows of all contexts once their numbers have been drawn and some outcomes taken away. -/
def rowOf (inactive : Keyed Nat (List Nat)) (count : Nat) (xs : List Rat) (r : Nat) : List Rat :=
  shares (strike (lostIn inactive r) ((xs.drop (r * count)).take count))

variable {inactive : Keyed Nat (List Nat)} {xs : List Rat}

theorem normalize_eq (rows : List (List Rat)) : normalize rows = rows.map shares := by
  simp only [normalize, Scalar.pairwiseSum_eq]
  rfl

theorem rows_eq (distinct : inactive.keys.Nodup) :
    normalize (deactivate inactive (cut contexts count xs)) =
      (List.range contexts).map (rowOf inactive count xs) := by
  rw [normalize_eq, deactivate, cut, List.zipIdx_map]
  have places : (List.range contexts).zipIdx = (List.range contexts).map fun r => (r, r) := by
    apply List.ext_getElem <;> simp
  simp only [places, List.map_map, any_lost distinct, decide_eq_true_eq]
  rfl

theorem fair_rowOf (taken : TakenAway contexts count size inactive) (some : 1 ≤ count)
    (length : xs.length = contexts * count) (positive : ∀ x ∈ xs, 0 < x) {r : Nat}
    (context : r < contexts) :
    Fair count (lostIn inactive r).length (rowOf inactive count xs r) := by
  refine fair_shares (taken.someMissing some r) ?_ fun x member =>
    positive x (List.mem_of_mem_drop (List.mem_of_mem_take member))
  have block : (r + 1) * count ≤ contexts * count := Nat.mul_le_mul_right count context
  rw [List.length_take, List.length_drop, length]
  rw [Nat.succ_mul] at block
  omega

/-- Entries of rows of one length that stand one after the other. -/
theorem getD_flatten {rows : List (List Rat)} (lengths : ∀ row ∈ rows, row.length = count)
    {r k : Nat} (below : k < count) (inside : r < rows.length) :
    rows.flatten.getD (r * count + k) 0 = (rows.getD r []).getD k 0 := by
  induction rows generalizing r with
  | nil => cases inside
  | cons row rows ih =>
      obtain ⟨first, rest⟩ := List.forall_mem_cons.mp lengths
      rw [List.flatten_cons]
      cases r with
      | zero =>
          rw [Nat.zero_mul, Nat.zero_add, List.getD_append _ _ _ _ (first ▸ below)]
          rfl
      | succ r =>
          have later : (r + 1) * count + k = row.length + (r * count + k) := by
            rw [first, Nat.succ_mul]
            omega
          rw [later, List.getD_append_right _ _ _ _ (Nat.le_add_right _ _), Nat.add_sub_cancel_left,
            ih rest (Nat.lt_of_succ_lt_succ inside)]
          rfl

theorem entries_tabulate {shape : List Int} (length : xs.length = Path.number shape) :
    (tabulate shape xs).entries.toList = xs := by
  rw [Path.number_eq_volume] at length
  simp only [tabulate, Tensor.generate, Array.toList_ofFn]
  apply List.ext_getElem
  · rw [List.length_ofFn, length]
  · intro k first second
    simp [second]

/-- The entry of a tabulated list at a path is the one at the place of its index. -/
theorem valueAt_tabulate {shape : List Int} {s : Path} (member : s ∈ paths shape) {k : Nat}
    (found : Tensor.place 0 (shape.map Int.toNat) (Path.toIndex s) = .ok k) :
    (tabulate shape xs).valueAt s = xs.getD k 0 := by
  rw [tabulate, Tensor.valueAt, Tensor.get_generate member found]
  simp [Except.toOption]

variable {d : Diagram} {j : Int} {row : Nat → List Rat} {zeros : Nat → Nat}

/-- A table for the family of a node with a row for each context. -/
def tableOf (d : Diagram) (j : Int) (row : Nat → List Rat) : Tensor Rat :=
  tabulate (Path.select d.counts (d.informationSet j) ++ [d.count j])
    ((List.range (d.contextNumber j)).map row).flatten

theorem entries_tableOf (fair : ∀ r < d.contextNumber j, Fair (d.count j).toNat (zeros r) (row r)) :
    (tableOf d j row).entries.toList = ((List.range (d.contextNumber j)).map row).flatten := by
  apply entries_tabulate
  have lengths : ((List.range (d.contextNumber j)).map row).map List.length =
      (List.range (d.contextNumber j)).map fun _ => (d.count j).toNat := by
    rw [List.map_map]
    exact List.map_congr_left fun r member => (fair r (List.mem_range.mp member)).length
  rw [List.length_flatten, lengths, List.map_const', List.sum_replicate, List.length_range,
    Path.number_eq_volume, List.map_append, List.map_singleton, volume_concat, smul_eq_mul,
    Diagram.contextNumber, Path.number_eq_volume]

/-- The entries at the extensions of a context are a row. -/
theorem exists_row (fair : ∀ r < d.contextNumber j, Fair (d.count j).toNat (zeros r) (row r))
    {c : Path} (context : c ∈ d.contexts j) : ∃ r < d.contextNumber j,
      ((InfluenceProgram.states (d.count j)).map fun x => (tableOf d j row).valueAt (c ++ [x])) =
        row r := by
  obtain ⟨r, found, below⟩ := Tensor.place_of_path context 0
  rw [← Path.number_eq_volume] at below
  refine ⟨r, below, ?_⟩
  have length := (fair r below).length
  rw [← map_states_getD length]
  refine List.map_congr_left fun x state => ?_
  have range := mem_states.mp state
  have inside : r < ((List.range (d.contextNumber j)).map row).length := by
    rwa [List.length_map, List.length_range]
  have lengths : ∀ line ∈ (List.range (d.contextNumber j)).map row,
      line.length = (d.count j).toNat := by
    intro line member
    obtain ⟨k, listed, rfl⟩ := List.mem_map.mp member
    exact (fair k (List.mem_range.mp listed)).length
  rw [tableOf, valueAt_tabulate (mem_paths_concat context state)
    (Tensor.place_concat context state found), getD_flatten lengths (by omega) inside,
    List.getD_eq_getElem _ _ inside, List.getElem_map, List.getElem_range]

/-- Rows that are fair make a table that is exact. -/
theorem exactTable (fair : ∀ r < d.contextNumber j, Fair (d.count j).toNat (zeros r) (row r)) :
    d.ExactTable j ((List.range (d.contextNumber j)).map zeros).sum (tableOf d j row) := by
  have total : ∀ c ∈ d.contexts j, (tableOf d j row).total d j c = 1 := by
    intro c context
    obtain ⟨r, below, same⟩ := exists_row fair context
    rw [Tensor.total, same]
    exact (fair r below).total
  refine ⟨?_, fun x member => ?_, ?_, fun c context => ?_, total⟩
  · rw [d.axes_family]
    rfl
  · rw [← Array.mem_toList_iff, entries_tableOf fair, List.mem_flatten] at member
    obtain ⟨line, listed, member⟩ := member
    obtain ⟨r, place, rfl⟩ := List.mem_map.mp listed
    exact (fair r (List.mem_range.mp place)).nonneg x member
  · rw [entries_tableOf fair, List.count_flatten, List.map_map]
    congr 2
    exact List.map_congr_left fun r member => (fair r (List.mem_range.mp member)).zeros
  · refine List.exists_lt_of_sum_lt (fun _ => 0) _ ?_
    rw [List.map_const', List.sum_replicate, smul_zero]
    exact zero_lt_one.trans_eq (total c context).symm

end Table

section Probabilities

variable {d : Diagram} {j : Int}

/-- Places for outcomes that can be impossible: all but one of each context. -/
theorem exists_size (low : 1 ≤ j) (high : j ≤ d.inner) {zeros : Int} (fit : d.CanLose j zeros) :
    ∃ size : Nat, zeros = size ∧ size ≤ d.contextNumber j * ((d.count j).toNat - 1) := by
  have counted := d.count_pos low high
  obtain ⟨nonneg, most⟩ := Diagram.canLose_iff.mp fit
  have places : ((d.count j).toNat - 1 : Nat) = d.count j - 1 := by omega
  refine ⟨zeros.toNat, (Int.toNat_of_nonneg nonneg).symm, ?_⟩
  zify
  rwa [places, Int.toNat_of_nonneg nonneg]

theorem familyCounts_eq (low : 1 ≤ j) (high : j ≤ d.inner) :
    familyCounts d j = .ok (Path.select d.counts (d.informationSet j), d.count j) := by
  have found : d.informationSet? j = .ok (d.informationSet j) :=
    if_pos ⟨low, by rw [Outline.total]; omega⟩
  have counts : d.countsAt (d.informationSet j) = _ := d.contextCounts_eq j
  rw [familyCounts, found, Success.ok_bind, counts, Success.ok_bind, d.countOf_eq low high]
  rfl

theorem takenAway_nil : TakenAway contexts count 0 [] :=
  ⟨List.nodup_nil, by simp, by simp, rfl⟩

/-- What is made of the numbers that were drawn is a table of exact probabilities. -/
theorem exactTable_of_drawn {inactive : Keyed Nat (List Nat)} {xs : List Rat}
    (low : 1 ≤ j) (high : j ≤ d.inner)
    (taken : TakenAway (d.contextNumber j) (d.count j).toNat size inactive)
    (length : xs.length = d.contextNumber j * (d.count j).toNat) (positive : ∀ x ∈ xs, 0 < x) :
    d.ExactTable j size (tabulate (Path.select d.counts (d.informationSet j) ++ [d.count j])
      (normalize (deactivate inactive
        (cut (d.contextNumber j) (d.count j).toNat xs))).flatten) := by
  have counted := d.count_pos low high
  have exact := exactTable fun r below => fair_rowOf taken (by omega) length positive below
  rw [taken.sum_lost] at exact
  rw [rows_eq taken.distinct]
  exact exact

/-- Whatever is drawn makes a table of exact probabilities. -/
theorem probabilities_ensures (low : 1 ≤ j) (high : j ≤ d.inner) {zeros : Int}
    (fit : d.CanLose j zeros) :
    Ensures (fun x : Rat => 0 < x) (probabilities d j zeros) (d.ExactTable j zeros) := by
  have counted := d.count_pos low high
  obtain ⟨nonneg, most⟩ := Diagram.canLose_iff.mp fit
  obtain ⟨size, rfl, fits⟩ := exists_size low high fit
  rw [probabilities, familyCounts_eq low high, ofExcept_ok, done_bind]
  dsimp only
  rw [require_of (decide_eq_true ⟨nonneg, most⟩), done_bind]
  refine (drawUniforms_ensures ⟨1, zero_lt_one⟩ _).bind fun xs ⟨length, positive⟩ => ?_
  split
  · exact (drawInactive_ensures (by omega) fits).bind fun inactive taken =>
      .pure (exactTable_of_drawn low high taken length positive)
  · rename_i none
    obtain rfl : size = 0 := by omega
    exact .bind (.pure takenAway_nil) fun inactive taken =>
      .pure (exactTable_of_drawn low high taken length positive)

/-- Numbers of impossible outcomes that are out of range are refused. -/
theorem probabilities_refused {α : Type} [Scalar α] (low : 1 ≤ j) (high : j ≤ d.inner) {zeros : Int}
    (refused : ¬d.CanLose j zeros) :
    (probabilities d j zeros : Experiment α (Tensor α)) = failed (.domain .inactiveCount) := by
  have fails : ¬decide (0 ≤ zeros ∧ zeros ≤ d.contextNumber j * (d.count j - 1)) = true := by
    rwa [decide_eq_true_eq, ← Diagram.canLose_iff]
  rw [probabilities, familyCounts_eq low high, ofExcept_ok, done_bind]
  exact congrArg (· >>= _) (require_of_not fails .inactiveCount)

end Probabilities

end Random

end InfluenceProgram
