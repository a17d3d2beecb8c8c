import InfluenceProgram.Proofs.Exact
import InfluenceProgram.Proofs.Keyed

/-!
Amounts that are merged under keys. What is added step by step under the key of each step stands
under this key in the end, and a sum over the entries is one over the steps.
-/

set_option autoImplicit false

namespace InfluenceProgram.Keyed

section Weighted

variable {κ R : Type} {M : Type*} [BEq κ] [LawfulBEq κ] [Semiring R] [AddCommMonoid M]
  [Module R M] (f : κ → M)

/-- Adding to the mass of a value adds to a weighted sum what the value counts for. -/
theorem sum_update (mass : Keyed κ R) (u : κ) (weight : R) :
    ((mass.update u 0 (· + weight)).map fun e => e.2 • f e.1).sum =
      (mass.map fun e => e.2 • f e.1).sum + weight • f u := by
  induction mass with
  | nil =>
      change (0 + weight) • f u + 0 = 0 + weight • f u
      rw [zero_add, add_zero, zero_add]
  | cons entry mass ih =>
      obtain ⟨u', weight'⟩ := entry
      rw [update] at ih ⊢
      by_cases same : u' = u
      · subst same
        rw [set, if_pos (beq_self_eq_true u'), get?_cons_self]
        simp only [List.map_cons, List.sum_cons, Option.getD_some, add_smul]
        exact add_right_comm _ _ _
      · rw [set, if_neg (by simpa using same), get?_cons_of_ne same]
        simp only [List.map_cons, List.sum_cons, ih, add_assoc]

theorem sum_foldl_update {α : Type} (steps : List α) (value : α → κ) (weight : α → R)
    (mass : Keyed κ R) :
    ((steps.foldl (fun mass s => update (value s) 0 (· + weight s) mass) mass).map
        fun e => e.2 • f e.1).sum =
      (mass.map fun e => e.2 • f e.1).sum + (steps.map fun s => weight s • f (value s)).sum := by
  induction steps generalizing mass with
  | nil => simp
  | cons s steps ih =>
      rw [List.foldl_cons, ih, sum_update, List.map_cons, List.sum_cons, add_assoc]

end Weighted

section Steps

variable {α κ M : Type} [DecidableEq κ] [AddCommMonoid M] (steps : List α) (value : α → κ)
  (weight : α → M)

theorem getD_update (mass : Keyed κ M) (u v : κ) (weight : M) :
    ((mass.update u 0 (· + weight)).get? v).getD 0 =
      (mass.get? v).getD 0 + if u = v then weight else 0 := by
  rw [update]
  split
  · rename_i same
    subst same
    rw [get?_set_self, Option.getD_some]
  · rename_i different
    rw [get?_set_of_ne different, add_zero]

/-- What is merged under one value adds up. -/
theorem getD_foldl_update (mass : Keyed κ M) (u : κ) :
    ((steps.foldl (fun mass s => update (value s) 0 (· + weight s) mass) mass).get? u).getD 0 =
      (mass.get? u).getD 0 + (steps.map fun s => if value s = u then weight s else 0).sum := by
  induction steps generalizing mass with
  | nil => simp
  | cons s steps ih =>
      rw [List.foldl_cons, ih, getD_update, List.map_cons, List.sum_cons, add_assoc]

theorem mem_keys_foldl_update (mass : Keyed κ M) (u : κ) :
    u ∈ keys (steps.foldl (fun mass s => update (value s) 0 (· + weight s) mass) mass) ↔
      u ∈ mass.keys ∨ ∃ s ∈ steps, value s = u := by
  induction steps generalizing mass with
  | nil => simp
  | cons s steps ih =>
      rw [List.foldl_cons, ih, update, mem_keys_set, or_assoc, or_left_comm]
      simp only [List.exists_mem_cons_iff, eq_comm]

theorem nodup_foldl_update {mass : Keyed κ M} (distinct : mass.keys.Nodup) :
    (keys (steps.foldl (fun mass s => update (value s) 0 (· + weight s) mass) mass)).Nodup := by
  induction steps generalizing mass with
  | nil => exact distinct
  | cons s steps ih => exact ih (nodup_set distinct _ _)

end Steps

/-- A sum over entries is one over any keys that include theirs, where a key that is new counts as
nothing. -/
theorem sum_eq_sum_getD {κ β M : Type} [BEq κ] [LawfulBEq κ] [AddCommMonoid M] {m : Keyed κ β}
    (distinct : m.keys.Nodup) {all : List κ} (nodup : all.Nodup) (within : ∀ k ∈ m.keys, k ∈ all)
    (f : κ → β → M) {missing : β} (nothing : ∀ k, f k missing = 0) :
    (m.map fun e => f e.1 e.2).sum = (all.map fun k => f k ((m.get? k).getD missing)).sum := by
  have listed : m.keys.Perm (all.filter (· ∈ m.keys)) := by
    rw [List.perm_ext_iff_of_nodup distinct (nodup.filter _)]
    intro k
    rw [List.mem_filter, decide_eq_true_eq]
    exact ⟨fun member => ⟨within k member, member⟩, fun member => member.2⟩
  rw [map_eq_map_keys distinct f (fun k v => f k (v.getD missing)) fun _ _ => rfl,
    (listed.map _).sum_eq]
  refine Scalar.sum_filter_eq fun k _ absent => ?_
  rw [get?_of_not_mem_keys absent, Option.getD_none, nothing]

end InfluenceProgram.Keyed
