import InfluenceProgram.Keyed
import Mathlib

/-!
What associations hold. The value of a key is that of its first entry, setting a key changes the
value of this key alone, and keys that differ from each other determine the entries.
-/

set_option autoImplicit false

namespace InfluenceProgram.Keyed

variable {κ β γ : Type}

theorem mem_keys {k : κ} {v : β} {m : Keyed κ β} (member : (k, v) ∈ m) : k ∈ m.keys :=
  List.mem_map_of_mem member

theorem keys_map (m : Keyed κ β) (f : β → γ) : keys (m.map fun e => (e.1, f e.2)) = m.keys := by
  rw [keys, List.map_map]
  rfl

theorem get?_map [BEq κ] (m : Keyed κ β) (f : β → γ) (k : κ) :
    get? k (m.map fun e => (e.1, f e.2)) = (m.get? k).map f := by
  induction m with
  | nil => rfl
  | cons entry m ih =>
      obtain ⟨k', v⟩ := entry
      rw [List.map_cons, get?, get?, ih]
      split
      · rfl
      · rfl

variable [BEq κ] [LawfulBEq κ]

theorem get?_cons_self (k : κ) (v : β) (m : Keyed κ β) : get? k ((k, v) :: m) = some v := by
  rw [get?, if_pos (beq_self_eq_true k)]

theorem get?_cons_of_ne {k k' : κ} (different : k' ≠ k) (v : β) (m : Keyed κ β) :
    get? k ((k', v) :: m) = get? k m := by
  rw [get?, if_neg (by simpa using different)]

theorem get?_of_mem {k : κ} {v : β} {m : Keyed κ β} (distinct : m.keys.Nodup)
    (member : (k, v) ∈ m) : m.get? k = some v := by
  induction m with
  | nil => cases member
  | cons entry m ih =>
      obtain ⟨k', v'⟩ := entry
      obtain ⟨fresh, rest⟩ := List.nodup_cons.mp distinct
      rcases List.mem_cons.mp member with same | later
      · cases same
        exact get?_cons_self k v m
      · have different : k' ≠ k := fun same => fresh (same ▸ mem_keys later)
        rw [get?_cons_of_ne different]
        exact ih rest later

theorem mem_of_get? {k : κ} {v : β} {m : Keyed κ β} (found : m.get? k = some v) : (k, v) ∈ m := by
  induction m with
  | nil => cases found
  | cons entry m ih =>
      obtain ⟨k', v'⟩ := entry
      by_cases same : k' = k
      · subst same
        rw [get?_cons_self, Option.some.injEq] at found
        rw [found]
        exact List.mem_cons_self
      · rw [get?_cons_of_ne same] at found
        exact List.mem_cons_of_mem _ (ih found)

theorem get?_of_not_mem_keys {k : κ} {m : Keyed κ β} (absent : k ∉ m.keys) : m.get? k = none := by
  cases found : m.get? k with
  | none => rfl
  | some v => exact absurd (mem_keys (mem_of_get? found)) absent

theorem exists_of_mem_keys {k : κ} {m : Keyed κ β} (member : k ∈ m.keys) :
    ∃ v, m.get? k = some v := by
  induction m with
  | nil => cases member
  | cons entry m ih =>
      obtain ⟨k', v'⟩ := entry
      by_cases same : k' = k
      · subst same
        exact ⟨v', get?_cons_self k' v' m⟩
      · rw [get?_cons_of_ne same]
        exact ih ((List.mem_cons.mp member).resolve_left (Ne.symm same))

/-- The values under nodes that are tabulated one by one. -/
theorem get?_map_of_mem {nodes : List κ} (value : κ → β) {k : κ} (member : k ∈ nodes) :
    get? k (nodes.map fun j => (j, value j)) = some (value k) := by
  induction nodes with
  | nil => cases member
  | cons j nodes ih =>
      by_cases same : j = k
      · subst same
        exact get?_cons_self j _ _
      · rw [List.map_cons, get?_cons_of_ne same]
        exact ih ((List.mem_cons.mp member).resolve_left (Ne.symm same))

/-- A value computed from each entry is one computed from each key. -/
theorem map_eq_map_keys {m : Keyed κ β} (distinct : m.keys.Nodup) (f : κ → β → γ)
    (g : κ → Option β → γ) (agree : ∀ k v, g k (some v) = f k v) :
    (m.map fun entry => f entry.1 entry.2) = m.keys.map fun k => g k (m.get? k) := by
  rw [keys, List.map_map]
  apply List.map_congr_left
  rintro ⟨k, v⟩ member
  rw [Function.comp_apply, get?_of_mem distinct member, agree]

/-- An association without repeated keys lists the value of each key. -/
theorem eq_map_keys {m : Keyed κ β} (distinct : m.keys.Nodup) (missing : β) :
    m = m.keys.map fun k => (k, (m.get? k).getD missing) := by
  have listed := map_eq_map_keys distinct (fun k v => (k, v)) (fun k v? => (k, v?.getD missing))
    fun _ _ => rfl
  exact (List.map_id _).symm.trans listed

/-- An association in another order has the same values. -/
theorem get?_perm {m m' : Keyed κ β} (distinct : m.keys.Nodup) (same : m'.Perm m) (k : κ) :
    m'.get? k = m.get? k := by
  have distinct' : m'.keys.Nodup := (same.map _).nodup_iff.mpr distinct
  cases found : m.get? k with
  | some v => exact get?_of_mem distinct' (same.mem_iff.mpr (mem_of_get? found))
  | none =>
      apply get?_of_not_mem_keys
      intro member
      obtain ⟨v, present⟩ := exists_of_mem_keys ((same.map _).mem_iff.mp member)
      cases found.symm.trans present

theorem get?_set_self (k : κ) (v : β) (m : Keyed κ β) : (m.set k v).get? k = some v := by
  induction m with
  | nil => exact get?_cons_self k v []
  | cons entry m ih =>
      obtain ⟨k', v'⟩ := entry
      by_cases same : k' = k
      · subst same
        rw [set, if_pos (beq_self_eq_true k'), get?_cons_self]
      · rw [set, if_neg (by simpa using same), get?_cons_of_ne same, ih]

theorem get?_set_of_ne {k k' : κ} (different : k' ≠ k) (v : β) (m : Keyed κ β) :
    (m.set k' v).get? k = m.get? k := by
  induction m with
  | nil => exact get?_cons_of_ne different v []
  | cons entry m ih =>
      obtain ⟨key, old⟩ := entry
      by_cases same : key = k'
      · subst same
        rw [set, if_pos (beq_self_eq_true key), get?_cons_of_ne different,
          get?_cons_of_ne different]
      · rw [set, if_neg (by simpa using same)]
        by_cases here : key = k
        · subst here
          rw [get?_cons_self, get?_cons_self]
        · rw [get?_cons_of_ne here, get?_cons_of_ne here, ih]

theorem mem_keys_set {k k' : κ} {v : β} {m : Keyed κ β} :
    k' ∈ (m.set k v).keys ↔ k' = k ∨ k' ∈ m.keys := by
  induction m with
  | nil => exact List.mem_cons
  | cons entry m ih =>
      obtain ⟨key, old⟩ := entry
      rw [set]
      split
      · rename_i same
        rw [eq_of_beq same]
        simp only [keys, List.map_cons, List.mem_cons, or_self_left]
      · simp only [keys, List.map_cons, List.mem_cons] at ih ⊢
        rw [ih]
        exact or_left_comm

/-- Setting a key repeats none. -/
theorem nodup_set {m : Keyed κ β} (distinct : m.keys.Nodup) (k : κ) (v : β) :
    (m.set k v).keys.Nodup := by
  induction m with
  | nil => exact List.nodup_singleton k
  | cons entry m ih =>
      obtain ⟨key, old⟩ := entry
      obtain ⟨fresh, rest⟩ := List.nodup_cons.mp distinct
      rw [set]
      split
      · exact distinct
      · rename_i different
        refine List.nodup_cons.mpr ⟨fun present => ?_, ih rest⟩
        rcases mem_keys_set.mp present with same | old
        · exact different (beq_iff_eq.mpr same)
        · exact fresh old

end InfluenceProgram.Keyed
