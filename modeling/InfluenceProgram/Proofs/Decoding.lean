import InfluenceProgram.Proofs.Emitted

/-!
Reading a strategy off the values of choices. If in each context of a node the values of exactly one
state are above one half, then decoding succeeds and takes this state, in whatever order the keys
come.
-/

set_option autoImplicit false

namespace InfluenceProgram

namespace LocalStrategy

/-- One step of decoding: a choice that is made is entered under its context. -/
def enter (l : LocalStrategy) (entry : Path × Rat) : LocalStrategy :=
  if 1 / 2 < entry.2 then l.set entry.1.dropLast (entry.1.getLastD 0) else l

theorem half_eq : (Scalar.decimal 5 1 : Rat) = 1 / 2 := by
  change mkRat 5 (Nat.pow 10 1) = _
  norm_num [Rat.mkRat_eq_div]

theorem decode_eq {values : List (Path × Rat)} (nonempty : ∀ e ∈ values, e.1 ≠ []) :
    decode values = .ok (values.foldl enter []) := by
  rw [decode, decodeChoices]
  apply Success.foldlM_eq
  rintro l ⟨key, value⟩ member
  have some : key.getLast? = some (key.getLastD 0) := by
    rw [List.getLast?_eq_getLast_of_ne_nil (nonempty _ member), List.getLastD_eq_getLast?,
      List.getLast?_eq_getLast_of_ne_nil (nonempty _ member), Option.getD_some]
  change (if decide (Scalar.decimal 5 1 < value) = true then _ else _) = _
  rw [half_eq, enter]
  by_cases made : 1 / 2 < value
  · rw [if_pos (decide_eq_true made), if_pos made, split, some]
    rfl
  · rw [if_neg (by simpa using made), if_neg made]
    rfl

/-- If all choices made in a context take one state, the context gets this state. -/
theorem get?_foldl_enter {values : List (Path × Rat)} {c : Path} {y : Int}
    (only : ∀ e ∈ values, 1 / 2 < e.2 → e.1.dropLast = c → e.1.getLastD 0 = y)
    (l : LocalStrategy)
    (entered : l.get? c = some y ∨ ∃ e ∈ values, 1 / 2 < e.2 ∧ e.1.dropLast = c) :
    (values.foldl enter l).get? c = some y := by
  induction values generalizing l with
  | nil =>
      rcases entered with found | ⟨e, absent, _⟩
      · exact found
      · cases absent
  | cons e values ih =>
      have rest := fun e' member => only e' (List.mem_cons_of_mem e member)
      apply ih rest
      by_cases here : 1 / 2 < e.2 ∧ e.1.dropLast = c
      · apply Or.inl
        rw [enter, if_pos here.1, here.2, only e List.mem_cons_self here.1 here.2,
          Keyed.get?_set_self]
      · rcases entered with found | ⟨e', member, made⟩
        · apply Or.inl
          rw [enter]
          split
          · rename_i made
            rw [Keyed.get?_set_of_ne fun same => here ⟨made, same⟩, found]
          · exact found
        · rcases List.mem_cons.mp member with rfl | later
          · exact absurd made here
          · exact Or.inr ⟨e', later, made⟩

/-- Decoding takes in each context the state whose value alone is above one half. -/
theorem decode_of_unique {d : Diagram} {j : Int} {keys : List Path}
    (same : ∀ key, key ∈ keys ↔ key ∈ d.choiceKeys j) {value : Path → Rat} {chosen : Path → Int}
    (state : ∀ c ∈ d.contexts j, chosen c ∈ states (d.count j))
    (made : ∀ c ∈ d.contexts j, ∀ y ∈ states (d.count j),
      1 / 2 < value (c ++ [y]) ↔ y = chosen c) :
    ∃ l, decode (keys.map fun key => (key, value key)) = .ok l ∧
      ∀ c ∈ d.contexts j, l.get? c = some (chosen c) := by
  have split : ∀ e ∈ keys.map fun key => (key, value key), ∃ c ∈ d.contexts j,
      ∃ y ∈ states (d.count j), e = (c ++ [y], value (c ++ [y])) := by
    intro e member
    obtain ⟨key, present, rfl⟩ := List.mem_map.mp member
    obtain ⟨c, context, y, inside, rfl⟩ := Diagram.mem_paths_family.mp ((same key).mp present)
    exact ⟨c, context, y, inside, rfl⟩
  refine ⟨_, decode_eq ?_, fun c context => get?_foldl_enter ?_ [] (Or.inr ?_)⟩
  · intro e member
    obtain ⟨c, _, y, _, rfl⟩ := split e member
    simp
  · intro e member above here
    obtain ⟨c', context', y, inside, rfl⟩ := split e member
    simp only [List.dropLast_concat] at here
    subst here
    simpa using (made c' context' y inside).mp above
  · have member : c ++ [chosen c] ∈ keys :=
      (same _).mpr (Diagram.mem_paths_family.mpr ⟨c, context, chosen c, state c context, rfl⟩)
    refine ⟨_, List.mem_map.mpr ⟨_, member, rfl⟩, ?_, List.dropLast_concat⟩
    exact (made c context _ (state c context)).mpr rfl

end LocalStrategy

namespace Strategy

/-- A strategy is decoded node by node. -/
theorem decode_of_unique {d : Diagram} (value : Int → Path → Rat) (chosen : Int → Path → Int)
    {values : Keyed Int (Keyed Path Rat)}
    (given : ∀ j ∈ d.decision, ∃ keys : List Path, (∀ key, key ∈ keys ↔ key ∈ d.choiceKeys j) ∧
      values.get? j = some (keys.map fun key => (key, value j key)))
    (state : ∀ j ∈ d.decision, ∀ c ∈ d.contexts j, chosen j c ∈ states (d.count j))
    (made : ∀ j ∈ d.decision, ∀ c ∈ d.contexts j, ∀ y ∈ states (d.count j),
      1 / 2 < value j (c ++ [y]) ↔ y = chosen j c) :
    ∃ σ, decode d values = .ok σ ∧
      ∀ j ∈ d.decision, ∀ c ∈ d.contexts j, σ.choose? j c = some (chosen j c) := by
  have each : ∀ j ∈ d.decision, ∃ table l, values.get? j = some table ∧
      LocalStrategy.decode table = .ok l ∧ ∀ c ∈ d.contexts j, l.get? c = some (chosen j c) := by
    intro j decision
    obtain ⟨keys, same, found⟩ := given j decision
    obtain ⟨l, decoded, choices⟩ :=
      LocalStrategy.decode_of_unique same (state j decision) (made j decision)
    exact ⟨_, l, found, decoded, choices⟩
  choose! table locals found decoded choices using each
  refine ⟨d.decision.map fun j => (j, locals j), ?_, ?_⟩
  · refine Success.mapM_eq fun j decision => ?_
    rw [found j decision]
    simp only [decoded j decision]
    rfl
  · intro j decision c context
    rw [choose?, Keyed.get?_map_of_mem locals decision]
    exact choices j decision c context

end Strategy

end InfluenceProgram
