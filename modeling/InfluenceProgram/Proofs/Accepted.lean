import InfluenceProgram.Proofs.Context
import InfluenceProgram.Proofs.Keyed
import InfluenceProgram.Proofs.Table

/-!
Problems whose tables passed every check. The checks of a table are equivalent to what they are
for: its axes are those of its node, no probability is negative, and the probabilities of each
context add up to one up to the tolerance.
-/

set_option autoImplicit false

namespace InfluenceProgram

/-- The axes of a table over some nodes. -/
def Diagram.axes (d : Diagram) (nodes : List Int) : List Nat :=
  (Path.select d.counts nodes).map Int.toNat

/-- What the entries at the extensions of a context add up to. -/
def Tensor.total (t : Tensor Rat) (d : Diagram) (j : Int) (c : Path) : Rat :=
  ((states (d.count j)).map fun x => t.valueAt (c ++ [x])).sum

theorem Diagram.axes_family (d : Diagram) (j : Int) :
    d.axes (d.family j) =
      (Path.select d.counts (d.informationSet j) ++ [d.count j]).map Int.toNat := by
  rw [axes, select_family]
  rfl

/-- The check of one context compares the exact total with one. -/
theorem checkTotal_iff {d : Diagram} {j : Int} {t : Tensor Rat}
    (shape : t.shape = d.axes (d.family j)) {c : Path} (context : c ∈ d.contexts j)
    (fault : Rat → Fault) :
    (t.row c (d.count j) >>= fun row =>
        if Scalar.distance (Scalar.pairwiseSum row) 1 ≤ probabilityTolerance then .ok ()
        else .error (fault (Scalar.pairwiseSum row))) = .ok () ↔
      |t.total d j c - 1| ≤ probabilityTolerance := by
  rw [d.axes_family] at shape
  rw [Tensor.row_of_context shape context, Success.ok_bind, Scalar.pairwiseSum_eq,
    Scalar.distance_eq]
  change (if |t.total d j c - 1| ≤ probabilityTolerance then _ else _) = _ ↔ _
  split <;> simp_all

theorem checkProbabilities_iff {d : Diagram} {j : Int} (low : 1 ≤ j) (high : j ≤ d.inner)
    (t : Tensor Rat) :
    checkProbabilities d j t = .ok () ↔
      t.shape = d.axes (d.family j) ∧ (∀ x ∈ t.entries, 0 ≤ x) ∧
        ∀ c ∈ d.contexts j, |t.total d j c - 1| ≤ probabilityTolerance := by
  have finite : t.entries.all Scalar.isFinite = true := by
    rw [Array.all_eq_true]
    exact fun _ _ => rfl
  have signs : t.entries.any (· < 0) = true ↔ ¬∀ x ∈ t.entries, 0 ≤ x := by
    rw [Array.any_eq_true']
    simp
  simp only [checkProbabilities, d.contextCounts_eq, d.countOf_eq low high, Success.ok_bind,
    ← d.axes_family, finite]
  by_cases shape : t.shape = d.axes (d.family j)
  · by_cases signed : ∀ x ∈ t.entries, 0 ≤ x
    · have none : ¬t.entries.any (· < 0) = true := fun any => signs.mp any signed
      rw [if_neg (not_not.mpr shape), if_neg (by simp), if_neg none, Success.forM_iff]
      have each := fun c context =>
        checkTotal_iff (c := c) shape context fun total =>
          .table (.int j) (.total (Scalar.shown total) c)
      constructor
      · intro checked
        exact ⟨shape, signed, fun c context => (each c context).mp (checked c context)⟩
      · intro fine c context
        exact (each c context).mpr (fine.2.2 c context)
    · rw [if_neg (not_not.mpr shape), if_neg (by simp), if_pos (signs.mpr signed)]
      simp [signed]
  · rw [if_pos shape]
    simp [shape]

theorem checkUtilities_iff {d : Diagram} {v : Int} (t : Tensor Rat) :
    checkUtilities d v t = .ok () ↔ t.shape = d.axes (d.informationSet v) := by
  have finite : t.entries.all Scalar.isFinite = true := by
    rw [Array.all_eq_true]
    exact fun _ _ => rfl
  simp only [checkUtilities, d.contextCounts_eq, Success.ok_bind, finite]
  change (if t.shape ≠ d.axes (d.informationSet v) then _ else _) = _ ↔ _
  by_cases shape : t.shape = d.axes (d.informationSet v) <;> simp [shape]

/-- What is read for some nodes one by one stands under these nodes. -/
theorem tables_of_mapM {β : Type} {nodes : List Int} {table : Int → Except Fault β}
    {tables : Keyed Int β}
    (read : (nodes.mapM fun j => return (j, ← table j)) = .ok tables) :
    tables.keys = nodes ∧ ∀ j t, (j, t) ∈ tables → table j = .ok t := by
  have each := Success.mapM_iff.mp read
  have entry : ∀ j e, (do return (j, ← table j)) = Except.ok e → e.1 = j ∧ table j = .ok e.2 := by
    intro j e found
    obtain ⟨t, tableOk, same⟩ := Success.bind_iff.mp found
    cases Except.ok.inj same
    exact ⟨rfl, tableOk⟩
  induction each with
  | nil => exact ⟨rfl, fun _ _ member => absurd member List.not_mem_nil⟩
  | @cons j e nodes tables head rest ih =>
      obtain ⟨keys, values⟩ := ih (Success.mapM_iff.mpr rest)
      obtain ⟨same, tableOk⟩ := entry j e head
      constructor
      · rw [Keyed.keys, List.map_cons, same]
        exact congrArg _ keys
      · intro i t member
        rcases List.mem_cons.mp member with rfl | later
        · obtain rfl : i = j := same
          exact tableOk
        · exact values i t later

namespace Problem

/-- What the probability tables of a problem are once they have been checked. -/
structure Weighed (p : Problem Rat) : Prop where
  keys : p.probabilities.keys = p.diagram.chance
  shape : ∀ j t, (j, t) ∈ p.probabilities → t.shape = p.diagram.axes (p.diagram.family j)
  nonneg : ∀ j t, (j, t) ∈ p.probabilities → ∀ x ∈ t.entries, 0 ≤ x
  total : ∀ j t, (j, t) ∈ p.probabilities → ∀ c ∈ p.diagram.contexts j,
    |t.total p.diagram j c - 1| ≤ probabilityTolerance

/-- What the utility tables of a problem are once they have been checked. -/
structure Valued (p : Problem Rat) : Prop where
  keys : p.utilities.keys = p.diagram.value
  shape : ∀ v t, (v, t) ∈ p.utilities → t.shape = p.diagram.axes (p.diagram.informationSet v)

instance (p : Problem Rat) : Decidable p.Weighed :=
  decidable_of_iff (p.probabilities.keys = p.diagram.chance ∧ ∀ e ∈ p.probabilities,
      e.2.shape = p.diagram.axes (p.diagram.family e.1) ∧ (∀ x ∈ e.2.entries, 0 ≤ x) ∧
        ∀ c ∈ p.diagram.contexts e.1, |e.2.total p.diagram e.1 c - 1| ≤ probabilityTolerance)
    ⟨fun ⟨keys, each⟩ => ⟨keys, fun _ _ member => (each _ member).1,
        fun _ _ member => (each _ member).2.1, fun _ _ member => (each _ member).2.2⟩,
      fun weighed => ⟨weighed.keys, fun e member => ⟨weighed.shape e.1 e.2 member,
        weighed.nonneg e.1 e.2 member, weighed.total e.1 e.2 member⟩⟩⟩

instance (p : Problem Rat) : Decidable p.Valued :=
  decidable_of_iff (p.utilities.keys = p.diagram.value ∧
      ∀ e ∈ p.utilities, e.2.shape = p.diagram.axes (p.diagram.informationSet e.1))
    ⟨fun ⟨keys, each⟩ => ⟨keys, fun _ _ member => each _ member⟩,
      fun valued => ⟨valued.keys, fun e member => valued.shape e.1 e.2 member⟩⟩

section Checked

variable {α : Type} [Scalar α] {d : Diagram} {tables : Keyed Int (Tensor α)}

/-- The probability tables that validation returns have passed the check of their node. -/
theorem probabilities_checked {X : Keyed Int (Supplied α)}
    (valid : validateProbabilities d X = .ok tables) :
    tables.keys = d.chance ∧ ∀ j t, (j, t) ∈ tables → checkProbabilities d j t = .ok () := by
  unfold validateProbabilities at valid
  split at valid
  · cases valid
  · obtain ⟨keys, read⟩ := tables_of_mapM valid
    refine ⟨keys, fun j t member => ?_⟩
    have found := read j t member
    unfold probabilityTable at found
    split at found
    · cases found
    · obtain ⟨_, _, rest⟩ := Success.bind_iff.mp found
      obtain ⟨_, check, same⟩ := Success.bind_iff.mp rest
      cases Except.ok.inj same
      exact check

/-- The utility tables that validation returns have passed the check of their node. -/
theorem utilities_checked {Y : Keyed Int (Supplied α)}
    (valid : validateUtilities d Y = .ok tables) :
    tables.keys = d.value ∧ ∀ v t, (v, t) ∈ tables → checkUtilities d v t = .ok () := by
  unfold validateUtilities at valid
  split at valid
  · cases valid
  · obtain ⟨keys, read⟩ := tables_of_mapM valid
    refine ⟨keys, fun v t member => ?_⟩
    have found := read v t member
    unfold utilityTable at found
    split at found
    · cases found
    · obtain ⟨_, _, rest⟩ := Success.bind_iff.mp found
      obtain ⟨_, check, same⟩ := Success.bind_iff.mp rest
      cases Except.ok.inj same
      exact check

end Checked

theorem weighed_of_validate {p : Problem Rat} {X : Keyed Int (Supplied Rat)}
    (valid : validateProbabilities p.diagram X = .ok p.probabilities) : p.Weighed := by
  obtain ⟨keys, checked⟩ := probabilities_checked valid
  have inner := fun {j t} (member : (j, t) ∈ p.probabilities) =>
    p.diagram.inner_of_chance (keys ▸ Keyed.mem_keys member)
  have fine := fun j t member =>
    (checkProbabilities_iff (inner member).1 (inner member).2 t).mp (checked j t member)
  exact ⟨keys, fun j t member => (fine j t member).1, fun j t member => (fine j t member).2.1,
    fun j t member => (fine j t member).2.2⟩

theorem valued_of_validate {p : Problem Rat} {Y : Keyed Int (Supplied Rat)}
    (valid : validateUtilities p.diagram Y = .ok p.utilities) : p.Valued := by
  obtain ⟨keys, checked⟩ := utilities_checked valid
  exact ⟨keys, fun v t member => (checkUtilities_iff t).mp (checked v t member)⟩

/-- A problem whose tables are those that validation returns for some given tables. -/
def Accepted (p : Problem Rat) : Prop := ∃ X Y, Problem.create p.diagram X Y = .ok p

theorem Accepted.validated {p : Problem Rat} (accepted : p.Accepted) :
    (∃ X, validateProbabilities p.diagram X = .ok p.probabilities) ∧
      ∃ Y, validateUtilities p.diagram Y = .ok p.utilities := by
  obtain ⟨X, Y, created⟩ := accepted
  obtain ⟨probabilities, validX, rest⟩ := Success.bind_iff.mp created
  obtain ⟨utilities, validY, same⟩ := Success.bind_iff.mp rest
  have made := Except.ok.inj same
  have sameX : probabilities = p.probabilities := congrArg Problem.probabilities made
  have sameY : utilities = p.utilities := congrArg Problem.utilities made
  exact ⟨⟨X, sameX ▸ validX⟩, ⟨Y, sameY ▸ validY⟩⟩

theorem Accepted.weighed {p : Problem Rat} (accepted : p.Accepted) : p.Weighed :=
  weighed_of_validate accepted.validated.1.choose_spec

theorem Accepted.valued {p : Problem Rat} (accepted : p.Accepted) : p.Valued :=
  valued_of_validate accepted.validated.2.choose_spec

/-- The tables of a problem as somebody would give them. -/
def given {α : Type} (tables : Keyed Int (Tensor α)) : Keyed Int (Supplied α) :=
  tables.map fun e => (e.1, .table e.2)

theorem keys_given {α : Type} (tables : Keyed Int (Tensor α)) :
    (given tables).keys = tables.keys := by
  rw [Keyed.keys, given, List.map_map]
  rfl

/-- No node is extra if every node may have a table. -/
theorem leastExtra?_eq_none {given allowed : List Int} (within : given ⊆ allowed) :
    leastExtra? given allowed = none := by
  have nothing : given.filter (fun j => !allowed.contains j) = [] := by
    rw [List.filter_eq_nil_iff]
    intro j member
    simp [within member]
  rw [leastExtra?, nothing]
  rfl

/-- Tables that pass the check of their node are returned as they were given. -/
theorem mapM_given {tables : Keyed Int (Tensor Rat)} (distinct : tables.keys.Nodup)
    {table : Int → Option (Supplied Rat) → Except Fault (Tensor Rat)}
    (fine : ∀ j t, (j, t) ∈ tables → table j (some (.table t)) = .ok t) :
    (tables.keys.mapM fun j => return (j, ← table j ((given tables).get? j))) = .ok tables := by
  rw [Success.mapM_iff, Keyed.keys, List.forall₂_map_left_iff, List.forall₂_same]
  rintro ⟨j, t⟩ member
  have found : (given tables).get? j = some (.table t) := by
    apply Keyed.get?_of_mem
    · rw [keys_given]
      exact distinct
    · exact List.mem_map.mpr ⟨(j, t), member, rfl⟩
  rw [found, fine j t member]
  rfl

theorem Weighed.validate_given {p : Problem Rat} (weighed : p.Weighed) :
    validateProbabilities p.diagram (given p.probabilities) = .ok p.probabilities := by
  rw [validateProbabilities, keys_given, weighed.keys, leastExtra?_eq_none (List.Subset.refl _),
    ← weighed.keys]
  refine mapM_given (weighed.keys ▸ p.diagram.nodup_chance) fun j t member => ?_
  have inner := p.diagram.inner_of_chance (weighed.keys ▸ Keyed.mem_keys member)
  have checked := (checkProbabilities_iff inner.1 inner.2 t).mpr
    ⟨weighed.shape j t member, weighed.nonneg j t member, weighed.total j t member⟩
  rw [probabilityTable, Supplied.tensor, Success.ok_bind, checked]
  rfl

theorem Valued.validate_given {p : Problem Rat} (valued : p.Valued) :
    validateUtilities p.diagram (given p.utilities) = .ok p.utilities := by
  rw [validateUtilities, keys_given, valued.keys, leastExtra?_eq_none (List.Subset.refl _),
    ← valued.keys]
  refine mapM_given (valued.keys ▸ p.diagram.nodup_value) fun v t member => ?_
  rw [utilityTable, Supplied.tensor, Success.ok_bind,
    (checkUtilities_iff t).mpr (valued.shape v t member)]
  rfl

/-- Validation accepts exactly the problems whose tables are as they should be. -/
theorem accepted_iff (p : Problem Rat) : p.Accepted ↔ p.Weighed ∧ p.Valued := by
  constructor
  · intro accepted
    exact ⟨accepted.weighed, accepted.valued⟩
  · rintro ⟨weighed, valued⟩
    refine ⟨given p.probabilities, given p.utilities, ?_⟩
    rw [create, weighed.validate_given, Success.ok_bind, valued.validate_given]
    rfl

/-- The weather is seen before an umbrella is taken or left, and both decide what is felt. -/
def umbrella : Problem Rat where
  diagram := {
    toOutline := Outline.ofLists [1] [2] [3] [(1, 2), (1, 3), (2, 3)]
    counts := [2, 2]
    layered := (@Outline.layered_of_defect [1] [2] [3] [(1, 2), (1, 3), (2, 3)] 2 rfl).1
    counts_length := rfl
    counts_pos := by decide }
  probabilities := [(1, ⟨[2], #[3 / 10, 7 / 10], rfl⟩)]
  utilities := [(3, ⟨[2, 2], #[1, 2, 0, 3], rfl⟩)]

theorem umbrella_accepted : umbrella.Accepted := umbrella.accepted_iff.mpr (by decide +kernel)

end Problem

end InfluenceProgram
