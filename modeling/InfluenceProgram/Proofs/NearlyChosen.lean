import InfluenceProgram.Proofs.DecodedPlan
import InfluenceProgram.Proofs.Following

/-!
Choices with values that are nearly zero or one. If the values of a context nearly add up to one,
then exactly one of them is nearly one, so a complete strategy can be read off them, and it has the
state of this value. The slack that this leaves shrinks with the number of states of a node. Zeros
and ones themselves leave no doubt, so every complete strategy is read off its own choices.
-/

set_option autoImplicit false

namespace InfluenceProgram

/-- Values near zero or one add up to about the number of those above one half. -/
theorem abs_sum_sub_le {xs : List Int} {f : Int → Rat} {slack : Rat} (few : slack < 1 / 2)
    (near : ∀ x ∈ xs, |f x| ≤ slack ∨ |f x - 1| ≤ slack) :
    |(xs.map f).sum - (xs.map fun x => if 1 / 2 < f x then (1 : Rat) else 0).sum| ≤
      xs.length * slack := by
  induction xs with
  | nil => simp
  | cons x xs ih =>
      obtain ⟨first, rest⟩ := List.forall_mem_cons.mp near
      have here : |f x - if 1 / 2 < f x then (1 : Rat) else 0| ≤ slack := by
        rcases first with zero | one
        · rw [if_neg (by linarith [le_abs_self (f x)]), sub_zero]
          exact zero
        · rw [if_pos (by linarith [neg_abs_le (f x - 1)])]
          exact one
      have there := ih rest
      rw [List.map_cons, List.map_cons, List.sum_cons, List.sum_cons, List.length_cons,
        Nat.cast_succ, add_mul, one_mul, add_sub_add_comm, add_comm _ slack]
      exact (abs_add_le _ _).trans (add_le_add here there)

/-- A slack that leaves no room for one more or one less is below one half. -/
theorem slack_lt_half {xs : List Int} {f : Int → Rat} {slack : Rat} (nonneg : 0 ≤ slack)
    (small : (xs.length + 1) * slack < 1) (total : |(xs.map f).sum - 1| ≤ slack) :
    slack < 1 / 2 := by
  cases xs with
  | nil =>
      rw [List.map_nil, List.sum_nil, zero_sub, abs_neg, abs_one] at total
      rw [List.length_nil, Nat.cast_zero, zero_add, one_mul] at small
      linarith
  | cons x xs =>
      have others : 0 ≤ (xs.length : Rat) * slack := mul_nonneg (Nat.cast_nonneg _) nonneg
      rw [List.length_cons, Nat.cast_succ] at small
      linarith

/-- The number of values above one half is one if they nearly add up to one. -/
theorem sum_ones_eq {xs : List Int} {f : Int → Rat} {slack : Rat} (few : slack < 1 / 2)
    (small : (xs.length + 1) * slack < 1) (near : ∀ x ∈ xs, |f x| ≤ slack ∨ |f x - 1| ≤ slack)
    (total : |(xs.map f).sum - 1| ≤ slack) :
    (xs.map fun x => if 1 / 2 < f x then (1 : Rat) else 0).sum = 1 := by
  have apart := abs_le.mp (abs_sum_sub_le few near)
  have one := abs_le.mp total
  rw [Scalar.sum_ite_eq_countP] at apart ⊢
  have below : ((xs.countP (1 / 2 < f ·) : Nat) : Rat) < 2 := by linarith
  have above : (0 : Rat) < (xs.countP (1 / 2 < f ·) : Nat) := by linarith
  have count : xs.countP (1 / 2 < f ·) = 1 := by
    have below : xs.countP (1 / 2 < f ·) < 2 := by exact_mod_cast below
    have above : 0 < xs.countP (1 / 2 < f ·) := by exact_mod_cast above
    omega
  rw [count, Nat.cast_one]

/-- Of values near zero or one that nearly add up to one, a single one is near one. -/
theorem exactly_one_near {xs : List Int} {f : Int → Rat} {slack : Rat} (distinct : xs.Nodup)
    (nonneg : 0 ≤ slack) (small : (xs.length + 1) * slack < 1)
    (near : ∀ x ∈ xs, |f x| ≤ slack ∨ |f x - 1| ≤ slack)
    (total : |(xs.map f).sum - 1| ≤ slack) :
    ∃ y ∈ xs, ∀ x ∈ xs, (1 / 2 < f x ↔ x = y) ∧ (|f x - 1| ≤ slack ↔ x = y) := by
  have few := slack_lt_half nonneg small total
  have binary : ∀ x ∈ xs, (if 1 / 2 < f x then (1 : Rat) else 0) = 0 ∨
      (if 1 / 2 < f x then (1 : Rat) else 0) = 1 := by
    intro x _
    split
    · exact Or.inr rfl
    · exact Or.inl rfl
  obtain ⟨y, member, values⟩ := exactly_one binary distinct (sum_ones_eq few small near total)
  refine ⟨y, member, fun x within => ?_⟩
  have above : 1 / 2 < f x ↔ x = y := by
    have value := values x within
    by_cases same : y = x
    · rw [if_pos same] at value
      refine iff_of_true ?_ same.symm
      by_contra low
      rw [if_neg low] at value
      exact zero_ne_one value
    · rw [if_neg same] at value
      exact iff_of_false (fun high => one_ne_zero ((if_pos high).symm.trans value)) (Ne.symm same)
  refine ⟨above, Iff.trans ?_ above⟩
  constructor
  · intro one
    linarith [(abs_le.mp one).1]
  · intro high
    rcases near x within with zero | one
    · linarith [(abs_le.mp zero).2]
    · exact one

namespace LocalStrategy

/-- Only contexts of keys that were given are entered. -/
theorem mem_keys_foldl_enter {choices : List (Path × Rat)} {l : LocalStrategy} {c : Path}
    (member : c ∈ (choices.foldl enter l).keys) :
    c ∈ l.keys ∨ ∃ e ∈ choices, e.1.dropLast = c := by
  induction choices generalizing l with
  | nil => exact Or.inl member
  | cons e choices ih =>
      rcases ih member with entered | ⟨e', later, same⟩
      · rw [enter] at entered
        split at entered
        · rcases Keyed.mem_keys_set.mp entered with same | old
          · exact Or.inr ⟨e, List.mem_cons_self, same.symm⟩
          · exact Or.inl old
        · exact Or.inl entered
      · exact Or.inr ⟨e', List.mem_cons_of_mem e later, same⟩

/-- Decoding keys of choices gives states to contexts only. -/
theorem context_of_decode {d : Diagram} {j : Int} {choices : Keyed Path Rat}
    (known : ∀ key ∈ choices.keys, key ∈ d.choiceKeys j) {l : LocalStrategy}
    (decoded : decode choices = .ok l) {c : Path} {x : Int} (taken : l.get? c = some x) :
    c ∈ d.contexts j := by
  have shape : ∀ e ∈ choices, ∃ c ∈ d.contexts j, ∃ y, e.1 = c ++ [y] := by
    intro e member
    obtain ⟨c, context, y, _, same⟩ :=
      Diagram.mem_paths_family.mp (known e.1 (Keyed.mem_keys member))
    exact ⟨c, context, y, same⟩
  have nonempty : ∀ e ∈ choices, e.1 ≠ [] := by
    intro e member
    obtain ⟨c, _, y, same⟩ := shape e member
    rw [same]
    exact List.concat_ne_nil y c
  rw [decode_eq nonempty, Except.ok.injEq] at decoded
  subst decoded
  rcases mem_keys_foldl_enter (Keyed.mem_keys (Keyed.mem_of_get? taken)) with
    old | ⟨e, member, rfl⟩
  · cases old
  · obtain ⟨c, context, y, same⟩ := shape e member
    rw [same, List.dropLast_concat]
    exact context

end LocalStrategy

namespace Strategy

/-- What a strategy does at a node as a function of the context, if the node has an entry. -/
def view (σ : Strategy) (j : Int) : Option (Path → Option Int) := (σ.get? j).map fun l c => l.get? c

/-- A strategy has a state for every context of every decision node, and for nothing else. -/
structure Total (σ : Strategy) (d : Diagram) : Prop where
  complete : σ.Complete d
  nodes : ∀ j l, σ.get? j = some l → j ∈ d.decision
  contexts : ∀ j c x, σ.choose? j c = some x → c ∈ d.contexts j

variable {d : Diagram} {σ τ : Strategy} {values : Keyed Int (Keyed Path Rat)} {slack : Rat}

theorem Total.get?_eq_none (total : σ.Total d) {j : Int} (other : j ∉ d.decision) :
    σ.get? j = none :=
  Option.eq_none_iff_forall_ne_some.mpr fun l found => other (total.nodes j l found)

theorem Total.choose?_eq_none (total : σ.Total d) {j : Int} {c : Path} (other : c ∉ d.contexts j) :
    σ.choose? j c = none :=
  Option.eq_none_iff_forall_ne_some.mpr fun x chosen => other (total.contexts j c x chosen)

/-- Strategies for the same contexts are the same if they choose the same states there. -/
theorem Total.view_eq (first : σ.Total d) (second : τ.Total d)
    (same : ∀ j ∈ d.decision, ∀ c ∈ d.contexts j, σ.choose? j c = τ.choose? j c) (j : Int) :
    σ.view j = τ.view j := by
  by_cases decision : j ∈ d.decision
  · obtain ⟨l, found⟩ := first.complete.entered j decision
    obtain ⟨l', found'⟩ := second.complete.entered j decision
    have everywhere : ∀ c, σ.choose? j c = τ.choose? j c := by
      intro c
      by_cases context : c ∈ d.contexts j
      · exact same j decision c context
      · rw [first.choose?_eq_none context, second.choose?_eq_none context]
    rw [view, view, found, found', Option.map_some, Option.map_some, Option.some.injEq]
    funext c
    simpa only [choose?, found, found', Option.bind_some] using everywhere c
  · rw [view, view, first.get?_eq_none decision, second.get?_eq_none decision]

/-- What is read off the values of one node. -/
def readLocal (values : Keyed Int (Keyed Path Rat)) (j : Int) : Except Fault LocalStrategy :=
  match values.get? j with
  | some choices => LocalStrategy.decode choices
  | none => .error (.missingKey (.int j))

theorem decode_eq_mapM (d : Diagram) (values : Keyed Int (Keyed Path Rat)) :
    decode d values = d.decision.mapM fun j => return (j, ← readLocal values j) := by
  rw [decode]
  refine Success.mapM_congr fun j _ => ?_
  unfold readLocal
  cases values.get? j <;> rfl

theorem readLocal_eq_ok {j : Int} {l : LocalStrategy} (read : readLocal values j = .ok l) :
    ∃ choices, values.get? j = some choices ∧ LocalStrategy.decode choices = .ok l := by
  unfold readLocal at read
  split at read
  · rename_i choices found
    exact ⟨choices, found, read⟩
  · cases read

/-- A strategy that was decoded has entries for decision nodes only, and choices for contexts only
if all keys were keys of choices. -/
theorem decode_within (decoded : decode d values = .ok σ)
    (known : ∀ j ∈ d.decision, ∀ choices, values.get? j = some choices →
      ∀ key ∈ choices.keys, key ∈ d.choiceKeys j) :
    (∀ j l, σ.get? j = some l → j ∈ d.decision) ∧
      ∀ j c x, σ.choose? j c = some x → c ∈ d.contexts j := by
  rw [decode_eq_mapM] at decoded
  obtain ⟨nodes, locals⟩ := tables_of_mapM decoded
  have decision : ∀ j l, σ.get? j = some l → j ∈ d.decision := fun j l found =>
    nodes ▸ Keyed.mem_keys (Keyed.mem_of_get? found)
  refine ⟨decision, fun j c x chosen => ?_⟩
  obtain ⟨l, found, taken⟩ := Option.bind_eq_some_iff.mp chosen
  obtain ⟨choices, source, read⟩ := readLocal_eq_ok (locals j l (Keyed.mem_of_get? found))
  exact LocalStrategy.context_of_decode (known j (decision j l found) choices source) read taken

/-- The value of a key of choices; zero where there is none. -/
def valueOf (values : Keyed Int (Keyed Path Rat)) (j : Int) (key : Path) : Rat :=
  ((values.get? j).bind (·.get? key)).getD 0

/-- Values of choices that are nearly zero or one and nearly add up to one in every context. -/
structure NearlyChosen (d : Diagram) (slack : Rat) (values : Keyed Int (Keyed Path Rat)) :
    Prop where
  nonneg : 0 ≤ slack
  small : ∀ j ∈ d.decision, (d.count j + 1) * slack < 1
  keys : ∀ j ∈ d.decision, ∃ choices, values.get? j = some choices ∧
    choices.keys.Perm (d.choiceKeys j)
  near : ∀ j ∈ d.decision, ∀ key ∈ d.choiceKeys j,
    |valueOf values j key| ≤ slack ∨ |valueOf values j key - 1| ≤ slack
  total : ∀ j ∈ d.decision, ∀ c ∈ d.contexts j,
    |((states (d.count j)).map fun x => valueOf values j (c ++ [x])).sum - 1| ≤ slack

/-- The same values of choices, with the keys of each node in some other order. -/
def Reordered (d : Diagram) (values values' : Keyed Int (Keyed Path Rat)) : Prop :=
  ∀ j ∈ d.decision, ∃ choices choices', values.get? j = some choices ∧
    values'.get? j = some choices' ∧ choices'.Perm choices

/-- The values that the choices of a strategy have when it is encoded by zeros and ones. -/
def choices (σ : Strategy) (d : Diagram) : Keyed Int (Keyed Path Rat) :=
  d.decision.map fun j =>
    (j, (d.choiceKeys j).map fun key => (key, σ.assignment (fun _ => 0) (.choice j key)))

namespace NearlyChosen

variable (near : NearlyChosen d slack values)

include near

/-- Every context has one state with a value above one half, and only its value is near one. -/
theorem exists_chosen {j : Int} (decision : j ∈ d.decision) {c : Path}
    (context : c ∈ d.contexts j) : ∃ y ∈ states (d.count j), ∀ x ∈ states (d.count j),
      (1 / 2 < valueOf values j (c ++ [x]) ↔ x = y) ∧
        (|valueOf values j (c ++ [x]) - 1| ≤ slack ↔ x = y) := by
  have range := d.inner_of_decision decision
  have positive := d.count_pos range.1 range.2
  refine exactly_one_near (nodup_states _) near.nonneg ?_ (fun x state => ?_)
    (near.total j decision c context)
  · have cast : (((d.count j).toNat : Nat) : Rat) = d.count j := by
      exact_mod_cast Int.toNat_of_nonneg (by omega)
    rw [length_states, cast]
    exact near.small j decision
  · exact near.near j decision _ (Diagram.mem_paths_family.mpr ⟨c, context, x, state, rfl⟩)

theorem given : ∀ j ∈ d.decision, ∃ keys : List Path,
    (∀ key, key ∈ keys ↔ key ∈ d.choiceKeys j) ∧
      values.get? j = some (keys.map fun key => (key, valueOf values j key)) := by
  intro j decision
  obtain ⟨choices, found, same⟩ := near.keys j decision
  have distinct : choices.keys.Nodup := same.nodup_iff.mpr (nodup_paths _)
  refine ⟨choices.keys, fun _ => same.mem_iff, ?_⟩
  simp only [valueOf, found, Option.bind_some]
  exact congrArg some (Keyed.eq_map_keys distinct 0)

/-- The strategy that is decoded has in each context the state whose value is near one. -/
theorem decoded : ∃ σ, decode d values = .ok σ ∧ σ.Total d ∧
    ∀ j ∈ d.decision, ∀ c ∈ d.contexts j, ∀ x ∈ states (d.count j),
      σ.choose? j c = some x ↔ |valueOf values j (c ++ [x]) - 1| ≤ slack := by
  have each : ∀ j c, ∃ y, j ∈ d.decision → c ∈ d.contexts j → y ∈ states (d.count j) ∧
      ∀ x ∈ states (d.count j), (1 / 2 < valueOf values j (c ++ [x]) ↔ x = y) ∧
        (|valueOf values j (c ++ [x]) - 1| ≤ slack ↔ x = y) := by
    intro j c
    by_cases here : j ∈ d.decision ∧ c ∈ d.contexts j
    · obtain ⟨y, state, values⟩ := near.exists_chosen here.1 here.2
      exact ⟨y, fun _ _ => ⟨state, values⟩⟩
    · exact ⟨0, fun decision context => absurd ⟨decision, context⟩ here⟩
  choose chosen picked using each
  obtain ⟨σ, decoded, choices⟩ := decode_of_unique (valueOf values) chosen near.given
    (fun j decision c context => (picked j c decision context).1)
    (fun j decision c context y state => ((picked j c decision context).2 y state).1)
  have known : ∀ j ∈ d.decision, ∀ choices, values.get? j = some choices →
      ∀ key ∈ choices.keys, key ∈ d.choiceKeys j := by
    intro j decision choices found key member
    obtain ⟨choices', found', same⟩ := near.keys j decision
    cases found.symm.trans found'
    exact same.mem_iff.mp member
  obtain ⟨nodes, contexts⟩ := decode_within decoded known
  refine ⟨σ, decoded, ⟨fun j decision c context => ?_, nodes, contexts⟩, ?_⟩
  · exact ⟨_, (picked j c decision context).1, choices j decision c context⟩
  · intro j decision c context x state
    rw [choices j decision c context, ((picked j c decision context).2 x state).2,
      Option.some.injEq]
    exact eq_comm

/-- The order of the keys has no say. -/
theorem reordered {values' : Keyed Int (Keyed Path Rat)} (same : Reordered d values values') :
    NearlyChosen d slack values' ∧
      ∀ j ∈ d.decision, ∀ key, valueOf values' j key = valueOf values j key := by
  have agree : ∀ j ∈ d.decision, ∀ key, valueOf values' j key = valueOf values j key := by
    intro j decision key
    obtain ⟨choices, choices', found, found', perm⟩ := same j decision
    obtain ⟨_, known, keys⟩ := near.keys j decision
    cases found.symm.trans known
    rw [valueOf, valueOf, found, found', Option.bind_some, Option.bind_some,
      Keyed.get?_perm (keys.nodup_iff.mpr (nodup_paths _)) perm]
  refine ⟨⟨near.nonneg, near.small, ?_, ?_, ?_⟩, agree⟩
  · intro j decision
    obtain ⟨choices, choices', found, found', perm⟩ := same j decision
    obtain ⟨_, known, keys⟩ := near.keys j decision
    cases found.symm.trans known
    exact ⟨choices', found', (perm.map _).trans keys⟩
  · intro j decision key known
    rw [agree j decision]
    exact near.near j decision key known
  · intro j decision c context
    simp only [agree j decision]
    exact near.total j decision c context

end NearlyChosen

theorem valueOf_choices {j : Int} (decision : j ∈ d.decision) {c : Path}
    (context : c ∈ d.contexts j) {x : Int} (state : x ∈ states (d.count j)) :
    valueOf (σ.choices d) j (c ++ [x]) = if σ.choose? j c = some x then 1 else 0 := by
  have key : c ++ [x] ∈ d.choiceKeys j := Diagram.mem_paths_family.mpr ⟨c, context, x, state, rfl⟩
  rw [valueOf, choices, Keyed.get?_map_of_mem (fun j => (d.choiceKeys j).map fun key =>
    (key, σ.assignment (fun _ => 0) (.choice j key))) decision, Option.bind_some,
    Keyed.get?_map_of_mem (fun key => σ.assignment (fun _ => 0) (.choice j key)) key,
    Option.getD_some]
  exact σ.assignment_encodes _ d j decision c context x state

/-- Zeros and ones leave no slack. -/
theorem Complete.nearlyChosen (complete : σ.Complete d) : NearlyChosen d 0 (σ.choices d) where
  nonneg := le_rfl
  small _ _ := by
    rw [mul_zero]
    exact zero_lt_one
  keys j decision := by
    refine ⟨_, Keyed.get?_map_of_mem _ decision, ?_⟩
    rw [Keyed.keys, List.map_map]
    exact List.Perm.of_eq (List.map_id _)
  near j decision key known := by
    obtain ⟨c, context, x, state, rfl⟩ := Diagram.mem_paths_family.mp known
    rw [valueOf_choices decision context state]
    split
    · exact Or.inr (by norm_num)
    · exact Or.inl (by norm_num)
  total j decision c context := by
    have sum : ((states (d.count j)).map fun x => valueOf (σ.choices d) j (c ++ [x])).sum = 1 := by
      rw [List.map_congr_left fun x state => valueOf_choices decision context state]
      exact complete.sum_chosen decision context
    rw [sum, sub_self, abs_zero]

/-- The zeros and ones of a complete strategy add up to one in every row that wants them to. -/
theorem Complete.satisfies_rows (complete : σ.Complete d) (node : Int → String)
    (shares : Path → Rat) : ∃ keys rows,
      (d.decision.mapM fun j => return (j, ← Formulation.choiceKeys d j)) =
        (.ok keys : Except Fault _) ∧
      Formulation.strategyRows node d keys = .ok rows ∧
      ∀ r ∈ rows, r.sense = .exactly ∧ r.terms.value (σ.assignment shares) = r.rhs := by
  refine ⟨_, _, Problem.keys_eq d, Problem.strategyRows_eq ⟨d, [], []⟩ node, fun r member => ?_⟩
  obtain ⟨j, decision, inside⟩ := List.mem_flatMap.mp member
  obtain ⟨c, context, rfl⟩ := List.mem_map.mp inside
  refine ⟨rfl, ?_⟩
  have encoded := fun x state => σ.assignment_encodes shares d j decision c context x state
  rw [Terms.value_eq, Problem.strategyRow, List.map_map]
  simp only [Function.comp_def, one_mul]
  rw [List.map_congr_left encoded]
  exact complete.sum_chosen decision context

/-- A complete strategy is read off values that are nearly zero or one, in whatever order their keys
come and whether they are given as data or as rational numbers. It takes the states whose values are
near one, and encoded by zeros and ones it satisfies the rows that have one state chosen in each
context. Every complete strategy is read off its own encoding. -/
theorem decoded_from_nearly_chosen (d : Diagram) :
    (∀ values slack, NearlyChosen d slack values → ∃ σ, decode d values = .ok σ ∧ σ.Total d ∧
      (∀ j ∈ d.decision, ∀ c ∈ d.contexts j, ∀ x ∈ states (d.count j),
        σ.choose? j c = some x ↔ |valueOf values j (c ++ [x]) - 1| ≤ slack) ∧
      (∀ given, Plan.Gives d given values → Plan.decode (.ofDiagram d) given =
        .ok (σ.map fun e => (e.1, LocalPlan.ofStrategy e.2))) ∧
      (∀ values', Reordered d values values' →
        ∃ τ, decode d values' = .ok τ ∧ ∀ j, τ.view j = σ.view j) ∧
      ∀ node shares, ∃ keys rows,
        (d.decision.mapM fun j => return (j, ← Formulation.choiceKeys d j)) =
          (.ok keys : Except Fault _) ∧
        Formulation.strategyRows node d keys = .ok rows ∧
        ∀ r ∈ rows, r.sense = .exactly ∧ r.terms.value (σ.assignment shares) = r.rhs) ∧
    ∀ σ : Strategy, σ.Total d → ∀ values, Reordered d (σ.choices d) values →
      ∃ τ, decode d values = .ok τ ∧ (∀ j, τ.view j = σ.view j) ∧
        ∀ given, Plan.Gives d given values → Plan.decode (.ofDiagram d) given =
          .ok (τ.map fun e => (e.1, LocalPlan.ofStrategy e.2)) := by
  constructor
  · intro values slack near
    obtain ⟨σ, decoded, total, chosen⟩ := near.decoded
    refine ⟨σ, decoded, total, chosen, ?_, ?_, total.complete.satisfies_rows⟩
    · intro given gives
      rw [Plan.decode_eq gives, decoded]
      rfl
    · intro values' same
      obtain ⟨near', agree⟩ := near.reordered same
      obtain ⟨τ, decoded', total', chosen'⟩ := near'.decoded
      refine ⟨τ, decoded', total'.view_eq total fun j decision c context => ?_⟩
      obtain ⟨x, state, taken⟩ := total.complete j decision c context
      rw [taken, chosen' j decision c context x state, agree j decision,
        ← chosen j decision c context x state, taken]
  · intro σ total values same
    have exact := total.complete.nearlyChosen
    obtain ⟨near, agree⟩ := exact.reordered same
    obtain ⟨τ, decoded, total', chosen⟩ := near.decoded
    refine ⟨τ, decoded, total'.view_eq total fun j decision c context => ?_, ?_⟩
    · obtain ⟨x, state, taken⟩ := total.complete j decision c context
      rw [taken, chosen j decision c context x state, agree j decision,
        valueOf_choices decision context state, if_pos taken, sub_self, abs_zero]
    · intro given gives
      rw [Plan.decode_eq gives, decoded]
      rfl

theorem careful_total : careful.Total Problem.umbrella.diagram where
  complete := careful_complete
  nodes j l found := by
    obtain ⟨rfl, _⟩ := Prod.mk.inj (List.mem_singleton.mp (Keyed.mem_of_get? found))
    decide
  contexts j c x chosen := by
    obtain ⟨l, found, taken⟩ := Option.bind_eq_some_iff.mp chosen
    obtain ⟨rfl, rfl⟩ := Prod.mk.inj (List.mem_singleton.mp (Keyed.mem_of_get? found))
    have member := Keyed.mem_of_get? taken
    simp only [List.mem_cons, Prod.mk.injEq, List.not_mem_nil, or_false] at member
    obtain ⟨rfl, _⟩ | ⟨rfl, _⟩ := member <;> decide

/-- Values for the careful choices that are up to one quarter away from zero and one. -/
def hesitant : Keyed Int (Keyed Path Rat) :=
  [(2, [([2, 2], 7 / 8), ([1, 1], 3 / 4), ([2, 1], 0), ([1, 2], 1 / 4)])]

theorem hesitant_near : NearlyChosen Problem.umbrella.diagram (1 / 4) hesitant where
  nonneg := by norm_num
  small := by decide +kernel
  keys j decision := by
    obtain rfl := List.mem_singleton.mp decision
    exact ⟨_, rfl, by decide⟩
  near := by decide +kernel
  total := by decide +kernel

/-- The careful choices are read off values that are one quarter away from them, as numbers and as
doubles, and off their own encoding. -/
theorem hesitant_decoded : NearlyChosen Problem.umbrella.diagram (1 / 4) hesitant ∧
    ∃ σ τ, decode Problem.umbrella.diagram hesitant = .ok σ ∧
      σ.choose? 2 [1] = some 1 ∧ σ.choose? 2 [2] = some 2 ∧
      Plan.decode (.ofDiagram Problem.umbrella.diagram) [(⟨.int 2⟩,
        [(⟨.list [.int 2, .int 2]⟩, .real (Scalar.decimal 875 3)),
          (⟨.list [.int 1, .int 1]⟩, .real (Scalar.decimal 75 2)),
          (⟨.list [.int 2, .int 1]⟩, .int 0),
          (⟨.list [.int 1, .int 2]⟩, .real (Scalar.decimal 25 2))])] =
        .ok (σ.map fun e => (e.1, LocalPlan.ofStrategy e.2)) ∧
      decode Problem.umbrella.diagram (careful.choices Problem.umbrella.diagram) = .ok τ ∧
      ∀ j, τ.view j = careful.view j := by
  obtain ⟨reads, encodes⟩ := decoded_from_nearly_chosen Problem.umbrella.diagram
  obtain ⟨σ, decoded, _, chosen, data, _⟩ := reads hesitant (1 / 4) hesitant_near
  have itself : Reordered Problem.umbrella.diagram (careful.choices Problem.umbrella.diagram)
      (careful.choices Problem.umbrella.diagram) := fun _ decision =>
    ⟨_, _, Keyed.get?_map_of_mem _ decision, Keyed.get?_map_of_mem _ decision, .refl _⟩
  obtain ⟨τ, same, view, _⟩ := encodes careful careful_total _ itself
  refine ⟨hesitant_near, σ, τ, decoded, ?_, ?_, ?_, same, view⟩
  · exact (chosen 2 (by decide) [1] (by decide) 1 (by decide)).mpr (by decide +kernel)
  · exact (chosen 2 (by decide) [2] (by decide) 2 (by decide)).mpr (by decide +kernel)
  · apply data
    intro j decision
    obtain rfl := List.mem_singleton.mp decision
    refine ⟨_, _, rfl, rfl, .cons ⟨rfl, ?_⟩ (.cons ⟨rfl, ?_⟩ (.cons ⟨rfl, ?_⟩
      (.cons ⟨rfl, ?_⟩ .nil)))⟩ <;> decide +kernel

end Strategy

end InfluenceProgram
