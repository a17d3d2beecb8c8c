import InfluenceProgram.Analysis.Plan
import InfluenceProgram.Proofs.Compatible

/-!
Strategies of whole numbers, given as data. Reading them back changes nothing, so they are what
matters to the paths as soon as the states of every node can be walked through.
-/

set_option autoImplicit false

namespace InfluenceProgram

theorem Datum.whole?_int (n : Int) : (Datum.int n).whole? = some n := by
  simp [whole?, magnitude?]

theorem Datum.same_int (j k : Int) : (Datum.int j).same (.int k) = (j == k) := by
  simp only [same, magnitude?]
  change (Magnitude.exactly j == Magnitude.exactly k) = (j == k)
  rw [Bool.eq_iff_iff, beq_iff_eq, beq_iff_eq, Magnitude.exactly.injEq, Rat.intCast_inj]

/-- Numbers compare by their exact values. -/
theorem Datum.before_exactly {a b : Datum} {p q : Rat} (first : a.magnitude? = some (.exactly p))
    (second : b.magnitude? = some (.exactly q)) : a.before b = .ok (decide (p < q)) := by
  cases a <;> cases b <;> first
    | unfold before
      rw [first, second]
      rfl
    | cases first

theorem Datum.before_int (j k : Int) : (Datum.int j).before (.int k) = .ok (decide (j < k)) := by
  rw [before_exactly rfl rfl]
  simp only [Rat.intCast_lt_intCast]

/-- The states of every node can be walked through if no node has too many of them. -/
theorem Path.holdable_iff {counts : List Int} :
    Path.holdable counts = .ok () ↔ ∀ count ∈ counts, count.toNat < Path.maxHeld := by
  have larger : Path.maxHeld < Nat.pow 2 63 := by decide
  rw [Path.holdable, Success.forM_iff]
  refine forall₂_congr fun count _ => ?_
  split
  · rename_i tooLarge
    exact iff_of_false (by simp) (by omega)
  · split
    · rename_i tooMany
      exact iff_of_false (by simp) (by omega)
    · rename_i few
      exact iff_of_true rfl (by omega)

theorem Path.walking_of_held {β : Type} {counts : List Int} {compute : Unit → Except Fault β}
    (room : Path.holdable counts = .ok ()) : Path.walking counts compute = compute () := by
  rw [Path.walking, room, Success.ok_bind]

/-- A walk through the paths has a result where there is room for it and the steps have one. -/
theorem Path.walking_eq_ok_iff {β : Type} {counts : List Int} {compute : Unit → Except Fault β}
    {b : β} : Path.walking counts compute = .ok b ↔
      Path.holdable counts = .ok () ∧ compute () = .ok b := by
  rw [Path.walking, Success.bind_iff]
  exact ⟨fun ⟨_, room, found⟩ => ⟨room, found⟩, fun ⟨room, found⟩ => ⟨(), room, found⟩⟩

/-- What cannot fail but for want of room can be done before the room is asked for. -/
theorem Path.walking_bind {β γ : Type} (counts : List Int) (b : β) (next : β → Except Fault γ) :
    (Path.walking counts (fun _ => .ok b) >>= next) = Path.walking counts fun _ => next b := by
  rw [Path.walking, Path.walking]
  cases Path.holdable counts with
  | error fault => rfl
  | ok _ => rfl

theorem LocalPlan.strategy_ofStrategy (l : LocalStrategy) : (ofStrategy l).strategy = l := by
  have parts : ∀ c : Path, (c.map Datum.int).mapM Datum.whole? = some c := by
    intro c
    induction c with
    | nil => rfl
    | cons x c ih =>
        rw [List.map_cons, List.mapM_cons, Datum.whole?_int, ih]
        rfl
  rw [strategy, ofStrategy, List.filterMap_map]
  refine (List.filterMap_congr fun e _ => ?_).trans List.filterMap_some
  obtain ⟨c, x⟩ := e
  simp only [Function.comp_apply, parts, Datum.whole?_int]
  rfl

/-- What the decision nodes do is listed node by node. -/
theorem Strategy.Entered.get?_listed {d : Diagram} {σ : Strategy} (entered : σ.Entered d) {j : Int}
    (decision : j ∈ d.decision) :
    Keyed.get? j (d.decision.map fun j => (j, (σ.get? j).getD [])) = σ.get? j := by
  obtain ⟨l, found⟩ := entered j decision
  rw [Keyed.get?_map_of_mem (fun j => (σ.get? j).getD []) decision, found, Option.getD_some]

namespace Plan

theorem get?_ofStrategy (σ : Strategy) (j : Int) :
    (ofStrategy σ).get? ⟨.int j⟩ = (σ.get? j).map LocalPlan.ofStrategy := by
  induction σ with
  | nil => rfl
  | cons entry σ ih =>
      obtain ⟨k, l⟩ := entry
      change (if (Datum.int k).same (.int j) then _ else Keyed.get? ⟨.int j⟩ (ofStrategy σ)) = _
      rw [Datum.same_int, ih, Keyed.get?]
      split
      · rfl
      · rfl

/-- A strategy that is given as data is read back, provided that there is room for the paths. -/
theorem strategy_ofStrategy {d : Diagram} {σ : Strategy} (entered : σ.Entered d) :
    (ofStrategy σ).strategy (.ofDiagram d) =
      Path.walking d.counts fun _ =>
        .ok (d.decision.map fun j => (j, (σ.get? j).getD [])) := by
  have locals : (d.decision.mapM fun j => return (j,
      (← (ofStrategy σ).local? (.ofDiagram d) j).strategy)) =
      (.ok (d.decision.map fun j => (j, (σ.get? j).getD [])) : Except Fault _) := by
    refine Success.mapM_eq fun j decision => ?_
    obtain ⟨l, found⟩ := entered j decision
    rw [local?, get?_ofStrategy, found]
    exact congrArg (fun l => Except.ok (j, l)) (LocalPlan.strategy_ofStrategy l)
  have whole : (d.decision.any fun j => ((Drawing.ofDiagram d).label j).isReal) = false :=
    List.any_eq_false.mpr fun _ _ => Bool.false_ne_true
  unfold strategy
  dsimp only [Drawing.ofDiagram] at locals whole ⊢
  rw [locals, Success.ok_bind]
  simp only [whole]
  rfl

/-- The compatible paths of a strategy that is given as data are those of the strategy. -/
theorem compatiblePaths_ofStrategy {d : Diagram} {σ : Strategy} (entered : σ.Entered d) :
    (ofStrategy σ).compatiblePaths (.ofDiagram d) =
      Path.walking d.counts fun _ => σ.compatiblePaths d := by
  have listed : Strategy.Entered (d.decision.map fun j => (j, (σ.get? j).getD [])) d :=
    fun j decision => (entered.get?_listed decision).symm ▸ entered j decision
  have takes : ∀ s, Strategy.Takes (d.decision.map fun j => (j, (σ.get? j).getD [])) d s ↔
      σ.Takes d s := fun s => forall₂_congr fun j decision => by
    rw [Strategy.choose?, Strategy.choose?, entered.get?_listed decision]
  rw [compatiblePaths, strategy_ofStrategy entered, Path.walking_bind,
    entered.compatiblePaths_eq]
  change Path.walking d.counts (fun _ => Strategy.compatiblePaths d _) = _
  simp only [listed.compatiblePaths_eq, takes]

end Plan

end InfluenceProgram
