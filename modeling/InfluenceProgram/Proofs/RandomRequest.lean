import InfluenceProgram.Proofs.PlainDrawing
import InfluenceProgram.Proofs.RandomProblem
import InfluenceProgram.Proofs.RequestedOutline

/-!
Random tables and problems that are asked for with integers. Only room for the tables is asked for
in addition: a table that has too many axes is refused after its numbers are drawn, and every other
one is drawn in the same way.
-/

set_option autoImplicit false

namespace InfluenceProgram

theorem volume_le_pow {axes : List Nat} {most : Nat} (bound : ∀ axis ∈ axes, axis ≤ most) :
    volume axes ≤ most ^ axes.length := by
  induction axes with
  | nil => exact le_rfl
  | cons axis axes ih =>
      obtain ⟨first, rest⟩ := List.forall_mem_cons.mp bound
      rw [volume, List.length_cons, Nat.pow_succ']
      exact Nat.mul_le_mul first (ih rest)

/-- A table over some nodes can be held. -/
structure Diagram.Held (d : Diagram) (nodes : List Int) : Prop where
  few : nodes.length ≤ maxAxes
  room : holdable true (d.axes nodes) = .ok ()

/-- The tables of a problem with a certain diagram can be held. -/
structure Diagram.Roomy (d : Diagram) : Prop where
  chance : ∀ j ∈ d.chance, d.Held (d.family j)
  value : ∀ v ∈ d.value, d.Held (d.informationSet v)

/-- There is room for a table if there are few nodes with few states each. -/
theorem Diagram.held_of_few {d : Diagram} {nodes : List Int} {length most : Nat}
    (few : nodes.length ≤ length) (axes : length ≤ maxAxes) (some : 1 ≤ most)
    (states : ∀ i ∈ nodes, d.count i ≤ most) (room : most ^ length < Path.maxHeld) :
    d.Held nodes := by
  have bound : ∀ axis ∈ d.axes nodes, axis ≤ most := by
    intro axis member
    simp only [Diagram.axes, Path.select, List.map_map, List.mem_map] at member
    obtain ⟨i, node, rfl⟩ := member
    change (d.count i).toNat ≤ most
    have := states i node
    omega
  have dimension : (d.axes nodes).length = nodes.length := by simp [Diagram.axes, Path.select]
  have entries : volume (d.axes nodes) ≤ most ^ length := by
    have power := volume_le_pow bound
    rw [dimension] at power
    exact power.trans (Nat.pow_le_pow_right some few)
  have short : ∀ axis ∈ d.axes nodes, axis < Path.maxHeld := by
    intro axis member
    have longest := bound axis member
    have positive : length ≠ 0 := by
      have := List.length_pos_of_mem member
      omega
    have := Nat.le_self_pow positive most
    omega
  exact ⟨few.trans axes, Problem.holdable_of_few short (by omega)⟩

/-- There is room for all tables if there are few inner nodes with few states each. -/
theorem Diagram.roomy_of_few {d : Diagram} {most : Nat} (few : d.inner ≤ maxAxes) (some : 1 ≤ most)
    (states : ∀ c ∈ d.counts, c ≤ most) (room : most ^ d.inner < Path.maxHeld) : d.Roomy := by
  have held : ∀ nodes : List Int, nodes.Nodup → (∀ i ∈ nodes, 1 ≤ i ∧ i ≤ d.inner) →
      d.Held nodes := by
    intro nodes distinct inner
    have inside : nodes ⊆ d.innerNodes := fun i member => d.mem_innerNodes.mpr (inner i member)
    have length := (List.subperm_of_subset distinct inside).length_le
    rw [innerNodes, length_span] at length
    exact held_of_few length few some
      (fun i member => states _ (d.count_mem (inner i member).1 (inner i member).2)) room
  have parents : ∀ j, ∀ i ∈ d.informationSet j, 1 ≤ i ∧ i ≤ d.inner := fun j i parent =>
    ⟨(d.informationSet_below parent).1, (d.informationSet_below parent).2.2⟩
  have distinct := fun j => nodup_of_ascending (d.pairwise_informationSet j)
  constructor
  · intro j chance
    apply held
    · rw [family, List.nodup_append]
      refine ⟨distinct j, List.nodup_singleton j, fun i parent k own same => ?_⟩
      have below := d.informationSet_below parent
      rw [List.mem_singleton] at own
      omega
    · intro i member
      rcases List.mem_append.mp member with parent | own
      · exact parents j i parent
      · obtain rfl := List.mem_singleton.mp own
        exact d.inner_of_chance chance
  · exact fun v _ => held _ (distinct v) (parents v)

namespace Random

open Experiment

section Request

variable {d : Diagram} {j : Int}

theorem Request.innerNode_int (low : 1 ≤ j) (high : j ≤ d.inner) :
    innerNode (.ofDiagram d) (.int j) = .ok j := by
  have found : d.informationSet? j = .ok (d.informationSet j) :=
    Diagram.informationSet?_eq low (by rw [Outline.total]; omega)
  have informed : (Drawing.ofDiagram d).informationSet? (.int j) = .ok (d.informationSet j) := by
    simp only [Drawing.informationSet?, Drawing.ofDiagram, Datum.whole?_int, found]
    rfl
  rw [innerNode, informed]
  rfl

/-- A number of impossible outcomes is checked before room and axes for the table are. -/
theorem Request.probabilities_int (low : 1 ≤ j) (high : j ≤ d.inner) (zeros : Int) :
    Request.probabilities (.ofDiagram d) (.int j) (.int zeros) = (do
      require (d.CanLose j zeros) .inactiveCount
      ofExcept (holdable true (d.axes (d.family j)))
      match checkAxes (d.family j).length with
      | .ok _ => Random.probabilities d j zeros
      | .error fault => do
        let _ ← drawUniforms (d.contextNumber j * (d.count j).toNat)
        failed fault) := by
  have condition : ((decide (0 < zeros) || zeros == 0) &&
      !decide (d.contextNumber j * (d.count j - 1) < zeros)) = decide (d.CanLose j zeros) := by
    rw [Bool.eq_iff_iff, decide_eq_true_eq, Diagram.canLose_iff]
    simp
    omega
  have axes : (Path.select d.counts (d.informationSet j)).length + 1 = (d.family j).length := by
    simp [Diagram.family, Path.select]
  rw [Request.probabilities, innerNode_int low high, ofExcept_ok, done_bind]
  dsimp only [Drawing.ofDiagram]
  rw [familyCounts_eq low high, ofExcept_ok, done_bind]
  simp only [Datum.above, Datum.before_int, Datum.same_int, ofExcept_ok, done_bind, axes,
    ← d.axes_family]
  change (require (_ && !decide (d.contextNumber j * (d.count j - 1) < zeros)) _ >>= _) = _
  rw [condition]
  by_cases fit : d.CanLose j zeros
  case neg =>
    have fails : ¬decide (d.CanLose j zeros) = true := by simpa using fit
    rw [require_of_not fails, failed_bind, failed_bind]
  have nonneg := fit.1
  have size : (if decide (0 < zeros) = true then (Datum.int zeros).position else pure 0) =
      .ok zeros := by
    by_cases positive : 0 < zeros
    · simp [positive, Datum.position]
    · obtain rfl : zeros = 0 := by omega
      rfl
  rw [require_of (decide_eq_true fit), done_bind, done_bind, size]
  refine congrArg _ (funext fun _ => ?_)
  cases checkAxes (d.family j).length <;> rfl

/-- Probabilities that are asked for with integers are drawn with them if there is room for their
table. -/
theorem Request.probabilities_of_room (low : 1 ≤ j) (high : j ≤ d.inner) (zeros : Int)
    (held : d.Held (d.family j)) :
    Request.probabilities (.ofDiagram d) (.int j) (.int zeros) =
      Random.probabilities d j zeros := by
  have few : checkAxes (d.family j).length = .ok () := if_pos held.few
  rw [Request.probabilities_int low high, few, held.room, ofExcept_ok]
  by_cases fit : d.CanLose j zeros
  · rw [require_of (decide_eq_true fit), done_bind, done_bind]
  · have fails : ¬decide (d.CanLose j zeros) = true := by simpa using fit
    rw [require_of_not fails, failed_bind, probabilities_refused low high fit]

/-- That a table has too many axes is found once its numbers are drawn. -/
theorem Request.probabilities_of_axes (low : 1 ≤ j) (high : j ≤ d.inner) {zeros : Int}
    (fit : d.CanLose j zeros) (axes : maxAxes < (d.family j).length)
    (room : holdable true (d.axes (d.family j)) = .ok ()) :
    Request.probabilities (.ofDiagram d) (.int j) (.int zeros) = (do
      let _ ← drawUniforms (d.contextNumber j * (d.count j).toNat)
      failed (.tooManyAxes (d.family j).length)) := by
  have many : checkAxes (d.family j).length = .error (.tooManyAxes (d.family j).length) :=
    if_neg axes.not_ge
  rw [Request.probabilities_int low high, many, room, ofExcept_ok,
    require_of (decide_eq_true fit), done_bind, done_bind]

variable {v : Int}

/-- Utilities between two real bounds are drawn if the bounds are in order as exact values. -/
theorem Request.utilities_of_room (value : v ∈ d.value) (held : d.Held (d.informationSet v))
    (low high : Float) :
    Request.utilities (.ofDiagram d) (.int v) (.real low) (.real high) =
      drawSpread ((Magnitude.ofReal low).before (Magnitude.ofReal high)) d v low (high - low) := by
  have contexts : ((Drawing.ofDiagram d).informationSet? (.int v) >>= d.countsAt) =
      .ok (Path.select d.counts (d.informationSet v)) := by
    simp only [Drawing.informationSet?, Drawing.ofDiagram, Datum.whole?_int,
      informationSet?_of_value value]
    exact d.contextCounts_eq v
  have few : checkAxes (Path.select d.counts (d.informationSet v)).length = .ok () := by
    rw [Path.select, List.length_map]
    exact if_pos held.few
  have room : holdable true ((Path.select d.counts (d.informationSet v)).map Int.toNat) = .ok () :=
    held.room
  have order : (Datum.real low).before (.real high) =
      .ok ((Magnitude.ofReal low).before (Magnitude.ofReal high)) := by
    unfold Datum.before
    rfl
  have width : difference (.real high) (.real low) = .ok (high - low) := rfl
  have base : (Datum.real low).quantity = .ok low := rfl
  unfold Request.utilities
  dsimp only [Drawing.ofDiagram] at contexts ⊢
  rw [contexts]
  simp only [checkRange, order, width, base, few, room, ofExcept_ok, done_bind, drawSpread]

end Request


section Choices

variable {real : Float → Prop} {choices : List Int}

theorem Request.readChoices_ints (some : choices ≠ []) (positive : ∀ c ∈ choices, 1 ≤ c) :
    readChoices (.list (Datum.ints choices)) = .ok (Datum.ints choices) := by
  have blank : (Datum.list (Datum.ints choices)).isBlank = false := by
    cases choices with
    | nil => exact absurd rfl some
    | cons c choices => rfl
  have fine : ((Datum.ints choices).forM fun c => do
      if (← c.toInt) < 1 then .error (.domain .stateChoices) else .ok ()) =
      (.ok () : Except Fault Unit) := by
    rw [Success.forM_iff, Datum.ints, List.forall_mem_map]
    intro c choice
    have := positive c choice
    change (if c < 1 then _ else _) = _
    rw [if_neg (by omega)]
  rw [readChoices, blank]
  simp only [Datum.items, Success.ok_bind]
  rw [if_neg Bool.false_ne_true, fine]
  rfl

theorem Request.laidOut_ints {xs : List Int} (small : ∀ x ∈ xs, 1 ≤ x ∧ x < 2 ^ 63) :
    laidOut (Datum.ints xs) = .ok xs := by
  have none : ∀ kind : Datum → Bool, (∀ x ∈ xs, kind (.int x) = false) →
      (Datum.ints xs).any kind = false := by
    intro kind no
    rw [List.any_eq_false, Datum.ints, List.forall_mem_map]
    exact fun x member => Bool.eq_false_iff.mp (no x member)
  have long := none Datum.isLong fun x member => by
    have := small x member
    simp [Datum.isLong]
    omega
  have unsigned := none isUnsigned fun x member => by
    have := small x member
    simp [isUnsigned]
    omega
  rw [laidOut, long, none Datum.isText fun _ _ => rfl, none Datum.isReal fun _ _ => rfl, unsigned]
  simp only [Bool.false_and, Bool.or_false, Bool.false_eq_true, if_false]
  rw [Datum.ints, Success.mapM_iff, List.forall₂_map_left_iff, List.forall₂_same]
  exact fun _ _ => rfl

theorem Request.states_spans {nodes : Int} (some : choices ≠ [])
    (small : ∀ c ∈ choices, 1 ≤ c ∧ c < 2 ^ 63) :
    Spans real (Request.states (.list (Datum.ints choices)) (.int nodes)) fun counts =>
      counts.length = nodes.toNat ∧ ∀ c ∈ counts, c ∈ choices := by
  have items : Datum.ints choices ≠ [] := by simpa [Datum.ints] using some
  have position : (Datum.int nodes).position = .ok nodes := rfl
  rw [Request.states, readChoices_ints some fun c choice => (small c choice).1, ofExcept_ok,
    done_bind, position, ofExcept_ok, done_bind]
  have chosen : ∀ counts, (∀ x ∈ Datum.ints counts, x ∈ Datum.ints choices) ↔
      ∀ c ∈ counts, c ∈ choices := by simp [Datum.ints]
  have laid : ∀ drawn : List Datum,
      (drawn.length = nodes.toNat ∧ ∀ x ∈ drawn, x ∈ Datum.ints choices) →
        Spans real (ofExcept (laidOut drawn)) fun counts => drawn = Datum.ints counts := by
    rintro drawn ⟨_, inside⟩
    obtain ⟨xs, rfl⟩ : ∃ xs, Datum.ints xs = drawn := by
      have range : drawn ∈ Set.range (List.map Datum.int) := by
        rw [Set.range_list_map]
        intro x member
        obtain ⟨c, _, same⟩ := List.mem_map.mp (inside x member)
        exact ⟨c, same⟩
      exact range
    rw [laidOut_ints fun x member => small x ((chosen xs).mp inside x member), ofExcept_ok]
    refine (Spans.pure xs).congr fun counts => ?_
    rw [eq_comm]
    exact (List.map_injective_iff.mpr fun _ _ => Datum.int.inj).eq_iff.symm
  refine ((drawItems_spans items _).bind laid).congr fun counts => ?_
  constructor
  · rintro ⟨_, ⟨length, inside⟩, rfl⟩
    exact ⟨by simpa [Datum.ints] using length, (chosen counts).mp inside⟩
  · rintro ⟨length, inside⟩
    exact ⟨_, ⟨by simpa [Datum.ints] using length, (chosen counts).mpr inside⟩, rfl⟩

end Choices

section Problem

variable {chance decision value limit : Int} {choices : List Int}

/-- A random problem with utilities from shares of a width on top of a lowest value, unless the
bounds of the utilities are not in order. -/
def spreadProblem {α : Type} [Scalar α] (ordered : Bool) (chance decision value limit : Int)
    (choices : List Int) (low width : α) : Experiment α (Problem α) :=
  assemble (outline chance decision value limit) (fun _ => states choices (chance + decision))
    (fun d j => probabilities d j 0) fun d v => drawSpread ordered d v low width

theorem problem_eq {α : Type} [Scalar α] (low high : α) :
    problem chance decision value limit choices low high =
      spreadProblem (low < high) chance decision value limit choices low (high - low) := by
  have gains : ∀ d : Diagram, (d.value.mapM fun v => do
      return (v, Supplied.table (← utilities d v low high))) = d.value.mapM fun v => do
        return (v, Supplied.table (← drawSpread (low < high) d v low (high - low))) := by
    intro d
    refine Success.mapM_congr fun v value => ?_
    rw [utilities_eq value]
  rw [problem, spreadProblem, assemble, assemble]
  simp only [gains]

/-- A diagram with a random outline and random state counts. -/
def Drawable {α : Type} (real : α → Prop) (chance decision value limit : Int) (choices : List Int)
    (d : Diagram) : Prop :=
  ∃ o counts, Outcome real (outline chance decision value limit) (.ok o) ∧
    Outcome real (states choices (chance + decision)) (.ok counts) ∧
    Diagram.create o.chance o.decision o.value o.arcs (counts.map .int) = .ok d

/-- The tables of a random problem can be held if it has few inner nodes with few states each. -/
theorem Drawable.roomy {α : Type} {real : α → Prop} {d : Diagram} {most : Nat}
    (drawable : Drawable real chance decision value limit choices d)
    (admissible : Admissible chance decision value limit) (some : choices ≠ [])
    (small : ∀ c ∈ choices, 1 ≤ c ∧ c ≤ most) (few : (chance + decision).toNat ≤ maxAxes)
    (room : most ^ (chance + decision).toNat < Path.maxHeld) : d.Roomy := by
  obtain ⟨_, counts, outlined, chosen, made⟩ := drawable
  obtain ⟨x, fits, rfl⟩ := admissible.outline_spans.ok_iff.mp outlined
  obtain ⟨length, chosen⟩ :=
    (states_spans some fun c choice => (small c choice).1).ok_iff.mp chosen
  have inside : chance.toNat ≤ (chance + decision).toNat := by
    have := admissible.decision_nonneg
    omega
  obtain ⟨d', same, counted, made'⟩ :=
    fits.exists_created inside length fun c member => (small c (chosen c member)).1
  rw [← same, made'] at made
  cases made
  have inner : d.inner = (chance + decision).toNat := by rw [same, fits.inner_outline inside]
  obtain ⟨c, choice⟩ := List.exists_mem_of_ne_nil choices some
  have positive := small c choice
  rw [← inner] at few room
  refine Diagram.roomy_of_few few (by omega) (fun c member => ?_) room
  rw [counted] at member
  exact (small c (chosen c member)).2

/-- A problem that is asked for with integers and real bounds is drawn in the same way as long as
its tables can be held. -/
theorem problem_sameOutcomes {real : Float → Prop} (low high : Float)
    (few : (chance + decision).toNat < Path.maxHeld) (fewValues : value.toNat < Path.maxHeld)
    (some : choices ≠ []) (small : ∀ c ∈ choices, 1 ≤ c ∧ c < 2 ^ 63)
    (roomy : ∀ d, Drawable real chance decision value limit choices d → d.Roomy) :
    SameOutcomes real
      (Request.problem (.int chance) (.int decision) (.int value) (.int limit)
        [("state_choices", .list (Datum.ints choices)), ("low", .real low), ("high", .real high)])
      (spreadProblem ((Magnitude.ofReal low).before (Magnitude.ofReal high))
        chance decision value limit choices low (high - low)) := by
  have asked : Request.problem (.int chance) (.int decision) (.int value) (.int limit)
      [("state_choices", .list (Datum.ints choices)), ("low", .real low), ("high", .real high)] =
      assemble (outline chance decision value limit)
        (fun _ => Request.states (.list (Datum.ints choices)) (.int (chance + decision)))
        (fun d j => Request.probabilities (.ofDiagram d) (.int j) (.int 0))
        fun d v => Request.utilities (.ofDiagram d) (.int v) (.real low) (.real high) := by
    rw [Request.problem, Request.outline_int limit few fewValues]
    rfl
  have counted : SameOutcomes real
      (Request.states (.list (Datum.ints choices)) (.int (chance + decision)))
      (states choices (chance + decision)) :=
    .of_spans (Request.states_spans some small)
      (states_spans some fun c choice => (small c choice).1)
  rw [asked, spreadProblem, assemble, assemble]
  refine (SameOutcomes.refl _).bind fun o outlined => counted.bind fun counts chosen => ?_
  cases made : Diagram.create o.chance o.decision o.value o.arcs (counts.map .int) with
  | error fault => exact .refl _
  | ok d =>
    have room := roomy d ⟨o, counts, outlined, chosen, made⟩
    have odds : (d.chance.mapM fun j => do
        return (j, Supplied.table (← Request.probabilities (.ofDiagram d) (.int j) (.int 0)))) =
        d.chance.mapM fun j => do return (j, Supplied.table (← probabilities d j 0)) := by
      refine Success.mapM_congr fun j chance => ?_
      have range := d.inner_of_chance chance
      rw [Request.probabilities_of_room range.1 range.2 0 (room.chance j chance)]
    have gains : (d.value.mapM fun v => do
        return (v, Supplied.table
          (← Request.utilities (.ofDiagram d) (.int v) (.real low) (.real high)))) =
        d.value.mapM fun v => do
          return (v, Supplied.table (← drawSpread
            ((Magnitude.ofReal low).before (Magnitude.ofReal high)) d v low (high - low))) := by
      refine Success.mapM_congr fun v value => ?_
      rw [Request.utilities_of_room value (room.value v value)]
    rw [ofExcept_ok, done_bind, done_bind, odds, gains]
    exact .refl _

end Problem

/-- Random tables and problems are accepted. A random table of a chance node can always be drawn or
refused: it is refused exactly where some context would have to lose all of its outcomes, and
otherwise it is a table of exact probabilities, with so many zeros, that passes its check. Where the
numbers of nodes, the state counts and the bounds of the utilities are in order, a random problem is
always drawn, and its diagram and tables are accepted as they are. What is asked for with integers
and real bounds is drawn in the same way as long as there is room for its tables. -/
theorem tables_validate :
    (∀ d : Diagram, ∀ j ∈ d.chance, ∀ zeros : Int,
      (∃ r, Outcome (fun x : Rat => 0 < x) (probabilities d j zeros) r) ∧
      (∀ r, Outcome (fun x : Rat => 0 < x) (probabilities d j zeros) r →
        ((∃ violation, r = .error (.domain violation)) ↔ ¬d.CanLose j zeros) ∧
        (d.CanLose j zeros →
          ∃ t, r = .ok t ∧ d.ExactTable j zeros t ∧ checkProbabilities d j t = .ok ())) ∧
      (d.Held (d.family j) →
        Request.probabilities (.ofDiagram d) (.int j) (.int zeros) = probabilities d j zeros)) ∧
    (∀ (chance decision value limit : Int) (choices : List Int) (low high : Rat),
      Admissible chance decision value limit → choices ≠ [] → (∀ c ∈ choices, 1 ≤ c) →
      low < high →
      (∃ r, Outcome (fun x : Rat => 0 < x)
        (problem chance decision value limit choices low high) r) ∧
      ∀ r, Outcome (fun x : Rat => 0 < x)
        (problem chance decision value limit choices low high) r →
        ∃ p, r = .ok p ∧ p.diagram.revalidate = .ok p.diagram ∧
          Problem.create p.diagram (Problem.given p.probabilities) (Problem.given p.utilities) =
            .ok p) ∧
    (∀ (chance decision value limit : Int) (choices : List Int) (low high : Rat),
      problem chance decision value limit choices low high =
        spreadProblem (low < high) chance decision value limit choices low (high - low)) ∧
    ∀ (chance decision value limit : Int) (choices : List Int) (low high : Float)
      (real : Float → Prop),
      (chance + decision).toNat < Path.maxHeld → value.toNat < Path.maxHeld →
      choices ≠ [] → (∀ c ∈ choices, 1 ≤ c ∧ c < 2 ^ 63) →
      (∀ d, Drawable real chance decision value limit choices d → d.Roomy) →
      SameOutcomes real
        (Request.problem (.int chance) (.int decision) (.int value) (.int limit)
          [("state_choices", .list (Datum.ints choices)), ("low", .real low), ("high", .real high)])
        (spreadProblem ((Magnitude.ofReal low).before (Magnitude.ofReal high))
          chance decision value limit choices low (high - low)) := by
  refine ⟨?_, ?_, fun _ _ _ _ _ => problem_eq,
    fun _ _ _ _ _ low high _ => problem_sameOutcomes low high⟩
  · intro d j chance zeros
    have range := d.inner_of_chance chance
    have asked := @Request.probabilities_of_room d j range.1 range.2 zeros
    by_cases fit : d.CanLose j zeros
    · have draws := probabilities_ensures range.1 range.2 fit
      refine ⟨draws.exists_outcome, fun r drawn => ?_, asked⟩
      obtain ⟨t, rfl, exact⟩ := draws.ok r drawn
      exact ⟨by simp [fit], fun _ => ⟨t, rfl, exact, exact.checked range.1 range.2⟩⟩
    · rw [@probabilities_refused d j Rat _ range.1 range.2 zeros fit]
      refine ⟨⟨_, outcome_failed_iff.mpr rfl⟩, fun r drawn => ⟨?_, fun able => absurd able fit⟩,
        asked⟩
      exact iff_of_true ⟨_, outcome_failed_iff.mp drawn⟩ fit
  · intro chance decision value limit choices low high admissible some positive order
    have draws := problem_ensures admissible some positive order
    exact ⟨draws.exists_outcome, draws.ok⟩

/-- One of the two kinds of weather can be impossible, but not both. A problem with a chance node
and a decision node can be drawn, and is drawn in the same way when it is asked for. -/
theorem weather_tables :
    (∃ t, Outcome (fun x : Rat => 0 < x) (probabilities Problem.umbrella.diagram 1 1) (.ok t) ∧
      Problem.umbrella.diagram.ExactTable 1 1 t) ∧
    (∃ violation, Outcome (fun x : Rat => 0 < x) (probabilities Problem.umbrella.diagram 1 2)
      (.error (.domain violation))) ∧
    Request.probabilities (.ofDiagram Problem.umbrella.diagram) (.int 1) (.int 1) =
      probabilities Problem.umbrella.diagram 1 1 ∧
    (∃ p, Outcome (fun x : Rat => 0 < x) (problem 1 1 1 1 [2, 3] 0 1) (.ok p) ∧
      Problem.create p.diagram (Problem.given p.probabilities) (Problem.given p.utilities) =
        .ok p) ∧
    ∀ low high : Float, SameOutcomes (fun _ => True)
      (Request.problem (.int 1) (.int 1) (.int 1) (.int 1)
        [("state_choices", .list (Datum.ints [2, 3])), ("low", .real low), ("high", .real high)])
      (spreadProblem ((Magnitude.ofReal low).before (Magnitude.ofReal high)) 1 1 1 1 [2, 3] low
        (high - low)) := by
  have node : (1 : Int) ∈ Problem.umbrella.diagram.chance := by decide
  have admissible : Admissible 1 1 1 1 := by constructor <;> decide
  obtain ⟨tables, problems, _, asked⟩ := tables_validate
  refine ⟨?_, ?_, ?_, ?_, fun low high => ?_⟩
  · obtain ⟨⟨r, drawn⟩, spec, _⟩ := tables _ 1 node 1
    obtain ⟨t, rfl, exact, _⟩ := (spec r drawn).2 (by decide +kernel)
    exact ⟨t, drawn, exact⟩
  · obtain ⟨⟨r, drawn⟩, spec, _⟩ := tables _ 1 node 2
    obtain ⟨violation, rfl⟩ := (spec r drawn).1.mpr (by decide +kernel)
    exact ⟨violation, drawn⟩
  · exact (tables _ 1 node 1).2.2 ⟨by decide +kernel, by decide +kernel⟩
  · obtain ⟨⟨r, drawn⟩, spec⟩ := problems 1 1 1 1 [2, 3] 0 1 admissible (by decide) (by decide)
      (by norm_num)
    obtain ⟨p, rfl, _, accepted⟩ := spec r drawn
    exact ⟨p, drawn, accepted⟩
  · refine asked 1 1 1 1 [2, 3] low high _ (by decide) (by decide) (by decide) (by decide)
      fun d drawable => ?_
    exact @Drawable.roomy 1 1 1 1 [2, 3] _ _ d 3 drawable admissible (by decide) (by decide)
      (by decide) (by decide)

/-- A chance node with so many parents that its table has one axis too many. -/
def crowded : Diagram where
  toOutline := Outline.ofLists (span 1 65) [] [] ((span 1 64).map fun i => (i, 65))
  counts := List.replicate 65 1
  layered := (@Outline.layered_of_defect (span 1 65) [] [] ((span 1 64).map fun i => (i, 65)) 65
    (by decide +kernel)).1
  counts_length := by decide +kernel
  counts_pos := by decide +kernel

/-- The table of a node with too many parents cannot be made, whatever is drawn. -/
theorem crowded_has_no_table : crowded.revalidate = .ok crowded ∧ 65 ∈ crowded.chance ∧
    crowded.CanLose 65 0 ∧
    ∀ (real : Float → Prop) r,
      Outcome real (Request.probabilities (.ofDiagram crowded) (.int 65) (.int 0)) r →
        r = .error (.tooManyAxes 65) := by
  have node : (65 : Int) ∈ crowded.chance := by decide +kernel
  have fit : crowded.CanLose 65 0 := by decide +kernel
  have length : (crowded.family 65).length = 65 := by decide +kernel
  have range := crowded.inner_of_chance node
  refine ⟨crowded.revalidate_eq, node, fit, fun real r drawn => ?_⟩
  rw [Request.probabilities_of_axes range.1 range.2 fit (by rw [length]; decide)
    (by decide +kernel), length, (drawUniforms_spans _).outcome_bind_iff] at drawn
  obtain ⟨_, _, failure⟩ := drawn
  exact outcome_failed_iff.mp failure

end Random

end InfluenceProgram
