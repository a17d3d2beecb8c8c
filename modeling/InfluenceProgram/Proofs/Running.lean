import InfluenceProgram.Proofs.RandomTables
import InfluenceProgram.Random.Source

/-!
Experiments that are run on a source of words. Items are shuffled and sampled by exchanges, so none
of them gets lost and none is repeated. What a run comes to is thus an outcome of its experiment.
-/

set_option autoImplicit false

namespace InfluenceProgram

/-- Nothing but integers is laid down in advance. -/
def Source.Laid (s : Source) : Prop := ∀ d ∈ s.queued, ∃ n, d.position = .ok n

namespace Draw

variable {β γ : Type}

/-- Whatever words there are, a draw comes to a result with a certain property. -/
def Yields (draw : Draw β) (fine : β → Prop) : Prop :=
  ∀ s : Source, s.Laid → ∃ b s', draw s = (.ok b, s') ∧ s'.Laid ∧ fine b

/-- A draw goes on with the words that are left. -/
theorem bind_run {draw : Draw β} {next : β → Draw γ} {s s' : Source} {b : β}
    (drawn : draw s = (.ok b, s')) : (draw >>= next) s = next b s' := by
  change ExceptT.bindCont next (draw s).1 (draw s).2 = _
  rw [drawn]
  rfl

namespace Yields

variable {draw : Draw β} {fine : β → Prop}

theorem pure {b : β} (property : fine b) : Yields (pure b) fine :=
  fun s laid => ⟨b, s, rfl, laid, property⟩

theorem bind {next : β → Draw γ} {fine' : γ → Prop} (first : Yields draw fine)
    (rest : ∀ b, fine b → Yields (next b) fine') : Yields (draw >>= next) fine' := by
  intro s laid
  obtain ⟨b, s', drawn, laid', property⟩ := first s laid
  obtain ⟨c, s'', continued, laid'', property'⟩ := rest b property s' laid'
  exact ⟨c, s'', (bind_run drawn).trans continued, laid'', property'⟩

theorem mono {fine' : β → Prop} (yields : Yields draw fine) (weaker : ∀ b, fine b → fine' b) :
    Yields draw fine' := by
  intro s laid
  obtain ⟨b, s', drawn, laid', property⟩ := yields s laid
  exact ⟨b, s', drawn, laid', weaker b property⟩

end Yields

theorem next_yields : Yields next fun _ => True := by
  rintro ⟨queued, state, used⟩ laid
  cases queued with
  | nil =>
    obtain ⟨w, state', drawn⟩ : ∃ w state', next ⟨[], state, used⟩ =
        (.ok w, ⟨[], state', used + 1⟩) := by
      unfold next
      generalize (0x9E3779B97F4A7C15 : UInt64) = step
      exact ⟨Source.mixed (state + step), state + step, rfl⟩
    exact ⟨w, ⟨[], state', used + 1⟩, drawn, laid, trivial⟩
  | cons d rest =>
    obtain ⟨⟨n, position⟩, others⟩ := List.forall_mem_cons.mp laid
    have drawn : next ⟨d :: rest, state, used⟩ =
        (d.position.map Source.word, ⟨rest, state, used + 1⟩) := by
      cases d <;> rfl
    rw [position] at drawn
    exact ⟨Source.word n, ⟨rest, state, used + 1⟩, drawn, others, trivial⟩

theorem below_yields {bound : Nat} (some : 0 < bound) : Yields (below bound) (· < bound) :=
  next_yields.bind fun w _ => .pure (Nat.mod_lt w.toNat some)

theorem exchange_perm (a : Array β) (i j : Nat) : (exchange a i j).toList.Perm a.toList := by
  unfold exchange Array.swapIfInBounds
  split
  · split
    · exact (Array.swap_perm _ _).toList
    · exact .refl _
  · exact .refl _

theorem shuffleFirst_yields (k : Nat) (a : Array β) :
    Yields (shuffleFirst k a) fun b => b.toList.Perm a.toList := by
  induction k generalizing a with
  | zero => exact .pure (.refl _)
  | succ k ih =>
    exact (below_yields (Nat.succ_pos _)).bind fun j _ =>
      (ih _).mono fun b same => same.trans (exchange_perm a _ _)

theorem shuffled_yields (items : List Int) : Yields (shuffled items) (·.Perm items) :=
  (shuffleFirst_yields _ _).bind fun _ same => .pure same

theorem uniforms_yields (count : Nat) : Yields (uniforms count) (·.length = count) := by
  induction count with
  | zero => exact .pure rfl
  | succ k ih =>
    exact next_yields.bind fun w _ => ih.bind fun xs length => .pure (congrArg (· + 1) length)

theorem sampleFrom_yields {pool left i : Nat} (room : i + left ≤ pool) (a : Array Nat) :
    Yields (sampleFrom pool left i a) fun b => b.toList.Perm a.toList := by
  induction left generalizing i a with
  | zero => exact .pure (.refl _)
  | succ left ih =>
    exact (below_yields (by omega)).bind fun j _ =>
      (ih (by omega) _).mono fun b same => same.trans (exchange_perm a _ _)

theorem sampled_yields {pool size : Nat} (fits : size ≤ pool) :
    Yields (sampled pool size) fun chosen =>
      chosen.length = size ∧ (∀ k ∈ chosen, k < pool) ∧ chosen.Nodup := by
  refine (sampleFrom_yields (by omega) _).bind fun b same => .pure ⟨?_, fun k member => ?_, ?_⟩
  · have length := same.length_eq
    rw [List.length_range] at length
    rw [List.length_take, length]
    omega
  · exact List.mem_range.mp (same.mem_iff.mp (List.mem_of_mem_take member))
  · exact (same.nodup_iff.mpr List.nodup_range).sublist (List.take_sublist _ _)

end Draw

namespace Experiment

variable {α β γ : Type}

/-- Whatever is drawn, no sample is asked for that is larger than its pool. -/
def Feasible : Experiment α β → Prop
  | done _ | failed _ => True
  | integer low high next => ∀ k, low ≤ k → k < high → (next k).Feasible
  | word next => ∀ k, k < Nat.pow 2 64 → (next k).Feasible
  | shuffle items next => ∀ shuffled, shuffled.Perm items → (next shuffled).Feasible
  | uniforms count next => ∀ xs, xs.length = count → (next xs).Feasible
  | sample pool size next => size ≤ pool ∧ ∀ chosen, chosen.length = size →
      (∀ k ∈ chosen, k < pool) → chosen.Nodup → (next chosen).Feasible

/-- What a run of an experiment comes to is one of its outcomes. -/
theorem outcome_runOn {e : Experiment Float β} (feasible : e.Feasible) {s : Source}
    (laid : s.Laid) : Outcome (fun _ => True) e (e.runOn s).1 := by
  unfold runOn
  induction e generalizing s with
  | done result => exact .done result
  | failed fault => exact .failed fault
  | integer low high next ih =>
    unfold run
    split
    · rename_i some
      have range : 0 < (high - low).toNat := by omega
      obtain ⟨k, s', drawn, laid', below⟩ := Draw.below_yields range s laid
      rw [Draw.bind_run drawn]
      exact .integer (by omega) (by omega) (ih _ (feasible _ (by omega) (by omega)) laid')
    · rename_i none
      exact .emptyRange (by omega)
  | word next ih =>
    obtain ⟨w, s', drawn, laid', _⟩ := Draw.next_yields s laid
    rw [run, Draw.bind_run drawn]
    have below : w.toNat < Nat.pow 2 64 := w.toNat_lt
    exact .word below (ih _ (feasible _ below) laid')
  | shuffle items next ih =>
    obtain ⟨shuffled, s', drawn, laid', permuted⟩ := Draw.shuffled_yields items s laid
    rw [run, Draw.bind_run drawn]
    exact .shuffle permuted (ih _ (feasible _ permuted) laid')
  | uniforms count next ih =>
    obtain ⟨xs, s', drawn, laid', length⟩ := Draw.uniforms_yields count s laid
    rw [run, Draw.bind_run drawn]
    exact .uniforms length (fun _ _ => trivial) (ih _ (feasible _ length) laid')
  | sample pool size next ih =>
    obtain ⟨fits, rest⟩ := feasible
    obtain ⟨chosen, s', drawn, laid', length, range, distinct⟩ := Draw.sampled_yields fits s laid
    rw [run, Draw.bind_run drawn]
    exact .sample length range distinct (ih _ (rest _ length range distinct) laid')

namespace Feasible

theorem bind {e : Experiment α β} {next : β → Experiment α γ} (first : e.Feasible)
    (rest : ∀ b, Outcome (fun _ => True) e (.ok b) → (next b).Feasible) :
    (e >>= next).Feasible := by
  change (e.bind next).Feasible
  induction e with
  | done result => exact rest result (.done result)
  | failed fault => exact trivial
  | integer low high draw ih =>
    exact fun k above below => ih k (first k above below) fun b drawn =>
      rest b (.integer above below drawn)
  | word draw ih =>
    exact fun k below => ih k (first k below) fun b drawn => rest b (.word below drawn)
  | shuffle items draw ih =>
    exact fun shuffled permuted => ih shuffled (first shuffled permuted) fun b drawn =>
      rest b (.shuffle permuted drawn)
  | uniforms count draw ih =>
    exact fun xs length => ih xs (first xs length) fun b drawn =>
      rest b (.uniforms length (fun _ _ => trivial) drawn)
  | sample pool size draw ih =>
    exact ⟨first.1, fun chosen length range distinct =>
      ih chosen (first.2 chosen length range distinct) fun b drawn =>
        rest b (.sample length range distinct drawn)⟩

theorem map {e : Experiment α β} (feasible : e.Feasible) (f : β → γ) :
    (e >>= fun b => pure (f b)).Feasible :=
  feasible.bind fun _ _ => trivial

theorem mapM {f : γ → Experiment α β} {xs : List γ} (each : ∀ x ∈ xs, (f x).Feasible) :
    (xs.mapM f).Feasible := by
  induction xs with
  | nil =>
      rw [List.mapM_nil]
      exact trivial
  | cons x xs ih =>
      obtain ⟨first, rest⟩ := List.forall_mem_cons.mp each
      rw [List.mapM_cons]
      exact first.bind fun y _ => (ih rest).map (y :: ·)

end Feasible

theorem ofExcept_feasible (outcome : Except Fault β) :
    (ofExcept outcome : Experiment α β).Feasible := by
  cases outcome <;> exact trivial

theorem require_feasible (condition : Bool) (violation : DomainViolation) :
    (require condition violation : Experiment α Unit).Feasible := by
  unfold require
  split <;> exact trivial

end Experiment

namespace Random

open Experiment

variable {α : Type}

theorem drawInteger_feasible (low high : Int) :
    (drawInteger low high : Experiment α Int).Feasible := fun _ _ _ => trivial

theorem drawShuffle_feasible (items : List Int) :
    (drawShuffle items : Experiment α (List Int)).Feasible := fun _ _ => trivial

theorem drawUniforms_feasible (count : Nat) :
    (drawUniforms count : Experiment α (List α)).Feasible := fun _ _ => trivial

theorem drawSample_feasible {pool size : Nat} (fits : size ≤ pool) :
    (drawSample pool size : Experiment α (List Nat)).Feasible := ⟨fits, fun _ _ _ _ => trivial⟩

theorem informationSet_feasible {drawSize : Experiment α Int} (sizes : drawSize.Feasible)
    (j : Int) : (informationSet drawSize j).Feasible :=
  sizes.bind fun _ _ => (drawShuffle_feasible _).map _

theorem valueInformationSet_feasible (leaves : List Int) (n : Nat) :
    (valueInformationSet leaves n : Experiment α (List Int)).Feasible := by
  refine (drawShuffle_feasible _).bind fun others _ => ?_
  split
  · exact trivial
  · exact (drawInteger_feasible _ _).map _

/-- An outline is drawn without samples. -/
theorem outlineBy_feasible {drawSize : Experiment α Int} (sizes : drawSize.Feasible)
    (chance decision value : Int) : (outlineBy drawSize chance decision value).Feasible := by
  refine (drawShuffle_feasible _).bind fun order _ => ?_
  refine (Feasible.mapM fun j _ => (informationSet_feasible sizes j).map _).bind fun sets _ => ?_
  refine (Feasible.mapM fun i _ => (drawInteger_feasible _ _).map _).bind fun homes _ => ?_
  exact (Feasible.mapM fun v _ => (valueInformationSet_feasible _ _).map _).map _

theorem outline_feasible (chance decision value limit : Int) :
    (outline chance decision value limit : Experiment α Outline).Feasible := by
  have counts : (checkCounts chance decision value limit : Experiment α Unit).Feasible :=
    (require_feasible _ _).bind fun _ _ => (require_feasible _ _).bind fun _ _ =>
      (require_feasible _ _).bind fun _ _ => (require_feasible _ _).bind fun _ _ =>
        require_feasible _ _
  exact counts.bind fun _ _ => outlineBy_feasible (drawInteger_feasible _ _) _ _ _

theorem states_feasible (choices : List Int) (nodes : Int) :
    (states choices nodes : Experiment α (List Int)).Feasible :=
  (require_feasible _ _).bind fun _ _ =>
    Feasible.mapM fun _ _ => (drawInteger_feasible _ _).map _

/-- No more outcomes are taken from a context than it has. -/
theorem drawInactive_feasible {contexts count size : Nat} (some : 1 ≤ count)
    (fits : size ≤ contexts * (count - 1)) :
    (drawInactive contexts count size : Experiment α (List (Nat × List Nat))).Feasible := by
  have losses : (drawLosses contexts count size : Experiment α (Keyed Nat Nat)).Feasible :=
    (drawSample_feasible fits).map _
  refine losses.bind fun losses drawn => Feasible.mapM fun e member => ?_
  obtain ⟨_, same, fair⟩ := (drawLosses_ensures some fits).ok _ drawn
  cases same
  exact (drawSample_feasible (fair.few e member).le).map _

variable [Scalar α] {d : Diagram}

theorem probabilities_feasible {j : Int} (low : 1 ≤ j) (high : j ≤ d.inner) (zeros : Int) :
    (probabilities d j zeros : Experiment α (Tensor α)).Feasible := by
  by_cases fit : d.CanLose j zeros
  case neg =>
    rw [probabilities_refused low high fit]
    exact trivial
  have counted := d.count_pos low high
  obtain ⟨size, rfl, fits⟩ := exists_size low high fit
  rw [probabilities, familyCounts_eq low high, ofExcept_ok, done_bind]
  refine (require_feasible _ _).bind fun _ _ => (drawUniforms_feasible _).bind fun xs _ => ?_
  split
  · exact (drawInactive_feasible (by omega) fits).map _
  · exact trivial

theorem utilities_feasible (v : Int) (low high : α) : (utilities d v low high).Feasible :=
  (require_feasible _ _).bind fun _ _ => (ofExcept_feasible _).bind fun _ _ =>
    (drawUniforms_feasible _).map _

theorem problem_feasible (chance decision value limit : Int) (choices : List Int) (low high : α) :
    (problem chance decision value limit choices low high).Feasible := by
  refine (outline_feasible _ _ _ _).bind fun o _ => (states_feasible _ _).bind fun counts _ =>
    (ofExcept_feasible _).bind fun d _ => ?_
  refine (Feasible.mapM fun j chance => ?_).bind fun X _ => ?_
  · have range := d.inner_of_chance chance
    exact (probabilities_feasible range.1 range.2 0).map _
  · exact (Feasible.mapM fun v _ => (utilities_feasible v low high).map _).bind fun Y _ =>
      ofExcept_feasible _

/-- What runs from a seed come to are outcomes of what is run. -/
theorem outcomes_of_seed (seed : Int) :
    (∀ chance decision value limit : Int,
      let drawn : Experiment Float Outline := outline chance decision value limit
      Outcome (fun _ => True) drawn (drawn.runOn (.ofSeed seed [])).1) ∧
    (∀ d : Diagram, ∀ j ∈ d.chance, ∀ zeros : Int,
      let drawn : Experiment Float (Tensor Float) := probabilities d j zeros
      Outcome (fun _ => True) drawn (drawn.runOn (.ofSeed seed [])).1) ∧
    ∀ (chance decision value limit : Int) (choices : List Int) (low high : Float),
      let drawn := problem chance decision value limit choices low high
      Outcome (fun _ => True) drawn (drawn.runOn (.ofSeed seed [])).1 := by
  have laid : (Source.ofSeed seed []).Laid := fun _ member => absurd member List.not_mem_nil
  refine ⟨fun chance decision value limit => ?_, fun d j chance zeros => ?_,
    fun chance decision value limit choices low high => ?_⟩
  · exact outcome_runOn (outline_feasible _ _ _ _) laid
  · have range := d.inner_of_chance chance
    exact outcome_runOn (probabilities_feasible range.1 range.2 zeros) laid
  · exact outcome_runOn (problem_feasible _ _ _ _ _ _ _) laid

end Random

end InfluenceProgram
