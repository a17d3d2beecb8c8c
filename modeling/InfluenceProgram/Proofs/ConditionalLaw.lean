import InfluenceProgram.Proofs.Ancestors
import InfluenceProgram.Proofs.Validated

/-!
The law of a node in its contexts. Pinning a node to a state takes its share out of every path on
which it has the state, and leaves the context of the node as likely as it was, since contexts lie
below their nodes. So a context splits among the states as the table of a chance node says, and a
decision node hands all of it to the state that is taken.
-/

set_option autoImplicit false

namespace InfluenceProgram

/-- The nodes before a node have their information sets among them. -/
theorem Diagram.earlier_ancestral (d : Diagram) {j : Int} (high : j ≤ d.inner) :
    d.Ancestral {i | 1 ≤ i ∧ i < j} where
  inner i earlier := ⟨earlier.1, earlier.2.le.trans high⟩
  parents i earlier k parent := by
    have below := d.informationSet_below parent
    exact ⟨below.1, below.2.1.trans earlier.2⟩

namespace Kernel

/-- The kernel in which a node has one state for sure, whatever its context. -/
def pin (K : Kernel) (j x : Int) : Kernel := fun i c y =>
  if i = j then if x = y then 1 else 0 else K i c y

variable {d : Diagram} {K : Kernel} {j x : Int}

/-- Pinning a node to its state on a path takes out its share there. -/
theorem along_pin (inner : j ∈ d.innerNodes) {s : Path} (here : s.stateAt j = x) :
    K.along d d.innerNodes s = K.on d s j * (K.pin j x).along d d.innerNodes s := by
  have distinct := nodup_of_ascending (pairwise_span 1 d.inner)
  have own : (K.pin j x).on d s j = 1 := by
    rw [on, pin, if_pos rfl, if_pos here.symm]
  have others : ∀ i ∈ d.innerNodes.erase j, K.on d s i = (K.pin j x).on d s i := by
    intro i member
    have different := ((List.Nodup.mem_erase_iff distinct).mp member).1
    rw [on, on, pin, if_neg different]
  rw [along, along, ← List.prod_map_erase _ inner, ← List.prod_map_erase _ inner, own, one_mul,
    List.map_congr_left others]

theorem along_pin_of_ne (inner : j ∈ d.innerNodes) {s : Path} (elsewhere : s.stateAt j ≠ x) :
    (K.pin j x).along d d.innerNodes s = 0 := by
  refine List.prod_eq_zero (List.mem_map.mpr ⟨j, inner, ?_⟩)
  rw [on, pin, if_pos rfl, if_neg (Ne.symm elsewhere)]

theorem Stochastic.pin (stochastic : K.Stochastic d) (state : x ∈ states (d.count j)) :
    (K.pin j x).Stochastic d := by
  intro i inner c context
  by_cases here : i = j
  · subst here
    have shares : K.pin i x i c = fun y => if x = y then 1 else 0 := by
      funext y
      exact if_pos rfl
    rw [total, shares]
    exact Scalar.sum_single (nodup_states _) state fun _ => 1
  · have shares : K.pin j x i c = K i c := by
      funext y
      exact if_neg here
    rw [total, shares]
    exact stochastic i inner c context

/-- A context is as likely as it was where its node is pinned. -/
theorem Stochastic.sum_context_pin (stochastic : K.Stochastic d) (inner : j ∈ d.innerNodes)
    (state : x ∈ states (d.count j)) (c : Path) :
    ((paths d.counts).map fun s => (if s.select (d.informationSet j) = c then 1 else 0) *
        (K.pin j x).along d d.innerNodes s).sum =
      ((paths d.counts).map fun s => (if s.select (d.informationSet j) = c then 1 else 0) *
        K.along d d.innerNodes s).sum := by
  refine sum_along_eq_of_agree (d.earlier_ancestral (d.mem_innerNodes.mp inner).2)
    (stochastic.pin state) stochastic (fun i earlier _ _ _ _ => if_neg earlier.2.ne)
    fun s _ t _ agree => ?_
  have same : s.select (d.informationSet j) = t.select (d.informationSet j) :=
    agree.select_eq fun i parent => by
      have below := d.informationSet_below parent
      exact ⟨below.1, below.2.1⟩
  rw [same]

/-- The paths that have a context and a state at a node weigh as much as the paths that have the
context, times the share of the state. -/
theorem Stochastic.sum_joint (stochastic : K.Stochastic d) (inner : j ∈ d.innerNodes)
    (state : x ∈ states (d.count j)) (c : Path) :
    ((paths d.counts).map fun s =>
        (if s.select (d.informationSet j) = c ∧ s.stateAt j = x then 1 else 0) *
          K.along d d.innerNodes s).sum =
      K j c x * ((paths d.counts).map fun s =>
        (if s.select (d.informationSet j) = c then 1 else 0) * K.along d d.innerNodes s).sum := by
  rw [← stochastic.sum_context_pin inner state, ← List.sum_map_mul_left]
  -- With the node pinned, both sums agree path by path: paths in another state weigh nothing.
  refine congrArg List.sum (List.map_congr_left fun s _ => ?_)
  by_cases context : s.select (d.informationSet j) = c
  · by_cases here : s.stateAt j = x
    · rw [if_pos ⟨context, here⟩, if_pos context, one_mul, one_mul, along_pin inner here, on,
        context, here]
    · rw [if_neg fun both => here both.2, along_pin_of_ne inner here, zero_mul, mul_zero, mul_zero]
  · rw [if_neg fun both => context both.1, if_neg context, zero_mul, zero_mul, mul_zero]

end Kernel

namespace Diagram

/-- The total probability of the paths that have a context at a node. -/
def contextMass (d : Diagram) (weighted : List (Path × Rat)) (j : Int) (c : Path) : Rat :=
  (weighted.map fun e => if e.1.select (d.informationSet j) = c then e.2 else 0).sum

/-- The total probability of the paths that have a context and a state at a node. -/
def jointMass (d : Diagram) (weighted : List (Path × Rat)) (j : Int) (c : Path) (x : Int) : Rat :=
  (weighted.map fun e =>
    if e.1.select (d.informationSet j) = c ∧ e.1.stateAt j = x then e.2 else 0).sum

end Diagram

/-- The entries of a table with one axis are those at its single states. -/
theorem Tensor.entries_eq_of_single {t : Tensor Rat} {count : Int}
    (shape : t.shape = [count.toNat]) :
    t.entries.toList = (states count).map fun x => t.valueAt [x] := by
  have size : t.entries.size = count.toNat := by
    rw [t.size_eq, shape]
    exact Nat.mul_one _
  apply List.ext_getElem
  · rw [Array.length_toList, size, List.length_map, length_states]
  · intro k inside _
    rw [Array.length_toList] at inside
    have found : t.get (Path.toIndex [(k : Int) + 1]) = .ok t.entries[k] := by
      simp only [get, shape, Path.toIndex, List.map_cons, List.map_nil, place,
        offset_of_state (show 1 ≤ (k : Int) + 1 by omega) (show (k : Int) + 1 ≤ count by omega)]
      simp [Except.map, volume, Array.getElem?_eq_getElem inside]
    simp only [Array.getElem_toList, List.getElem_map, states, List.getElem_range,
      Int.ofNat_eq_natCast, valueAt, found]
    rfl

namespace Problem

variable {p : Problem Rat} {σ : Strategy}

/-- The compatible paths, each with its probability. -/
def weighted (p : Problem Rat) (σ : Strategy) : List (Path × Rat) :=
  (p.taken σ).map fun s => (s, p.weight s)

/-- What the paths with a context at a node weigh is split by the kernel of the node. -/
theorem Weighed.jointMass_eq (weighed : p.Weighed) (normalized : p.Normalized)
    (complete : σ.Complete p.diagram) {j : Int} (inner : j ∈ p.diagram.innerNodes) {x : Int}
    (state : x ∈ states (p.diagram.count j)) (c : Path) :
    p.diagram.jointMass (p.weighted σ) j c x =
      p.conditional.under p.diagram σ j c x * p.diagram.contextMass (p.weighted σ) j c := by
  have split := (weighed.stochastic normalized complete).sum_joint inner state c
  have joint := p.sum_under σ fun s =>
    if s.select (p.diagram.informationSet j) = c ∧ s.stateAt j = x then 1 else 0
  have whole := p.sum_under σ fun s =>
    if s.select (p.diagram.informationSet j) = c then 1 else 0
  rw [paths] at joint whole
  rw [joint, whole] at split
  simpa only [Diagram.jointMass, Diagram.contextMass, weighted, List.map_map, Function.comp_def,
    ite_mul, one_mul, zero_mul] using split

/-- The probability of a state is what it gets from all contexts. -/
theorem marginal_eq_sum_jointMass (p : Problem Rat) (σ : Strategy) (j x : Int) :
    p.marginal σ j x =
      ((p.diagram.contexts j).map fun c => p.diagram.jointMass (p.weighted σ) j c x).sum := by
  have within : ∀ s ∈ p.taken σ, s.select (p.diagram.informationSet j) ∈ p.diagram.contexts j :=
    fun s member => Diagram.select_mem_contexts (mem_taken.mp member).1 j
  rw [marginal, ← Scalar.sum_classes (nodup_paths _) _ within]
  simp only [Diagram.jointMass, weighted, List.map_map, Function.comp_def, ite_and]
  rfl

/-- The probabilities of the states of a node add up to one. -/
theorem Weighed.sum_marginal (weighed : p.Weighed) (normalized : p.Normalized)
    (complete : σ.Complete p.diagram) {j : Int} (inner : j ∈ p.diagram.innerNodes) :
    ((states (p.diagram.count j)).map (p.marginal σ j)).sum = 1 := by
  have range := p.diagram.mem_innerNodes.mp inner
  rw [← weighed.sum_weight normalized complete]
  exact Scalar.sum_classes (nodup_states _) _ (fun s member =>
    Diagram.stateAt_mem_states (mem_taken.mp member).1 range.1 range.2) p.weight

/-- The states of a chance node share a context as its table says. -/
theorem Weighed.jointMass_chance (weighed : p.Weighed) (normalized : p.Normalized)
    (complete : σ.Complete p.diagram) {j : Int} (chance : j ∈ p.diagram.chance) {t : Tensor Rat}
    (found : p.probabilities.get? j = some t) {x : Int} (state : x ∈ states (p.diagram.count j))
    (c : Path) :
    p.diagram.jointMass (p.weighted σ) j c x =
      t.valueAt (c ++ [x]) * p.diagram.contextMass (p.weighted σ) j c := by
  have inner := p.diagram.mem_innerNodes.mpr (p.diagram.inner_of_chance chance)
  rw [weighed.jointMass_eq normalized complete inner state, Kernel.under,
    if_neg (p.diagram.layered.disjoint j chance), conditional, found]
  rfl

/-- A decision node gives a context to the state that is taken there. -/
theorem Weighed.jointMass_decision (weighed : p.Weighed) (normalized : p.Normalized)
    (complete : σ.Complete p.diagram) {j : Int} (decision : j ∈ p.diagram.decision) {x : Int}
    (state : x ∈ states (p.diagram.count j)) (c : Path) :
    p.diagram.jointMass (p.weighted σ) j c x =
      if σ.choose? j c = some x then p.diagram.contextMass (p.weighted σ) j c else 0 := by
  have inner := p.diagram.mem_innerNodes.mpr (p.diagram.inner_of_decision decision)
  rw [weighed.jointMass_eq normalized complete inner state, Kernel.under, if_pos decision,
    ite_mul, one_mul, zero_mul]

/-- A chance node to which nothing is known has the probabilities of its table. -/
theorem Weighed.marginal_of_root (weighed : p.Weighed) (normalized : p.Normalized)
    (complete : σ.Complete p.diagram) {j : Int} (chance : j ∈ p.diagram.chance) {t : Tensor Rat}
    (found : p.probabilities.get? j = some t) (root : p.diagram.informationSet j = []) :
    (states (p.diagram.count j)).map (p.marginal σ j) = t.entries.toList := by
  have shape := weighed.shape j t (Keyed.mem_of_get? found)
  rw [p.diagram.axes_family, root] at shape
  have contexts : p.diagram.contexts j = [[]] := by
    rw [Diagram.contexts, root]
    rfl
  have whole : p.diagram.contextMass (p.weighted σ) j [] = 1 := by
    rw [← weighed.sum_weight normalized complete, Diagram.contextMass, weighted, List.map_map]
    refine congrArg List.sum (List.map_congr_left fun s _ => ?_)
    rw [Function.comp_apply, root]
    exact if_pos rfl
  rw [Tensor.entries_eq_of_single shape]
  refine List.map_congr_left fun x state => ?_
  rw [marginal_eq_sum_jointMass, contexts, List.map_singleton, List.sum_singleton,
    weighed.jointMass_chance normalized complete chance found state, whole, mul_one]
  rfl

/-- With exact tables, the paths that are compatible with a complete strategy and have a context at
a chance node split among its states as its table says, and at a decision node all of them have the
state that is taken. The probabilities of the states of every node follow from this; they are the
table itself where nothing is known to a chance node, and they always add up to one. -/
theorem conditional_law (accepted : p.Accepted) (normalized : p.Normalized)
    (complete : σ.Complete p.diagram) :
    ∃ weighted vectors, p.weightedPaths σ = .ok weighted ∧
      σ.compatiblePaths p.diagram = .ok (weighted.map (·.1)) ∧
      (∀ e ∈ weighted, p.probability e.1 = .ok e.2) ∧
      p.stateProbabilities σ = .ok vectors ∧
      (Path.holdable p.diagram.counts = .ok () → p.marginals σ = .ok vectors) ∧
      (∀ j ∈ p.diagram.chance, ∃ t, p.probabilities.get? j = some t ∧
        (∀ c ∈ p.diagram.contexts j, ∀ x ∈ states (p.diagram.count j),
          t.get (Path.toIndex (c ++ [x])) = .ok (t.valueAt (c ++ [x])) ∧
          p.diagram.jointMass weighted j c x =
            t.valueAt (c ++ [x]) * p.diagram.contextMass weighted j c) ∧
        Keyed.get? j vectors = some ((states (p.diagram.count j)).map fun x =>
          ((p.diagram.contexts j).map fun c =>
            t.valueAt (c ++ [x]) * p.diagram.contextMass weighted j c).sum) ∧
        (p.diagram.informationSet j = [] → Keyed.get? j vectors = some t.entries.toList)) ∧
      (∀ j ∈ p.diagram.decision,
        (∀ c ∈ p.diagram.contexts j, ∀ x ∈ states (p.diagram.count j),
          p.diagram.jointMass weighted j c x =
            if σ.choose? j c = some x then p.diagram.contextMass weighted j c else 0) ∧
        Keyed.get? j vectors = some ((states (p.diagram.count j)).map fun x =>
          (((p.diagram.contexts j).filter fun c => σ.choose? j c = some x).map
            (p.diagram.contextMass weighted j)).sum)) ∧
      ∀ j ∈ p.diagram.innerNodes, ∃ vector, Keyed.get? j vectors = some vector ∧
        vector.sum = 1 := by
  have weighed := accepted.weighed
  have table := weighed.stateProbabilities_spec complete.entered
  have vector : ∀ j ∈ p.diagram.innerNodes, Keyed.get? j (p.diagram.innerNodes.map fun j =>
      (j, (states (p.diagram.count j)).map (p.marginal σ j))) =
        some ((states (p.diagram.count j)).map (p.marginal σ j)) :=
    fun j inner => Keyed.get?_map_of_mem _ inner
  refine ⟨p.weighted σ, _, weighed.weightedPaths_eq complete.entered, ?_, ?_, table,
    fun room => (marginals_eq room).trans table, ?_, ?_, fun j inner =>
      ⟨_, vector j inner, weighed.sum_marginal normalized complete inner⟩⟩
  · rw [complete.entered.compatiblePaths_eq, weighted, List.map_map]
    exact congrArg Except.ok (List.map_id _).symm
  · intro e member
    obtain ⟨s, taken, rfl⟩ := List.mem_map.mp member
    exact weighed.probability_eq (mem_taken.mp taken).1
  · intro j chance
    obtain ⟨t, member, found⟩ := weighed.table chance
    have inner := p.diagram.mem_innerNodes.mpr (p.diagram.inner_of_chance chance)
    have split := fun x state c =>
      weighed.jointMass_chance (x := x) normalized complete chance found state c
    refine ⟨t, found, fun c context x state => ⟨?_, split x state c⟩, ?_, fun root => ?_⟩
    · exact (Tensor.get_of_path (weighed.shape j t member)
        (Diagram.mem_paths_family.mpr ⟨c, context, x, state, rfl⟩)).1
    · refine (vector j inner).trans (congrArg some (List.map_congr_left fun x state => ?_))
      simp only [marginal_eq_sum_jointMass, split x state]
    · rw [vector j inner, weighed.marginal_of_root normalized complete chance found root]
  · intro j decision
    have inner := p.diagram.mem_innerNodes.mpr (p.diagram.inner_of_decision decision)
    have split := fun x state c =>
      weighed.jointMass_decision (x := x) normalized complete decision state c
    refine ⟨fun c _ x state => split x state c, ?_⟩
    refine (vector j inner).trans (congrArg some (List.map_congr_left fun x state => ?_))
    simp only [marginal_eq_sum_jointMass, split x state, List.sum_map_ite, List.map_const',
      List.sum_replicate, smul_zero, add_zero]

/-- A blind forecast is equally often either way in any weather, an umbrella that is left where the
forecast is fine is always noted so, and the weather is as its table says. -/
theorem errand_conditional_law : ∃ weighted vectors vector,
    (errand (1 / 2)).weightedPaths (noting 1) = .ok weighted ∧
      (errand (1 / 2)).stateProbabilities (noting 1) = .ok vectors ∧
      (errand (1 / 2)).diagram.jointMass weighted 2 [1] 2 =
        1 / 2 * (errand (1 / 2)).diagram.contextMass weighted 2 [1] ∧
      (errand (1 / 2)).diagram.jointMass weighted 4 [1, 2] 1 =
        (errand (1 / 2)).diagram.contextMass weighted 4 [1, 2] ∧
      (errand (1 / 2)).diagram.jointMass weighted 4 [1, 2] 2 = 0 ∧
      Keyed.get? 1 vectors = some [2 / 5, 3 / 5] ∧
      Keyed.get? 4 vectors = some vector ∧ vector.sum = 1 := by
  have accepted : (errand (1 / 2)).Accepted := (accepted_iff _).mpr (by decide +kernel)
  have complete : (noting 1).Complete (errand (1 / 2)).diagram := by decide +kernel
  obtain ⟨weighted, vectors, weighs, _, _, states, _, chance, decision, whole⟩ :=
    conditional_law accepted (by decide +kernel) complete
  obtain ⟨weather, foundWeather, _, _, root⟩ := chance 1 (by decide +kernel)
  obtain ⟨forecast, foundForecast, split, _⟩ := chance 2 (by decide +kernel)
  obtain ⟨taken, _⟩ := decision 4 (by decide +kernel)
  obtain ⟨vector, found, total⟩ := whole 4 (by decide +kernel)
  cases foundWeather
  cases foundForecast
  refine ⟨weighted, vectors, vector, weighs, states, ?_, ?_, ?_, root (by decide +kernel), found,
    total⟩
  · refine (split [1] (by decide +kernel) 2 (by decide +kernel)).2.trans ?_
    exact congrArg (· * _) (by decide +kernel)
  · exact taken [1, 2] (by decide +kernel) 1 (by decide +kernel)
  · exact taken [1, 2] (by decide +kernel) 2 (by decide +kernel)

end Problem

end InfluenceProgram
