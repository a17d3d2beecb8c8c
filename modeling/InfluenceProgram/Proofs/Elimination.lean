import InfluenceProgram.Proofs.Sequential

/-!
Summing out nodes that do not matter. In an ancestral set of nodes each node stands with its
information set. The expectation of a value that reads only such a set depends on the kernel of
these nodes alone: every other node has total one in each context and can be summed out, wherever
it stands between the others.
-/

set_option autoImplicit false

namespace InfluenceProgram

/-- A set of inner nodes that holds the information set of each of its nodes. -/
structure Diagram.Ancestral (d : Diagram) (nodes : Set Int) : Prop where
  inner : ∀ j ∈ nodes, 1 ≤ j ∧ j ≤ d.inner
  parents : ∀ j ∈ nodes, ∀ i ∈ d.informationSet j, i ∈ nodes

namespace Path

/-- Two paths have the same states at some nodes. -/
def AgreeOn (nodes : Set Int) (s t : Path) : Prop := ∀ j ∈ nodes, s.stateAt j = t.stateAt j

theorem stateAt_of_past {s : Path} {j : Int} (past : s.length < j) : s.stateAt j = 0 :=
  List.getD_eq_default _ _ (by omega)

/-- Paths that agree up to a node still do after a step, if the new states agree where they have
to. -/
theorem AgreeOn.concat {nodes : Set Int} {s t : Path} (agree : AgreeOn nodes s t)
    (positive : ∀ j ∈ nodes, 1 ≤ j) (length : s.length = t.length) {x y : Int}
    (last : (s.length : Int) + 1 ∈ nodes → x = y) : AgreeOn nodes (s ++ [x]) (t ++ [y]) := by
  intro j member
  have low := positive j member
  rcases lt_trichotomy j (s.length + 1) with before | here | past
  · rw [stateAt_append [x] low (by omega), stateAt_append [y] low (by omega)]
    exact agree j member
  · subst here
    rw [stateAt_length, length, stateAt_length]
    exact last member
  · have pastS : ((s ++ [x]).length : Int) < j := by simpa using past
    have pastT : ((t ++ [y]).length : Int) < j := by simpa [← length] using past
    rw [stateAt_of_past pastS, stateAt_of_past pastT]

theorem AgreeOn.select_eq {nodes : Set Int} {s t : Path} (agree : AgreeOn nodes s t)
    {some : List Int} (within : ∀ j ∈ some, j ∈ nodes) : s.select some = t.select some :=
  List.map_congr_left fun j member => agree j (within j member)

end Path

namespace Kernel

/-- Two kernels give the same shares to the states of some nodes. -/
def AgreeOn (d : Diagram) (nodes : Set Int) (K L : Kernel) : Prop :=
  ∀ j ∈ nodes, ∀ c ∈ d.contexts j, ∀ x ∈ states (d.count j), K j c x = L j c x

/-- The shares of the states of a node add up to one in every context. -/
def Stochastic (K : Kernel) (d : Diagram) : Prop :=
  ∀ j ∈ d.innerNodes, ∀ c ∈ d.contexts j, K.total d j c = 1

variable {d : Diagram} {nodes : Set Int} {K L : Kernel} {f g : Path → Rat}

/-- If what follows a node does not depend on its state, the node can be left out. -/
theorem Stochastic.sum_out (stochastic : K.Stochastic d) {j : Int} (inner : j ∈ d.innerNodes)
    {c : Path} (context : c ∈ d.contexts j) {rest : Int → Rat} {value : Rat}
    (constant : ∀ x ∈ states (d.count j), rest x = value) :
    ((states (d.count j)).map fun x => K j c x * rest x).sum = value := by
  have shares : ∀ x ∈ states (d.count j), K j c x * rest x = K j c x * value := by
    intro x state
    rw [constant x state]
  rw [List.map_congr_left shares, List.sum_map_mul_right]
  change K.total d j c * value = value
  rw [stochastic j inner c context, one_mul]

/-- The expectation from a path on depends only on what the path and the kernel are at the nodes of
an ancestral set that has all that the value reads. The induction is on the nodes that are still
to come: one inside the set gives the same shares on both sides, one outside is summed out. -/
theorem expectation_eq_of_agree (ancestral : d.Ancestral nodes) (stochasticK : K.Stochastic d)
    (stochasticL : L.Stochastic d) (kernels : AgreeOn d nodes K L)
    (values : ∀ s ∈ paths d.counts, ∀ t ∈ paths d.counts, Path.AgreeOn nodes s t → f s = g t)
    {before after : List Int} (split : d.counts = before ++ after) {s t : Path}
    (first : s ∈ paths before) (second : t ∈ paths before) (agree : Path.AgreeOn nodes s t) :
    K.expectation d f s after = L.expectation d g t after := by
  induction after generalizing before s t with
  | nil =>
      rw [List.append_nil] at split
      rw [← split] at first second
      simp only [expectation, paths, along, span, List.map_cons, List.map_nil, List.append_nil,
        List.length_nil, List.range_zero, List.prod_nil, mul_one, List.sum_cons, List.sum_nil,
        add_zero]
      exact values s first t second agree
  | cons count after ih =>
      have length : s.length = t.length :=
        (length_of_mem_paths first).trans (length_of_mem_paths second).symm
      obtain ⟨inner, own, contextS⟩ := d.next_node split first
      obtain ⟨_, _, contextT⟩ := d.next_node split second
      have later : ∀ x ∈ states count, ∀ y ∈ states count,
          ((s.length : Int) + 1 ∈ nodes → x = y) →
            K.expectation d f (s ++ [x]) after = L.expectation d g (t ++ [y]) after := by
        intro x stateX y stateY last
        exact ih (by rw [split, List.append_cons]) (mem_paths_concat first stateX)
          (mem_paths_concat second stateY)
          (agree.concat (fun j member => (ancestral.inner j member).1) length last)
      rw [expectation_cons, expectation_cons, ← length]
      rw [← length] at contextT
      by_cases within : (s.length : Int) + 1 ∈ nodes
      · have context := agree.select_eq (ancestral.parents _ within)
        congr 1
        apply List.map_congr_left
        intro x state
        rw [later x state x state fun _ => rfl, ← context,
          kernels _ within _ contextS x (own ▸ state)]
      · have low := (mem_span.mp inner).1
        have one : (1 : Int) ∈ states count := by
          have positive := d.count_pos low (by rw [Diagram.innerNodes, mem_span] at inner; omega)
          exact mem_states.mpr ⟨le_rfl, own ▸ positive⟩
        have outside := fun x state y stateY => later x state y stateY fun inside =>
          absurd inside within
        rw [← own] at outside one ⊢
        rw [stochasticK.sum_out inner contextS fun x state => outside x state 1 one,
          stochasticL.sum_out inner contextT fun y state =>
            (outside 1 one y state).symm.trans (outside 1 one 1 one)]

/-- A value that reads only an ancestral set has the same expectation under kernels that agree
there. -/
theorem sum_along_eq_of_agree (ancestral : d.Ancestral nodes) (stochasticK : K.Stochastic d)
    (stochasticL : L.Stochastic d) (kernels : AgreeOn d nodes K L)
    (values : ∀ s ∈ paths d.counts, ∀ t ∈ paths d.counts, Path.AgreeOn nodes s t → f s = g t) :
    ((paths d.counts).map fun s => f s * K.along d d.innerNodes s).sum =
      ((paths d.counts).map fun s => g s * L.along d d.innerNodes s).sum := by
  have whole := expectation_eq_of_agree ancestral stochasticK stochasticL kernels values
    (List.nil_append d.counts).symm (s := []) (t := []) (by simp [paths]) (by simp [paths])
    fun _ _ => rfl
  simpa only [expectation, d.counts_length, Diagram.innerNodes, List.nil_append, List.length_nil,
    Nat.cast_zero, zero_add] using whole

end Kernel

end InfluenceProgram
