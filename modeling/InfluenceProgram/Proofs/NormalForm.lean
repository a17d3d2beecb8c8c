import InfluenceProgram.Proofs.PlainDrawing

/-!
The normal form of a diagram. Lists with the same members make the same diagram or have the same
fault, in whatever order and how often their members come. A diagram is made anew from the arcs
that its information sets stand for, and arcs that were listed as information sets give these sets
back, each in order and without repetition.
-/

set_option autoImplicit false

namespace InfluenceProgram.Diagram

/-- There is one diagram for lists with the same members, it can be checked again, and information
sets and arcs stand for each other; and all this is so where lists and sets come as data. -/
theorem one_normal_form :
    (∀ (chance decision value chance' decision' value' : List Int) (arcs arcs' : List Arc)
        (counts : List Datum), (∀ j, j ∈ chance ↔ j ∈ chance') →
      (∀ j, j ∈ decision ↔ j ∈ decision') → (∀ j, j ∈ value ↔ j ∈ value') →
      (∀ a, a ∈ arcs ↔ a ∈ arcs') →
      create chance decision value arcs counts = create chance' decision' value' arcs' counts) ∧
    (∀ d : Diagram, d.revalidate = .ok d ∧ arcsOfInformationSets d.informationSets = d.arcs) ∧
    (∀ chance decision value arcs counts d, create chance decision value arcs counts = .ok d →
      create chance decision value (arcsOfInformationSets d.informationSets) counts = .ok d) ∧
    (∀ (chance decision value : List Int) (m : Keyed Int (List Int)) (counts : List Datum) d,
      m.keys.Nodup → create chance decision value (arcsOfInformationSets m) counts = .ok d →
      ∀ j : Int, 1 ≤ j → j ≤ d.total →
        d.informationSet? j = .ok (((m.get? j).getD []).toFinset.sort (· ≤ ·))) ∧
    (∀ chance decision value arcs counts,
      Drawing.create (.list (Datum.ints chance)) (.list (Datum.ints decision))
          (.list (Datum.ints value)) (.list (arcs.map Arc.datum)) (.list counts) =
        (create chance decision value arcs counts).map Drawing.plain) ∧
    ∀ sets, drawnArcs (Datum.sets sets) = .ok ((arcsOfInformationSets sets).map Arc.datum) := by
  refine ⟨?_, fun d => ⟨d.revalidate_eq, d.arcs_informationSets⟩, ?_, ?_, Drawing.create_ints,
    drawnArcs_sets⟩
  · intro _ _ _ _ _ _ _ _ counts sameChance sameDecision sameValue sameArcs
    exact create_congr sameChance sameDecision sameValue sameArcs counts
  · intro chance decision value arcs counts d made
    have sameArcs : ∀ a, a ∈ arcsOfInformationSets d.informationSets ↔ a ∈ arcs := by
      intro a
      rw [mem_arcs_informationSets, mem_arcs_of_create made]
    rw [← made]
    exact create_congr (fun _ => Iff.rfl) (fun _ => Iff.rfl) (fun _ => Iff.rfl) sameArcs counts
  · intro chance decision value m counts d distinct made j low high
    rw [informationSet?_eq low high, d.informationSet_eq_sort j]
    intro i
    rw [mem_arcs_of_create made, mem_arcsOfInformationSets_iff distinct, List.mem_toFinset]

/-- Lists in disorder and with repetitions make the diagram of the same lists in order, and parents
that are listed twice are known once. -/
theorem disorder_normalized : ∃ d,
    create [3, 1, 1] [2] [5, 4] [(2, 3), (1, 2), (1, 2), (3, 4), (2, 5)]
      [.int 2, .int 3, .int 2] = .ok d ∧
    create [1, 3] [2] [4, 5] [(1, 2), (2, 3), (2, 5), (3, 4)] [.int 2, .int 3, .int 2] = .ok d ∧
    create [3, 1, 1] [2] [5, 4] (arcsOfInformationSets d.informationSets)
      [.int 2, .int 3, .int 2] = .ok d ∧
    ∃ d', create [3, 1, 1] [2] [5, 4] (arcsOfInformationSets [(4, [3, 2, 3]), (2, [1])])
        [.int 2, .int 3, .int 2] = .ok d' ∧
      d'.informationSet? 4 = .ok [2, 3] ∧ d'.informationSet? 5 = .ok [] := by
  obtain ⟨sameLists, _, rebuilt, sets, _⟩ := one_normal_form
  have listed := arcsOfInformationSets_perm [(4, [3, 2, 3]), (2, [1])]
  have made := sameLists [3, 1, 1] [2] [5, 4] [3, 1, 1] [2] [5, 4] _ _
    [.int 2, .int 3, .int 2] (fun _ => Iff.rfl) (fun _ => Iff.rfl) (fun _ => Iff.rfl)
    (fun _ => listed.mem_iff)
  have known : [2, 3] = ([3, 2, 3] : List Int).toFinset.sort (· ≤ ·) :=
    eq_sort_of_ascending (by decide) (by simp [or_comm])
  refine ⟨_, rfl, ?_,
    rebuilt [3, 1, 1] [2] [5, 4] [(2, 3), (1, 2), (1, 2), (3, 4), (2, 5)] _ _ rfl, _, made, ?_, ?_⟩
  · exact sameLists [1, 3] [2] [4, 5] [3, 1, 1] [2] [5, 4] _
      [(2, 3), (1, 2), (1, 2), (3, 4), (2, 5)] _ (by simp [or_comm]) (by simp) (by simp [or_comm])
      (by simp; tauto)
  · refine (sets [3, 1, 1] [2] [5, 4] [(4, [3, 2, 3]), (2, [1])] _ _ (by decide) made 4
      (by decide) (by decide)).trans ?_
    exact congrArg Except.ok known.symm
  · refine (sets [3, 1, 1] [2] [5, 4] [(4, [3, 2, 3]), (2, [1])] _ _ (by decide) made 5
      (by decide) (by decide)).trans ?_
    exact congrArg Except.ok (Finset.sort_empty _)

end InfluenceProgram.Diagram
