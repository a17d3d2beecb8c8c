import InfluenceProgram.Proofs.StableOrder
import InfluenceProgram.Sorting.Run

/-!
Cutting a list into runs. A falling run falls strictly, so turning it round passes no two items of
one rank, and an item that is put into a run goes behind those of its rank. So every run is in
order, and one behind the other they are alike to the list.
-/

set_option autoImplicit false

namespace InfluenceProgram.Sorting

variable {α κ : Type} [LinearOrder κ] {rank : α → κ} {known : α → Prop}
  {before : α → α → Except Fault Bool}

/-- How an item goes on a run: it is before the last one exactly if the run falls. -/
def GoesOn (rank : α → κ) (falling : Bool) (x y : α) : Prop := rank y < rank x ↔ falling

theorem GoesOn.trans {falling : Bool} {x y z : α} (first : GoesOn rank falling x y)
    (second : GoesOn rank falling y z) : GoesOn rank falling x z := by
  cases falling with
  | true =>
    simp only [GoesOn, iff_true] at *
    exact second.trans first
  | false =>
    simp only [GoesOn, Bool.false_eq_true, iff_false, not_lt] at *
    exact first.trans second

theorem GoesOn.falls {x y : α} (next : GoesOn rank true x y) : rank y < rank x := next.mpr rfl

theorem GoesOn.rises {x y : α} (next : GoesOn rank false x y) : rank x ≤ rank y := by
  simpa [GoesOn] using next

/-- Each item goes on the run from all items before it. -/
theorem GoesOn.cons {falling : Bool} {x y : α} {ys : List α} (next : GoesOn rank falling x y)
    (chain : (y :: ys).Pairwise (GoesOn rank falling)) :
    (x :: y :: ys).Pairwise (GoesOn rank falling) := by
  refine List.pairwise_cons.mpr ⟨List.forall_mem_cons.mpr ⟨next, fun z member => ?_⟩, chain⟩
  exact next.trans ((List.pairwise_cons.mp chain).1 z member)

theorem goesOn_iff {falling : Bool} {x y : α} :
    (decide (rank y < rank x) == falling) = true ↔ GoesOn rank falling x y := by
  cases falling <;> simp [GoesOn]

theorem goesOn_spec (answers : Answers before rank known) (falling : Bool) {last : α}
    (knownLast : known last) {items : List α} (knownItems : ∀ x ∈ items, known x) :
    ∃ run others, goesOn before falling last items = .ok (run, others) ∧ run ++ others = items ∧
      (last :: run).Pairwise (GoesOn rank falling) := by
  induction items generalizing last with
  | nil => exact ⟨[], [], rfl, rfl, List.pairwise_singleton _ _⟩
  | cons x items ih =>
    obtain ⟨knownX, knownRest⟩ := List.forall_mem_cons.mp knownItems
    rw [goesOn, answers x last knownX knownLast, Success.ok_bind]
    by_cases next : GoesOn rank falling last x
    · obtain ⟨run, others, found, whole, chain⟩ := ih knownX knownRest
      rw [if_pos (goesOn_iff.mpr next), found, Success.ok_bind]
      exact ⟨x :: run, others, rfl, by rw [List.cons_append, whole], next.cons chain⟩
    · rw [if_neg (mt goesOn_iff.mp next)]
      exact ⟨[], x :: items, rfl, rfl, List.pairwise_singleton _ _⟩

/-- A strictly falling run may be turned round. -/
theorem alike_reverse {xs : List α} (falls : xs.Pairwise fun x y => rank y < rank x) :
    Alike rank xs.reverse xs := by
  induction xs with
  | nil => exact .refl []
  | cons x xs ih =>
    obtain ⟨below, rest⟩ := List.pairwise_cons.mp falls
    have passed : Alike rank (xs ++ [x]) ([x] ++ xs) := by
      apply Alike.swap
      intro y member z single
      rw [List.mem_singleton.mp single]
      exact (below y member).ne
    rw [List.reverse_cons]
    exact ((ih rest).append (.refl [x])).trans passed

theorem firstRun_spec (answers : Answers before rank known) {items : List α}
    (knownItems : ∀ x ∈ items, known x) :
    ∃ run front others, firstRun before items = .ok (run, others) ∧ front ++ others = items ∧
      (items ≠ [] → front ≠ []) ∧ InOrder rank known run ∧ Alike rank run front := by
  match items with
  | [] => exact ⟨[], [], [], rfl, rfl, id, ⟨knownItems, .nil⟩, .refl []⟩
  | [x] => exact ⟨[x], [x], [], rfl, rfl, id, ⟨knownItems, List.pairwise_singleton _ _⟩, .refl [x]⟩
  | x :: y :: rest =>
    obtain ⟨knownX, knownTail⟩ := List.forall_mem_cons.mp knownItems
    obtain ⟨knownY, knownRest⟩ := List.forall_mem_cons.mp knownTail
    rw [firstRun, answers y x knownY knownX, Success.ok_bind]
    generalize falling : decide (rank y < rank x) = falls
    obtain ⟨run, others, found, rfl, chain⟩ := goesOn_spec answers falls knownY knownRest
    have whole := GoesOn.cons (goesOn_iff.mp (beq_iff_eq.mpr falling)) chain
    have knownRun : ∀ z ∈ x :: y :: run, known z :=
      fun z member => knownItems z (List.mem_append_left others member)
    rw [found, Success.ok_bind]
    cases falls with
    | true =>
      have falls := whole.imp GoesOn.falls
      refine ⟨(x :: y :: run).reverse, x :: y :: run, others, rfl, rfl, by simp, ⟨?_, ?_⟩,
        alike_reverse falls⟩
      · exact fun z member => knownRun z (List.mem_reverse.mp member)
      · exact List.pairwise_reverse.mpr (falls.imp le_of_lt)
    | false =>
      exact ⟨x :: y :: run, x :: y :: run, others, rfl, rfl, by simp,
        ⟨knownRun, whole.imp GoesOn.rises⟩, .refl _⟩

theorem insertIdx_append (near far : List α) (x : α) :
    (near ++ far).insertIdx near.length x = near ++ x :: far := by
  induction near with
  | nil => rfl
  | cons y near ih => rw [List.cons_append, List.length_cons, List.insertIdx_succ_cons, ih]; rfl

/-- An item goes behind those of its rank. -/
theorem place_spec (answers : Answers before rank known) {items : List α} {x : α}
    (order : InOrder rank known items) (knownX : known x) :
    ∃ out, place before items x = .ok out ∧ InOrder rank known out ∧
      Alike rank out (items ++ [x]) := by
  obtain ⟨near, far, rfl, low, high⟩ := order.split_le (rank x)
  obtain ⟨nearOrder, farOrder, across⟩ := InOrder.append_iff.mp order
  have found : bisect (testAt (fun y => return !(← before x y)) (near ++ far)) 0
      (near ++ far).length = .ok near.length := by
    apply bisect_append
    · intro y member
      exact answers.not_behind_of_le (nearOrder.known y member) knownX (low y member)
    · intro y member
      exact answers.not_behind_of_lt (farOrder.known y member) knownX (high y member)
  refine ⟨near ++ x :: far, ?_, ?_, ?_⟩
  · rw [place, found, Success.ok_bind, insertIdx_append]
    rfl
  · have single : InOrder rank known [x] :=
      ⟨List.forall_mem_singleton.mpr knownX, List.pairwise_singleton _ _⟩
    have back : InOrder rank known ([x] ++ far) :=
      InOrder.append_iff.mpr ⟨single, farOrder, by simpa using fun y member => (high y member).le⟩
    refine InOrder.append_iff.mpr ⟨nearOrder, back, fun y member => ?_⟩
    exact List.forall_mem_cons.mpr ⟨low y member, across y member⟩
  · have passed : Alike rank ([x] ++ far) (far ++ [x]) := by
      apply Alike.swap
      intro y single z member
      rw [List.mem_singleton.mp single]
      exact (high z member).ne
    rw [List.append_assoc]
    exact passed.append_left near

theorem places_spec (answers : Answers before rank known) {items run : List α}
    (knownItems : ∀ x ∈ items, known x) (order : InOrder rank known run) :
    ∃ out, items.foldlM (place before) run = .ok out ∧ InOrder rank known out ∧
      Alike rank out (run ++ items) := by
  induction items generalizing run with
  | nil => exact ⟨run, rfl, order, by rw [List.append_nil]; exact .refl run⟩
  | cons x items ih =>
    obtain ⟨knownX, rest⟩ := List.forall_mem_cons.mp knownItems
    obtain ⟨placed, found, inOrder, alike⟩ := place_spec answers order knownX
    obtain ⟨out, folded, outOrder, alike'⟩ := ih rest inOrder
    refine ⟨out, ?_, outOrder, ?_⟩
    · rw [List.foldlM_cons, found, Success.ok_bind, folded]
    · have behind := alike'.trans (alike.append (.refl items))
      rwa [List.append_assoc] at behind

/-- The runs of a list are in order, and one behind the other they are alike to the list. -/
theorem runs_spec (answers : Answers before rank known) (least : Nat) {fuel : Nat}
    {items : List α} (enough : items.length ≤ fuel) (knownItems : ∀ x ∈ items, known x) :
    ∃ cut, runs before least fuel items = .ok cut ∧ (∀ run ∈ cut, InOrder rank known run) ∧
      Alike rank cut.flatten items := by
  induction fuel generalizing items with
  | zero =>
    rw [List.length_eq_zero_iff.mp (Nat.le_zero.mp enough)]
    exact ⟨[], rfl, by simp, .refl []⟩
  | succ fuel ih =>
    cases items with
    | nil => exact ⟨[], rfl, by simp, .refl []⟩
    | cons x items =>
      obtain ⟨run, front, others, found, whole, nonempty, order, alike⟩ :=
        firstRun_spec answers knownItems
      have knownOthers : ∀ x ∈ others, known x :=
        (List.forall_mem_append.mp (whole ▸ knownItems)).2
      have lengths := congrArg List.length whole
      have advanced := List.length_pos_iff.mpr (nonempty (List.cons_ne_nil x items))
      rw [List.length_append] at lengths
      simp only [runs, found, Success.ok_bind]
      generalize least - run.length = missing
      have knownTaken : ∀ x ∈ others.take missing, known x :=
        fun x member => knownOthers x (List.mem_of_mem_take member)
      have knownLeft : ∀ x ∈ others.drop missing, known x :=
        fun x member => knownOthers x (List.mem_of_mem_drop member)
      obtain ⟨filled, placed, filledOrder, filledAlike⟩ := places_spec answers knownTaken order
      obtain ⟨cut, rest, cutOrder, cutAlike⟩ := ih (by rw [List.length_drop]; omega) knownLeft
      rw [placed, Success.ok_bind, rest, Success.ok_bind]
      refine ⟨filled :: cut, rfl, List.forall_mem_cons.mpr ⟨filledOrder, cutOrder⟩, ?_⟩
      rw [List.flatten_cons, ← whole]
      have parts := (filledAlike.trans (alike.append (.refl _))).append cutAlike
      rwa [List.append_assoc, List.take_append_drop] at parts

end InfluenceProgram.Sorting
