import InfluenceProgram.Proofs.StableOrder
import InfluenceProgram.Sorting.Merge

/-!
The turns of a merge. From whichever end a merge begins, and at whatever pace it goes on, each turn
gives items that come before all that is left, and of items of one rank those of the left run stay
in front. What comes of the runs after a turn, with the given items before it, is what comes of the
runs before the turn.
-/

set_option autoImplicit false

namespace InfluenceProgram.Sorting

variable {α κ : Type} [LinearOrder κ] {rank : α → κ} {known : α → Prop}
  {before : α → α → Except Fault Bool} {d : Direction} {x x' y y' : α}

/-- Seen in the direction of a merge, an item does not come after another one. -/
def Goes (rank : α → κ) (d : Direction) (x y : α) : Prop :=
  match d with
  | .forward => rank x ≤ rank y
  | .backward => rank y ≤ rank x

/-- Seen in the direction of a merge, an item of the left run goes before one of the right run. -/
def LeftFirst (rank : α → κ) (d : Direction) (x y : α) : Prop := rank y < rank x ↔ d = .backward

instance : Decidable (LeftFirst rank d x y) :=
  inferInstanceAs (Decidable (rank y < rank x ↔ d = .backward))

theorem LeftFirst.goes (first : LeftFirst rank d x y) : Goes rank d x y := by
  cases d with
  | forward => simpa [LeftFirst, Goes] using first
  | backward => exact le_of_lt (by simpa [LeftFirst] using first)

theorem goes_of_not_leftFirst (last : ¬LeftFirst rank d x y) : Goes rank d y x := by
  cases d with
  | forward => exact le_of_lt (by simpa [LeftFirst] using last)
  | backward => simpa [LeftFirst, Goes] using last

theorem LeftFirst.of_goes_left (order : Goes rank d x x') (first : LeftFirst rank d x' y) :
    LeftFirst rank d x y := by
  cases d with
  | forward =>
    simp only [LeftFirst, Goes, reduceCtorEq, iff_false, not_lt] at *
    exact order.trans first
  | backward =>
    simp only [LeftFirst, Goes, iff_true] at *
    exact first.trans_le order

theorem LeftFirst.of_goes_right (first : LeftFirst rank d x y) (order : Goes rank d y y') :
    LeftFirst rank d x y' := by
  cases d with
  | forward =>
    simp only [LeftFirst, Goes, reduceCtorEq, iff_false, not_lt] at *
    exact first.trans order
  | backward =>
    simp only [LeftFirst, Goes, iff_true] at *
    exact order.trans_lt first

variable {xs ys : List α}

theorem LeftFirst.ahead (first : LeftFirst rank d x y) (order : (y :: ys).Pairwise (Goes rank d)) :
    ∀ z ∈ y :: ys, LeftFirst rank d x z := by
  rw [List.forall_mem_cons]
  exact ⟨first, fun z member => first.of_goes_right ((List.pairwise_cons.mp order).1 z member)⟩

theorem not_leftFirst_behind (last : ¬LeftFirst rank d x y)
    (order : (x :: xs).Pairwise (Goes rank d)) : ∀ z ∈ x :: xs, ¬LeftFirst rank d z y := by
  rw [List.forall_mem_cons]
  refine ⟨last, fun z member first => last ?_⟩
  exact first.of_goes_left ((List.pairwise_cons.mp order).1 z member)

/-- Those of the left run that go before an item of the right run stand at the near end. -/
theorem split_left (order : xs.Pairwise (Goes rank d)) (y : α) : ∃ near far, near ++ far = xs ∧
    (∀ x ∈ near, LeftFirst rank d x y) ∧ ∀ x ∈ far, ¬LeftFirst rank d x y :=
  exists_split (LeftFirst rank d · y) order fun _ _ goes first => first.of_goes_left goes

theorem split_right (order : ys.Pairwise (Goes rank d)) (x : α) : ∃ near far, near ++ far = ys ∧
    (∀ y ∈ near, ¬LeftFirst rank d x y) ∧ ∀ y ∈ far, LeftFirst rank d x y := by
  simpa only [not_not] using exists_split (¬LeftFirst rank d x ·) order
    fun _ _ goes last first => last (first.of_goes_right goes)

/-- Where the right run goes first in a forward merge, or the left one in a backward merge, the
ranks differ. -/
theorem LeftFirst.ne_rank (first : LeftFirst rank .backward x y) : rank x ≠ rank y :=
  (first.mpr rfl).ne'

namespace Merge

/-- Two lists one behind the other, seen in the direction of a merge. -/
def joined (d : Direction) (left right : List α) : List α :=
  match d with
  | .forward => left ++ right
  | .backward => right ++ left

theorem mem_joined {left right : List α} : x ∈ joined d left right ↔ x ∈ left ∨ x ∈ right := by
  cases d with
  | forward => exact List.mem_append
  | backward => exact List.mem_append.trans or_comm

/-- Two runs that can be merged: each is in order, and of all items the last one is in the run that
is merged into the other one. -/
structure Ready (rank : α → κ) (known : α → Prop) (d : Direction) (left right : List α) : Prop where
  known_left : ∀ x ∈ left, known x
  known_right : ∀ y ∈ right, known y
  left_order : left.Pairwise (Goes rank d)
  right_order : right.Pairwise (Goes rank d)
  forward_end : d = .forward → ∀ x ∈ left.getLast?, ∀ y ∈ right, ¬LeftFirst rank d x y
  backward_end : d = .backward → ∀ y ∈ right.getLast?, ∀ x ∈ left, LeftFirst rank d x y

/-- The stable merge of two runs. -/
structure Result (rank : α → κ) (d : Direction) (left right out : List α) : Prop where
  order : out.Pairwise (Goes rank d)
  alike : Alike rank out (joined d left right)

variable {given left right out : List α}

theorem Ready.left_rest (ready : Ready rank known d (given ++ left) right) :
    Ready rank known d left right where
  known_left x member := ready.known_left x (List.mem_append_right _ member)
  known_right := ready.known_right
  left_order := (List.pairwise_append.mp ready.left_order).2.1
  right_order := ready.right_order
  forward_end forward x last := by
    apply ready.forward_end forward
    rw [List.getLast?_append, Option.mem_def.mp last]
    rfl
  backward_end backward y last x member :=
    ready.backward_end backward y last x (List.mem_append_right _ member)

theorem Ready.right_rest (ready : Ready rank known d left (given ++ right)) :
    Ready rank known d left right where
  known_left := ready.known_left
  known_right y member := ready.known_right y (List.mem_append_right _ member)
  left_order := ready.left_order
  right_order := (List.pairwise_append.mp ready.right_order).2.1
  forward_end forward x last y member :=
    ready.forward_end forward x last y (List.mem_append_right _ member)
  backward_end backward y last := by
    apply ready.backward_end backward
    rw [List.getLast?_append, Option.mem_def.mp last]
    rfl

theorem Result.of_left (order : left.Pairwise (Goes rank d)) : Result rank d left [] left := by
  refine ⟨order, ?_⟩
  cases d with
  | forward => rw [joined, List.append_nil]; exact .refl left
  | backward => exact .refl left

theorem Result.of_right (order : right.Pairwise (Goes rank d)) : Result rank d [] right right := by
  refine ⟨order, ?_⟩
  cases d with
  | forward => exact .refl right
  | backward => rw [joined, List.append_nil]; exact .refl right

/-- The left run may give items that go before all of the right run. -/
theorem Result.give_left (result : Result rank d left right out)
    (order : (given ++ left).Pairwise (Goes rank d))
    (ahead : ∀ x ∈ given, ∀ y ∈ right, LeftFirst rank d x y) :
    Result rank d (given ++ left) right (given ++ out) where
  order := by
    obtain ⟨inside, _, across⟩ := List.pairwise_append.mp order
    refine List.pairwise_append.mpr ⟨inside, result.order, fun x member z merged => ?_⟩
    rcases mem_joined.mp ((result.alike.mem_iff z).mp merged) with left | right
    · exact across x member z left
    · exact (ahead x member z right).goes
  alike := by
    have behind := result.alike.append_left given
    cases d with
    | forward =>
      rw [joined, List.append_assoc]
      exact behind
    | backward =>
      have passed : Alike rank (given ++ right) (right ++ given) :=
        .swap fun x member y other => (ahead x member y other).ne_rank
      refine behind.trans ?_
      rw [joined, joined, ← List.append_assoc, ← List.append_assoc]
      exact passed.append (.refl left)

/-- The right run may give items that go before all of the left run. -/
theorem Result.give_right (result : Result rank d left right out)
    (order : (given ++ right).Pairwise (Goes rank d))
    (ahead : ∀ y ∈ given, ∀ x ∈ left, ¬LeftFirst rank d x y) :
    Result rank d left (given ++ right) (given ++ out) where
  order := by
    obtain ⟨inside, _, across⟩ := List.pairwise_append.mp order
    refine List.pairwise_append.mpr ⟨inside, result.order, fun y member z merged => ?_⟩
    rcases mem_joined.mp ((result.alike.mem_iff z).mp merged) with left | right
    · exact goes_of_not_leftFirst (ahead y member z left)
    · exact across y member z right
  alike := by
    have behind := result.alike.append_left given
    cases d with
    | forward =>
      have passed : Alike rank (given ++ left) (left ++ given) := by
        apply Alike.swap
        intro y member x other
        have below : rank y < rank x := by simpa [LeftFirst] using ahead y member x other
        exact below.ne
      refine behind.trans ?_
      rw [joined, joined, ← List.append_assoc, ← List.append_assoc]
      exact passed.append (.refl right)
    | backward =>
      rw [joined, List.append_assoc]
      exact behind

theorem mem_getLast?_of_short {xs : List α} (short : xs.length ≤ 1) (member : x ∈ xs) :
    x ∈ xs.getLast? := by
  cases xs with
  | nil => cases member
  | cons y xs =>
    have single : xs = [] := List.length_eq_zero_iff.mp (by simpa using short)
    subst single
    simpa [eq_comm] using member

/-- Where nothing has to be compared any more, the rest stands in order. -/
theorem settled_result {m : Merge α} {rest : List α} (settled : m.settled? d = some rest)
    (ready : Ready rank known d m.left m.right) : Result rank d m.left m.right rest := by
  cases d with
  | forward =>
    rw [settled?] at settled
    split at settled
    · rename_i none
      rw [List.isEmpty_iff.mp none, ← Option.some.inj settled]
      exact .of_left ready.left_order
    · split at settled
      · rename_i short
        rw [← Option.some.inj settled]
        have order : (m.right ++ []).Pairwise (Goes rank .forward) := by
          rw [List.append_nil]
          exact ready.right_order
        have last := (Result.of_left ready.left_order).give_right order fun y member x other =>
          ready.forward_end rfl x (mem_getLast?_of_short short other) y member
        rwa [List.append_nil] at last
      · cases settled
  | backward =>
    rw [settled?] at settled
    split at settled
    · rename_i none
      rw [List.isEmpty_iff.mp none, ← Option.some.inj settled]
      exact .of_right ready.right_order
    · split at settled
      · rename_i short
        rw [← Option.some.inj settled]
        have order : (m.left ++ []).Pairwise (Goes rank .backward) := by
          rw [List.append_nil]
          exact ready.left_order
        have last := (Result.of_right ready.right_order).give_left order fun x member y other =>
          ready.backward_end rfl y (mem_getLast?_of_short short other) x member
        rwa [List.append_nil] at last
      · cases settled

theorem exists_heads {m : Merge α} (unsettled : m.settled? d = none) :
    ∃ l ls r rs, m.left = l :: ls ∧ m.right = r :: rs := by
  obtain ⟨left, right, merged, pace, patience⟩ := m
  cases left with
  | nil => cases d <;> cases right <;> simp [settled?] at unsettled
  | cons l ls =>
    cases right with
    | nil => cases d <;> simp [settled?] at unsettled
    | cons r rs => exact ⟨l, ls, r, rs, rfl, rfl⟩

/-- How many items are still to find their places. -/
def size (m : Merge α) : Nat := m.left.length + m.right.length

/-- From one state of a merge to a later one items have found their places, and what comes of the
later state goes behind them. -/
def Leads (rank : α → κ) (known : α → Prop) (d : Direction) (m m' : Merge α) : Prop :=
  Ready rank known d m'.left m'.right ∧ ∃ given : List α,
    m'.merged = given.reverse ++ m.merged ∧
      ∀ out, Result rank d m'.left m'.right out → Result rank d m.left m.right (given ++ out)

theorem Leads.trans {m m' m'' : Merge α} (first : Leads rank known d m m')
    (second : Leads rank known d m' m'') : Leads rank known d m m'' := by
  obtain ⟨_, given, merged, whole⟩ := first
  obtain ⟨ready, given', merged', whole'⟩ := second
  refine ⟨ready, given ++ given', ?_, fun out result => ?_⟩
  · rw [merged', merged, List.reverse_append, List.append_assoc]
  · rw [List.append_assoc]
    exact whole _ (whole' out result)

theorem leads_giveLeft {m : Merge α} (ready : Ready rank known d m.left m.right) {count : Nat}
    (ahead : ∀ x ∈ m.left.take count, ∀ y ∈ m.right, LeftFirst rank d x y) :
    Leads rank known d m (m.giveLeft count) := by
  have whole := List.take_append_drop count m.left
  rw [← whole] at ready
  refine ⟨ready.left_rest, m.left.take count, rfl, fun out result => ?_⟩
  have all := Result.give_left result ready.left_order ahead
  rwa [giveLeft, whole] at all

theorem leads_giveRight {m : Merge α} (ready : Ready rank known d m.left m.right) {count : Nat}
    (ahead : ∀ y ∈ m.right.take count, ∀ x ∈ m.left, ¬LeftFirst rank d x y) :
    Leads rank known d m (m.giveRight count) := by
  have whole := List.take_append_drop count m.right
  rw [← whole] at ready
  refine ⟨ready.right_rest, m.right.take count, rfl, fun out result => ?_⟩
  have all := Result.give_right result ready.right_order ahead
  rwa [giveRight, whole] at all

/-- From either end, the items are counted that come before the place which a test marks. -/
theorem count_append {test : α → Except Fault Bool} {near far : List α}
    (answersNear : ∀ x ∈ near, test x = .ok (decide (d = .forward)))
    (answersFar : ∀ x ∈ far, test x = .ok (decide (d = .backward))) :
    count d test (near ++ far) = .ok near.length := by
  cases d with
  | forward => exact boundary_append answersNear answersFar 0
  | backward =>
    have place : boundary (testAt test (far.reverse ++ near.reverse))
        (far.reverse ++ near.reverse).length ((near ++ far).length - 1) =
          .ok far.reverse.length := by
      apply boundary_append
      · exact fun x member => answersFar x (List.mem_reverse.mp member)
      · exact fun x member => answersNear x (List.mem_reverse.mp member)
    rw [← List.reverse_append, List.length_reverse, List.length_reverse] at place
    rw [count, place, Success.ok_bind, List.length_append, Nat.add_sub_cancel]
    rfl

theorem leftFirst_eq : (decide (rank y < rank x) == (d == .backward)) =
    decide (LeftFirst rank d x y) := by
  cases d with
  | forward => by_cases below : rank y < rank x <;> simp [LeftFirst, below]
  | backward => by_cases below : rank y < rank x <;> simp [LeftFirst, below]

/-- One item goes to its place. -/
theorem step_leads (answers : Answers before rank known) {m : Merge α} {l r : α} {ls rs : List α}
    (left : m.left = l :: ls) (right : m.right = r :: rs)
    (ready : Ready rank known d m.left m.right) (wonLeft wonRight : Nat) :
    ∃ m', m.step before d wonLeft wonRight = .ok m' ∧ Leads rank known d m m' ∧
      m'.size < m.size := by
  have knownL := ready.known_left l (by simp [left])
  have knownR := ready.known_right r (by simp [right])
  have orderL := ready.left_order
  have orderR := ready.right_order
  rw [step, left, right]
  dsimp only
  rw [answers r l knownR knownL, Success.ok_bind, leftFirst_eq]
  by_cases first : LeftFirst rank d l r
  · rw [if_pos (decide_eq_true first)]
    have leads : Leads rank known d m (m.giveLeft 1) := by
      apply leads_giveLeft ready
      simp only [left, right, List.take_succ_cons, List.take_zero, List.forall_mem_singleton]
      exact first.ahead (right ▸ orderR)
    exact ⟨_, rfl, leads, by simp [size, giveLeft, left]⟩
  · rw [if_neg (by simpa using first)]
    have leads : Leads rank known d m (m.giveRight 1) := by
      apply leads_giveRight ready
      simp only [left, right, List.take_succ_cons, List.take_zero, List.forall_mem_singleton]
      exact not_leftFirst_behind first (left ▸ orderL)
    exact ⟨_, rfl, leads, by simp [size, giveRight, right]⟩

/-- A merge that came to nothing to compare has given items. -/
theorem size_lt_of_settled {m m' : Merge α} (unsettled : m.settled? d = none)
    (settled : (m'.settled? d).isSome) (left : m'.left.Sublist m.left)
    (right : m'.right.Sublist m.right) : m'.size < m.size := by
  by_contra full
  have shorter := left.length_le
  have shorter' := right.length_le
  rw [size, size] at full
  have sameLeft := left.eq_of_length (by omega)
  have sameRight := right.eq_of_length (by omega)
  have same : m'.settled? d = m.settled? d := by
    cases d <;> simp only [settled?, sameLeft, sameRight]
  simp [same, unsettled] at settled

/-- Of the left run those are counted that go before an item of the right one. -/
theorem count_left (answers : Answers before rank known) {near far : List α} (knownY : known y)
    (knownXs : ∀ x ∈ near ++ far, known x) (first : ∀ x ∈ near, LeftFirst rank d x y)
    (last : ∀ x ∈ far, ¬LeftFirst rank d x y) :
    count d (fun x => return !(← before y x)) (near ++ far) = .ok near.length := by
  apply count_append
  · intro x member
    rw [answers.not_behind (knownXs x (List.mem_append_left _ member)) knownY]
    cases d <;> simpa [LeftFirst] using first x member
  · intro x member
    rw [answers.not_behind (knownXs x (List.mem_append_right _ member)) knownY]
    cases d <;> simpa [LeftFirst] using last x member

/-- Of the right run those are counted that go before an item of the left one. -/
theorem count_right (answers : Answers before rank known) {near far : List α} (knownX : known x)
    (knownYs : ∀ y ∈ near ++ far, known y) (first : ∀ y ∈ near, ¬LeftFirst rank d x y)
    (last : ∀ y ∈ far, LeftFirst rank d x y) :
    count d (fun y => before y x) (near ++ far) = .ok near.length := by
  apply count_append
  · intro y member
    rw [answers y x (knownYs y (List.mem_append_left _ member)) knownX]
    cases d <;> simpa [LeftFirst] using first y member
  · intro y member
    rw [answers y x (knownYs y (List.mem_append_right _ member)) knownX]
    cases d <;> simpa [LeftFirst] using last y member

/-- The left run gives all that goes before the near end of the right one, and that end follows. -/
theorem strideLeft_leads (answers : Answers before rank known) {m : Merge α}
    (unsettled : m.settled? d = none) (ready : Ready rank known d m.left m.right) :
    ∃ m', m.strideLeft before d = .ok m' ∧ Leads rank known d m m' ∧ m'.size < m.size := by
  obtain ⟨_, _, r, rs, _, right⟩ := exists_heads unsettled
  obtain ⟨near, far, left, first, last⟩ := split_left ready.left_order r
  have knownR := ready.known_right r (by simp [right])
  have orderR : (r :: rs).Pairwise (Goes rank d) := right ▸ ready.right_order
  have leads : Leads rank known d m (m.giveLeft near.length) := by
    apply leads_giveLeft ready
    rw [← left, List.take_left, right]
    exact fun x member => (first x member).ahead orderR
  rw [strideLeft, right]
  dsimp only
  rw [← left, count_left answers knownR (left ▸ ready.known_left) first last, Success.ok_bind]
  by_cases settled : ((m.giveLeft near.length).settled? d).isSome
  · rw [if_pos settled]
    exact ⟨_, rfl, leads, size_lt_of_settled unsettled settled (List.drop_sublist _ _) (.refl _)⟩
  · rw [if_neg settled]
    have leads' : Leads rank known d m ((m.giveLeft near.length).giveRight 1) := by
      refine leads.trans (leads_giveRight leads.1 ?_)
      simpa [giveLeft, right, ← left] using last
    refine ⟨_, rfl, leads', ?_⟩
    simp only [size, giveLeft, giveRight, right, List.length_drop, List.length_cons]
    omega

/-- The right run gives all that goes before the near end of the left one, and that end follows. -/
theorem strideRight_leads (answers : Answers before rank known) {m : Merge α}
    (unsettled : m.settled? d = none) (ready : Ready rank known d m.left m.right) (given : Nat) :
    ∃ m', m.strideRight before d given = .ok m' ∧ Leads rank known d m m' ∧ m'.size < m.size := by
  obtain ⟨l, ls, _, _, left, _⟩ := exists_heads unsettled
  obtain ⟨near, far, right, first, last⟩ := split_right ready.right_order l
  have knownL := ready.known_left l (by simp [left])
  have orderL : (l :: ls).Pairwise (Goes rank d) := left ▸ ready.left_order
  have leads : Leads rank known d m (m.giveRight near.length) := by
    apply leads_giveRight ready
    rw [← right, List.take_left, left]
    exact fun y member => not_leftFirst_behind (first y member) orderL
  rw [strideRight, left]
  dsimp only
  rw [← right, count_right answers knownL (right ▸ ready.known_right) first last, Success.ok_bind]
  by_cases settled : ((m.giveRight near.length).settled? d).isSome
  · rw [if_pos settled]
    exact ⟨_, rfl, leads, size_lt_of_settled unsettled settled (.refl _) (List.drop_sublist _ _)⟩
  · rw [if_neg settled]
    have leads' : Leads rank known d m ((m.giveRight near.length).giveLeft 1) := by
      refine leads.trans (leads_giveLeft leads.1 ?_)
      simpa [giveRight, left, ← right] using last
    have shorter : ((m.giveRight near.length).giveLeft 1).size < m.size := by
      simp only [size, giveLeft, giveRight, left, List.length_drop, List.length_cons]
      omega
    split
    · exact ⟨_, rfl, leads', shorter⟩
    · split
      · exact ⟨_, rfl, leads', shorter⟩
      · exact ⟨_, rfl, leads', shorter⟩

/-- A merge that is not at its end goes on. -/
theorem next_leads (answers : Answers before rank known) {m : Merge α}
    (unsettled : m.settled? d = none) (ready : Ready rank known d m.left m.right) :
    ∃ m', m.next before d = .ok m' ∧ Leads rank known d m m' ∧ m'.size < m.size := by
  rw [next]
  split
  · obtain ⟨l, ls, r, rs, left, right⟩ := exists_heads unsettled
    exact step_leads answers left right ready _ _
  · exact strideLeft_leads answers unsettled ready
  · exact strideRight_leads answers unsettled ready _

end Merge

end InfluenceProgram.Sorting
