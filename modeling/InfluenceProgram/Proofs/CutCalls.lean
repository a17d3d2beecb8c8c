import InfluenceProgram.Cut
import InfluenceProgram.Proofs.Success

/-!
Calls of one cut, one after the other. What a call does depends on the state in which the last one
left the cut: the first call whose values violate the cut, if the solver answers and takes the row,
submits it, and no other call does.
-/

set_option autoImplicit false

namespace InfluenceProgram

variable {α : Type} [Scalar α] {f : Formulation α}

/-- One call of a cut: its number, when it was called, what the solver answers, and what it did. -/
structure CutCall (α : Type) where
  cut : Nat
  moment : Moment
  reply : Reply α
  done : Invocation α

namespace CutCall

/-- The solver took a row that it was handed. -/
def Submits (call : CutCall α) : Prop :=
  Query.submission ∈ call.done.log ∧ call.reply.accepts = true

instance (call : CutCall α) : Decidable call.Submits :=
  inferInstanceAs (Decidable (Query.submission ∈ call.done.log ∧ call.reply.accepts = true))

/-- The values violate the cut, and neither their query nor the submission fails. -/
def Due (f : Formulation α) (kind : CutKind) (call : CutCall α) : Prop :=
  ∃ values, call.reply.values = some values ∧ kind.violated f.epsilon values = true ∧
    call.reply.accepts = true

/-- The query fails, or the values violate the cut and the submission fails. -/
def Breaks (f : Formulation α) (kind : CutKind) (call : CutCall α) : Prop :=
  call.reply.values = none ∨ ∃ values, call.reply.values = some values ∧
    kind.violated f.epsilon values = true ∧ call.reply.accepts = false

/-- What a call does, given the earlier calls of the same cut. -/
structure Lawful (f : Formulation α) (kind : CutKind) (earlier : List (CutCall α))
    (call : CutCall α) : Prop where
  submits_iff : call.Submits ↔ call.Due f kind ∧ ∀ other ∈ earlier, ¬other.Due f kind
  fired_iff : call.done.verdict = .fired ↔ call.Submits
  failed_iff : call.done.verdict = .failed ↔
    call.Breaks f kind ∧ ∀ other ∈ earlier, ¬other.Submits
  submitted_iff : call.done.cut.submitted = true ↔ ∃ other ∈ earlier ++ [call], other.Submits
  row_of_submits : call.Submits → ∃ row, f.cutRow kind = .ok row ∧ call.done.row? = some row
  row_of_not_submits : ¬call.Submits → call.done.row? = none
  log_of_earlier : (∃ other ∈ earlier, other.Submits) → call.done.log = []
  log_of_first : (∀ other ∈ earlier, ¬other.Submits) →
    call.done.log.head? = some call.moment.values

end CutCall

theorem Moment.values_eq (moment : Moment) :
    moment.values = if moment = .incumbent then .incumbentValues else .relaxationValues := by
  cases moment <;> rfl

theorem Moment.values_ne_submission (moment : Moment) : moment.values ≠ .submission := by
  cases moment <;> decide

namespace Cut

variable {c : Cut} {row : Row Variable α} {call : CutCall α}

/-- A call of a cut that has been submitted does nothing. -/
theorem invoke_of_submitted (submitted : c.submitted = true) (moment : Moment) (reply : Reply α) :
    c.invoke f moment reply = { cut := c, verdict := .quiet, log := [] } := by
  rw [invoke, if_pos submitted]

/-- A pending cut whose call is due is submitted. -/
theorem invoke_of_due (builds : f.cutRow c.kind = .ok row) (pending : c.submitted = false)
    (due : call.Due f c.kind) :
    c.invoke f call.moment call.reply =
      { cut := { c with submitted := true }, verdict := .fired,
        log := [call.moment.values, .submission], row? := some row } := by
  obtain ⟨values, answered, violated, accepts⟩ := due
  simp only [invoke, pending, answered, violated, builds, accepts, Bool.false_eq_true, ↓reduceIte]

/-- A pending cut whose query or submission fails stays as it is. -/
theorem invoke_of_breaks (builds : f.cutRow c.kind = .ok row) (pending : c.submitted = false)
    (breaks : call.Breaks f c.kind) :
    ∃ log, c.invoke f call.moment call.reply = { cut := c, verdict := .failed, log } ∧
      log.head? = some call.moment.values ∧
        (Query.submission ∈ log → call.reply.accepts = false) := by
  rcases breaks with silent | ⟨values, answered, violated, refuses⟩
  · refine ⟨[call.moment.values], ?_, rfl, ?_⟩
    · simp only [invoke, pending, silent, Bool.false_eq_true, ↓reduceIte]
    · intro handed
      exact absurd (List.mem_singleton.mp handed).symm call.moment.values_ne_submission
  · refine ⟨[call.moment.values, .submission], ?_, rfl, fun _ => refuses⟩
    simp only [invoke, pending, answered, violated, builds, refuses, Bool.false_eq_true, ↓reduceIte]

/-- A pending cut whose call is neither due nor broken is not violated and stays as it is. -/
theorem invoke_of_calm (pending : c.submitted = false) (calm : ¬call.Due f c.kind)
    (sound : ¬call.Breaks f c.kind) :
    c.invoke f call.moment call.reply =
      { cut := c, verdict := .quiet, log := [call.moment.values] } := by
  cases answered : call.reply.values with
  | none => exact absurd (Or.inl answered) sound
  | some values =>
      cases violated : c.kind.violated f.epsilon values with
      | false => simp only [invoke, pending, answered, violated, Bool.false_eq_true, ↓reduceIte]
      | true =>
          cases accepts : call.reply.accepts with
          | false => exact absurd (Or.inr ⟨values, answered, violated, accepts⟩) sound
          | true => exact absurd ⟨values, answered, violated, accepts⟩ calm

end Cut

theorem CutCall.Due.not_breaks {kind : CutKind} {call : CutCall α} (due : call.Due f kind) :
    ¬call.Breaks f kind := by
  obtain ⟨values, answered, _, accepts⟩ := due
  rintro (silent | ⟨_, _, _, refuses⟩)
  · rw [answered] at silent
    cases silent
  · rw [accepts] at refuses
    cases refuses

namespace Cut

/-- What the state of a cut says about the calls that led to it. -/
structure Stands (f : Formulation α) (c : Cut) (calls : List (CutCall α)) : Prop where
  due_iff : c.submitted = true ↔ ∃ call ∈ calls, call.Due f c.kind
  submitted_iff : c.submitted = true ↔ ∃ call ∈ calls, call.Submits
  at_most_one : calls.countP (·.Submits) ≤ 1
  lawful : ∀ earlier call later, calls = earlier ++ call :: later →
    call.Lawful f c.kind earlier

variable {c : Cut} {row : Row Variable α} {call : CutCall α} {calls : List (CutCall α)}

theorem stands_pending (f : Formulation α) (kind : CutKind) : Stands f { kind } [] where
  due_iff := by simp
  submitted_iff := by simp
  at_most_one := Nat.zero_le 1
  lawful earlier call later split := by simp at split

theorem Stands.pending_iff (stands : c.Stands f calls) :
    c.submitted = false ↔ ∀ other ∈ calls, ¬other.Submits := by
  rw [← Bool.not_eq_true, stands.submitted_iff]
  push Not
  rfl

theorem Stands.not_due_of_pending (stands : c.Stands f calls) (pending : c.submitted = false) :
    ∀ other ∈ calls, ¬other.Due f c.kind := by
  intro other member due
  have submitted := stands.due_iff.mpr ⟨other, member, due⟩
  rw [pending] at submitted
  cases submitted

/-- A call that leaves a cut as it is and submits nothing obeys the law of calls. -/
theorem Stands.lawful_of_same (stands : c.Stands f calls) (same : call.done.cut = c)
    (nothing : ¬call.Submits) (idle : call.Due f c.kind → c.submitted = true)
    (none : call.done.row? = none) (notFired : call.done.verdict ≠ .fired)
    (failed_iff : call.done.verdict = .failed ↔ call.Breaks f c.kind ∧ c.submitted = false)
    (log : if c.submitted then call.done.log = []
      else call.done.log.head? = some call.moment.values) :
    call.Lawful f c.kind calls where
  submits_iff := by
    refine iff_of_false nothing ?_
    rintro ⟨due, fresh⟩
    obtain ⟨other, member, otherDue⟩ := stands.due_iff.mp (idle due)
    exact fresh other member otherDue
  fired_iff := iff_of_false notFired nothing
  failed_iff := by rw [failed_iff, stands.pending_iff]
  submitted_iff := by
    rw [same, stands.submitted_iff]
    simp [or_and_right, exists_or, nothing]
  row_of_submits submits := absurd submits nothing
  row_of_not_submits _ := none
  log_of_earlier earlier := by rwa [if_pos (stands.submitted_iff.mpr earlier)] at log
  log_of_first first := by
    rwa [stands.pending_iff.mpr first, if_neg Bool.false_ne_true] at log

/-- The next call obeys the law of calls, whatever state it finds the cut in. -/
theorem Stands.next_lawful (stands : c.Stands f calls) (builds : f.cutRow c.kind = .ok row)
    (done : call.done = c.invoke f call.moment call.reply) : call.Lawful f c.kind calls := by
  cases state : c.submitted with
  | true =>
      rw [invoke_of_submitted state] at done
      apply stands.lawful_of_same <;> simp [CutCall.Submits, done, state]
  | false =>
      -- A pending cut is due, or its call breaks, or its values do not violate it.
      by_cases due : call.Due f c.kind
      · have submits : call.Submits := by
          rw [invoke_of_due builds state due] at done
          exact ⟨by simp [done], due.choose_spec.2.2⟩
        have fresh := stands.not_due_of_pending state
        have first := stands.pending_iff.mp state
        rw [invoke_of_due builds state due] at done
        exact {
          submits_iff := iff_of_true submits ⟨due, fresh⟩
          fired_iff := iff_of_true (by rw [done]) submits
          failed_iff := iff_of_false (by simp [done]) fun broken => due.not_breaks broken.1
          submitted_iff := iff_of_true (by rw [done]) ⟨call, by simp, submits⟩
          row_of_submits := fun _ => ⟨row, builds, by rw [done]⟩
          row_of_not_submits := fun nothing => absurd submits nothing
          log_of_earlier := fun ⟨other, member, early⟩ => absurd early (first other member)
          log_of_first := fun _ => by simp [done] }
      · by_cases breaks : call.Breaks f c.kind
        · obtain ⟨log, broken, head, refuses⟩ := invoke_of_breaks builds state breaks
          rw [broken] at done
          apply stands.lawful_of_same <;> simp_all [CutCall.Submits]
        · rw [invoke_of_calm state due breaks] at done
          have quiet := call.moment.values_ne_submission.symm
          apply stands.lawful_of_same <;> simp_all [CutCall.Submits]

theorem invoke_kind (c : Cut) (moment : Moment) (reply : Reply α) :
    (c.invoke f moment reply).cut.kind = c.kind := by
  unfold invoke
  split
  · rfl
  · split
    · rfl
    · split
      · split <;> rfl
      · rfl

/-- A call asks for values, of the kind that there are at its moment, and for nothing else. -/
theorem mem_log {moment : Moment} {reply : Reply α} {query : Query}
    (asked : query ∈ (c.invoke f moment reply).log) :
    query = .submission ∨ query = moment.values := by
  unfold invoke at asked
  split at asked
  · cases asked
  · split at asked
    · exact Or.inr (List.mem_singleton.mp asked)
    · split at asked
      · split at asked <;> simp_all [or_comm]
      · exact Or.inr (List.mem_singleton.mp asked)

/-- What the state of a cut says stays true of the state after the next call. -/
theorem Stands.next (stands : c.Stands f calls) (builds : f.cutRow c.kind = .ok row)
    (done : call.done = c.invoke f call.moment call.reply) :
    call.done.cut.Stands f (calls ++ [call]) := by
  have law := stands.next_lawful builds done
  have kind : call.done.cut.kind = c.kind := by rw [done, invoke_kind]
  refine ⟨?_, law.submitted_iff, ?_, ?_⟩
  · -- If the call is due but does not submit, an earlier one was due as well.
    rw [kind, law.submitted_iff]
    simp only [List.mem_append, List.mem_singleton, or_and_right, exists_or, exists_eq_left]
    rw [← stands.submitted_iff, ← stands.due_iff, law.submits_iff]
    constructor
    · exact Or.imp_right And.left
    · rintro (submitted | due)
      · exact Or.inl submitted
      · by_cases fresh : ∀ other ∈ calls, ¬other.Due f c.kind
        · exact Or.inr ⟨due, fresh⟩
        · push Not at fresh
          exact Or.inl (stands.due_iff.mpr fresh)
  · -- A call that submits found the cut pending, so no earlier one has submitted.
    rw [List.countP_append, List.countP_singleton]
    by_cases submits : call.Submits
    · have pending : c.submitted = false := by
        rw [← Bool.not_eq_true, stands.due_iff]
        rintro ⟨other, member, due⟩
        exact (law.submits_iff.mp submits).2 other member due
      have none : calls.countP (·.Submits) = 0 := by
        rw [List.countP_eq_zero]
        intro other member
        simpa using stands.pending_iff.mp pending other member
      rw [none, if_pos (decide_eq_true submits)]
    · rw [if_neg (by simpa using submits)]
      exact stands.at_most_one
  · -- Only the last call is new.
    intro earlier other later split
    rw [kind]
    rcases List.eq_nil_or_concat later with rfl | ⟨before, last, rfl⟩
    · obtain ⟨rfl, same⟩ := List.append_inj' split rfl
      cases same
      exact law
    · rw [List.concat_eq_append, ← List.cons_append, ← List.append_assoc] at split
      exact stands.lawful earlier other before (List.append_inj' split rfl).1

end Cut

end InfluenceProgram
