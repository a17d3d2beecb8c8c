import InfluenceProgram.Proofs.CutCalls
import InfluenceProgram.Proofs.Emitted

/-!
Runs of events. An event calls some cuts, each at most once and one after the other; it changes the
state of these alone, and each as if it stood alone. So what holds of the calls of one cut holds in
every run, whatever happens to the other cuts meanwhile.
-/

set_option autoImplicit false

namespace InfluenceProgram

section Replacing

variable {α : Type}

/-- Only the entries at the numbers of some invocations are replaced by them. -/
theorem getElem?_replace_of_not_mem {made : List (Nat × Invocation α)} {k : Nat}
    (others : k ∉ made.map (·.1)) (cuts : List Cut) :
    (made.foldl (fun cuts (n, i) => cuts.set n i.cut) cuts)[k]? = cuts[k]? := by
  induction made generalizing cuts with
  | nil => rfl
  | cons head made ih =>
      obtain ⟨different, others⟩ := not_or.mp (List.mem_cons.not.mp others)
      rw [List.foldl_cons, ih others, List.getElem?_set_ne (Ne.symm different)]

theorem getElem?_replace_of_mem {made : List (Nat × Invocation α)}
    (distinct : (made.map (·.1)).Nodup) {entry : Nat × Invocation α} (member : entry ∈ made)
    {cuts : List Cut} (inside : entry.1 < cuts.length) :
    (made.foldl (fun cuts (n, i) => cuts.set n i.cut) cuts)[entry.1]? = some entry.2.cut := by
  induction made generalizing cuts with
  | nil => cases member
  | cons head made ih =>
      obtain ⟨fresh, distinct⟩ := List.nodup_cons.mp distinct
      rw [List.foldl_cons]
      rcases List.mem_cons.mp member with rfl | later
      · rw [getElem?_replace_of_not_mem fresh, List.getElem?_set_self inside]
      · exact ih distinct later (by rwa [List.length_set])

end Replacing

variable {α : Type} [Scalar α] {f : Formulation α}

/-- The cuts that are called have the numbers that follow each other from the first one on. -/
theorem invokeFrom_numbers (f : Formulation α) (moment : Moment) (replies : Nat → Reply α)
    (k : Nat) (cuts : List Cut) :
    (invokeFrom f moment replies k cuts).map (·.1) =
      List.range' k (invokeFrom f moment replies k cuts).length := by
  induction cuts generalizing k with
  | nil => rfl
  | cons c rest ih =>
      rw [invokeFrom]
      split
      · rfl
      · rw [List.map_cons, ih, List.length_cons, List.range'_succ]

/-- Each cut is called in its own state and with the answer that is meant for it. -/
theorem invokeFrom_made {moment : Moment} {replies : Nat → Reply α} {k : Nat} {cuts : List Cut}
    {made : Nat × Invocation α} (member : made ∈ invokeFrom f moment replies k cuts) :
    ∃ n c, made.1 = k + n ∧ cuts[n]? = some c ∧ made.2 = c.invoke f moment (replies made.1) := by
  induction cuts generalizing k with
  | nil => cases member
  | cons c rest ih =>
      rw [invokeFrom] at member
      rcases List.mem_cons.mp member with rfl | later
      · exact ⟨0, c, rfl, rfl, rfl⟩
      · split at later
        · cases later
        · obtain ⟨n, c', number, found, done⟩ := ih later
          exact ⟨n + 1, c', by omega, found, done⟩

/-- No cut but the last one that is called fails. -/
theorem invokeFrom_goes_on (f : Formulation α) (moment : Moment) (replies : Nat → Reply α) (k : Nat)
    (cuts : List Cut) :
    ∀ made ∈ (invokeFrom f moment replies k cuts).dropLast, made.2.verdict ≠ .failed := by
  induction cuts generalizing k with
  | nil => simp [invokeFrom]
  | cons c rest ih =>
      rw [invokeFrom]
      split
      · simp
      · rename_i fine
        cases tail : invokeFrom f moment replies (k + 1) rest with
        | nil => simp
        | cons next others =>
            rw [List.dropLast_cons_cons, ← tail]
            exact List.forall_mem_cons.mpr ⟨fine, ih (k + 1)⟩

/-- All cuts are called unless one fails. -/
theorem invokeFrom_stops (f : Formulation α) (moment : Moment) (replies : Nat → Reply α) (k : Nat)
    (cuts : List Cut) :
    (invokeFrom f moment replies k cuts).length = cuts.length ∨
      ∃ last ∈ (invokeFrom f moment replies k cuts).getLast?, last.2.verdict = .failed := by
  induction cuts generalizing k with
  | nil => exact Or.inl rfl
  | cons c rest ih =>
      rw [invokeFrom]
      split
      · rename_i failed
        exact Or.inr ⟨_, rfl, failed⟩
      · rcases ih (k + 1) with all | ⟨last, final, failed⟩
        · exact Or.inl (by rw [List.length_cons, List.length_cons, all])
        · refine Or.inr ⟨last, ?_, failed⟩
          rw [List.getLast?_cons, Option.mem_def.mp final]
          rfl

namespace CutEvent

def moment : CutEvent α → Moment
  | call _ moment _ => moment
  | dispatch moment _ _ => moment

/-- What the solver answers to a cut during an event. -/
def replyTo : CutEvent α → Nat → Reply α
  | call _ _ reply, _ => reply
  | dispatch _ _ replies, k => replies k

end CutEvent

namespace CutRun

variable {r : CutRun α} {e : CutEvent α}

/-- The calls that an event brings about, in order. -/
def calls (r : CutRun α) (e : CutEvent α) : List (CutCall α) :=
  (r.invocations e).map fun made =>
    { cut := made.1, moment := e.moment, reply := e.replyTo made.1, done := made.2 }

/-- The calls of a run, in order. -/
def history (r : CutRun α) : List (CutEvent α) → List (CutCall α)
  | [] => []
  | e :: events => r.calls e ++ (r.step e).history events

theorem after_concat (r : CutRun α) (events : List (CutEvent α)) (e : CutEvent α) :
    r.after (events ++ [e]) = (r.after events).step e :=
  List.foldl_concat _ _ _ _

theorem history_concat (r : CutRun α) (events : List (CutEvent α)) (e : CutEvent α) :
    r.history (events ++ [e]) = r.history events ++ (r.after events).calls e := by
  induction events generalizing r with
  | nil => exact List.append_nil _
  | cons first events ih =>
      rw [List.cons_append, history, ih, history, List.append_assoc]
      rfl

theorem after_formulation (r : CutRun α) (events : List (CutEvent α)) :
    (r.after events).formulation = r.formulation := by
  induction events using List.reverseRecOn with
  | nil => rfl
  | append_singleton events e ih =>
      rw [after_concat]
      exact ih

/-- The rows submitted in a run are those that its calls submitted. -/
theorem after_rows (r : CutRun α) (events : List (CutEvent α)) :
    (r.after events).rows = r.rows ++ (r.history events).flatMap (·.done.row?.toList) := by
  induction events using List.reverseRecOn with
  | nil => exact (List.append_nil _).symm
  | append_singleton events e ih =>
      rw [after_concat, history_concat, List.flatMap_append, ← List.append_assoc, ← ih, calls,
        List.flatMap_map]
      rfl

theorem nodup_numbers (r : CutRun α) (e : CutEvent α) : ((r.invocations e).map (·.1)).Nodup := by
  cases e with
  | call k moment reply =>
      rw [invocations]
      split <;> simp
  | dispatch moment status replies =>
      rw [invocations]
      split
      · rw [invokeFrom_numbers]
        exact List.nodup_range'
      · simp

/-- A cut that is called is registered, and it is called in its own state. -/
theorem invocations_made {made : Nat × Invocation α} (member : made ∈ r.invocations e) :
    ∃ c, r.cuts[made.1]? = some c ∧
      made.2 = c.invoke r.formulation e.moment (e.replyTo made.1) := by
  cases e with
  | call k moment reply =>
      rw [invocations] at member
      split at member
      · rename_i c found
        rw [List.mem_singleton.mp member]
        exact ⟨c, found, rfl⟩
      · cases member
  | dispatch moment status replies =>
      rw [invocations] at member
      split at member
      · obtain ⟨n, c, number, found, done⟩ := invokeFrom_made member
        rw [Nat.zero_add] at number
        exact ⟨c, number ▸ found, done⟩
      · cases member

/-- A call depends on the state of its own cut alone, and it decides what this state is next. -/
theorem step_of_called {call : CutCall α} (called : call ∈ r.calls e) :
    ∃ c, r.cuts[call.cut]? = some c ∧
      call.done = c.invoke r.formulation call.moment call.reply ∧
        (r.step e).cuts[call.cut]? = some call.done.cut := by
  obtain ⟨made, member, rfl⟩ := List.mem_map.mp called
  obtain ⟨c, found, done⟩ := invocations_made member
  refine ⟨c, found, done, ?_⟩
  exact getElem?_replace_of_mem (r.nodup_numbers e) member (List.getElem?_eq_some_iff.mp found).1

theorem step_of_not_called {k : Nat} (others : ∀ call ∈ r.calls e, call.cut ≠ k) :
    (r.step e).cuts[k]? = r.cuts[k]? := by
  apply getElem?_replace_of_not_mem
  rintro called
  obtain ⟨made, member, rfl⟩ := List.mem_map.mp called
  exact others _ (List.mem_map_of_mem member) rfl

/-- An event calls a cut at most once. -/
theorem calls_of_called {call : CutCall α} (called : call ∈ r.calls e) :
    (r.calls e).filter (·.cut = call.cut) = [call] := by
  have distinct : ((r.calls e).map (·.cut)).Nodup := by
    rw [calls, List.map_map]
    exact r.nodup_numbers e
  generalize r.calls e = all at called distinct
  induction all with
  | nil => cases called
  | cons head all ih =>
      obtain ⟨fresh, distinct⟩ := List.nodup_cons.mp distinct
      rcases List.mem_cons.mp called with rfl | later
      · rw [List.filter_cons_of_pos (by simp), List.filter_eq_nil_iff.mpr]
        intro other member
        rw [decide_eq_true_eq]
        exact fun same => fresh (List.mem_map.mpr ⟨other, member, same⟩)
      · rw [List.filter_cons_of_neg, ih later distinct]
        rw [decide_eq_true_eq]
        exact fun same => fresh (List.mem_map.mpr ⟨call, later, same.symm⟩)

theorem step_kinds (r : CutRun α) (e : CutEvent α) :
    (r.step e).cuts.map (·.kind) = r.cuts.map (·.kind) := by
  apply List.ext_getElem?
  intro k
  rw [List.getElem?_map, List.getElem?_map]
  by_cases called : ∃ call ∈ r.calls e, call.cut = k
  · obtain ⟨call, member, rfl⟩ := called
    obtain ⟨c, found, done, next⟩ := step_of_called member
    rw [found, next, done, Option.map_some, Option.map_some, Cut.invoke_kind]
  · push Not at called
    rw [step_of_not_called called]

/-- A run neither adds nor removes cuts. -/
theorem after_kinds (r : CutRun α) (events : List (CutEvent α)) :
    (r.after events).cuts.map (·.kind) = r.cuts.map (·.kind) := by
  induction events using List.reverseRecOn with
  | nil => rfl
  | append_singleton events e ih => rw [after_concat, step_kinds, ih]

omit [Scalar α] in
theorem start_kinds (f : Formulation α) : (start f).cuts.map (·.kind) = f.specs.cuts := by
  rw [start, List.map_map]
  exact List.map_id _

/-- At every point of a run, the state of a cut stands for the calls of this cut so far. -/
theorem stands_after (builds : ∀ kind, ∃ row, f.cutRow kind = .ok row)
    (events : List (CutEvent α)) {k : Nat} {c : Cut}
    (found : ((start f).after events).cuts[k]? = some c) :
    c.Stands f (((start f).history events).filter (·.cut = k)) := by
  induction events using List.reverseRecOn generalizing c with
  | nil =>
      obtain ⟨kind, _, rfl⟩ := List.mem_map.mp (List.mem_of_getElem? found)
      exact Cut.stands_pending f kind
  | append_singleton events e ih =>
      have formulation := after_formulation (start f) events
      rw [after_concat] at found
      rw [history_concat, List.filter_append]
      by_cases called : ∃ call ∈ ((start f).after events).calls e, call.cut = k
      · obtain ⟨call, member, rfl⟩ := called
        obtain ⟨before, earlier, done, next⟩ := step_of_called member
        rw [found, Option.some.injEq] at next
        rw [formulation] at done
        obtain ⟨row, built⟩ := builds before.kind
        rw [calls_of_called member, next]
        exact (ih earlier).next built done
      · push Not at called
        rw [step_of_not_called called] at found
        have nothing : (((start f).after events).calls e).filter (·.cut = k) = [] :=
          List.filter_eq_nil_iff.mpr (by simpa using called)
        rw [nothing, List.append_nil]
        exact ih found

/-- Cuts are called in the order of their numbers, up to the first that fails. -/
structure InOrder (count : Nat) (calls : List (CutCall α)) : Prop where
  numbers : calls.map (·.cut) = List.range calls.length
  goes_on : ∀ call ∈ calls.dropLast, call.done.verdict ≠ .failed
  stops : calls.length = count ∨ ∃ last ∈ calls.getLast?, last.done.verdict = .failed

/-- Which cuts an event calls, what is asked for them, and what becomes of their states. -/
structure Handles (r : CutRun α) (e : CutEvent α) : Prop where
  called : ∀ call ∈ r.calls e, ∃ c, r.cuts[call.cut]? = some c ∧
    call.done = c.invoke r.formulation call.moment call.reply ∧
      (r.step e).cuts[call.cut]? = some call.done.cut
  others : ∀ k, (∀ call ∈ r.calls e, call.cut ≠ k) → (r.step e).cuts[k]? = r.cuts[k]?
  one : ∀ k moment reply, e = .call k moment reply →
    (r.calls e).map (·.cut) = if k < r.cuts.length then [k] else []
  reached : ∀ moment status replies, e = .dispatch moment status replies →
    (moment = .incumbent ∨ moment = .node ∧ status = some optimalStatus) →
      InOrder r.cuts.length (r.calls e)
  passed : ∀ moment status replies, e = .dispatch moment status replies →
    ¬(moment = .incumbent ∨ moment = .node ∧ status = some optimalStatus) →
      r.calls e = [] ∧ r.step e = r
  log : r.log e = preamble e ++ (r.calls e).flatMap (·.done.log)
  asked : ∀ call ∈ r.calls e, ∀ query ∈ call.done.log, query = .submission ∨
    query = if e.moment = .incumbent then .incumbentValues else .relaxationValues

theorem reached_iff (moment : Moment) (status : Option Int) :
    CutRun.reached moment status = true ↔
      moment = .incumbent ∨ moment = .node ∧ status = some optimalStatus := by
  simp [CutRun.reached]

theorem inOrder_of_reached {moment : Moment} {status : Option Int} (replies : Nat → Reply α)
    (at_place : CutRun.reached moment status = true) :
    InOrder r.cuts.length (r.calls (.dispatch moment status replies)) := by
  have made : r.invocations (.dispatch moment status replies) =
      invokeFrom r.formulation moment replies 0 r.cuts := by rw [invocations, if_pos at_place]
  rw [calls, made]
  refine ⟨?_, ?_, ?_⟩
  · rw [List.map_map, List.length_map, List.range_eq_range']
    exact invokeFrom_numbers _ _ _ _ _
  · rw [← List.map_dropLast]
    exact List.forall_mem_map.mpr (invokeFrom_goes_on _ _ _ _ _)
  · rw [List.length_map, List.getLast?_map]
    refine (invokeFrom_stops r.formulation moment replies 0 r.cuts).imp_right ?_
    rintro ⟨last, final, failed⟩
    exact ⟨_, Option.mem_map_of_mem _ final, failed⟩

theorem handles (r : CutRun α) (e : CutEvent α) : r.Handles e where
  called _ := step_of_called
  others _ := step_of_not_called
  one k moment reply same := by
    subst same
    rw [calls, invocations]
    cases found : r.cuts[k]? with
    | none =>
        rw [if_neg (by simpa using found)]
        rfl
    | some c =>
        rw [if_pos (List.getElem?_eq_some_iff.mp found).1]
        rfl
  reached moment status replies same at_place := by
    subst same
    exact inOrder_of_reached replies ((reached_iff moment status).mpr at_place)
  passed moment status replies same elsewhere := by
    subst same
    have nothing : r.invocations (.dispatch moment status replies) = [] := by
      rw [invocations, if_neg (mt (reached_iff moment status).mp elsewhere)]
    rw [calls, step, record, nothing]
    exact ⟨rfl, by simp⟩
  log := by
    rw [log, calls, List.flatMap_map]
  asked call member query asks := by
    obtain ⟨made, _, rfl⟩ := List.mem_map.mp member
    obtain ⟨c, _, done, _⟩ := step_of_called member
    rw [done] at asks
    rw [← Moment.values_eq]
    exact Cut.mem_log asks

end CutRun

namespace Formulation

variable {node : Int → String} {specs : Specs} {p : Problem α} {name : String}

theorem buildBy_inputs (built : buildBy node specs p name = .ok f) :
    f.problem = p ∧ f.specs = specs ∧ ∃ epsilon, p.leastProbability = .ok epsilon := by
  obtain ⟨epsilon, least, built⟩ := Success.bind_iff.mp built
  obtain ⟨_, _, built⟩ := Success.bind_iff.mp built
  obtain ⟨_, _, built⟩ := Success.bind_iff.mp built
  obtain ⟨_, _, built⟩ := Success.bind_iff.mp built
  obtain ⟨_, _, built⟩ := Success.bind_iff.mp built
  obtain ⟨_, _, built⟩ := Success.bind_iff.mp built
  cases Except.ok.inj built
  exact ⟨rfl, rfl, epsilon, least⟩

/-- All rows of cuts can be written down in a model that has been built: the probabilities that
they need have been computed for the least one. -/
theorem cutRow_of_built (built : buildBy node specs p name = .ok f) (kind : CutKind) :
    ∃ row, f.cutRow kind = .ok row := by
  obtain ⟨same, _, epsilon, least⟩ := buildBy_inputs built
  cases kind with
  | probabilitySum => exact ⟨_, rfl⟩
  | pathCount number =>
      obtain ⟨weights, weighed, _⟩ := Success.bind_iff.mp least
      have each : ∀ s ∈ p.paths, ∃ weight, p.probability s = .ok weight := by
        intro s member
        obtain ⟨i, inside, rfl⟩ := List.getElem_of_mem member
        have pairs := Success.mapM_iff.mp weighed
        exact ⟨_, pairs.get inside (pairs.length_eq ▸ inside)⟩
      choose! weight found using each
      rw [cutRow, same, Success.mapM_eq (g := fun s =>
        if 0 < weight s then [(Variable.path s, 1 / weight s)] else [])]
      · exact ⟨_, rfl⟩
      · intro s member
        rw [found s member]
        rfl

end Formulation

/-- Over any run of events, each cut of a model is submitted at most once: by the first call whose
values violate it, if the solver answers and takes the row. -/
theorem cuts_submit_once {node : Int → String} {specs : Specs} {p : Problem α} {name : String}
    (built : Formulation.buildBy node specs p name = .ok f) (events : List (CutEvent α)) :
    let r := (CutRun.start f).after events
    let history := (CutRun.start f).history events
    r.formulation = f ∧ r.cuts.map (·.kind) = specs.cuts ∧
      r.rows = history.flatMap (·.done.row?.toList) ∧
      (∀ k (c : Cut), r.cuts[k]? = some c → c.Stands f (history.filter (·.cut = k))) ∧
      ∀ e, r.Handles e := by
  intro r history
  have specs_eq := (Formulation.buildBy_inputs built).2.1
  refine ⟨CutRun.after_formulation _ events, ?_, ?_, ?_, r.handles⟩
  · rw [CutRun.after_kinds, CutRun.start_kinds, specs_eq]
  · exact (CutRun.after_rows _ events).trans (List.nil_append _)
  · exact fun k c => CutRun.stands_after (Formulation.cutRow_of_built built) events

/-- A query fails, then no path has anything twice: the first time submits both cuts. -/
def umbrellaEvents : List (CutEvent Rat) :=
  [.dispatch .node (some optimalStatus) fun _ => { values := none },
    .dispatch .incumbent none fun _ => { values := some [0, 0, 0, 0] },
    .dispatch .node (some optimalStatus) fun _ => { values := some [0, 0, 0, 0] }]

theorem umbrella_submits_once : ∃ f, Formulation.buildBy toString ⟨true, 2⟩ Problem.umbrella
      "umbrella" = .ok f ∧
    ((CutRun.start f).after umbrellaEvents).cuts =
      [⟨.probabilitySum, true⟩, ⟨.pathCount 2, true⟩] ∧
    ((CutRun.start f).history umbrellaEvents).map (·.cut) = [0, 0, 1, 0, 1] ∧
    ∀ k < 2, (((CutRun.start f).history umbrellaEvents).filter (·.cut = k)).countP
      (·.Submits) = 1 := by
  have accepted := Problem.umbrella_accepted
  have built := accepted.weighed.buildBy_eq accepted.valued toString ⟨true, 2⟩ "umbrella"
  obtain ⟨_, _, _, stands, _⟩ := cuts_submit_once built umbrellaEvents
  have both : ((CutRun.start (Problem.umbrella.emitted toString ⟨true, 2⟩ "umbrella")).after
      umbrellaEvents).cuts = [⟨.probabilitySum, true⟩, ⟨.pathCount 2, true⟩] := by decide +kernel
  refine ⟨_, built, both, by decide +kernel, fun k below => ?_⟩
  obtain ⟨c, found, submitted⟩ : ∃ c : Cut, ((CutRun.start (Problem.umbrella.emitted toString
      ⟨true, 2⟩ "umbrella")).after umbrellaEvents).cuts[k]? = some c ∧ c.submitted = true := by
    rw [both]
    interval_cases k
    · exact ⟨_, rfl, rfl⟩
    · exact ⟨_, rfl, rfl⟩
  have calls := stands k c found
  obtain ⟨call, member, submits⟩ := calls.submitted_iff.mp submitted
  exact le_antisymm calls.at_most_one
    (List.countP_pos_iff.mpr ⟨call, member, decide_eq_true submits⟩)

end InfluenceProgram
