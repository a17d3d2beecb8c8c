import InfluenceProgram.Proofs.Keyed
import InfluenceProgram.Random.Experiment

/-!
What comes out of experiments that are made one after the other. An outcome of two of them is an
outcome of the second one for some result of the first, unless the first one fails. Experiments that
cannot fail are described by the results that they can have, or by a property that all of these
have, and such descriptions compose.
-/

set_option autoImplicit false

namespace InfluenceProgram.Experiment

variable {α β γ : Type}

/-- What is computed from the items of two lists agrees item by item. -/
theorem forall₂_eq_iff {δ : Type} {f : α → δ} {g : β → δ} {xs : List α} {ys : List β} :
    List.Forall₂ (fun x y => f x = g y) xs ys ↔ xs.map f = ys.map g := by
  rw [← List.forall₂_eq_eq_eq, List.forall₂_map_left_iff, List.forall₂_map_right_iff]

theorem bind_done (e : Experiment α β) : e.bind done = e := by
  induction e with
  | done result => rfl
  | failed fault => rfl
  | integer low high next ih => exact congrArg (integer low high) (funext ih)
  | word next ih => exact congrArg word (funext ih)
  | shuffle items next ih => exact congrArg (shuffle items) (funext ih)
  | uniforms count next ih => exact congrArg (uniforms count) (funext ih)
  | sample pool size next ih => exact congrArg (sample pool size) (funext ih)

theorem bind_bind {δ : Type} (e : Experiment α β) (f : β → Experiment α γ)
    (g : γ → Experiment α δ) : (e.bind f).bind g = e.bind fun b => (f b).bind g := by
  induction e with
  | done result => rfl
  | failed fault => rfl
  | integer low high next ih => exact congrArg (integer low high) (funext ih)
  | word next ih => exact congrArg word (funext ih)
  | shuffle items next ih => exact congrArg (shuffle items) (funext ih)
  | uniforms count next ih => exact congrArg (uniforms count) (funext ih)
  | sample pool size next ih => exact congrArg (sample pool size) (funext ih)

instance : LawfulMonad (Experiment α) :=
  LawfulMonad.mk' (Experiment α) (fun e => bind_done e) (fun _ _ => rfl)
    fun e f g => bind_bind e f g

@[simp] theorem done_bind (b : β) (next : β → Experiment α γ) : (done b >>= next) = next b := rfl

@[simp] theorem failed_bind (fault : Fault) (next : β → Experiment α γ) :
    (failed fault >>= next) = failed fault := rfl

@[simp] theorem ofExcept_ok (b : β) : (ofExcept (.ok b) : Experiment α β) = done b := rfl

theorem require_of {condition : Bool} (holds : condition = true) (violation : DomainViolation) :
    (require condition violation : Experiment α Unit) = done () := if_pos holds

theorem require_of_not {condition : Bool} (fails : ¬condition = true)
    (violation : DomainViolation) :
    (require condition violation : Experiment α Unit) = failed (.domain violation) := if_neg fails

variable {real : α → Prop} {r : Except Fault β}

theorem outcome_done_iff {b : β} : Outcome real (done b) r ↔ r = .ok b := by
  constructor
  · rintro ⟨⟩
    rfl
  · rintro rfl
    exact .done b

theorem outcome_failed_iff {fault : Fault} : Outcome real (failed fault) r ↔ r = .error fault := by
  constructor
  · rintro ⟨⟩
    rfl
  · rintro rfl
    exact .failed fault

theorem outcome_integer_iff {low high : Int} {next : Int → Experiment α β} :
    Outcome real (integer low high next) r ↔
      (high ≤ low ∧ r = .error .emptyRange) ∨
        ∃ k, (low ≤ k ∧ k < high) ∧ Outcome real (next k) r := by
  constructor
  · intro drawn
    cases drawn with
    | emptyRange empty => exact .inl ⟨empty, rfl⟩
    | integer above below rest => exact .inr ⟨_, ⟨above, below⟩, rest⟩
  · rintro (⟨empty, rfl⟩ | ⟨k, ⟨above, below⟩, rest⟩)
    · exact .emptyRange empty
    · exact .integer above below rest

theorem outcome_word_iff {next : Nat → Experiment α β} :
    Outcome real (word next) r ↔ ∃ k, k < Nat.pow 2 64 ∧ Outcome real (next k) r := by
  constructor
  · intro drawn
    cases drawn with
    | word below rest => exact ⟨_, below, rest⟩
  · rintro ⟨k, below, rest⟩
    exact .word below rest

theorem outcome_shuffle_iff {items : List Int} {next : List Int → Experiment α β} :
    Outcome real (shuffle items next) r ↔
      ∃ shuffled, shuffled.Perm items ∧ Outcome real (next shuffled) r := by
  constructor
  · intro drawn
    cases drawn with
    | shuffle permuted rest => exact ⟨_, permuted, rest⟩
  · rintro ⟨shuffled, permuted, rest⟩
    exact .shuffle permuted rest

theorem outcome_uniforms_iff {count : Nat} {next : List α → Experiment α β} :
    Outcome real (uniforms count next) r ↔
      ∃ xs : List α, (xs.length = count ∧ ∀ x ∈ xs, real x) ∧ Outcome real (next xs) r := by
  constructor
  · intro drawn
    cases drawn with
    | uniforms length range rest => exact ⟨_, ⟨length, range⟩, rest⟩
  · rintro ⟨xs, ⟨length, range⟩, rest⟩
    exact .uniforms length range rest

theorem outcome_sample_iff {pool size : Nat} {next : List Nat → Experiment α β} :
    Outcome real (sample pool size next) r ↔
      ∃ chosen : List Nat, (chosen.length = size ∧ (∀ k ∈ chosen, k < pool) ∧ chosen.Nodup) ∧
        Outcome real (next chosen) r := by
  constructor
  · intro drawn
    cases drawn with
    | sample length range distinct rest => exact ⟨_, ⟨length, range, distinct⟩, rest⟩
  · rintro ⟨chosen, ⟨length, range, distinct⟩, rest⟩
    exact .sample length range distinct rest

/-- What comes out once the first of two experiments has come out. -/
def Outcome.Then (real : α → Prop) (next : γ → Experiment α β) (r : Except Fault β) :
    Except Fault γ → Prop
  | .ok c => Outcome real (next c) r
  | .error fault => r = .error fault

theorem outcome_bind_iff_then {e : Experiment α γ} {next : γ → Experiment α β} :
    Outcome real (e >>= next) r ↔
      ∃ first, Outcome real e first ∧ Outcome.Then real next r first := by
  change Outcome real (e.bind next) r ↔ _
  induction e with
  | done result => simp only [Experiment.bind, outcome_done_iff, exists_eq_left, Outcome.Then]
  | failed fault =>
      simp only [Experiment.bind, outcome_failed_iff, exists_eq_left, Outcome.Then]
  | integer low high draw ih =>
      simp only [Experiment.bind, outcome_integer_iff, ih]
      grind [Outcome.Then]
  | word draw ih =>
      simp only [Experiment.bind, outcome_word_iff, ih]
      grind
  | shuffle items draw ih =>
      simp only [Experiment.bind, outcome_shuffle_iff, ih]
      grind
  | uniforms count draw ih =>
      simp only [Experiment.bind, outcome_uniforms_iff, ih]
      grind
  | sample pool size draw ih =>
      simp only [Experiment.bind, outcome_sample_iff, ih]
      grind

/-- An outcome of an experiment that another one depends on. -/
theorem outcome_bind_iff {e : Experiment α γ} {next : γ → Experiment α β} :
    Outcome real (e >>= next) r ↔
      (∃ c, Outcome real e (.ok c) ∧ Outcome real (next c) r) ∨
        ∃ fault, Outcome real e (.error fault) ∧ r = .error fault := by
  rw [outcome_bind_iff_then]
  constructor
  · rintro ⟨first | c, drawn, rest⟩
    · exact .inr ⟨first, drawn, rest⟩
    · exact .inl ⟨c, drawn, rest⟩
  · rintro (⟨c, drawn, rest⟩ | ⟨fault, drawn, same⟩)
    · exact ⟨.ok c, drawn, rest⟩
    · exact ⟨.error fault, drawn, same⟩

/-- An experiment cannot fail, and its results are those that have a certain property. -/
def Spans (real : α → Prop) (e : Experiment α β) (results : β → Prop) : Prop :=
  ∀ r, Outcome real e r ↔ ∃ b, r = .ok b ∧ results b

namespace Spans

variable {e : Experiment α β} {results : β → Prop}

theorem ok_iff (spans : Spans real e results) {b : β} : Outcome real e (.ok b) ↔ results b := by
  rw [spans]
  simp

theorem not_error (spans : Spans real e results) (fault : Fault) :
    ¬Outcome real e (.error fault) := by
  rw [spans]
  simp

theorem congr {results' : β → Prop} (spans : Spans real e results)
    (same : ∀ b, results b ↔ results' b) : Spans real e results' := by
  intro r
  rw [spans]
  simp only [same]

/-- The first of two experiments is replaced by its results. -/
theorem outcome_bind_iff (spans : Spans real e results) {next : β → Experiment α γ}
    {r : Except Fault γ} :
    Outcome real (e >>= next) r ↔ ∃ b, results b ∧ Outcome real (next b) r := by
  rw [Experiment.outcome_bind_iff]
  simp only [spans.ok_iff, spans.not_error, false_and, exists_false, or_false]

theorem pure (b : β) : Spans real (pure b) (· = b) := by
  intro r
  exact outcome_done_iff.trans ⟨fun same => ⟨b, same, rfl⟩, fun ⟨_, same, equal⟩ => equal ▸ same⟩

theorem bind {next : β → Experiment α γ} {results' : β → γ → Prop} (first : Spans real e results)
    (rest : ∀ b, results b → Spans real (next b) (results' b)) :
    Spans real (e >>= next) fun c => ∃ b, results b ∧ results' b c := by
  intro r
  rw [first.outcome_bind_iff]
  constructor
  · rintro ⟨b, fine, drawn⟩
    obtain ⟨c, same, found⟩ := (rest b fine r).mp drawn
    exact ⟨c, same, b, fine, found⟩
  · rintro ⟨c, same, b, fine, found⟩
    exact ⟨b, fine, (rest b fine r).mpr ⟨c, same, found⟩⟩

/-- What is done with a result has no say in what comes out. -/
theorem map (spans : Spans real e results) (f : β → γ) :
    Spans real (e >>= fun b => Pure.pure (f b)) fun c => ∃ b, results b ∧ c = f b :=
  spans.bind fun b _ => Spans.pure (f b)

theorem mapM {f : γ → Experiment α β} {results : γ → β → Prop} {xs : List γ}
    (each : ∀ x ∈ xs, Spans real (f x) (results x)) :
    Spans real (xs.mapM f) fun ys => List.Forall₂ results xs ys := by
  induction xs with
  | nil =>
      rw [List.mapM_nil]
      exact (Spans.pure []).congr fun ys => List.forall₂_nil_left_iff.symm
  | cons x xs ih =>
      obtain ⟨first, rest⟩ := List.forall_mem_cons.mp each
      rw [List.mapM_cons]
      refine (first.bind fun y _ => (ih rest).map (y :: ·)).congr fun ys => ?_
      rw [List.forall₂_cons_left_iff]
      constructor
      · rintro ⟨y, head, tail, others, rfl⟩
        exact ⟨y, tail, head, others, rfl⟩
      · rintro ⟨y, tail, head, others, rfl⟩
        exact ⟨y, head, tail, others, rfl⟩

section Table

variable {κ : Type} [BEq κ] [LawfulBEq κ] [Inhabited β] {f : κ → Experiment α (κ × β)}
  {results : κ → β → Prop} {keys : List κ}

/-- What is drawn for different keys one by one is any choice of a result for each of them. -/
theorem tabulated (distinct : keys.Nodup)
    (each : ∀ k ∈ keys, Spans real (f k) fun e => ∃ b, results k b ∧ e = (k, b)) :
    Spans real (keys.mapM f) fun m =>
      ∃ g : κ → β, (∀ k ∈ keys, results k (g k)) ∧ m = keys.map fun k => (k, g k) := by
  refine (mapM each).congr fun (m : Keyed κ β) => ?_
  constructor
  · intro paired
    have split : List.Forall₂ (fun k e => k = e.1 ∧ results e.1 e.2) keys m :=
      paired.imp fun k e ⟨b, fine, same⟩ => same ▸ ⟨rfl, fine⟩
    have same : m.keys = keys :=
      (forall₂_eq_iff.mp (split.imp fun _ _ both => both.1)).symm.trans (List.map_id keys)
    have fine : ∀ e ∈ m, results e.1 e.2 :=
      ((List.forall₂_and_left m keys).mp (split.flip.imp fun _ _ both => both.symm)).1
    refine ⟨fun k => (m.get? k).getD default, fun k member => ?_, ?_⟩
    · obtain ⟨v, found⟩ := Keyed.exists_of_mem_keys (same ▸ member)
      change results k ((m.get? k).getD default)
      rw [found]
      exact fine _ (Keyed.mem_of_get? found)
    · rw [← same]
      exact Keyed.eq_map_keys (same ▸ distinct) default
  · rintro ⟨g, fine, rfl⟩
    rw [List.forall₂_map_right_iff, List.forall₂_same]
    exact fun k member => ⟨g k, fine k member, rfl⟩

/-- What is drawn for different keys one by one goes on as the choice that was made. -/
theorem tabulated_bind {next : List (κ × β) → Experiment α γ} {results' : (κ → β) → γ → Prop}
    (distinct : keys.Nodup)
    (each : ∀ k ∈ keys, Spans real (f k) fun e => ∃ b, results k b ∧ e = (k, b))
    (rest : ∀ g, (∀ k ∈ keys, results k (g k)) →
      Spans real (next (keys.map fun k => (k, g k))) (results' g)) :
    Spans real (keys.mapM f >>= next) fun c =>
      ∃ g : κ → β, (∀ k ∈ keys, results k (g k)) ∧ results' g c := by
  intro r
  rw [(tabulated distinct each).outcome_bind_iff]
  constructor
  · rintro ⟨_, ⟨g, fine, rfl⟩, drawn⟩
    obtain ⟨c, same, found⟩ := (rest g fine r).mp drawn
    exact ⟨c, same, g, fine, found⟩
  · rintro ⟨c, same, g, fine, found⟩
    exact ⟨_, ⟨g, fine, rfl⟩, (rest g fine r).mpr ⟨c, same, found⟩⟩

end Table

end Spans

theorem drawInteger_spans {low high : Int} (some : low < high) :
    Spans real (drawInteger low high) fun k => low ≤ k ∧ k < high := by
  intro r
  rw [drawInteger, outcome_integer_iff, or_iff_right fun empty => some.not_ge empty.1]
  simp only [outcome_done_iff, and_comm]

theorem drawShuffle_spans (items : List Int) :
    Spans real (drawShuffle items) fun shuffled => shuffled.Perm items := by
  intro r
  rw [drawShuffle, outcome_shuffle_iff]
  simp only [outcome_done_iff, and_comm]

theorem drawUniforms_spans (count : Nat) :
    Spans real (drawUniforms count) fun xs => xs.length = count ∧ ∀ x ∈ xs, real x := by
  intro r
  rw [drawUniforms, outcome_uniforms_iff]
  simp only [outcome_done_iff, and_comm]

theorem drawSample_spans (pool size : Nat) :
    Spans real (drawSample pool size) fun chosen =>
      chosen.length = size ∧ (∀ k ∈ chosen, k < pool) ∧ chosen.Nodup := by
  intro r
  rw [drawSample, outcome_sample_iff]
  simp only [outcome_done_iff, and_comm]

/-- Something comes out of an experiment, and whatever does is a result with a certain property. -/
structure Ensures (real : α → Prop) (e : Experiment α β) (fine : β → Prop) : Prop where
  exists_outcome : ∃ r, Outcome real e r
  ok : ∀ r, Outcome real e r → ∃ b, r = .ok b ∧ fine b

namespace Ensures

variable {e : Experiment α β} {fine : β → Prop}

theorem exists_ok (ensures : Ensures real e fine) : ∃ b, Outcome real e (.ok b) ∧ fine b := by
  obtain ⟨r, drawn⟩ := ensures.exists_outcome
  obtain ⟨b, rfl, property⟩ := ensures.ok r drawn
  exact ⟨b, drawn, property⟩

theorem mono {fine' : β → Prop} (ensures : Ensures real e fine) (weaker : ∀ b, fine b → fine' b) :
    Ensures real e fine' where
  exists_outcome := ensures.exists_outcome
  ok r drawn := by
    obtain ⟨b, same, property⟩ := ensures.ok r drawn
    exact ⟨b, same, weaker b property⟩

theorem pure {b : β} (property : fine b) : Ensures real (pure b) fine where
  exists_outcome := ⟨_, outcome_done_iff.mpr rfl⟩
  ok _ drawn := ⟨b, outcome_done_iff.mp drawn, property⟩

theorem bind {next : β → Experiment α γ} {fine' : γ → Prop} (first : Ensures real e fine)
    (rest : ∀ b, fine b → Ensures real (next b) fine') : Ensures real (e >>= next) fine' where
  exists_outcome := by
    obtain ⟨b, drawn, property⟩ := first.exists_ok
    obtain ⟨r, continued⟩ := (rest b property).exists_outcome
    exact ⟨r, outcome_bind_iff.mpr (.inl ⟨b, drawn, continued⟩)⟩
  ok r drawn := by
    rcases outcome_bind_iff.mp drawn with ⟨b, begun, continued⟩ | ⟨fault, begun, _⟩
    · obtain ⟨_, same, property⟩ := first.ok _ begun
      cases same
      exact (rest b property).ok r continued
    · obtain ⟨_, same, _⟩ := first.ok _ begun
      cases same

theorem mapM {f : γ → Experiment α β} {fine : γ → β → Prop} {xs : List γ}
    (each : ∀ x ∈ xs, Ensures real (f x) (fine x)) :
    Ensures real (xs.mapM f) fun ys => List.Forall₂ fine xs ys := by
  induction xs with
  | nil =>
      rw [List.mapM_nil]
      exact pure .nil
  | cons x xs ih =>
      obtain ⟨first, rest⟩ := List.forall_mem_cons.mp each
      rw [List.mapM_cons]
      exact first.bind fun y head => (ih rest).bind fun ys tail => pure (.cons head tail)

end Ensures

/-- What is known of all results of an experiment that has one. -/
theorem Spans.ensures {e : Experiment α β} {results fine : β → Prop} (spans : Spans real e results)
    (some : ∃ b, results b) (known : ∀ b, results b → fine b) : Ensures real e fine where
  exists_outcome := some.imp' .ok fun _ found => spans.ok_iff.mpr found
  ok r drawn := by
    obtain ⟨b, same, found⟩ := (spans r).mp drawn
    exact ⟨b, same, known b found⟩

theorem drawUniforms_ensures (some : ∃ x, real x) (count : Nat) :
    Ensures real (drawUniforms count) fun xs => xs.length = count ∧ ∀ x ∈ xs, real x := by
  obtain ⟨x, drawn⟩ := some
  refine (drawUniforms_spans count).ensures
    ⟨List.replicate count x, List.length_replicate, fun y member => ?_⟩ fun _ => id
  rw [(List.mem_replicate.mp member).2]
  exact drawn

/-- Two experiments with the same outcomes. -/
def SameOutcomes (real : α → Prop) (e e' : Experiment α β) : Prop :=
  ∀ r, Outcome real e r ↔ Outcome real e' r

namespace SameOutcomes

theorem refl (e : Experiment α β) : SameOutcomes real e e := fun _ => Iff.rfl

theorem of_spans {e e' : Experiment α β} {results : β → Prop} (spans : Spans real e results)
    (spans' : Spans real e' results) : SameOutcomes real e e' :=
  fun r => (spans r).trans (spans' r).symm

/-- Experiments go on alike after every result of the first of them. -/
theorem bind {e e' : Experiment α β} {next next' : β → Experiment α γ}
    (first : SameOutcomes real e e')
    (rest : ∀ b, Outcome real e' (.ok b) → SameOutcomes real (next b) (next' b)) :
    SameOutcomes real (e >>= next) (e' >>= next') := by
  intro r
  rw [outcome_bind_iff, outcome_bind_iff]
  refine or_congr (exists_congr fun b => ?_) (exists_congr fun fault => ?_)
  · rw [first]
    exact and_congr_right fun drawn => rest b drawn r
  · rw [first]

end SameOutcomes

end InfluenceProgram.Experiment
