import InfluenceProgram.Fault

/-!
Random experiments as data: a tree of draws whose branches are the possible results. `Outcome` says
what can come out of an experiment, whatever the source of randomness; a source picks one of these.
-/

namespace InfluenceProgram

/-- An experiment with real draws of type `α` and a result of type `β`. -/
inductive Experiment (α β : Type) where
  | done (result : β)
  | failed (fault : Fault)
  /-- An integer from `low` on and below `high`. -/
  | integer (low high : Int) (next : Int → Experiment α β)
  /-- A natural of 64 bits. -/
  | word (next : Nat → Experiment α β)
  /-- The items in another order. -/
  | shuffle (items : List Int) (next : List Int → Experiment α β)
  /-- So many real numbers. -/
  | uniforms (count : Nat) (next : List α → Experiment α β)
  /-- So many different naturals below `pool`. -/
  | sample (pool size : Nat) (next : List Nat → Experiment α β)

namespace Experiment

variable {α β γ : Type}

def bind (f : β → Experiment α γ) : Experiment α β → Experiment α γ
  | done result => f result
  | failed fault => failed fault
  | integer low high next => integer low high fun k => (next k).bind f
  | word next => word fun k => (next k).bind f
  | shuffle items next => shuffle items fun shuffled => (next shuffled).bind f
  | uniforms count next => uniforms count fun xs => (next xs).bind f
  | sample pool size next => sample pool size fun chosen => (next chosen).bind f

instance : Monad (Experiment α) where
  pure := done
  bind e f := e.bind f

def ofExcept : Except Fault β → Experiment α β
  | .ok result => done result
  | .error fault => failed fault

def drawInteger (low high : Int) : Experiment α Int := integer low high done

def drawWord : Experiment α Nat := word done

def drawShuffle (items : List Int) : Experiment α (List Int) := shuffle items done

def drawUniforms (count : Nat) : Experiment α (List α) := uniforms count done

def drawSample (pool size : Nat) : Experiment α (List Nat) := sample pool size done

/-- Fails unless a condition holds. -/
def require (condition : Bool) (violation : DomainViolation) : Experiment α Unit :=
  if condition then done () else failed (.domain violation)

/--
What can come out of an experiment whose real draws have the property `real`. An integer from an
empty range is a fault.
-/
inductive Outcome (real : α → Prop) : Experiment α β → Except Fault β → Prop where
  | done (result : β) : Outcome real (.done result) (.ok result)
  | failed (fault : Fault) : Outcome real (.failed fault) (.error fault)
  | emptyRange {low high : Int} {next : Int → Experiment α β} (empty : high ≤ low) :
      Outcome real (.integer low high next) (.error .emptyRange)
  | integer {low high k : Int} {next : Int → Experiment α β} {r : Except Fault β}
      (above : low ≤ k) (below : k < high) (rest : Outcome real (next k) r) :
      Outcome real (.integer low high next) r
  | word {k : Nat} {next : Nat → Experiment α β} {r : Except Fault β}
      (below : k < Nat.pow 2 64) (rest : Outcome real (next k) r) : Outcome real (.word next) r
  | shuffle {items shuffled : List Int} {next : List Int → Experiment α β} {r : Except Fault β}
      (permuted : shuffled.Perm items) (rest : Outcome real (next shuffled) r) :
      Outcome real (.shuffle items next) r
  | uniforms {count : Nat} {xs : List α} {next : List α → Experiment α β} {r : Except Fault β}
      (length : xs.length = count) (range : ∀ x ∈ xs, real x) (rest : Outcome real (next xs) r) :
      Outcome real (.uniforms count next) r
  | sample {pool size : Nat} {chosen : List Nat} {next : List Nat → Experiment α β}
      {r : Except Fault β} (length : chosen.length = size) (range : ∀ k ∈ chosen, k < pool)
      (distinct : chosen.Nodup) (rest : Outcome real (next chosen) r) :
      Outcome real (.sample pool size next) r

end Experiment

end InfluenceProgram
