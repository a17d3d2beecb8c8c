import InfluenceProgram.Proofs.RandomDiagram
import InfluenceProgram.Proofs.Validated
import InfluenceProgram.Random.Request

/-!
Random outlines that are asked for with integers as data. Numbers that cannot be drawn with are
refused before any node is listed. The chance and decision nodes are listed before they are
shuffled and the value nodes after that, so there has to be room for both; then an outline is drawn.
-/

set_option autoImplicit false

namespace InfluenceProgram

namespace Random

open Experiment

/-- Data that are integers are compared as integers. -/
theorem Request.refuseBelow_int (least k : Int) (violation : DomainViolation) :
    refuseBelow least violation (.int k) = require (least ≤ k) violation := by
  rw [refuseBelow, Datum.before_int, ofExcept_ok, done_bind, require]
  by_cases low : k < least
  · rw [if_pos (by simpa using low), if_neg (by simpa using low)]
  · rw [if_neg (by simpa using low), if_pos (by simpa using low)]

/-- A span of few nodes can be held. -/
theorem Request.spanLength_int {n : Int} (few : n.toNat < Path.maxHeld) :
    spanLength (.int n) = .ok n.toNat := by
  have small : Path.maxHeld ≤ Nat.pow 2 63 := by decide
  have room : ¬Nat.pow 2 63 ≤ n.toNat := by omega
  simp only [spanLength, Datum.position, Success.ok_bind, if_neg room,
    Problem.holdable_single few]
  rfl

section Integers

variable {real : Float → Prop} {chance decision value : Int}

/-- Integers are checked before any node is listed. -/
theorem Request.outline_eq (chance decision value limit : Int) :
    Request.outline (.int chance) (.int decision) (.int value) (.int limit) =
      checkCounts chance decision value limit >>= fun _ =>
        ofExcept (spanLength (.int (chance + decision))) >>= fun length =>
          match Path.holdable [value] with
          | .ok _ => Random.outline chance decision value limit
          | .error fault => drawShuffle (span 1 length) >>= fun _ => failed fault := by
  have total : (Datum.int chance).plus (.int decision) = .ok (.int (chance + decision)) := rfl
  simp only [Request.outline, total, ofExcept_ok, done_bind, refuseBelow_int, checkCounts,
    bind_assoc, Datum.position, Success.ok_bind]
  cases Path.holdable [value] with
  | error fault => rfl
  | ok _ => rfl

/-- An outline that is asked for with integers as data is drawn with them, if there is room for its
nodes. -/
theorem Request.outline_int (limit : Int) (few : (chance + decision).toNat < Path.maxHeld)
    (fewValues : value.toNat < Path.maxHeld) :
    Request.outline (.int chance) (.int decision) (.int value) (.int limit) =
      Random.outline chance decision value limit := by
  have held : Path.holdable [value] = .ok () := Path.holdable_iff.mpr (by simpa using fewValues)
  -- The counts are checked once as data and once as integers.
  rw [outline_eq, spanLength_int few, ofExcept_ok]
  simp only [done_bind, held]
  by_cases admissible : Admissible chance decision value limit
  · rw [admissible.checkCounts_eq, done_bind]
  · obtain ⟨violation, failure⟩ := @checkCounts_of_not_admissible Float _ _ _ _ admissible
    rw [Random.outline, failure, failed_bind, failed_bind]

variable {limit : Int}

end Integers

end Random

end InfluenceProgram
