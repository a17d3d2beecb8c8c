import InfluenceProgram.Drawing.Basic
import InfluenceProgram.Random.Instance
import InfluenceProgram.Settings

/-!
Random problems asked for with data. An amount may be any number as long as it is only compared;
where it has to be a length or a place it must be whole, and what has been drawn by then stays
drawn.
-/

namespace InfluenceProgram.Random.Request

open Experiment

/-- Refuses a number that is below another. -/
def refuseBelow (least : Int) (violation : DomainViolation) (d : Datum) :
    Experiment Float Unit := do
  if ← ofExcept (d.before (.int least)) then failed (.domain violation) else done ()

/-- The difference of two numbers, exact if both of them are whole. -/
def difference (a b : Datum) : Except Fault Float :=
  match a.position, b.position with
  | .ok m, .ok n => Datum.realOfInt (m - n)
  | _, _ => do return (← a.quantity) - (← b.quantity)

/--
How many whole numbers there are from one up to an end; only so many can be held. A real end is
counted by the rounded distance from one to the number behind it.
-/
def spanLength (last : Datum) : Except Fault Nat := do
  let length ← match last with
    | .real x =>
      if x.isNaN then .error .spanOfNothing
      else
        match Binary64.truncate? ((x + 1.0) - 1.0).ceil with
        | some n => .ok n
        | none => .error .endlessSpan
    | d => d.position
  if Nat.pow 2 63 ≤ length.toNat then .error .endlessSpan
  else
    holdable last.isReal [length.toNat]
    return length.toNat

/-- The whole part of what is left of a word when a positive number is taken from it repeatedly. -/
def remainder (k : Nat) (x : Float) : Except Fault Int :=
  match Magnitude.ofReal (Binary64.ofInt k), Magnitude.ofReal x with
  | .exactly p, .exactly q => .ok (p - q * (p / q).floor).floor
  | .exactly p, .above => .ok p.floor
  | _, _ => .error .integerOfNothing

/-- A size of an information set up to a limit that need not be whole. -/
def drawSize (limit : Float) : Experiment Float Int := do
  ofExcept (remainder (← drawWord) (limit + 1.0))

/--
A random outline. The inner nodes are shuffled before the numbers of nodes are found not to be
whole, or the value nodes to be too many.
-/
def outline (chance decision value limit : Datum) : Experiment Float Outline := do
  let n ← ofExcept (chance.plus decision)
  refuseBelow 0 .chanceCount chance
  refuseBelow 0 .decisionCount decision
  refuseBelow 1 .nodeCount n
  refuseBelow 1 .valueCount value
  refuseBelow 1 .informationLimit limit
  let length ← ofExcept (spanLength n)
  let whole : Except Fault (Int × Int × Int) := do
    let chance ← chance.position
    let decision ← decision.position
    let value ← value.position
    Path.holdable [value]
    return (chance, decision, value)
  match whole with
  | .ok (chance, decision, value) =>
    match limit.position with
    | .ok limit => Random.outline chance decision value limit
    | .error _ => do
      outlineBy (drawSize (← ofExcept limit.quantity)) chance decision value
  | .error fault => do
    let _ ← drawShuffle (span 1 length)
    failed fault

/-- The state counts to choose from: positive as integers, and at least one. -/
def readChoices (choices : Datum) : Except Fault (List Datum) := do
  if choices.isBlank then .error (.domain .stateChoices)
  else
    let items ← choices.items
    items.forM fun c => do
      if (← c.toInt) < 1 then .error (.domain .stateChoices) else .ok ()
    return items

/-- Whether a datum is an integer that is a 64-bit word only without a sign. -/
def isUnsigned : Datum → Bool
  | .int n => (Nat.pow 2 63 : Int) ≤ n
  | _ => false

def isInt : Datum → Bool
  | .int _ => true
  | _ => false

def readItem (s : String) : Except Fault Int :=
  (Datum.text s).toInt.mapError fun
    | .notInteger text => .notIntegerItem text
    | fault => fault

/--
The integers that some data stand for when they are laid out in one array: one text makes texts of
all of them, and one real makes reals, as do words with and without a sign together. An integer
that is no word at all leaves every item as it is.
-/
def laidOut (items : List Datum) : Except Fault (List Int) :=
  if items.any Datum.isLong then items.mapM Datum.toInt
  else if items.any Datum.isText then items.mapM fun d => readItem d.plain
  else if items.any Datum.isReal ||
      (items.any isUnsigned && items.any fun d => isInt d && !isUnsigned d) then
    items.mapM fun d => do Datum.truncated (← d.toReal)
  else items.mapM Datum.toInt

/-- A state count for each of so many nodes. -/
def states (choices nodes : Datum) : Experiment Float (List Int) := do
  let items ← ofExcept (readChoices choices)
  let count ← ofExcept nodes.position
  let drawn ← drawItems .null items count.toNat
  ofExcept (laidOut drawn)

def innerNode (w : Drawing) (node : Datum) : Except Fault Int := do
  let _ ← w.informationSet? node
  node.position

/--
Random probabilities of a chance node with some impossible outcomes. That a table cannot have so
many axes is found once its numbers are drawn.
-/
def probabilities (w : Drawing) (node inactive : Datum) : Experiment Float (Tensor Float) := do
  let j ← ofExcept (innerNode w node)
  let (contextCounts, count) ← ofExcept (familyCounts w.diagram j)
  let contexts := Path.number contextCounts
  let most := Datum.int (contexts * (count - 1))
  let positive ← ofExcept (inactive.above 0)
  let tooMany ← ofExcept (most.before inactive)
  require ((positive || inactive.same (.int 0)) && !tooMany) .inactiveCount
  ofExcept (holdable true ((contextCounts ++ [count]).map Int.toNat))
  let size : Except Fault Int := do
    checkAxes (contextCounts.length + 1)
    if positive then inactive.position else return 0
  match size with
  | .ok size => Random.probabilities w.diagram j size
  | .error fault => do
    let _ ← drawUniforms (contexts * count.toNat)
    failed fault

def checkRange (low high : Datum) : Experiment Float Unit := do
  require (← ofExcept (low.before high)) .utilityRange

/-- Random utilities of a value node between two bounds, which only have to be in order at first. -/
def utilities (w : Drawing) (node low high : Datum) : Experiment Float (Tensor Float) := do
  checkRange low high
  let contextCounts ← ofExcept (w.informationSet? node >>= w.diagram.countsAt)
  ofExcept (holdable true (contextCounts.map Int.toNat))
  let shares ← drawUniforms (Path.number contextCounts)
  ofExcept (checkAxes contextCounts.length)
  let width ← ofExcept (difference high low)
  let low ← ofExcept low.quantity
  return spread contextCounts low width shares

/-- A random local strategy as a table of zeros with a one in each context. -/
def localStrategy (w : Drawing) (node : Datum) : Experiment Float (Tensor Int) := do
  let j ← ofExcept (innerNode w node)
  let (contextCounts, count) ← ofExcept (familyCounts w.diagram j)
  ofExcept (checkAxes (contextCounts.length + 1))
  ofExcept (holdable false ((contextCounts ++ [count]).map Int.toNat))
  Random.localStrategy w.diagram j

/-- A random problem; what is not given by name gets its default. -/
def problem (chance decision value limit : Datum) (given : Named) :
    Experiment Float (Problem Float) := do
  ofExcept (given.only ["state_choices", "low", "high"])
  let setting (name : String) (default : Datum) : Datum := (given.get? name).getD default
  let choices := setting "state_choices" (.list RandomSettings.defaultChoices)
  let low := setting "low" (.real RandomSettings.defaultLow)
  let high := setting "high" (.real RandomSettings.defaultHigh)
  let counts (_ : Outline) := do states choices (← ofExcept (chance.plus decision))
  assemble (outline chance decision value limit) counts
    (fun d j => probabilities (.ofDiagram d) (.int j) (.int 0))
    fun d v => utilities (.ofDiagram d) (.int v) low high

end InfluenceProgram.Random.Request
