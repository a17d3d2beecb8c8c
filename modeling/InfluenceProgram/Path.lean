import InfluenceProgram.Position

/-!
State paths. A path gives every chance and decision node one of its states. Nodes and states are
integers counted from one, and the last node varies fastest. Paths are enumerated by recursion on
the state counts and, for ranges too long to write down, one by one from their rank.
-/

namespace InfluenceProgram

/-- One state for each node of a list of nodes, in the order of that list. -/
abbrev Path := List Int

/-- The states `1, …, count`; none if the count is not positive. -/
def states (count : Int) : List Int := (List.range count.toNat).map fun k => Int.ofNat k + 1

/-- All paths over nodes with the given state counts, in lexicographic order. -/
def paths : List Int → List Path
  | [] => [[]]
  | count :: counts =>
    let tails := paths counts
    (states count).flatMap fun s => tails.map (s :: ·)

namespace Path

/-- How many paths there are. -/
def number : List Int → Nat
  | [] => 1
  | count :: counts => count.toNat * number counts

/-- The product of the state counts, which has to be a length of 64 bits. -/
def length? (counts : List Int) : Except Fault Nat :=
  let product : Int := counts.foldl (· * ·) 1
  if product < 0 then .error .negativeLength
  else if Nat.pow 2 63 ≤ product.toNat then .error .lengthTooLarge
  else .ok product.toNat

/-- The path of a rank: its states are the mixed-radix digits of the rank, each raised by one. -/
def ofRank : List Int → Nat → Path
  | [], _ => []
  | count :: counts, rank =>
    (Int.ofNat (rank / number counts % count.toNat) + 1) :: ofRank counts (rank % number counts)

def restrict {σ : Type} (path : List σ) (nodes : List Int) : Except Fault (List σ) :=
  nodes.mapM fun j => Position.pick .outsideTuple path (j - 1)

/-- Positions in a table are counted from zero. -/
def toIndex (path : Path) : List Int := path.map (· - 1)

/-- The name part that a path stands for: its states with low lines between them. -/
def key (path : Path) : String := "_".intercalate (path.map toString)

/-- Walking through paths takes the states of every node, and only so many can be held. -/
def maxHeld : Nat := Nat.pow 2 36

/-- Checks that the states of every node can be counted and held. -/
def holdable (counts : List Int) : Except Fault Unit :=
  counts.forM fun count =>
    if Nat.pow 2 63 ≤ count.toNat then .error .rangeTooLarge
    else if maxHeld ≤ count.toNat then .error .outOfMemory
    else .ok ()

/-- What is computed by walking through all paths, which asks for the states of every node first. -/
def walking {β : Type} (counts : List Int) (compute : Unit → Except Fault β) : Except Fault β := do
  holdable counts
  compute ()

def rangeText (counts : List Int) : String := "Paths(" ++ Text.listText counts ++ ")"

end Path

/-- Any number of walks through the same paths, each with its own place. -/
structure Walks where
  counts : List Int
  /-- The rank of the next path of each walk. -/
  places : List Nat := []
deriving Repr

namespace Walks

def start (w : Walks) : Walks × Nat :=
  ({ w with places := w.places ++ [0] }, w.places.length)

/-- Starts a walk, provided that the states of every node can be held. -/
def begin (w : Walks) : Except Fault (Walks × Nat) := Path.walking w.counts fun _ => .ok w.start

/-- The paths of the ranks from `place` on, at most `limit` of them. -/
def stretch (counts : List Int) (place limit : Nat) : List Path :=
  (List.range' place (min limit (Path.number counts - place))).map (Path.ofRank counts)

/-- A limit on a number of paths: a count that is a position, or nothing for no limit. -/
def readLimit : Datum → Except Fault (Option Nat)
  | .null => .ok none
  | .bool b => .ok (some (if b then 1 else 0))
  | .int k =>
    if !Position.representable k || k == -1 then .error .limitKind
    else if k < 0 then .error .limitSign
    else .ok (some k.toNat)
  | _ => .error .limitKind

/-- The paths from the first one on, up to a limit. -/
def beginning (counts : List Int) (limit : Datum) : Except Fault (List Path) := do
  let limit ← readLimit limit
  Path.walking counts fun _ => .ok (stretch counts 0 (limit.getD (Path.number counts)))

/-- Takes further paths of one walk, up to a limit. -/
def advance (w : Walks) (walk : Int) (limit : Datum) : Except Fault (List Path × Walks) := do
  let place ← Position.pick .outsideList w.places walk
  let limit ← readLimit limit
  let found := stretch w.counts place (limit.getD (Path.number w.counts))
  let k := (Position.offset? w.places.length walk).getD 0
  return (found, { w with places := w.places.set k (place + found.length) })

end Walks

end InfluenceProgram
