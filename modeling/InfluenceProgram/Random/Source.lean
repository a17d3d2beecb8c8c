import InfluenceProgram.Datum.Conversion
import InfluenceProgram.Random.Experiment

/-!
A source of random words: words laid down in advance, then those of a generator that adds a
constant to its state and mixes the bits of the sum. An experiment run on a source takes words one
by one; every kind of draw says how many it takes and what it makes of them. What is laid down is
looked at when its turn comes: if it is no integer the draw fails, and it has been taken.
-/

namespace InfluenceProgram

structure Source where
  /-- What comes before the words of the generator, as it was laid down. -/
  queued : List Datum := []
  state : UInt64
  /-- How many words have been taken. -/
  used : Nat := 0
deriving Repr

/-- Takes words from a source, and may come upon something that is no word. -/
abbrev Draw (β : Type) := ExceptT Fault (StateM Source) β

namespace Source

def word (n : Int) : UInt64 := UInt64.ofNat (n % 18446744073709551616).toNat

def ofSeed (seed : Int) (queued : List Datum) : Source := { queued, state := word seed }

def mixed (z : UInt64) : UInt64 :=
  let z := (z ^^^ (z >>> 30)) * 0xBF58476D1CE4E5B9
  let z := (z ^^^ (z >>> 27)) * 0x94D049BB133111EB
  z ^^^ (z >>> 31)

end Source

namespace Draw

open Source

/-- The next word. -/
def next : Draw UInt64 := do
  let s ← get
  match s.queued with
  | d :: rest =>
    set { s with queued := rest, used := s.used + 1 }
    return word (← d.position)
  | [] =>
    let state := s.state + 0x9E3779B97F4A7C15
    set { s with state, used := s.used + 1 }
    return mixed state

def below (bound : Nat) : Draw Nat := do return (← next).toNat % bound

def exchange {β : Type} (a : Array β) (i j : Nat) : Array β := a.swapIfInBounds i j

/-- Shuffles the first `k + 1` items: from the last on, each changes places with one before it. -/
def shuffleFirst {β : Type} : Nat → Array β → Draw (Array β)
  | 0, a => return a
  | k + 1, a => do
    let j ← below (k + 2)
    shuffleFirst k (exchange a (k + 1) j)

def shuffled (items : List Int) : Draw (List Int) := do
  return (← shuffleFirst (items.length - 1) items.toArray).toList

/-- So many reals, each from the upper 53 bits of a word. -/
def uniforms : Nat → Draw (List Float)
  | 0 => return []
  | k + 1 => do
    let w ← next
    let x := (w >>> 11).toFloat * Binary64.ofRatio false 1 9007199254740992
    return x :: (← uniforms k)

/-- Fills the places from `i` on with items from behind, one word for each place. -/
def sampleFrom (pool : Nat) : (left i : Nat) → Array Nat → Draw (Array Nat)
  | 0, _, a => return a
  | left + 1, i, a => do
    let j ← below (pool - i)
    sampleFrom pool left (i + 1) (exchange a i (i + j))

def sampled (pool size : Nat) : Draw (List Nat) := do
  return (← sampleFrom pool size 0 (List.range pool).toArray).toList.take size

end Draw

namespace Experiment

/-- Runs an experiment on a source. -/
def run {β : Type} : Experiment Float β → Draw β
  | done result => return result
  | failed fault => throw fault
  | integer low high next => do
    if low < high then
      let k ← Draw.below (high - low).toNat
      (next (low + k)).run
    else throw .emptyRange
  | word next => do
    let w ← Draw.next
    (next w.toNat).run
  | shuffle items next => do
    let shuffled ← Draw.shuffled items
    (next shuffled).run
  | uniforms count next => do
    let xs ← Draw.uniforms count
    (next xs).run
  | sample pool size next => do
    let chosen ← Draw.sampled pool size
    (next chosen).run

/-- The result of an experiment on a source, and what is left of the source. -/
def runOn {β : Type} (e : Experiment Float β) (s : Source) : Except Fault β × Source := e.run s

end Experiment

end InfluenceProgram
