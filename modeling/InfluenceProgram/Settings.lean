import InfluenceProgram.Datum.Conversion
import InfluenceProgram.Keyed
import InfluenceProgram.Scalar

/-!
Settings and their defaults: which cuts a model gets, what the solver is told, and how random
instances are made.
-/

namespace InfluenceProgram

/-- Values given by name; a name stands at most once. -/
abbrev Named := Keyed String Datum

namespace Named

/-- Refuses names that are not among the known ones. -/
def only (given : Named) (known : List String) : Except Fault Unit :=
  if given.keys.all known.contains then .ok () else .error .wrongType

/-- The value of a name, unless it is absent or nothing. -/
def find? (given : Named) (name : String) : Option Datum :=
  match given.get? name with
  | some .null => none
  | d => d

/-- Values given by position get the names in order; no name may be given twice. -/
def place (names : List String) (positional : List Datum) (given : Named) :
    Except Fault Named := do
  if names.length < positional.length then .error .wrongType
  else
    let placed := names.zip positional
    if placed.any fun (name, _) => (given.get? name).isSome then .error .wrongType
    else
      given.only names
      return placed ++ given

end Named

/-- Which lazy cuts a decision model gets. -/
structure Specs where
  /-- Whether the cut on the sum of the path probabilities is wanted. -/
  sumCut : Bool := false
  /-- The number of active paths that is enforced; zero for no such cut. -/
  pathCount : Nat := 0
deriving DecidableEq, Repr

namespace Specs

def parameterNames : List String := ["probability_sum_cut", "num_paths"]

def create (sumCut pathCount : Datum) : Except Fault Specs :=
  match sumCut, pathCount with
  | .bool b, .int k => if k < 0 then .error .pathCountSign else .ok ⟨b, k.toNat⟩
  | .bool _, _ => .error .pathCountKind
  | _, _ => .error .sumCutKind

def ofArguments (positional : List Datum) (given : Named) : Except Fault Specs := do
  let all ← Named.place parameterNames positional given
  create ((all.get? "probability_sum_cut").getD (.bool false))
    ((all.get? "num_paths").getD (.int 0))

def text (s : Specs) : String :=
  "Specs(probability_sum_cut=" ++ (Datum.bool s.sumCut).shown ++ ", num_paths=" ++
    toString s.pathCount ++ ")"

end Specs

/-- What the solver is told before a run. -/
structure SolverSettings where
  /-- Seconds; the default is a whole number. -/
  timeLimit : Datum
  /-- The relative gap at which a solution counts as optimal. -/
  mipGap : Float
  /-- Zero for all threads there are. -/
  threads : Int
  outputFlag : Int

namespace SolverSettings

/-- Settings by name; what is not given or nothing gets its default. -/
def ofArguments (given : Named) : Except Fault SolverSettings := do
  given.only ["time_limit", "mip_gap", "threads", "output_flag"]
  let timeLimit ← match given.find? "time_limit" with
    | some d => pure (Datum.real (← d.toReal))
    | none => pure (Datum.int 3600)
  let mipGap ← match given.find? "mip_gap" with
    | some d => d.toReal
    | none => pure (Scalar.decimal 1 4)
  let threads ← match given.find? "threads" with
    | some d => d.toInt
    | none => pure 0
  let outputFlag ← match given.find? "output_flag" with
    | some d => d.toInt
    | none => pure 1
  return { timeLimit, mipGap, threads, outputFlag }

/-- The settings by name, in the order of the names. -/
def toNamed (s : SolverSettings) : Named :=
  [("mip_gap", .real s.mipGap), ("output_flag", .int s.outputFlag), ("threads", .int s.threads),
    ("time_limit", s.timeLimit)]

end SolverSettings

/-- How random instances are made. -/
structure RandomSettings where
  seed : Int
  /-- The numbers of states to choose from. -/
  stateChoices : List Datum
  low : Float
  high : Float

namespace RandomSettings

def defaultChoices : List Datum := [.int 2, .int 3]

def defaultLow : Float := -1.0

def defaultHigh : Float := 1.0

/-- Settings by name; what is not given or nothing gets its default. -/
def ofArguments (given : Named) : Except Fault RandomSettings := do
  given.only ["seed", "state_choices", "low", "high"]
  let seed ← match given.find? "seed" with
    | some d => d.toInt
    | none => pure 0
  let stateChoices ← match given.find? "state_choices" with
    | some d => d.items
    | none => pure defaultChoices
  let low ← match given.find? "low" with
    | some d => d.toReal
    | none => pure defaultLow
  let high ← match given.find? "high" with
    | some d => d.toReal
    | none => pure defaultHigh
  return { seed, stateChoices, low, high }

/-- The settings by name, in the order of the names. -/
def toNamed (s : RandomSettings) : Named :=
  [("high", .real s.high), ("low", .real s.low), ("seed", .int s.seed),
    ("state_choices", .list s.stateChoices)]

end RandomSettings

end InfluenceProgram
