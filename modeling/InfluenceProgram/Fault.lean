import InfluenceProgram.Datum
import InfluenceProgram.Decimal.Bytes

/-!
Everything that can go wrong, by cause. `Fault.message` is the only place that words a fault.
-/

namespace InfluenceProgram

/--
What keeps node lists, arcs and state counts from being a layered diagram. Nodes are named as they
were given, since some of them may be no numbers.
-/
inductive LayoutDefect where
  | overlap (nodes : List Datum)
  | union (last : Int) (nodes : List Datum)
  | values (first last : Int) (nodes : List Datum)
  | arcRange (arc : Int × Int) (last : Int)
  | arcFromValue (arc : Int × Int)
  | countsLength (expected got : Nat)
  | countKind (node : Int) (shown : String)
  | countLow (node count : Int)
deriving DecidableEq, Repr

/-- What is wrong with the table of one node. -/
inductive TableDefect where
  | notChance
  | notValue
  | probabilitiesMissing
  | utilitiesMissing
  | notNumeric
  | probabilityShape (expected got : List Nat)
  | utilityShape (expected got : List Nat)
  | probabilityNotFinite
  | utilityNotFinite
  | negative
  | total (shown : String) (context : List Int)
deriving DecidableEq, Repr

/-- Arguments outside the domain of a generator or of a risk measure. -/
inductive DomainViolation where
  | chanceCount
  | decisionCount
  | nodeCount
  | valueCount
  | informationLimit
  | stateChoices
  | inactiveCount
  | utilityRange
  | riskLevel
deriving DecidableEq, Repr

inductive Fault where
  | layout (defect : LayoutDefect)
  | table (node : Datum) (defect : TableDefect)
  | domain (violation : DomainViolation)
  /-- The switch of the probability sum cut is not a truth value. -/
  | sumCutKind
  | pathCountKind
  | pathCountSign
  /-- A text that is no integer. -/
  | notInteger (text : String)
  /-- A text among texts laid out in one array that is no integer. -/
  | notIntegerItem (text : String)
  /-- A text with more digits than an integer is read from. -/
  | tooManyDigits (got : Nat)
  /-- A text that is no real number. -/
  | notReal (text : String)
  | integerOfNothing
  | integerOfInfinity
  | realTooLarge
  /-- A text where a number is to be laid out. -/
  | textAsNumber
  | wrongType
  /-- Less than two items where a pair is taken apart. -/
  | pairTooShort (got : Nat)
  | pairTooLong
  | negativeLength
  | lengthTooLarge
  | positionTooLarge
  | outsideTuple
  | outsideText
  | outsideList
  /-- An integer beyond the 64-bit words with a sign. -/
  | wordTooLarge
  /-- An integer beyond the 32-bit words with a sign. -/
  | halfWordTooLarge
  /-- A range with more items than can be counted. -/
  | rangeTooLarge
  /-- A range with more items than can be held. -/
  | outOfMemory
  /-- A span without end. -/
  | endlessSpan
  /-- A span whose end is no number. -/
  | spanOfNothing
  /-- A table with an axis that is no 64-bit word with a sign. -/
  | axisTooLong
  /-- A table with more bytes than can be counted. -/
  | tableTooLarge
  /-- A table with more entries than can be held; they are real or whole. -/
  | noRoom (real : Bool) (axes : List Nat)
  /-- A table with more axes than tables have. -/
  | tooManyAxes (got : Nat)
  /-- An index that is neither an integer nor an array of integers. -/
  | indexKind
  | tooManyIndices (axes given : Nat)
  | outsideAxis (index : Int) (axis size : Nat)
  /-- Nested lists of different lengths; the axes are those up to the first difference. -/
  | ragged (axes : List Nat)
  /-- Lists nested more deeply than a table has axes. -/
  | nestedTooDeeply
  /-- A text is to be taken from the numbers of a table. -/
  | textFromTable
  /-- Two tables whose axes do not fit over each other. -/
  | axesApart (left right : List Nat)
  /-- A row of so many numbers is to be multiplied by columns of another length. -/
  | columnLength (got expected : Nat)
  /-- A limit on a number of paths that is no count. -/
  | limitKind
  /-- A limit on a number of paths below minus one. -/
  | limitSign
  /-- A name that is no text. -/
  | nameKind
  /-- Something that is no record is asked for its fields. -/
  | fieldsExpected
  | missingKey (key : Datum)
  | emptyRange
  | negativeSeed
  | diagramExpected
  | parametersExpected
  | solverRefusal
  | abstractCut
deriving DecidableEq, Repr

open Text

def LayoutDefect.message : LayoutDefect → String
  | overlap nodes =>
    "Chance and decision nodes should be disjoint, both contain " ++ (Datum.list nodes).shown ++ "."
  | union last nodes =>
    "Union of chance and decision nodes should be \x7b1,...," ++ toString last ++ "\x7d, got " ++
      (Datum.list nodes).shown ++ "."
  | values first last nodes =>
    "Value nodes should be \x7b" ++ toString first ++ ",...," ++ toString last ++ "\x7d, got " ++
      (Datum.list nodes).shown ++ "."
  | arcRange arc last => "Arc " ++ arcText arc ++ " violates 1 <= i < j <= " ++ toString last ++ "."
  | arcFromValue arc =>
    "Arc " ++ arcText arc ++ " starts from value node " ++ toString arc.1 ++
      "; value nodes have no outgoing arcs."
  | countsLength expected got =>
    "Each chance and decision node should have states: expected " ++ toString expected ++
      " state counts, got " ++ toString got ++ "."
  | countKind node shown =>
    "Node " ++ toString node ++ " should have an integer number of states, got " ++ shown ++ "."
  | countLow node count =>
    "Node " ++ toString node ++ " should have at least one state, got " ++ toString count ++ "."

def TableDefect.message : TableDefect → String
  | notChance => "probabilities are given but the node is not a chance node."
  | notValue => "utilities are given but the node is not a value node."
  | probabilitiesMissing => "probabilities are missing."
  | utilitiesMissing => "utilities are missing."
  | notNumeric => "values are not numeric"
  | probabilityShape expected got =>
    "probability array should be dimension |S_I(j)|*|S_j| = " ++ shapeText expected ++ ", got " ++
      shapeText got ++ "."
  | utilityShape expected got =>
    "utility array should be dimension |S_I(j)| = " ++ shapeText expected ++ ", got " ++
      shapeText got ++ "."
  | probabilityNotFinite => "probabilities should be finite."
  | utilityNotFinite => "utilities should be finite."
  | negative => "probabilities should be non-negative."
  | total shown context =>
    "probabilities should sum to one, got " ++ shown ++ " for information state " ++
      tupleText context ++ "."

def DomainViolation.message : DomainViolation → String
  | chanceCount => "There should be >= 0 chance nodes."
  | decisionCount => "There should be >= 0 decision nodes."
  | nodeCount => "There should be at least one chance or decision node."
  | valueCount => "There should be >= 1 value nodes."
  | informationLimit => "Information set should be size >= 1."
  | stateChoices => "State choices should be positive integers."
  | inactiveCount => "Number of inactive states must be <= prod(S_I(j)) * (S_j - 1)."
  | utilityRange => "high should be greater than low."
  | riskLevel => "alpha should be in (0, 1]."

/-- A text that is no integer is shown up to so many characters. -/
def shownCharacters : Nat := 200

def notIntegerText (shown : String) : String :=
  "invalid literal for int() with base 10: " ++ String.ofList (shown.toList.take shownCharacters)

/-- Tables have at most so many axes. -/
def maxAxes : Nat := 64

def axesText : List Nat → String
  | [n] => "(" ++ toString n ++ ",)"
  | ns => "(" ++ ",".intercalate (ns.map toString) ++ ")"

def Fault.message : Fault → String
  | layout defect => defect.message
  | table node defect => "Node " ++ node.keyPlain ++ ": " ++ defect.message
  | domain violation => violation.message
  | sumCutKind => "probability_sum_cut should be a bool."
  | pathCountKind => "num_paths should be an integer."
  | pathCountSign => "num_paths should be >= 0."
  | notInteger text => notIntegerText (quoted text)
  | notIntegerItem text => notIntegerText ("np.str_(" ++ quoted text ++ ")")
  | tooManyDigits got =>
    "Exceeds the limit (4300 digits) for integer string conversion: value has " ++ toString got ++
      " digits; use sys.set_int_max_str_digits() to increase the limit"
  | notReal text => "could not convert string to float: " ++ quoted text
  | integerOfNothing => "cannot convert float NaN to integer"
  | integerOfInfinity => "cannot convert float infinity to integer"
  | realTooLarge => "int too large to convert to float"
  | textAsNumber => "Unknown format code 'f' for object of type 'str'"
  | wrongType => "wrong type"
  | pairTooShort got => "not enough values to unpack (expected 2, got " ++ toString got ++ ")"
  | pairTooLong => "too many values to unpack (expected 2)"
  | negativeLength => "__len__() should return >= 0"
  | lengthTooLarge => "cannot fit 'int' into an index-sized integer"
  | positionTooLarge => "cannot fit 'int' into an index-sized integer"
  | outsideTuple => "tuple index out of range"
  | outsideText => "string index out of range"
  | outsideList => "list index out of range"
  | wordTooLarge => "Python int too large to convert to C long"
  | halfWordTooLarge => "value too large to convert to int"
  | rangeTooLarge => "Python int too large to convert to C ssize_t"
  | outOfMemory => ""
  | endlessSpan => "Maximum allowed size exceeded"
  | spanOfNothing => "arange: cannot compute length"
  | axisTooLong => "Maximum allowed dimension exceeded"
  | tableTooLarge =>
    "array is too big; `arr.size * arr.dtype.itemsize` is larger than the maximum possible size."
  | noRoom real axes =>
    "Unable to allocate " ++ Decimal.bytesText (8 * axes.foldl (· * ·) 1) ++
      " for an array with shape " ++ shapeText axes ++ " and data type " ++
      (if real then "float64" else "int64")
  | tooManyAxes got =>
    "maximum supported dimension for an ndarray is currently " ++ toString maxAxes ++
      ", found " ++ toString got
  | indexKind =>
    "only integers, slices (`:`), ellipsis (`...`), numpy.newaxis (`None`) and integer or " ++
      "boolean arrays are valid indices"
  | tooManyIndices axes given =>
    "too many indices for array: array is " ++ toString axes ++ "-dimensional, but " ++
      toString given ++ " were indexed"
  | outsideAxis index axis size =>
    "index " ++ toString index ++ " is out of bounds for axis " ++ toString axis ++ " with size " ++
      toString size
  | ragged axes =>
    "setting an array element with a sequence. The requested array has an inhomogeneous shape " ++
      "after " ++ toString axes.length ++ " dimensions. The detected shape was " ++
      shapeText axes ++ " + inhomogeneous part."
  | nestedTooDeeply =>
    "setting an array element with a sequence. The requested array would exceed the maximum " ++
      "number of dimension of " ++ toString maxAxes ++ "."
  | textFromTable => "a text cannot be taken from a table"
  | axesApart left right =>
    "operands could not be broadcast together with shapes " ++ axesText left ++ " " ++
      axesText right ++ " "
  | columnLength got expected =>
    "matmul: Input operand 1 has a mismatch in its core dimension 0, with gufunc signature " ++
      "(n?,k),(k,m?)->(n?,m?) (size " ++ toString got ++ " is different from " ++
      toString expected ++ ")"
  | limitKind =>
    "Stop argument for islice() must be None or an integer: 0 <= x <= sys.maxsize."
  | limitSign => "Indices for islice() must be None or an integer: 0 <= x <= sys.maxsize."
  | nameKind => "a name is a text"
  | fieldsExpected => "only a record has fields"
  | missingKey key => key.keyShown
  | emptyRange => "low >= high"
  | negativeSeed => "expected non-negative integer"
  | diagramExpected => "diagram should be an InfluenceDiagram."
  | parametersExpected => "params should be ModelParameters."
  | solverRefusal => "refused by the solver"
  | abstractCut => ""

end InfluenceProgram
