import InfluenceProgram.Datum.Conversion

/-!
The arguments of the command line. A flag may be cut short as long as it stays the only one that
starts so, and its value may follow an equals sign. What is neither a flag nor the value of one is
collected and refused in the end.
-/

namespace InfluenceProgram.CommandLine

open Text

inductive Flag where
  | help
  | chance
  | decision
  | value
  | infoLimit
  | seed
  | states
  | probabilitySumCut
  | numPaths
  | timeLimit
  | mipGap
  | quiet
deriving DecidableEq, Repr

def spellings : List (String × Flag) :=
  [("-h", .help), ("--help", .help), ("--chance", .chance), ("--decision", .decision),
    ("--value", .value), ("--info-limit", .infoLimit), ("--seed", .seed), ("--states", .states),
    ("--probability-sum-cut", .probabilitySumCut), ("--num-paths", .numPaths),
    ("--time-limit", .timeLimit), ("--mip-gap", .mipGap), ("--quiet", .quiet)]

def Flag.title (f : Flag) : String :=
  "/".intercalate ((spellings.filter (·.2 == f)).map (·.1))

/-- What follows a flag. -/
inductive Arity where
  | nothing
  | one
  | several
deriving DecidableEq, Repr

def Flag.arity : Flag → Arity
  | help | probabilitySumCut | quiet => .nothing
  | states => .several
  | _ => .one

/-- What the flags say. A value is a number, or an empty list where none of its texts counts. -/
structure Options where
  chance : Datum := .int 3
  decision : Datum := .int 2
  value : Datum := .int 1
  infoLimit : Datum := .int 2
  seed : Datum := .null
  states : Datum := .null
  probabilitySumCut : Bool := false
  numPaths : Datum := .int 0
  timeLimit : Datum := .null
  mipGap : Datum := .null
  quiet : Bool := false

/-- Why reading the arguments ends before a run. -/
inductive Stop where
  | helpAsked
  | misuse (message : String)

/-- One argument by its looks. -/
inductive Word where
  /-- A value, or something that has no place. -/
  | plain (text : String)
  /-- What follows two dashes is never a flag. -/
  | dashes
  | unknown (text : String)
  /-- A flag, whether its spelling is a single letter, and what stands in one argument with it. -/
  | flag (flag : Flag) (short : Bool) (attached : Option String)

namespace Word

def isPlain : Word → Bool
  | plain _ => true
  | _ => false

def text : Word → String
  | plain t => t
  | dashes => "--"
  | unknown t => t
  | flag f _ _ => f.title

end Word

/-- Whether a character is a decimal digit of some script. -/
def isDigit (c : Char) : Bool := (digitValue? c).isSome

/-- A minus sign with digits behind it, a point among or before them; one line end may follow. -/
def looksNegative : List Char → Bool
  | '-' :: cs =>
    let cs := if cs.getLast? == some '\n' then cs.dropLast else cs
    match cs.dropWhile isDigit with
    | [] => !cs.isEmpty
    | '.' :: rest => !rest.isEmpty && rest.all isDigit
    | _ => false
  | _ => false

/-- The text up to the first equals sign and the text behind it. -/
def splitAtEquals (cs : List Char) : List Char × Option (List Char) :=
  match cs.dropWhile (· != '=') with
  | _ :: rest => (cs.takeWhile (· != '='), some rest)
  | [] => (cs, none)

def isShort (spelling : String) : Bool := spelling.length == 2

/-- The flags that an argument may be short for, each with what is attached to it. -/
def candidates (cs : List Char) : List (String × Flag × Option String) :=
  match cs with
  | '-' :: '-' :: _ =>
    let (front, attached) := splitAtEquals cs
    (spellings.filter fun s => front.isPrefixOf s.1.toList).map fun (spelling, f) =>
      (spelling, f, attached.map String.ofList)
  | _ =>
    spellings.filterMap fun (spelling, f) =>
      if spelling.toList == cs.take 2 then some (spelling, f, some (String.ofList (cs.drop 2)))
      else if cs.isPrefixOf spelling.toList then some (spelling, f, none)
      else none

/-- The flag with exactly the spelling in front of an equals sign. -/
def exactWithValue? (cs : List Char) : Option Word :=
  match splitAtEquals cs with
  | (front, some value) =>
    (spellings.find? (·.1.toList == front)).map fun (spelling, f) =>
      .flag f (isShort spelling) (some (String.ofList value))
  | (_, none) => none

/-- Tells what one argument looks like. -/
def classify (arg : String) : Except Stop Word :=
  let cs := arg.toList
  match cs with
  | '-' :: _ :: _ =>
    match spellings.find? (·.1 == arg) with
    | some (spelling, f) => .ok (.flag f (isShort spelling) none)
    | none =>
      match exactWithValue? cs with
      | some word => .ok word
      | none =>
        match candidates cs with
        | [(spelling, f, attached)] => .ok (.flag f (isShort spelling) attached)
        | [] =>
          if looksNegative cs || cs.contains ' ' then .ok (.plain arg) else .ok (.unknown arg)
        | several =>
          .error (.misuse ("ambiguous option: " ++ arg ++ " could match " ++
            ", ".intercalate (several.map (·.1))))
  | _ => .ok (.plain arg)

/-- Tells what the arguments look like, from left to right. -/
def classifyAll : List String → Except Stop (List Word)
  | [] => .ok []
  | arg :: rest =>
    if arg == "--" then .ok (.dashes :: rest.map .plain)
    else do
      let word ← classify arg
      return word :: (← classifyAll rest)

def misuse {β : Type} (f : Flag) (message : String) : Except Stop β :=
  .error (.misuse ("argument " ++ f.title ++ ": " ++ message))

def readInteger (f : Flag) (text : String) : Except Stop Datum :=
  match (Datum.text text).toInt with
  | .ok n => .ok (.int n)
  | .error _ => misuse f ("invalid int value: " ++ quoted text)

def readReal (f : Flag) (text : String) : Except Stop Datum :=
  match (Datum.text text).toReal with
  | .ok x => .ok (.real x)
  | .error _ => misuse f ("invalid float value: " ++ quoted text)

def readValue (f : Flag) (text : String) : Except Stop Datum :=
  match f with
  | .timeLimit | .mipGap => readReal f text
  | _ => readInteger f text

/-- The options after a flag with its value. -/
def setValue (o : Options) (f : Flag) (value : Datum) : Options :=
  match f with
  | .chance => { o with chance := value }
  | .decision => { o with decision := value }
  | .value => { o with value }
  | .infoLimit => { o with infoLimit := value }
  | .seed => { o with seed := value }
  | .states => { o with states := value }
  | .numPaths => { o with numPaths := value }
  | .timeLimit => { o with timeLimit := value }
  | .mipGap => { o with mipGap := value }
  | .help | .probabilitySumCut | .quiet => o

def setSwitch (o : Options) : Flag → Except Stop Options
  | .probabilitySumCut => .ok { o with probabilitySumCut := true }
  | .quiet => .ok { o with quiet := true }
  | .help => .error .helpAsked
  | _ => .ok o

def ignored {β : Type} (f : Flag) (cs : List Char) : Except Stop β :=
  misuse f ("ignored explicit argument " ++ quoted (String.ofList cs))

/--
What is attached to the letter of the help flag. Letters of short flags may follow each other, and
there is no other such letter; from the first character on that is none the rest is refused.
-/
def readLetters {β : Type} (f : Flag) : List Char → Except Stop β
  | ['h'] => .error .helpAsked
  | 'h' :: cs => readLetters f cs
  | cs => ignored f cs

/--
The options after a flag with something attached to it. Two dashes count nowhere among the values of
a flag, so with nothing else attached there is no value.
-/
def setAttached (o : Options) (f : Flag) (short : Bool) (text : String) : Except Stop Options := do
  match f.arity with
  | .nothing => if short then readLetters f text.toList else ignored f text.toList
  | arity =>
    if text == "--" then return setValue o f (.list [])
    else
      let value ← readValue f text
      return setValue o f (if arity == .several then .list [value] else value)

/-- Reads words from left to right; the second part of the result has no place. -/
def consume (o : Options) (extras : List String) : List Word → Except Stop (Options × List String)
  | [] => .ok (o, extras)
  | .flag f short (some text) :: rest => do
    consume (← setAttached o f short text) extras rest
  | .flag f _ none :: rest =>
    match f.arity with
    | .nothing => do consume (← setSwitch o f) extras rest
    | .one =>
      match rest with
      | .plain text :: rest => do consume (setValue o f (← readValue f text)) extras rest
      | _ => misuse f "expected one argument"
    | .several =>
      if (rest.takeWhile Word.isPlain).isEmpty then misuse f "expected at least one argument"
      else do
        let values ← (rest.takeWhile Word.isPlain).mapM fun word => readValue f word.text
        consume (setValue o f (.list values)) extras (rest.dropWhile Word.isPlain)
  | word :: rest => consume o (extras ++ [word.text]) rest
termination_by words => words.length
decreasing_by
  all_goals simp only [List.length_cons]
  all_goals
    first
    | omega
    | exact Nat.lt_succ_of_le (List.dropWhile_sublist _).length_le

def parse (args : List String) : Except Stop Options := do
  let (options, extras) ← consume {} [] (← classifyAll args)
  if extras.isEmpty then return options
  else .error (.misuse ("unrecognized arguments: " ++ " ".intercalate extras))

end InfluenceProgram.CommandLine
