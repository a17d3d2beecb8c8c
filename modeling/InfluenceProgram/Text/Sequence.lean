/-!
Lists and tuples of shown items. A tuple of one item keeps a comma behind it, so that it differs
from the item in brackets.
-/

namespace InfluenceProgram.Text

def commaSeparated (items : List String) : String := ", ".intercalate items

def bracketed (items : List String) : String := "[" ++ commaSeparated items ++ "]"

def tupled : List String → String
  | [item] => "(" ++ item ++ ",)"
  | items => "(" ++ commaSeparated items ++ ")"

def listText (xs : List Int) : String := bracketed (xs.map toString)

def tupleText (xs : List Int) : String := tupled (xs.map toString)

def shapeText (xs : List Nat) : String := tupled (xs.map toString)

def arcText (a : Int × Int) : String := tupled [toString a.1, toString a.2]

end InfluenceProgram.Text
