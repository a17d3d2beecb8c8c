/-!
Lines of a text. A line ends at any of the characters that break a line, not only at a line feed.
-/

namespace InfluenceProgram.Text

/-- Characters that end a line: five controls, three separators, and the two line ends of prose. -/
def endsLine (c : Char) : Bool :=
  [10, 11, 12, 13, 28, 29, 30, 133, 8232, 8233].contains c.toNat

/-- A text from its end on, without one line end there; a return and a line feed are one. -/
def withoutLineEnd : List Char → List Char
  | '\n' :: '\r' :: rest => rest
  | c :: rest => if endsLine c then rest else c :: rest
  | [] => []

/-- The last line of a text; a line end at the very end does not start another one. -/
def lastLine (s : String) : String :=
  String.ofList ((withoutLineEnd s.toList.reverse).takeWhile fun c => !endsLine c).reverse

end InfluenceProgram.Text
