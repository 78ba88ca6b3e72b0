/-!
# RouteScribe.Text.Lines

The lines of a text. A line ends at a line feed, or at a carriage return and a line feed; what
follows the last line end is a line only if it is not empty.
-/

namespace RouteScribe
namespace Text

/-- The pieces of `cs` between characters that satisfy `f`; one more than there are such. -/
def splitChars (f : Char → Bool) : List Char → List (List Char)
  | [] => [[]]
  | c :: cs =>
    if f c then [] :: splitChars f cs
    else
      match splitChars f cs with
      | [] => [[c]]
      | l :: ls => (c :: l) :: ls

/-- The pieces of a text between occurrences of the character `c`. -/
def split (c : Char) (s : String) : List String :=
  (splitChars (· == c) s.toList).map String.ofList

/-- A line without the carriage return at its end. -/
def dropReturn (cs : List Char) : List Char :=
  if cs.getLast? = some '\r' then cs.dropLast else cs

/-- Lines of a list of characters. -/
def linesChars (cs : List Char) : List (List Char) :=
  let all := splitChars (· == '\n') cs
  let whole := if all.getLast? = some [] then all.dropLast else all
  whole.map dropReturn

/-- The lines of a text. -/
def lines (s : String) : List String := (linesChars s.toList).map String.ofList

/-- The text behind `p`, if it begins so. -/
def dropFront? (p s : String) : Option String :=
  if p.toList.isPrefixOf s.toList then some (String.ofList (s.toList.drop p.toList.length))
  else none

/-- The text before `p`, if it ends so. -/
def dropBack? (p s : String) : Option String :=
  if p.toList.isSuffixOf s.toList then
    some (String.ofList (s.toList.take (s.toList.length - p.toList.length)))
  else none

end Text
end RouteScribe
