/-!
# RouteScribe.Unicode.Space

White space of all scripts (the Unicode property `White_Space`), and trimming by it.
-/

namespace RouteScribe
namespace Unicode

/-- The property `White_Space`. -/
def isSpace (c : Char) : Bool :=
  let n := c.toNat
  (0x9 ≤ n && n ≤ 0xD) || n == 0x20 || n == 0x85 || n == 0xA0 || n == 0x1680
    || (0x2000 ≤ n && n ≤ 0x200A) || n == 0x2028 || n == 0x2029 || n == 0x202F || n == 0x205F
    || n == 0x3000

def trimStartChars (cs : List Char) : List Char := cs.dropWhile isSpace

def trimEndChars (cs : List Char) : List Char := (cs.reverse.dropWhile isSpace).reverse

def trimChars (cs : List Char) : List Char := trimEndChars (trimStartChars cs)

/-- The text without white space at either end. -/
def trim (s : String) : String := String.ofList (trimChars s.toList)

def trimStart (s : String) : String := String.ofList (trimStartChars s.toList)

def trimEnd (s : String) : String := String.ofList (trimEndChars s.toList)

def isBlank (s : String) : Bool := s.toList.all isSpace

/-- The maximal runs of characters other than white space. -/
def wordsAux : List Char → List Char → List String
  | acc, [] => if acc.isEmpty then [] else [String.ofList acc.reverse]
  | acc, c :: cs =>
    if isSpace c then
      if acc.isEmpty then wordsAux [] cs else String.ofList acc.reverse :: wordsAux [] cs
    else wordsAux (c :: acc) cs

def words (s : String) : List String := wordsAux [] s.toList

end Unicode
end RouteScribe
