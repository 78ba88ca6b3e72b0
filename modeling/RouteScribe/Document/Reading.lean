/-!
# RouteScribe.Document.Reading

How a reader of YAML takes a text without quotes. A text that it would take for something else, a
number for instance, needs quotes.
-/

namespace RouteScribe
namespace Document

/-- The text stands for the absence of a value. -/
def isNullWord (s : String) : Bool := s = "" || s = "null" || s = "Null" || s = "NULL" || s = "~"

/-- The text stands for a truth value. -/
def isBoolWord (s : String) : Bool :=
  s = "true" || s = "True" || s = "TRUE" || s = "false" || s = "False" || s = "FALSE"

/-- The characters without one `c` in front. -/
def dropOne (c : Char) (cs : List Char) : List Char := if cs.head? = some c then cs.tail else cs

/-- The value of a digit below `base`; letters stand for digits from ten on. -/
def digit? (base : Nat) (c : Char) : Option Nat :=
  let n :=
    if c.isDigit then c.toNat - '0'.toNat
    else if 'a' ≤ c && c ≤ 'z' then c.toNat - 'a'.toNat + 10
    else if 'A' ≤ c && c ≤ 'Z' then c.toNat - 'A'.toNat + 10
    else base
  if n < base then some n else none

/-- The number that digits stand for; there has to be one. -/
def natural? (base : Nat) (cs : List Char) : Option Nat :=
  if cs = [] then none
  else cs.foldl (fun n c => n.bind fun n => (digit? base c).map (n * base + ·)) (some 0)

/-- A number in base 16, 8 or 2 with its mark in front. -/
def basedNatural? : List Char → Option Nat
  | '0' :: 'x' :: cs => natural? 16 cs
  | '0' :: 'o' :: cs => natural? 8 cs
  | '0' :: 'b' :: cs => natural? 2 cs
  | _ => none

/-- An integer with a mark for its base that a reader can hold. -/
def isBasedInteger (cs : List Char) : Bool :=
  (basedNatural? (dropOne '+' cs)).any (· < Nat.pow 2 128)
    || (cs.head? = some '-' && (basedNatural? cs.tail).any (· ≤ Nat.pow 2 127))

/-- Digits in front, and the rest. -/
def spanDigits (cs : List Char) : List Char × List Char :=
  (cs.takeWhile Char.isDigit, cs.dropWhile Char.isDigit)

/-- A decimal exponent; none if the text is no exponent, and zero if it is empty. -/
def exponent? : List Char → Option Int
  | [] => some 0
  | e :: cs =>
    if e = 'e' || e = 'E' then
      match cs with
      | '-' :: ds => (natural? 10 ds).map fun n => -(n : Int)
      | '+' :: ds => (natural? 10 ds).map fun n => (n : Int)
      | ds => (natural? 10 ds).map fun n => (n : Int)
    else none

/-- A decimal number without sign: its digits as an integer, and the exponent of ten. -/
def decimal? (cs : List Char) : Option (Nat × Int) :=
  let (whole, rest) := spanDigits cs
  let (fraction, rest) :=
    match rest with
    | '.' :: rest => spanDigits rest
    | _ => ([], rest)
  match natural? 10 (whole ++ fraction), exponent? rest with
  | some m, some e => some (m, e - fraction.length)
  | _, _ => none

def digitCount (n : Nat) : Nat := (Nat.toDigits 10 n).length

/-- The smallest integer that the nearest floating-point number of 64 bits no longer holds. -/
def floatLimit : Nat := Nat.pow 2 1024 - Nat.pow 2 970

/-- The number `m` · 10 ^ `e` is finite as a floating-point number of 64 bits. The number of its
digits decides, except on the border. -/
def isFinite (m : Nat) (e : Int) : Bool :=
  let top := (digitCount m : Int) + e
  if m = 0 || top < 309 then true
  else if 309 < top then false
  else if 0 ≤ e then m * Nat.pow 10 e.toNat < floatLimit
  else m < floatLimit * Nat.pow 10 (-e).toNat

/-- A decimal number that a reader can hold, or the words for infinity and for no number. -/
def isFloat (cs : List Char) : Bool :=
  let s := String.ofList cs
  let positive := dropOne '+' cs
  let p := String.ofList positive
  if s = ".nan" || s = ".NaN" || s = ".NAN" then true
  else if p = ".inf" || p = ".Inf" || p = ".INF" then true
  else if s = "-.inf" || s = "-.Inf" || s = "-.INF" then true
  else
    let unsigned := if cs.head? = some '-' then cs.tail else positive
    (decimal? unsigned).any fun d => isFinite d.1 d.2

/-- Digits behind a zero. They are a text, but look so much like a number that they get quotes. -/
def isPadded (cs : List Char) : Bool :=
  let digits := if cs.head? = some '-' then cs.tail else dropOne '+' cs
  1 < digits.length && digits.head? = some '0' && digits.all Char.isDigit

/-- A reader takes the text for something else than a text, or might do so. -/
def isAmbiguous (s : String) : Bool :=
  isNullWord s || isBoolWord s || isPadded s.toList || isBasedInteger s.toList || isFloat s.toList

end Document
end RouteScribe
