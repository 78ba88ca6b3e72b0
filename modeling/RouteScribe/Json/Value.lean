/-!
# RouteScribe.Json.Value

JSON values and how they are read. Only what settings need is kept of a value; numbers are checked
but not kept. An escape may name half of a surrogate pair; such a string stands for no text, which
does not matter unless somebody asks for the text.
-/

namespace RouteScribe
namespace Json

inductive Value where
  | null
  | bool (b : Bool)
  | number
  /-- A string, with its text if it stands for one. -/
  | string (s : Option String)
  | array (vs : List Value)
  /-- An object, with its rows in the order in which they are written. -/
  | object (rows : List (Option String × Value))
  deriving Inhabited

/-- White space between tokens. -/
def isGap (c : Char) : Bool := c = ' ' || c = '\n' || c = '\t' || c = '\r'

/-- The characters behind white space. -/
def skipGap (cs : List Char) : List Char := cs.dropWhile isGap

def hexDigit? (c : Char) : Option Nat :=
  if c.isDigit then some (c.toNat - '0'.toNat)
  else if 'a' ≤ c && c ≤ 'f' then some (c.toNat - 'a'.toNat + 10)
  else if 'A' ≤ c && c ≤ 'F' then some (c.toNat - 'A'.toNat + 10)
  else none

def hex? (a b c d : Char) : Option Nat :=
  match hexDigit? a, hexDigit? b, hexDigit? c, hexDigit? d with
  | some a, some b, some c, some d => some (((a * 16 + b) * 16 + c) * 16 + d)
  | _, _, _, _ => none

/-- The character that a backslash and a letter stand for. -/
def simpleEscape? (c : Char) : Option Char :=
  if c = '"' || c = '\\' || c = '/' then some c
  else if c = 'b' then some '\x08'
  else if c = 'f' then some '\x0c'
  else if c = 'n' then some '\n'
  else if c = 'r' then some '\r'
  else if c = 't' then some '\t'
  else none

/-- The units of a string behind its quote, and what follows the string. -/
def units? : List Char → Option (List Nat × List Char)
  | [] => none
  | '"' :: cs => some ([], cs)
  | '\\' :: 'u' :: a :: b :: c :: d :: cs =>
    match hex? a b c d, units? cs with
    | some n, some (ns, rest) => some (n :: ns, rest)
    | _, _ => none
  | '\\' :: c :: cs =>
    match simpleEscape? c, units? cs with
    | some e, some (ns, rest) => some (e.toNat :: ns, rest)
    | _, _ => none
  | c :: cs =>
    if c = '\\' || c.toNat < 0x20 then none
    else
      match units? cs with
      | some (ns, rest) => some (c.toNat :: ns, rest)
      | none => none

/-- The unit is the first half of a pair. -/
def isHigh (n : Nat) : Bool := 0xD800 ≤ n && n ≤ 0xDBFF

/-- The unit is the second half of a pair. -/
def isLow (n : Nat) : Bool := 0xDC00 ≤ n && n ≤ 0xDFFF

/-- The characters that units stand for; none if half of a pair is alone. -/
def join? : List Nat → Option (List Char)
  | [] => some []
  | [n] => if isHigh n || isLow n then none else some [Char.ofNat n]
  | n :: m :: ns =>
    if isHigh n then
      if isLow m then (join? ns).map (Char.ofNat (0x10000 + (n - 0xD800) * 0x400 + (m - 0xDC00)) :: ·)
      else none
    else if isLow n then none
    else (join? (m :: ns)).map (Char.ofNat n :: ·)

/-- A string behind its quote, and what follows it. -/
def string? (cs : List Char) : Option (Option String × List Char) :=
  (units? cs).map fun (ns, rest) => ((join? ns).map String.ofList, rest)

/-- What follows one digit or more. -/
def digits? (cs : List Char) : Option (List Char) :=
  if cs.head?.any Char.isDigit then some (cs.dropWhile Char.isDigit) else none

/-- What follows an exponent, if there is one. -/
def exponent? (cs : List Char) : Option (List Char) :=
  match cs with
  | e :: rest =>
    if e = 'e' || e = 'E' then
      match rest with
      | '+' :: ds | '-' :: ds => digits? ds
      | ds => digits? ds
    else some cs
  | [] => some []

/-- What follows a number without sign. -/
def number? (cs : List Char) : Option (List Char) :=
  let whole :=
    match cs with
    | '0' :: rest => if rest.head?.any Char.isDigit then none else some rest
    | _ => digits? cs
  match whole with
  | none => none
  | some ('.' :: rest) => (digits? rest).bind exponent?
  | some rest => exponent? rest

mutual

/-- A value, and what follows it; `fuel` bounds the nesting. -/
def value? : Nat → List Char → Option (Value × List Char)
  | 0, _ => none
  | fuel + 1, cs =>
    match skipGap cs with
    | '"' :: rest => (string? rest).map fun (s, rest) => (.string s, rest)
    | '[' :: rest =>
      match skipGap rest with
      | ']' :: rest => some (.array [], rest)
      | _ => (items? fuel rest).map fun (vs, rest) => (.array vs, rest)
    | '\x7b' :: rest =>
      match skipGap rest with
      | '\x7d' :: rest => some (.object [], rest)
      | _ => (rows? fuel rest).map fun (rows, rest) => (.object rows, rest)
    | 'n' :: 'u' :: 'l' :: 'l' :: rest => some (.null, rest)
    | 't' :: 'r' :: 'u' :: 'e' :: rest => some (.bool true, rest)
    | 'f' :: 'a' :: 'l' :: 's' :: 'e' :: rest => some (.bool false, rest)
    | '-' :: rest => (number? rest).map fun rest => (.number, rest)
    | rest => (number? rest).map fun rest => (.number, rest)

/-- Values up to the end of an array; there is one at least. -/
def items? : Nat → List Char → Option (List Value × List Char)
  | 0, _ => none
  | fuel + 1, cs =>
    match value? fuel cs with
    | none => none
    | some (v, rest) =>
      match skipGap rest with
      | ']' :: rest => some ([v], rest)
      | ',' :: rest => (items? fuel rest).map fun (vs, rest) => (v :: vs, rest)
      | _ => none

/-- Rows up to the end of an object; there is one at least. -/
def rows? : Nat → List Char → Option (List (Option String × Value) × List Char)
  | 0, _ => none
  | fuel + 1, cs =>
    match skipGap cs with
    | '"' :: rest =>
      match string? rest with
      | none => none
      | some (key, rest) =>
        match skipGap rest with
        | ':' :: rest =>
          match value? fuel rest with
          | none => none
          | some (v, rest) =>
            match skipGap rest with
            | '\x7d' :: rest => some ([(key, v)], rest)
            | ',' :: rest => (rows? fuel rest).map fun (rows, rest) => ((key, v) :: rows, rest)
            | _ => none
        | _ => none
    | _ => none

end

/-- The value that a text holds, with nothing but white space around it. -/
def read? (s : String) : Option Value :=
  match value? (s.length + 1) s.toList with
  | some (v, rest) => if skipGap rest = [] then some v else none
  | none => none

end Json
end RouteScribe
