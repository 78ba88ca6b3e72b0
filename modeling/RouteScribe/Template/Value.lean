import RouteScribe.Unicode.Range

/-!
# RouteScribe.Template.Value

The values that templates work on, and how they are printed: a text at the top as it is, a text
inside of another value in quotes.
-/

namespace RouteScribe
namespace Template

/-- A value. The rows of a map are in the order of their keys. -/
inductive Value where
  /-- What a name stands for that nothing was given for. -/
  | undefined
  | none
  | bool (b : Bool)
  | int (n : Int)
  /-- A decimal number as it is printed. -/
  | decimal (digits : String)
  | str (s : String)
  | list (vs : List Value)
  | map (rows : List (String × Value))
  deriving Inhabited

namespace Value

def texts (ss : List String) : Value := list (ss.map str)

/-- The value counts as true. -/
def holds : Value → Bool
  | undefined | none => false
  | bool b => b
  | int n => n ≠ 0
  | decimal d => d.toList.any fun c => '1' ≤ c && c ≤ '9'
  | str s => s ≠ ""
  | list vs => !vs.isEmpty
  | map rows => !rows.isEmpty

/-- The value in a row of a map; undefined if there is no such row, or no map. -/
def field (v : Value) (key : String) : Value :=
  match v with
  | map rows => ((rows.find? (·.1 = key)).map (·.2)).getD undefined
  | _ => undefined

/-- What a loop runs over: the items of a list, the keys of a map, the characters of a text. -/
def items? : Value → Option (List Value)
  | undefined | none => some []
  | str s => some (s.toList.map fun c => str (String.ofList [c]))
  | list vs => some vs
  | map rows => some (rows.map fun r => str r.1)
  | _ => .none

/-- Characters beyond ASCII that are not shown: spaces, marks that combine with the character in
front, and characters for control or private use. -/
def hiddenRanges : Unicode.Ranges :=
  [(0x7F, 0xA0), (0xAD, 0xAD), (0x300, 0x36F), (0x483, 0x489), (0x591, 0x5BD), (0x600, 0x605),
    (0x610, 0x61A), (0x61C, 0x61C), (0x64B, 0x65F), (0x1680, 0x1680), (0x1AB0, 0x1ACE),
    (0x1DC0, 0x1DFF), (0x2000, 0x200F), (0x2028, 0x202F), (0x205F, 0x206F), (0x20D0, 0x20F0),
    (0x302A, 0x302F), (0x3000, 0x3000), (0x3099, 0x309A), (0xE000, 0xF8FF), (0xFE00, 0xFE0F),
    (0xFE20, 0xFE2F), (0xFEFF, 0xFEFF), (0xFFF0, 0xFFFB), (0xFFFE, 0xFFFF), (0x1F3FB, 0x1F3FF),
    (0xE0000, 0x10FFFF)]

/-- A character inside of quotes. -/
def escape (c : Char) : List Char :=
  if c = '\x00' then ['\\', '0']
  else if c = '\t' then ['\\', 't']
  else if c = '\n' then ['\\', 'n']
  else if c = '\r' then ['\\', 'r']
  else if c = '"' then ['\\', '"']
  else if c = '\\' then ['\\', '\\']
  else if c.toNat < 0x20 || hiddenRanges.covers c.toNat then
    ['\\', 'u', '\x7b'] ++ Nat.toDigits 16 c.toNat ++ ['\x7d']
  else [c]

def quoted (s : String) : String := "\"" ++ String.ofList (s.toList.flatMap escape) ++ "\""

mutual

/-- A value inside of another. -/
def literal : Value → String
  | undefined => "undefined"
  | none => "None"
  | bool true => "True"
  | bool false => "False"
  | int n => toString n
  | decimal d => d
  | str s => quoted s
  | list [] => "[]"
  | list (v :: vs) => "[" ++ literal v ++ literalItems vs ++ "]"
  | map [] => "\x7b\x7d"
  | map ((k, v) :: rows) =>
    "\x7b" ++ quoted k ++ ": " ++ literal v ++ literalRows rows ++ "\x7d"

/-- The items of a list behind the first. -/
def literalItems : List Value → String
  | [] => ""
  | v :: vs => ", " ++ literal v ++ literalItems vs

/-- The rows of a map behind the first. -/
def literalRows : List (String × Value) → String
  | [] => ""
  | (k, v) :: rows => ", " ++ quoted k ++ ": " ++ literal v ++ literalRows rows

end

/-- A value at the top. -/
def text : Value → String
  | undefined => ""
  | str s => s
  | v => literal v

end Value

end Template
end RouteScribe
