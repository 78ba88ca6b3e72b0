import RouteScribe.Document.Node

/-!
# RouteScribe.Document.Json

Documents as JSON, one item a line, with two blanks for each level. Lists and tables without items
stay on their line.
-/

namespace RouteScribe
namespace Document
namespace Json

/-- The digit `n` of the hexadecimal system, in lower case. -/
def hexDigit (n : Nat) : Char := (Nat.digitChar n)

/-- A character inside of quotes. -/
def escape (c : Char) : List Char :=
  if c = '"' then ['\\', '"']
  else if c = '\\' then ['\\', '\\']
  else if c = '\n' then ['\\', 'n']
  else if c = '\r' then ['\\', 'r']
  else if c = '\t' then ['\\', 't']
  else if c = '\x08' then ['\\', 'b']
  else if c = '\x0c' then ['\\', 'f']
  else if c.toNat < 0x20 then
    ['\\', 'u', '0', '0', hexDigit (c.toNat / 16), hexDigit (c.toNat % 16)]
  else [c]

/-- The text in quotes. -/
def quoted (s : String) : String := "\"" ++ String.ofList (s.toList.flatMap escape) ++ "\""

/-- The beginning of a line at a level. -/
def newline (level : Nat) : String := "\n" ++ String.ofList (List.replicate (2 * level) ' ')

mutual

/-- A document at a level. -/
def render (level : Nat) : Node → String
  | .text s => quoted s
  | .list [] => "[]"
  | .list (n :: ns) =>
    "[" ++ newline (level + 1) ++ render (level + 1) n ++ renderItems (level + 1) ns
      ++ newline level ++ "]"
  | .table [] => "\x7b\x7d"
  | .table ((k, n) :: rows) =>
    "\x7b" ++ newline (level + 1) ++ quoted k ++ ": " ++ render (level + 1) n
      ++ renderRows (level + 1) rows ++ newline level ++ "\x7d"

/-- The items of a list behind the first. -/
def renderItems (level : Nat) : List Node → String
  | [] => ""
  | n :: ns => "," ++ newline level ++ render level n ++ renderItems level ns

/-- The rows of a table behind the first. -/
def renderRows (level : Nat) : List (String × Node) → String
  | [] => ""
  | (k, n) :: rows =>
    "," ++ newline level ++ quoted k ++ ": " ++ render level n ++ renderRows level rows

end

def print (n : Node) : String := render 0 n

end Json
end Document
end RouteScribe
