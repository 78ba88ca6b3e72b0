import RouteScribe.Unicode.Space

/-!
# RouteScribe.Go.Cursor

Places in a text. A place carries the text that is still to come, so that reading on from it
needs nothing else, and what messages and comment attachment ask about it: the line, the bytes
before it, and whether only white space precedes it on its line.
-/

namespace RouteScribe
namespace Go

structure Cursor where
  /-- What follows. -/
  rest : List Char
  /-- Bytes before this place. -/
  offset : Nat := 0
  /-- Line ends before this place. -/
  row : Nat := 0
  /-- Only white space precedes on this line. -/
  blank : Bool := true
  deriving Inhabited

namespace Cursor

def ofChars (cs : List Char) : Cursor := { rest := cs }

/-- The place behind a character `c` with `cs` to follow. -/
def past (p : Cursor) (c : Char) (cs : List Char) : Cursor where
  rest := cs
  offset := p.offset + c.utf8Size
  row := if c = '\n' then p.row + 1 else p.row
  blank := c = '\n' || (p.blank && Unicode.isSpace c)

def skip : Nat → Cursor → Cursor
  | 0, p => p
  | n + 1, p =>
    match p.rest with
    | [] => p
    | c :: cs => skip n (p.past c cs)

/-- The leading characters of a list that fill `n` bytes. -/
def takeBytes : Nat → List Char → List Char
  | _, [] => []
  | n, c :: cs => if n = 0 then [] else c :: takeBytes (n - c.utf8Size) cs

/-- The text from one place to a later one. -/
def textTo (p q : Cursor) : String :=
  String.ofList (takeBytes (q.offset - p.offset) p.rest)

/-- The place behind all characters that satisfy `f`. -/
def skipWhile (f : Char → Bool) (p : Cursor) : Cursor :=
  p.skip (p.rest.takeWhile f).length

theorem skip_rest (n : Nat) (p : Cursor) : (p.skip n).rest = p.rest.drop n := by
  induction n generalizing p with
  | zero => rfl
  | succ n ih =>
    unfold skip
    split
    · next h => simp [h]
    · next c cs h => simp [ih, h, past]

end Cursor

end Go
end RouteScribe
