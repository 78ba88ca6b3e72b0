import RouteScribe.Document.Style

/-!
# RouteScribe.Document.Pen

The pen that writes YAML. Whether a blank or a new line is due depends on what was written last,
so the pen remembers its column and whether it stands behind white space or at the beginning of a
line.
-/

namespace RouteScribe
namespace Document

/-- The text written so far, and where the pen stands. -/
structure Pen where
  written : String
  column : Nat
  /-- White space is directly in front. -/
  spaced : Bool
  /-- Only indentation and marks are in front on this line. -/
  fresh : Bool
  deriving Repr

namespace Pen

def start : Pen := ⟨"", 0, true, true⟩

/-- Writes a character of a line. -/
def put (p : Pen) (c : Char) : Pen :=
  { p with written := p.written.push c, column := p.column + 1 }

def puts (p : Pen) (cs : List Char) : Pen := cs.foldl put p

/-- Writes a break. -/
def putBreak (p : Pen) (c : Char) : Pen := { p with written := p.written.push c, column := 0 }

/-- Goes to the column `indent` of a line that holds nothing but marks, a new one if need be. -/
def align (p : Pen) (indent : Nat) : Pen :=
  let stays := p.fresh && (p.column < indent || (p.column = indent && p.spaced))
  let p := if stays then p else p.putBreak '\n'
  { p.puts (List.replicate (indent - p.column) ' ') with spaced := true, fresh := true }

def space (p : Pen) : Pen := if p.spaced then p else p.put ' '

/-- Writes a mark with a blank in front; a line of nothing but marks counts as empty. -/
def mark (p : Pen) (c : Char) : Pen := { p.space.put c with spaced := false }

/-- Writes a mark that ends a key. -/
def colon (p : Pen) : Pen := { p.put ':' with spaced := false, fresh := false }

/-- Writes characters of a text, with a blank in front. -/
def word (p : Pen) (cs : List Char) : Pen :=
  { p.space.puts cs with spaced := false, fresh := false }

/-- The character in upper case hexadecimal digits, `width` of them. -/
def hex (width : Nat) (c : Char) : List Char :=
  let ds := (Nat.toDigits 16 c.toNat).map Char.toUpper
  List.replicate (width - ds.length) '0' ++ ds

/-- A character inside of double quotes. -/
def escape (c : Char) : List Char :=
  if isPrintable c && !isBreak c && c ≠ '"' && c ≠ '\\' then [c]
  else
    '\\' ::
      if c = '\x00' then ['0']
      else if c = '\x07' then ['a']
      else if c = '\x08' then ['b']
      else if c = '\t' then ['t']
      else if c = '\n' then ['n']
      else if c = '\x0b' then ['v']
      else if c = '\x0c' then ['f']
      else if c = '\r' then ['r']
      else if c = '\x1b' then ['e']
      else if c = '"' then ['"']
      else if c = '\\' then ['\\']
      else if c = '\u0085' then ['N']
      else if c = '\u00a0' then ['_']
      else if c = '\u2028' then ['L']
      else if c = '\u2029' then ['P']
      else if c.toNat ≤ 0xFF then 'x' :: hex 2 c
      else if c.toNat ≤ 0xFFFF then 'u' :: hex 4 c
      else 'U' :: hex 8 c

def double (p : Pen) (cs : List Char) : Pen := p.word ('"' :: cs.flatMap escape ++ ['"'])

/-- Writes what is in single quotes. Quotes are doubled, and what follows breaks is indented;
`after` says that a break is in front. -/
def singleBody (indent : Nat) : Bool → Pen → List Char → Pen
  | after, p, [] => if after then p.align indent else p
  | after, p, c :: cs =>
    if c = ' ' then singleBody indent after (p.put c) cs
    else if isBreak c then
      let p := if !after && c = '\n' then p.putBreak '\n' else p
      singleBody indent true { p.putBreak c with fresh := true } cs
    else
      let p := if after then p.align indent else p
      let p := if c = '\'' then p.put c else p
      singleBody indent false { p.put c with fresh := false } cs

/-- Writes a text in single quotes. -/
def single (p : Pen) (indent : Nat) (cs : List Char) : Pen :=
  let p := singleBody indent false { p.space.put '\'' with spaced := false, fresh := false } cs
  { p.put '\'' with spaced := false, fresh := false }

/-- Writes lines; `after` says that a break is in front. -/
def literalBody (indent : Nat) : Bool → Pen → List Char → Pen
  | _, p, [] => p
  | after, p, c :: cs =>
    if isBreak c then literalBody indent true { p.putBreak c with fresh := true } cs
    else
      let p := if after then p.align indent else p
      literalBody indent false { p.put c with fresh := false } cs

/-- What is said of the breaks at the end of lines: one is kept without a sign. -/
def chomping (cs : List Char) : List Char :=
  match cs.reverse with
  | [] => ['-']
  | c :: rest =>
    if !isBreak c then ['-']
    else
      match rest with
      | [] => ['+']
      | d :: _ => if isBreak d then ['+'] else []

/-- What is said of the indentation of lines: it is given if the first does not show it. -/
def indentation (cs : List Char) : List Char :=
  if cs.head?.any fun c => c = ' ' || isBreak c then ['2'] else []

/-- Writes a text on lines of its own. -/
def literal (p : Pen) (indent : Nat) (cs : List Char) : Pen :=
  let p := (p.word ('|' :: indentation cs ++ chomping cs)).putBreak '\n'
  literalBody indent true { p with spaced := true, fresh := true } cs

/-- Writes a text that belongs to a part of the document with indentation `indent`. -/
def text (p : Pen) (indent : Nat) (s : String) : Pen :=
  match Style.of s with
  | .plain => p.word s.toList
  | .single => p.single (indent + 2) s.toList
  | .double => p.double s.toList
  | .literal => p.literal (indent + 2) s.toList

end Pen

end Document
end RouteScribe
