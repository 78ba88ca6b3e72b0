import RouteScribe.Document.Reading

/-!
# RouteScribe.Document.Style

The four styles of a text in YAML. A style is chosen for a text as a whole: without quotes where
that is possible, line by line where the text has several lines, and with escapes where nothing
else is left.
-/

namespace RouteScribe
namespace Document

inductive Style where
  | plain
  /-- In single quotes. -/
  | single
  /-- In double quotes, with escapes. -/
  | double
  /-- On lines of its own. -/
  | literal
  deriving DecidableEq, Repr

/-- The character ends a line. -/
def isBreak (c : Char) : Bool :=
  c = '\n' || c = '\r' || c = '\u0085' || c = '\u2028' || c = '\u2029'

/-- The character may stand in a document as it is. -/
def isPrintable (c : Char) : Bool :=
  let n := c.toNat
  n = 0xA || (0x20 ≤ n && n ≤ 0x7E) || (0xA0 ≤ n && n ≤ 0xFFFD && n ≠ 0xFEFF) || 0x10000 ≤ n

/-- A blank, a tab, a break or the end follows. -/
def endsWord : Option Char → Bool
  | none => true
  | some c => c = ' ' || c = '\t' || c = '\x00' || isBreak c

/-- Characters that mean something at the beginning of a text. -/
def openers : List Char :=
  ['#', ',', '[', ']', '\x7b', '\x7d', '&', '*', '!', '|', '>', '\'', '"', '%', '@', '\x60']

/-- A character inside of a text means something: a colon that ends a word, or a number sign that
begins one. `before` is the character in front. -/
def hasInnerMark (before : Char) : List Char → Bool
  | [] => false
  | c :: cs =>
    (c = ':' && endsWord cs.head?) || (c = '#' && endsWord (some before)) || hasInnerMark c cs

/-- A text without quotes would be read as part of the structure of the document. -/
def hasMark : List Char → Bool
  | [] => false
  | c :: cs =>
    openers.contains c || ((c = '?' || c = ':' || c = '-') && endsWord cs.head?)
      || ['-', '-', '-'].isPrefixOf (c :: cs) || ['.', '.', '.'].isPrefixOf (c :: cs)
      || hasInnerMark c cs

/-- Two neighbours are of the first and of the second kind. -/
def hasPair (f g : Char → Bool) : List Char → Bool
  | c :: d :: cs => (f c && g d) || hasPair f g (d :: cs)
  | _ => false

/-- Only escapes can hold the text: it has characters that are not printable, or a blank in front
of a break. -/
def needsEscapes (cs : List Char) : Bool :=
  cs.any (fun c => !isPrintable c) || hasPair (· = ' ') isBreak cs

/-- The text begins or ends with a blank or a break. -/
def hasLooseEnd (cs : List Char) : Bool :=
  let loose := fun c => c = ' ' || isBreak c
  cs.head?.any loose || cs.getLast?.any loose

/-- The text can go without quotes. -/
def allowsPlain (cs : List Char) : Bool :=
  !needsEscapes cs && !hasLooseEnd cs && !cs.any isBreak && !hasMark cs

def allowsSingle (cs : List Char) : Bool := !needsEscapes cs && !hasPair isBreak (· = ' ') cs

def allowsLiteral (cs : List Char) : Bool := !needsEscapes cs && cs.getLast? ≠ some ' '

def Style.of (s : String) : Style :=
  let cs := s.toList
  if cs.contains '\n' then if allowsLiteral cs then .literal else .double
  else if !isAmbiguous s && allowsPlain cs then .plain
  else if allowsSingle cs then .single
  else .double

end Document
end RouteScribe
