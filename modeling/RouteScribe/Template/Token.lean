import RouteScribe.Unicode.Space

/-!
# RouteScribe.Template.Token

The tokens of a template. Text between tags is one token, already without the white space that the
tags take away: a tag with a minus sign takes all of it on that side; without a sign, a tag for a
statement or a comment takes the blanks in front of it if it begins a line, and the line end
behind it.
-/

namespace RouteScribe
namespace Template

/-- Why a template cannot be rendered. -/
inductive Cause where
  /-- The template is not well formed. -/
  | malformed
  /-- A text in quotes has an escape that means nothing. -/
  | badEscape
  /-- A part of an undefined value was asked for. -/
  | undefinedValue
  | unknownFilter
  | unknownFunction
  | unknownMethod
  | invalidOperation
  deriving DecidableEq, Repr

def Cause.name : Cause → String
  | malformed => "syntax error"
  | badEscape => "bad string escape"
  | undefinedValue => "undefined value"
  | unknownFilter => "unknown filter"
  | unknownFunction => "unknown function"
  | unknownMethod => "unknown method"
  | invalidOperation => "invalid operation"

/-- A cause and the line it is on, counted from 1. -/
structure Fault where
  cause : Cause
  line : Nat
  deriving DecidableEq, Repr

inductive Token where
  /-- Text between tags. -/
  | data (s : String)
  | exprStart
  | exprEnd
  | stmtStart
  | stmtEnd
  | ident (s : String)
  | str (s : String)
  | int (n : Nat)
  | decimal (digits : String)
  /-- An operator or a bracket. -/
  | sign (s : String)
  /-- What is here is no token. -/
  | broken (c : Cause)
  deriving DecidableEq, Repr

/-- A token and the line on which it begins. -/
structure Lexeme where
  token : Token
  line : Nat
  deriving DecidableEq, Repr

/-- What a tag does with the white space beside it. -/
inductive Trim where
  | usual
  | keep
  | strip
  deriving DecidableEq, Repr

/-- The effect of a sign at the edge of a tag. -/
def Trim.ofSign : Option Char → Trim
  | some '-' => .strip
  | some '+' => .keep
  | _ => .usual

def Trim.length : Trim → Nat
  | usual => 0
  | _ => 1

/-- The kinds of tags. -/
inductive Tag where
  | expr
  | stmt
  | comment
  deriving DecidableEq, Repr

/-- The tag that begins here. -/
def Tag.opening? : List Char → Option Tag
  | '\x7b' :: '\x7b' :: _ => some .expr
  | '\x7b' :: '%' :: _ => some .stmt
  | '\x7b' :: '#' :: _ => some .comment
  | _ => none

/-- The two characters at the end of a tag. -/
def Tag.closing : Tag → List Char
  | expr => ['\x7d', '\x7d']
  | stmt => ['%', '\x7d']
  | comment => ['#', '\x7d']

/-- The rest of a template, its line, and whether nothing but white space is in front on it. -/
structure Reader where
  rest : List Char
  line : Nat
  blank : Bool

namespace Reader

/-- The character ends a line as far as white space in front of tags is concerned. -/
def isBreak (c : Char) : Bool := c = '\n' || c = '\r'

/-- White space inside of tags. -/
def isGap (c : Char) : Bool := c = ' ' || c = '\t' || c = '\n' || c = '\x0c' || c = '\r'

/-- Goes behind some characters. -/
def skip : Nat → Reader → Reader
  | n + 1, ⟨c :: cs, line, blank⟩ =>
    skip n ⟨cs, if c = '\n' then line + 1 else line, isBreak c || (blank && Unicode.isSpace c)⟩
  | _, r => r

/-- Goes behind white space. -/
def skipSpace (r : Reader) : Reader := r.skip (r.rest.takeWhile Unicode.isSpace).length

/-- Goes behind a line end, if there is one. -/
def skipBreak (r : Reader) : Reader :=
  let r := if r.rest.head? = some '\r' then r.skip 1 else r
  if r.rest.head? = some '\n' then r.skip 1 else r

/-- Goes behind the white space that the end of a tag takes away. -/
def skipAfter (trim : Trim) (r : Reader) : Reader :=
  match trim with
  | .usual => r.skipBreak
  | .keep => r
  | .strip => r.skipSpace

end Reader

/-- The characters in front of the first tag. -/
def leadLength : List Char → Nat
  | [] => 0
  | c :: cs => if (Tag.opening? (c :: cs)).isSome then 0 else leadLength cs + 1

/-- The characters in front of `mark`; none if it does not occur. -/
def findMark (mark : List Char) : List Char → Option Nat
  | [] => none
  | c :: cs => if mark.isPrefixOf (c :: cs) then some 0 else (findMark mark cs).map (· + 1)

/-- The text without the blanks at its end, if they begin a line; `blank` if only white space is
in front of the text on its line. -/
def dropIndent (blank : Bool) (cs : List Char) : List Char :=
  let kept :=
    (cs.reverse.dropWhile fun c => Unicode.isSpace c && !Reader.isBreak c).reverse
  match kept.getLast? with
  | none => if blank then [] else cs
  | some c => if Reader.isBreak c then kept else cs

/-- The length of a tag that consists of the word `name`, behind its opening mark, and what its
end does with the white space behind it. -/
def wordTag? (name : String) (cs : List Char) : Option (Nat × Trim) :=
  let gap := (cs.takeWhile Reader.isGap).length
  let word := name.toList
  let rest := cs.drop gap
  if word.isPrefixOf rest then
    let rest := rest.drop word.length
    let gap' := (rest.takeWhile Reader.isGap).length
    let rest := rest.drop gap'
    let trim := Trim.ofSign rest.head?
    if Tag.stmt.closing.isPrefixOf (rest.drop trim.length) then
      some (gap + word.length + gap' + trim.length + 2, trim)
    else none
  else none

/-- The end of verbatim text: the characters in front of it, what it does with white space on
either side, and its length. -/
def verbatimEnd? : List Char → Option (Nat × Trim × Nat × Trim)
  | [] => none
  | c :: cs =>
    let here :=
      if Tag.opening? (c :: cs) = some .stmt then
        let rest := cs.drop 1
        let before := Trim.ofSign rest.head?
        (wordTag? "endraw" (rest.drop before.length)).map fun (n, after) =>
          (0, before, 2 + before.length + n, after)
      else none
    match here with
    | some e => some e
    | none => (verbatimEnd? cs).map fun (n, e) => (n + 1, e)

/-- Verbatim text without the white space that the tags around it take away. -/
def verbatim (before after : Trim) (cs : List Char) : List Char :=
  let cs :=
    match before with
    | .usual => (Reader.skipBreak ⟨cs, 0, false⟩).rest
    | .keep => cs
    | .strip => Unicode.trimStartChars cs
  match after with
  | .usual => dropIndent true cs
  | .keep => cs
  | .strip => Unicode.trimEndChars cs

/-- The value of four hexadecimal digits. -/
def hexValue? (cs : List Char) : Option Nat :=
  cs.foldl
    (fun n c => n.bind fun n =>
      if c.isDigit then some (n * 16 + (c.toNat - '0'.toNat))
      else if 'a' ≤ c && c ≤ 'f' then some (n * 16 + (c.toNat - 'a'.toNat + 10))
      else if 'A' ≤ c && c ≤ 'F' then some (n * 16 + (c.toNat - 'A'.toNat + 10))
      else none)
    (some 0)

/-- The text that is written with escapes. -/
def unescape? : List Char → Option (List Char)
  | [] => some []
  | '\\' :: 'u' :: a :: b :: c :: d :: cs =>
    match hexValue? [a, b, c, d] with
    | none => none
    | some n =>
      if h : n.isValidChar then (unescape? cs).map (Char.ofNatAux n h :: ·) else none
  | '\\' :: c :: cs =>
    let here :=
      if c = '"' || c = '\\' || c = '/' || c = '\'' then some c
      else if c = 'b' then some '\x08'
      else if c = 'f' then some '\x0c'
      else if c = 'n' then some '\n'
      else if c = 'r' then some '\r'
      else if c = 't' then some '\t'
      else none
    match here with
    | none => none
    | some c => (unescape? cs).map (c :: ·)
  | c :: cs => if c = '\\' then none else (unescape? cs).map (c :: ·)

/-- The length of a text up to the quote that ends it; `escaped` if a backslash is in front. -/
def quoteLength? (quote : Char) : Bool → List Char → Option Nat
  | _, [] => none
  | true, _ :: cs => (quoteLength? quote false cs).map (· + 1)
  | false, c :: cs =>
    if c = quote then some 0 else (quoteLength? quote (c = '\\') cs).map (· + 1)

/-- The characters of a name; it has to begin with a letter. -/
def nameLength (cs : List Char) : Nat :=
  let part := fun c : Char => c = '_' || c.isAlphanum
  if cs.head?.any fun c => c = '_' || c.isAlpha then (cs.takeWhile part).length else 0

/-- A decimal number as it is printed. -/
def decimalText (whole fraction : List Char) : String :=
  let whole := whole.dropWhile (· = '0')
  let fraction := (fraction.reverse.dropWhile (· = '0')).reverse
  String.ofList
    ((if whole = [] then ['0'] else whole) ++ ['.'] ++ if fraction = [] then ['0'] else fraction)

/-- A number at the beginning of the text, and its length. -/
def number (cs : List Char) : Token × Nat :=
  let whole := cs.takeWhile fun c => c.isDigit || c = '_'
  let digits := whole.filter Char.isDigit
  match cs.drop whole.length with
  | '.' :: rest =>
    let fraction := rest.takeWhile fun c => c.isDigit || c = '_'
    (.decimal (decimalText digits (fraction.filter Char.isDigit)),
      whole.length + 1 + fraction.length)
  | _ => (.int (digits.foldl (fun n c => n * 10 + (c.toNat - '0'.toNat)) 0), whole.length)

/-- Signs of two characters. -/
def pairs : List (List Char) :=
  [['/', '/'], ['*', '*'], ['=', '='], ['!', '='], ['>', '='], ['<', '=']]

/-- Signs of one character. -/
def singles : List Char :=
  ['+', '-', '*', '/', '%', '.', ',', ':', '~', '|', '=', '>', '<', '(', ')', '[', ']', '\x7b',
    '\x7d']

/-- The token at the beginning of a text inside of a tag, which is not empty and begins with no
white space; and its length. -/
def inner (cs : List Char) : Token × Nat :=
  match cs with
  | [] => (.broken .malformed, 0)
  | c :: rest =>
    if pairs.contains (cs.take 2) then (.sign (String.ofList (cs.take 2)), 2)
    else if singles.contains c then (.sign (String.ofList [c]), 1)
    else if c = '\'' || c = '"' then
      match quoteLength? c false rest with
      | none => (.broken .malformed, 0)
      | some n =>
        match unescape? (rest.take n) with
        | none => (.broken .badEscape, 0)
        | some s => (.str (String.ofList s), n + 2)
    else if c.isDigit then number cs
    else
      let n := nameLength cs
      if n = 0 then (.broken .malformed, 0) else (.ident (String.ofList (cs.take n)), n)

/-- The tokens of a template from `r` on; inside of a tag if `tag` is given. `fuel` tokens and gaps
are read at most. -/
def scan : Nat → Option Tag → Reader → List Lexeme
  | 0, _, _ => []
  | fuel + 1, some tag, r =>
    let gap := (r.rest.takeWhile Reader.isGap).length
    let r := r.skip gap
    let trim := Trim.ofSign r.rest.head?
    let closes := tag.closing.isPrefixOf (r.rest.drop trim.length)
    let closing := if tag = .expr then Token.exprEnd else Token.stmtEnd
    if r.rest = [] then []
    else if closes then
      let after := if tag = .expr && trim = .usual then .keep else trim
      ⟨closing, r.line⟩ :: scan fuel none ((r.skip (trim.length + 2)).skipAfter after)
    else
      match inner r.rest with
      | (.broken c, _) => [⟨.broken c, r.line⟩]
      | (t, n) => ⟨t, r.line⟩ :: scan fuel (some tag) (r.skip n)
  | fuel + 1, none, r =>
    let lead := r.rest.take (leadLength r.rest)
    let atTag := r.skip lead.length
    let data := fun cs : List Char =>
      if cs = [] then [] else [Lexeme.mk (.data (String.ofList cs)) r.line]
    match Tag.opening? atTag.rest with
    | none => data lead
    | some tag =>
      let trim := Trim.ofSign (atTag.rest.drop 2).head?
      let before :=
        match trim with
        | .usual => if tag = .expr then lead else dropIndent r.blank lead
        | .keep => lead
        | .strip => Unicode.trimEndChars lead
      let inside := atTag.skip (2 + trim.length)
      data before ++
        match tag with
        | .expr => ⟨.exprStart, atTag.line⟩ :: scan fuel (some .expr) inside
        | .comment =>
          match findMark Tag.comment.closing inside.rest with
          | none => [⟨.broken .malformed, atTag.line⟩]
          | some n =>
            let after := Trim.ofSign (if n = 0 then none else inside.rest[n - 1]?)
            scan fuel none ((inside.skip (n + 2)).skipAfter after)
        | .stmt =>
          match wordTag? "raw" inside.rest with
          | none => ⟨.stmtStart, atTag.line⟩ :: scan fuel (some .stmt) inside
          | some (n, first) =>
            let body := inside.skip n
            match verbatimEnd? body.rest with
            | none => [⟨.broken .malformed, body.line⟩]
            | some (n, before, length, after) =>
              ⟨.data (String.ofList (verbatim first before (body.rest.take n))), body.line⟩
                :: scan fuel none ((body.skip (n + length)).skipAfter after)

/-- The tokens of a template; after one that is broken there is no other. -/
def tokens (template : String) : List Lexeme :=
  let cs := template.toList
  scan (cs.length + 1) none ⟨cs, 1, true⟩

end Template
end RouteScribe
