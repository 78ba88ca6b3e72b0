import RouteScribe.Go.Cursor
import RouteScribe.Go.Pattern
import RouteScribe.Go.Token
import RouteScribe.Unicode.Identifier

/-!
# RouteScribe.Go.Lexeme

The lexical grammar. Which tokens are looked for depends on what the grammar admits at that
place: a line end counts as a token only where one may terminate a declaration or a statement,
and the text of a string literal is read as such only between its quotes. Among the admitted
tokens the longest wins.
-/

namespace RouteScribe
namespace Go

namespace Token

open Pattern

def isHexDigit (c : Char) : Bool :=
  c.isDigit || ('a' ≤ c && c ≤ 'f') || ('A' ≤ c && c ≤ 'F')

def isOctalDigit (c : Char) : Bool := '0' ≤ c && c ≤ '7'

/-- Digits of one kind, with single underscores between them. -/
def digits (f : Char → Bool) : Pattern :=
  seq (one f) (many (seq (opt (char '_')) (one f)))

def decimalDigits : Pattern := digits Char.isDigit

def intPattern : Pattern :=
  choice
    [chain [char '0', oneOf ['b', 'B'], opt (char '_'), digits fun c => c == '0' || c == '1'],
     char '0',
     seq (one fun c => '1' ≤ c && c ≤ '9') (opt (seq (opt (char '_')) decimalDigits)),
     chain [char '0', opt (oneOf ['o', 'O']), opt (char '_'), digits isOctalDigit],
     chain [char '0', oneOf ['x', 'X'], opt (char '_'), digits isHexDigit]]

/-- An exponent behind one of the marks `ms`. -/
def exponent (ms : List Char) : Pattern :=
  chain [oneOf ms, opt (oneOf ['+', '-']), decimalDigits]

/-- Floating point numbers, decimal or hexadecimal. -/
def floatPattern : Pattern :=
  choice
    [chain [decimalDigits, char '.', opt decimalDigits, opt (exponent ['e', 'E'])],
     seq decimalDigits (exponent ['e', 'E']),
     chain [char '.', decimalDigits, opt (exponent ['e', 'E'])],
     chain
      [char '0', oneOf ['x', 'X'],
       choice
        [chain [opt (char '_'), digits isHexDigit, char '.', opt (digits isHexDigit)],
         seq (opt (char '_')) (digits isHexDigit),
         seq (char '.') (digits isHexDigit)],
       exponent ['p', 'P']]]

/-- Imaginary numbers: a number and the letter i. -/
def imaginaryPattern : Pattern :=
  seq (choice [decimalDigits, intPattern, floatPattern]) (char 'i')

def runeEscape : Pattern :=
  choice
    [seq (char 'x') (times 2 (one isHexDigit)),
     times 3 (one isOctalDigit),
     seq (char 'u') (times 4 (one isHexDigit)),
     seq (char 'U') (times 8 (one isHexDigit)),
     oneOf ['a', 'b', 'f', 'n', 'r', 't', 'v', '\\', '\'', '"']]

def runePattern : Pattern :=
  chain
    [char '\'',
     either (one fun c => c != '\'' && c != '\\' && c != '\x00') (seq (char '\\') runeEscape),
     char '\'']

/-- Escapes in a quoted string. -/
def escapePattern : Pattern :=
  seq (char '\\')
    (choice
      [one fun c => c != 'x' && c != 'u' && c != 'U' && c != '\x00',
       seq (times 2 (one Char.isDigit)) (opt (one Char.isDigit)),
       chain [char 'x', one isHexDigit, many (one isHexDigit)],
       seq (char 'u') (times 4 (one isHexDigit)),
       seq (char 'U') (times 8 (one isHexDigit))])

/-- Comments: to the end of the line, or between marks that do not nest. -/
def commentPattern : Pattern :=
  seq (char '/')
    (either
      (seq (char '/') (many (one fun c => c != '\n' && c != '\x00')))
      (chain
        [char '*', many (one fun c => c != '*' && c != '\x00'), char '*', many (char '*'),
         many
          (chain
            [one fun c => c != '/' && c != '*' && c != '\x00',
             many (one fun c => c != '*' && c != '\x00'), char '*', many (char '*')]),
         char '/']))

def identifierPattern : Pattern :=
  seq (one fun c => c == '_' || Unicode.isIdentifierStart c)
    (many (one fun c => c == '_' || Unicode.isIdentifierContinue c))

/-- Text of a quoted string up to a quote, a backslash or the end of the line. -/
def isQuotedText (c : Char) : Bool := c != '"' && c != '\n' && c != '\\' && c != '\x00'

/-- Text between back quotes. -/
def isRawText (c : Char) : Bool := c != '\x60' && c != '\x00'

/-- Tokens that are read by a pattern behind optional white space. -/
def patterned : List (Token × Pattern) :=
  [(.identifier, identifierPattern), (.int, intPattern), (.float, floatPattern),
   (.imaginary, imaginaryPattern), (.rune, runePattern), (.comment, commentPattern)]

def keywordSet : TokenSet := TokenSet.ofList keywords

def keyword? (cs : List Char) : Option Token := keywords.find? (·.spelling == cs)

/-- Tokens that can be told apart anywhere in a text. -/
def anywhere : TokenSet :=
  TokenSet.ofList
    (all.filter fun t => t ∉ [.newline, .rawText, .quotedText, .closingQuote, .escape])

end Token

/-- White space between tokens. -/
def isSeparator (c : Char) : Bool :=
  c == ' ' || c == '\t' || c == '\n' || c == '\x0b' || c == '\x0c' || c == '\r'

/-- A token found in a text, from `start` to `stop`. -/
structure Lexeme where
  token : Token
  start : Cursor
  stop : Cursor

namespace Lexeme

/-- Of two candidates, the longer. -/
def longer (best : Option (Token × Nat)) (t : Token) (n : Nat) : Option (Token × Nat) :=
  match best with
  | none => some (t, n)
  | some (_, m) => if m < n then some (t, n) else best

/-- The longest admitted token at the front of `cs`, by number of characters. -/
def best? (admitted : TokenSet) (cs : List Char) : Option (Token × Nat) :=
  let fixed := Token.punctuation.foldl (fun b t =>
    if admitted.has t && t.spelling.isPrefixOf cs then longer b t t.spelling.length else b) none
  Token.patterned.foldl (fun b (t, p) =>
    if admitted.has t then
      match p.longest cs with
      | some n => longer b t n
      | none => b
    else b) fixed

/-- Parts of a string literal follow one another without white space between them. -/
def part? (admitted : TokenSet) (cs : List Char) : Option (Token × Nat) :=
  let quoted := (cs.takeWhile Token.isQuotedText).length
  if admitted.has .rawText then some (.rawText, (cs.takeWhile Token.isRawText).length)
  else if admitted.has .quotedText && quoted != 0 then some (.quotedText, quoted)
  else if admitted.has .closingQuote && cs.head? == some '"' then some (.closingQuote, 1)
  else if admitted.has .escape then (Token.escapePattern.longest cs).map (Token.escape, ·)
  else none

/-- The end of the text terminates a statement. That is so behind an expression that can only go on
with a binary operator, but not where the operators of statements can come, too. -/
def endTerminates (admitted : TokenSet) : Bool :=
  admitted.has .nul && admitted.has .equal && !admitted.has .increment

/-- The next token at `p` among the admitted ones and comments; keywords are not told from other
identifiers here. If there is none, the place behind white space and the place where reading
stopped. A byte order mark at the beginning is white space. -/
def next (admitted : TokenSet) (p : Cursor) : Except (Cursor × Cursor) Lexeme :=
  let p := if p.offset == 0 && p.rest.head? == some '\ufeff' then p.skip 1 else p
  let admitted := admitted ||| TokenSet.single .comment
  let admitted :=
    if admitted &&& Token.keywordSet == 0 then admitted
    else admitted ||| TokenSet.single .identifier
  match part? admitted p.rest with
  | some (t, n) => .ok ⟨t, p, p.skip n⟩
  | none =>
    let q := p.skipWhile fun c => isSeparator c && !(c == '\n' && admitted.has .newline)
    if q.rest.isEmpty then .ok ⟨if endTerminates admitted then .nul else .eof, q, q⟩
    else
      match best? admitted q.rest with
      | some (t, n) => .ok ⟨t, q, q.skip n⟩
      | none =>
        .error (q, q.skip (if admitted.has .rune then Token.runePattern.reach q.rest else 0))

end Lexeme

end Go
end RouteScribe
