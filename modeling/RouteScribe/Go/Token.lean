/-!
# RouteScribe.Go.Token

The terminal symbols of the Go grammar. Their order is the order in which repairs try them as
missing, and it breaks ties between parses.
-/

namespace RouteScribe
namespace Go

/-- Terminal symbols. `rawText`, `quotedText`, `escape` and `closingQuote` are the parts of
string literals. -/
inductive Token where
  | eof | identifier | newline | semicolon | nul | packageKw | importKw | period | underscore
  | lparen | rparen | constKw | comma | assign | varKw | funcKw | lbrack | rbrack | ellipsis
  | typeKw | star | structKw | tilde | lbrace | rbrace | interfaceKw | bar | mapKw | chanKw
  | arrow | define | increment | decrement | starAssign | slashAssign | percentAssign
  | shlAssign | shrAssign | ampAssign | ampCaretAssign | plusAssign | minusAssign | barAssign
  | caretAssign | colon | fallthroughKw | breakKw | continueKw | gotoKw | returnKw | goKw
  | deferKw | ifKw | elseKw | forKw | rangeKw | switchKw | caseKw | defaultKw | selectKw | newKw
  | makeKw | plus | minus | bang | caret | amp | slash | percent | shl | shr | ampCaret | equal
  | notEqual | less | lessEqual | greater | greaterEqual | andAnd | orOr | backquote | rawText
  | quote | quotedText | closingQuote | escape | int | float | imaginary | rune | nilKw | trueKw
  | falseKw | iotaKw | comment
  deriving DecidableEq, Repr, Inhabited

namespace Token

def index (t : Token) : Nat := t.ctorIdx

/-- How the token is called in messages; a token of fixed spelling is called by it. -/
def label : Token → String
  | .eof => "end"
  | .identifier => "identifier"
  | .newline => "\n"
  | .semicolon => ";"
  | .nul => "\x00"
  | .packageKw => "package"
  | .importKw => "import"
  | .period => "."
  | .underscore => "blank_identifier"
  | .lparen => "("
  | .rparen => ")"
  | .constKw => "const"
  | .comma => ","
  | .assign => "="
  | .varKw => "var"
  | .funcKw => "func"
  | .lbrack => "["
  | .rbrack => "]"
  | .ellipsis => "..."
  | .typeKw => "type"
  | .star => "*"
  | .structKw => "struct"
  | .tilde => "~"
  | .lbrace => "\x7b"
  | .rbrace => "\x7d"
  | .interfaceKw => "interface"
  | .bar => "|"
  | .mapKw => "map"
  | .chanKw => "chan"
  | .arrow => "<-"
  | .define => ":="
  | .increment => "++"
  | .decrement => "--"
  | .starAssign => "*="
  | .slashAssign => "/="
  | .percentAssign => "%="
  | .shlAssign => "<<="
  | .shrAssign => ">>="
  | .ampAssign => "&="
  | .ampCaretAssign => "&^="
  | .plusAssign => "+="
  | .minusAssign => "-="
  | .barAssign => "|="
  | .caretAssign => "^="
  | .colon => ":"
  | .fallthroughKw => "fallthrough"
  | .breakKw => "break"
  | .continueKw => "continue"
  | .gotoKw => "goto"
  | .returnKw => "return"
  | .goKw => "go"
  | .deferKw => "defer"
  | .ifKw => "if"
  | .elseKw => "else"
  | .forKw => "for"
  | .rangeKw => "range"
  | .switchKw => "switch"
  | .caseKw => "case"
  | .defaultKw => "default"
  | .selectKw => "select"
  | .newKw => "new"
  | .makeKw => "make"
  | .plus => "+"
  | .minus => "-"
  | .bang => "!"
  | .caret => "^"
  | .amp => "&"
  | .slash => "/"
  | .percent => "%"
  | .shl => "<<"
  | .shr => ">>"
  | .ampCaret => "&^"
  | .equal => "=="
  | .notEqual => "!="
  | .less => "<"
  | .lessEqual => "<="
  | .greater => ">"
  | .greaterEqual => ">="
  | .andAnd => "&&"
  | .orOr => "||"
  | .backquote => "\x60"
  | .rawText => "raw_string_literal_content"
  | .quote => "\""
  | .quotedText => "interpreted_string_literal_content"
  | .closingQuote => "\""
  | .escape => "escape_sequence"
  | .int => "int_literal"
  | .float => "float_literal"
  | .imaginary => "imaginary_literal"
  | .rune => "rune_literal"
  | .nilKw => "nil"
  | .trueKw => "true"
  | .falseKw => "false"
  | .iotaKw => "iota"
  | .comment => "comment"

/-- Tokens that look like identifiers. -/
def keywords : List Token :=
  [.packageKw, .importKw, .underscore, .constKw, .varKw, .funcKw, .typeKw, .structKw,
   .interfaceKw, .mapKw, .chanKw, .fallthroughKw, .breakKw, .continueKw, .gotoKw, .returnKw,
   .goKw, .deferKw, .ifKw, .elseKw, .forKw, .rangeKw, .switchKw, .caseKw, .defaultKw,
   .selectKw, .newKw, .makeKw, .nilKw, .trueKw, .falseKw, .iotaKw]

/-- Other tokens of fixed spelling. -/
def punctuation : List Token :=
  [.newline, .semicolon, .nul, .period, .lparen, .rparen, .comma, .assign, .lbrack, .rbrack,
   .ellipsis, .star, .tilde, .lbrace, .rbrace, .bar, .arrow, .define, .increment, .decrement,
   .starAssign, .slashAssign, .percentAssign, .shlAssign, .shrAssign, .ampAssign,
   .ampCaretAssign, .plusAssign, .minusAssign, .barAssign, .caretAssign, .colon, .plus, .minus,
   .bang, .caret, .amp, .slash, .percent, .shl, .shr, .ampCaret, .equal, .notEqual, .less,
   .lessEqual, .greater, .greaterEqual, .andAnd, .orOr, .backquote, .quote]

/-- The characters of a token of fixed spelling. -/
def spelling (t : Token) : List Char :=
  if t = .underscore then ['_'] else t.label.toList

def all : List Token :=
  [.eof, .identifier, .newline, .semicolon, .nul, .packageKw, .importKw, .period, .underscore,
   .lparen, .rparen, .constKw, .comma, .assign, .varKw, .funcKw, .lbrack, .rbrack, .ellipsis,
   .typeKw, .star, .structKw, .tilde, .lbrace, .rbrace, .interfaceKw, .bar, .mapKw, .chanKw,
   .arrow, .define, .increment, .decrement, .starAssign, .slashAssign, .percentAssign,
   .shlAssign, .shrAssign, .ampAssign, .ampCaretAssign, .plusAssign, .minusAssign, .barAssign,
   .caretAssign, .colon, .fallthroughKw, .breakKw, .continueKw, .gotoKw, .returnKw, .goKw,
   .deferKw, .ifKw, .elseKw, .forKw, .rangeKw, .switchKw, .caseKw, .defaultKw, .selectKw,
   .newKw, .makeKw, .plus, .minus, .bang, .caret, .amp, .slash, .percent, .shl, .shr,
   .ampCaret, .equal, .notEqual, .less, .lessEqual, .greater, .greaterEqual, .andAnd, .orOr,
   .backquote, .rawText, .quote, .quotedText, .closingQuote, .escape, .int, .float, .imaginary,
   .rune, .nilKw, .trueKw, .falseKw, .iotaKw, .comment]

/-- Line ends stand in no syntax tree. -/
def isHidden (t : Token) : Bool :=
  t = .newline || t = .eof || t = .rawText || t = .quotedText

/-- Tokens with a name of their own, as against those called by their spelling. -/
def isNamed : Token → Bool
  | .identifier | .underscore | .escape | .int | .float | .imaginary | .rune | .nilKw | .trueKw
  | .falseKw | .iotaKw | .comment => true
  | _ => false

end Token

/-- Sets of tokens, as the bits of a number. -/
abbrev TokenSet := Nat

namespace TokenSet

def single (t : Token) : TokenSet := 1 <<< t.index

def has (s : TokenSet) (t : Token) : Bool := s.testBit t.index

def ofList (ts : List Token) : TokenSet := ts.foldl (fun s t => s ||| single t) 0

def toList (s : TokenSet) : List Token := Token.all.filter s.has

end TokenSet

end Go
end RouteScribe
