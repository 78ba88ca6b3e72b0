import RouteScribe.Go.Automaton
import RouteScribe.Go.Lexeme

/-!
# RouteScribe.Go.Piece

Pieces of a parse: tokens, phrases made of smaller pieces, and groups of tokens that fit nowhere.
Each piece knows what repairs it contains cost, so that parses can be compared.
-/

namespace RouteScribe
namespace Go

/-- The prices of repairs. A repair that skips text pays for having lost its way, for each token or
phrase thrown out, and for each byte and line; a token made up has a price of its own. -/
structure Prices where
  lost : Nat := 500
  missing : Nat := 110
  tree : Nat := 100
  byte : Nat := 1
  line : Nat := 30

def prices : Prices := {}

/-- A token of a parse. No `token` stands for characters that form none. -/
structure Leaf where
  token : Option Token
  /-- The spelling is that of a keyword. -/
  keyword : Bool := false
  /-- Made up by a repair. -/
  missing : Bool := false
  /-- A comment or skipped text, which the grammar does not see. -/
  extra : Bool := false
  /-- Where the piece before ended. -/
  before : Cursor
  start : Cursor
  stop : Cursor

inductive Label where
  | symbol (s : Symbol)
  /-- Skipped text as a whole. -/
  | error
  /-- Skipped text while more may follow. -/
  | skipped
  deriving DecidableEq

structure Summary where
  label : Label
  production : Nat
  extra : Bool
  before : Cursor
  start : Cursor
  stop : Cursor
  cost : Nat
  /-- Direct parts that appear in the tree. -/
  shown : Nat
  /-- All parts that appear in the tree. -/
  within : Nat
  favour : Int

/-- A piece of a parse. -/
inductive Piece where
  | leaf (l : Leaf)
  | node (s : Summary) (children : List Piece)

namespace Piece

def extra : Piece → Bool
  | leaf l => l.extra
  | node s _ => s.extra

def withExtra (b : Bool) : Piece → Piece
  | leaf l => leaf { l with extra := b }
  | node s cs => node { s with extra := b } cs

def before : Piece → Cursor
  | leaf l => l.before
  | node s _ => s.before

def start : Piece → Cursor
  | leaf l => l.start
  | node s _ => s.start

def stop : Piece → Cursor
  | leaf l => l.stop
  | node s _ => s.stop

def children : Piece → List Piece
  | leaf _ => []
  | node _ cs => cs

/-- Skipped text, be it unreadable characters or a group of pieces. -/
def isError : Piece → Bool
  | leaf l => l.token.isNone
  | node s _ => s.label = .error

def cost : Piece → Nat
  | leaf l => if l.missing then prices.missing + prices.lost else 0
  | node s _ => s.cost

def favour : Piece → Int
  | leaf _ => 0
  | node s _ => s.favour

/-- The piece appears in the tree by itself. -/
def isShown : Piece → Bool
  | leaf l => match l.token with
    | some t => !t.isHidden
    | none => true
  | node s _ => match s.label with
    | .symbol x => !x.isHidden
    | .error => true
    | .skipped => false

/-- Direct parts that appear in the tree. -/
def shown : Piece → Nat
  | leaf _ => 0
  | node s _ => s.shown

/-- All parts that appear in the tree. -/
def within : Piece → Nat
  | leaf _ => 0
  | node s _ => s.within

/-- A group of skipped pieces that is still open. -/
def isSkipped : Piece → Bool
  | leaf _ => false
  | node s _ => s.label = .skipped

/-- Number of the symbol of a piece. -/
def code : Piece → Nat
  | leaf l => l.token.elim 0xFFFF Token.index
  | node s _ => match s.label with
    | .symbol x => x.code
    | .error => 0xFFFF
    | .skipped => 0xFFFE

/-- How far the piece counts as progress of its parse. -/
def progress (p : Piece) : Nat :=
  p.within + (if p.isShown then 1 else 0) + (if p.isSkipped then 1 else 0)

/-- The price of throwing out a part. -/
def partPrice (p : Piece) : Nat :=
  if p.extra || (p.isError && p.children.isEmpty) then 0
  else if p.isShown then prices.tree
  else prices.tree * p.shown

/-- The names that the steps of a production give to parts, one for each part; extras have none. -/
def renamings : List Step → List Piece → List (Option Kind × Piece)
  | _, [] => []
  | ss, p :: ps =>
    if p.extra then (none, p) :: renamings ss ps
    else
      match ss with
      | [] => (none, p) :: renamings [] ps
      | s :: ss => (s.renamed, p) :: renamings ss ps

/-- The piece with these parts; `here` is its place if there are none. -/
def compose (label : Label) (production : Nat) (steps : List Step) (favour : Int) (here : Cursor)
    (parts : List Piece) : Piece :=
  let skips := label = .error || label = .skipped
  let start := (parts.head?.map Piece.start).getD here
  let stop := (parts.getLast?.map Piece.stop).getD here
  let named := renamings steps parts
  let inner := parts.foldl (fun n p => n + (if p.isSkipped then 0 else p.cost)) 0
  let thrown := if skips then parts.foldl (fun n p => n + p.partPrice) 0 else 0
  let own :=
    if skips then
      prices.lost + prices.byte * (stop.offset - start.offset)
        + prices.line * (stop.row - start.row)
    else 0
  node
    { label
      production
      extra := false
      before := (parts.head?.map Piece.before).getD here
      start
      stop
      cost := inner + thrown + own
      shown := named.foldl (fun n (k, p) =>
        n + (if k.isSome || p.isShown then 1 else p.shown)) 0
      within := named.foldl (fun n (k, p) =>
        n + p.within + (if k.isSome || p.isShown then 1 else 0)) 0
      favour := parts.foldl (fun n p => n + p.favour) favour }
    parts

mutual

/-- Order of pieces by their symbols, from the outside in. -/
def order : Piece → Piece → Ordering
  | leaf l, q => (compare (leaf l).code q.code).then (compare 0 q.children.length)
  | node s ps, q =>
    (compare (node s ps).code q.code).then
      ((compare ps.length q.children.length).then (orderAll ps q.children))

/-- Order of lists of pieces. -/
def orderAll : List Piece → List Piece → Ordering
  | p :: ps, q :: qs => (order p q).then (orderAll ps qs)
  | _, _ => .eq

end

/-- The second parse of the same text is preferred to the first. -/
def prefers (a b : Piece) : Bool :=
  if b.cost < a.cost then true
  else if a.cost < b.cost then false
  else if a.favour < b.favour then true
  else if b.favour < a.favour then false
  else if 0 < a.cost then true
  else order a b == .gt

/-- The pieces without the extras at their end, and those extras. -/
def splitExtras (ps : List Piece) : List Piece × List Piece :=
  let tail := (ps.reverse.takeWhile extra).reverse
  (ps.take (ps.length - tail.length), tail)

/-- Two pieces in the same place say the same, as far as the parse around them goes. -/
def equivalent (a b : Piece) : Bool :=
  a.code == b.code
    && ((0 < a.cost && 0 < b.cost)
      || (a.before.offset == b.before.offset && a.start.offset == b.start.offset
        && a.stop.offset == b.stop.offset && a.children.length == b.children.length
        && a.extra == b.extra))

end Piece

end Go
end RouteScribe
