import RouteScribe.Go.Search

/-!
# RouteScribe.Go.Node

Syntax trees. Comments are nodes among the others, wherever they stand.
-/

namespace RouteScribe
namespace Go

inductive Node where
  /-- `missing` marks a token made up by a repair, `broken` any node that holds a repair. -/
  | mk (kind : Kind) (field : Option Field) (missing broken : Bool) (start stop : Cursor)
    (children : List Node)

namespace Node

def kind : Node → Kind | mk k _ _ _ _ _ _ => k
def field : Node → Option Field | mk _ f _ _ _ _ _ => f
def missing : Node → Bool | mk _ _ m _ _ _ _ => m
def broken : Node → Bool | mk _ _ _ b _ _ _ => b
def start : Node → Cursor | mk _ _ _ _ s _ _ => s
def stop : Node → Cursor | mk _ _ _ _ _ s _ => s
def children : Node → List Node | mk _ _ _ _ _ _ cs => cs

def text (n : Node) : String := n.start.textTo n.stop

/-- The line on which a node begins, counted from 1. -/
def line (n : Node) : Nat := n.start.row + 1

/-- The children other than punctuation and keywords. -/
def parts (n : Node) : List Node := n.children.filter (·.kind.isNamed)

/-- The first child in a field. -/
def part? (n : Node) (f : Field) : Option Node := n.children.find? (·.field == some f)

mutual

/-- The nodes that a piece is in a tree; several if it is hidden. -/
def ofPiece (g : Tables) (renamed : Option Kind) (field : Option Field) : Piece → List Node
  | .leaf l =>
    if renamed.isSome || (Piece.leaf l).isShown then
      let own := l.token.elim Kind.error Kind.token
      [mk (renamed.getD own) field l.missing (0 < (Piece.leaf l).cost) l.start l.stop []]
    else []
  | .node s cs =>
    let steps := match s.label with
      | .symbol _ => (g.productions[s.production]?.map (·.steps)).getD []
      | _ => []
    let own := match s.label with
      | .symbol (.phrase p) => if p.isHidden then none else some (Kind.phrase p)
      | .error => some .error
      | _ => none
    match renamed.or own with
    | some k => [mk k field false (0 < s.cost) s.start s.stop (ofPieces g none steps cs)]
    | none => ofPieces g field steps cs

/-- The nodes of the parts of a production; `outer` is the field of a hidden phrase. -/
def ofPieces (g : Tables) (outer : Option Field) : List Step → List Piece → List Node
  | _, [] => []
  | steps, p :: ps =>
    if p.extra then ofPiece g none none p ++ ofPieces g outer steps ps
    else
      match steps with
      | [] => ofPiece g none outer p ++ ofPieces g outer [] ps
      | s :: steps => ofPiece g s.renamed (s.field.or outer) p ++ ofPieces g outer steps ps

end

/-- The syntax tree of a Go source text. -/
def ofSource? (cs : List Char) : Option Node :=
  (parsePiece goTables cs).bind fun p => (ofPiece goTables none none p).head?

end Node

end Go
end RouteScribe
