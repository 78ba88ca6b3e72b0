import RouteScribe.Go.SourceFile
import RouteScribe.Routing.ImportPath
import RouteScribe.Routing.Matcher
import RouteScribe.Routing.Registry
import RouteScribe.Routing.Route

/-!
# RouteScribe.Routing.Detection

The controllers in a source file. Its package gets an alias with the first controller, so that a
package without controllers is not imported.
-/

namespace RouteScribe
namespace Routing

/-- Where controllers are looked for, and by which rule. -/
structure Detector where
  module : String
  root : String
  matcher : Matcher

/-- What a file contributes: its controllers, the packages known then, and what is reported. -/
structure Detection where
  controllers : List Controller
  registry : Registry
  notices : List Notice

/-- The controllers in the file at `path`, in source order. -/
def Detector.detect (d : Detector) (t : Files.Tree) (registry : Registry) (path : String)
    (source : Go.SourceFile) : Detection :=
  match source.types.filter fun decl => Matcher.accepts decl d.matcher with
  | [] => ⟨[], registry, []⟩
  | decls =>
    let (resolved, notices) := ImportPath.ofFile t d.module d.root path
    let (registry, localName) := registry.register resolved.path
    ⟨decls.map fun decl => ⟨decl.name, resolved.path, localName⟩, registry, notices⟩

end Routing
end RouteScribe
