import RouteScribe.Files.Resolve
import RouteScribe.Notice
import RouteScribe.Project.Layout

/-!
# RouteScribe.Routing.ImportPath

The import path of a package: the name of the module, and the way from the root of the project to
the directory of the package. Outside of the root it is a guess.
-/

namespace RouteScribe
namespace Routing

structure ImportPath where
  path : String
  /-- The package is outside of the root, and its whole directory follows the name of the module. -/
  guessed : Bool
  deriving DecidableEq, Repr

namespace ImportPath

/-- The path from the root; a path that does not exist is only made absolute. -/
def absolute (t : Files.Tree) (path : String) : String :=
  match t.canonical path with
  | .ok p => p
  | .error _ => Path.absolute "/" path

/-- A package below a module. -/
def under (module : String) (names : List String) : String :=
  match names with
  | [] => module
  | _ => Project.trimSlashes module ++ "/" ++ String.intercalate "/" names

/-- The import path of the package that a file belongs to, and what is reported of it. -/
def ofFile (t : Files.Tree) (module root file : String) : ImportPath × List Notice :=
  let dir := absolute t ((Path.parent? file).getD "")
  let root := absolute t root
  match Path.below? (Path.components root) (Path.components dir) with
  | some rest => (⟨under module (Path.names rest), false⟩, [])
  | none => (⟨under module (Path.names (Path.components dir)), true⟩, [.outsideRoot dir root])

end ImportPath

end Routing
end RouteScribe
