import RouteScribe.Files.Resolve
import RouteScribe.Text.Path

/-!
# RouteScribe.Routing.Scan

Where the source files of controllers are: in directories named `controller` and everywhere below
them. Hidden directories do not count, and links are not followed, except where the scan begins.
-/

namespace RouteScribe
namespace Routing

open Files

/-- What a scan finds, in the order in which it goes: directories from the outside in, and what is
in a directory by name. -/
structure Scan where
  dirs : List String
  files : List String
  /-- What the scan could not look at. -/
  warnings : List String
  deriving DecidableEq, Repr

namespace Scan

def dirName : String := "controller"

def isHidden (name : String) : Bool := name.toList.head? = some '.'

/-- A directory on the way is hidden. The last name is that of the entry itself. -/
def inHidden (names : Place) : Bool := names.dropLast.any isHidden

/-- The entry or a directory on the way to it is hidden. -/
def concealed (e : Place × Entry) : Bool :=
  inHidden e.1 || (e.2 = .dir && e.1.getLast?.any isHidden)

/-- A Go source file. -/
def isSource (e : Place × Entry) : Bool :=
  match e.2 with
  | .file .. => e.1.getLast?.any fun name => Path.nameExtension? name = some "go"
  | _ => false

/-- The path of what names lead to. -/
def pathOf (root : String) (names : Place) : String := names.foldl Path.join root

/-- The source files below `root`, which is at the place `p`. -/
def sources (t : Tree) (root : String) (p : Place) : List String :=
  ((t.below p).filter fun e => !concealed e && isSource e).map fun e => pathOf root e.1

/-- The outermost directories for controllers below a place. -/
def controllerDirs (t : Tree) (p : Place) : List Place :=
  ((t.below p).filter fun e =>
    e.2 = .dir && !concealed e && e.1.getLast? = some dirName
      && !e.1.dropLast.contains dirName).map (·.1)

/-- Looks for the source files of controllers below `root`. -/
def run (t : Tree) (root : String) : Scan :=
  let refused := fun r : Refusal =>
    Scan.mk [] [] ["IO error for operation on " ++ root ++ ": " ++ r.message]
  match t.find false root with
  | .error r => refused r
  | .ok (p, .dir) =>
    if (Path.fileName? root).getD root = dirName then ⟨[root], sources t root p, []⟩
    else
      let dirs := controllerDirs t p
      ⟨dirs.map (pathOf root),
        dirs.flatMap fun names => sources t (pathOf root names) (p ++ names), []⟩
  | .ok (_, .file ..) => ⟨[], [], []⟩
  | .ok (_, .link _) =>
    match t.find true root with
    | .error r => refused r
    | .ok (p, .dir) =>
      let dirs := controllerDirs t p
      ⟨dirs.map (pathOf root),
        dirs.flatMap fun names => sources t (pathOf root names) (p ++ names), []⟩
    | .ok _ => ⟨[], [], []⟩

/-- A warning as it is reported. -/
def warningText (w : String) : String := "Failed to access path: " ++ w

end Scan

end Routing
end RouteScribe
