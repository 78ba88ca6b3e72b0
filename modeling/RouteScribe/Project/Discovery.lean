import RouteScribe.Project.Layout
import RouteScribe.Project.ModuleFile
import RouteScribe.Project.Settings
import RouteScribe.Work

/-!
# RouteScribe.Project.Discovery

Which project a directory belongs to. The directory and those around it are tried from the inside
out; in each of them the settings file comes before the module file. A file that cannot be used
does not count.
-/

namespace RouteScribe
namespace Project

def settingsFile : String := "godoconfig.json"

def moduleFile : String := "go.mod"

/-- The text of a file, if there is one. -/
def fileText? (t : Files.Tree) (path : String) : Option String :=
  if t.isFile path then (t.readText path).toOption else none

/-- The project that the settings file in `dir` describes. -/
def ofSettings? (t : Files.Tree) (dir : String) : Option Project :=
  ((fileText? t (Path.join dir settingsFile)).bind Settings.read?).map fun s =>
    let p := usual dir s.projectName
    if s.defaultCommand = "" then p else { p with defaultCommand := s.defaultCommand }

/-- The project that the module file in `dir` names. -/
def ofModule? (t : Files.Tree) (dir : String) : Option Project :=
  ((fileText? t (Path.join dir moduleFile)).bind moduleName?).map (usual dir)

/-- The project whose root is `dir`. -/
def at? (t : Files.Tree) (dir : String) : Option Project := (ofSettings? t dir).or (ofModule? t dir)

/-- The files that are tried in a directory. -/
def candidates (dir : String) : List String :=
  [Path.join dir settingsFile, Path.join dir moduleFile]

/-- The project that one of the directories is the root of, the first that is. -/
def firstAt (t : Files.Tree) (dirs : List String) : Except ConfigFault Project :=
  match dirs.findSome? (at? t) with
  | none => .error (.noProject (dirs.flatMap candidates))
  | some p => if Unicode.isBlank p.module then .error (.unnamed p.root) else .ok p

/-- The project that a directory belongs to; a relative path begins at `here`. -/
def discover (here start : String) : Work Project := do
  let t ← Work.tree
  match if start = "" then .error .notFound else t.canonical (Path.join here start) with
  | .error r => throw (.io start r)
  | .ok dir =>
    match firstAt t (Path.ancestors dir) with
    | .ok p => pure p
    | .error f => throw (.config f)

end Project
end RouteScribe
