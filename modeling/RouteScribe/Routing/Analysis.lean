import RouteScribe.Project.Layout
import RouteScribe.Routing.Detection
import RouteScribe.Routing.Router
import RouteScribe.Routing.Scan
import RouteScribe.Routing.Source
import RouteScribe.Work

/-!
# RouteScribe.Routing.Analysis

From a directory of controllers to a router. All files are read before the first is looked at, so
that a file that cannot be read stops the work early.
-/

namespace RouteScribe
namespace Routing

structure ParsedFile where
  path : String
  source : Go.SourceFile

/-- What is known of the controllers below a directory. -/
structure Analysis where
  router : Router
  controllers : List Controller
  fileCount : Nat
  warnings : List String

namespace Analysis

/-- What the files that were looked at contribute. -/
structure Progress where
  registry : Registry
  draft : Draft
  controllers : List Controller
  notices : List Notice

/-- The notices about the verbs of routes. -/
def verbNotices (routes : List Route) : List Notice :=
  routes.filterMap fun r =>
    if r.verb.isStandard then none else some (.unusualVerb r.key.text r.verb.text)

/-- Adds the routes of controllers that a file declares. -/
def addControllers (source : Go.SourceFile) (p : Progress) : List Controller → Progress
  | [] => p
  | c :: cs =>
    let routes := Route.ofFile source c
    let (draft, repeated) := (p.draft.addController c).addRoutes routes
    addControllers source
      { p with
        draft
        controllers := p.controllers ++ [c]
        notices := p.notices ++ verbNotices routes ++ repeated }
      cs

/-- Adds what a file contributes. -/
def addFile (d : Detector) (t : Files.Tree) (p : Progress) (f : ParsedFile) : Progress :=
  let found := d.detect t p.registry f.path f.source
  addControllers f.source
    { p with registry := found.registry, notices := p.notices ++ found.notices } found.controllers

/-- Adds what files contribute, one after the other. -/
def addFiles (d : Detector) (t : Files.Tree) (p : Progress) (fs : List ParsedFile) : Progress :=
  fs.foldl (addFile d t) p

/-- Reads source files; the first that cannot be read stops the work. -/
def readAll : List String → Work (List ParsedFile)
  | [] => pure []
  | path :: paths => do
    let source ← Work.parseFile path
    let rest ← readAll paths
    pure (⟨path, source⟩ :: rest)

/-- The rule for controllers; `marked` if a directive makes a controller, too. -/
def matcher (marked : Bool) : Matcher :=
  if marked then .anyOf [.conventional, .marker] else .conventional

/-- What is known when all files of a scan have been looked at. -/
def result (scan : Scan) (p : Progress) : Analysis :=
  ⟨p.draft.build p.registry, p.controllers, scan.files.length,
    scan.warnings.map Scan.warningText⟩

/-- Analyses the controllers below a directory, which the rule `m` tells from other types. -/
def ofDirBy (project : Project) (m : Matcher) (dir : String) : Work Analysis := do
  Work.report (.scanning dir)
  let scan := Scan.run (← Work.tree) dir
  Work.reportAll (scan.warnings.map .inaccessible)
  Work.report (.filesFound scan.files.length scan.dirs.length)
  let files ← readAll scan.files
  let detector : Detector := ⟨project.module, project.root, m⟩
  let p :=
    addFiles detector (← Work.tree) ⟨.empty, .empty project.middlewareImport, [], []⟩ files
  Work.reportAll p.notices
  let a := result scan p
  if a.router.isEmpty then Work.report (.noControllers dir)
  Work.report
    (.discovered a.controllers.length a.router.imports.length a.router.verbs.length)
  pure a

/-- Analyses the controllers below a directory. -/
def ofDir (project : Project) (marked : Bool) (dir : String) : Work Analysis :=
  ofDirBy project (matcher marked) dir

def ofCommand (project : Project) (marked : Bool) (command : String) : Work Analysis :=
  ofDir project marked (project.apiDir command)

def routerFile : String := "router.go"

/-- Writes the router of a command and gives the path of its file. -/
def writeRouter (project : Project) (command : String) (a : Analysis) : Work String := do
  let dest := Path.join (project.routerDir command) routerFile
  Work.renderTo dest (a.router.sheet (project.apiImport command)).source
  Work.report (.wrote dest)
  pure dest

/-- Analyses a command and writes its router. -/
def generate (project : Project) (marked : Bool) (command : String) :
    Work (Analysis × String) := do
  let a ← ofCommand project marked command
  let dest ← writeRouter project command a
  pure (a, dest)

end Analysis

end Routing
end RouteScribe
