import RouteScribe.CommandLine.Arguments
import RouteScribe.Project.Discovery
import RouteScribe.Routing.Analysis
import RouteScribe.Routing.Report
import RouteScribe.Scaffold.Generate

/-!
# RouteScribe.CommandLine.Run

Carries out a request. There is nobody to ask: what is missing and would have to be asked for stops
the work.
-/

namespace RouteScribe
namespace CommandLine

/-- What was to be done when something failed. -/
inductive Goal where
  | locate (start : String)
  | controller (route : String)
  | actions (route : String)
  | middlewares
  | analyze (command : String)
  | writeRouter
  deriving DecidableEq, Repr

def Goal.message : Goal → String
  | locate s => "Failed to locate a godo project from " ++ s
  | controller r => "Failed to generate controller '" ++ r ++ "'"
  | actions r => "Failed to add actions to '" ++ r ++ "'"
  | middlewares => "Failed to generate middleware"
  | analyze c => "Failed to analyze controllers of cmd '" ++ c ++ "'"
  | writeRouter => "Failed to write router"

/-- A question that would be asked. -/
inductive Question where
  | route
  | actions
  deriving DecidableEq, Repr

def Question.text : Question → String
  | route => "Controller route"
  | actions => "Actions (name[:verb], space separated)"

/-- Why a request is not carried out to its end. -/
inductive Stop where
  | failed (goal : Goal) (cause : Failure)
  | unanswered (question : Question)
  deriving DecidableEq, Repr

namespace Stop

def deeper : Failure → List String
  | .io _ r => [r.message]
  | .parse _ e => ["line " ++ toString e.line ++ ": " ++ e.fault.message]
  | .template f => [f.cause.name]
  | _ => []

/-- The reasons, the outermost first. -/
def chain : Stop → List String
  | failed g f => g.message :: f.message :: deeper f
  | unanswered q =>
    ["Failed to read input for '" ++ q.text ++ "'", "IO error: not a terminal"]

end Stop

/-- A task of a request. -/
abbrev Errand (α : Type) := ExceptT Stop (StateM Session) α

namespace Errand

/-- A task that is done for a goal. -/
def toward {α : Type} (goal : Goal) (work : Work α) : Errand α :=
  ExceptT.mk do
    match ← ExceptT.run work with
    | .ok a => pure (.ok a)
    | .error f => pure (.error (.failed goal f))

/-- Reports a fact. -/
def report (n : Notice) : Errand Unit := modify fun s => { s with log := s.log ++ [n] }

/-- The value that is given, unless it is blank. -/
def valueOr (given : Option String) (q : Question) : Errand String :=
  match given.filter (!Unicode.isBlank ·) with
  | some v => pure v
  | none => throw (.unanswered q)

/-- The words that are given, if there are any. -/
def wordsOr (given : List String) (q : Question) : Errand (List String) :=
  if given.isEmpty then throw (.unanswered q) else pure given

/-- Generates or prints the router of a command, and gives what is printed. -/
def router (project : Project) (command : String) (marked dryRun : Bool)
    (format : Document.Format) : Errand String := do
  report (.generating command)
  let a ← toward (.analyze command) (Routing.Analysis.ofCommand project marked command)
  let out ←
    if dryRun then
      report (.serializing format.name)
      pure (a.router.print format ++ "\n")
    else
      let dest ← toward .writeRouter (Routing.Analysis.writeRouter project command a)
      report (.routerWritten dest)
      pure ""
  report .summary
  report (.parsedCount a.fileCount)
  report (.controllerCount a.controllers.length)
  report (.routeCount a.router.verbs.length)
  report (.warningCount a.warnings.length)
  pure out

def perform (project : Project) : Job → Errand String
  | .router command marked dryRun format =>
    router project (project.commandOr command) marked dryRun format
  | .controller command route actions => do
    let command := project.commandOr command
    let route ← valueOr route .route
    let location ← toward (.controller route)
      (Scaffold.newController project command route actions)
    report (.controllerReady location.typeName location.path)
    pure ""
  | .actions command route actions => do
    let command := project.commandOr command
    let actions ← wordsOr actions .actions
    let route ← valueOr route .route
    let added ← toward (.actions route) (Scaffold.addActions project command route actions)
    if added.isEmpty then report .nothingAdded
    pure ""
  | .middlewares names => do
    let written ← toward .middlewares (Scaffold.newMiddlewares project names)
    report (.middlewareCount written.length)
    pure ""

end Errand

/-- Carries out a request in the directory `here`, and gives what is printed. -/
def Request.run (r : Request) (here : String) : Errand String := do
  let start := r.start.getD here
  let project ← Errand.toward (.locate start) (Project.discover here start)
  Errand.report (.projectFound project.module project.root)
  Errand.perform project r.job

end CommandLine
end RouteScribe
