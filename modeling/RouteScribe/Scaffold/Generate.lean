import RouteScribe.Routing.Directive
import RouteScribe.Scaffold.Name
import RouteScribe.Scaffold.Source
import RouteScribe.Work

/-!
# RouteScribe.Scaffold.Generate

New controllers, new actions of controllers, and new middlewares. Nothing that is there already is
written a second time.
-/

namespace RouteScribe
namespace Scaffold

/-- Stops if an argument is refused. -/
def checked {α : Type} (r : Except ArgumentFault α) : Work α :=
  match r with
  | .ok a => pure a
  | .error f => throw (.argument f)

/-- The method that is written for an action. -/
def stub (typeName : String) (a : Action) : String :=
  "\n// " ++ Routing.Directive.verb.name ++ " " ++ a.verb.text ++ "\n// "
    ++ Routing.Directive.middleware.name ++ "\nfunc (ctrl *" ++ typeName ++ ") " ++ a.name
    ++ "(c *gin.Context) \x7b\n\x7d\n"

/-- The file at `path` declares a method of that name. -/
def hasMethod (path typeName method : String) : Work Bool := do
  let f ← Work.parseFile path
  pure (f.hasMethod typeName method)

/-- The actions whose methods are neither declared nor in `added`, and those that are. Of actions
with one name the first counts as new. -/
def split (source : Go.SourceFile) (typeName : String) (added : List String) :
    List Action → List Action × List Action
  | [] => ([], [])
  | a :: as =>
    if source.hasMethod typeName a.name || added.contains a.name then
      let (new, old) := split source typeName added as
      (new, a :: old)
    else
      let (new, old) := split source typeName (added ++ [a.name]) as
      (a :: new, old)

/-- Adds the methods for actions to a controller and gives the names of those that are new. -/
def writeActions (path typeName : String) (actions : List Action) : Work (List String) := do
  let text ← Work.readText path
  match Go.SourceFile.parse text with
  | .error e => throw (.parse path e)
  | .ok source =>
    let (new, old) := split source typeName [] actions
    Work.reportAll (old.map fun a => .actionExists a.name)
    let names := new.map (·.name)
    if new.isEmpty then pure names
    else
      Work.write path (new.foldl (fun text a => text ++ stub typeName a) text)
      Work.report (.actionsAdded names path)
      pure names

/-- Stops if the project does not have the command. -/
def requireCommand (project : Project) (command : String) : Work Unit := do
  if (← Work.tree).isDir (project.commandDir command) then pure ()
  else throw (.argument (.unknownCommand command))

/-- Writes a new controller with actions. -/
def newController (project : Project) (command route : String) (args : List String) :
    Work Location := do
  requireCommand project command
  let location ← checked (locate project command route)
  let actions ← checked (readActions args)
  if (← Work.tree).exists location.path then
    throw (.argument (.controllerExists location.path))
  Work.renderTo location.path (controllerSource location.typeName)
  Work.report (.controllerCreated location.typeName location.path)
  if !actions.isEmpty then
    let _ ← writeActions location.path location.typeName actions
  pure location

/-- Adds actions to a controller that exists. -/
def addActions (project : Project) (command route : String) (args : List String) :
    Work (List String) := do
  if args.isEmpty then throw (.argument .noActions)
  requireCommand project command
  let location ← checked (locate project command route)
  let actions ← checked (readActions args)
  if !(← Work.tree).isFile location.path then
    throw (.argument (.noController location.path))
  writeActions location.path location.typeName actions

/-- Writes new middlewares and gives the paths of those that were not there. -/
def newMiddlewares (project : Project) : List String → Work (List String)
  | [] => pure []
  | name :: names => do
    if !isIdentifier name then throw (.argument (.middlewareName name))
    let name := capitalize name
    let path := Path.join project.middlewareDir (name ++ ".go")
    if (← Work.tree).exists path then
      Work.report (.fileExists path)
      newMiddlewares project names
    else
      Work.renderTo path (middlewareSource name)
      Work.report (.fileCreated path)
      let rest ← newMiddlewares project names
      pure (path :: rest)

end Scaffold
end RouteScribe
