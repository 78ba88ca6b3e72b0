import RouteScribe.Project.Layout
import RouteScribe.Failure
import RouteScribe.Routing.Verb
import RouteScribe.Unicode.Alphabetic

/-!
# RouteScribe.Scaffold.Name

The names of controllers, actions and middlewares, as they come from the command line, and where
they lead to.
-/

namespace RouteScribe
namespace Scaffold

def capitalize (s : String) : String :=
  match s.toList with
  | [] => ""
  | c :: cs => String.ofList (Unicode.uppercaseChar c ++ cs)

/-- The text is a Go identifier: letters, digits and underscores, and no digit in front. -/
def isIdentifier (s : String) : Bool :=
  match s.toList with
  | [] => false
  | c :: cs =>
    (Unicode.isAlphabetic c || c = '_') && cs.all fun c => Unicode.isAlphanumeric c || c = '_'

/-- Where a controller is, and what its type is called. -/
structure Location where
  path : String
  typeName : String
  deriving DecidableEq, Repr

def nameFault? (name : String) : Option ArgumentFault :=
  if name.toList.contains ' ' then some (.controllerName "spaces")
  else if name.toList.contains '_' then some (.controllerName "_")
  else if name.toList.contains '-' then some (.controllerName "-")
  else none

def routeFault? (route : String) : Option ArgumentFault :=
  let cs := route.toList
  if route = "" then some .emptyRoute
  else if cs.head? = some '/' || cs.getLast? = some '/' then some .slashAtEdge
  else if (Text.split '/' route).contains "" then some (.emptySegment route)
  else none

/-- The path with another part behind it. -/
def append (path : String) (part : Option String) : String :=
  match part with
  | some p => Path.join path p
  | none => path

/-- Where the controller with a route is. -/
def locate (project : Project) (command route : String) : Except ArgumentFault Location :=
  match routeFault? route with
  | some f => .error f
  | none =>
    let segments := Text.split '/' route
    let name := segments.getLastD ""
    let dir := if segments.length = 1 then none else some (Path.ofSegments segments.dropLast)
    let typeName := capitalize name ++ "Controller"
    match nameFault? typeName with
    | some f => .error f
    | none =>
      .ok ⟨Path.join (Path.join (append (project.apiDir command) dir) "controller") (name ++ ".go"),
        typeName⟩

/-- A method that a controller is to have. -/
structure Action where
  name : String
  verb : Routing.Verb
  deriving DecidableEq, Repr

/-- Reads an action: a name, and a standard verb behind a colon. -/
def Action.read (arg : String) : Except ArgumentFault Action :=
  let cs := arg.toList
  let name := String.ofList (cs.takeWhile (· ≠ ':'))
  if !isIdentifier name then .error (.actionName name)
  else
    match cs.dropWhile (· ≠ ':') with
    | [] => .ok ⟨capitalize name, default⟩
    | _ :: rest =>
      let text := String.ofList rest
      match (Routing.Verb.ofString? text).filter (·.isStandard) with
      | some v => .ok ⟨capitalize name, v⟩
      | none => .error (.verb text)

/-- Reads actions; the first that cannot be read decides. -/
def readActions : List String → Except ArgumentFault (List Action)
  | [] => .ok []
  | arg :: args =>
    match Action.read arg with
    | .error f => .error f
    | .ok a =>
      match readActions args with
      | .ok rest => .ok (a :: rest)
      | .error f => .error f

end Scaffold
end RouteScribe
