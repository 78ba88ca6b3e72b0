import RouteScribe.Notice
import RouteScribe.Routing.Registry
import RouteScribe.Routing.Route
import RouteScribe.Routing.Table

/-!
# RouteScribe.Routing.Router

All that a generated router is made of: the packages it imports, the controllers it registers, and
the verb and the handlers of each route.
-/

namespace RouteScribe
namespace Routing

/-- A controller that the router registers when it starts. -/
structure Registration where
  localName : String
  typeName : String
  deriving DecidableEq, Repr

def Registration.statement (r : Registration) : String :=
  "RegisterController(" ++ r.localName ++ ".New" ++ r.typeName ++ "())"

/-- A router as data. -/
structure Router where
  imports : List Import
  /-- In the order of discovery. -/
  registrations : List Registration
  /-- The verb of each route. -/
  verbs : Table Verb
  /-- The qualified handlers of each route that has any. -/
  middlewares : Table (List String)
  /-- The package of the handlers; absent if no route has any. -/
  middlewareImport : Option String
  deriving DecidableEq, Repr, Inhabited

def Router.isEmpty (r : Router) : Bool := r.registrations.isEmpty

/-- A router under construction. -/
structure Draft where
  /-- The package of the handlers. -/
  middlewarePath : String
  registrations : List Registration
  verbs : Table Verb
  middlewares : Table (List String)
  deriving DecidableEq, Repr

namespace Draft

def empty (middlewarePath : String) : Draft := ⟨middlewarePath, [], [], []⟩

/-- A handler as the router refers to it. -/
def handler (name : String) : String := "middleware." ++ name

def addController (d : Draft) (c : Controller) : Draft :=
  { d with registrations := d.registrations ++ [⟨c.localName, c.typeName⟩] }

/-- Records a route, in place of one with the same key. -/
def addRoute (d : Draft) (r : Route) : Draft :=
  let key := r.key.text
  { d with
    verbs := d.verbs.insert key r.verb
    middlewares :=
      match r.middlewares.getD [] with
      | [] => d.middlewares.erase key
      | names => d.middlewares.insert key (names.map handler) }

/-- What is reported when a route is recorded. -/
def routeNotices (d : Draft) (r : Route) : List Notice :=
  if (d.verbs.get? r.key.text).isSome then [.repeatedRoute r.key.text] else []

/-- Records routes one after the other, with what is reported of them. -/
def addRoutes (d : Draft) : List Route → Draft × List Notice
  | [] => (d, [])
  | r :: rs =>
    let (last, notices) := addRoutes (d.addRoute r) rs
    (last, d.routeNotices r ++ notices)

/-- The router, with the packages of `registry`. -/
def build (d : Draft) (registry : Registry) : Router :=
  ⟨registry.entries, d.registrations, d.verbs, d.middlewares,
    if d.middlewares.isEmpty then none else some d.middlewarePath⟩

theorem sorted_verbs_addRoute {d : Draft} (h : d.verbs.Sorted) (r : Route) :
    (d.addRoute r).verbs.Sorted := h.insert _ _

theorem sorted_middlewares_addRoute {d : Draft} (h : d.middlewares.Sorted) (r : Route) :
    (d.addRoute r).middlewares.Sorted := by
  simp only [addRoute]
  split
  · exact h.erase _
  · exact h.insert _ _

end Draft

structure VerbRow where
  key : String
  verb : String
  deriving DecidableEq, Repr

/-- A row of the table of handlers; the handlers are in one text, with commas between them. -/
structure HandlerRow where
  key : String
  handlers : String
  deriving DecidableEq, Repr

/-- What the template of a router refers to. -/
structure RouterSheet where
  /-- The package below which paths are taken from packages. -/
  apiImport : String
  middlewareImport : Option String
  imports : List Import
  verbs : List VerbRow
  middlewares : List HandlerRow
  registrations : List String
  deriving DecidableEq, Repr

/-- The router as rows of text. -/
def Router.sheet (r : Router) (apiImport : String) : RouterSheet :=
  ⟨apiImport, r.middlewareImport, r.imports, r.verbs.map fun v => ⟨v.1, v.2.text⟩,
    r.middlewares.map fun m => ⟨m.1, String.intercalate ", " m.2⟩,
    r.registrations.map (·.statement)⟩

end Routing
end RouteScribe
