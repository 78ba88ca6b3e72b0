import RouteScribe.Routing.Directive

/-!
# RouteScribe.Routing.Route

Each method of a controller is a route. Its key is unique as long as import paths, type names and
method names are; its verb and its middlewares come from the method's directives.
-/

namespace RouteScribe
namespace Routing

/-- What names a route. -/
structure RouteKey where
  importPath : String
  typeName : String
  methodName : String
  deriving DecidableEq, Repr

def RouteKey.text (k : RouteKey) : String :=
  k.importPath ++ "." ++ k.typeName ++ "." ++ k.methodName

/-- A controller type: the package that declares it, and the alias of that package. -/
structure Controller where
  typeName : String
  importPath : String
  localName : String
  deriving DecidableEq, Repr

/-- A route of a controller. -/
structure Route where
  key : RouteKey
  verb : Verb
  middlewares : Option (List String)
  deriving DecidableEq, Repr

namespace Route

/-- The route that a method of `c` is. -/
def ofMethod (c : Controller) (m : Go.FuncDecl) : Route :=
  let a := Annotations.ofDoc m.doc
  ⟨⟨c.importPath, c.typeName, m.name⟩, (a.verb.bind Verb.ofString?).getD default, a.middlewares⟩

/-- The routes of `c` in the file that declares it, in source order. -/
def ofFile (f : Go.SourceFile) (c : Controller) : List Route :=
  (f.methodsOf c.typeName).map (ofMethod c)

theorem length_ofFile (f : Go.SourceFile) (c : Controller) :
    (ofFile f c).length = (f.methodsOf c.typeName).length := by
  simp [ofFile]

theorem verb_ofMethod_of_doc_eq_none {c : Controller} {m : Go.FuncDecl} (h : m.doc = none) :
    (ofMethod c m).verb = .post := by
  simp [ofMethod, h, Annotations.ofDoc, Annotations.empty, default]

end Route

end Routing
end RouteScribe
