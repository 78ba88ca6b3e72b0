import RouteScribe.Document.Yaml
import RouteScribe.Routing.Router

/-!
# RouteScribe.Routing.Report

A router as a document, for those who want to look at it before it is written.
-/

namespace RouteScribe
namespace Routing

open Document

def Import.document (i : Import) : Node := .table [("alias", .text i.localName), ("path", .text i.path)]

def Registration.document (r : Registration) : Node :=
  .table [("alias", .text r.localName), ("type_name", .text r.typeName)]

/-- A router as a document. The package of the handlers is left out if it is absent. -/
def Router.document (r : Router) : Node :=
  .table
    ([("imports", .list (r.imports.map (·.document))),
      ("registrations", .list (r.registrations.map (·.document))),
      ("http_methods", .table (r.verbs.map fun v => (v.1, .text v.2.text))),
      ("middlewares", .table (r.middlewares.map fun m => (m.1, .texts m.2)))]
      ++ r.middlewareImport.toList.map fun p => ("middleware_import", .text p))

def Router.printBy (yaml : Node → String) (r : Router) (f : Format) : String :=
  r.document.printBy yaml f

def Router.print (r : Router) (f : Format) : String := r.printBy Yaml.print f

end Routing
end RouteScribe
