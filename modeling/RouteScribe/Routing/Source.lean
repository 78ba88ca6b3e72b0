import RouteScribe.Routing.Router
import RouteScribe.Template.Render

/-!
# RouteScribe.Routing.Source

The Go source text of a router. All that depends on the project is in tables; the rest of the text
is the same for all projects.
-/

namespace RouteScribe
namespace Routing
namespace Source

/-- The lines up to the packages of the project. -/
def opening : List String :=
  ["// Code generated by godo gen rt. DO NOT EDIT.\n",
   "\n",
   "package router\n",
   "\n",
   "import (\n",
   "\t\"net/http\"\n",
   "\t\"reflect\"\n",
   "\t\"strings\"\n",
   "\t\"unicode\"\n",
   "\t\"unicode/utf8\"\n",
   "\n",
   "\t\"github.com/gin-gonic/gin\"\n"]

/-- The lines from the end of the tables to the registrations. -/
def middle : List String :=
  ["\x7d\n",
   "\n",
   "var controllers []any\n",
   "\n",
   "type route struct \x7b\n",
   "\tmethod   string\n",
   "\tpath     string\n",
   "\thandlers []gin.HandlerFunc\n",
   "\x7d\n",
   "\n",
   "// RegisterController adds a controller whose actions are mounted by Register.\n",
   "func RegisterController(ctrl any) \x7b\n",
   "\tcontrollers = append(controllers, ctrl)\n",
   "\x7d\n",
   "\n",
   "func init() \x7b\n"]

/-- The lines behind the registrations. -/
def closing : List String :=
  ["\x7d\n",
   "\n",
   "// Register mounts every action of every registered controller on r.\n",
   "//\n",
   "// An action is an exported method with the signature func(*gin.Context).\n",
   "// Its path is /<package dir below the API root>/<controller>/<action>, with\n",
   "// the trailing /controller directory and the Controller suffix dropped and\n",
   "// the first letter of each name lower-cased.\n",
   "func Register(r gin.IRouter) \x7b\n",
   "\tfor _, ctrl := range controllers \x7b\n",
   "\t\tfor _, rt := range routesOf(ctrl) \x7b\n",
   "\t\t\tr.Handle(rt.method, rt.path, rt.handlers...)\n",
   "\t\t\x7d\n",
   "\t\x7d\n",
   "\x7d\n",
   "\n",
   "func routesOf(ctrl any) []route \x7b\n",
   "\tvalue := reflect.ValueOf(ctrl)\n",
   "\ttyp := value.Type()\n",
   "\tbase := typ\n",
   "\tif base.Kind() == reflect.Pointer \x7b\n",
   "\t\tbase = base.Elem()\n",
   "\t\x7d\n",
   "\n",
   "\tdir := strings.TrimPrefix(base.PkgPath(), apiImportPrefix)\n",
   "\tdir = strings.TrimSuffix(dir, \"/controller\")\n",
   "\tcomponent := lowerFirst(strings.TrimSuffix(base.Name(), \"Controller\"))\n",
   "\n",
   "\tvar routes []route\n",
   "\tfor i := 0; i < typ.NumMethod(); i++ \x7b\n",
   "\t\taction, ok := value.Method(i).Interface().(func(*gin.Context))\n",
   "\t\tif !ok \x7b\n",
   "\t\t\tcontinue\n",
   "\t\t\x7d\n",
   "\n",
   "\t\tname := typ.Method(i).Name\n",
   "\t\tkey := base.PkgPath() + \".\" + base.Name() + \".\" + name\n",
   "\t\tmethod, ok := httpMethods[key]\n",
   "\t\tif !ok \x7b\n",
   "\t\t\tmethod = http.MethodPost\n",
   "\t\t\x7d\n",
   "\n",
   "\t\thandlers := append([]gin.HandlerFunc\x7b\x7d, middlewares[key]...)\n",
   "\t\thandlers = append(handlers, action)\n",
   "\t\troutes = append(routes, route\x7b\n",
   "\t\t\tmethod:   method,\n",
   "\t\t\tpath:     dir + \"/\" + component + \"/\" + lowerFirst(name),\n",
   "\t\t\thandlers: handlers,\n",
   "\t\t\x7d)\n",
   "\t\x7d\n",
   "\treturn routes\n",
   "\x7d\n",
   "\n",
   "func lowerFirst(s string) string \x7b\n",
   "\tr, size := utf8.DecodeRuneInString(s)\n",
   "\tif r == utf8.RuneError \x7b\n",
   "\t\treturn s\n",
   "\t\x7d\n",
   "\treturn string(unicode.ToLower(r)) + s[size:]\n",
   "\x7d\n"]

def template : String :=
  String.join (opening ++
    ["\x7b% if middleware_import %\x7d\n",
     "\t\"\x7b\x7b middleware_import \x7d\x7d\"\n",
     "\x7b% endif %\x7d\n",
     "\x7b% for entry in imports %\x7d\n",
     "\t\x7b\x7b entry.alias \x7d\x7d \"\x7b\x7b entry.path \x7d\x7d\"\n",
     "\x7b% endfor %\x7d\n",
     ")\n",
     "\n",
     "// apiImportPrefix is stripped from controller package paths to build URLs.\n",
     "const apiImportPrefix = \"\x7b\x7b api_import_prefix \x7d\x7d\"\n",
     "\n",
     "// httpMethods maps <import-path>.<Controller>.<Action> to its HTTP method.\n",
     "var httpMethods = map[string]string\x7b\n",
     "\x7b% for row in http_methods %\x7d\n",
     "\t\"\x7b\x7b row.key \x7d\x7d\": \"\x7b\x7b row.method \x7d\x7d\",\n",
     "\x7b% endfor %\x7d\n",
     "\x7d\n",
     "\n",
     "// middlewares maps <import-path>.<Controller>.<Action> to the handlers run\n",
     "// before the action.\n",
     "var middlewares = map[string][]gin.HandlerFunc\x7b\n",
     "\x7b% for row in middlewares %\x7d\n",
     "\t\"\x7b\x7b row.key \x7d\x7d\": \x7b \x7b\x7b- row.handlers -\x7d\x7d \x7d,\n",
     "\x7b% endfor %\x7d\n"] ++
    middle ++
    ["\x7b% for registration in registrations %\x7d\n",
     "\t\x7b\x7b registration \x7d\x7d\n",
     "\x7b% endfor %\x7d\n"] ++
    closing)

/-- A package and its alias as a value for templates. -/
def importValue (i : Import) : Template.Value :=
  .map [("alias", .str i.localName), ("path", .str i.path)]

/-- What the template refers to, as a value. -/
def sheetValue (s : RouterSheet) : Template.Value :=
  .map
    [("api_import_prefix", .str s.apiImport),
      ("http_methods",
        .list (s.verbs.map fun r => .map [("key", .str r.key), ("method", .str r.verb)])),
      ("imports", .list (s.imports.map importValue)),
      ("middleware_import", (s.middlewareImport.map .str).getD .none),
      ("middlewares",
        .list (s.middlewares.map fun r => .map [("handlers", .str r.handlers), ("key", .str r.key)])),
      ("registrations", .texts s.registrations)]

end Source

def RouterSheet.source (s : RouterSheet) : Except Template.Fault String :=
  Template.render Source.template (Source.sheetValue s)

end Routing
end RouteScribe
