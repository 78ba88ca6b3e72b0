import RouteScribe.Template.Render

/-!
# RouteScribe.Scaffold.Source

The Go source texts of new controllers and middlewares.
-/

namespace RouteScribe
namespace Scaffold

def controllerTemplate : String :=
  String.join
    ["package controller\n",
      "\n",
      "import \"github.com/gin-gonic/gin\"\n",
      "\n",
      "type \x7b\x7b controller_struct_name \x7d\x7d struct\x7b\x7d\n",
      "\n",
      "func New\x7b\x7b controller_struct_name \x7d\x7d() *\x7b\x7b controller_struct_name \x7d\x7d \x7b\n",
      "\treturn &\x7b\x7b controller_struct_name \x7d\x7d\x7b\x7d\n",
      "\x7d\n",
      "\n",
      "var _ gin.HandlerFunc\n"]

def middlewareTemplate : String :=
  String.join
    ["package middleware\n",
      "\n",
      "import \"github.com/gin-gonic/gin\"\n",
      "\n",
      "// \x7b\x7b middleware_name \x7d\x7d runs before the actions it is attached to with\n",
      "// @middleware \x7b\x7b middleware_name \x7d\x7d.\n",
      "func \x7b\x7b middleware_name \x7d\x7d(c *gin.Context) \x7b\n",
      "\tc.Next()\n",
      "\x7d\n"]

def controllerSource (typeName : String) : Except Template.Fault String :=
  Template.render controllerTemplate (.map [("controller_struct_name", .str typeName)])

def middlewareSource (name : String) : Except Template.Fault String :=
  Template.render middlewareTemplate (.map [("middleware_name", .str name)])

end Scaffold
end RouteScribe
