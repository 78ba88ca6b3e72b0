import RouteScribe.Proofs.Template.Render
import RouteScribe.Scaffold.Source

/-!
# RouteScribe.Proofs.Scaffold.Source

The source texts of new controllers and middlewares, whatever they are called.
-/

namespace RouteScribe
namespace Scaffold

open Template

/-- The tokens of the template of a controller. -/
def lexemes : List Lexeme :=
  [⟨.data "package controller\n\nimport \"github.com/gin-gonic/gin\"\n\ntype ", 1⟩,
    ⟨.exprStart, 5⟩, ⟨.ident "controller_struct_name", 5⟩, ⟨.exprEnd, 5⟩,
    ⟨.data " struct\x7b\x7d\n\nfunc New", 5⟩, ⟨.exprStart, 7⟩,
    ⟨.ident "controller_struct_name", 7⟩, ⟨.exprEnd, 7⟩, ⟨.data "() *", 7⟩, ⟨.exprStart, 7⟩,
    ⟨.ident "controller_struct_name", 7⟩, ⟨.exprEnd, 7⟩, ⟨.data " \x7b\n\treturn &", 7⟩,
    ⟨.exprStart, 8⟩, ⟨.ident "controller_struct_name", 8⟩, ⟨.exprEnd, 8⟩,
    ⟨.data "\x7b\x7d\n\x7d\n\nvar _ gin.HandlerFunc\n", 8⟩]

set_option maxRecDepth 10000 in
theorem tokens_controllerTemplate : tokens controllerTemplate = lexemes := by
  have htemplate := (by repeat (first | exact join_nil | apply join_cons rfl) :
    controllerTemplate = String.ofList _)
  rw [tokens, htemplate, String.toList_ofList, show List.length _ = 235 from rfl]
  rfl

/-- What the template of a controller says. -/
def statements : List Stmt :=
  [.data "package controller\n\nimport \"github.com/gin-gonic/gin\"\n\ntype ",
    .emit (.name "controller_struct_name"), .data " struct\x7b\x7d\n\nfunc New",
    .emit (.name "controller_struct_name"), .data "() *", .emit (.name "controller_struct_name"),
    .data " \x7b\n\treturn &", .emit (.name "controller_struct_name"),
    .data "\x7b\x7d\n\x7d\n\nvar _ gin.HandlerFunc\n"]

set_option maxRecDepth 10000 in
theorem parse_controllerTemplate : parse controllerTemplate = .ok statements := by
  have hfuel : 16 * lexemes.length + 16 = 288 := rfl
  exact parse_of_run tokens_controllerTemplate hfuel rfl

/-- The source text of a controller. -/
def controllerText (typeName : String) : String :=
  String.join
    ["package controller\n\nimport \"github.com/gin-gonic/gin\"\n\ntype ", typeName,
      " struct\x7b\x7d\n\nfunc New", typeName, "() *", typeName, " \x7b\n\treturn &", typeName,
      "\x7b\x7d\n\x7d\n\nvar _ gin.HandlerFunc\n"]

theorem controllerSource_eq (typeName : String) :
    controllerSource typeName = .ok (controllerText typeName) := by
  refine (render_map parse_controllerTemplate _).trans (renderAll_eq ?_)
  exact .cons rfl (.cons rfl (.cons rfl (.cons rfl (.cons rfl (.cons rfl (.cons rfl (.cons rfl
    (.cons rfl .nil))))))))

/-- The tokens of the template of a middleware. -/
def middlewareLexemes : List Lexeme :=
  [⟨.data "package middleware\n\nimport \"github.com/gin-gonic/gin\"\n\n// ", 1⟩,
    ⟨.exprStart, 5⟩, ⟨.ident "middleware_name", 5⟩, ⟨.exprEnd, 5⟩,
    ⟨.data " runs before the actions it is attached to with\n// @middleware ", 5⟩,
    ⟨.exprStart, 6⟩, ⟨.ident "middleware_name", 6⟩, ⟨.exprEnd, 6⟩, ⟨.data ".\nfunc ", 6⟩,
    ⟨.exprStart, 7⟩, ⟨.ident "middleware_name", 7⟩, ⟨.exprEnd, 7⟩,
    ⟨.data "(c *gin.Context) \x7b\n\tc.Next()\n\x7d\n", 7⟩]

set_option maxRecDepth 10000 in
theorem tokens_middlewareTemplate : tokens middlewareTemplate = middlewareLexemes := by
  have htemplate := (by repeat (first | exact join_nil | apply join_cons rfl) :
    middlewareTemplate = String.ofList _)
  rw [tokens, htemplate, String.toList_ofList, show List.length _ = 222 from rfl]
  rfl

/-- What the template of a middleware says. -/
def middlewareStatements : List Stmt :=
  [.data "package middleware\n\nimport \"github.com/gin-gonic/gin\"\n\n// ",
    .emit (.name "middleware_name"),
    .data " runs before the actions it is attached to with\n// @middleware ",
    .emit (.name "middleware_name"), .data ".\nfunc ", .emit (.name "middleware_name"),
    .data "(c *gin.Context) \x7b\n\tc.Next()\n\x7d\n"]

set_option maxRecDepth 10000 in
theorem parse_middlewareTemplate : parse middlewareTemplate = .ok middlewareStatements := by
  have hfuel : 16 * middlewareLexemes.length + 16 = 224 := rfl
  exact parse_of_run tokens_middlewareTemplate hfuel rfl

/-- The source text of a middleware. -/
def middlewareText (name : String) : String :=
  String.join
    ["package middleware\n\nimport \"github.com/gin-gonic/gin\"\n\n// ", name,
      " runs before the actions it is attached to with\n// @middleware ", name, ".\nfunc ", name,
      "(c *gin.Context) \x7b\n\tc.Next()\n\x7d\n"]

theorem middlewareSource_eq (name : String) : middlewareSource name = .ok (middlewareText name) := by
  refine (render_map parse_middlewareTemplate _).trans (renderAll_eq ?_)
  exact .cons rfl (.cons rfl (.cons rfl (.cons rfl (.cons rfl (.cons rfl (.cons rfl .nil))))))

end Scaffold
end RouteScribe
