import RouteScribe.Proofs.Template.Render
import RouteScribe.Proofs.Text.Bytes
import RouteScribe.Routing.Source

/-!
# RouteScribe.Proofs.Routing.Source

The template of a router has no faults, whatever the router is: the text of a router is made of
lines that are always the same and of one line for each row of its tables.

* `parse_template`: the statements of the template.
* `source_eq`: the text of a router.
* `source_sheet`: the text of a router is the template with lines in place of its tags.
-/

namespace RouteScribe
namespace Routing
namespace Source

open Template

/-! ## The statements of the template -/

/-- What stands between the packages and the path of the API. -/
def beforeApi : List String :=
  [")\n",
   "\n",
   "// apiImportPrefix is stripped from controller package paths to build URLs.\n",
   "const apiImportPrefix = \""]

/-- What stands between the path of the API and the table of verbs. -/
def beforeVerbs : List String :=
  ["\"\n",
   "\n",
   "// httpMethods maps <import-path>.<Controller>.<Action> to its HTTP method.\n",
   "var httpMethods = map[string]string\x7b\n"]

/-- What stands between the tables. -/
def beforeHandlers : List String :=
  ["\x7d\n",
   "\n",
   "// middlewares maps <import-path>.<Controller>.<Action> to the handlers run\n",
   "// before the action.\n",
   "var middlewares = map[string][]gin.HandlerFunc\x7b\n"]

/-- The tokens of the template. -/
def lexemes : List Lexeme :=
  [⟨.data (String.join opening), 1⟩, ⟨.stmtStart, 13⟩, ⟨.ident "if", 13⟩,
    ⟨.ident "middleware_import", 13⟩, ⟨.stmtEnd, 13⟩, ⟨.data "\t\"", 14⟩, ⟨.exprStart, 14⟩,
    ⟨.ident "middleware_import", 14⟩, ⟨.exprEnd, 14⟩, ⟨.data "\"\n", 14⟩, ⟨.stmtStart, 15⟩,
    ⟨.ident "endif", 15⟩, ⟨.stmtEnd, 15⟩, ⟨.stmtStart, 16⟩, ⟨.ident "for", 16⟩,
    ⟨.ident "entry", 16⟩, ⟨.ident "in", 16⟩, ⟨.ident "imports", 16⟩, ⟨.stmtEnd, 16⟩,
    ⟨.data "\t", 17⟩, ⟨.exprStart, 17⟩, ⟨.ident "entry", 17⟩, ⟨.sign ".", 17⟩, ⟨.ident "alias", 17⟩,
    ⟨.exprEnd, 17⟩, ⟨.data " \"", 17⟩, ⟨.exprStart, 17⟩, ⟨.ident "entry", 17⟩, ⟨.sign ".", 17⟩,
    ⟨.ident "path", 17⟩, ⟨.exprEnd, 17⟩, ⟨.data "\"\n", 17⟩, ⟨.stmtStart, 18⟩,
    ⟨.ident "endfor", 18⟩, ⟨.stmtEnd, 18⟩, ⟨.data (String.join beforeApi), 19⟩, ⟨.exprStart, 22⟩,
    ⟨.ident "api_import_prefix", 22⟩, ⟨.exprEnd, 22⟩, ⟨.data (String.join beforeVerbs), 22⟩,
    ⟨.stmtStart, 26⟩, ⟨.ident "for", 26⟩, ⟨.ident "row", 26⟩, ⟨.ident "in", 26⟩,
    ⟨.ident "http_methods", 26⟩, ⟨.stmtEnd, 26⟩, ⟨.data "\t\"", 27⟩, ⟨.exprStart, 27⟩,
    ⟨.ident "row", 27⟩, ⟨.sign ".", 27⟩, ⟨.ident "key", 27⟩, ⟨.exprEnd, 27⟩, ⟨.data "\": \"", 27⟩,
    ⟨.exprStart, 27⟩, ⟨.ident "row", 27⟩, ⟨.sign ".", 27⟩, ⟨.ident "method", 27⟩, ⟨.exprEnd, 27⟩,
    ⟨.data "\",\n", 27⟩, ⟨.stmtStart, 28⟩, ⟨.ident "endfor", 28⟩, ⟨.stmtEnd, 28⟩,
    ⟨.data (String.join beforeHandlers), 29⟩, ⟨.stmtStart, 34⟩, ⟨.ident "for", 34⟩,
    ⟨.ident "row", 34⟩, ⟨.ident "in", 34⟩, ⟨.ident "middlewares", 34⟩, ⟨.stmtEnd, 34⟩,
    ⟨.data "\t\"", 35⟩, ⟨.exprStart, 35⟩, ⟨.ident "row", 35⟩, ⟨.sign ".", 35⟩, ⟨.ident "key", 35⟩,
    ⟨.exprEnd, 35⟩, ⟨.data "\": \x7b", 35⟩, ⟨.exprStart, 35⟩, ⟨.ident "row", 35⟩, ⟨.sign ".", 35⟩,
    ⟨.ident "handlers", 35⟩, ⟨.exprEnd, 35⟩, ⟨.data "\x7d,\n", 35⟩, ⟨.stmtStart, 36⟩,
    ⟨.ident "endfor", 36⟩, ⟨.stmtEnd, 36⟩, ⟨.data (String.join middle), 37⟩, ⟨.stmtStart, 53⟩,
    ⟨.ident "for", 53⟩, ⟨.ident "registration", 53⟩, ⟨.ident "in", 53⟩,
    ⟨.ident "registrations", 53⟩, ⟨.stmtEnd, 53⟩, ⟨.data "\t", 54⟩, ⟨.exprStart, 54⟩,
    ⟨.ident "registration", 54⟩, ⟨.exprEnd, 54⟩, ⟨.data "\n", 54⟩, ⟨.stmtStart, 55⟩,
    ⟨.ident "endfor", 55⟩, ⟨.stmtEnd, 55⟩, ⟨.data (String.join closing), 56⟩]

set_option maxRecDepth 10000 in
-- To compare texts by evaluation is slow; each is spelled out first, one line after the other.
theorem tokens_template : tokens template = lexemes := by
  have htemplate := (by repeat (first | exact join_nil | apply join_cons rfl) :
    template = String.ofList _)
  have hopening := (by repeat (first | exact join_nil | apply join_cons rfl) :
    String.join opening = String.ofList _)
  have hapi := (by repeat (first | exact join_nil | apply join_cons rfl) :
    String.join beforeApi = String.ofList _)
  have hverbs := (by repeat (first | exact join_nil | apply join_cons rfl) :
    String.join beforeVerbs = String.ofList _)
  have hhandlers := (by repeat (first | exact join_nil | apply join_cons rfl) :
    String.join beforeHandlers = String.ofList _)
  have hmiddle := (by repeat (first | exact join_nil | apply join_cons rfl) :
    String.join middle = String.ofList _)
  have hclosing := (by repeat (first | exact join_nil | apply join_cons rfl) :
    String.join closing = String.ofList _)
  rw [tokens, htemplate, String.toList_ofList, show List.length _ = 2818 from rfl, lexemes,
    hopening, hapi, hverbs, hhandlers, hmiddle, hclosing]
  rfl

/-- What the template says. -/
def statements : List Stmt :=
  [.data (String.join opening),
   .branch (.name "middleware_import")
     [.data "\t\"", .emit (.name "middleware_import"), .data "\"\n"] [],
   .loop 16 (.name "entry") (.name "imports") none
     [.data "\t", .emit (.field 17 (.name "entry") "alias"), .data " \"",
      .emit (.field 17 (.name "entry") "path"), .data "\"\n"] [],
   .data (String.join beforeApi),
   .emit (.name "api_import_prefix"),
   .data (String.join beforeVerbs),
   .loop 26 (.name "row") (.name "http_methods") none
     [.data "\t\"", .emit (.field 27 (.name "row") "key"), .data "\": \"",
      .emit (.field 27 (.name "row") "method"), .data "\",\n"] [],
   .data (String.join beforeHandlers),
   .loop 34 (.name "row") (.name "middlewares") none
     [.data "\t\"", .emit (.field 35 (.name "row") "key"), .data "\": \x7b",
      .emit (.field 35 (.name "row") "handlers"), .data "\x7d,\n"] [],
   .data (String.join middle),
   .loop 53 (.name "registration") (.name "registrations") none
     [.data "\t", .emit (.name "registration"), .data "\n"] [],
   .data (String.join closing)]

set_option maxRecDepth 10000 in
theorem parse_template : parse template = .ok statements := by
  have hfuel : 16 * lexemes.length + 16 = 1632 := rfl
  exact parse_of_run tokens_template hfuel rfl

/-! ## The text of a router -/

def importLine (i : Import) : String :=
  String.join ["\t", i.localName, " \"", i.path, "\"\n"]

/-- The line of the package of the handlers; none without one. -/
def handlerImportLine (path : Option String) : String :=
  match path with
  | some "" | none => ""
  | some path => String.join ["\t\"", path, "\"\n"]

def verbLine (r : VerbRow) : String :=
  String.join ["\t\"", r.key, "\": \"", r.verb, "\",\n"]

def handlerLine (r : HandlerRow) : String :=
  String.join ["\t\"", r.key, "\": \x7b", r.handlers, "\x7d,\n"]

def registrationLine (statement : String) : String :=
  String.join ["\t", statement, "\n"]

/-- The text of a router, part by part. -/
def parts (s : RouterSheet) : List String :=
  [String.join opening,
   handlerImportLine s.middlewareImport,
   String.join (s.imports.map importLine),
   String.join beforeApi,
   s.apiImport,
   String.join beforeVerbs,
   String.join (s.verbs.map verbLine),
   String.join beforeHandlers,
   String.join (s.middlewares.map handlerLine),
   String.join middle,
   String.join (s.registrations.map registrationLine),
   String.join closing]

theorem render_handlerImport {scope : Scope} (path : Option String)
    (h : scope.get "middleware_import" = (path.map Value.str).getD .none) :
    (Stmt.branch (.name "middleware_import")
      [.data "\t\"", .emit (.name "middleware_import"), .data "\"\n"] []).render scope
        = .ok (handlerImportLine path) := by
  cases path with
  | none =>
    simp only [Stmt.render, Expr.eval, h, Option.map_none, Option.getD_none, Value.holds,
      Bool.false_eq_true, if_false]
    rfl
  | some path =>
    by_cases hempty : path = ""
    · subst hempty
      simp only [Stmt.render, Expr.eval, h, Option.map_some, Option.getD_some, Value.holds]
      rfl
    · have hline : renderAll [.data "\t\"", .emit (.name "middleware_import"), .data "\"\n"] scope
          = .ok (String.join ["\t\"", path, "\"\n"]) := by
        refine renderAll_eq (.cons rfl (.cons ?_ (.cons rfl .nil)))
        simp only [Stmt.render, Expr.eval, h, Option.map_some, Option.getD_some, Value.text]
      simp only [Stmt.render, Expr.eval, h, Option.map_some, Option.getD_some, Value.holds, hempty,
        ne_eq, not_false_eq_true, decide_true, if_true, hline, handlerImportLine]

theorem source_eq (s : RouterSheet) : s.source = .ok (String.join (parts s)) := by
  refine (render_map parse_template _).trans (renderAll_eq ?_)
  refine .cons rfl (.cons (render_handlerImport _ rfl) (.cons ?_ (.cons rfl (.cons rfl (.cons rfl
    (.cons ?_ (.cons rfl (.cons ?_ (.cons rfl (.cons ?_ (.cons rfl .nil)))))))))))
  · exact render_loop rfl fun i _ bound =>
      .cons rfl (.cons rfl (.cons rfl (.cons rfl (.cons rfl .nil))))
  · exact render_loop rfl fun r _ bound =>
      .cons rfl (.cons rfl (.cons rfl (.cons rfl (.cons rfl .nil))))
  · exact render_loop rfl fun r _ bound =>
      .cons rfl (.cons rfl (.cons rfl (.cons rfl (.cons rfl .nil))))
  · exact render_loop rfl fun r _ bound => .cons rfl (.cons rfl (.cons rfl .nil))

/-! ## Template and text side by side -/

/-- What the template and the text of a router have in common, around what the tags give. -/
def around (handlerImport imports apiImport verbs handlers registrations : String) : String :=
  String.join
    [String.join opening, handlerImport, imports, String.join beforeApi, apiImport,
     String.join beforeVerbs, verbs, String.join beforeHandlers, handlers, String.join middle,
     registrations, String.join closing]

/-- The tags that a line for the package of the handlers comes from. -/
def handlerImportTags : String :=
  String.join ["\x7b% if middleware_import %\x7d\n",
    "\t\"\x7b\x7b middleware_import \x7d\x7d\"\n", "\x7b% endif %\x7d\n"]

/-- The tags that lines for packages come from. -/
def importTags : String :=
  String.join ["\x7b% for entry in imports %\x7d\n",
    "\t\x7b\x7b entry.alias \x7d\x7d \"\x7b\x7b entry.path \x7d\x7d\"\n", "\x7b% endfor %\x7d\n"]

/-- The tag that the path of the API comes from. -/
def apiTag : String := "\x7b\x7b api_import_prefix \x7d\x7d"

/-- The tags that lines for verbs come from. -/
def verbTags : String :=
  String.join ["\x7b% for row in http_methods %\x7d\n",
    "\t\"\x7b\x7b row.key \x7d\x7d\": \"\x7b\x7b row.method \x7d\x7d\",\n", "\x7b% endfor %\x7d\n"]

/-- The tags that lines for handlers come from. -/
def handlerTags : String :=
  String.join ["\x7b% for row in middlewares %\x7d\n",
    "\t\"\x7b\x7b row.key \x7d\x7d\": \x7b \x7b\x7b- row.handlers -\x7d\x7d \x7d,\n",
    "\x7b% endfor %\x7d\n"]

/-- The tags that lines for registrations come from. -/
def registrationTags : String :=
  String.join ["\x7b% for registration in registrations %\x7d\n",
    "\t\x7b\x7b registration \x7d\x7d\n", "\x7b% endfor %\x7d\n"]

theorem template_eq : template
    = around handlerImportTags importTags apiTag verbTags handlerTags registrationTags := by
  -- The path of the API is the only tag that shares its line with other text.
  have hapi : "const apiImportPrefix = \"\x7b\x7b api_import_prefix \x7d\x7d\"\n"
      = "const apiImportPrefix = \"" ++ "\x7b\x7b api_import_prefix \x7d\x7d" ++ "\"\n" := by
    decide
  simp only [template, around, handlerImportTags, importTags, apiTag, verbTags, handlerTags,
    registrationTags, hapi, beforeApi, beforeVerbs, beforeHandlers, String.join_append,
    String.join_cons, String.join_nil, String.append_assoc, String.append_empty]

theorem join_parts (s : RouterSheet) : String.join (parts s) = around
    (handlerImportLine s.middlewareImport) (String.join (s.imports.map importLine)) s.apiImport
    (String.join (s.verbs.map verbLine)) (String.join (s.middlewares.map handlerLine))
    (String.join (s.registrations.map registrationLine)) := rfl

theorem handlerImportLine_eq (path : Option String) : handlerImportLine path
    = match path with
      | none => ""
      | some path => if path = "" then "" else "\t\"" ++ path ++ "\"\n" := by
  cases path with
  | none => rfl
  | some path =>
    by_cases hempty : path = ""
    · subst hempty
      rfl
    · simp [handlerImportLine, hempty, String.append_assoc]

theorem importLine_eq :
    importLine = fun i => "\t" ++ i.localName ++ " \"" ++ i.path ++ "\"\n" := by
  funext i
  simp [importLine, String.append_assoc]

theorem verbLine_eq : verbLine = fun r => "\t\"" ++ r.key ++ "\": \"" ++ r.verb ++ "\",\n" := by
  funext r
  simp [verbLine, String.append_assoc]

theorem handlerLine_eq :
    handlerLine = fun r => "\t\"" ++ r.key ++ "\": \x7b" ++ r.handlers ++ "\x7d,\n" := by
  funext r
  simp [handlerLine, String.append_assoc]

theorem registrationLine_eq : registrationLine = fun statement => "\t" ++ statement ++ "\n" := by
  funext statement
  simp [registrationLine, String.append_assoc]

theorem pairwise_bytes_of_sorted {α : Type} {t : Table α} (h : t.Sorted) :
    (t.map fun row => Text.bytes row.1).Pairwise (· < ·) :=
  List.pairwise_map.2 (h.imp Text.bytes_lt)

/-- The text of a router is its template with lines in place of the tags: one line for each row, in
the order of the rows, and the rows of both tables in the order of the bytes of their keys. -/
theorem source_sheet (r : Router) (apiImport : String) (hverbs : r.verbs.Sorted)
    (hmiddlewares : r.middlewares.Sorted) :
    template = around handlerImportTags importTags apiTag verbTags handlerTags registrationTags ∧
    (r.sheet apiImport).source = .ok (around
      (match r.middlewareImport with
        | none => ""
        | some path => if path = "" then "" else "\t\"" ++ path ++ "\"\n")
      (String.join (r.imports.map fun i => "\t" ++ i.localName ++ " \"" ++ i.path ++ "\"\n"))
      apiImport
      (String.join (r.verbs.map fun row => "\t\"" ++ row.1 ++ "\": \"" ++ row.2.text ++ "\",\n"))
      (String.join (r.middlewares.map fun row =>
        "\t\"" ++ row.1 ++ "\": \x7b" ++ String.intercalate ", " row.2 ++ "\x7d,\n"))
      (String.join (r.registrations.map fun g =>
        "\t" ++ ("RegisterController(" ++ g.localName ++ ".New" ++ g.typeName ++ "())") ++ "\n"))) ∧
    (r.verbs.map fun row => Text.bytes row.1).Pairwise (· < ·) ∧
    (r.middlewares.map fun row => Text.bytes row.1).Pairwise (· < ·) := by
  refine ⟨template_eq, ?_, pairwise_bytes_of_sorted hverbs, pairwise_bytes_of_sorted hmiddlewares⟩
  have hsource := source_eq (r.sheet apiImport)
  have hverbLines : (r.sheet apiImport).verbs.map verbLine = r.verbs.map fun row =>
      "\t\"" ++ row.1 ++ "\": \"" ++ row.2.text ++ "\",\n" := by
    rw [verbLine_eq]
    exact List.map_map
  have hhandlerLines : (r.sheet apiImport).middlewares.map handlerLine = r.middlewares.map fun row =>
      "\t\"" ++ row.1 ++ "\": \x7b" ++ String.intercalate ", " row.2 ++ "\x7d,\n" := by
    rw [handlerLine_eq]
    exact List.map_map
  have hregistrationLines : (r.sheet apiImport).registrations.map registrationLine
      = r.registrations.map fun g =>
        "\t" ++ ("RegisterController(" ++ g.localName ++ ".New" ++ g.typeName ++ "())") ++ "\n" := by
    rw [registrationLine_eq]
    exact List.map_map
  rw [join_parts, handlerImportLine_eq, importLine_eq, hverbLines, hhandlerLines,
    hregistrationLines] at hsource
  exact hsource

/-- A router whose names look like tags and quotes. -/
def taggedRouter : Router where
  imports := [⟨"m/\x7b\x7b x \x7d\x7d", "controller0"⟩, ⟨"m/b", "controller1"⟩]
  registrations := [⟨"controller1", "BController"⟩, ⟨"controller0", "AController"⟩]
  verbs := [("a\"", .get), ("b\n", .other "\x7b% IF %\x7d")]
  middlewares := [("b\n", ["middleware.A", "middleware.\x7b# b #\x7d"])]
  middlewareImport := some ""

theorem source_taggedRouter : taggedRouter.verbs.Sorted ∧ taggedRouter.middlewares.Sorted ∧
    (taggedRouter.sheet "p\"").source = .ok (around ""
      "\tcontroller0 \"m/\x7b\x7b x \x7d\x7d\"\n\tcontroller1 \"m/b\"\n" "p\""
      "\t\"a\"\": \"GET\",\n\t\"b\n\": \"\x7b% IF %\x7d\",\n"
      "\t\"b\n\": \x7bmiddleware.A, middleware.\x7b# b #\x7d\x7d,\n"
      ("\tRegisterController(controller1.NewBController())\n"
        ++ "\tRegisterController(controller0.NewAController())\n")) := by
  have hverbs : taggedRouter.verbs.Sorted := by decide
  have hmiddlewares : taggedRouter.middlewares.Sorted := by decide
  obtain ⟨-, hsource, -, -⟩ := source_sheet taggedRouter "p\"" hverbs hmiddlewares
  have hhandlers : String.intercalate ", " ["middleware.A", "middleware.\x7b# b #\x7d"]
      = "middleware.A, middleware.\x7b# b #\x7d" := rfl
  refine ⟨hverbs, hmiddlewares, hsource.trans ?_⟩
  simp [taggedRouter, String.join, Verb.text, hhandlers]

end Source
end Routing
end RouteScribe
