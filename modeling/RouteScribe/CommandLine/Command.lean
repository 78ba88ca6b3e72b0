/-!
# RouteScribe.CommandLine.Command

The commands of the command line, what each of them takes, and the help on it.
-/

namespace RouteScribe
namespace CommandLine

inductive Command where
  | main
  | generate
  | router
  | controller
  | actions
  | middlewares
  /-- Help on the commands of `main`. -/
  | mainHelp
  /-- Help on the commands of `generate`. -/
  | generateHelp
  deriving DecidableEq, Repr

/-- What is given with a dash in front. -/
inductive Switch where
  | root
  | verbose
  | help
  | version
  | command
  | marker
  | dryRun
  | format
  | controller
  deriving DecidableEq, Repr

namespace Switch

/-- The name behind two dashes. -/
def long : Switch → String
  | root => "root"
  | verbose => "verbose"
  | help => "help"
  | version => "version"
  | command => "cmd"
  | marker => "marker"
  | dryRun => "dry-run"
  | format => "format"
  | controller => "ctrl"

/-- The letter behind one dash. -/
def short? : Switch → Option Char
  | verbose => some 'v'
  | help => some 'h'
  | version => some 'V'
  | format => some 'f'
  | _ => none

/-- What the value is called, if there is one. -/
def value? : Switch → Option String
  | root => some "DIR"
  | command => some "NAME"
  | format => some "OUTPUT_FORMAT"
  | controller => some "ROUTE"
  | _ => none

/-- The switch as messages show it. -/
def shown (s : Switch) : String :=
  "--" ++ s.long
    ++ match s.value? with
      | some v => " <" ++ v ++ ">"
      | none => ""

end Switch

/-- A word that a command takes. -/
structure Argument where
  name : String
  required : Bool
  /-- More than one word. -/
  many : Bool
  explanation : String

def Argument.shown (a : Argument) : String :=
  (if a.required then "<" ++ a.name ++ ">" else "[" ++ a.name ++ "]")
    ++ if a.many then "..." else ""

namespace Command

def word : Command → String
  | main => "godo"
  | generate => "gen"
  | router => "rt"
  | controller => "ctrl"
  | actions => "act"
  | middlewares => "mdw"
  | mainHelp | generateHelp => "help"

/-- The words that lead to a command. -/
def path : Command → String
  | main => main.word
  | generate => main.word ++ " " ++ generate.word
  | mainHelp => main.word ++ " " ++ mainHelp.word
  | c => main.word ++ " " ++ generate.word ++ " " ++ c.word

def about : Command → String
  | main =>
    "Scaffolding for Go web projects: generates controllers, middleware and an HTTP router from "
      ++ "annotated Go sources"
  | generate => "Generate code"
  | router => "Generate router.go from controller annotations"
  | controller => "Create a controller, optionally with actions"
  | actions => "Add actions to an existing controller"
  | middlewares => "Create middleware files"
  | mainHelp | generateHelp => "Print this message or the help of the given subcommand(s)"

/-- The commands of a command, one of which has to follow. -/
def children : Command → List Command
  | main => [generate, mainHelp]
  | generate => [router, controller, actions, middlewares, generateHelp]
  | _ => []

def child? (c : Command) (w : String) : Option Command := c.children.find? (·.word = w)

/-- The switches of a command, in the order in which the help lists them. -/
def switches : Command → List Switch
  | main => [.root, .verbose, .help, .version]
  | generate => [.root, .verbose, .help]
  | router => [.command, .marker, .root, .dryRun, .verbose, .format, .help]
  | controller => [.command, .root, .verbose, .help]
  | actions => [.controller, .command, .root, .verbose, .help]
  | middlewares => [.root, .verbose, .help]
  | mainHelp | generateHelp => []

def arguments : Command → List Argument
  | controller =>
    [⟨"ROUTE", false, false, "Controller route, e.g. admin/user (asked for when omitted)"⟩,
      ⟨"ACTION", false, true, "Actions as name[:verb], e.g. list:get create"⟩]
  | actions =>
    [⟨"ACTION", false, true,
      "Actions as name[:verb], e.g. list:get create (asked for when omitted)"⟩]
  | middlewares => [⟨"NAME", true, true, "Middleware names"⟩]
  | mainHelp | generateHelp => [⟨"COMMAND", false, true, "Print help for the subcommand(s)"⟩]
  | _ => []

def explanation (c : Command) : Switch → String
  | .root => "Directory to start project discovery from (default: current directory)"
  | .verbose => "Enable verbose output"
  | .help => "Print help"
  | .version => "Print version"
  | .command =>
    (if c = router then "Cmd whose router is generated" else "Cmd the controller belongs to")
      ++ " (default: from godoconfig.json)"
  | .marker => "Also treat types whose doc comment has an @controller line as controllers"
  | .dryRun => "Print the router configuration instead of writing router.go"
  | .format => "Format of the --dry-run output (yaml or json) [default: yaml]"
  | .controller => "Route of the controller to extend (asked for when omitted)"

/-- How a command is called. -/
def usage (c : Command) : String :=
  c.path ++ (if c.switches.isEmpty then "" else " [OPTIONS]")
    ++ String.join (c.arguments.map fun a => " " ++ a.shown)
    ++ if c.children.isEmpty then "" else " <COMMAND>"

/-- A heading and rows of two columns; nothing if there is no row. -/
def columns (heading : String) (rows : List (String × String)) : String :=
  let width := (rows.map (·.1.length)).foldl max 0
  if rows.isEmpty then ""
  else
    "\n" ++ heading ++ ":\n"
      ++ String.join
        (rows.map fun (a, b) =>
          "  " ++ a ++ String.ofList (List.replicate (width - a.length + 2) ' ') ++ b ++ "\n")

/-- A switch as the help lists it. -/
def switchCell (s : Switch) : String :=
  (match s.short? with
    | some c => String.ofList ['-', c, ',', ' ']
    | none => "    ")
    ++ s.shown

def help (c : Command) : String :=
  c.about ++ "\n\nUsage: " ++ c.usage ++ "\n"
    ++ columns "Commands" (c.children.map fun d => (d.word, d.about))
    ++ columns "Arguments" (c.arguments.map fun a => (a.shown, a.explanation))
    ++ columns "Options" (c.switches.map fun s => (switchCell s, c.explanation s))

end Command

def versionText : String := Command.main.word ++ " 0.1.0\n"

end CommandLine
end RouteScribe
