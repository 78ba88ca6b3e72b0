import RouteScribe.Text.Path
import RouteScribe.Unicode.Space

/-!
# RouteScribe.Project.Layout

A project, and where the parts of it are. A command is one of the programs that a project has.
-/

namespace RouteScribe

structure Project where
  root : String
  /-- The name of the module, with which all import paths begin. -/
  module : String
  /-- The command that is meant when none is named. -/
  defaultCommand : String
  deriving DecidableEq, Repr

namespace Project

/-- A project without settings of its own. -/
def usual (root module : String) : Project := ⟨root, module, "default-api"⟩

/-- The characters without slashes at the end. -/
def trimSlashes (s : String) : String :=
  String.ofList (s.toList.reverse.dropWhile (· = '/')).reverse

def resolve (p : Project) (path : String) : String :=
  if Path.isAbsolute path then path else Path.join p.root path

/-- The command that is named, unless its name is blank. -/
def commandOr (p : Project) (command : Option String) : String :=
  match command with
  | some c => if Unicode.isBlank c then p.defaultCommand else c
  | none => p.defaultCommand

/-- The directory that a command has if it exists. -/
def commandDir (p : Project) (command : String) : String := p.resolve (Path.join "cmd" command)

def apiDir (p : Project) (command : String) : String :=
  p.resolve ("internal/" ++ command ++ "/transport/http/api")

def routerDir (p : Project) (command : String) : String :=
  p.resolve ("internal/" ++ command ++ "/transport/http/router")

/-- The directory of the middlewares, which all commands share. -/
def middlewareDir (p : Project) : String := p.resolve "internal/common/transport/http/middleware"

def middlewareImport (p : Project) : String :=
  trimSlashes p.module ++ "/internal/common/transport/http/middleware"

def apiImport (p : Project) (command : String) : String :=
  trimSlashes p.module ++ "/internal/" ++ command ++ "/transport/http/api"

end Project
end RouteScribe
