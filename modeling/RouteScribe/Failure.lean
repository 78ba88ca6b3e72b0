import RouteScribe.Files.Resolve
import RouteScribe.Go.SourceFile
import RouteScribe.Template.Token

/-!
# RouteScribe.Failure

Why work on a project stops. Each cause is a constructor; the wording is a function of the cause.
-/

namespace RouteScribe

inductive ConfigFault where
  /-- None of the files is there, or they cannot be used. -/
  | noProject (attempted : List String)
  /-- The project that was found has a blank name. -/
  | unnamed (root : String)
  deriving DecidableEq, Repr

def ConfigFault.message : ConfigFault → String
  | noProject attempted =>
    "could not find godoconfig.json nor parse go.mod; attempted: "
      ++ String.intercalate "; " attempted
  | unnamed root => "project name is empty in godoconfig.json or go.mod under " ++ root

inductive ArgumentFault where
  | emptyRoute
  | slashAtEdge
  | emptySegment (route : String)
  /-- The name of a controller holds a character that it must not. -/
  | controllerName (characters : String)
  | actionName (name : String)
  | verb (text : String)
  | unknownCommand (command : String)
  | controllerExists (path : String)
  | noController (path : String)
  | noActions
  | middlewareName (name : String)
  deriving DecidableEq, Repr

def ArgumentFault.message : ArgumentFault → String
  | emptyRoute => "controller route is empty"
  | slashAtEdge => "controller route must not start or end with '/'"
  | emptySegment r => "controller route '" ++ r ++ "' has an empty segment"
  | controllerName c => "controller name can not contain " ++ c
  | actionName n => "invalid action name: '" ++ n ++ "'"
  | verb t => "invalid method: " ++ t
  | unknownCommand c => "cmd '" ++ c ++ "' does not exist"
  | controllerExists p => "controller already exists: " ++ p
  | noController p => "controller does not exist: " ++ p
  | noActions => "actions is empty"
  | middlewareName n => "invalid middleware name: '" ++ n ++ "'"

inductive Failure where
  | io (path : String) (refusal : Files.Refusal)
  | parse (file : String) (error : Go.ParseError)
  | config (fault : ConfigFault)
  | template (fault : Template.Fault)
  | argument (fault : ArgumentFault)
  deriving DecidableEq, Repr

def Failure.message : Failure → String
  | io p r => "I/O error on " ++ p ++ ": " ++ r.message
  | parse f e => "parse error in " ++ f ++ ": line " ++ toString e.line ++ ": " ++ e.fault.message
  | config f => "project configuration error: " ++ f.message
  | template f => "template error: " ++ f.cause.name
  | argument f => "invalid argument: " ++ f.message

end RouteScribe
