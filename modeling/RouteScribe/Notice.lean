/-!
# RouteScribe.Notice

What is reported while work is done. A notice is a fact; its level and wording are functions of it.
-/

namespace RouteScribe

/-- A fact worth a line in the log. -/
inductive Notice where
  /-- The controllers below a directory are searched. -/
  | scanning (dir : String)
  | filesFound (files dirs : Nat)
  | noControllers (dir : String)
  | discovered (controllers packages routes : Nat)
  | wrote (path : String)
  /-- The verb of a route is not one of the seven. -/
  | unusualVerb (key verb : String)
  /-- A route was recorded before. -/
  | repeatedRoute (key : String)
  /-- A directory is not below the root of the project. -/
  | outsideRoot (dir root : String)
  | actionExists (name : String)
  | fileExists (path : String)
  | controllerCreated (typeName path : String)
  | actionsAdded (names : List String) (path : String)
  | fileCreated (path : String)
  /-- A scan could not look at something. -/
  | inaccessible (what : String)
  | projectFound (module root : String)
  | controllerReady (typeName path : String)
  | nothingAdded
  | middlewareCount (n : Nat)
  | generating (command : String)
  | serializing (format : String)
  | routerWritten (path : String)
  | summary
  | parsedCount (n : Nat)
  | controllerCount (n : Nat)
  | routeCount (n : Nat)
  | warningCount (n : Nat)
  deriving DecidableEq, Repr

namespace Notice

/-- Something is likely to be wrong. -/
def isWarning : Notice → Bool
  | noControllers _ | unusualVerb .. | repeatedRoute _ | outsideRoot .. | actionExists _
  | fileExists _ | inaccessible _ | nothingAdded => true
  | _ => false

def message : Notice → String
  | scanning d => "Scanning controllers under " ++ d
  | filesFound f d =>
    "Found " ++ toString f ++ " controller files in " ++ toString d ++ " controller directories"
  | noControllers d => "No controllers found under " ++ d
  | discovered c p r =>
    "Discovered " ++ toString c ++ " controllers in " ++ toString p ++ " packages, "
      ++ toString r ++ " routes"
  | wrote p => "Wrote " ++ p
  | unusualVerb k v => k ++ ": non-standard HTTP method " ++ v
  | repeatedRoute k => "Route " ++ k ++ " is declared more than once; keeping the last"
  | outsideRoot d r => d ++ " is outside project root " ++ r ++ "; using best-effort import path"
  | actionExists n => "action method already exists: " ++ n
  | fileExists p => p ++ " already exists"
  | controllerCreated t p => "Created " ++ t ++ " in " ++ p
  | actionsAdded ns p => "Added " ++ String.intercalate ", " ns ++ " to " ++ p
  | fileCreated p => "Created " ++ p
  | inaccessible w => "Failed to access path: " ++ w
  | projectFound m r => "Project: " ++ m ++ " (" ++ r ++ ")"
  | controllerReady t p => "Controller " ++ t ++ " ready at " ++ p
  | nothingAdded => "No actions added"
  | middlewareCount n => "Created " ++ toString n ++ " middleware files"
  | generating c => "Generating router for cmd '" ++ c ++ "'"
  | serializing f => "Serializing to " ++ f ++ " format..."
  | routerWritten p => "Router written to " ++ p
  | summary => "Summary:"
  | parsedCount n => "  - Controller files parsed: " ++ toString n
  | controllerCount n => "  - Controllers: " ++ toString n
  | routeCount n => "  - Routes: " ++ toString n
  | warningCount n => "  - Warnings: " ++ toString n

def line (n : Notice) : String := (if n.isWarning then "WARN " else "INFO ") ++ n.message

end Notice
end RouteScribe
