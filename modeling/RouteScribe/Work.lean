import RouteScribe.Failure
import RouteScribe.Files.Operation
import RouteScribe.Go.Declaration
import RouteScribe.Notice

/-!
# RouteScribe.Work

Work on a file system that reports what it does. When a task fails, what it changed and reported
before stays.
-/

namespace RouteScribe

/-- The file system, and what was reported so far. -/
structure Session where
  tree : Files.Tree
  log : List Notice

/-- A task with a result. -/
abbrev Work (α : Type) := ExceptT Failure (StateM Session) α

namespace Work

def report (n : Notice) : Work Unit := modify fun s => { s with log := s.log ++ [n] }

def reportAll (ns : List Notice) : Work Unit := modify fun s => { s with log := s.log ++ ns }

def tree : Work Files.Tree := do
  pure (← get).tree

def readText (path : String) : Work String := do
  match (← tree).readText path with
  | .ok s => pure s
  | .error r => throw (.io path r)

/-- Writes a file in one step, and makes the directories that lead to it. -/
def write (path text : String) : Work Unit := do
  let (t, refused) := (← tree).write path text
  modify fun s => { s with tree := t }
  match refused with
  | none => pure ()
  | some (p, r) => throw (.io p r)

def parseFile (path : String) : Work Go.SourceFile := do
  let text ← readText path
  match Go.SourceFile.parse text with
  | .ok f => pure f
  | .error e => throw (.parse path e)

/-- The text that a template gave. -/
def rendered (r : Except Template.Fault String) : Work String :=
  match r with
  | .ok s => pure s
  | .error f => throw (.template f)

/-- Writes the text that a template gave to a file. Without one nothing is written. -/
def renderTo (path : String) (r : Except Template.Fault String) : Work Unit := do
  let text ← rendered r
  write path text

/-- Runs a task from the session `s` on. -/
def perform {α : Type} (work : Work α) (s : Session) : Except Failure α × Session :=
  StateT.run (ExceptT.run work) s

end Work
end RouteScribe
