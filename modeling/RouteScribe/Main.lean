import RouteScribe.CommandLine.Run

/-!
# RouteScribe.Main

The program. It takes what it needs from the disk into a file system value, carries out the request
there, and writes what is new back to the disk.
-/

namespace RouteScribe

/-- Adds what is below a directory on the disk to a tree. Links are not followed. -/
partial def loadBelow (t : Files.Tree) (dir : String) : IO Files.Tree := do
  let mut t := t.makeDirs dir |>.1
  for e in (← (← IO.FS.realPath dir).readDir) do
    let path := Path.join dir e.fileName
    match (← e.path.metadata).type with
    | .dir => t ← loadBelow t path
    | .file =>
      let bytes ← IO.FS.readBinFile path
      t := t.install path (String.fromUTF8? bytes) Files.Tree.usualMode
    | _ => pure ()
  pure t

/-- Adds a file on the disk to a tree, if it is there. -/
def loadFile (t : Files.Tree) (path : String) : IO Files.Tree := do
  try
    let bytes ← IO.FS.readBinFile path
    pure (t.install path (String.fromUTF8? bytes) Files.Tree.usualMode)
  catch _ => pure (t.makeDirs (Files.Tree.directoryOf path) |>.1)

/-- The parts of the disk that concern the project of a directory: the files that make a directory
a project, and the commands and their sources. -/
def load (start : String) : IO Files.Tree := do
  let mut t := Files.Tree.empty
  for path in (Path.ancestors start).flatMap Project.candidates do
    t ← loadFile t path
  match Project.firstAt t (Path.ancestors start) with
  | .error _ => pure t
  | .ok p =>
    for part in ["cmd", "internal"] do
      try
        t ← loadBelow t (p.resolve part)
      catch _ => pure ()
    pure t

/-- Writes to the disk what `new` has and `old` has not, the outermost directories first. -/
def store (old new : Files.Tree) : IO Unit :=
  for (place, entry) in new.entries.reverse do
    if !old.entries.contains (place, entry) then
      let path := "/" ++ String.intercalate "/" place
      match entry with
      | .dir => IO.FS.createDirAll path
      | .file (some text) _ => IO.FS.writeFile path text
      | _ => pure ()

/-- Carries out a request and gives the exit code. -/
def execute (request : CommandLine.Request) : IO UInt32 := do
  IO.eprintln "INFO godo starting..."
  let here := toString (← IO.currentDir)
  let start := Path.join here (request.start.getD here)
  let old ←
    try
      let real := toString (← IO.FS.realPath start)
      pure ((← load real).link start real)
    catch _ => pure Files.Tree.empty
  let (result, session) := (ExceptT.run (request.run here)).run ⟨old, []⟩
  store old session.tree
  for n in session.log do
    IO.eprintln n.line
  match result with
  | .ok out =>
    IO.print out
    IO.eprintln "INFO Done"
    pure 0
  | .error stop =>
    match stop.chain with
    | [] => pure ()
    | outer :: causes =>
      IO.eprintln ("Error: " ++ outer)
      unless causes.isEmpty do
        IO.eprintln "\nCaused by:"
        for c in causes do
          IO.eprintln ("    " ++ c)
    pure 1

end RouteScribe

def main (args : List String) : IO UInt32 := do
  match RouteScribe.CommandLine.Request.read args with
  | .ok request => RouteScribe.execute request
  | .error refusal =>
    if refusal.exitCode = 0 then IO.print refusal.message else IO.eprintln refusal.message
    pure refusal.exitCode.toUInt32
