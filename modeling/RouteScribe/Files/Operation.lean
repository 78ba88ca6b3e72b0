import RouteScribe.Files.Resolve

/-!
# RouteScribe.Files.Operation

Operations that change a file system. One that is refused may have made directories before.
-/

namespace RouteScribe
namespace Files
namespace Tree

/-- The path without slashes at its end. -/
def dropSlashes (path : String) : String :=
  String.ofList (path.toList.reverse.dropWhile (· = '/')).reverse

/-- Makes one directory. -/
def makeDir (t : Tree) (path : String) : Except Refusal Tree :=
  match t.place false (dropSlashes path) with
  | .error r =>
    .error (if path.toList ≠ [] && path.toList.all (· = '/') then .exists else r)
  | .ok p => if (t.get? p).isSome then .error .exists else .ok (t.put p .dir)

/-- Makes directories from a list of paths, each of them in one before it. One that is a directory
already is left as it is. -/
def makeEach (t : Tree) : List String → Tree × Option Refusal
  | [] => (t, none)
  | p :: ps =>
    match t.makeDir p with
    | .ok t => t.makeEach ps
    | .error r => if t.isDir p then t.makeEach ps else (t, some r)

/-- The paths that have to be made, the outermost first, if `path` and those it leads through are
tried from the innermost on; or why that is refused. -/
def missing (t : Tree) : List String → Except Refusal (List String)
  | [] => .ok []
  | p :: ps =>
    if p = "" then .ok []
    else
      match t.makeDir p with
      | .ok _ => .ok [p]
      | .error .notFound =>
        match t.missing ps with
        | .ok more => .ok (more ++ [p])
        | .error r => .error r
      | .error r => if t.isDir p then .ok [] else .error r

/-- Makes a directory and those that lead to it. -/
def makeDirs (t : Tree) (path : String) : Tree × Option Refusal :=
  match t.missing (Path.ancestors path) with
  | .error r => (t, some r)
  | .ok ps => t.makeEach ps

/-- The permission bits of files that are written. -/
def usualMode : Nat := 0o644

/-- The permission bits of files that are not complete yet. -/
def privateMode : Nat := 0o600

/-- The name of a temporary file: `.tmp` and six digits. -/
def temporaryName (n : Nat) : String :=
  ".tmp" ++ String.ofList
    ([100000, 10000, 1000, 100, 10, 1].map fun k => Nat.digitChar (n / k % 10))

/-- The names that are tried for a temporary file, in order. -/
def temporaryNames : List String := (List.range' 0 65536).map temporaryName

/-- A temporary file: the path that it was made by, and where it is. -/
structure Temporary where
  path : String
  place : Place

/-- Makes an empty file in a directory, under the first of some names that is free there. -/
def makeTemporary (t : Tree) (dir : String) : List String → Except Refusal (Tree × Temporary)
  | [] => .error .exists
  | n :: names =>
    let path := Path.join (Path.join "/" dir) n
    match t.place false path with
    | .error r => .error r
    | .ok p =>
      if (t.get? p).isSome then t.makeTemporary dir names
      else .ok (t.put p (.file (some "") privateMode), ⟨path, p⟩)

def setText (t : Tree) (p : Place) (text : String) : Tree :=
  match t.get? p with
  | some (.file _ mode) => t.put p (.file (some text) mode)
  | _ => t

def setMode (t : Tree) (p : Place) (mode : Nat) : Tree :=
  match t.get? p with
  | some (.file text _) => t.put p (.file text mode)
  | _ => t

/-- What a device refuses of a file that is being written. -/
inductive Fault where
  /-- The text, after a part of it. -/
  | text (part : String) (refusal : Refusal)
  /-- The permission bits. -/
  | mode (refusal : Refusal)

/-- Gives the file at a place a text and the usual permission bits. -/
def complete (fault : Option Fault) (t : Tree) (p : Place) (text : String) :
    Tree × Option Refusal :=
  match fault with
  | some (.text part r) => (t.setText p part, some r)
  | some (.mode r) => (t.setText p text, some r)
  | none => ((t.setText p text).setMode p usualMode, none)

def unlink (t : Tree) (p : Place) : Tree := ⟨t.entries.filter (·.1 ≠ p)⟩

/-- The path ends in a name. -/
def endsInName (path : String) : Bool :=
  match ((Path.segments path).filter (· ≠ "")).getLast? with
  | none | some "." | some ".." => false
  | some _ => true

/-- Moves the file at a place to a path in one step; a link or a file that is there gives way. -/
def rename (t : Tree) (source : Place) (path : String) : Except Refusal Tree :=
  match t.get? source with
  | none => .error .notFound
  | some e =>
    if endsInName path then
      match t.place false (dropSlashes path) with
      | .error r => .error r
      | .ok p =>
        if path.toList.getLast? = some '/' then .error .notDirectory
        else if t.get? p = some .dir then .error .isDirectory
        else .ok ((t.unlink source).put p e)
    else
      match t.place false path with
      | .error r => .error r
      | .ok _ => .error .busy

/-- The directory of a path, as the place to write to. -/
def directoryOf (path : String) : String :=
  match Path.parent? path with
  | some "" | none => "."
  | some dir => dir

/-- Writes a text to a file in one step, and makes the directories that lead to it; or which path
is refused, and why. The text is first written to a temporary file beside the file, which has one of
the names; `fault` is what the device does not take. -/
def writeBy (names : List String) (fault : Option Fault) (t : Tree) (path text : String) :
    Tree × Option (String × Refusal) :=
  let dir := directoryOf path
  match t.makeDirs dir with
  | (t, some r) => (t, some (dir, r))
  | (t, none) =>
    match t.makeTemporary dir names with
    | .error r => (t, some (dir, r))
    | .ok (t, temporary) =>
      match complete fault t temporary.place text with
      | (t, some r) => (t.unlink temporary.place, some (temporary.path, r))
      | (t, none) =>
        match t.rename temporary.place path with
        | .ok t => (t, none)
        | .error r => (t.unlink temporary.place, some (path, r))

/-- Writes a text to a file in one step, and makes the directories that lead to it; or which path
is refused, and why. -/
def write (t : Tree) (path text : String) : Tree × Option (String × Refusal) :=
  writeBy temporaryNames none t path text

/-- Puts a file where a path leads to, and makes the directories that lead to it. -/
def install (t : Tree) (path : String) (text : Option String) (mode : Nat) : Tree :=
  let t := (t.makeDirs (directoryOf path)).1
  match t.place true path with
  | .error _ => t
  | .ok p => if t.get? p = some .dir then t else t.put p (.file text mode)

/-- Puts a link at a path where nothing is, and makes the directories that lead to it. -/
def link (t : Tree) (path target : String) : Tree :=
  let t := (t.makeDirs (directoryOf path)).1
  match t.place false path with
  | .error _ => t
  | .ok p => if (t.get? p).isSome then t else t.put p (.link target)

def remove (t : Tree) (path : String) : Tree :=
  match t.place false path with
  | .error _ => t
  | .ok p => t.erase p

/-- An entry in a listing: directories end in a slash, links in an at sign. -/
def entryText (e : Place × Entry) : String :=
  String.intercalate "/" e.1
    ++ match e.2 with
      | .dir => "/"
      | .file .. => ""
      | .link _ => "@"

/-- All that is below a directory, in the order of the texts. -/
def listing (t : Tree) (path : String) : List String :=
  match t.find true path with
  | .ok (p, .dir) => ((t.below p).map entryText).mergeSort fun a b => !(b < a : Bool)
  | _ => []

end Tree
end Files
end RouteScribe
