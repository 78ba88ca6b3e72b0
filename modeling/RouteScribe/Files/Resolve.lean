import RouteScribe.Files.Tree
import RouteScribe.Text.Path

/-!
# RouteScribe.Files.Resolve

Where a path leads. Links are followed on the way, and at the end if that is asked for. A path that
leads to a name that does not exist in a directory that does leads to the place where it would be.
-/

namespace RouteScribe
namespace Files

inductive Refusal where
  | notFound
  | exists
  | notDirectory
  | isDirectory
  | busy
  | tooManyLinks
  | nameTooLong
  | noSpace
  /-- The bytes of a file are no text. -/
  | notText
  /-- The path has a character that no path can have. -/
  | nulInPath
  deriving DecidableEq, Repr

def Refusal.message : Refusal → String
  | notFound => "No such file or directory (os error 2)"
  | .exists => "File exists (os error 17)"
  | notDirectory => "Not a directory (os error 20)"
  | isDirectory => "Is a directory (os error 21)"
  | busy => "Device or resource busy (os error 16)"
  | tooManyLinks => "Too many levels of symbolic links (os error 40)"
  | nameTooLong => "File name too long (os error 36)"
  | noSpace => "No space left on device (os error 28)"
  | notText => "stream did not contain valid UTF-8"
  | nulInPath => "file name contained an unexpected NUL byte"

/-- The steps of a path: names and dots. A slash at the end counts as a dot. -/
def steps (path : String) : List String :=
  let names := (Path.segments path).filter (· ≠ "")
  if path.toList.getLast? = some '/' && names ≠ [] then names ++ ["."] else names

def nameLimit : Nat := 255

def pathLimit : Nat := 4095

def linkLimit : Nat := 40

namespace Tree

/-- Where steps lead from the directory `here`; `follow` a link at the end. What is behind a link is
left to `onward`, from the directory where the link leads on. -/
def walkTo (t : Tree) (follow : Bool) (onward : Place → List String → Except Refusal Place)
    (here : Place) : List String → Except Refusal Place
  | [] => .ok here
  | s :: rest =>
    if s = "." then walkTo t follow onward here rest
    else if s = ".." then walkTo t follow onward here.dropLast rest
    else if nameLimit < s.utf8ByteSize then .error .nameTooLong
    else
      let there := here ++ [s]
      match t.get? there with
      | none => if rest = [] then .ok there else .error .notFound
      | some .dir => walkTo t follow onward there rest
      | some (.file ..) => if rest = [] then .ok there else .error .notDirectory
      | some (.link target) =>
        if rest = [] && !follow then .ok there
        else onward (if Path.isAbsolute target then [] else here) (steps target ++ rest)

/-- Where steps lead from a directory, through at most so many links. -/
def walk (t : Tree) (follow : Bool) : Nat → Place → List String → Except Refusal Place
  | 0 => t.walkTo follow fun _ _ => .error .tooManyLinks
  | links + 1 => t.walkTo follow (walk t follow links)

/-- The place that a path leads to. Relative paths begin at the root. -/
def place (t : Tree) (follow : Bool) (path : String) : Except Refusal Place :=
  if path.toList.contains '\x00' then .error .nulInPath
  else if path = "" then .error .notFound
  else if pathLimit < path.utf8ByteSize then .error .nameTooLong
  else t.walk follow linkLimit [] (steps path)

/-- What a path leads to, and where it is. -/
def find (t : Tree) (follow : Bool) (path : String) : Except Refusal (Place × Entry) :=
  match t.place follow path with
  | .error r => .error r
  | .ok p =>
    match t.get? p with
    | some e => .ok (p, e)
    | none => .error .notFound

/-- What a path leads to through links; none if there is nothing. -/
def entry? (t : Tree) (path : String) : Option Entry := (t.find true path).toOption.map (·.2)

def «exists» (t : Tree) (path : String) : Bool := (t.entry? path).isSome

def isDir (t : Tree) (path : String) : Bool := t.entry? path = some .dir

def isFile (t : Tree) (path : String) : Bool :=
  match t.entry? path with
  | some (.file ..) => true
  | _ => false

/-- The path from the root through directories only. -/
def canonical (t : Tree) (path : String) : Except Refusal String :=
  match t.find true path with
  | .error r => .error r
  | .ok (p, _) => .ok ("/" ++ String.intercalate "/" p)

/-- The text of the file that a path leads to. -/
def readText (t : Tree) (path : String) : Except Refusal String :=
  match t.find true path with
  | .error r => .error r
  | .ok (_, .file (some s) _) => .ok s
  | .ok (_, .file none _) => .error .notText
  | .ok _ => .error .isDirectory

end Tree

end Files
end RouteScribe
