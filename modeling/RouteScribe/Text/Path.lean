import RouteScribe.Text.Lines

/-!
# RouteScribe.Text.Path

Paths as texts. A path is read as its components; repeated slashes and inner dots do not count,
but two dots do, since what they mean depends on the file system. Operations keep the text of
what they do not touch.
-/

namespace RouteScribe

inductive Component where
  | root
  /-- A dot at the beginning of a relative path. -/
  | current
  | parent
  | name (s : String)
  deriving DecidableEq, Repr

def Component.text : Component → String
  | .root => "/"
  | .current => "."
  | .parent => ".."
  | .name s => s

namespace Path

/-- The texts between slashes. -/
def segments (p : String) : List String := Text.split '/' p

def isAbsolute (p : String) : Bool := p.toList.head? = some '/'

/-- What a segment stands for; `first` if nothing precedes it. -/
def component? (first : Bool) (s : String) : Option Component :=
  if s = "" then none
  else if s = "." then if first then some .current else none
  else if s = ".." then some .parent
  else some (.name s)

/-- The components of the segments behind the first. -/
def inner (ss : List String) : List Component := ss.filterMap (component? false)

def components (p : String) : List Component :=
  match segments p with
  | [] => []
  | s :: ss => if isAbsolute p then .root :: inner ss else (component? true s).toList ++ inner ss

/-- The path `q`, seen from `p`; an absolute path stays what it is. -/
def join (p q : String) : String :=
  if isAbsolute q then q
  else if p = "" || p.toList.getLast? = some '/' then p ++ q
  else p ++ "/" ++ q

/-- Segments joined by slashes. -/
def ofSegments (ss : List String) : String := String.intercalate "/" ss

/-- Drops segments at the end that are no components. `first` says that nothing precedes them. -/
def trimSegments : Bool → List String → List String
  | _, [] => []
  | first, s :: ss =>
    match trimSegments false ss with
    | [] => if (component? first s).isSome then [s] else []
    | rest => s :: rest

/-- Drops the last segment that is a component and what follows it; none if there is none. -/
def dropComponent? : Bool → List String → Option (List String)
  | _, [] => none
  | first, s :: ss =>
    match dropComponent? false ss with
    | some rest => some (s :: rest)
    | none => if (component? first s).isSome then some [] else none

/-- The path without its last component; none for the root and for the empty path. -/
def parent? (p : String) : Option String :=
  if isAbsolute p then
    (dropComponent? false (segments p).tail).map fun ss =>
      "/" ++ ofSegments (trimSegments false ss)
  else
    (dropComponent? true (segments p)).map fun ss => ofSegments (trimSegments true ss)

/-- The last component, if it is a name. -/
def fileName? (p : String) : Option String :=
  match (components p).getLast? with
  | some (.name s) => some s
  | _ => none

/-- What follows the last dot of a name; a dot in front does not count. -/
def nameExtension? (name : String) : Option String :=
  let back := name.toList.reverse
  let ext := back.takeWhile (· ≠ '.')
  let stem := (back.dropWhile (· ≠ '.')).drop 1
  if ext.length = back.length || stem = [] then none else some (String.ofList ext.reverse)

/-- The extension of the last component. -/
def extension? (p : String) : Option String := (fileName? p).bind nameExtension?

/-- The components of `p` below `base`, if it is at or below it. -/
def below? (base p : List Component) : Option (List Component) :=
  if base.isPrefixOf p then some (p.drop base.length) else none

/-- The names among components. -/
def names (cs : List Component) : List String :=
  cs.filterMap fun c =>
    match c with
    | .name s => some s
    | _ => none

/-- The path and all paths that it leads through, the longest first; at most `fuel` of them. -/
def upwards : Nat → String → List String
  | 0, _ => []
  | fuel + 1, p =>
    p :: match parent? p with
      | some q => upwards fuel q
      | none => []

/-- The path itself and its parents, up to the root or the empty path. -/
def ancestors (p : String) : List String := upwards (p.length + 1) p

/-- The path made absolute without looking at the file system. Dots go, two dots stay, and so
does a slash at the end. The empty path cannot be made absolute. -/
def absolute (here p : String) : String :=
  if p = "" then ""
  else
    let cs := (components p).filter (· ≠ .current)
    let slashes := (p.toList.takeWhile (· = '/')).length
    let start := if slashes = 2 then "//" else if isAbsolute p then "/" else here
    let rest := cs.filter (· ≠ .root)
    let all := rest.foldl (fun a c => join a c.text) start
    if p.toList.getLast? = some '/' then join all "" else all

end Path
end RouteScribe
