import RouteScribe.Go.SourceFile
import RouteScribe.Routing.Verb
import RouteScribe.Text.Regex

/-!
# RouteScribe.Routing.Directive

Directives are lines in the comment of a method: the name of the directive as a whole word, then
its argument. Of several directives with one name the last counts; other lines do not.
-/

namespace RouteScribe
namespace Routing

/-- What a directive sets. -/
inductive Directive where
  /-- The verb of the route. -/
  | verb
  /-- The middlewares that run before the action, in order. -/
  | middleware
  deriving DecidableEq, Repr

namespace Directive

def name : Directive → String
  | verb => "@http_method"
  | middleware => "@middleware"

open Text.Regex in
/-- A line with a directive: its name is group 1, and its argument, if it has one, is group 2. -/
def regex : Text.Regex :=
  chain
    [many Unicode.isSpace, group 1 (either (text verb.name.toList) (text middleware.name.toList)),
      opt (seq (oneOrMore Unicode.isSpace) (group 2 (few (· ≠ '\n')))), many Unicode.isSpace, stop]

/-- The directive with that name. -/
def ofName? (cs : List Char) : Option Directive :=
  if cs = verb.name.toList then some verb
  else if cs = middleware.name.toList then some middleware
  else none

/-- The directive in a line, and its argument, which is empty if there is none. -/
def read (line : String) : Option (Directive × String) :=
  (regex.groups? line.toList).bind fun groups =>
    ((groups.lookup 1).bind ofName?).map fun d =>
      (d, String.ofList ((groups.lookup 2).getD []))

end Directive

/-- What the directives of a method set. -/
structure Annotations where
  /-- The verb in upper case; not empty. -/
  verb : Option String
  /-- At least one name. -/
  middlewares : Option (List String)
  deriving DecidableEq, Repr, Inhabited

namespace Annotations

def empty : Annotations := ⟨none, none⟩

/-- Sets what a directive says, in place of what was set before. A blank argument sets nothing. -/
def set (a : Annotations) (d : Directive) (argument : String) : Annotations :=
  match d with
  | .verb => { a with verb := (some (Unicode.uppercase argument)).filter (· ≠ "") }
  | .middleware => { a with middlewares := (some (Unicode.words argument)).filter (· ≠ []) }

def ofLines (lines : List String) : Annotations :=
  (lines.filterMap Directive.read).foldl (fun a x => a.set x.1 x.2) empty

def ofDoc : Option Go.Doc → Annotations
  | none => empty
  | some doc => ofLines doc.lines

end Annotations

end Routing
end RouteScribe
