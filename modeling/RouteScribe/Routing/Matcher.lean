import RouteScribe.Go.SourceFile
import RouteScribe.Unicode.Space

/-!
# RouteScribe.Routing.Matcher

Which types are controllers. A matcher looks at the name of a type or at its comment, never at its
methods.
-/

namespace RouteScribe
namespace Routing

/-- A rule for controllers. -/
inductive Matcher where
  /-- The name of the type ends so. -/
  | suffix (s : String)
  /-- A line of the comment begins with the directive for controllers. -/
  | marker
  /-- One of the rules holds. -/
  | anyOf (ms : List Matcher)
  deriving Inhabited

namespace Matcher

/-- The end of a controller's name. -/
def conventional : Matcher := suffix "Controller"

/-- The directive that marks a type as a controller. -/
def directive : String := "@controller"

/-- The line begins with the directive as a whole word. -/
def isMarker (line : String) : Bool :=
  let cs := Unicode.trimStartChars line.toList
  directive.toList.isPrefixOf cs
    && ((cs.drop directive.length).head?.all Unicode.isSpace)

mutual

/-- The rule holds for a type. -/
def accepts (decl : Go.TypeDecl) : Matcher → Bool
  | suffix s => s.toList.isSuffixOf decl.name.toList
  | marker => (decl.doc.map (·.lines)).getD [] |>.any isMarker
  | anyOf ms => anyAccepts decl ms

def anyAccepts (decl : Go.TypeDecl) : List Matcher → Bool
  | [] => false
  | m :: ms => accepts decl m || anyAccepts decl ms

end

theorem anyAccepts_iff {decl : Go.TypeDecl} {ms : List Matcher} :
    anyAccepts decl ms = true ↔ ∃ m ∈ ms, accepts decl m = true := by
  induction ms with
  | nil => simp [anyAccepts]
  | cons m ms ih => simp [anyAccepts, ih]

theorem accepts_suffix_iff {decl : Go.TypeDecl} {s : String} :
    accepts decl (suffix s) = true ↔ s.toList <:+ decl.name.toList := by
  simp [accepts]

end Matcher

end Routing
end RouteScribe
