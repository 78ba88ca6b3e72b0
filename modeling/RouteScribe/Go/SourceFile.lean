/-!
# RouteScribe.Go.SourceFile

What is known of a Go source file: its package, its types, and its functions and methods, each
with the comment attached to it.
-/

namespace RouteScribe
namespace Go

/-- The comment attached to a declaration: its lines without the comment marks. -/
structure Doc where
  lines : List String
  deriving DecidableEq, Repr, Inhabited

structure TypeDecl where
  name : String
  doc : Option Doc
  deriving DecidableEq, Repr, Inhabited

/-- A function, or a method of the type `receiver`. Pointers, parentheses and type arguments do
not count in the receiver; a qualified name stays whole. -/
structure FuncDecl where
  name : String
  receiver : Option String
  doc : Option Doc
  deriving DecidableEq, Repr, Inhabited

structure SourceFile where
  package : String
  types : List TypeDecl
  funcs : List FuncDecl
  deriving DecidableEq, Repr, Inhabited

namespace SourceFile

def methodsOf (f : SourceFile) (type : String) : List FuncDecl :=
  f.funcs.filter (·.receiver == some type)

def hasMethod (f : SourceFile) (type method : String) : Bool :=
  (f.methodsOf type).any (·.name == method)

theorem mem_methodsOf {f : SourceFile} {type : String} {m : FuncDecl} :
    m ∈ f.methodsOf type ↔ m ∈ f.funcs ∧ m.receiver = some type := by
  simp [methodsOf]

theorem hasMethod_iff {f : SourceFile} {type method : String} :
    f.hasMethod type method = true ↔ ∃ m ∈ f.methodsOf type, m.name = method := by
  simp [hasMethod]

end SourceFile

/-- Why a text is no source file. -/
inductive Fault where
  /-- An opening bracket, as it is written, without its closing one. -/
  | unclosed (bracket : String)
  /-- A token of this kind is missing. -/
  | missing (kind : String)
  | unfinished
  | unexpected (text : String)
  /-- The fault has no place of its own. -/
  | anywhere
  /-- A phrase of this kind stands where a declaration should. -/
  | notDeclaration (kind : String)
  | noReceiver
  | severalReceivers
  /-- The receiver list, as it is written, names no type. -/
  | invalidReceiver (list : String)
  | unnamedFunction
  | noPackage
  deriving DecidableEq, Repr

namespace Fault

def message : Fault → String
  | unclosed b => "'" ++ b ++ "' not closed"
  | missing k => "missing " ++ k
  | unfinished => "declaration not closed before end of file"
  | unexpected t => "unexpected \x60" ++ t ++ "\x60"
  | anywhere => "syntax error"
  | notDeclaration k => "expected declaration, found " ++ k
  | noReceiver => "method has no receiver"
  | severalReceivers => "method has multiple receivers"
  | invalidReceiver l => "invalid receiver type in " ++ l
  | unnamedFunction => "function has no name"
  | noPackage => "expected 'package' clause"

end Fault

/-- A fault and the line it is on, counted from 1. -/
structure ParseError where
  line : Nat
  fault : Fault
  deriving DecidableEq, Repr

end Go
end RouteScribe
