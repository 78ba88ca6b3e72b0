import RouteScribe.Go.Node
import RouteScribe.Go.SourceFile
import RouteScribe.Text.Lines

/-!
# RouteScribe.Go.Declaration

From a syntax tree to the declarations of a source file. A comment is attached to the declaration
on the line below it, if nothing else precedes it on its own line; a run of such comments is
attached as a whole.
-/

namespace RouteScribe
namespace Go

namespace Doc

/-- The lines of a comment without its marks. In a block comment, blank lines and the star in
front of a line do not count. -/
def linesOf (comment : String) : List String :=
  match Text.dropFront? "//" comment with
  | some line => [line]
  | none =>
    let inner := ((Text.dropFront? "/*" comment).bind (Text.dropBack? "*/")).getD comment
    ((Text.lines inner).map fun l =>
      let l := Unicode.trim l
      (Text.dropFront? "*" l).getD l).filter (!Unicode.isBlank ·)

end Doc

namespace Node

/-- The comments at the end of `preceding`, given last first, that are attached to what begins on
row `row`; last first. -/
def attached (row : Nat) : List Node → List Node
  | [] => []
  | c :: cs =>
    if c.kind = .token .comment && c.stop.row + 1 == row && c.start.blank then
      c :: attached c.start.row cs
    else []

/-- The comment attached to `decl`, which stands behind the nodes `preceding`. -/
def doc? (preceding : List Node) (decl : Node) : Option Doc :=
  match (attached decl.start.row preceding.reverse).reverse with
  | [] => none
  | cs => some ⟨cs.flatMap fun c => Doc.linesOf c.text⟩

mutual

/-- The name that a type comes down to without pointers, parentheses and type arguments. -/
def baseType? : Node → Option String
  | mk k f m b s e cs =>
    match k with
    | .alternate .typeIdentifier => some (mk k f m b s e cs).text
    | .phrase .qualifiedType => some (mk k f m b s e cs).text
    | .phrase .pointerType | .phrase .parenthesizedType => firstBaseType? cs
    | .phrase .genericType => fieldBaseType? cs
    | _ => none

def firstBaseType? : List Node → Option String
  | [] => none
  | n :: ns => if n.kind.isNamed then baseType? n else firstBaseType? ns

/-- `baseType?` of the first child that is in the field for types. -/
def fieldBaseType? : List Node → Option String
  | [] => none
  | n :: ns => if n.field = some .type then baseType? n else fieldBaseType? ns

end

def receiver (list : Node) : Except ParseError String :=
  match list.parts.filter (·.kind ≠ .token .comment) with
  | [] => .error ⟨list.line, .noReceiver⟩
  | [param] =>
    if 1 < (param.children.filter (·.field = some .name)).length then
      .error ⟨list.line, .severalReceivers⟩
    else
      match (param.part? .type).bind baseType? with
      | some t => .ok t
      | none => .error ⟨list.line, .invalidReceiver list.text⟩
  | _ => .error ⟨list.line, .severalReceivers⟩

def funcDecl (n : Node) (doc : Option Doc) : Except ParseError FuncDecl :=
  match n.part? .name with
  | none => .error ⟨n.line, .unnamedFunction⟩
  | some name =>
    match n.part? .receiver with
    | none => .ok ⟨name.text, none, doc⟩
    | some list =>
      match receiver list with
      | .ok r => .ok ⟨name.text, some r, doc⟩
      | .error e => .error e

/-- The types declared by the nodes of a declaration, with `seen` before them, last first. A type
without a comment of its own has that of the declaration. -/
def typeDecls (outer : Option Doc) (seen : List Node) : List Node → List TypeDecl
  | [] => []
  | n :: ns =>
    let rest := typeDecls outer (n :: seen) ns
    if n.kind = .phrase .typeSpec || n.kind = .phrase .typeAlias then
      match n.part? .name with
      | some name => ⟨name.text, (doc? seen.reverse n).or outer⟩ :: rest
      | none => rest
    else rest

/-- What the nodes at the top of a tree declare, with `seen` before them, last first; and the
package named last. -/
def collect (seen : List Node) (package : Option String) :
    List Node → Except ParseError (Option String × List TypeDecl × List FuncDecl)
  | [] => .ok (package, [], [])
  | n :: ns =>
    match n.kind with
    | .phrase .packageClause =>
      let name := n.parts.find? (·.kind = .alternate .packageIdentifier)
      collect (n :: seen) (name.map text) ns
    | .phrase .typeDeclaration =>
      match collect (n :: seen) package ns with
      | .ok (p, ts, fs) => .ok (p, typeDecls (doc? seen.reverse n) [] n.parts ++ ts, fs)
      | .error e => .error e
    | .phrase .functionDeclaration | .phrase .methodDeclaration =>
      match funcDecl n (doc? seen.reverse n) with
      | .error e => .error e
      | .ok f =>
        match collect (n :: seen) package ns with
        | .ok (p, ts, fs) => .ok (p, ts, f :: fs)
        | .error e => .error e
    | .phrase .importDeclaration | .phrase .varDeclaration | .phrase .constDeclaration
    | .token .comment => collect (n :: seen) package ns
    | k =>
      .error ⟨n.line, .notDeclaration (k.label.map fun c => if c = '_' then ' ' else c)⟩

/-- The declarations of a tree without faults. -/
def sourceFile (root : Node) : Except ParseError SourceFile :=
  match collect [] none root.parts with
  | .error e => .error e
  | .ok (none, _, _) => .error ⟨1, .noPackage⟩
  | .ok (some p, ts, fs) => .ok ⟨p, ts, fs⟩

mutual

/-- The first node, from the outside in, that is a repair. -/
def firstRepair? : Node → Option Node
  | mk k f m b s e cs =>
    if k = .error || m then some (mk k f m b s e cs) else firstRepairAmong? cs

def firstRepairAmong? : List Node → Option Node
  | [] => none
  | n :: ns =>
    if n.broken then
      match firstRepair? n with
      | some r => some r
      | none => firstRepairAmong? ns
    else firstRepairAmong? ns

end

/-- Where a tree with repairs departs from the grammar; `size` is the number of bytes of the text
without the white space at its end. -/
def fault (root : Node) (size : Nat) : ParseError :=
  match root.firstRepair? with
  | none => ⟨1, .anywhere⟩
  | some n =>
    if n.missing then
      match n.kind with
      | .token .rbrace => ⟨n.line, .unclosed "\x7b"⟩
      | .token .rparen => ⟨n.line, .unclosed "("⟩
      | .token .rbrack => ⟨n.line, .unclosed "["⟩
      | k => ⟨n.line, .missing k.label⟩
    else if size ≤ n.stop.offset then ⟨n.line, .unfinished⟩
    else ⟨n.line, .unexpected (Unicode.trim ((Text.lines n.text).headD ""))⟩

end Node

/-- The declarations of a Go source text. -/
def SourceFile.parse (source : String) : Except ParseError SourceFile :=
  let cs := source.toList
  match Node.ofSource? cs with
  | none => .error ⟨1, .anywhere⟩
  | some root =>
    if root.broken then
      .error (root.fault (String.ofList (Unicode.trimEndChars cs)).utf8ByteSize)
    else root.sourceFile

end Go
end RouteScribe
