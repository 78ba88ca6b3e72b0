import RouteScribe.Template.Token
import RouteScribe.Template.Value

/-!
# RouteScribe.Template.Statement

What a template says: text, expressions to print, loops and branches; and how it is read from
tokens. A fault is on the line of the token that was read last.
-/

namespace RouteScribe
namespace Template

/-- An expression. Lines are those on which it begins. -/
inductive Expr where
  | value (v : Value)
  | name (s : String)
  | list (es : List Expr)
  /-- A part of a value, named in the template. -/
  | field (line : Nat) (e : Expr) (key : String)
  /-- A part of a value, named by a value. -/
  | item (line : Nat) (e key : Expr)
  | filter (line : Nat) (e : Expr) (name : String)
  | call (line : Nat) (function : String)
  | method (line : Nat) (e : Expr) (name : String)
  | negate (line : Nat) (e : Expr)
  | not (e : Expr)
  | and (a b : Expr)
  | or (a b : Expr)

/-- What a loop binds. -/
inductive Target where
  | name (s : String)
  | names (ts : List Target)

inductive Stmt where
  | data (s : String)
  | emit (e : Expr)
  /-- A loop over the items that pass the condition, and what stands in its place if there are
  none. -/
  | loop (line : Nat) (target : Target) (sequence : Expr) (condition : Option Expr)
    (body otherwise : List Stmt)
  | branch (condition : Expr) (body otherwise : List Stmt)

/-- The tokens to come, and the line of the token that was read last. -/
structure Stream where
  rest : List Lexeme
  last : Nat

/-- A step that reads tokens. -/
abbrev Reading (α : Type) := StateT Stream (Except Fault) α

namespace Reading

/-- What is here does not belong here. -/
def fail {α : Type} : Reading α := fun s => .error ⟨.malformed, s.last⟩

/-- The next token, which stays where it is; none at the end. -/
def peek : Reading (Option Token) := fun s =>
  match s.rest with
  | [] => .ok (none, s)
  | ⟨.broken c, line⟩ :: _ => .error ⟨c, line⟩
  | l :: _ => .ok (some l.token, s)

/-- The next token; none at the end. -/
def next : Reading (Option Token) := fun s =>
  match s.rest with
  | [] => .ok (none, s)
  | ⟨.broken c, line⟩ :: _ => .error ⟨c, line⟩
  | l :: ls => .ok (some l.token, ⟨ls, l.line⟩)

/-- The line of the next token. -/
def line : Reading Nat := fun s => .ok ((s.rest.head?.map (·.line)).getD s.last, s)

def expect (t : Token) : Reading Unit := do
  if (← next) = some t then pure () else fail

/-- Reads the token `t` if it is next. -/
def accept (t : Token) : Reading Bool := do
  if (← peek) = some t then
    let _ ← next
    pure true
  else pure false

def identifier : Reading String := do
  match ← next with
  | some (.ident s) => pure s
  | _ => fail

/-- Names that stand for something already. -/
def reserved : List String :=
  ["true", "True", "false", "False", "none", "None", "loop", "self"]

mutual

/-- What a loop binds: names in a row or in parentheses are taken apart. -/
def target : Nat → Reading Target
  | 0 => fail
  | fuel + 1 => do
    let first ← targetPart fuel
    if ← accept (.sign ",") then
      let rest ← targetRest fuel
      pure (.names (first :: rest))
    else pure first

/-- One name, or names in parentheses. -/
def targetPart : Nat → Reading Target
  | 0 => fail
  | fuel + 1 => do
    if ← accept (.sign "(") then
      let t ← target fuel
      expect (.sign ")")
      pure t
    else
      let s ← identifier
      if reserved.contains s then fail else pure (.name s)

/-- The names behind a comma. -/
def targetRest : Nat → Reading (List Target)
  | 0 => fail
  | fuel + 1 => do
    match ← peek with
    | some (.ident "in") | some (.sign ")") | some .exprEnd | some .stmtEnd => pure []
    | _ =>
      let t ← targetPart fuel
      if ← accept (.sign ",") then
        let rest ← targetRest fuel
        pure (t :: rest)
      else pure [t]

end

mutual

def expr : Nat → Reading Expr
  | 0 => fail
  | fuel + 1 => do
    let a ← conjunction fuel
    if ← accept (.ident "or") then
      let b ← expr fuel
      pure (.or a b)
    else pure a

/-- An expression that is no disjunction. -/
def conjunction : Nat → Reading Expr
  | 0 => fail
  | fuel + 1 => do
    let a ← negation fuel
    if ← accept (.ident "and") then
      let b ← conjunction fuel
      pure (.and a b)
    else pure a

/-- An expression without connectives, with negations in front. -/
def negation : Nat → Reading Expr
  | 0 => fail
  | fuel + 1 => do
    if ← accept (.ident "not") then
      let e ← negation fuel
      pure (.not e)
    else signed fuel

/-- An operand, with minus signs in front. -/
def signed : Nat → Reading Expr
  | 0 => fail
  | fuel + 1 => do
    let at' ← line
    if ← accept (.sign "-") then
      let e ← signed fuel
      pure (.negate at' e)
    else
      let e ← primary fuel
      suffixes fuel at' e

/-- What follows an operand: parts, calls and filters. -/
def suffixes : Nat → Nat → Expr → Reading Expr
  | 0, _, _ => fail
  | fuel + 1, at', e => do
    if ← accept (.sign ".") then
      let key ← identifier
      if ← accept (.sign "(") then
        let _ ← items fuel ")"
        suffixes fuel at' (.method at' e key)
      else suffixes fuel at' (.field at' e key)
    else if ← accept (.sign "[") then
      let key ← expr fuel
      expect (.sign "]")
      suffixes fuel at' (.item at' e key)
    else if ← accept (.sign "|") then
      let name ← identifier
      if ← accept (.sign "(") then
        let _ ← items fuel ")"
        suffixes fuel at' (.filter at' e name)
      else suffixes fuel at' (.filter at' e name)
    else
      match e with
      | .name s =>
        if ← accept (.sign "(") then
          let _ ← items fuel ")"
          suffixes fuel at' (.call at' s)
        else pure e
      | _ => pure e

/-- A name, a literal, or an expression in parentheses. -/
def primary : Nat → Reading Expr
  | 0 => fail
  | fuel + 1 => do
    match ← next with
    | some (.ident s) =>
      if s = "true" || s = "True" then pure (.value (.bool true))
      else if s = "false" || s = "False" then pure (.value (.bool false))
      else if s = "none" || s = "None" then pure (.value .none)
      else pure (.name s)
    | some (.str s) => pure (.value (.str s))
    | some (.int n) => pure (.value (.int n))
    | some (.decimal d) => pure (.value (.decimal d))
    | some (.sign "(") =>
      let e ← expr fuel
      if ← accept (.sign ",") then
        let es ← items fuel ")"
        pure (.list (e :: es))
      else
        expect (.sign ")")
        pure e
    | some (.sign "[") =>
      let es ← items fuel "]"
      pure (.list es)
    | _ => fail

/-- Expressions up to a bracket, with commas between them. -/
def items : Nat → String → Reading (List Expr)
  | 0, _ => fail
  | fuel + 1, bracket => do
    if ← accept (.sign bracket) then pure []
    else
      let e ← expr fuel
      if ← accept (.sign ",") then
        let es ← items fuel bracket
        pure (e :: es)
      else
        expect (.sign bracket)
        pure [e]

end

mutual

/-- Statements up to the end, or up to a tag that begins with one of `ends`; the word of that tag
is not read. -/
def stmts (ends : List String) : Nat → Reading (List Stmt)
  | 0 => fail
  | fuel + 1 => do
    match ← next with
    | none => pure []
    | some (.data s) =>
      let rest ← stmts ends fuel
      pure (.data s :: rest)
    | some .exprStart =>
      let e ← expr fuel
      expect .exprEnd
      let rest ← stmts ends fuel
      pure (.emit e :: rest)
    | some .stmtStart =>
      match ← peek with
      | none => fail
      | some t =>
        if ends.any fun w => t = .ident w then pure []
        else
          let s ← stmt fuel
          expect .stmtEnd
          let rest ← stmts ends fuel
          pure (s :: rest)
    | some _ => fail

/-- The statement of a tag, up to the end of the tag that closes it. -/
def stmt : Nat → Reading Stmt
  | 0 => fail
  | fuel + 1 => do
    match ← next with
    | some (.ident "for") => loop fuel
    | some (.ident "if") => branch fuel
    | _ => fail

/-- A loop, behind its word. -/
def loop : Nat → Reading Stmt
  | 0 => fail
  | fuel + 1 => do
    let t ← target fuel
    expect (.ident "in")
    let at' ← line
    let sequence ← expr fuel
    let filtered ← accept (.ident "if")
    let condition ← if filtered then some <$> expr fuel else pure none
    expect .stmtEnd
    let body ← stmts ["endfor", "else"] fuel
    let more ← accept (.ident "else")
    let otherwise ←
      if more then
        expect .stmtEnd
        stmts ["endfor"] fuel
      else pure []
    let _ ← next
    pure (.loop at' t sequence condition body otherwise)

/-- A branch, behind its word. -/
def branch : Nat → Reading Stmt
  | 0 => fail
  | fuel + 1 => do
    let condition ← expr fuel
    expect .stmtEnd
    let body ← stmts ["endif", "else", "elif"] fuel
    match ← next with
    | some (.ident "else") =>
      expect .stmtEnd
      let otherwise ← stmts ["endif"] fuel
      let _ ← next
      pure (.branch condition body otherwise)
    | some (.ident "elif") =>
      let s ← branch fuel
      pure (.branch condition body [s])
    | _ => pure (.branch condition body [])

end

end Reading

/-- The statements of a template. Each step that reads no token leads to one that does within few
steps, so the fuel is enough. -/
def parse (template : String) : Except Fault (List Stmt) :=
  let lexemes := tokens template
  match (Reading.stmts [] (16 * lexemes.length + 16)).run ⟨lexemes, 0⟩ with
  | .ok (ss, _) => .ok ss
  | .error e => .error e

end Template
end RouteScribe
