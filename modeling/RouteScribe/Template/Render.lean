import RouteScribe.Template.Statement

/-!
# RouteScribe.Template.Render

The text of a template for given values. Names without a value are undefined: they print nothing
and have no items, but to ask for a part of one is a fault.
-/

namespace RouteScribe
namespace Template

/-- The values of names, the innermost first. -/
abbrev Scope := List (String × Value)

def Scope.get (scope : Scope) (name : String) : Value :=
  ((scope.find? (·.1 = name)).map (·.2)).getD .undefined

def part (line : Nat) (v : Value) (key : String) : Except Fault Value :=
  match v with
  | .undefined => .error ⟨.undefinedValue, line⟩
  | v => .ok (v.field key)

/-- The item with a number, counted from the end if the number is negative. -/
def itemAt (vs : List Value) (n : Int) : Value :=
  let n := if n < 0 then n + vs.length else n
  if n < 0 then .undefined else (vs[n.toNat]?).getD .undefined

/-- The part of a value that a value names. -/
def partAt (line : Nat) (v key : Value) : Except Fault Value :=
  match v, key with
  | .undefined, _ => .error ⟨.undefinedValue, line⟩
  | .list vs, .int n => .ok (itemAt vs n)
  | v, .str s => .ok (v.field s)
  | _, _ => .ok .undefined

mutual

/-- The value of an expression. -/
def Expr.eval (scope : Scope) : Expr → Except Fault Value
  | .value v => .ok v
  | .name s => .ok (scope.get s)
  | .list es =>
    match evalAll scope es with
    | .ok vs => .ok (.list vs)
    | .error f => .error f
  | .field line e key =>
    match e.eval scope with
    | .ok v => part line v key
    | .error f => .error f
  | .item line e key =>
    match e.eval scope with
    | .error f => .error f
    | .ok v =>
      match key.eval scope with
      | .ok k => partAt line v k
      | .error f => .error f
  | .filter line e _ =>
    match e.eval scope with
    | .ok _ => .error ⟨.unknownFilter, line⟩
    | .error f => .error f
  | .call line function =>
    match scope.get function with
    | .undefined => .error ⟨.unknownFunction, line⟩
    | _ => .error ⟨.invalidOperation, line⟩
  | .method line e _ =>
    match e.eval scope with
    | .ok .undefined => .error ⟨.undefinedValue, line⟩
    | .ok _ => .error ⟨.unknownMethod, line⟩
    | .error f => .error f
  | .negate line e =>
    match e.eval scope with
    | .ok (.int n) => .ok (.int (-n))
    | .ok _ => .error ⟨.invalidOperation, line⟩
    | .error f => .error f
  | .not e =>
    match e.eval scope with
    | .ok v => .ok (.bool !v.holds)
    | .error f => .error f
  | .and a b =>
    match a.eval scope with
    | .ok v => if v.holds then b.eval scope else .ok v
    | .error f => .error f
  | .or a b =>
    match a.eval scope with
    | .ok v => if v.holds then .ok v else b.eval scope
    | .error f => .error f

def evalAll (scope : Scope) : List Expr → Except Fault (List Value)
  | [] => .ok []
  | e :: es =>
    match e.eval scope with
    | .error f => .error f
    | .ok v =>
      match evalAll scope es with
      | .ok vs => .ok (v :: vs)
      | .error f => .error f

end

mutual

/-- The names that a target binds to a value and to parts of it. -/
def Target.bind (line : Nat) : Target → Value → Except Fault Scope
  | .name s, v => .ok [(s, v)]
  | .names ts, v =>
    match v with
    | .list vs => bindAll line ts vs
    | _ => .error ⟨.invalidOperation, line⟩

/-- The names that targets bind; there have to be as many values. -/
def bindAll (line : Nat) : List Target → List Value → Except Fault Scope
  | [], [] => .ok []
  | t :: ts, v :: vs =>
    match t.bind line v with
    | .error f => .error f
    | .ok first =>
      match bindAll line ts vs with
      | .ok rest => .ok (first ++ rest)
      | .error f => .error f
  | _, _ => .error ⟨.invalidOperation, line⟩

end

/-- What a loop tells its body about round `n` of `total`. -/
def loopValue (n total : Nat) : Value :=
  .map
    [("first", .bool (n = 0)), ("index", .int (n + 1)), ("index0", .int n),
      ("last", .bool (n + 1 = total)), ("length", .int total), ("revindex", .int (total - n)),
      ("revindex0", .int (total - n - 1))]

/-- The scopes in which the body of a loop is rendered: one for each item that passes the
condition. -/
def rounds (scope : Scope) (line : Nat) (target : Target) (condition : Option Expr) :
    List Value → Except Fault (List Scope)
  | [] => .ok []
  | v :: vs =>
    match target.bind line v with
    | .error f => .error f
    | .ok bound =>
      match (condition.map fun c => c.eval (bound ++ scope)).getD (.ok (.bool true)) with
      | .error f => .error f
      | .ok c =>
        match rounds scope line target condition vs with
        | .error f => .error f
        | .ok rest => .ok (if c.holds then bound :: rest else rest)

/-- Renders for one scope after the other. -/
def renderEach (scope : Scope) (total : Nat) (body : Scope → Except Fault String) :
    Nat → List Scope → Except Fault String
  | _, [] => .ok ""
  | n, bound :: rest =>
    match body (bound ++ ("loop", loopValue n total) :: scope) with
    | .error f => .error f
    | .ok s =>
      match renderEach scope total body (n + 1) rest with
      | .ok t => .ok (s ++ t)
      | .error f => .error f

mutual

/-- The text of a statement. -/
def Stmt.render : Stmt → Scope → Except Fault String
  | .data s, _ => .ok s
  | .emit e, scope =>
    match e.eval scope with
    | .ok v => .ok v.text
    | .error f => .error f
  | .loop line target sequence condition body otherwise, scope =>
    match sequence.eval scope with
    | .error f => .error f
    | .ok v =>
      match v.items? with
      | none => .error ⟨.invalidOperation, line⟩
      | some vs =>
        match rounds scope line target condition vs with
        | .error f => .error f
        | .ok [] => renderAll otherwise scope
        | .ok (s :: ss) =>
          renderEach scope (ss.length + 1) (fun inner => renderAll body inner) 0 (s :: ss)
  | .branch condition body otherwise, scope =>
    match condition.eval scope with
    | .error f => .error f
    | .ok v => if v.holds then renderAll body scope else renderAll otherwise scope

def renderAll : List Stmt → Scope → Except Fault String
  | [], _ => .ok ""
  | s :: ss, scope =>
    match s.render scope with
    | .error f => .error f
    | .ok t =>
      match renderAll ss scope with
      | .ok rest => .ok (t ++ rest)
      | .error f => .error f

end

/-- The text of a template for the values in a map. -/
def render (template : String) (data : Value) : Except Fault String :=
  match parse template with
  | .error f => .error f
  | .ok ss =>
    renderAll ss
      (match data with
        | .map rows => rows
        | _ => [])

end Template
end RouteScribe
