import RouteScribe.Go.Production

/-!
# RouteScribe.Go.Automaton

The shift-reduce automaton of the grammar, with one token of lookahead. A state is the list of
productions under way, each with the tokens that may follow it. States are computed where a
parse meets them, from tables that the productions give once.

Where a state could both shift and reduce, or reduce in several ways, the binding levels and the
grouping of the productions decide; what they leave open is kept as several actions.
-/

namespace RouteScribe
namespace Go

/-- A set of tokens for each symbol, as the bits of one number; symbols are numbers by
`Symbol.code`. -/
abbrev TokenMap := Nat

namespace TokenMap

/-- Number of bits for a symbol. -/
def width : Nat := 128

def get (m : TokenMap) (x : Nat) : TokenSet := (m >>> (x * width)) % Nat.pow 2 width

/-- The map with the tokens `s` for the symbol `x` only. -/
def single (x : Nat) (s : TokenSet) : TokenMap := s <<< (x * width)

end TokenMap

/-- What may follow the phrases that directly begin productions of the phrase `head`. -/
structure Edges where
  head : Nat
  /-- The tokens that may follow each of them wherever `head` stands. -/
  tokens : TokenMap
  /-- One bit for each of them that whatever follows `head` may follow, too. -/
  open_ : TokenMap
  deriving DecidableEq, Inhabited

namespace Edges

/-- What may follow each phrase, if `outer` may follow the head. -/
def follow (e : Edges) (outer : TokenSet) : TokenMap := e.tokens ||| e.open_ * outer

/-- Adds what the phrase with number `y` has behind it in a production that begins with it: the
tokens `follows`, or if there is no such set whatever follows `head`. -/
def add (head y : Nat) (follows : Option TokenSet) (es : List Edges) : List Edges :=
  let tokens := (follows.map (TokenMap.single y)).getD 0
  let open_ := if follows.isNone then TokenMap.single y 1 else 0
  match es with
  | [] => [⟨head, tokens, open_⟩]
  | e :: es =>
    if e.head == head then ⟨head, e.tokens ||| tokens, e.open_ ||| open_⟩ :: es
    else ⟨head, tokens, open_⟩ :: e :: es

end Edges

/-- A production under way: its number, how many of its symbols are read, the symbols to come, and
the tokens that may follow the whole. -/
structure Item where
  production : Nat
  dot : Nat
  rest : List Nat
  ahead : TokenSet
  deriving DecidableEq, Repr

/-- A state, as the productions under way with at least one symbol read; no production at all is
the state of a parse that has lost its way. -/
structure State where
  items : List Item
  deriving DecidableEq, Repr

def State.lost : State := ⟨[]⟩

/-- A production without its first symbol. -/
structure Opening where
  production : Nat
  head : Nat
  rest : List Nat

structure Tables where
  productions : Array Production
  /-- The tokens with which a symbol can begin. -/
  firsts : TokenMap
  /-- The productions that begin with a symbol; that of the whole file begins nowhere. -/
  beginning : Array (List Opening)
  edges : List Edges
  /-- No phrase begins deeper inside of another. -/
  depth : Nat

namespace Tables

/-- The numbers of the symbols of a production. -/
def codes (p : Production) : List Nat := p.steps.map (·.symbol.code)

def symbolCount (ps : List Production) : Nat :=
  ps.foldl (fun n p => max n (p.head.code + 1)) 0

/-- Repeats `f` until nothing changes, at most `n` times. -/
def settle (f : Nat → Nat) : Nat → Nat → Nat
  | 0, a => a
  | n + 1, a => if f a == a then a else settle f n (f a)

/-- One round of collecting first tokens, over the heads and first symbols of productions. -/
def firstsRound : List (Nat × Nat) → TokenMap → TokenMap
  | [], m => m
  | (x, y) :: ls, m => firstsRound ls (m ||| TokenMap.single x (m.get y))

/-- The tokens with which each symbol can begin. -/
def firstTokens (ps : List Production) (n : Nat) : TokenMap :=
  let lefts := ps.filterMap fun p => (codes p).head?.map fun y => (p.head.code, y)
  settle (firstsRound lefts) n
    (Token.all.foldl (fun m t => m ||| TokenMap.single t.index (TokenSet.single t)) 0)

/-- The productions that begin with `x`. -/
def beginningWith (ps : List (Production × Nat)) (x : Nat) : List Opening :=
  ps.filterMap fun (p, i) =>
    match codes p with
    | [] => none
    | y :: rest => if y = x then some ⟨i, p.head.code, rest⟩ else none

/-- The edges of all phrases, from the first symbols of their productions. -/
def edgesOf (firsts : TokenMap) : List Production → List Edges
  | [] => []
  | p :: ps =>
    let es := edgesOf firsts ps
    match codes p with
    | [] => es
    | y :: rest =>
      if y < Symbol.tokenCount then es
      else Edges.add p.head.code y (rest.head?.map firsts.get) es

/-- The tables of a list of productions. -/
def ofProductions (ps : List Production) : Tables :=
  let n := symbolCount ps
  let firsts := firstTokens ps n
  { productions := ps.toArray
    firsts
    beginning := ((List.range n).map (beginningWith (ps.zipIdx.drop 1))).toArray
    edges := edgesOf firsts ps
    depth := n }

end Tables

/-- What a parse may do on a token. `repeats` marks a shift that a repetition makes redundant. -/
inductive Action where
  | shift (repeats : Bool)
  | reduce (production : Nat)
  | accept
  deriving DecidableEq, Repr

def Item.completion (i : Item) : Action :=
  if i.production = 0 then .accept else .reduce i.production

/-- The item behind the symbol `x`, if `x` comes next. -/
def Item.past? (x : Nat) (i : Item) : Option Item :=
  match i.rest with
  | [] => none
  | y :: rest => if y = x then some { i with dot := i.dot + 1, rest } else none

namespace Tables

variable (g : Tables)

/-- The state before the file. Its last item is an empty file. -/
def start : State :=
  let eof := TokenSet.single .eof
  let whole : Item := ⟨0, 0, [(Symbol.phrase .sourceFile).code], eof⟩
  match g.productions.findIdx? fun p => p.head = .phrase .sourceFile && p.steps.isEmpty with
  | some e => ⟨[whole, ⟨e, 0, [], eof⟩]⟩
  | none => ⟨[whole]⟩

/-- What may follow the next symbol of each item. -/
def outer (s : State) : TokenMap :=
  s.items.foldl (fun m i =>
    match i.rest with
    | [] => m
    | [x] => m ||| TokenMap.single x i.ahead
    | x :: y :: _ => m ||| TokenMap.single x (g.firsts.get y)) 0

/-- What may follow each phrase, from what is known of that, by one step further inside. -/
def inward : List Edges → TokenMap → TokenMap
  | [], m => m
  | e :: es, m =>
    match m.get e.head with
    | 0 => inward es m
    | f + 1 => inward es (m ||| e.follow (f + 1))

/-- The phrases that may begin in a state, with what may follow each. -/
def openings (s : State) : TokenMap := settle (inward g.edges) g.depth (g.outer s)

/-- The state behind the symbol `x`; lost if `x` cannot come. -/
def goto (s : State) (x : Symbol) : State :=
  let opened := g.openings s
  let begun := (g.beginning[x.code]?.getD []).filterMap fun o =>
    match opened.get o.head with
    | 0 => none
    | f + 1 => some ⟨o.production, 1, o.rest, f + 1⟩
  ⟨s.items.filterMap (Item.past? x.code) ++ begun⟩

/-- The tokens with which an item can go on. -/
def comes (i : Item) : TokenSet :=
  match i.rest with
  | [] => 0
  | x :: _ => g.firsts.get x

/-- The tokens that can come in a state. -/
def expected (s : State) : TokenSet :=
  s.items.foldl (fun a i => a ||| if i.rest.isEmpty then i.ahead else g.comes i) 0

def lastStep? (i : Item) : Option Step :=
  match i.dot with
  | 0 => none
  | d + 1 => g.productions[i.production]?.bind (·.steps[d]?)

def levelOf (i : Item) : Int := ((g.lastStep? i).bind (·.level)).getD 0

def sideOf (i : Item) : Option Side := (g.lastStep? i).bind (·.side)

def headOf (i : Item) : Symbol := (g.productions[i.production]?.map (·.head)).getD .whole

/-- Of several completed items, those that bind strongest, in the order of reductions. -/
def strongest (is : List Item) : List Item :=
  match is with
  | [] => []
  | [i] => [i]
  | i :: _ =>
    let top := is.foldl (fun m i => max m (g.levelOf i)) (g.levelOf i)
    (is.filter (g.levelOf · = top)).mergeSort fun a b =>
      a.dot < b.dot || (a.dot = b.dot && a.production ≤ b.production)

/-- What can be done on token `t` in a state, reductions first. -/
def actions (s : State) (t : Token) : List Action :=
  let done := g.strongest (s.items.filter fun i => i.rest.isEmpty && i.ahead.has t)
  let reductions := done.map Item.completion
  let ongoing := s.items.filter fun i => (g.comes i).has t
  match ongoing, done with
  | [], _ => reductions
  | _, [] => [.shift false]
  | _, d :: _ =>
    let midway := ongoing.filter (0 < ·.dot)
    let heads := ((midway ++ done).filter (·.production ≠ 0)).map g.headOf
    match heads with
    | .run n :: rest =>
      if rest.all (· = .run n) then reductions ++ [.shift true] else settled d done midway
    | _ => settled d done midway
where
  /-- The choice between shifting and reducing, by level and then by grouping. -/
  settled (d : Item) (done midway : List Item) : List Action :=
    let reductions := done.map Item.completion
    let level := g.levelOf d
    let more := midway.any (g.levelOf · > level)
    let less := midway.any (g.levelOf · < level)
    let sides := done.map g.sideOf
    if more && !less then [.shift false]
    else if less && !more then reductions
    else if !less && !more && sides.all (· = some .left) then reductions
    else if !less && !more && sides.all (· = some .right) then [.shift false]
    else reductions ++ [.shift false]

/-- Some action is possible on `t`; comments may come anywhere. -/
def admits (s : State) (t : Token) : Bool := t = .comment || !(g.actions s t).isEmpty

end Tables

def goTables : Tables := Tables.ofProductions productions

end Go
end RouteScribe
