import RouteScribe.Go.Piece

/-!
# RouteScribe.Go.Branch

Parses under way. A stack may have several stacks under its top piece, where parses of the same
text have met in the same state; a branch is a stack with what error repair remembers about it.
-/

namespace RouteScribe
namespace Go

/-- A stack of states and the pieces between them. No piece between two states marks where the
parse lost its way. `depth` is the length of the longest way down. -/
inductive Stack where
  | mk (id depth : Nat) (state : State) (place : Cursor) (links : List (Option Piece × Stack))
    (cost progress : Nat) (favour : Int)

namespace Stack

def id : Stack → Nat | mk i _ _ _ _ _ _ _ => i
def depth : Stack → Nat | mk _ d _ _ _ _ _ _ => d
def state : Stack → State | mk _ _ s _ _ _ _ _ => s
def place : Stack → Cursor | mk _ _ _ p _ _ _ _ => p
def links : Stack → List (Option Piece × Stack) | mk _ _ _ _ l _ _ _ => l
def cost : Stack → Nat | mk _ _ _ _ _ c _ _ => c
def progress : Stack → Nat | mk _ _ _ _ _ _ n _ => n
def favour : Stack → Int | mk _ _ _ _ _ _ _ f => f

def bottom (s : State) (p : Cursor) : Stack := mk 0 1 s p [] 0 0 0

def push (below : Stack) (id : Nat) (piece : Option Piece) (s : State) : Stack :=
  match piece with
  | some p =>
    mk id (below.depth + 1) s p.stop [(piece, below)] (below.cost + p.cost)
      (below.progress + p.progress) (below.favour + p.favour)
  | none => mk id (below.depth + 1) s below.place [(none, below)] below.cost below.progress
      below.favour

/-- The stack without ways down. -/
def cut : Stack → Stack
  | mk i d s p _ c n f => mk i d s p [] c n f

/-- The parse has just lost its way here. -/
def justLost (s : Stack) : Bool :=
  s.state = .lost && (match s.links with
    | (none, _) :: _ => true
    | [] => true
    | _ => false)

/-- Two stacks can go on as one. -/
def meets (a b : Stack) : Bool :=
  a.place.offset == b.place.offset && a.cost == b.cost && a.state = b.state

/-- Links that say the same. -/
def sameLink (a b : Option Piece) : Bool :=
  match a, b with
  | none, none => true
  | some p, some q => p.equivalent q
  | _, _ => false

def pieceFavour (p : Option Piece) : Int := p.elim 0 Piece.favour

/-- The most stacks kept under one piece. -/
def maxLinks : Nat := 8

/-- A stack with one more way down. Ways that say the same are joined further down. The first
argument bounds how far. -/
def addLink : Nat → Stack → Option Piece × Stack → Stack
  | 0, self, _ => self
  | fuel + 1, self, (piece, below) =>
    let fits := fun (l : Option Piece × Stack) =>
      sameLink l.1 piece && (l.2.id == below.id || l.2.meets below)
    match self with
    | mk i d s p ls c n f =>
      match ls.findIdx? fits with
      | some k =>
        match ls[k]? with
        | some (old, under) =>
          if under.id == below.id then
            if pieceFavour old < pieceFavour piece then
              mk i d s p (ls.set k (piece, under)) c n (below.favour + pieceFavour piece)
            else self
          else
            let joined := below.links.foldl (addLink fuel) under
            mk i (max d (joined.depth + 1)) s p (ls.set k (old, joined)) c n
              (max f (below.favour + pieceFavour piece))
        | none => self
      | none =>
        if maxLinks ≤ ls.length then self
        else
          mk i (max d (below.depth + 1)) s p (ls ++ [(piece, below)]) c
            (max n (below.progress + piece.elim 0 Piece.progress))
            (max f (below.favour + pieceFavour piece))

/-- Both stacks as one, which keeps the name of the first. -/
def join (a b : Stack) : Stack :=
  b.links.foldl (fun a l => if l.2.id == a.id then a else addLink (b.depth + 1) a l) a

/-- A way down a stack: where it has come to, the pieces passed, and how many of them count. -/
structure Way where
  top : Stack
  pieces : List Piece := []
  count : Nat := 0

namespace Way

/-- One piece further down. -/
def down (w : Way) (l : Option Piece × Stack) : Way :=
  match l.1 with
  | some p => ⟨l.2, p :: w.pieces, if p.extra then w.count else w.count + 1⟩
  | none => ⟨l.2, w.pieces, w.count + 1⟩

end Way

/-- The most ways followed at once. -/
def maxWays : Nat := 64

/-- One step down all ways that have not arrived. The first link goes on in place, the others at
the end. -/
def spread (ws : List Way) : List Way :=
  let first := ws.filterMap fun w => w.top.links.head?.map w.down
  let others := ws.flatMap fun w => w.top.links.tail.map w.down
  first ++ others.take (maxWays - first.length)

/-- All ways down to where `arrived` holds, in the order in which they get there. -/
def waysTo (arrived : Way → Bool) : Nat → List Way → List Way
  | 0, _ => []
  | fuel + 1, ws =>
    let (there, going) := ws.partition arrived
    if going.isEmpty then there else there ++ waysTo arrived fuel (spread going)

/-- The ways below `n` pieces, extras not counted. -/
def pop (s : Stack) (n : Nat) : List Way := waysTo (·.count == n) (s.depth + 1) [⟨s, [], 0⟩]

def popAll (s : Stack) : List Way := waysTo (·.top.links.isEmpty) (s.depth + 1) [⟨s, [], 0⟩]

/-- Adds a way to the group of those that end where it does. -/
def addToGroup (gs : List (Stack × List (List Piece))) (w : Way) :
    List (Stack × List (List Piece)) :=
  match gs.findIdx? (·.1.id == w.top.id) with
  | some k => gs.modify k fun g => (g.1, g.2 ++ [w.pieces])
  | none => gs ++ [(w.top, [w.pieces])]

/-- Ways grouped by where they end. -/
def group (ws : List Way) : List (Stack × List (List Piece)) := ws.foldl addToGroup []

/-- A state under the top, and how deep it lies. -/
structure Landmark where
  place : Cursor
  depth : Nat
  state : State

/-- How deep landmarks are looked for. -/
def maxLandmarkDepth : Nat := 16

/-- The landmarks on the ways `ws`, added to those known; and the ways that go on. -/
def noteLandmarks (known : List Landmark) : List Way → List Landmark × List Way
  | [] => (known, [])
  | w :: ws =>
    if maxLandmarkDepth < w.count then noteLandmarks known ws
    else
      let seen := known.any fun l => l.depth == w.count && l.state = w.top.state
      let known := if seen then known else known ++ [⟨w.top.place, w.count, w.top.state⟩]
      let (known, rest) := noteLandmarks known ws
      (known, w :: rest)

/-- The landmarks of a stack, nearest first. -/
def landmarks : Nat → List Landmark → List Way → List Landmark
  | 0, known, _ => known
  | fuel + 1, known, ws =>
    let (known, going) := noteLandmarks known ws
    if going.isEmpty then known else landmarks fuel known (spread going)

end Stack

/-- Whether a branch goes on. -/
inductive Status where
  | active
  /-- Waits to see whether another branch fares better; `next` is the token it stumbled on. -/
  | paused (next : Leaf)
  | halted

/-- A parse under way. -/
structure Branch where
  top : Stack
  /-- The progress when the parse last lost its way. -/
  mark : Nat := 0
  /-- The states below the place where it lost its way. -/
  landmarks : Option (List Stack.Landmark) := none
  status : Status := .active

namespace Branch

def isActive (b : Branch) : Bool := match b.status with | .active => true | _ => false
def isPaused (b : Branch) : Bool := match b.status with | .paused _ => true | _ => false
def isHalted (b : Branch) : Bool := match b.status with | .halted => true | _ => false

def cost (b : Branch) : Nat :=
  b.top.cost + (if b.isPaused || b.top.justLost then prices.lost else 0)

/-- The progress since the parse last lost its way. -/
def sinceLost (b : Branch) : Nat := b.top.progress - min b.mark b.top.progress

/-- Another way to go on from the same past. -/
def fork (b : Branch) (top : Stack) : Branch := { top, mark := b.mark }

/-- Two branches can go on as one. -/
def meets (a b : Branch) : Bool := a.isActive && b.isActive && a.top.meets b.top

def join (a b : Branch) : Branch :=
  let top := a.top.join b.top
  { a with top, mark := if top.state = .lost then top.progress else a.mark }

/-- How a branch stands in comparison. -/
structure Standing where
  cost : Nat
  sinceLost : Nat
  favour : Int
  inError : Bool

def standing (b : Branch) : Standing where
  cost := b.cost + (if b.isPaused then prices.tree else 0)
  sinceLost := b.sinceLost
  favour := b.top.favour
  inError := b.isPaused || b.top.state = .lost

/-- The verdict on two branches. -/
inductive Verdict where
  | takeLeft | preferLeft | none | preferRight | takeRight
  deriving DecidableEq

/-- The difference in price, weighted by progress, at which a branch is given up. -/
def maxDifference : Nat := 18 * prices.tree

/-- Which of two branches is better, and whether the other is to be given up. -/
def compare (a b : Standing) : Verdict :=
  if !a.inError && b.inError then
    if a.cost < b.cost then .takeLeft else .preferLeft
  else if a.inError && !b.inError then
    if b.cost < a.cost then .takeRight else .preferRight
  else if a.cost < b.cost then
    if maxDifference < (b.cost - a.cost) * (1 + a.sinceLost) then .takeLeft else .preferLeft
  else if b.cost < a.cost then
    if maxDifference < (a.cost - b.cost) * (1 + b.sinceLost) then .takeRight else .preferRight
  else if b.favour < a.favour then .preferLeft
  else if a.favour < b.favour then .preferRight
  else .none

end Branch

end Go
end RouteScribe
