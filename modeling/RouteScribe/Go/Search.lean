import RouteScribe.Go.Branch

/-!
# RouteScribe.Go.Search

The search for a parse. Several branches are followed side by side as long as the grammar leaves
several actions open; branches that meet are joined. A branch that stumbles waits, and only when
no branch is left that goes on is the most promising one repaired: by making up one missing
token, by going back to an earlier state in which the next token fits, or by skipping the token.
Repairs have prices, and the cheapest parse of the whole text wins.
-/

namespace RouteScribe
namespace Go

structure Search where
  branches : List Branch
  /-- The best parse of the whole text so far. -/
  best : Option Piece := none
  /-- How many parses of the whole text were found. -/
  found : Nat := 0
  /-- The next free name of a stack. -/
  fresh : Nat := 1

namespace Search

/-- The most branches that outlive a round. -/
def maxBranches : Nat := 6

/-- How many more branches a round may have in between. -/
def branchOverflow : Nat := 4

variable (g : Tables)

def modify (s : Search) (i : Nat) (f : Branch → Branch) : Search :=
  { s with branches := s.branches.modify i f }

def drop (s : Search) (i : Nat) : Search := { s with branches := s.branches.eraseIdx i }

def size (s : Search) : Nat := s.branches.length

/-- Puts a piece on branch `i`. -/
def push (s : Search) (i : Nat) (piece : Option Piece) (state : State) : Search :=
  { s.modify i fun b =>
      let top := b.top.push s.fresh piece state
      { b with top, mark := if piece.isNone then top.progress else b.mark } with
    fresh := s.fresh + 1 }

/-- Puts pieces on branch `i` that leave its state as it is. -/
def pushAll (s : Search) (i : Nat) (ps : List Piece) (state : State) : Search :=
  ps.foldl (fun s p => s.push i (some p) state) s

/-- Joins branch `j` into branch `i` if they meet. -/
def join? (s : Search) (i j : Nat) : Option Search :=
  match s.branches[i]?, s.branches[j]? with
  | some a, some b => if a.meets b then some ((s.modify i (·.join b)).drop j) else none
  | _, _ => none

/-- Moves branch `i` to the place of branch `j`, which it replaces. -/
def replace (s : Search) (i j : Nat) : Search :=
  match s.branches[i]?, s.branches[j]? with
  | some a, some b =>
    let a := { a with landmarks := a.landmarks.or b.landmarks }
    { s with branches := (s.branches.set j a).eraseIdx i }
  | _, _ => s

/-- Joins branch `j` into the first branch of `is` that it meets. -/
def joinAny (s : Search) (is : List Nat) (j : Nat) : Option Search := is.findSome? (s.join? · j)

/-- The better of a phrase and the one that is built from the pieces `ps`, each with the extras
behind it. -/
def chooseBetter (build : List Piece → Piece) (r : Piece × List Piece) (ps : List Piece) :
    Piece × List Piece :=
  let (parts, extras) := Piece.splitExtras ps
  let q := build parts
  if r.1.prefers q then (q, extras) else r

/-- The best of several lists of parts for a phrase, with the extras behind them. -/
def chooseParts (build : List Piece → Piece) :
    List (List Piece) → Option (Piece × List Piece)
  | [] => none
  | ps :: rest =>
    let (parts, extras) := Piece.splitExtras ps
    some (rest.foldl (chooseBetter build) (build parts, extras))

/-- One of the branches that a reduction leads to. `dropped` counts branches that are gone again. -/
def reduceTo (version : Nat) (production : Nat) (p : Production)
    (acc : Search × Nat) (k : Nat) (alternatives : List (List Piece)) : Search × Nat :=
  let (s, dropped) := acc
  let i := k - dropped
  if maxBranches + branchOverflow < i then (s.drop i, dropped + 1)
  else
    match s.branches[i]? with
    | none => (s, dropped)
    | some b =>
      let build := Piece.compose (.symbol p.head) production p.steps p.favour b.top.place
      match chooseParts build alternatives with
      | none => (s, dropped)
      | some (piece, extras) =>
        let state := g.goto b.top.state p.head
        let s := (s.push i (some piece) state).pushAll i extras state
        match s.joinAny ((List.range i).filter (· ≠ version)) i with
        | some s => (s, dropped + 1)
        | none => (s, dropped)

/-- Reduces branch `version` by a production. The branches that this leads to come last; the
answer is the first of them, if any. -/
def reduce (s : Search) (version production : Nat) : Search × Option Nat :=
  match s.branches[version]?, g.productions[production]? with
  | some b, some p =>
    let initial := s.size
    let groups := Stack.group (b.top.pop p.steps.length)
    let s := { s with branches := s.branches ++ groups.map fun gr => b.fork gr.1 }
    let (s, _) := groups.zipIdx.foldl (fun acc (gr, k) =>
      reduceTo g version production p acc (initial + k) gr.2) (s, 0)
    (s, if initial < s.size then some initial else none)
  | _, _ => (s, none)

/-- The token that branch `b` comes to, read as its state `s` admits. -/
def resolve (s : State) (l : Lexeme) (before : Cursor) : Leaf :=
  let keyword :=
    if l.token = .identifier then Token.keyword? (l.start.textTo l.stop).toList else none
  match keyword with
  | some k =>
    if s = .lost || g.admits s k then
      { token := some k, keyword := true, before, start := l.start, stop := l.stop }
    else { token := some .identifier, keyword := true, before, start := l.start, stop := l.stop }
  | none =>
    { token := some l.token, extra := l.token = .eof, before, start := l.start, stop := l.stop }

/-- The end of characters that form no token, from `p` on. -/
def skipUnreadable : Nat → Cursor → Cursor → Cursor
  | 0, _, stop => stop
  | fuel + 1, p, stop =>
    match Lexeme.next Token.anywhere p with
    | .ok _ => stop
    | .error (_, q) =>
      let q := if q.offset = stop.offset then q.skip 1 else q
      skipUnreadable fuel q q

/-- The next token at `p` in the state `s`. -/
def read (s : State) (p : Cursor) : Leaf :=
  let found :=
    if s = .lost then .error (p, p)
    else Lexeme.next (g.expected s) p
  match found with
  | .ok l => resolve g s l p
  | .error _ =>
    match Lexeme.next Token.anywhere p with
    | .ok l => resolve g s l p
    | .error (start, _) =>
      { token := none, before := p, start, stop := skipUnreadable (p.rest.length + 1) start start }

/-- The parse of the whole text that the pieces `ps` make up: the last phrase, with the extras around
it among its parts. -/
def root? (ps : List Piece) : Option Piece :=
  match ps.reverse.findIdx? (!·.extra) with
  | none => none
  | some k =>
    let at_ := ps.length - 1 - k
    match ps[at_]? with
    | some (.node n cs) =>
      let steps := match n.label with
        | .symbol _ => (g.productions[n.production]?.map (·.steps)).getD []
        | _ => []
      some (Piece.compose n.label n.production steps 0 n.start
        (ps.take at_ ++ cs ++ ps.drop (at_ + 1)))
    | _ => none

/-- Counts a parse of the whole text and keeps it if it is the best so far. -/
def offer (s : Search) (r : Piece) : Search :=
  { s with
    found := s.found + 1
    best := match s.best with
      | some t => if t.prefers r then some r else some t
      | none => some r }

/-- A stack with the pieces `ps` at the end of the text on it, and the next free name. -/
def finish (top : Stack) (fresh : Nat) : List Piece → Stack × Nat
  | [] => (top, fresh)
  | p :: ps => finish (top.push fresh (some p) g.start) (fresh + 1) ps

/-- Takes the parse of branch `i`, with the pieces `ps` at the end of the text, as one of the whole
text. The branch is over and keeps nothing but its standing. -/
def accept (s : Search) (i : Nat) (ps : List Piece) : Search :=
  match s.branches[i]? with
  | none => s
  | some b =>
    let (top, fresh) := finish g b.top s.fresh ps
    let roots := (Stack.group top.popAll).flatMap fun gr => gr.2.filterMap (root? g)
    { roots.foldl offer s with fresh }.modify i fun b =>
      { b with top := top.cut, status := .halted }

/-- A branch other than `version` makes going on at the price `cost` pointless. -/
def betterExists (s : Search) (version : Nat) (cost : Nat) : Bool :=
  match s.branches[version]? with
  | none => false
  | some b =>
    let mine : Branch.Standing := { b.standing with cost := cost, inError := false }
    s.best.any (·.cost ≤ cost)
      || s.branches.zipIdx.any fun (c, i) =>
        i ≠ version && c.isActive && b.top.place.offset ≤ c.top.place.offset
          && (match Branch.compare mine c.standing with
            | .takeRight => true
            | .preferRight => c.meets b
            | _ => false)

/-- Goes back on branch `b` to the stack `node` in the state `goal`; the pieces `ps` above it are
skipped. -/
def recoverInto (b : Branch) (goal : State) (acc : Search × Bool) (node : Stack)
    (alternatives : List (List Piece)) : Search × Bool :=
  match alternatives with
  | [] => acc
  | ps :: _ =>
    if node.state ≠ goal then acc
    else
      let (s, _) := acc
      -- Text skipped right before joins what is skipped now.
      let earlier := node.links.findSome? fun l =>
        match l.1 with
        | some p => if p.isError then some (p, l.2) else none
        | none => none
      let (node, ps) := match earlier with
        | some (e, under) => (under, e.children ++ ps)
        | none => (node, ps)
      let (parts, extras) := Piece.splitExtras ps
      let i := s.size
      let s := { s with branches := s.branches ++ [b.fork node] }
      let s :=
        if parts.isEmpty then s
        else
          let error := Piece.compose .error 0 [] 0 node.place parts
          s.push i (some (error.withExtra true)) goal
      (s.pushAll i extras goal, true)

/-- Goes back on branch `version` by `depth` pieces to the state `goal`. -/
def recoverTo (s : Search) (version depth : Nat) (goal : State) : Search × Bool :=
  match s.branches[version]? with
  | none => (s, false)
  | some b =>
    (Stack.group (b.top.pop depth)).foldl (fun acc gr => recoverInto b goal acc gr.1 gr.2)
      (s, false)

/-- The first landmark to which branch `version` can go back so that the token fits. -/
def recoverByLandmark (version : Nat) (next : Leaf) (t : Token) (price since : Nat)
    (place : Cursor) (s : Search) : List Stack.Landmark → Search × Bool
  | [] => (s, false)
  | l :: ls =>
    if l.state = .lost || l.place.offset = place.offset
        || s.branches.any (fun b => b.top.state = l.state && b.top.place.offset = place.offset) then
      recoverByLandmark version next t price since place s ls
    else
      let cost := price + l.depth * prices.tree
        + (place.offset - l.place.offset) * prices.byte
        + (place.row - l.place.row) * prices.line
      if s.betterExists version cost then (s, false)
      else if g.admits l.state t then
        let (s', done) := s.recoverTo version (if 0 < since then l.depth + 1 else l.depth) l.state
        if done then (s', true)
        else recoverByLandmark version next t price since place s ls
      else recoverByLandmark version next t price since place s ls

/-- Skips a token on branch `version`, which has lost its way. -/
def skipToken (s : Search) (version : Nat) (next : Leaf) (since : Nat) : Search :=
  match s.branches[version]? with
  | none => s
  | some b =>
    let leaf := Piece.leaf { next with extra := next.extra || next.token = some .comment }
    let skipped := Piece.compose .skipped 0 [] 0 next.start [leaf]
    if 0 < since then
      match Stack.group (b.top.pop 1) with
      | (under, ps :: _) :: _ =>
        let joined := Piece.compose .skipped 0 [] 0 next.start (ps ++ [skipped])
        (s.modify version fun b => { b with top := under }).push version (some joined) .lost
      | _ => s
    else s.push version (some skipped) .lost

/-- Goes on with the token `next` on a branch that has lost its way. -/
def recover (s : Search) (version : Nat) (next : Leaf) : Search :=
  match s.branches[version]? with
  | none => s
  | some b =>
    let previous := s.size
    let place := b.top.place
    let since := b.sinceLost
    let price := b.cost
    let (s, done) := match b.landmarks, next.token with
      | some ls, some t => recoverByLandmark g version next t price since place s ls
      | _, _ => (s, false)
    let fresh := (s.branches.drop previous).filter (·.isActive)
    let s := { s with branches := s.branches.take previous ++ fresh }
    let halt := fun (s : Search) => s.modify version fun b => { b with status := .halted }
    if done && maxBranches < s.size then halt s
    else if next.token = some .eof then
      let nothing := Piece.compose .error 0 [] 0 place []
      accept g s version [nothing, .leaf next]
    else
      let cost := price + prices.tree + (next.stop.offset - next.before.offset) * prices.byte
        + (next.stop.row - next.before.row) * prices.line
      if s.betterExists version cost then halt s else s.skipToken version next since

/-- Two productions make a phrase of the same kind from as many parts. -/
def alike (p q : Nat) : Bool :=
  match g.productions[p]?, g.productions[q]? with
  | some a, some b => a.head = b.head && a.steps.length = b.steps.length
  | _, _ => false

/-- Adds an action to the reductions known, unless one of them is alike, and to whether a shift is
possible. -/
def noteAction (known : List Nat × Bool) (a : Action) : List Nat × Bool :=
  match a with
  | .shift r => (known.1, known.2 || !r)
  | .reduce p =>
    match g.productions[p]? with
    | some a =>
      (if a.steps.isEmpty || known.1.any (alike g p) then known.1 else known.1 ++ [p], known.2)
    | none => known
  | .accept => known

/-- The reductions that a state allows on some token of `ts`, one for each head and length, and
whether it allows a shift. -/
def possible (st : State) (ts : List Token) : List Nat × Bool :=
  ts.foldl (fun known t => (g.actions st t).foldl (noteAction g) known) ([], false)

/-- Makes all reductions that branch `start` and the branches coming from it allow on the token
`t`, or on any if there is none. The answer says whether `t` can be shifted then. -/
def reduceAll (start initial : Nat) (t : Option Token) :
    Nat → Nat → Nat → Search → Bool → Search × Bool
  | 0, _, _, s, shiftable => (s, shiftable)
  | fuel + 1, round, version, s, shiftable =>
    let size := s.size
    if size ≤ version then (s, shiftable)
    else
      match s.joinAny ((List.range version).filter (initial ≤ ·)) version with
      | some s => reduceAll start initial t fuel (round + 1) version s shiftable
      | none =>
        match s.branches[version]? with
        | none => (s, shiftable)
        | some b =>
          let ts := t.elim (Token.all.filter (· ≠ .eof)) ([·])
          let (reductions, shifts) := possible g b.top.state ts
          let (s, reached) := reductions.foldl (fun (s, _) p => reduce g s version p) (s, none)
          let next := if version = start then size else version + 1
          if shifts then reduceAll start initial t fuel (round + 1) next s true
          else
            match reached with
            | some r =>
              if round < maxBranches then
                reduceAll start initial t fuel (round + 1) version (s.replace r version) shiftable
              else
                reduceAll start initial t fuel (round + 1) next
                  (if t.isSome then s.drop version else s) shiftable
            | none =>
              reduceAll start initial t fuel (round + 1) next
                (if t.isSome then s.drop version else s) shiftable

def reduceFuel : Nat := 1000

def reduceAllFrom (s : Search) (version : Nat) (t : Option Token) : Search × Bool :=
  reduceAll g version s.size t reduceFuel 0 version s false

/-- Tries to make up one token on branch `v` so that `next` fits. -/
def insertMissing (s : Search) (v : Nat) (next : Leaf) : List Token → Search × Bool
  | [] => (s, false)
  | t :: ts =>
    match s.branches[v]? with
    | none => (s, false)
    | some b =>
      let state := b.top.state
      let shifts := (g.actions state t).getLast?.any fun a =>
        match a with
        | .shift _ => true
        | _ => false
      let then_ := g.goto state (.token t)
      let reduces := fun (n : Token) => (g.actions then_ n).head?.any fun a =>
        match a with
        | .reduce _ => true
        | _ => false
      if shifts && then_ ≠ state && next.token.any reduces then
        let place := b.top.place
        let made : Leaf :=
          { token := some t, missing := true, before := place, start := place, stop := place }
        let copy := s.size
        let s := { s with branches := s.branches ++ [{ b with landmarks := none }] }
        let s := s.push copy (some (.leaf made)) then_
        let goal := next.token.bind fun n => if n = .eof then none else some n
        let (s, done) := reduceAllFrom g s copy goal
        if done then (s, true) else insertMissing s v next ts
      else insertMissing s v next ts

/-- Marks on the branches `vs` that the way is lost, and makes up a missing token on the first of
them where that helps. -/
def loseWay (next : Leaf) : List Nat → Search → Bool → Search
  | [], s, _ => s
  | v :: vs, s, inserted =>
    let (s, inserted) :=
      if inserted then (s, true)
      else insertMissing g s v next (Token.all.filter (· ≠ .eof))
    loseWay next vs (s.push v none .lost) inserted

/-- Begins the repair of branch `version`, which stumbled on `next`. -/
def handleError (s : Search) (version : Nat) (next : Leaf) : Search :=
  let previous := s.size
  let (s, _) := reduceAllFrom g s version none
  let size := s.size
  let others := (List.range size).filter (previous ≤ ·)
  let s := loseWay g next (version :: others) s false
  let s := others.foldl (fun s _ => (s.join? version previous).getD s) s
  let s := s.modify version fun b =>
    { b with landmarks := some (Stack.landmarks (b.top.depth + 1) [] [⟨b.top, [], 0⟩]) }
  recover g s version next

/-- What a branch does on a token: the actions in order, each reduction on a branch of its own.
The answer says which action ended the step, and the last branch reduced to. -/
inductive Outcome where
  | done (s : Search)
  | reduced (s : Search) (last : Option Nat) (any : Bool)

/-- Carries out the actions of branch `version` on `next`. -/
def perform (version : Nat) (state : State) (next : Leaf) :
    List Action → Search → Option Nat → Bool → Outcome
  | [], s, last, any => .reduced s last any
  | .shift true :: as, s, last, any => perform version state next as s last any
  | .shift false :: _, s, _, _ =>
    match next.token with
    | some t =>
      .done (s.push version (some (.leaf { next with extra := false })) (g.goto state (.token t)))
    | none => .done s
  | .reduce p :: as, s, last, _ =>
    let (s, r) := reduce g s version p
    perform version state next as s (r.or last) true
  | .accept :: _, s, _, _ => .done (accept g s version [.leaf next])

/-- Moves branch `version` on to behind the token `next`, or stops it. -/
def advanceOn : Nat → Search → Nat → Leaf → Search
  | 0, s, version, _ => s.modify version fun b => { b with status := .halted }
  | fuel + 1, s, version, next =>
    match s.branches[version]? with
    | none => s
    | some b =>
      let state := b.top.state
      let halt := fun (s : Search) => s.modify version fun b => { b with status := .halted }
      if next.token = some .comment then
        s.push version (some (.leaf { next with extra := true })) state
      else if state = .lost then recover g s version next
      else
        match perform g version state next (next.token.elim [] (g.actions state)) s none false with
        | .done s => s
        | .reduced s (some r) _ => advanceOn fuel (s.replace r version) version next
        | .reduced s none true => halt s
        | .reduced s none false =>
          if next.keyword && next.token ≠ some .identifier && g.admits state .identifier then
            advanceOn fuel s version { next with token := some .identifier }
          else
            s.modify version fun b =>
              { b with status := .paused next, mark := b.top.progress }

/-- Moves branch `version` over one token. -/
def advance (s : Search) (version : Nat) : Search :=
  match s.branches[version]? with
  | none => s
  | some b => advanceOn g (b.top.depth + 1000) s version (read g b.top.state b.top.place)

/-- Moves branch `version` on until it is ahead of `last`, the place that the round has reached. -/
def advanceTo (version : Nat) : Nat → Search → Nat → Search × Nat
  | 0, s, last => (s, last)
  | fuel + 1, s, last =>
    match s.branches[version]? with
    | none => (s, last)
    | some b =>
      if !b.isActive then (s, last)
      else
        let s := advance g s version
        let place := (s.branches[version]?.map (·.top.place.offset)).getD 0
        if last < place || (0 < version && place = last) then (s, place)
        else advanceTo version fuel s last

/-- One round over the branches from `version` on. -/
def advanceAll : Nat → Nat → Search → Nat → Search × Nat
  | 0, _, s, last => (s, last)
  | fuel + 1, version, s, last =>
    if s.size ≤ version then (s, last)
    else
      let (s, last) := advanceTo g version reduceFuel s last
      advanceAll fuel (version + 1) s last

/-- Compares branch `i`, which came with the given standing, with the branches before it, from `j`
on. The answer has the place where the branch, or the one that took its place, is now; none if it
is gone. -/
def compareWith (came : Branch.Standing) : Nat → Search → Nat → Nat → Search × Option Nat
  | 0, s, i, _ => (s, some i)
  | fuel + 1, s, i, j =>
    if i ≤ j then (s, some i)
    else
      match s.branches[j]?, s.branches[i]? with
      | some a, some b =>
        match Branch.compare a.standing came with
        | .takeLeft => (s.drop i, none)
        | .preferLeft | .none =>
          match s.join? j i with
          | some s => (s, none)
          | none => compareWith came fuel s i (j + 1)
        | .preferRight =>
          match s.join? j i with
          | some s => (s, none)
          | none =>
            compareWith came fuel { s with branches := (s.branches.set i a).set j b } i (j + 1)
        | .takeRight => compareWith came fuel (s.drop j) (i - 1) j
      | _, _ => (s, some i)

/-- Drops branches that are halted, clearly worse than another one, or can be joined with one; the
more promising come first. The answer has the price of the best branch that is not lost. -/
def sift : Nat → Search → Nat → Option Nat → Search × Option Nat
  | 0, s, _, least => (s, least)
  | fuel + 1, s, i, least =>
    match s.branches[i]? with
    | none => (s, least)
    | some b =>
      if b.isHalted then sift fuel (s.drop i) i least
      else
        let st := b.standing
        let least :=
          if st.inError then least
          else some (least.elim st.cost (min st.cost))
        match compareWith st (2 * s.size + 2) s i 0 with
        | (s, some i) => sift fuel s (i + 1) least
        | (s, none) => sift fuel s i least

/-- Resumes the first paused branch if none before it goes on, and drops the others. -/
def wake : Nat → Nat → Search → Nat → Bool → Option Nat → Search × Option Nat
  | 0, _, s, _, _, least => (s, least)
  | fuel + 1, n, s, i, goes, least =>
    if n ≤ i then (s, least)
    else
      match s.branches[i]? with
      | none => (s, least)
      | some b =>
        match b.status with
        | .paused next =>
          if !goes && s.found < maxBranches then
            let least := some b.cost
            let s := s.modify i fun b => { b with status := .active }
            wake fuel n (handleError g s i next) (i + 1) true least
          else wake fuel (n - 1) (s.drop i) i goes least
        | _ => wake fuel n s (i + 1) true least

/-- Puts the branches in order between two rounds. -/
def condense (s : Search) : Search × Option Nat :=
  let (s, least) := sift (4 * s.size * s.size + 8) s 0 none
  let s := { s with branches := s.branches.take maxBranches }
  wake g (2 * s.size + 2) s.size s 0 false least

/-- Rounds until no branch is left or none can do better than the best parse found. -/
def rounds : Nat → Search → Nat → Option Piece
  | 0, s, _ => s.best
  | fuel + 1, s, last =>
    let (s, last) := advanceAll g 64 0 s last
    let (s, least) := condense g s
    match s.best with
    | some t => if least.all (t.cost < ·) then s.best else rounds fuel s last
    | none => if s.branches.isEmpty then none else rounds fuel s last

end Search

/-- The cheapest parse of a text. -/
def parsePiece (g : Tables) (cs : List Char) : Option Piece :=
  let stack := Stack.bottom g.start (Cursor.ofChars cs)
  Search.rounds g (8 * cs.length + 64) { branches := [{ top := stack }] } 0

end Go
end RouteScribe
