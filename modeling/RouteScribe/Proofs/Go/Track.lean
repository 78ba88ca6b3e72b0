import RouteScribe.Go.Piece

/-!
# RouteScribe.Proofs.Go.Track

Parses that never have a choice. Where in each state only one thing can be done on the token that
comes, a parse is a stack of pieces, and what it does depends on the tokens alone: not on where they
stand, and not on what the pieces are made of.

* `Track.read?`: what a token does to such a stack.
* `Track.read?_map`: it does the same whatever phrases are made of.
-/

namespace RouteScribe
namespace Go

/-- What phrases are made of: which parts the grammar does not see, and how a production makes a
phrase of its parts. -/
structure Maker (α : Type) where
  extra : α → Bool
  make : Nat → Production → List α → α

/-- The pieces of a parse, the last one first, each with the state behind it. -/
abbrev Track (α : Type) := List (State × α)

namespace Track

variable {α β : Type}

section

variable (m : Maker α) (g : Tables)

/-- The state behind the last piece. -/
def state : Track α → State
  | [] => g.start
  | e :: _ => e.1

/-- The last `n` pieces, with the extras among and behind them, in front of `ps`; and what is left. -/
def take? : Nat → Track α → List α → Option (Track α × List α)
  | 0, es, ps => some (es, ps)
  | _ + 1, [], _ => none
  | n + 1, e :: es, ps =>
    if m.extra e.2 then take? (n + 1) es (e.2 :: ps) else take? n es (e.2 :: ps)

/-- Pieces without the extras at their end, and those extras. -/
def splitExtras (ps : List α) : List α × List α :=
  let tail := (ps.reverse.takeWhile m.extra).reverse
  (ps.take (ps.length - tail.length), tail)

/-- Puts pieces on that leave the state as it is. -/
def stay (s : State) (es : Track α) (ps : List α) : Track α := ps.foldl (fun es p => (s, p) :: es) es

/-- Makes a phrase of the last pieces. -/
def reduce? (n : Nat) (es : Track α) : Option (Track α) :=
  match g.productions[n]? with
  | none => none
  | some p =>
    (take? m p.steps.length es []).bind fun (below, ps) =>
      let (parts, extras) := splitExtras m ps
      let s := g.goto (state g below) p.head
      if parts.isEmpty then none else some (stay s ((s, m.make n p parts) :: below) extras)

/-- The only thing to do on a token, apart from shifts that a repetition makes redundant. -/
def only? (s : State) (t : Token) : Option Action :=
  match (g.actions s t).filter (· ≠ .shift true) with
  | [a] => some a
  | _ => none

/-- Makes phrases as long as nothing else can be done on the token; and what can be done then. -/
def settle? (t : Token) : Nat → Track α → Option (Action × Track α)
  | 0, _ => none
  | fuel + 1, es =>
    match only? g (state g es) t with
    | some (.reduce n) => (reduce? m g n es).bind (settle? t fuel)
    | some a => some (a, es)
    | none => none

/-- The most phrases that are made on one token. -/
def turns : Nat := 100

/-- Reads a token, which is the piece `a`. -/
def read? (es : Track α) (t : Token) (a : α) : Option (Track α) :=
  if t = .comment then some ((state g es, a) :: es)
  else
    match settle? m g t turns es with
    | some (.shift _, es) => some ((g.goto (state g es) (.token t), a) :: es)
    | _ => none

/-- What is left at the end of the text, where the grammar accepts. -/
def finish? (es : Track α) : Option (Track α) :=
  match settle? m g .eof turns es with
  | some (.accept, es) => some es
  | _ => none

end

/-! ## What pieces are made of -/

/-- Phrases made in one way become phrases made in the other. -/
structure Respects (m : Maker α) (m' : Maker β) (g : Tables) (f : α → β) : Prop where
  extra : ∀ a, m'.extra (f a) = m.extra a
  make : ∀ n p ps, g.productions[n]? = some p → m'.make n p (ps.map f) = f (m.make n p ps)

variable {m : Maker α} {m' : Maker β} {g : Tables} {f : α → β}

/-- The same track with other pieces. -/
def mapped (f : α → β) (es : Track α) : Track β := es.map fun e => (e.1, f e.2)

theorem state_mapped (f : α → β) (es : Track α) : state g (mapped f es) = state g es := by
  cases es with
  | nil => rfl
  | cons e es => rfl

theorem mapped_stay (s : State) (ps : List α) : ∀ es : Track α,
    mapped f (stay s es ps) = stay s (mapped f es) (ps.map f) := by
  induction ps with
  | nil =>
    intro es
    rfl
  | cons p ps ih =>
    intro es
    exact ih _

section

variable (h : Respects m m' g f)

include h in
theorem take?_mapped (es : Track α) : ∀ (n : Nat) (ps : List α),
    take? m' n (mapped f es) (ps.map f)
      = (take? m n es ps).map fun r => (mapped f r.1, r.2.map f) := by
  induction es with
  | nil =>
    intro n ps
    cases n with
    | zero => rfl
    | succ n => rfl
  | cons e es ih =>
    intro n ps
    cases n with
    | zero => rfl
    | succ n =>
      have hcons : mapped f (e :: es) = (e.1, f e.2) :: mapped f es := rfl
      rw [hcons, take?, take?, h.extra]
      split
      · exact ih (n + 1) (e.2 :: ps)
      · exact ih n (e.2 :: ps)

include h in
theorem splitExtras_map (ps : List α) :
    splitExtras m' (ps.map f)
      = ((splitExtras m ps).1.map f, (splitExtras m ps).2.map f) := by
  have hextra : m'.extra ∘ f = m.extra := funext h.extra
  simp only [splitExtras, ← List.map_reverse, List.takeWhile_map, hextra, List.length_map,
    List.length_reverse, List.map_take]

include h in
theorem reduce?_mapped (n : Nat) (es : Track α) :
    reduce? m' g n (mapped f es) = (reduce? m g n es).map (mapped f) := by
  unfold reduce?
  split
  · rfl
  next p hp =>
    have htake := take?_mapped h es p.steps.length []
    rw [List.map_nil] at htake
    rw [htake]
    cases take? m p.steps.length es [] with
    | none => rfl
    | some r =>
      obtain ⟨below, ps⟩ := r
      simp only [Option.map_some, Option.bind_some, splitExtras_map h, state_mapped,
        List.isEmpty_map]
      split
      · rfl
      · rw [Option.map_some, mapped_stay, h.make n p _ hp]
        rfl

include h in
theorem settle?_mapped (t : Token) (fuel : Nat) : ∀ es : Track α,
    settle? m' g t fuel (mapped f es)
      = (settle? m g t fuel es).map fun r => (r.1, mapped f r.2) := by
  induction fuel with
  | zero =>
    intro es
    rfl
  | succ fuel ih =>
    intro es
    rw [settle?, settle?, state_mapped]
    split
    next n _ =>
      rw [reduce?_mapped h]
      cases reduce? m g n es with
      | none => rfl
      | some es' => exact ih es'
    · rfl
    · rfl

include h in
theorem read?_mapped (es : Track α) (t : Token) (a : α) :
    read? m' g (mapped f es) t (f a) = (read? m g es t a).map (mapped f) := by
  unfold read?
  rw [state_mapped, settle?_mapped h]
  split
  · rfl
  · cases settle? m g t turns es with
    | none => rfl
    | some r =>
      obtain ⟨action, es'⟩ := r
      cases action with
      | shift b =>
        simp only [Option.map_some, state_mapped]
        rfl
      | reduce n => rfl
      | accept => rfl

include h in
theorem finish?_mapped (es : Track α) :
    finish? m' g (mapped f es) = (finish? m g es).map (mapped f) := by
  unfold finish?
  rw [settle?_mapped h]
  cases settle? m g .eof turns es with
  | none => rfl
  | some r =>
    obtain ⟨action, es'⟩ := r
    cases action with
    | shift b => rfl
    | reduce n => rfl
    | accept => rfl

end

end Track

end Go
end RouteScribe
