import RouteScribe.Go.Node
import RouteScribe.Proofs.Go.Straight
import RouteScribe.Proofs.Go.Word

/-!
# RouteScribe.Proofs.Go.Sketch

What a parse without choices makes of a text, whatever names stand in it. The pieces that it is made
of are known by number only; so the parse of one text, which can be computed, is that of all texts
with the same tokens.

* `Sketch.respects`: sketches are made as pieces are.
* `Sketch.ofPiece_piece`: the syntax tree of a sketch.
-/

namespace RouteScribe
namespace Go

/-- What is made of numbered pieces. An atom is a token, or else a piece made earlier that is no
extra. -/
inductive Sketch where
  | atom (t : Option Token) (i : Nat)
  | node (production : Nat) (parts : List Sketch)

/-- The pieces by their numbers. -/
abbrev Stock := Option Token → Nat → Piece

/-- The piece is the token, or some piece without repairs that is no extra. -/
def Piece.is (p : Piece) : Option Token → Bool
  | some t =>
    match p with
    | .leaf l => l.token = some t && !l.missing && l.extra == decide (t = .comment)
    | .node _ _ => false
  | none => !p.extra && p.cost == 0 && !p.isSkipped

theorem Piece.is_some_iff {p : Piece} {t : Token} : p.is (some t) = true ↔ ∃ l : Leaf,
    p = .leaf l ∧ l.token = some t ∧ l.missing = false ∧ l.extra = decide (t = .comment) := by
  cases p with
  | leaf l => simp [is, and_assoc]
  | node s cs => simp [is]

theorem Piece.is_none_iff {p : Piece} :
    p.is none = true ↔ p.extra = false ∧ p.cost = 0 ∧ p.isSkipped = false := by
  simp [is, and_assoc]

/-- The pieces are what the atoms say. -/
def Stock.Fits (stock : Stock) : Prop := ∀ t i, (stock t i).is t = true

namespace Sketch

def extra : Sketch → Bool
  | atom t _ => t = some .comment
  | node _ _ => false

/-- How sketches are made. -/
def maker : Maker Sketch where
  extra := extra
  make n _ ps := node n ps

/-- A phrase of the production `n`. -/
def compose (g : Tables) (n : Nat) (parts : List Piece) : Piece :=
  match g.productions[n]? with
  | some p => Piece.maker.make n p parts
  | none => Piece.compose (.symbol .whole) n [] 0 default parts

mutual

/-- The piece that is sketched. -/
def piece (g : Tables) (stock : Stock) : Sketch → Piece
  | .atom t i => stock t i
  | .node n ps => compose g n (pieces g stock ps)

def pieces (g : Tables) (stock : Stock) : List Sketch → List Piece
  | [] => []
  | p :: ps => piece g stock p :: pieces g stock ps

end

variable {g : Tables} {stock : Stock}

theorem pieces_eq_map (ps : List Sketch) : pieces g stock ps = ps.map (piece g stock) := by
  induction ps with
  | nil => rfl
  | cons p ps ih => rw [pieces, List.map_cons, ih]

theorem exists_compose_eq (g : Tables) (n : Nat) (parts : List Piece) : ∃ x ss d,
    compose g n parts = Piece.compose (.symbol x) n ss d default parts := by
  unfold compose
  split
  · exact ⟨_, _, _, rfl⟩
  · exact ⟨_, _, _, rfl⟩

theorem extra_piece (h : stock.Fits) (sk : Sketch) : (piece g stock sk).extra = sk.extra := by
  cases sk with
  | atom t i =>
    have hfits := h t i
    cases t with
    | none => exact (Piece.is_none_iff.1 hfits).1
    | some t =>
      obtain ⟨l, hl, -, -, hextra⟩ := Piece.is_some_iff.1 hfits
      rw [piece, hl, extra]
      simpa [Piece.extra] using hextra
  | node n ps =>
    obtain ⟨x, ss, d, hcompose⟩ := exists_compose_eq g n (pieces g stock ps)
    rw [piece, hcompose]
    rfl

theorem respects (h : stock.Fits) : Track.Respects maker Piece.maker g (piece g stock) where
  extra := extra_piece h
  make n p ps hp := by
    have hpiece : piece g stock (.node n ps) = compose g n (pieces g stock ps) := by rw [piece]
    rw [maker, hpiece, compose, hp, pieces_eq_map]

/-! ## Repairs -/

theorem cost_compose (x : Symbol) (n : Nat) (ss : List Step) (d : Int) (here : Cursor)
    {ps : List Piece} (h : ∀ p ∈ ps, p.cost = 0) :
    (Piece.compose (.symbol x) n ss d here ps).cost = 0 := by
  have hsum : ps.foldl (fun n p => n + (if p.isSkipped then 0 else p.cost)) 0 = 0 := by
    induction ps with
    | nil => rfl
    | cons p ps ih =>
      obtain ⟨hp, hps⟩ := List.forall_mem_cons.1 h
      rw [List.foldl_cons, hp, ite_self]
      exact ih hps
  simpa [Piece.compose, Piece.cost] using hsum

mutual

theorem cost_piece (h : stock.Fits) : ∀ sk : Sketch, (piece g stock sk).cost = 0
  | .atom t i => by
    have hfits := h t i
    cases t with
    | none => exact (Piece.is_none_iff.1 hfits).2.1
    | some t =>
      obtain ⟨l, hl, -, hmissing, -⟩ := Piece.is_some_iff.1 hfits
      rw [piece, hl, Piece.cost, hmissing]
      rfl
  | .node n ps => by
    obtain ⟨x, ss, d, hcompose⟩ := exists_compose_eq g n (pieces g stock ps)
    rw [piece, hcompose]
    exact cost_compose x n ss d default (cost_pieces h ps)

theorem cost_pieces (h : stock.Fits) : ∀ ps : List Sketch, ∀ p ∈ pieces g stock ps, p.cost = 0
  | [] => nofun
  | p :: ps => by
    intro q hq
    rw [pieces] at hq
    rcases List.mem_cons.1 hq with rfl | hq
    · exact cost_piece h p
    · exact cost_pieces h ps q hq

end

/-! ## Places -/

/-- The place of an atom in a text, from where it begins or to where it ends. -/
abbrev Atom := Option Token × Nat

mutual

/-- The first atom. -/
def first? : Sketch → Option Atom
  | .atom t i => some (t, i)
  | .node _ ps => firstOf? ps

def firstOf? : List Sketch → Option Atom
  | [] => none
  | p :: _ => first? p

end

mutual

/-- The last atom. -/
def last? : Sketch → Option Atom
  | .atom t i => some (t, i)
  | .node _ ps => lastOf? none ps

def lastOf? (known : Option Atom) : List Sketch → Option Atom
  | [] => known
  | p :: ps => lastOf? (last? p) ps

end

end Sketch

open Sketch in
/-- Where an atom begins. -/
def Stock.start (stock : Stock) (a : Option Atom) : Cursor :=
  (a.map fun a => (stock a.1 a.2).start).getD default

open Sketch in
/-- Where an atom ends. -/
def Stock.stop (stock : Stock) (a : Option Atom) : Cursor :=
  (a.map fun a => (stock a.1 a.2).stop).getD default

namespace Sketch

variable {g : Tables} {stock : Stock}

theorem start_compose (n : Nat) (parts : List Piece) :
    (compose g n parts).start = (parts.head?.map Piece.start).getD default := by
  obtain ⟨x, ss, d, hcompose⟩ := exists_compose_eq g n parts
  rw [hcompose]
  rfl

theorem stop_compose (n : Nat) (parts : List Piece) :
    (compose g n parts).stop = (parts.getLast?.map Piece.stop).getD default := by
  obtain ⟨x, ss, d, hcompose⟩ := exists_compose_eq g n parts
  rw [hcompose]
  rfl

mutual

theorem start_piece : ∀ sk : Sketch, (piece g stock sk).start = stock.start sk.first?
  | .atom t i => by rw [piece, first?]; rfl
  | .node n ps => by rw [piece, first?, start_compose, start_pieces ps]

theorem start_pieces : ∀ ps : List Sketch,
    ((pieces g stock ps).head?.map Piece.start).getD default = stock.start (firstOf? ps)
  | [] => by rw [pieces, firstOf?]; rfl
  | p :: ps => by
    rw [pieces, firstOf?, List.head?_cons, Option.map_some, Option.getD_some, start_piece p]

end

mutual

theorem stop_piece : ∀ sk : Sketch, (piece g stock sk).stop = stock.stop sk.last?
  | .atom t i => by rw [piece, last?]; rfl
  | .node n ps => by rw [piece, last?, stop_compose, stop_pieces ps default none rfl]

theorem stop_pieces : ∀ (ps : List Sketch) (here : Cursor) (known : Option Atom),
    here = stock.stop known →
    ((pieces g stock ps).getLast?.map Piece.stop).getD here = stock.stop (lastOf? known ps)
  | [], here, known, h => by rw [pieces, lastOf?]; exact h
  | p :: ps, here, known, h => by
    have hrest := stop_pieces ps (piece g stock p).stop (last? p) (stop_piece p)
    rw [pieces, lastOf?, ← hrest, List.getLast?_cons]
    cases (pieces g stock ps).getLast? <;> rfl

end

/-! ## Trees -/

end Sketch

open Sketch in
/-- A syntax tree over numbered pieces. A part stands for the nodes of a piece. -/
inductive Outline where
  | part (renamed : Option Kind) (field : Option Field) (i : Nat)
  | mk (kind : Kind) (field : Option Field) (first last : Option Atom) (children : List Outline)

namespace Outline

/-- A token. -/
def token (t : Token) (i : Nat) (field : Option Field := none) : Outline :=
  .mk (.token t) field (some (some t, i)) (some (some t, i)) []

/-- A token that goes by another name. -/
def named (a : Alias) (t : Token) (i : Nat) (field : Option Field := none) : Outline :=
  .mk (.alternate a) field (some (some t, i)) (some (some t, i)) []

/-- A phrase from one token to another. -/
def phrase (p : Phrase) (a b : Token × Nat) (children : List Outline)
    (field : Option Field := none) : Outline :=
  .mk (.phrase p) field (some (some a.1, a.2)) (some (some b.1, b.2)) children

/-- A phrase with a bracket on each side. -/
def bracketed (p : Phrase) (a b : Token × Nat) (inner : List Outline)
    (field : Option Field := none) : Outline :=
  phrase p a b (token a.1 a.2 :: (inner ++ [token b.1 b.2])) field

mutual

/-- The nodes of an outline. -/
def nodes (g : Tables) (stock : Stock) : Outline → List Node
  | .part renamed field i => Node.ofPiece g renamed field (stock none i)
  | .mk kind field a b cs =>
    [.mk kind field false false (stock.start a) (stock.stop b) (allNodes g stock cs)]

def allNodes (g : Tables) (stock : Stock) : List Outline → List Node
  | [] => []
  | o :: os => nodes g stock o ++ allNodes g stock os

end

/-! Outlines can be compared. -/

mutual

def same : Outline → Outline → Bool
  | .part r f i, .part r' f' i' => r = r' && f = f' && i = i'
  | .mk k f a b cs, .mk k' f' a' b' cs' => k = k' && f = f' && a = a' && b = b' && sameAll cs cs'
  | _, _ => false

def sameAll : List Outline → List Outline → Bool
  | [], [] => true
  | o :: os, o' :: os' => same o o' && sameAll os os'
  | _, _ => false

end

mutual

theorem same_iff : ∀ o o' : Outline, same o o' = true ↔ o = o'
  | .part r f i, .part r' f' i' => by simp [same, and_assoc]
  | .mk k f a b cs, .mk k' f' a' b' cs' => by simp [same, and_assoc, sameAll_iff cs cs']
  | .part _ _ _, .mk _ _ _ _ _ => by simp [same]
  | .mk _ _ _ _ _, .part _ _ _ => by simp [same]

theorem sameAll_iff : ∀ os os' : List Outline, sameAll os os' = true ↔ os = os'
  | [], [] => by simp [sameAll]
  | o :: os, o' :: os' => by simp [sameAll, same_iff o o', sameAll_iff os os']
  | [], _ :: _ => by simp [sameAll]
  | _ :: _, [] => by simp [sameAll]

end

instance : DecidableEq Outline := fun o o' => decidable_of_iff _ (same_iff o o')

variable {g : Tables} {stock : Stock}

theorem allNodes_append (os os' : List Outline) :
    allNodes g stock (os ++ os') = allNodes g stock os ++ allNodes g stock os' := by
  induction os with
  | nil => rfl
  | cons o os ih => rw [List.cons_append, allNodes, allNodes, ih, List.append_assoc]

end Outline

namespace Sketch

/-- The steps of a production. -/
def stepsOf (g : Tables) (n : Nat) : List Step := (g.productions[n]?.map (·.steps)).getD []

/-- The kind of the nodes of a symbol; what is hidden has none. -/
def symbolKind? : Symbol → Option Kind
  | .phrase p => if p.isHidden then none else some (.phrase p)
  | _ => none

/-- The kind of the nodes of a production. -/
def kindOf? (g : Tables) (n : Nat) : Option Kind :=
  g.productions[n]?.bind fun p => symbolKind? p.head

mutual

/-- The nodes that a sketch is in a tree. -/
def outline (g : Tables) (renamed : Option Kind) (field : Option Field) : Sketch → List Outline
  | .atom none i => [.part renamed field i]
  | .atom (some t) i =>
    if renamed.isSome || !t.isHidden then
      [.mk (renamed.getD (.token t)) field (some (some t, i)) (some (some t, i)) []]
    else []
  | .node n ps =>
    match renamed.or (kindOf? g n) with
    | some k => [.mk k field (firstOf? ps) (lastOf? none ps) (outlines g none (stepsOf g n) ps)]
    | none => outlines g field (stepsOf g n) ps

/-- The nodes of the parts of a production. -/
def outlines (g : Tables) (outer : Option Field) : List Step → List Sketch → List Outline
  | _, [] => []
  | steps, p :: ps =>
    if p.extra then outline g none none p ++ outlines g outer steps ps
    else
      match steps with
      | [] => outline g none outer p ++ outlines g outer [] ps
      | s :: steps => outline g s.renamed (s.field.or outer) p ++ outlines g outer steps ps

end

theorem ofPiece_composeSymbol (renamed : Option Kind) (field : Option Field) (x : Symbol) (n : Nat)
    (ss : List Step) (d : Int) (here : Cursor) {parts : List Piece}
    (h : ∀ p ∈ parts, p.cost = 0) :
    Node.ofPiece g renamed field (Piece.compose (.symbol x) n ss d here parts) =
      match renamed.or (symbolKind? x) with
      | some k => [.mk k field false false (Piece.compose (.symbol x) n ss d here parts).start
          (Piece.compose (.symbol x) n ss d here parts).stop
          (Node.ofPieces g none (stepsOf g n) parts)]
      | none => Node.ofPieces g field (stepsOf g n) parts := by
  have hzero := cost_compose x n ss d here h
  obtain ⟨s, hs⟩ : ∃ s, Piece.compose (.symbol x) n ss d here parts = .node s parts := ⟨_, rfl⟩
  have hlabel : s.label = .symbol x := by
    cases hs
    rfl
  have hproduction : s.production = n := by
    cases hs
    rfl
  rw [hs] at hzero ⊢
  have hcost : s.cost = 0 := hzero
  rw [Node.ofPiece]
  simp only [hlabel, hproduction, hcost, Nat.lt_irrefl, decide_false]
  cases x <;> rfl

theorem ofPiece_compose (renamed : Option Kind) (field : Option Field) (n : Nat)
    {parts : List Piece} (h : ∀ p ∈ parts, p.cost = 0) :
    Node.ofPiece g renamed field (compose g n parts) =
      match renamed.or (kindOf? g n) with
      | some k => [.mk k field false false (compose g n parts).start (compose g n parts).stop
          (Node.ofPieces g none (stepsOf g n) parts)]
      | none => Node.ofPieces g field (stepsOf g n) parts := by
  unfold compose kindOf?
  cases hp : g.productions[n]? with
  | none => exact ofPiece_composeSymbol renamed field .whole n [] 0 default h
  | some p => exact ofPiece_composeSymbol renamed field p.head n p.steps p.favour default h

mutual

theorem ofPiece_piece (h : stock.Fits) : ∀ (sk : Sketch) (renamed : Option Kind)
    (field : Option Field), Node.ofPiece g renamed field (piece g stock sk)
      = Outline.allNodes g stock (outline g renamed field sk)
  | .atom none i, renamed, field => by
    rw [piece, outline, Outline.allNodes, Outline.allNodes, Outline.nodes, List.append_nil]
  | .atom (some t) i, renamed, field => by
    obtain ⟨l, hl, htoken, hmissing, -⟩ := Piece.is_some_iff.1 (h (some t) i)
    have hshown : (Piece.leaf l).isShown = !t.isHidden := by rw [Piece.isShown, htoken]
    rw [piece, outline, hl, Node.ofPiece, hshown]
    split
    · have hcost : (Piece.leaf l).cost = 0 := by rw [Piece.cost, hmissing]; rfl
      simp only [Outline.allNodes, Outline.nodes, List.append_nil, htoken, Option.elim_some,
        hmissing, hcost, Nat.lt_irrefl, decide_false, Stock.start, Stock.stop, Option.map_some,
        Option.getD_some, hl]
      rfl
    · rfl
  | .node n ps, renamed, field => by
    rw [piece, outline, ofPiece_compose renamed field n (cost_pieces h ps), start_compose,
      stop_compose, start_pieces, stop_pieces ps default none rfl]
    split
    · rw [Outline.allNodes, Outline.allNodes, Outline.nodes, List.append_nil,
        ofPieces_pieces h ps]
    · exact ofPieces_pieces h ps field (stepsOf g n)

theorem ofPieces_pieces (h : stock.Fits) : ∀ (ps : List Sketch) (outer : Option Field)
    (steps : List Step), Node.ofPieces g outer steps (pieces g stock ps)
      = Outline.allNodes g stock (outlines g outer steps ps)
  | [], outer, steps => by rw [pieces, Node.ofPieces, outlines, Outline.allNodes]
  | p :: ps, outer, steps => by
    unfold pieces Node.ofPieces outlines
    rw [extra_piece h]
    split
    · rw [Outline.allNodes_append, ofPiece_piece h p, ofPieces_pieces h ps]
    · cases steps with
      | nil => simp only [Outline.allNodes_append, ofPiece_piece h p, ofPieces_pieces h ps]
      | cons s steps => simp only [Outline.allNodes_append, ofPiece_piece h p, ofPieces_pieces h ps]

end

end Sketch

end Go
end RouteScribe
