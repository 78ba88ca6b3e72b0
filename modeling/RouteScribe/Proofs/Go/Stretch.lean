import RouteScribe.Proofs.Go.Reading
import RouteScribe.Proofs.Go.Sketch

/-!
# RouteScribe.Proofs.Go.Stretch

Stretches of words. What words do to a track depends on the shape of the track: on the states, and
on which of the pieces are tokens. So a stretch of words needs to be read once for each shape.

* `Shape.Fits.readAll?`: words are read from a track as they are from its shape.
* `Shape.Fits.nodes`: what they add to the syntax tree.
* `ofSource?_of_words`: the syntax tree of a text, when all words are read.
-/

namespace RouteScribe
namespace Go

/-! ## Pieces by number -/

/-- Some piece that is the token. -/
def Piece.blank : Option Token → Piece
  | some t =>
    .leaf
      { token := some t, extra := t = .comment, before := default, start := default,
        stop := default }
  | none => Piece.compose (.symbol .whole) 0 [] 0 default []

theorem Piece.is_blank (t : Option Token) : (Piece.blank t).is t = true := by
  cases t with
  | none => rfl
  | some t => exact Piece.is_some_iff.2 ⟨_, rfl, rfl, rfl, rfl⟩

/-- Pieces numbered from 0 on. -/
def Stock.ofList (ps : List Piece) : Stock := fun t i => (ps[i]?.filter (·.is t)).getD (.blank t)

theorem Stock.fits_ofList (ps : List Piece) : (Stock.ofList ps).Fits := by
  intro t i
  rw [ofList]
  cases h : ps[i]?.filter (·.is t) with
  | none => exact Piece.is_blank t
  | some p => exact (Option.filter_eq_some_iff.1 h).2

theorem Stock.ofList_eq {ps : List Piece} {i : Nat} {p : Piece} {t : Option Token}
    (h : ps[i]? = some p) (hp : p.is t = true) : Stock.ofList ps t i = p := by
  rw [ofList, h, Option.filter_some, if_pos hp]
  rfl

namespace Sketch

/-- The token of an atom. -/
def token? : Sketch → Option Token
  | .atom t _ => t
  | .node _ _ => none

theorem is_piece {g : Tables} {stock : Stock} (h : stock.Fits) (sk : Sketch) :
    (piece g stock sk).is sk.token? = true := by
  cases sk with
  | atom t i => exact h t i
  | node n ps =>
    refine Piece.is_none_iff.2 ⟨extra_piece h _, cost_piece h _, ?_⟩
    obtain ⟨x, ss, d, hcompose⟩ := exists_compose_eq g n (pieces g stock ps)
    rw [piece, hcompose]
    rfl

end Sketch

/-! ## Shapes -/

/-- The states of a track, and which of its pieces are tokens. -/
structure Shape where
  entries : List (State × Option Token)
  deriving DecidableEq

namespace Shape

/-- The track of that shape whose pieces are atoms. -/
def opened (x : Shape) : Track Sketch := x.entries.zipIdx.map fun a => (a.1.1, .atom a.1.2 a.2)

/-- The track has the shape. -/
structure Fits (x : Shape) (es : Track Piece) : Prop where
  length : es.length = x.entries.length
  entry : ∀ {i : Nat} {a : State × Option Token} {e : State × Piece}, x.entries[i]? = some a →
    es[i]? = some e → e.1 = a.1 ∧ e.2.is a.2 = true

end Shape

namespace Track

/-- The shape of a track. -/
def shape (es : Track Sketch) : Shape := ⟨es.map fun e => (e.1, e.2.token?)⟩

/-- The nodes that the pieces of a track are in a tree. -/
def nodes (g : Tables) (es : Track Piece) : List Node := Node.ofPieces g none [] (es.map (·.2)).reverse

/-- The same as an outline. -/
def outlines (g : Tables) (es : Track Sketch) : List Outline :=
  Sketch.outlines g none [] (es.map (·.2)).reverse

/-- Words as atoms, numbered from `k` on. -/
def atoms (k : Nat) (xs : List Sign) : List (Sign × Sketch) :=
  (xs.zipIdx k).map fun x => (x.1, .atom (some x.1.token) x.2)

variable {g : Tables} {stock : Stock}

theorem nodes_mapped (h : stock.Fits) (es : Track Sketch) :
    nodes g (mapped (Sketch.piece g stock) es) = Outline.allNodes g stock (outlines g es) := by
  have hmap : ((mapped (Sketch.piece g stock) es).map (·.2)).reverse
      = Sketch.pieces g stock (es.map (·.2)).reverse := by
    rw [Sketch.pieces_eq_map, mapped, List.map_map, List.map_reverse, List.map_map]
    rfl
  rw [nodes, hmap, Sketch.ofPieces_pieces h]
  rfl

theorem fits_mapped (h : stock.Fits) (es : Track Sketch) :
    (shape es).Fits (mapped (Sketch.piece g stock) es) where
  length := by simp only [mapped, shape, List.length_map, List.length_map]
  entry {i a e} ha he := by
    simp only [shape, List.getElem?_map] at ha
    rw [mapped, List.getElem?_map] at he
    obtain ⟨b, hb, rfl⟩ := Option.map_eq_some_iff.1 ha
    rw [hb] at he
    cases he
    exact ⟨rfl, Sketch.is_piece h b.2⟩

end Track

/-- The pieces of a track, and behind them those of words that are read at `p`. -/
def Stock.at (es : Track Piece) (p : Cursor) (ws : List Word) : Stock :=
  Stock.ofList (es.map (·.2) ++ (Word.piecesAt p ws).map (·.2))

namespace Word

theorem is_leaf (w : Word) (p : Cursor) : (w.leaf p).piece.is (some w.token) = true := by
  refine Piece.is_some_iff.2 ⟨_, rfl, rfl, rfl, ?_⟩
  simp [leaf]

theorem getElem?_piecesAt (ws : List Word) : ∀ (p : Cursor) (i : Nat),
    (piecesAt p ws)[i]?
      = ws[i]?.map fun w => (w.sign, (w.leaf (stopOf p (ws.take i))).piece) := by
  induction ws with
  | nil => exact fun _ _ => rfl
  | cons w ws ih =>
    intro p i
    cases i with
    | zero => rfl
    | succ i => exact ih (w.stop p) i

end Word

namespace Stock

variable {es : Track Piece} {p : Cursor} {ws : List Word}

theorem fits_at (es : Track Piece) (p : Cursor) (ws : List Word) : (Stock.at es p ws).Fits :=
  fits_ofList _

theorem at_word {j k : Nat} {w : Word} (hk : es.length = k) (h : ws[j]? = some w) :
    Stock.at es p ws (some w.token) (k + j) = (w.leaf (Word.stopOf p (ws.take j))).piece := by
  refine ofList_eq ?_ (Word.is_leaf w _)
  subst hk
  rw [List.getElem?_append_right (by simp), List.length_map, Nat.add_sub_cancel_left,
    List.getElem?_map, Word.getElem?_piecesAt, h]
  rfl

theorem start_at_word {j k : Nat} {w : Word} (hk : es.length = k) (h : ws[j]? = some w) :
    (Stock.at es p ws).start (some (some w.token, k + j))
      = w.start (Word.stopOf p (ws.take j)) :=
  congrArg Piece.start (at_word hk h)

theorem stop_at_word {j k : Nat} {w : Word} (hk : es.length = k) (h : ws[j]? = some w) :
    (Stock.at es p ws).stop (some (some w.token, k + j))
      = w.stop (Word.stopOf p (ws.take j)) :=
  congrArg Piece.stop (at_word hk h)

end Stock

namespace Shape

variable {x : Shape} {es : Track Piece} {p : Cursor} {ws : List Word} {g : Tables}

theorem Fits.mapped_opened (h : x.Fits es) (p : Cursor) (ws : List Word) :
    Track.mapped (Sketch.piece g (Stock.at es p ws)) x.opened = es := by
  refine List.ext_getElem? fun i => ?_
  rw [Track.mapped, opened, List.getElem?_map, List.getElem?_map, List.getElem?_zipIdx]
  cases hx : x.entries[i]? with
  | none =>
    have hle := List.getElem?_eq_none_iff.1 hx
    rw [← h.length] at hle
    rw [List.getElem?_eq_none hle]
    rfl
  | some a =>
    obtain ⟨hi, -⟩ := List.getElem?_eq_some_iff.1 hx
    rw [← h.length] at hi
    have hes : es[i]? = some es[i] := List.getElem?_eq_getElem hi
    obtain ⟨hstate, his⟩ := h.entry hx hes
    have hall : (es.map (·.2) ++ (Word.piecesAt p ws).map (·.2))[i]? = some es[i].2 := by
      rw [List.getElem?_append_left (by rwa [List.length_map]), List.getElem?_map, hes]
      rfl
    have hpiece : Stock.at es p ws a.2 i = es[i].2 := Stock.ofList_eq hall his
    simp only [Option.map_some, Nat.zero_add, Sketch.piece, hpiece, hes, ← hstate]

theorem atoms_mapped {k : Nat} (hk : es.length = k) (p : Cursor) (ws : List Word) :
    (Track.atoms k (ws.map Word.sign)).map
        (fun a => (a.1, Sketch.piece g (Stock.at es p ws) a.2)) = Word.piecesAt p ws := by
  refine List.ext_getElem? fun j => ?_
  rw [Track.atoms, List.getElem?_map, List.getElem?_map, List.getElem?_zipIdx, List.getElem?_map,
    Word.getElem?_piecesAt]
  cases hw : ws[j]? with
  | none => rfl
  | some w =>
    have hpiece := Stock.at_word (p := p) hk hw
    simp only [Option.map_some, Sketch.piece]
    exact congrArg (fun q => some (w.sign, q)) hpiece

theorem Fits.readAll? (h : x.Fits es) {last : Track Sketch}
    (hlast : Track.readAll? Sketch.maker g x.opened (Track.atoms x.entries.length (ws.map Word.sign))
      = some last) (p : Cursor) : Track.readAll? Piece.maker g es (Word.piecesAt p ws)
        = some (Track.mapped (Sketch.piece g (Stock.at es p ws)) last) := by
  have hover := Track.readAll?_mapped (Sketch.respects (g := g) (Stock.fits_at es p ws))
    (Track.atoms x.entries.length (ws.map Word.sign)) x.opened
  rwa [h.mapped_opened, atoms_mapped h.length, hlast] at hover

theorem Fits.nodes (h : x.Fits es) (p : Cursor) (ws : List Word) :
    Track.nodes g es = Outline.allNodes g (Stock.at es p ws) (Track.outlines g x.opened) := by
  rw [← Track.nodes_mapped (Stock.fits_at es p ws), h.mapped_opened]

/-! ## Stretches -/

/-- Words with the signs `xs`, read from a track of the shape `x`, leave one of the shape `y` and add
`more` to the tree. -/
structure Reads (g : Tables) (x : Shape) (xs : List Sign) (y : Shape) (more : List Outline) :
    Prop where
  exists_track : ∃ last, Track.readAll? Sketch.maker g x.opened (Track.atoms x.entries.length xs) = some last ∧
    last.shape = y ∧ Track.outlines g last = Track.outlines g x.opened ++ more

variable {y : Shape} {more : List Outline} {xs : List Sign}

/-- The shape that words leave, if they add `more` to the tree. -/
def next? (g : Tables) (x : Shape) (xs : List Sign) (more : List Outline) : Option Shape :=
  (Track.readAll? Sketch.maker g x.opened (Track.atoms x.entries.length xs)).bind fun last =>
    if Track.outlines g last = Track.outlines g x.opened ++ more then some (Track.shape last)
    else none

theorem reads_of_next? (h : x.next? g xs more = some y) : x.Reads g xs y more := by
  obtain ⟨last, hlast, hshape⟩ := Option.bind_eq_some_iff.1 h
  split at hshape
  next houtlines => exact ⟨last, hlast, Option.some.inj hshape, houtlines⟩
  · cases hshape

/-- A stretch of words does the same to all tracks of a shape. -/
theorem Reads.exists_readAll? (h : x.Reads g (ws.map Word.sign) y more) (hx : x.Fits es)
    (p : Cursor) : ∃ es', Track.readAll? Piece.maker g es (Word.piecesAt p ws) = some es' ∧
      y.Fits es' ∧
      Track.nodes g es' = Track.nodes g es ++ Outline.allNodes g (Stock.at es p ws) more := by
  obtain ⟨last, hlast, rfl, houtlines⟩ := h.exists_track
  have hfits := Stock.fits_at es p ws
  refine ⟨_, hx.readAll? hlast p, Track.fits_mapped hfits last, ?_⟩
  rw [Track.nodes_mapped hfits, houtlines, Outline.allNodes_append, hx.nodes p ws]

/-! ## Ends -/

/-- A text may end at a track of the shape, and is the whole tree then. -/
structure Closes (g : Tables) (x : Shape) : Prop where
  ends : g.ends (Track.state g x.opened) = true
  finish : ∃ s n ps, Track.finish? Sketch.maker g x.opened = some [(s, .node n ps)] ∧
    Sketch.kindOf? g n = some (.phrase .sourceFile) ∧
    Sketch.outlines g none (Sketch.stepsOf g n) ps = Track.outlines g x.opened

def closes (g : Tables) (x : Shape) : Bool :=
  g.ends (Track.state g x.opened) &&
    match Track.finish? Sketch.maker g x.opened with
    | some [(_, .node n ps)] =>
      Sketch.kindOf? g n = some (.phrase .sourceFile) &&
        Sketch.outlines g none (Sketch.stepsOf g n) ps = Track.outlines g x.opened
    | _ => false

theorem closes_iff : x.closes g = true ↔ x.Closes g := by
  constructor
  · intro h
    obtain ⟨hends, hfinish⟩ := Bool.and_eq_true_iff.1 h
    split at hfinish
    next s n ps hlast =>
      simp only [Bool.and_eq_true, decide_eq_true_eq] at hfinish
      exact ⟨hends, s, n, ps, hlast, hfinish⟩
    · cases hfinish
  · rintro ⟨hends, s, n, ps, hfinish, hkind, houtlines⟩
    simp [closes, hends, hfinish, hkind, houtlines]

end Shape

namespace Node

theorem ofPieces_append_extra (g : Tables) (outer : Option Field) {e : Piece} (he : e.extra = true)
    (ps : List Piece) : ∀ steps : List Step,
    ofPieces g outer steps (ps ++ [e]) = ofPieces g outer steps ps ++ ofPiece g none none e := by
  induction ps with
  | nil =>
    intro steps
    rw [List.nil_append]
    unfold ofPieces
    simp [he, ofPieces]
  | cons p ps ih =>
    intro steps
    rw [List.cons_append]
    unfold ofPieces
    split
    · rw [ih, List.append_assoc]
    · cases steps with
      | nil => simp only [ih, List.append_assoc]
      | cons s steps => simp only [ih, List.append_assoc]

end Node

namespace Search

theorem root?_compose (g : Tables) (x : Symbol) (n : Nat) (ss : List Step) (d : Int) (c c' : Cursor)
    (parts : List Piece) : ∃ ss' here,
      root? g [Piece.compose (.symbol x) n ss d c parts, .leaf (endLeaf c')]
        = some (Piece.compose (.symbol x) n ss' 0 here (parts ++ [.leaf (endLeaf c')])) :=
  ⟨_, _, rfl⟩

end Search

variable {x : Shape} {es : Track Piece} {ws : List Word}

theorem Sketch.compose_of_kindOf? {g : Tables} {n : Nat} {k : Kind} (h : kindOf? g n = some k)
    (parts : List Piece) : ∃ x ss d, symbolKind? x = some k ∧
      compose g n parts = Piece.compose (.symbol x) n ss d default parts := by
  obtain ⟨p, hp, hkind⟩ := Option.bind_eq_some_iff.1 h
  refine ⟨p.head, p.steps, p.favour, hkind, ?_⟩
  rw [compose, hp]
  rfl

/-- The syntax tree of a text whose words can be read. -/
theorem ofSource?_of_words (hspelled : Word.AllSpelled [] ws)
    (hread : Track.readAll? Piece.maker goTables [] (Word.piecesAt (.ofChars (Word.textOf ws)) ws)
      = some es) (hx : x.Fits es) (hcloses : x.Closes goTables) : ∃ start stop,
    Node.ofSource? (Word.textOf ws)
      = some (.mk (.phrase .sourceFile) none false false start stop (Track.nodes goTables es)) := by
  obtain ⟨hends, s, n, ps, hfinish, hkind, houtlines⟩ := hcloses
  have hfits := Stock.fits_at es default []
  have hopened := hx.mapped_opened (g := goTables) default []
  have hover := Track.finish?_mapped (Sketch.respects (g := goTables) hfits) x.opened
  rw [hopened, hfinish] at hover
  rw [← Track.state_mapped, hopened] at hends
  generalize hparts : Sketch.pieces goTables (Stock.at es default []) ps = parts at hover
  obtain ⟨y, ss, d, hy, hcompose⟩ := Sketch.compose_of_kindOf? hkind parts
  obtain ⟨ss', here, hroot⟩ := Search.root?_compose goTables y n ss d default
    (Word.stopOf (.ofChars (Word.textOf ws)) ws) parts
  have hcost : ∀ p ∈ parts ++ [.leaf (endLeaf (Word.stopOf (.ofChars (Word.textOf ws)) ws))],
      p.cost = 0 := by
    intro p hp
    rcases List.mem_append.1 hp with hp | hp
    · exact Sketch.cost_pieces hfits ps p (hparts ▸ hp)
    · rw [List.mem_singleton.1 hp]
      rfl
  have hnodes : Node.ofPieces goTables none (Sketch.stepsOf goTables n)
      (parts ++ [.leaf (endLeaf (Word.stopOf (.ofChars (Word.textOf ws)) ws))])
        = Track.nodes goTables es := by
    rw [Node.ofPieces_append_extra goTables none rfl, ← hparts, Sketch.ofPieces_pieces hfits,
      houtlines, ← Track.nodes_mapped hfits, hopened]
    exact List.append_nil _
  have hfinal : Track.finish? Piece.maker goTables es
      = some [(s, Piece.compose (.symbol y) n ss d default parts)] := by
    rw [hover, ← hcompose, ← hparts]
    simp only [Option.map_some, Track.mapped, List.map_cons, List.map_nil, Sketch.piece]
  rw [Node.ofSource?, parsePiece_of_words hspelled hread hends hfinal hroot, Option.bind_some,
    Sketch.ofPiece_composeSymbol none none y n ss' 0 here hcost, hnodes, hy]
  exact ⟨_, _, rfl⟩

end Go
end RouteScribe
