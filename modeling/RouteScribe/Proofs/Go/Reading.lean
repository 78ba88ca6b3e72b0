import RouteScribe.Proofs.Go.Place
import RouteScribe.Proofs.Go.Straight
import RouteScribe.Proofs.Go.Word

/-!
# RouteScribe.Proofs.Go.Reading

The parse of a text that is given by its words, where the parse never has a choice.

* `Track.readAll?`: what the words do to a track.
* `OnTrack.words`: the search follows it.
* `parsePiece_of_words`: the parse of the whole text.
-/

namespace RouteScribe
namespace Go

namespace Track

variable {α β : Type}

/-- Reads words, as far as the states read them. -/
def readAll? (m : Maker α) (g : Tables) : Track α → List (Sign × α) → Option (Track α)
  | es, [] => some es
  | es, x :: xs =>
    if g.reads (state g es) x.1 then
      (read? m g es x.1.token x.2).bind fun es => readAll? m g es xs
    else none

theorem readAll?_append (m : Maker α) (g : Tables) (xs ys : List (Sign × α)) (es : Track α) :
    readAll? m g es (xs ++ ys) = (readAll? m g es xs).bind fun es => readAll? m g es ys := by
  induction xs generalizing es with
  | nil => rfl
  | cons x xs ih =>
    rw [List.cons_append, readAll?, readAll?]
    split
    · cases read? m g es x.1.token x.2 with
      | none => rfl
      | some es' => exact ih es'
    · rfl

theorem readAll?_mapped {m : Maker α} {m' : Maker β} {g : Tables} {f : α → β}
    (h : Respects m m' g f) (xs : List (Sign × α)) (es : Track α) :
    readAll? m' g (mapped f es) (xs.map fun x => (x.1, f x.2))
      = (readAll? m g es xs).map (mapped f) := by
  induction xs generalizing es with
  | nil => rfl
  | cons x xs ih =>
    rw [List.map_cons, readAll?, readAll?, state_mapped, read?_mapped h]
    split
    · cases read? m g es x.1.token x.2 with
      | none => rfl
      | some es' => exact ih es'
    · rfl

end Track

namespace Word

variable {w : Word} {ws : List Word} {p : Cursor} {rest : List Char}

/-- The text that words make up. -/
def textOf (ws : List Word) : List Char := ws.flatMap fun w => w.gap ++ w.text

theorem textOf_cons (w : Word) (ws : List Word) : textOf (w :: ws) = w.gap ++ (w.text ++ textOf ws) := by
  simp [textOf]

theorem textOf_append (ws ws' : List Word) : textOf (ws ++ ws') = textOf ws ++ textOf ws' :=
  List.flatMap_append

/-- All words are spelled as their tokens may be, with `rest` behind the last. -/
def AllSpelled (rest : List Char) : List Word → Prop
  | [] => True
  | w :: ws => w.Spells (textOf ws ++ rest) ∧ AllSpelled rest ws

/-- Where words end that begin at `p`. -/
def stopOf (p : Cursor) : List Word → Cursor
  | [] => p
  | w :: ws => stopOf (w.stop p) ws

/-- The words as they are read at `p`. -/
def piecesAt (p : Cursor) : List Word → List (Sign × Piece)
  | [] => []
  | w :: ws => (w.sign, (w.leaf p).piece) :: piecesAt (w.stop p) ws

theorem allSpelled_append {ws' : List Word} (h : AllSpelled (textOf ws' ++ rest) ws)
    (h' : AllSpelled rest ws') : AllSpelled rest (ws ++ ws') := by
  induction ws with
  | nil => exact h'
  | cons w ws ih =>
    have hw : w.Spells (textOf (ws ++ ws') ++ rest) := by
      rw [textOf_append, List.append_assoc]
      exact h.1
    exact ⟨hw, ih h.2⟩

theorem piecesAt_append (ws ws' : List Word) (p : Cursor) :
    piecesAt p (ws ++ ws') = piecesAt p ws ++ piecesAt (stopOf p ws) ws' := by
  induction ws generalizing p with
  | nil => rfl
  | cons w ws ih => exact congrArg (_ :: ·) (ih (w.stop p))

theorem rest_stopOf (h : p.rest = textOf ws ++ rest) : (stopOf p ws).rest = rest := by
  induction ws generalizing p with
  | nil => exact h
  | cons w ws ih =>
    refine ih (rest_stop (w := w) ?_)
    rw [h, textOf_cons, List.append_assoc, List.append_assoc]

theorem Spells.ne_nil (h : w.Spells rest) : w.text ≠ [] := by
  cases h <;> exact List.cons_ne_nil _ _

theorem offset_lt_stop (h : w.Spells rest) (hp : p.rest = w.gap ++ (w.text ++ rest)) :
    p.offset < (w.stop p).offset := by
  have hle := Cursor.offset_le_skip w.gap.length p
  obtain ⟨n, hn⟩ := Nat.exists_eq_succ_of_ne_zero fun h0 => h.ne_nil (List.length_eq_zero_iff.1 h0)
  have hne : (w.start p).rest ≠ [] := by
    rw [rest_start hp]
    exact List.append_ne_nil_of_left_ne_nil h.ne_nil rest
  have hlt := Cursor.offset_lt_skip hne n
  rw [stop, hn]
  exact Nat.lt_of_le_of_lt hle hlt

theorem length_le_textOf (h : AllSpelled rest ws) : ws.length ≤ (textOf ws).length := by
  induction ws with
  | nil => exact Nat.le_refl 0
  | cons w ws ih =>
    have hle := ih h.2
    have hpos := List.length_pos_iff.2 h.1.ne_nil
    rw [textOf_cons, List.length_cons, List.length_append, List.length_append]
    omega

end Word

namespace Search

open Word

variable {g : Tables} {first p : Cursor} {s : Search} {es es' : Track Piece} {rest : List Char}

/-- The search follows the words. -/
theorem OnTrack.words (ws : List Word) : ∀ {s : Search} {es : Track Piece} {p : Cursor},
    OnTrack g first s es → Track.place first es = p → p.rest = textOf ws ++ rest →
    AllSpelled rest ws → Track.readAll? Piece.maker g es (piecesAt p ws) = some es' →
    ∀ fuel, ∃ s', OnTrack g first s' es' ∧ Track.place first es' = stopOf p ws ∧
      Search.rounds g (fuel + ws.length) s p.offset
        = Search.rounds g fuel s' (stopOf p ws).offset := by
  induction ws with
  | nil =>
    intro s es p h hplace _ _ hread fuel
    cases hread
    exact ⟨s, h, hplace, rfl⟩
  | cons w ws ih =>
    intro s es p h hplace hp hspelled hread fuel
    rw [textOf_cons, List.append_assoc, List.append_assoc] at hp
    rw [piecesAt, Track.readAll?] at hread
    split at hread
    next hreads =>
      obtain ⟨es₁, hfirst, hrest⟩ := Option.bind_eq_some_iff.1 hread
      have hleaf := read_eq hspelled.1 hp hreads
      have hlt := offset_lt_stop hspelled.1 hp
      obtain ⟨s₁, h₁, hround⟩ := h.round hplace hleaf rfl hfirst hlt (fuel + ws.length)
      have hplace₁ : Track.place first es₁ = w.stop p := place_of_read? hfirst
      obtain ⟨s', h', hplace', hrounds⟩ := ih h₁ hplace₁ (rest_stop hp) hspelled.2 hrest fuel
      exact ⟨s', h', hplace', hround.trans hrounds⟩
    · cases hread

end Search

/-! ## The end of the text -/

/-- In the state the end of the text is read as such. -/
def Tables.ends (g : Tables) (st : State) : Bool :=
  !st.items.isEmpty && Lexeme.outside (Lexeme.widened (g.expected st))
    && !Lexeme.endTerminates (Lexeme.widened (g.expected st))

/-- The end of a text. -/
def endLeaf (p : Cursor) : Leaf :=
  { token := some .eof, extra := true, before := p, start := p, stop := p }

variable {g : Tables} {st : State} {p : Cursor}

theorem read_end (h : g.ends st = true) (hp : p.rest = []) : Search.read g st p = endLeaf p := by
  simp only [Tables.ends, Bool.and_eq_true, Bool.not_eq_true'] at h
  obtain ⟨⟨hitems, houtside⟩, hterminates⟩ := h
  have hst : st ≠ .lost := Word.ne_lost_of_items (by simp [hitems])
  have hguard : (p.offset == 0 && p.rest.head? == some '\ufeff') = false := by
    rw [hp]
    exact Bool.and_false _
  have hskip : ∀ f, p.skipWhile f = p := by
    intro f
    rw [Cursor.skipWhile, hp]
    rfl
  have hnext : Lexeme.next (g.expected st) p = .ok ⟨.eof, p, p⟩ := by
    unfold Lexeme.next
    simp only [hguard, Bool.false_eq_true, if_false]
    rw [← Lexeme.widened, Lexeme.part?_eq_none houtside]
    simp only [hskip, hp, List.isEmpty_nil, if_true, hterminates, Bool.false_eq_true, if_false]
  rw [Search.read, if_neg hst]
  simp only [hnext, Search.resolve, reduceCtorEq, if_false, decide_true]
  rfl

open Word in
/-- The parse of a text that words make up, if there is never a choice. -/
theorem parsePiece_of_words {ws : List Word} (hspelled : AllSpelled [] ws) {es es' : Track Piece}
    (hread : Track.readAll? Piece.maker g [] (piecesAt (.ofChars (textOf ws)) ws) = some es)
    (hends : g.ends (Track.state g es) = true)
    (hfinish : Track.finish? Piece.maker g es = some es') {r : Piece}
    (hroot : Search.root? g ((es'.map Prod.snd).reverse
      ++ [.leaf (endLeaf (stopOf (.ofChars (textOf ws)) ws))]) = some r) :
    parsePiece g (textOf ws) = some r := by
  have hstart : Search.OnTrack g (.ofChars (textOf ws))
      { branches := [{ top := .bottom g.start (.ofChars (textOf ws)) }] } [] :=
    ⟨rfl, _, rfl, rfl, .bottom⟩
  have htext : (Cursor.ofChars (textOf ws)).rest = textOf ws ++ [] := (List.append_nil _).symm
  have hle := length_le_textOf hspelled
  obtain ⟨fuel, hfuel⟩ : ∃ fuel, 8 * (textOf ws).length + 64 = fuel + 1 + ws.length :=
    ⟨8 * (textOf ws).length + 63 - ws.length, by omega⟩
  obtain ⟨s', h', hplace, hrounds⟩ := hstart.words ws rfl htext hspelled hread (fuel + 1)
  have hleaf := read_end hends (rest_stopOf htext)
  rw [parsePiece, hfuel]
  exact hrounds.trans (h'.lastRound hplace hleaf rfl hfinish hroot _ fuel)

end Go
end RouteScribe
