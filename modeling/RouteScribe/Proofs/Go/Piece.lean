import RouteScribe.Go.Piece
import RouteScribe.Proofs.Go.Place

/-!
# RouteScribe.Proofs.Go.Piece

What a piece of a parse promises, whatever repairs went into it. A phrase is made of parts that its
production calls for, with extras among them; its parts stand one behind the other in the text;
without repairs in it there are none in its parts; and the text of an identifier holds nothing but
the characters of names.

* `Piece.Sound`: the promise.
* `sound_compose`, `sound_composeError`, `sound_composeSkipped`: how pieces that keep it are made.
-/

namespace RouteScribe
namespace Go

/-- The token stands in the text `src`, and what it covers there is a text that it may have. A
token made up by a repair has none. -/
structure Leaf.Sound (src : List Char) (l : Leaf) : Prop where
  start : l.start.Within src
  stop : l.stop.Within src
  le : l.start.offset ≤ l.stop.offset
  name : l.token = some .identifier ∨ l.keyword = true →
    ∀ c ∈ (l.start.textTo l.stop).toList, isNameChar c = true
  comment : l.missing = false → l.token = some .comment → IsComment (l.start.textTo l.stop).toList
  period : l.missing = false → l.token = some .period → (l.start.textTo l.stop).toList = ['.']

theorem Leaf.sound_of_missing {src : List Char} {l : Leaf} (hstart : l.start.Within src)
    (h : l.start = l.stop) (hm : l.missing = true) : l.Sound src := by
  refine ⟨hstart, h ▸ hstart, h ▸ Nat.le_refl _, fun _ c hc => ?_, fun h => ?_, fun h => ?_⟩
  · rw [h, Cursor.textTo_self] at hc
    simp at hc
  · rw [hm] at h
    cases h
  · rw [hm] at h
    cases h

theorem Leaf.Sound.withExtra {src : List Char} {l : Leaf} (h : l.Sound src) (b : Bool) :
    Leaf.Sound src { l with extra := b } :=
  ⟨h.start, h.stop, h.le, h.name, h.comment, h.period⟩

namespace Piece

/-- The grammar symbol of a piece; skipped text has none. -/
def symbol? : Piece → Option Symbol
  | leaf l => l.token.map .token
  | node s _ => match s.label with
    | .symbol x => some x
    | _ => none

/-- The parts that the grammar sees. -/
def main (ps : List Piece) : List Piece := ps.filter (!·.extra)

/-- The parts that the grammar sees are those that the steps call for. -/
def Follows (ss : List Step) (ps : List Piece) : Prop :=
  (main ps).map symbol? = ss.map fun s => some s.symbol

/-- The pieces stand one behind the other from byte `a` to byte `b`. -/
def Ordered : Nat → List Piece → Nat → Prop
  | a, [], b => a ≤ b
  | a, p :: ps, b =>
    a ≤ p.start.offset ∧ p.start.offset ≤ p.stop.offset ∧ Ordered p.stop.offset ps b

theorem Ordered.le {ps : List Piece} : ∀ {a b : Nat}, Ordered a ps b → a ≤ b := by
  induction ps with
  | nil => exact fun h => h
  | cons p ps ih => exact fun h => Nat.le_trans h.1 (Nat.le_trans h.2.1 (ih h.2.2))

theorem Ordered.mono {ps : List Piece} : ∀ {a a' b b' : Nat}, a' ≤ a → b ≤ b' → Ordered a ps b →
    Ordered a' ps b' := by
  induction ps with
  | nil => exact fun ha hb h => Nat.le_trans ha (Nat.le_trans h hb)
  | cons p ps ih => exact fun ha hb h => ⟨Nat.le_trans ha h.1, h.2.1, ih (Nat.le_refl _) hb h.2.2⟩

theorem Ordered.append {ps qs : List Piece} {b c : Nat} : ∀ {a : Nat}, Ordered a ps b →
    Ordered b qs c → Ordered a (ps ++ qs) c := by
  induction ps with
  | nil => exact fun h h' => h'.mono h (Nat.le_refl _)
  | cons p ps ih => exact fun h h' => ⟨h.1, h.2.1, ih h.2.2 h'⟩

theorem Ordered.of_mem {ps : List Piece} {p : Piece} (hp : p ∈ ps) : ∀ {a b : Nat},
    Ordered a ps b → a ≤ p.start.offset ∧ p.start.offset ≤ p.stop.offset ∧ p.stop.offset ≤ b := by
  induction ps with
  | nil => cases hp
  | cons q ps ih =>
    intro a b h
    rcases List.mem_cons.1 hp with rfl | hp
    · exact ⟨h.1, h.2.1, h.2.2.le⟩
    · obtain ⟨hstart, hle, hstop⟩ := ih hp h.2.2
      exact ⟨Nat.le_trans h.1 (Nat.le_trans h.2.1 hstart), hle, hstop⟩

/-- Where the last of some pieces ends, or `a` if there are none. -/
def endOf (a : Nat) (ps : List Piece) : Nat := (ps.getLast?.map (·.stop.offset)).getD a

theorem endOf_cons (a : Nat) (p : Piece) (ps : List Piece) :
    endOf a (p :: ps) = endOf p.stop.offset ps := by
  cases ps with
  | nil => rfl
  | cons q qs => rw [endOf, endOf, List.getLast?_cons_cons, List.getLast?_cons, Option.map_some]; rfl

theorem Ordered.of_append {ps qs : List Piece} {c : Nat} : ∀ {a : Nat}, Ordered a (ps ++ qs) c →
    Ordered a ps (endOf a ps) ∧ Ordered (endOf a ps) qs c := by
  induction ps with
  | nil => exact fun h => ⟨Nat.le_refl _, h⟩
  | cons p ps ih =>
    intro a h
    rw [endOf_cons]
    exact ⟨⟨h.1, h.2.1, (ih h.2.2).1⟩, (ih h.2.2).2⟩

/-- What a composed piece says of itself is true of its parts. -/
structure Truthful (g : Tables) (src : List Char) (s : Summary) (cs : List Piece) : Prop where
  start : s.start.Within src
  stop : s.stop.Within src
  ordered : Ordered s.start.offset cs s.stop.offset
  extra : s.extra = true → s.label = .error
  error : s.label = .error → 0 < s.cost
  follows : ∀ x, s.label = .symbol x →
    ∃ p, g.productions[s.production]? = some p ∧ p.head = x ∧ Follows p.steps cs
  cost : ∀ x, s.label = .symbol x → s.cost = 0 → ∀ c ∈ cs, c.cost = 0

/-- All leaves of a piece are sound, and what its composed parts say is true. -/
inductive Sound (g : Tables) (src : List Char) : Piece → Prop where
  | leaf {l : Leaf} (h : l.Sound src) : Sound g src (leaf l)
  | node {s : Summary} {cs : List Piece} (h : Truthful g src s cs)
    (hcs : ∀ c ∈ cs, Sound g src c) : Sound g src (node s cs)

variable {g : Tables} {src : List Char}

theorem Sound.truthful {s : Summary} {cs : List Piece} (h : Sound g src (Piece.node s cs)) :
    Truthful g src s cs := by
  cases h with
  | node h _ => exact h

theorem Sound.children {p c : Piece} (h : Sound g src p) (hc : c ∈ p.children) : Sound g src c := by
  cases h with
  | leaf _ => cases hc
  | node _ hcs => exact hcs c hc

theorem Sound.start {p : Piece} (h : Sound g src p) : p.start.Within src := by
  cases h with
  | leaf h => exact h.start
  | node h _ => exact h.start

theorem Sound.stop {p : Piece} (h : Sound g src p) : p.stop.Within src := by
  cases h with
  | leaf h => exact h.stop
  | node h _ => exact h.stop

theorem Sound.le {p : Piece} (h : Sound g src p) : p.start.offset ≤ p.stop.offset := by
  cases h with
  | leaf h => exact h.le
  | node h _ => exact h.ordered.le

theorem Sound.ordered_children {p : Piece} (h : Sound g src p) :
    Ordered p.start.offset p.children p.stop.offset := by
  cases h with
  | leaf h => exact h.le
  | node h _ => exact h.ordered

theorem Ordered.splice {us vs cs : List Piece} {n : Summary} {a b : Nat}
    (h : Ordered a (us ++ node n cs :: vs) b) (hn : Sound g src (node n cs)) :
    Ordered a (us ++ cs ++ vs) b := by
  obtain ⟨hus, hle, _, hvs⟩ := h.of_append
  exact (hus.append (hn.truthful.ordered.mono hle (Nat.le_refl _))).append hvs

/-- Text still being skipped is no extra. -/
theorem Sound.isSkipped_of_extra {p : Piece} (h : Sound g src p) (he : p.extra = true) :
    p.isSkipped = false := by
  cases h with
  | leaf _ => rfl
  | node h _ => simp [isSkipped, h.extra he]

theorem isSkipped_of_symbol? {p : Piece} {x : Symbol} (h : p.symbol? = some x) :
    p.isSkipped = false := by
  cases p with
  | leaf l => rfl
  | node s cs =>
    cases hl : s.label with
    | symbol y => simp [isSkipped, hl]
    | error => simp [isSkipped, hl]
    | skipped => simp [symbol?, hl] at h

theorem symbol?_of_isError {p : Piece} (h : p.isError = true) : p.symbol? = none := by
  cases p with
  | leaf l =>
    have : l.token = none := by simpa [isError] using h
    simp [symbol?, this]
  | node s cs =>
    have : s.label = .error := by simpa [isError] using h
    simp [symbol?, this]

theorem mem_main {p : Piece} {ps : List Piece} : p ∈ main ps ↔ p ∈ ps ∧ p.extra = false := by
  simp [main]

@[simp] theorem main_nil : main [] = [] := rfl

theorem main_append (ps qs : List Piece) : main (ps ++ qs) = main ps ++ main qs :=
  List.filter_append ..

theorem main_cons_of_extra {p : Piece} (ps : List Piece) (h : p.extra = true) :
    main (p :: ps) = main ps := by
  simp [main, h]

theorem main_cons_of_main {p : Piece} (ps : List Piece) (h : p.extra = false) :
    main (p :: ps) = p :: main ps := by
  simp [main, h]

theorem main_eq_nil {ps : List Piece} (h : ∀ p ∈ ps, p.extra = true) : main ps = [] := by
  simpa [main] using h

theorem Follows.isSkipped {ss : List Step} {ps : List Piece} (h : Follows ss ps)
    (hs : ∀ p ∈ ps, Sound g src p) {p : Piece} (hp : p ∈ ps) : p.isSkipped = false := by
  cases he : p.extra with
  | true => exact (hs p hp).isSkipped_of_extra he
  | false =>
    have hmem : p.symbol? ∈ (main ps).map symbol? :=
      List.mem_map_of_mem (mem_main.2 ⟨hp, he⟩)
    rw [h] at hmem
    obtain ⟨s, _, hx⟩ := List.mem_map.1 hmem
    exact isSkipped_of_symbol? hx.symm

theorem le_foldl_cost (f : Piece → Nat) (ps : List Piece) (n : Nat) :
    n ≤ ps.foldl (fun n p => n + f p) n ∧
      ∀ p ∈ ps, f p ≤ ps.foldl (fun n p => n + f p) n := by
  induction ps generalizing n with
  | nil => exact ⟨Nat.le_refl n, fun p hp => by cases hp⟩
  | cons q ps ih =>
    obtain ⟨hle, hall⟩ := ih (n + f q)
    rw [List.foldl_cons]
    refine ⟨by omega, fun p hp => ?_⟩
    rcases List.mem_cons.1 hp with rfl | hp
    · omega
    · exact hall p hp

theorem symbol?_compose (x : Symbol) (n : Nat) (ss : List Step) (d : Int) (c : Cursor)
    (ps : List Piece) : (compose (.symbol x) n ss d c ps).symbol? = some x := rfl

theorem extra_compose (l : Label) (n : Nat) (ss : List Step) (d : Int) (c : Cursor)
    (ps : List Piece) : (compose l n ss d c ps).extra = false := rfl

theorem cost_of_cost_compose {x : Symbol} {n : Nat} {ss : List Step} {d : Int} {here : Cursor}
    {ps : List Piece} (hskip : ∀ p ∈ ps, p.isSkipped = false)
    (h : (compose (.symbol x) n ss d here ps).cost = 0) {c : Piece} (hc : c ∈ ps) :
    c.cost = 0 := by
  have hle := (le_foldl_cost (fun p => if p.isSkipped then 0 else p.cost) ps 0).2 c hc
  simp only [hskip c hc, Bool.false_eq_true, if_false] at hle
  have hsum : ps.foldl (fun n p => n + (if p.isSkipped then 0 else p.cost)) 0 = 0 := by
    simpa [compose, cost] using h
  omega

section Places

variable {a b n : Nat} {l : Label} {ss : List Step} {d : Int} {here : Cursor} {ps : List Piece}

theorem endOf_compose : (compose l n ss d here ps).stop.offset = endOf here.offset ps := by
  unfold endOf
  simp only [compose, stop]
  cases ps.getLast? with
  | none => rfl
  | some p => rfl

theorem le_start_compose (h : Ordered a ps b) (ha : a ≤ here.offset) :
    a ≤ (compose l n ss d here ps).start.offset := by
  cases ps with
  | nil => exact ha
  | cons p ps => exact h.1

theorem ordered_compose (h : Ordered a ps b) :
    Ordered (compose l n ss d here ps).start.offset ps (compose l n ss d here ps).stop.offset := by
  rw [endOf_compose]
  cases ps with
  | nil => exact Nat.le_refl _
  | cons p ps =>
    rw [endOf_cons]
    refine ⟨Nat.le_refl _, h.2.1, ?_⟩
    have h' := h.2.2
    rw [← List.append_nil ps] at h'
    exact h'.of_append.1

theorem within_compose (hhere : here.Within src) (hps : ∀ c ∈ ps, Sound g src c) :
    (compose l n ss d here ps).start.Within src ∧ (compose l n ss d here ps).stop.Within src := by
  constructor
  · simp only [compose, start]
    cases h : ps.head? with
    | none => exact hhere
    | some p => exact (hps p (List.mem_of_head? h)).start
  · simp only [compose, stop]
    cases h : ps.getLast? with
    | none => exact hhere
    | some p => exact (hps p (List.mem_of_getLast? h)).stop

end Places

theorem sound_compose {p : Production} {n : Nat} {ps : List Piece} (d : Int) {here : Cursor}
    (hhere : here.Within src) (hp : g.productions[n]? = some p) (hps : ∀ c ∈ ps, Sound g src c)
    {a b : Nat} (ho : Ordered a ps b) (hf : Follows p.steps ps) :
    Sound g src (compose (.symbol p.head) n p.steps d here ps) := by
  obtain ⟨hstart, hstop⟩ := within_compose hhere hps
  refine .node ⟨hstart, hstop, ordered_compose ho, fun h => ?_, fun h => ?_, fun x hx => ?_,
    fun x _ h0 c hc => ?_⟩ hps
  · cases h
  · cases h
  · exact ⟨p, hp, Label.symbol.inj hx, hf⟩
  · exact cost_of_cost_compose (fun q hq => hf.isSkipped hps hq) h0 hc

theorem cost_composeError (n : Nat) (ss : List Step) (d : Int) (here : Cursor)
    (ps : List Piece) : 0 < (compose .error n ss d here ps).cost := by
  simp only [compose, cost, decide_true, Bool.true_or, if_true, prices]
  omega

theorem sound_composeError {ps : List Piece} (n : Nat) (ss : List Step) (d : Int) {here : Cursor}
    (hhere : here.Within src) (hps : ∀ c ∈ ps, Sound g src c) {a b : Nat} (ho : Ordered a ps b) :
    Sound g src (compose .error n ss d here ps) := by
  obtain ⟨hstart, hstop⟩ := within_compose hhere hps
  refine .node ⟨hstart, hstop, ordered_compose ho, fun h => rfl,
    fun _ => cost_composeError n ss d here ps, fun x hx => ?_, fun x hx => ?_⟩ hps
  · cases hx
  · cases hx

theorem sound_composeSkipped {ps : List Piece} (n : Nat) (ss : List Step) (d : Int) {here : Cursor}
    (hhere : here.Within src) (hps : ∀ c ∈ ps, Sound g src c) {a b : Nat} (ho : Ordered a ps b) :
    Sound g src (compose .skipped n ss d here ps) := by
  obtain ⟨hstart, hstop⟩ := within_compose hhere hps
  refine .node ⟨hstart, hstop, ordered_compose ho, fun h => ?_, fun h => ?_, fun x hx => ?_,
    fun x hx => ?_⟩ hps
  · cases h
  · cases h
  · cases hx
  · cases hx

theorem sound_withExtra {p : Piece} (h : Sound g src p) (he : p.isError = true) :
    Sound g src (p.withExtra true) := by
  cases h with
  | leaf h => exact .leaf (h.withExtra true)
  | @node s cs h hcs =>
    have hl : s.label = .error := by simpa [isError] using he
    exact .node ⟨h.start, h.stop, h.ordered, fun _ => hl, h.error, h.follows, h.cost⟩ hcs

theorem extra_withExtra (b : Bool) (p : Piece) : (p.withExtra b).extra = b := by
  cases p with
  | leaf l => rfl
  | node s cs => rfl

@[simp] theorem start_withExtra (b : Bool) (p : Piece) : (p.withExtra b).start = p.start := by
  cases p with
  | leaf l => rfl
  | node s cs => rfl

@[simp] theorem stop_withExtra (b : Bool) (p : Piece) : (p.withExtra b).stop = p.stop := by
  cases p with
  | leaf l => rfl
  | node s cs => rfl

theorem splitExtras_append (ps : List Piece) : (splitExtras ps).1 ++ (splitExtras ps).2 = ps := by
  have hrev : (ps.reverse.takeWhile extra).reverse <:+ ps := by
    rw [← List.reverse_prefix, List.reverse_reverse]
    exact List.takeWhile_prefix _
  obtain ⟨qs, hqs⟩ := hrev
  have hlen : ps.length - (ps.reverse.takeWhile extra).reverse.length = qs.length := by
    conv => lhs; arg 1; rw [← hqs]
    rw [List.length_append]
    omega
  have htake : ps.take qs.length = qs := by
    conv => lhs; arg 2; rw [← hqs]
    exact List.take_left
  simp only [splitExtras]
  rw [hlen, htake, hqs]

theorem extra_of_mem_splitExtras {ps : List Piece} {p : Piece} (h : p ∈ (splitExtras ps).2) :
    p.extra = true := by
  have h' : p ∈ ps.reverse.takeWhile extra := List.mem_reverse.1 h
  exact List.all_eq_true.1 List.all_takeWhile p h'

theorem main_splitExtras (ps : List Piece) : main (splitExtras ps).1 = main ps := by
  have h : main ps = main (splitExtras ps).1 ++ main (splitExtras ps).2 := by
    rw [← main_append, splitExtras_append]
  rw [h, main_eq_nil fun p hp => extra_of_mem_splitExtras hp, List.append_nil]

end Piece
end Go
end RouteScribe
