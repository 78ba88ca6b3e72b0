import RouteScribe.Go.Branch
import RouteScribe.Proofs.Go.Automaton
import RouteScribe.Proofs.Go.Piece

/-!
# RouteScribe.Proofs.Go.Branch

Stacks follow the automaton: the state above a piece is the one that the automaton goes to from the
state below it, on every way down. So a completed item finds on each way the symbols of its
production. And they follow the text: a piece stands between the place below it and the one above.

* `Stack.Ok`: the invariant. Stacks of one name have one state and one place, which the list `names`
  tells.
* `ok_push`, `ok_addLink`, `ok_join`: pushing and joining keep it.
* `read_of_complete`: what is popped for a completed item.
-/

namespace RouteScribe
namespace Go

namespace Stack

/-- What the state above a link may be. A parse that has lost its way may stand on anything. -/
def LinkOk (g : Tables) (st : State) (link : Option Piece) (below : State) : Prop :=
  st = .lost ∨ ∃ p, link = some p ∧
    (p.extra = true ∧ st = below ∨
      p.extra = false ∧ ∃ x, p.symbol? = some x ∧ st = g.goto below x)

/-- What a stack is known by: its state, and how many bytes lie before its place. -/
abbrev Name := State × Nat

/-- The piece of a link stands between the place below and byte `n`, where the stack stands. -/
def LinkPlaced (n : Nat) (l : Option Piece × Stack) : Prop :=
  match l.1 with
  | some p => l.2.place.offset ≤ p.start.offset ∧ p.stop.offset = n
  | none => l.2.place.offset = n

/-- All states of a stack follow from the pieces below them, and the pieces are sound. -/
inductive Ok (g : Tables) (src : List Char) (names : List Name) : Stack → Prop where
  | mk {i d : Nat} {st : State} {pl : Cursor} {ls : List (Option Piece × Stack)} {c n : Nat}
      {f : Int} (name : names[i]? = some (st, pl.offset)) (fits : st.Fits g)
      (place : pl.Within src)
      (links : ∀ l ∈ ls, LinkOk g st l.1 l.2.state)
      (placed : ∀ l ∈ ls, LinkPlaced pl.offset l)
      (pieces : ∀ l ∈ ls, ∀ p, l.1 = some p → p.Sound g src)
      (below : ∀ l ∈ ls, Ok g src names l.2) :
      Ok g src names (mk i d st pl ls c n f)

variable {g : Tables} {src : List Char} {names : List Name} {s t : Stack}

theorem Ok.name (h : s.Ok g src names) : names[s.id]? = some (s.state, s.place.offset) := by
  cases h with
  | mk name _ _ _ _ _ _ => exact name

theorem Ok.fits (h : s.Ok g src names) : s.state.Fits g := by
  cases h with
  | mk _ fits _ _ _ _ _ => exact fits

theorem Ok.place (h : s.Ok g src names) : s.place.Within src := by
  cases h with
  | mk _ _ place _ _ _ _ => exact place

theorem Ok.link (h : s.Ok g src names) {l : Option Piece × Stack} (hl : l ∈ s.links) :
    LinkOk g s.state l.1 l.2.state := by
  cases h with
  | mk _ _ _ links _ _ _ => exact links l hl

theorem Ok.placed (h : s.Ok g src names) {l : Option Piece × Stack} (hl : l ∈ s.links) :
    LinkPlaced s.place.offset l := by
  cases h with
  | mk _ _ _ _ placed _ _ => exact placed l hl

theorem Ok.piece (h : s.Ok g src names) {p : Piece} {below : Stack}
    (hl : (some p, below) ∈ s.links) : p.Sound g src := by
  cases h with
  | mk _ _ _ _ _ pieces _ => exact pieces _ hl p rfl

theorem Ok.under (h : s.Ok g src names) {l : Option Piece × Stack} (hl : l ∈ s.links) :
    l.2.Ok g src names := by
  cases h with
  | mk _ _ _ _ _ _ below => exact below l hl

/-- Stacks of one name are in one state and in one place. -/
theorem Ok.eq_of_id_eq (hs : s.Ok g src names) (ht : t.Ok g src names) (h : s.id = t.id) :
    s.state = t.state ∧ s.place.offset = t.place.offset := by
  have hname := hs.name
  rw [h, ht.name] at hname
  obtain ⟨hstate, hplace⟩ := Prod.mk.inj (Option.some.inj hname)
  exact ⟨hstate.symm, hplace.symm⟩

theorem Ok.mono {names' : List Name} (hn : names <+: names') (h : s.Ok g src names) :
    s.Ok g src names' := by
  induction h with
  | mk name fits place links placed pieces _ ih =>
    obtain ⟨more, rfl⟩ := hn
    refine .mk ?_ fits place links placed pieces ih
    rw [List.getElem?_append_left (List.getElem?_eq_some_iff.1 name).1, name]

theorem ok_bottom (hg : g.Lawful) (src : List Char) :
    (bottom g.start (.ofChars src)).Ok g src [(g.start, 0)] := by
  refine .mk rfl (Tables.fits_start hg) (Cursor.within_ofChars src) ?_ ?_ ?_ ?_
  all_goals
    intro l hl
    cases hl

@[simp] theorem state_push (i : Nat) (piece : Option Piece) (st : State) :
    (s.push i piece st).state = st := by
  cases piece with
  | none => rfl
  | some p => rfl

@[simp] theorem links_push (i : Nat) (piece : Option Piece) (st : State) :
    (s.push i piece st).links = [(piece, s)] := by
  cases piece with
  | none => rfl
  | some p => rfl

/-- The link may stand under a stack in the state `st` at byte `n`. -/
structure Linked (g : Tables) (src : List Char) (names : List Name) (st : State) (n : Nat)
    (l : Option Piece × Stack) : Prop where
  link : LinkOk g st l.1 l.2.state
  placed : LinkPlaced n l
  piece : ∀ p, l.1 = some p → p.Sound g src
  under : l.2.Ok g src names

theorem Ok.linked (h : s.Ok g src names) {l : Option Piece × Stack} (hl : l ∈ s.links) :
    Linked g src names s.state s.place.offset l := by
  obtain ⟨piece, below⟩ := l
  refine ⟨h.link hl, h.placed hl, fun p hp => ?_, h.under hl⟩
  cases hp
  exact h.piece hl

theorem ok_mk {i d : Nat} {st : State} {pl : Cursor} {ls : List (Option Piece × Stack)} {c n : Nat}
    {f : Int} (hname : names[i]? = some (st, pl.offset)) (hfits : st.Fits g)
    (hplace : pl.Within src) (hls : ∀ l ∈ ls, Linked g src names st pl.offset l) :
    (mk i d st pl ls c n f).Ok g src names :=
  .mk hname hfits hplace (fun l hl => (hls l hl).link) (fun l hl => (hls l hl).placed)
    (fun l hl => (hls l hl).piece) fun l hl => (hls l hl).under

/-- A stack with a piece more, which begins no further ahead than the stack stands. -/
theorem ok_push {st : State} {p : Piece} (h : s.Ok g src names) (hfits : st.Fits g)
    (hlink : LinkOk g st (some p) s.state) (hpiece : p.Sound g src)
    (hplaced : s.place.offset ≤ p.start.offset) :
    (s.push names.length (some p) st).Ok g src (names ++ [(st, p.stop.offset)]) := by
  refine ok_mk List.getElem?_concat_length hfits hpiece.stop fun l hl => ?_
  rw [List.mem_singleton.1 hl]
  refine ⟨hlink, ⟨hplaced, rfl⟩, fun q hq => ?_, h.mono (List.prefix_append _ _)⟩
  cases hq
  exact hpiece

theorem ok_lose (h : s.Ok g src names) :
    (s.push names.length none .lost).Ok g src (names ++ [(.lost, s.place.offset)]) := by
  refine ok_mk List.getElem?_concat_length Tables.fits_lost h.place fun l hl => ?_
  rw [List.mem_singleton.1 hl]
  exact ⟨.inl rfl, rfl, nofun, h.mono (List.prefix_append _ _)⟩

theorem eq_of_meets (h : s.meets t = true) :
    s.state = t.state ∧ s.place.offset = t.place.offset := by
  simp only [meets, Bool.and_eq_true, decide_eq_true_eq, beq_iff_eq] at h
  exact ⟨h.2, h.1.1⟩

theorem Ok.withLinks {i d d' : Nat} {st : State} {pl : Cursor}
    {ls ls' : List (Option Piece × Stack)} {c c' n n' : Nat} {f f' : Int}
    (h : (Stack.mk i d st pl ls c n f).Ok g src names)
    (hls : ∀ l ∈ ls', l ∈ ls ∨ Linked g src names st pl.offset l) :
    (Stack.mk i d' st pl ls' c' n' f').Ok g src names := by
  refine ok_mk h.name h.fits h.place fun l hl => ?_
  rcases hls l hl with hl | hl
  · exact h.linked hl
  · exact hl

/-- Two stacks are in the same state and place. -/
def Alike (s t : Stack) : Prop := s.state = t.state ∧ s.place = t.place

/-- Putting the links of `t` one after the other into a stack in the same state and place. -/
theorem ok_foldl {step : Stack → Option Piece × Stack → Stack} (ht : t.Ok g src names)
    (hstep : ∀ u l, u.Ok g src names → Linked g src names u.state u.place.offset l →
      (step u l).Ok g src names ∧ (step u l).Alike u) :
    ∀ ms : List (Option Piece × Stack), (∀ l ∈ ms, l ∈ t.links) →
    ∀ u : Stack, u.Ok g src names → u.state = t.state → u.place.offset = t.place.offset →
      (ms.foldl step u).Ok g src names ∧ (ms.foldl step u).Alike u := by
  intro ms
  induction ms with
  | nil =>
    intro _ u hu _ _
    exact ⟨hu, rfl, rfl⟩
  | cons m ms ih =>
    intro hms u hu hst hpl
    have hm : Linked g src names u.state u.place.offset m :=
      hst ▸ hpl ▸ ht.linked (hms m List.mem_cons_self)
    obtain ⟨hok, hst', hpl'⟩ := hstep u m hu hm
    obtain ⟨hok', hst'', hpl''⟩ := ih (fun l hl => hms l (List.mem_cons_of_mem _ hl)) _ hok
      (hst'.trans hst) (by rw [hpl', hpl])
    exact ⟨hok', hst''.trans hst', hpl''.trans hpl'⟩

/-- One more way down, if it may stand under the state, keeps a stack right; its state and its
place stay. -/
theorem ok_addLink (fuel : Nat) : ∀ (s : Stack) (l : Option Piece × Stack), s.Ok g src names →
    Linked g src names s.state s.place.offset l →
    (addLink fuel s l).Ok g src names ∧ (addLink fuel s l).Alike s := by
  induction fuel with
  | zero =>
    intro s l hs _
    exact ⟨hs, rfl, rfl⟩
  | succ fuel ih =>
    intro s l hs hl
    obtain ⟨piece, below⟩ := l
    cases s with
    | mk i d st pl ls c n f =>
      have hset : ∀ k l', Linked g src names st pl.offset l' →
          ∀ l ∈ ls.set k l', l ∈ ls ∨ Linked g src names st pl.offset l := by
        intro k l' hl' l hl
        rcases List.mem_or_eq_of_mem_set hl with h | rfl
        · exact .inl h
        · exact .inr hl'
      simp only [addLink]
      split
      next k hk =>
        split
        next old under hold =>
          have hmem : (old, under) ∈ ls := List.mem_of_getElem? hold
          have hunder : under.Ok g src names := hs.under hmem
          have hfits : sameLink old piece = true ∧
              (under.id = below.id ∨ under.meets below = true) := by
            obtain ⟨hlt, hfit, _⟩ := List.findIdx?_eq_some_iff_getElem.1 hk
            rw [(List.getElem?_eq_some_iff.1 hold).2] at hfit
            simpa using hfit
          obtain ⟨hstate, hplace⟩ : under.state = below.state ∧
              under.place.offset = below.place.offset := by
            rcases hfits.2 with h | h
            · exact hunder.eq_of_id_eq hl.under h
            · exact eq_of_meets h
          -- A link over one of the two stacks may as well stand over the other.
          have hmoved : ∀ {q : Option Piece} {a b : Stack}, Linked g src names st pl.offset (q, a) →
              a.state = b.state → a.place.offset = b.place.offset → b.Ok g src names →
              Linked g src names st pl.offset (q, b) := by
            intro q a b h hst hpl hb
            refine ⟨?_, ?_, h.piece, hb⟩
            · have hlink := h.link
              rw [hst] at hlink
              exact hlink
            · have hplaced := h.placed
              unfold LinkPlaced at hplaced ⊢
              cases q with
              | none => exact hpl ▸ hplaced
              | some p => exact ⟨hpl ▸ hplaced.1, hplaced.2⟩
          split
          · split
            · exact ⟨hs.withLinks (hset k (piece, under)
                (hmoved hl hstate.symm hplace.symm hunder)), rfl, rfl⟩
            · exact ⟨hs, rfl, rfl⟩
          · obtain ⟨hok, hst, hpl⟩ :=
              ok_foldl hl.under ih below.links (fun l hl => hl) under hunder hstate hplace
            exact ⟨hs.withLinks (hset k (old, _)
              (hmoved (hs.linked hmem) hst.symm (congrArg Cursor.offset hpl.symm) hok)), rfl, rfl⟩
        · exact ⟨hs, rfl, rfl⟩
      · split
        · exact ⟨hs, rfl, rfl⟩
        · refine ⟨hs.withLinks fun l' hl' => ?_, rfl, rfl⟩
          rcases List.mem_append.1 hl' with h | h
          · exact .inl h
          · rw [List.mem_singleton.1 h]
            exact .inr hl

/-- Two stacks that meet are right as one. -/
theorem ok_join (hs : s.Ok g src names) (ht : t.Ok g src names) (h : s.meets t = true) :
    (s.join t).Ok g src names ∧ (s.join t).Alike s := by
  have hstep : ∀ (u : Stack) (l : Option Piece × Stack), u.Ok g src names →
      Linked g src names u.state u.place.offset l →
      (if l.2.id == u.id then u else addLink (t.depth + 1) u l).Ok g src names ∧
        (if l.2.id == u.id then u else addLink (t.depth + 1) u l).Alike u := by
    intro u l hu hl
    split
    · exact ⟨hu, rfl, rfl⟩
    · exact ok_addLink (t.depth + 1) u l hu hl
  obtain ⟨hstate, hplace⟩ := eq_of_meets h
  exact ok_foldl ht hstep t.links (fun l hl => hl) s hs hstate hplace

/-! ## Ways down -/

/-- The ways that lead down a stack. -/
inductive Way.From (s : Stack) : Way → Prop where
  | here : From s ⟨s, [], 0⟩
  | down {w : Way} {l : Option Piece × Stack} (h : From s w) (hl : l ∈ w.top.links) :
    From s (w.down l)

theorem Ok.top (h : s.Ok g src names) {w : Way} (hw : Way.From s w) : w.top.Ok g src names := by
  induction hw with
  | here => exact h
  | @down w l _ hl ih =>
    obtain ⟨link, under⟩ := l
    cases link with
    | none => exact ih.under hl
    | some p => exact ih.under hl

theorem Ok.pieces (h : s.Ok g src names) {w : Way} (hw : Way.From s w) :
    ∀ p ∈ w.pieces, p.Sound g src := by
  induction hw with
  | here =>
    intro p hp
    cases hp
  | @down w l hw hl ih =>
    obtain ⟨link, under⟩ := l
    cases link with
    | none => exact ih
    | some q =>
      intro p hp
      rcases List.mem_cons.1 hp with rfl | hp
      · exact (h.top hw).piece hl
      · exact ih p hp

/-- The pieces on a way stand one behind the other, up to where the stack stands. -/
theorem Ok.ordered (h : s.Ok g src names) {w : Way} (hw : Way.From s w) :
    Piece.Ordered w.top.place.offset w.pieces s.place.offset := by
  induction hw with
  | here => exact Nat.le_refl _
  | @down w l hw hl ih =>
    have hplaced := (h.top hw).placed hl
    obtain ⟨link, under⟩ := l
    cases link with
    | none =>
      have hplace : under.place.offset = w.top.place.offset := hplaced
      exact ih.mono (Nat.le_of_eq hplace) (Nat.le_refl _)
    | some q =>
      exact ⟨hplaced.1, ((h.top hw).piece hl).le, ih.mono (Nat.le_of_eq hplaced.2) (Nat.le_refl _)⟩

theorem from_of_mem_spread {ws : List Way} (hws : ∀ w ∈ ws, Way.From s w) {w : Way}
    (h : w ∈ spread ws) : Way.From s w := by
  rcases List.mem_append.1 h with h | h
  · obtain ⟨v, hv, hw⟩ := List.mem_filterMap.1 h
    obtain ⟨l, hl, rfl⟩ := Option.map_eq_some_iff.1 hw
    exact (hws v hv).down (List.mem_of_head? hl)
  · obtain ⟨v, hv, hw⟩ := List.mem_flatMap.1 (List.mem_of_mem_take h)
    obtain ⟨l, hl, rfl⟩ := List.mem_map.1 hw
    exact (hws v hv).down (List.mem_of_mem_tail hl)

theorem from_of_mem_waysTo {arrived : Way → Bool} (fuel : Nat) : ∀ {ws : List Way},
    (∀ w ∈ ws, Way.From s w) → ∀ {w : Way}, w ∈ waysTo arrived fuel ws →
    Way.From s w ∧ arrived w = true := by
  induction fuel with
  | zero =>
    intro ws _ w h
    cases h
  | succ fuel ih =>
    intro ws hws w h
    simp only [waysTo, List.partition_eq_filter_filter] at h
    have hthere : w ∈ ws.filter arrived → Way.From s w ∧ arrived w = true := by
      intro h
      obtain ⟨hmem, ha⟩ := List.mem_filter.1 h
      exact ⟨hws w hmem, ha⟩
    split at h
    · exact hthere h
    · rcases List.mem_append.1 h with h | h
      · exact hthere h
      · have hgoing : ∀ v ∈ ws.filter (not ∘ arrived), Way.From s v := by
          intro v hv
          exact hws v (List.mem_filter.1 hv).1
        exact ih (fun v hv => from_of_mem_spread hgoing hv) h

theorem from_of_mem_start {w : Way} (h : w ∈ [(⟨s, [], 0⟩ : Way)]) : Way.From s w := by
  rw [List.mem_singleton.1 h]
  exact .here

theorem from_of_mem_pop {n : Nat} {w : Way} (h : w ∈ s.pop n) : Way.From s w ∧ w.count = n := by
  obtain ⟨hw, ha⟩ := from_of_mem_waysTo _ (fun _ => from_of_mem_start) h
  exact ⟨hw, by simpa using ha⟩

theorem from_of_mem_popAll {w : Way} (h : w ∈ s.popAll) : Way.From s w ∧ w.top.links = [] := by
  obtain ⟨hw, ha⟩ := from_of_mem_waysTo _ (fun _ => from_of_mem_start) h
  exact ⟨hw, by simpa using ha⟩

/-- The ways down a stack with one piece more are those of the stack below, behind that piece. -/
theorem from_push {i : Nat} {p : Piece} {st : State} {w : Way}
    (hw : Way.From (s.push i (some p) st) w) :
    w = ⟨s.push i (some p) st, [], 0⟩ ∨
      ∃ v, Way.From s v ∧ v.top = w.top ∧ w.pieces = v.pieces ++ [p] := by
  induction hw with
  | here => exact .inl rfl
  | @down w l _ hl ih =>
    rcases ih with rfl | ⟨v, hv, htop, hpieces⟩
    · rw [links_push, List.mem_singleton] at hl
      rw [hl]
      exact .inr ⟨_, .here, rfl, rfl⟩
    · rw [← htop] at hl
      refine .inr ⟨v.down l, hv.down hl, ?_, ?_⟩
      · obtain ⟨link, under⟩ := l
        cases link with
        | none => rfl
        | some q => rfl
      · obtain ⟨link, under⟩ := l
        cases link with
        | none => exact hpieces
        | some q => exact congrArg (q :: ·) hpieces

/-- A group has the end of one of the ways `ws`, and the pieces of ways that end so. -/
def GroupOf (ws : List Way) (gr : Stack × List (List Piece)) : Prop :=
  (∃ w ∈ ws, w.top = gr.1) ∧ ∀ ps ∈ gr.2, ∃ w ∈ ws, w.top.id = gr.1.id ∧ w.pieces = ps

theorem groupOf_of_mem_addToGroup {ws : List Way} {gs : List (Stack × List (List Piece))}
    (hgs : ∀ gr ∈ gs, GroupOf ws gr) {w : Way} (hw : w ∈ ws) :
    ∀ gr ∈ addToGroup gs w, GroupOf ws gr := by
  intro gr hgr
  unfold addToGroup at hgr
  split at hgr
  next k hk =>
    obtain ⟨hlt, hid, _⟩ := List.findIdx?_eq_some_iff_getElem.1 hk
    obtain ⟨m, hm, rfl⟩ := List.getElem_of_mem hgr
    rw [List.getElem_modify]
    rw [List.length_modify] at hm
    have hold := hgs gs[m] (List.getElem_mem hm)
    split
    next hkm =>
      subst hkm
      refine ⟨hold.1, fun ps hps => ?_⟩
      rcases List.mem_append.1 hps with hps | hps
      · exact hold.2 ps hps
      · rw [List.mem_singleton.1 hps]
        exact ⟨w, hw, (beq_iff_eq.1 hid).symm, rfl⟩
    · exact hold
  · rcases List.mem_append.1 hgr with hgr | hgr
    · exact hgs gr hgr
    · rw [List.mem_singleton.1 hgr]
      refine ⟨⟨w, hw, rfl⟩, fun ps hps => ?_⟩
      rw [List.mem_singleton.1 hps]
      exact ⟨w, hw, rfl, rfl⟩

theorem groupOf_of_mem_group {ws : List Way} : ∀ gr ∈ group ws, GroupOf ws gr := by
  have hfold : ∀ (vs : List Way) (gs : List (Stack × List (List Piece))), (∀ v ∈ vs, v ∈ ws) →
      (∀ gr ∈ gs, GroupOf ws gr) → ∀ gr ∈ vs.foldl addToGroup gs, GroupOf ws gr := by
    intro vs
    induction vs with
    | nil =>
      intro gs _ hgs
      exact hgs
    | cons v vs ih =>
      intro gs hvs hgs
      exact ih _ (fun u hu => hvs u (List.mem_cons_of_mem _ hu))
        (groupOf_of_mem_addToGroup hgs (hvs v List.mem_cons_self))
  exact hfold ws [] (fun v hv => hv) fun gr hgr => by cases hgr

/-- What lies `n` pieces down a right stack: right stacks, no further ahead in the text, with sound
pieces above them, one behind the other. -/
theorem Ok.group_pop (h : s.Ok g src names) {n : Nat} {gr : Stack × List (List Piece)}
    (hgr : gr ∈ group (s.pop n)) :
    gr.1.Ok g src names ∧ gr.1.place.offset ≤ s.place.offset ∧ ∀ ps ∈ gr.2,
      (∃ w ∈ s.pop n, w.pieces = ps) ∧ (∀ p ∈ ps, p.Sound g src) ∧
        Piece.Ordered gr.1.place.offset ps s.place.offset := by
  obtain ⟨⟨w, hw, hwt⟩, hall⟩ := groupOf_of_mem_group gr hgr
  have hfrom := (from_of_mem_pop hw).1
  have hok : gr.1.Ok g src names := hwt ▸ h.top hfrom
  refine ⟨hok, hwt ▸ (h.ordered hfrom).le, fun ps hps => ?_⟩
  obtain ⟨v, hv, hid, rfl⟩ := hall ps hps
  have hfrom := (from_of_mem_pop hv).1
  exact ⟨⟨v, hv, rfl⟩, h.pieces hfrom, ((h.top hfrom).eq_of_id_eq hok hid).2 ▸ h.ordered hfrom⟩

/-! ## Completed items -/

theorem LinkOk.of_item {st below : State} {link : Option Piece} (h : LinkOk g st link below)
    {i : Item} (hi : i ∈ st.items) :
    ∃ p, link = some p ∧ (p.extra = true ∧ st = below ∨
      p.extra = false ∧ ∃ x, p.symbol? = some x ∧ st = g.goto below x) := by
  rcases h with rfl | h
  · cases hi
  · exact h

theorem drop_take_of_getElem? {cs : List Nat} {d n x : Nat} (h : n < d)
    (hget : cs[d - n - 1]? = some x) :
    (cs.take d).drop (d - (n + 1)) = x :: (cs.take d).drop (d - n) := by
  obtain ⟨hlen, rfl⟩ := List.getElem?_eq_some_iff.1 hget
  have hlen' : d - (n + 1) < (cs.take d).length := by
    rw [List.length_take]
    omega
  have hsucc : d - (n + 1) + 1 = d - n := by omega
  rw [List.drop_eq_getElem_cons hlen', List.getElem_take, hsucc]
  rfl

/-- On each way down from an item that has read `i.dot` symbols, the pieces passed have the last of
these symbols; and until all are passed, the item with those to come is in the state there. -/
theorem read_of_item (hg : g.Lawful) (hs : s.Ok g src names) {i : Item} (hi : i ∈ s.state.items)
    {p : Production} (hp : g.productions[i.production]? = some p) {w : Way}
    (hw : Way.From s w) : w.count ≤ i.dot →
    (Piece.main w.pieces).map (fun q => q.symbol?.map Symbol.code)
      = (((Tables.codes p).take i.dot).drop (i.dot - w.count)).map some ∧
    (w.count < i.dot → ∃ j ∈ w.top.state.items,
      j.production = i.production ∧ j.dot = i.dot - w.count) := by
  induction hw with
  | here =>
    intro _
    refine ⟨?_, fun _ => ⟨i, hi, rfl, rfl⟩⟩
    rw [List.drop_eq_nil_of_le (by simp only [List.length_take]; omega)]
    rfl
  | @down w l hw hl ih =>
    obtain ⟨link, under⟩ := l
    intro hcount
    have hle : w.count ≤ i.dot := by
      cases link with
      | none => simp only [Way.down] at hcount; omega
      | some q => simp only [Way.down] at hcount; split at hcount <;> omega
    obtain ⟨hread, hitem⟩ := ih hle
    by_cases hlt : w.count < i.dot
    · obtain ⟨j, hj, hprod, hdot⟩ := hitem hlt
      obtain ⟨q, hq, hcase⟩ := ((hs.top hw).link hl).of_item hj
      cases hq
      rcases hcase with ⟨hextra, hstate⟩ | ⟨hmain, x, hx, hstate⟩
      · simp only [Way.down, hextra, if_true]
        refine ⟨?_, fun _ => ⟨j, ?_, hprod, hdot⟩⟩
        · rw [Piece.main_cons_of_extra _ hextra]
          exact hread
        · rw [← hstate]
          exact hj
      · simp only [Way.down, hmain, Bool.false_eq_true, if_false]
        rw [hstate] at hj
        obtain ⟨p', hp', hlast, hbefore⟩ :=
          Tables.read_of_mem_goto hg ((hs.top hw).under hl).fits hj
        rw [hprod, hp] at hp'
        cases hp'
        refine ⟨?_, fun hlt' => ?_⟩
        · rw [Piece.main_cons_of_main _ hmain, List.map_cons, hx, hread]
          rw [hdot] at hlast
          rw [drop_take_of_getElem? hlt hlast]
          rfl
        · rcases hbefore with ⟨hone, _⟩ | ⟨k, hk, hkp, hkd⟩
          · omega
          · exact ⟨k, hk, hkp.trans hprod, by omega⟩
    · have hall : w.count = i.dot := by omega
      cases link with
      | none => simp only [Way.down] at hcount; omega
      | some q =>
        cases hextra : q.extra with
        | false => simp only [Way.down, hextra, Bool.false_eq_true, if_false] at hcount; omega
        | true =>
          simp only [Way.down, hextra, if_true]
          refine ⟨?_, fun h => absurd h hlt⟩
          rw [Piece.main_cons_of_extra _ hextra]
          exact hread

/-- What is popped for a completed item is what its production calls for. -/
theorem read_of_complete (hg : g.Lawful) (hs : s.Ok g src names) {i : Item} (hi : i ∈ s.state.items)
    (hrest : i.rest = []) {p : Production} (hp : g.productions[i.production]? = some p) {w : Way}
    (hw : w ∈ s.pop p.steps.length) : Piece.Follows p.steps w.pieces := by
  obtain ⟨hfrom, hcount⟩ := from_of_mem_pop hw
  obtain ⟨p', hp', hle, hdrop⟩ := hs.fits i hi
  rw [hp] at hp'
  cases hp'
  have hdot : i.dot = p.steps.length := by
    rw [hrest] at hdrop
    have := congrArg List.length hdrop
    simp only [List.length_nil, List.length_drop, Tables.codes, List.length_map] at this
    omega
  have hread := (read_of_item hg hs hi hp hfrom (by omega)).1
  rw [hdot, hcount, Nat.sub_self, List.drop_zero, List.take_of_length_le (by simp [Tables.codes])]
    at hread
  -- Symbols with the same numbers are the same.
  have hinj : ∀ (qs : List Piece) (ss : List Step),
      qs.map (fun q => q.symbol?.map Symbol.code) = (ss.map (·.symbol.code)).map some →
      qs.map Piece.symbol? = ss.map fun s => some s.symbol := by
    intro qs
    induction qs with
    | nil =>
      intro ss h
      cases ss with
      | nil => rfl
      | cons s ss => cases h
    | cons q qs ih =>
      intro ss h
      cases ss with
      | nil => cases h
      | cons s ss =>
        simp only [List.map_cons, List.cons.injEq] at h
        obtain ⟨x, hx, hcode⟩ := Option.map_eq_some_iff.1 h.1
        rw [List.map_cons, List.map_cons, ih ss h.2, hx, Symbol.code_injective hcode]
  exact hinj _ _ hread

end Stack
end Go
end RouteScribe
