import RouteScribe.Go.Search
import RouteScribe.Proofs.Go.Track

/-!
# RouteScribe.Proofs.Go.Straight

The search for a parse where it never has a choice. It has one branch then, and that is the track of
the tokens read.

* `Stack.Tracks`: a stack with one way down.
* `reduce_track`, `OnTrack.advanceOn`: what a reduction and a token do.
* `OnTrack.round`: one round reads one token.
* `OnTrack.lastRound`: the last one finds the parse.
-/

namespace RouteScribe
namespace Go

/-- The place behind the last piece, if the first begins at `first`. -/
def Track.place (first : Cursor) : Track Piece → Cursor
  | [] => first
  | e :: _ => e.2.stop

/-- How a parse makes phrases. -/
def Piece.maker : Maker Piece where
  extra := Piece.extra
  make n p ps := compose (.symbol p.head) n p.steps p.favour default ps

/-- The piece that a token is; comments are extras. -/
def Leaf.piece (l : Leaf) : Piece := .leaf { l with extra := l.token = some .comment }

variable {g : Tables} {first : Cursor}

namespace Stack

/-- The stack has one way down, and these are the pieces on it, from the place `first` on. -/
inductive Tracks (g : Tables) (first : Cursor) : Stack → Track Piece → Prop
  | bottom : Tracks g first (.bottom g.start first) []
  | push {below : Stack} {es : Track Piece} (id : Nat) (p : Piece) (s : State) :
      Tracks g first below es → Tracks g first (below.push id (some p) s) ((s, p) :: es)

variable {s : Stack} {es : Track Piece}

theorem Tracks.state_eq (h : s.Tracks g first es) : s.state = Track.state g es := by
  cases h with
  | bottom => rfl
  | push id p st h => rfl

theorem Tracks.place_eq (h : s.Tracks g first es) : s.place = Track.place first es := by
  cases h with
  | bottom => rfl
  | push id p st h => rfl

theorem Tracks.depth_eq (h : s.Tracks g first es) : s.depth = es.length + 1 := by
  induction h with
  | bottom => rfl
  | push id p st h ih => exact congrArg (· + 1) ih

/-! ## Ways down -/

variable {arrived : Way → Bool} {w : Way}

theorem waysTo_of_arrived (h : arrived w = true) (fuel : Nat) :
    waysTo arrived (fuel + 1) [w] = [w] := by
  rw [waysTo, List.partition_eq_filter_filter, List.filter_cons_of_pos h,
    List.filter_cons_of_neg (by simp [h])]
  rfl

theorem waysTo_push {below : Stack} {ps : List Piece} {count : Nat} (id : Nat) (p : Piece)
    (st : State) (h : arrived ⟨below.push id (some p) st, ps, count⟩ = false) (fuel : Nat) :
    waysTo arrived (fuel + 1) [⟨below.push id (some p) st, ps, count⟩]
      = waysTo arrived fuel [⟨below, p :: ps, if p.extra then count else count + 1⟩] := by
  rw [waysTo, List.partition_eq_filter_filter, List.filter_cons_of_neg (by simp [h]),
    List.filter_cons_of_pos (by simp [h])]
  rfl

theorem Tracks.waysTo_count (h : s.Tracks g first es) : ∀ {n k fuel : Nat} {ps rest : List Piece}
    {below : Track Piece}, Track.take? Piece.maker n es ps = some (below, rest) →
    es.length < fuel → ∃ t : Stack, t.Tracks g first below ∧
      waysTo (·.count == k + n) fuel [⟨s, ps, k⟩] = [⟨t, rest, k + n⟩] := by
  induction h with
  | bottom =>
    intro n k fuel ps rest below htake hfuel
    obtain ⟨fuel, rfl⟩ := Nat.exists_eq_add_of_lt hfuel
    cases n with
    | zero =>
      cases htake
      exact ⟨_, .bottom, waysTo_of_arrived (by simp) _⟩
    | succ n => cases htake
  | @push below₀ es id p st h ih =>
    intro n k fuel ps rest below htake hfuel
    obtain ⟨fuel, rfl⟩ := Nat.exists_eq_add_of_lt hfuel
    cases n with
    | zero =>
      cases htake
      exact ⟨_, .push id p st h, waysTo_of_arrived (by simp) _⟩
    | succ n =>
      rw [Track.take?] at htake
      rw [waysTo_push id p st (by simp)]
      have hfuel' : es.length < (es.length + 1) + fuel := by omega
      cases hextra : p.extra with
      | true =>
        have hm : Piece.maker.extra p = true := hextra
        rw [if_pos hm] at htake
        exact ih htake hfuel'
      | false =>
        have hm : ¬ Piece.maker.extra p = true := by simp [Piece.maker, hextra]
        rw [if_neg hm] at htake
        obtain ⟨t, ht, hways⟩ := ih htake hfuel' (k := k + 1)
        rw [Nat.add_assoc, Nat.add_comm 1 n] at hways
        exact ⟨t, ht, hways⟩

theorem Tracks.group_pop (h : s.Tracks g first es) {n : Nat} {ps : List Piece} {below : Track Piece}
    (htake : Track.take? Piece.maker n es [] = some (below, ps)) :
    ∃ t : Stack, t.Tracks g first below ∧ group (s.pop n) = [(t, [ps])] := by
  have hfuel : es.length < s.depth + 1 := by
    rw [h.depth_eq]
    omega
  obtain ⟨t, ht, hways⟩ := h.waysTo_count htake hfuel (k := 0)
  rw [Nat.zero_add] at hways
  exact ⟨t, ht, congrArg group hways⟩

theorem Tracks.waysTo_bottom (h : s.Tracks g first es) : ∀ (k fuel : Nat) (ps : List Piece),
    es.length < fuel → ∃ t k', waysTo (·.top.links.isEmpty) fuel [⟨s, ps, k⟩]
      = [⟨t, (es.map Prod.snd).reverse ++ ps, k'⟩] := by
  induction h with
  | bottom =>
    intro k fuel ps hfuel
    obtain ⟨fuel, rfl⟩ := Nat.exists_eq_add_of_lt hfuel
    exact ⟨_, _, waysTo_of_arrived rfl _⟩
  | @push below es id p st h ih =>
    intro k fuel ps hfuel
    obtain ⟨fuel, rfl⟩ := Nat.exists_eq_add_of_lt hfuel
    rw [waysTo_push id p st rfl]
    obtain ⟨t, k', hways⟩ := ih _ (es.length + 1 + fuel) (p :: ps) (by omega)
    refine ⟨t, k', ?_⟩
    simp only [List.map_cons, List.reverse_cons, List.append_assoc]
    exact hways

theorem Tracks.group_popAll (h : s.Tracks g first es) :
    ∃ t, group s.popAll = [(t, [(es.map Prod.snd).reverse])] := by
  have hfuel : es.length < s.depth + 1 := by
    rw [h.depth_eq]
    omega
  obtain ⟨t, k, hways⟩ := h.waysTo_bottom 0 _ [] hfuel
  rw [List.append_nil] at hways
  exact ⟨t, congrArg group hways⟩

end Stack

theorem Piece.compose_here (l : Label) (n : Nat) (ss : List Step) (d : Int) (c c' : Cursor)
    {parts : List Piece} (h : parts ≠ []) :
    compose l n ss d c parts = compose l n ss d c' parts := by
  cases parts with
  | nil => exact absurd rfl h
  | cons p ps => simp [compose, List.getLast?_cons]

namespace Search

variable {s : Search} {es es' : Track Piece} {b : Branch}

/-- The search has one branch, which goes on, and that is the track. -/
structure OnTrack (g : Tables) (first : Cursor) (s : Search) (es : Track Piece) : Prop where
  best : s.best = none
  branch : ∃ b, s.branches = [b] ∧ b.status = .active ∧ b.top.Tracks g first es

/-- The search has a branch before and the branch `b`. -/
structure Pair (s : Search) (a b : Branch) : Prop where
  best : s.best = none
  branches : s.branches = [a, b]

theorem Pair.push {a : Branch} (h : s.Pair a b) (p : Piece) (st : State) :
    (s.push 1 (some p) st).Pair a { b with top := b.top.push s.fresh (some p) st } := by
  refine ⟨h.best, ?_⟩
  simp only [Search.push, modify, h.branches]
  rfl

theorem Pair.pushAll {a : Branch} (st : State) (ps : List Piece) : ∀ {s : Search} {b : Branch}
    {es : Track Piece}, s.Pair a b → b.top.Tracks g first es → ∃ top : Stack,
      (s.pushAll 1 ps st).Pair a { b with top } ∧ top.Tracks g first (Track.stay st es ps) := by
  induction ps with
  | nil =>
    intro s b es h ht
    exact ⟨_, h, ht⟩
  | cons p ps ih =>
    intro s b es h ht
    have hrest := ih (h.push p st) (.push s.fresh p st ht)
    exact hrest

theorem reduceTo_track {a : Branch} {n : Nat} {p : Production} {ps : List Piece}
    (h : s.Pair a b) (ht : b.top.Tracks g first es) (hparts : (Piece.splitExtras ps).1 ≠ []) :
    ∃ top s', reduceTo g 0 n p (s, 0) 1 [ps] = (s', 0) ∧ s'.Pair a { b with top } ∧
      top.Tracks g first (Track.stay (g.goto (Track.state g es) p.head)
        ((g.goto (Track.state g es) p.head, Piece.maker.make n p (Piece.splitExtras ps).1) :: es)
        (Piece.splitExtras ps).2) := by
  have hmake : Piece.compose (.symbol p.head) n p.steps p.favour b.top.place (Piece.splitExtras ps).1
      = Piece.maker.make n p (Piece.splitExtras ps).1 := Piece.compose_here _ _ _ _ _ _ hparts
  have hb : s.branches[1]? = some b := by rw [h.branches]; rfl
  have hlimit : ¬ maxBranches + branchOverflow < 1 - 0 := by decide
  rw [reduceTo]
  simp only [if_neg hlimit, Nat.sub_zero, hb, chooseParts, List.foldl_nil, ht.state_eq, hmake]
  obtain ⟨top, hpair, htop⟩ := (h.push (Piece.maker.make n p (Piece.splitExtras ps).1)
    (g.goto (Track.state g es) p.head)).pushAll (g := g)
    (g.goto (Track.state g es) p.head) (Piece.splitExtras ps).2
    (.push s.fresh (Piece.maker.make n p (Piece.splitExtras ps).1)
      (g.goto (Track.state g es) p.head) ht)
  exact ⟨top, _, rfl, hpair, htop⟩

theorem reduce_track (h : OnTrack g first s es) {n : Nat}
    (hreduce : Track.reduce? Piece.maker g n es = some es') :
    ∃ s', reduce g s 0 n = (s', some 1) ∧ OnTrack g first (s'.replace 1 0) es' := by
  obtain ⟨b, hb, hactive, ht⟩ := h.branch
  unfold Track.reduce? at hreduce
  split at hreduce
  · cases hreduce
  next p hp =>
    obtain ⟨⟨below, ps⟩, htake, hparts⟩ := Option.bind_eq_some_iff.1 hreduce
    obtain ⟨t, htracks, hgroup⟩ := ht.group_pop htake
    simp only at hparts
    split at hparts
    · cases hparts
    next hne =>
      cases hparts
      have hsplit : Track.splitExtras Piece.maker ps = Piece.splitExtras ps := rfl
      rw [hsplit] at hne ⊢
      have hpair : Pair { s with branches := s.branches ++ [b.fork t] } b (b.fork t) :=
        ⟨h.best, by rw [hb]; rfl⟩
      obtain ⟨top, s', hto, hpair', htop⟩ := reduceTo_track (n := n) (p := p) hpair htracks
        (fun hnil => hne (List.isEmpty_iff.2 hnil))
      refine ⟨s', ?_, ?_, ?_⟩
      · have hb0 : s.branches[0]? = some b := by rw [hb]; rfl
        have hsize : s.size = 1 := by rw [size, hb]; rfl
        have hsize' : s'.size = 2 := by rw [size, hpair'.branches]; rfl
        unfold reduce
        simp only [hb0, hp, hgroup, List.map_cons, List.map_nil, List.zipIdx_cons, List.zipIdx_nil,
          List.foldl_cons, List.foldl_nil, hsize, Nat.add_zero, hto, hsize']
        rfl
      · rw [replace, hpair'.branches]
        exact hpair'.best
      · rw [replace, hpair'.branches]
        exact ⟨_, rfl, rfl, htop⟩

/-! ## Tokens -/

theorem perform_filter (version : Nat) (st : State) (next : Leaf) (as : List Action) :
    ∀ (s : Search) (last : Option Nat) (any : Bool),
      perform g version st next (as.filter (· ≠ .shift true)) s last any
        = perform g version st next as s last any := by
  induction as with
  | nil => exact fun _ _ _ => rfl
  | cons a as ih =>
    intro s last any
    cases a with
    | shift r =>
      cases r with
      | true => exact ih s last any
      | false => rfl
    | reduce n => exact ih _ _ _
    | accept => rfl

theorem only?_ne_repeat (st : State) (t : Token) : Track.only? g st t ≠ some (.shift true) := by
  unfold Track.only?
  split
  next a h =>
    rintro ⟨⟩
    have hmem : Action.shift true ∈ (g.actions st t).filter (· ≠ .shift true) := by
      rw [h]
      exact List.mem_cons_self
    simpa using (List.mem_filter.1 hmem).2
  · exact nofun

theorem only?_lost (t : Token) : Track.only? g .lost t = none := rfl

variable {t : Token} {next : Leaf} {st : State} {a : Action}

theorem perform_only (honly : Track.only? g st t = some a) (version : Nat) (s : Search) :
    perform g version st next (g.actions st t) s none false
      = perform g version st next [a] s none false := by
  have hactions : (g.actions st t).filter (· ≠ .shift true) = [a] := by
    unfold Track.only? at honly
    split at honly
    next h => rw [h, Option.some.inj honly]
    · cases honly
  rw [← hactions, perform_filter]

theorem advanceOn_only (hb : s.branches[0]? = some b) (hst : b.top.state = st)
    (hnext : next.token = some t) (hne : t ≠ .comment) (honly : Track.only? g st t = some a)
    {o : Outcome} (hperform : perform g 0 st next [a] s none false = o) (fuel : Nat) :
    (∀ s', o = .done s' → advanceOn g (fuel + 1) s 0 next = s') ∧
      ∀ s' r any, o = .reduced s' (some r) any →
        advanceOn g (fuel + 1) s 0 next = advanceOn g fuel (s'.replace r 0) 0 next := by
  have hlost : st ≠ .lost := by
    rintro rfl
    rw [only?_lost] at honly
    cases honly
  have hcomment : ¬ some t = some Token.comment := fun h => hne (Option.some.inj h)
  rw [← perform_only honly] at hperform
  rw [advanceOn]
  simp only [hb, hst, hnext, if_neg hcomment, if_neg hlost, Option.elim_some, hperform]
  constructor
  · rintro s' rfl
    rfl
  · rintro s' r any rfl
    rfl

theorem OnTrack.settle (hnext : next.token = some t) (hne : t ≠ .comment) (k : Nat) :
    ∀ {s : Search} {es es' : Track Piece} {fuel : Nat}, OnTrack g first s es → k ≤ fuel →
      Track.settle? Piece.maker g t k es = some (a, es') → ∃ s' fuel', OnTrack g first s' es' ∧
        Track.only? g (Track.state g es') t = some a ∧
        advanceOn g fuel s 0 next = advanceOn g (fuel' + 1) s' 0 next := by
  induction k with
  | zero =>
    intro s es es' fuel _ _ hsettle
    cases hsettle
  | succ k ih =>
    intro s es es' fuel h hfuel hsettle
    obtain ⟨fuel, rfl⟩ : ∃ n, fuel = n + 1 := ⟨fuel - 1, by omega⟩
    obtain ⟨b, hb, -, ht⟩ := h.branch
    have hb0 : s.branches[0]? = some b := by rw [hb]; rfl
    rw [Track.settle?] at hsettle
    split at hsettle
    next n honly =>
      obtain ⟨es₁, hreduce, hrest⟩ := Option.bind_eq_some_iff.1 hsettle
      obtain ⟨s₁, hs₁, h₁⟩ := reduce_track h hreduce
      obtain ⟨s', fuel', h', honly', heq⟩ := ih h₁ (Nat.le_of_succ_le_succ hfuel) hrest
      refine ⟨s', fuel', h', honly', ?_⟩
      have hperform : perform g 0 (Track.state g es) next [.reduce n] s none false
          = .reduced s₁ (some 1) true := by
        rw [perform, hs₁]
        rfl
      rw [(advanceOn_only hb0 ht.state_eq hnext hne honly hperform fuel).2 s₁ 1 true rfl]
      exact heq
    next a' _ honly =>
      cases hsettle
      exact ⟨s, fuel, h, honly, rfl⟩
    · cases hsettle

theorem OnTrack.push (h : OnTrack g first s es) (p : Piece) (st : State) :
    OnTrack g first (s.push 0 (some p) st) ((st, p) :: es) := by
  obtain ⟨b, hb, hactive, ht⟩ := h.branch
  refine ⟨h.best, { b with top := b.top.push s.fresh (some p) st }, ?_, hactive, .push _ p st ht⟩
  simp only [Search.push, modify, hb]
  rfl

theorem OnTrack.advanceOn (h : OnTrack g first s es) (hnext : next.token = some t)
    (hread : Track.read? Piece.maker g es t next.piece = some es') {fuel : Nat}
    (hfuel : Track.turns < fuel) : OnTrack g first (advanceOn g fuel s 0 next) es' := by
  have hpiece : next.piece = .leaf { next with extra := t = .comment } := by
    simp only [Leaf.piece, hnext, Option.some.injEq]
  rw [hpiece] at hread
  unfold Track.read? at hread
  split at hread
  next hcomment =>
    obtain ⟨fuel, rfl⟩ : ∃ n, fuel = n + 1 := ⟨fuel - 1, by omega⟩
    obtain ⟨b, hb, -, ht⟩ := h.branch
    have hb0 : s.branches[0]? = some b := by rw [hb]; rfl
    cases hread
    have hnext' : next.token = some .comment := hnext.trans (congrArg some hcomment)
    rw [Search.advanceOn]
    simp only [hb0, if_pos hnext', ht.state_eq, hcomment, decide_true]
    exact h.push _ _
  next hne =>
    split at hread
    next r es₁ hsettle =>
      obtain ⟨s', fuel', h', honly, heq⟩ := h.settle hnext hne _ (Nat.le_of_lt hfuel) hsettle
      obtain ⟨b, hb, -, ht⟩ := h'.branch
      have hb0 : s'.branches[0]? = some b := by rw [hb]; rfl
      cases hread
      have hr : r = false := by
        cases r with
        | false => rfl
        | true => exact absurd honly (only?_ne_repeat _ _)
      subst hr
      have hperform : perform g 0 (Track.state g es₁) next [.shift false] s' none false
          = .done (s'.push 0 (some (.leaf { next with extra := false }))
            (g.goto (Track.state g es₁) (.token t))) := by
        rw [perform, hnext]
      rw [heq, (advanceOn_only hb0 ht.state_eq hnext hne honly hperform fuel').1 _ rfl]
      simp only [hne, decide_false]
      exact h'.push _ _
    · cases hread

/-! ## Rounds -/

variable {p : Cursor} {last : Nat}

theorem OnTrack.size_eq (h : OnTrack g first s es) : s.size = 1 := by
  obtain ⟨b, hb, -⟩ := h.branch
  rw [size, hb]
  rfl

theorem OnTrack.advance (h : OnTrack g first s es) (hplace : Track.place first es = p)
    (hnext : read g (Track.state g es) p = next) (ht : next.token = some t)
    (hread : Track.read? Piece.maker g es t next.piece = some es') :
    OnTrack g first (advance g s 0) es' := by
  obtain ⟨b, hb, -, htracks⟩ := h.branch
  have hb0 : s.branches[0]? = some b := by rw [hb]; rfl
  have hfuel : Track.turns < b.top.depth + 1000 := by
    rw [Track.turns]
    omega
  rw [Search.advance, hb0]
  simp only [htracks.state_eq, htracks.place_eq, hplace, hnext]
  exact h.advanceOn ht hread hfuel

theorem compareWith_first (came : Branch.Standing) (fuel : Nat) (s : Search) :
    compareWith came (fuel + 1) s 0 0 = (s, some 0) := by
  rw [compareWith, if_pos (Nat.le_refl 0)]

/-- Nothing is to be put in order where one branch goes on. -/
theorem OnTrack.condense (h : OnTrack g first s es) : (condense g s).1 = s := by
  obtain ⟨b, hb, hactive, -⟩ := h.branch
  have hb0 : s.branches[0]? = some b := by rw [hb]; rfl
  have hb1 : s.branches[1]? = none := by rw [hb]; rfl
  have hhalted : b.isHalted = false := by rw [Branch.isHalted, hactive]
  have hsift : ∀ fuel, ∃ least, sift (fuel + 2) s 0 none = (s, least) := by
    intro fuel
    have hend : ∀ least, sift (fuel + 1) s 1 least = (s, least) := by
      intro least
      rw [sift, hb1]
    rw [sift]
    simp only [hb0, hhalted, Bool.false_eq_true, if_false, compareWith_first, Nat.zero_add, hend]
    exact ⟨_, rfl⟩
  obtain ⟨least, hsift⟩ := hsift (4 * s.size * s.size + 6)
  have htake : { s with branches := s.branches.take maxBranches } = s := by rw [hb]; cases s; cases hb; rfl
  rw [Search.condense, hsift]
  simp only [htake, h.size_eq]
  rw [wake]
  simp only [hb0, hactive]
  rw [wake]
  simp

theorem place_of_read? {q : Piece} (h : Track.read? Piece.maker g es t q = some es') :
    Track.place first es' = q.stop := by
  unfold Track.read? at h
  split at h
  · cases h
    rfl
  · split at h
    · cases h
      rfl
    · cases h

theorem OnTrack.round (h : OnTrack g first s es) (hplace : Track.place first es = p)
    (hnext : read g (Track.state g es) p = next) (ht : next.token = some t)
    (hread : Track.read? Piece.maker g es t next.piece = some es')
    (hlast : last < next.stop.offset) (fuel : Nat) : ∃ s', OnTrack g first s' es' ∧
      rounds g (fuel + 1) s last = rounds g fuel s' next.stop.offset := by
  have h' := h.advance hplace hnext ht hread
  refine ⟨_, h', ?_⟩
  obtain ⟨b, hb, hactive, -⟩ := h.branch
  obtain ⟨b', hb', -, ht'⟩ := h'.branch
  have hb0 : s.branches[0]? = some b := by rw [hb]; rfl
  have hb0' : (Search.advance g s 0).branches[0]? = some b' := by rw [hb']; rfl
  have hstop : b'.top.place = next.stop := by
    rw [ht'.place_eq]
    exact place_of_read? hread
  have hto : advanceTo g 0 reduceFuel s last = (Search.advance g s 0, next.stop.offset) := by
    rw [reduceFuel, advanceTo]
    simp only [hb0, Branch.isActive, hactive, Bool.not_true, Bool.false_eq_true, if_false, hb0',
      Option.map_some, Option.getD_some, hstop, hlast, decide_true, Bool.true_or, if_true]
  have hall : advanceAll g 64 0 s last = (Search.advance g s 0, next.stop.offset) := by
    rw [advanceAll, h.size_eq, if_neg (by decide), hto]
    simp only
    rw [advanceAll, h'.size_eq, if_pos (by decide)]
  obtain ⟨least, hcondense⟩ : ∃ least, Search.condense g (Search.advance g s 0)
      = (Search.advance g s 0, least) := ⟨_, Prod.ext h'.condense rfl⟩
  rw [Search.rounds, hall]
  simp only [hcondense, h'.best, hb', List.isEmpty_cons, Bool.false_eq_true, if_false]

/-! ## The end of the text -/

/-- A search that has found a parse, and nothing goes on. -/
structure Over (s : Search) (r : Piece) : Prop where
  best : s.best = some r
  branch : ∃ b, s.branches = [b] ∧ b.status = .halted

theorem OnTrack.accept (h : OnTrack g first s es) {r : Piece}
    (hroot : root? g ((es.map Prod.snd).reverse ++ [.leaf next]) = some r) :
    Over (accept g s 0 [.leaf next]) r := by
  obtain ⟨b, hb, -, ht⟩ := h.branch
  have hb0 : s.branches[0]? = some b := by rw [hb]; rfl
  obtain ⟨t, hgroup⟩ := (Stack.Tracks.push s.fresh (.leaf next) g.start ht).group_popAll
  rw [List.map_cons, List.reverse_cons] at hgroup
  rw [Search.accept, hb0]
  simp only [Search.finish, hgroup, List.flatMap_cons, List.flatMap_nil, List.append_nil,
    List.filterMap_cons, hroot, List.filterMap_nil, List.foldl_cons, List.foldl_nil]
  constructor
  · simp only [modify, offer, h.best]
  · simp only [modify, offer, hb]
    exact ⟨_, rfl, rfl⟩

theorem Over.condense {r : Piece} (h : Over s r) :
    ∃ s', Search.condense g s = (s', none) ∧ s'.best = some r := by
  obtain ⟨hbest, b, hb, hhalted⟩ := h
  have hb0 : s.branches[0]? = some b := by rw [hb]; rfl
  have hdrop : (s.drop 0).branches = [] := by rw [drop, hb]; rfl
  have hsift : ∀ fuel, sift (fuel + 2) s 0 none = (s.drop 0, none) := by
    intro fuel
    rw [sift]
    simp only [hb0, Branch.isHalted, hhalted, if_true]
    rw [sift, hdrop]
    rfl
  have htake : { s.drop 0 with branches := (s.drop 0).branches.take maxBranches } = s.drop 0 := by
    rw [hdrop]
    exact congrArg (fun bs => { s with branches := bs }) hdrop.symm
  refine ⟨s.drop 0, ?_, hbest⟩
  rw [Search.condense, hsift (4 * s.size * s.size + 6)]
  have hsize : (s.drop 0).size = 0 := by rw [size, hdrop]; rfl
  have hwake : wake g (2 * (s.drop 0).size + 2) (s.drop 0).size (s.drop 0) 0 false none
      = (s.drop 0, none) := by
    rw [hsize]
    rfl
  simp only [htake]
  exact hwake

theorem OnTrack.lastRound (h : OnTrack g first s es) (hplace : Track.place first es = p)
    (hnext : read g (Track.state g es) p = next) (ht : next.token = some .eof)
    (hfinish : Track.finish? Piece.maker g es = some es') {r : Piece}
    (hroot : root? g ((es'.map Prod.snd).reverse ++ [.leaf next]) = some r) (last fuel : Nat) :
    rounds g (fuel + 1) s last = some r := by
  obtain ⟨b, hb, hactive, htracks⟩ := h.branch
  have hb0 : s.branches[0]? = some b := by rw [hb]; rfl
  have hover : Over (Search.advance g s 0) r := by
    unfold Track.finish? at hfinish
    split at hfinish
    next es₁ hsettle =>
      cases hfinish
      have hfuel : Track.turns ≤ b.top.depth + 1000 := by
        rw [Track.turns]
        omega
      obtain ⟨s', fuel', h', honly, heq⟩ := h.settle ht (by decide) _ hfuel hsettle
      obtain ⟨b', hb', -, ht'⟩ := h'.branch
      have hb0' : s'.branches[0]? = some b' := by rw [hb']; rfl
      have hadvance : Search.advance g s 0 = Search.accept g s' 0 [.leaf next] := by
        rw [Search.advance, hb0]
        simp only [htracks.state_eq, htracks.place_eq, hplace, hnext, heq]
        exact (advanceOn_only hb0' ht'.state_eq ht (by decide) honly rfl fuel').1 _ rfl
      rw [hadvance]
      exact h'.accept hroot
    · cases hfinish
  obtain ⟨hbest, b', hb', hhalted⟩ := hover
  have hb0' : (Search.advance g s 0).branches[0]? = some b' := by rw [hb']; rfl
  have hto : ∃ place, advanceTo g 0 reduceFuel s last = (Search.advance g s 0, place) := by
    rw [reduceFuel, advanceTo]
    simp only [hb0, Branch.isActive, hactive, Bool.not_true, Bool.false_eq_true, if_false]
    split
    · exact ⟨_, rfl⟩
    · rw [advanceTo]
      simp only [hb0', Branch.isActive, hhalted, Bool.not_false, if_true]
      exact ⟨_, rfl⟩
  obtain ⟨place, hto⟩ := hto
  have hsize : (Search.advance g s 0).size = 1 := by rw [size, hb']; rfl
  have hall : advanceAll g 64 0 s last = (Search.advance g s 0, place) := by
    rw [advanceAll, h.size_eq, if_neg (by decide), hto]
    simp only
    rw [advanceAll, hsize, if_pos (by decide)]
  obtain ⟨s', hcondense, hbest'⟩ := Over.condense (g := g) ⟨hbest, b', hb', hhalted⟩
  rw [Search.rounds, hall]
  simp only [hcondense, hbest', Option.all_none, if_true]

end Search

end Go
end RouteScribe
