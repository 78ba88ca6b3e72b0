import Mathlib.Data.List.InsertIdx
import RouteScribe.Go.Search
import RouteScribe.Proofs.Go.Branch

/-!
# RouteScribe.Proofs.Go.Search

The invariant of the search: all branches are right. Pushing, joining and reducing keep it; a
reduction puts a phrase on the stack that is made of what its production calls for, and leaves the
branch no further ahead in the text.

* `Search.Ok`: the invariant. A step may add names of stacks; `Grown` says that it keeps the rest.
* `Search.spots`: how far the branches have come, and which of them wait.
* `ok_modify`, `ok_push`, `ok_join?`, `grown_reduce`: the steps that all others are made of.
-/

namespace RouteScribe
namespace Go

/-- The piece is a sound parse of a file, or nothing but skipped text. -/
structure Piece.Whole (g : Tables) (src : List Char) (r : Piece) : Prop where
  sound : r.Sound g src
  label : r.symbol? = some (.phrase .sourceFile) ∨ r.isError = true ∧ 0 < r.cost

open Stack (Name)

/-- The stack of a branch is right, and so is the token that it waits on, which is still to come. -/
structure Branch.Ok (g : Tables) (src : List Char) (names : List Name) (b : Branch) : Prop where
  top : b.top.Ok g src names
  next : ∀ l, b.status = .paused l → l.Sound src ∧ b.top.place.offset ≤ l.start.offset

section Branch

variable {g : Tables} {src : List Char} {names : List Name} {a b : Branch}

theorem Branch.Ok.mono {names' : List Name} (hn : names <+: names') (h : b.Ok g src names) :
    b.Ok g src names' := ⟨h.top.mono hn, h.next⟩

theorem Branch.ok_join (ha : a.Ok g src names) (hb : b.Ok g src names) (h : a.meets b = true) :
    (a.join b).Ok g src names ∧ (a.join b).top.place = a.top.place := by
  simp only [Branch.meets, Bool.and_eq_true] at h
  obtain ⟨hok, _, hplace⟩ := Stack.ok_join ha.top hb.top h.2
  refine ⟨⟨hok, fun l hl => ?_⟩, hplace⟩
  have hplace : (a.join b).top.place = a.top.place := hplace
  rw [hplace]
  exact ha.next l hl

theorem Branch.ok_fork {t : Stack} (h : t.Ok g src names) : (b.fork t).Ok g src names :=
  ⟨h, fun l hl => by cases hl⟩

end Branch

namespace Search

/-- All branches of a search are right, and so is its best parse. -/
structure Ok (g : Tables) (src : List Char) (names : List Name) (s : Search) : Prop where
  fresh : s.fresh = names.length
  branches : ∀ b ∈ s.branches, b.Ok g src names
  best : ∀ r, s.best = some r → r.Whole g src

/-- The search is right with these names of stacks and perhaps some more. -/
def Grown (g : Tables) (src : List Char) (names : List Name) (s : Search) : Prop :=
  ∃ names', names <+: names' ∧ s.Ok g src names'

variable {g : Tables} {src : List Char} {names : List Name} {s : Search}

theorem Ok.grown (h : s.Ok g src names) : Grown g src names s := ⟨names, List.prefix_rfl, h⟩

theorem Grown.trans {names' : List Name} (hn : names <+: names') (h : Grown g src names' s) :
    Grown g src names s := by
  obtain ⟨names'', hn', hok⟩ := h
  exact ⟨names'', hn.trans hn', hok⟩

theorem Ok.branch (h : s.Ok g src names) {i : Nat} {b : Branch} (hb : s.branches[i]? = some b) :
    b.Ok g src names := h.branches b (List.mem_of_getElem? hb)

theorem Ok.withBranches (h : s.Ok g src names) {bs : List Branch}
    (hbs : ∀ b ∈ bs, b.Ok g src names) : Ok g src names { s with branches := bs } :=
  ⟨h.fresh, hbs, h.best⟩

theorem ok_modify (h : s.Ok g src names) {i : Nat} {f : Branch → Branch}
    (hf : ∀ b, s.branches[i]? = some b → (f b).Ok g src names) :
    (s.modify i f).Ok g src names := by
  refine h.withBranches fun b hb => ?_
  obtain ⟨j, hj, rfl⟩ := List.getElem_of_mem hb
  rw [List.length_modify] at hj
  rw [List.getElem_modify]
  split
  next hij =>
    subst hij
    exact hf _ (List.getElem?_eq_getElem hj)
  · exact h.branches _ (List.getElem_mem hj)

theorem ok_drop (h : s.Ok g src names) (i : Nat) : (s.drop i).Ok g src names :=
  h.withBranches fun b hb => h.branches b (List.mem_of_mem_eraseIdx hb)

theorem ok_take (h : s.Ok g src names) (n : Nat) :
    Ok g src names { s with branches := s.branches.take n } :=
  h.withBranches fun b hb => h.branches b (List.mem_of_mem_take hb)

theorem ok_append (h : s.Ok g src names) {bs : List Branch} (hbs : ∀ b ∈ bs, b.Ok g src names) :
    Ok g src names { s with branches := s.branches ++ bs } := by
  refine h.withBranches fun b hb => ?_
  rcases List.mem_append.1 hb with hb | hb
  · exact h.branches b hb
  · exact hbs b hb

theorem Ok.named (h : s.Ok g src names) (x : Name) :
    Ok g src (names ++ [x]) { s with fresh := s.fresh + 1 } := by
  refine ⟨?_, fun b hb => (h.branches b hb).mono (List.prefix_append _ _), h.best⟩
  rw [List.length_append, ← h.fresh]
  rfl

/-- There is room for the piece on the branch: it begins no nearer to the beginning of the text than
the branch stands, and ends before the token that the branch waits on, if it waits. -/
structure HasRoom (b : Branch) (p : Piece) : Prop where
  start : b.top.place.offset ≤ p.start.offset
  stop : ∀ l, b.status = .paused l → p.stop.offset ≤ l.start.offset

theorem ok_push (h : s.Ok g src names) {i : Nat} {p : Piece} {st : State} (hfits : st.Fits g)
    (hlink : ∀ b, s.branches[i]? = some b → Stack.LinkOk g st (some p) b.top.state)
    (hpiece : p.Sound g src) (hroom : ∀ b, s.branches[i]? = some b → HasRoom b p) :
    (s.push i (some p) st).Ok g src (names ++ [(st, p.stop.offset)]) := by
  refine ok_modify (h.named _) fun b hb => ⟨?_, fun l hl => ?_⟩
  · rw [h.fresh]
    exact Stack.ok_push (h.branch hb).top hfits (hlink b hb) hpiece (hroom b hb).start
  · exact ⟨((h.branch hb).next l hl).1, (hroom b hb).stop l hl⟩

theorem grown_lose (h : s.Ok g src names) (i : Nat) : Grown g src names (s.push i none .lost) := by
  have hok : ∀ n, (∀ b, s.branches[i]? = some b → b.top.place.offset = n) →
      (s.push i none .lost).Ok g src (names ++ [(.lost, n)]) := by
    intro n hn
    refine ok_modify (h.named _) fun b hb => ⟨?_, (h.branch hb).next⟩
    rw [h.fresh, ← hn b hb]
    exact Stack.ok_lose (h.branch hb).top
  refine ⟨_, List.prefix_append _ _, hok ((s.branches[i]?.map (·.top.place.offset)).getD 0)
    fun b hb => ?_⟩
  rw [hb]
  rfl

/-- A place in the automaton where an extra may be put on branch `i`. -/
def Stays (s : Search) (i : Nat) (st : State) : Prop :=
  ∀ b, s.branches[i]? = some b → st = .lost ∨ st = b.top.state

theorem stays_push (s : Search) (i : Nat) (piece : Option Piece) (st : State) :
    Stays (s.push i piece st) i st := by
  intro b hb
  simp only [push, modify, List.getElem?_modify] at hb
  cases hi : s.branches[i]? with
  | none => simp [hi] at hb
  | some a =>
    simp only [hi, Option.map_eq_map, Option.map_some, if_true, Option.some.injEq] at hb
    rw [← hb]
    exact .inr (Stack.state_push ..).symm

theorem ok_push_extra (h : s.Ok g src names) {i : Nat} {st : State} (hfits : st.Fits g)
    (hst : Stays s i st) {p : Piece} (hp : p.Sound g src) (hextra : p.extra = true)
    (hroom : ∀ b, s.branches[i]? = some b → HasRoom b p) :
    (s.push i (some p) st).Ok g src (names ++ [(st, p.stop.offset)]) := by
  refine ok_push h hfits (fun b hb => ?_) hp hroom
  rcases hst b hb with hlost | hsame
  · exact .inl hlost
  · exact .inr ⟨p, rfl, .inl ⟨hextra, hsame⟩⟩

theorem ok_push_goto (hg : g.Lawful) (h : s.Ok g src names) {i : Nat} {b : Branch}
    (hb : s.branches[i]? = some b) {p : Piece} {x : Symbol} (hp : p.Sound g src)
    (hmain : p.extra = false) (hx : p.symbol? = some x) (hroom : HasRoom b p) :
    (s.push i (some p) (g.goto b.top.state x)).Ok g src
      (names ++ [(g.goto b.top.state x, p.stop.offset)]) := by
  refine ok_push h (Tables.fits_goto hg (h.branch hb).top.fits) (fun c hc => ?_) hp fun c hc => ?_
  all_goals
    rw [hb] at hc
    cases hc
  · exact .inr ⟨p, rfl, .inr ⟨hmain, x, hx, rfl⟩⟩
  · exact hroom

/-! ## How far the branches have come -/

/-- How far a branch has come, and whether it waits. -/
def spot (b : Branch) : Nat × Bool := (b.top.place.offset, b.isPaused)

/-- The spots of all branches. -/
def spots (s : Search) : List (Nat × Bool) := s.branches.map spot

/-- A branch there goes on from no further ahead than byte `n`. -/
def Free (n : Nat) (x : Nat × Bool) : Prop := x.1 ≤ n ∧ x.2 = false

theorem getElem?_spots (s : Search) (i : Nat) : s.spots[i]? = s.branches[i]?.map spot :=
  List.getElem?_map

theorem length_spots (s : Search) : s.spots.length = s.size := List.length_map ..

/-- There is room on a branch that does not wait for whatever begins where it stands or behind. -/
theorem hasRoom_of_spot {b : Branch} {n : Nat} {p : Piece} (hb : Free n (spot b))
    (h : n ≤ p.start.offset) : HasRoom b p := by
  refine ⟨Nat.le_trans hb.1 h, fun l hl => ?_⟩
  have hpaused : b.isPaused = false := hb.2
  simp [Branch.isPaused, hl] at hpaused

theorem hasRoom_of_spots {i n : Nat} {x : Nat × Bool} {p : Piece} (hx : s.spots[i]? = some x)
    (hfree : Free n x) (h : n ≤ p.start.offset) :
    ∀ b, s.branches[i]? = some b → HasRoom b p := by
  intro b hb
  rw [getElem?_spots, hb] at hx
  cases hx
  exact hasRoom_of_spot hfree h

theorem spots_modify {i : Nat} {f : Branch → Branch} {k : Nat × Bool → Nat × Bool}
    (h : ∀ b, spot (f b) = k (spot b)) : (s.modify i f).spots = s.spots.modify i k := by
  unfold spots modify
  refine List.ext_getElem? fun j => ?_
  simp only [List.getElem?_map, List.getElem?_modify]
  by_cases hij : i = j
  · cases s.branches[j]? <;> simp [hij, h]
  · cases s.branches[j]? <;> simp [hij]

theorem spots_push (i : Nat) (p : Piece) (st : State) :
    (s.push i (some p) st).spots = s.spots.modify i fun x => (p.stop.offset, x.2) :=
  spots_modify fun _ => rfl

theorem spots_lose (i : Nat) : (s.push i none .lost).spots = s.spots := by
  have h : (s.push i none .lost).spots = s.spots.modify i id := spots_modify fun _ => rfl
  rw [h, List.modify_id]

theorem spots_pushAll (i : Nat) (st : State) (ps : List Piece) : ∀ s : Search,
    (s.pushAll i ps st).spots = s.spots.modify i fun x => (Piece.endOf x.1 ps, x.2) := by
  induction ps with
  | nil =>
    intro s
    exact (List.modify_id ..).symm
  | cons p ps ih =>
    intro s
    refine (ih _).trans ?_
    rw [spots_push, List.modify_modify_eq]
    congr 1
    funext x
    simp only [Function.comp, Piece.endOf_cons]

theorem spots_drop (i : Nat) : (s.drop i).spots = s.spots.eraseIdx i :=
  (List.eraseIdx_map ..).symm

theorem spots_append (bs : List Branch) :
    spots { s with branches := s.branches ++ bs } = s.spots ++ bs.map spot :=
  List.map_append

theorem grown_pushAll {i : Nat} {st : State} {b : Nat} (hfits : st.Fits g) :
    ∀ (ps : List Piece) {names : List Name} {s : Search} {a : Nat}, s.Ok g src names →
    Stays s i st → s.spots[i]? = some (a, false) → Piece.Ordered a ps b →
    (∀ p ∈ ps, p.Sound g src ∧ p.extra = true) → Grown g src names (s.pushAll i ps st) := by
  intro ps
  induction ps with
  | nil =>
    intro names s a h _ _ _ _
    exact h.grown
  | cons p ps ih =>
    intro names s a h hst hspot ho hps
    obtain ⟨hp, hextra⟩ := hps p List.mem_cons_self
    have hok := ok_push_extra h hfits hst hp hextra
      (hasRoom_of_spots hspot ⟨Nat.le_refl a, rfl⟩ ho.1)
    have hspot' : (s.push i (some p) st).spots[i]? = some (p.stop.offset, false) := by
      rw [spots_push, List.getElem?_modify_eq, hspot]
      rfl
    exact (ih hok (stays_push s i _ st) hspot' ho.2.2
      fun q hq => hps q (List.mem_cons_of_mem _ hq)).trans (List.prefix_append _ _)

/-- The branches that a step adds go on from no further ahead than byte `n`. -/
def Adds (s s' : Search) (n : Nat) : Prop :=
  ∃ more, s'.spots = s.spots ++ more ∧ ∀ x ∈ more, Free n x

theorem adds_refl (s : Search) (n : Nat) : Adds s s n := ⟨[], (List.append_nil _).symm, nofun⟩

theorem Adds.trans {s' s'' : Search} {n : Nat} (h : Adds s s' n) (h' : Adds s' s'' n) :
    Adds s s'' n := by
  obtain ⟨more, hmore, hall⟩ := h
  obtain ⟨more', hmore', hall'⟩ := h'
  refine ⟨more ++ more', by rw [hmore', hmore, List.append_assoc], fun x hx => ?_⟩
  rcases List.mem_append.1 hx with hx | hx
  · exact hall x hx
  · exact hall' x hx

theorem Adds.getElem? {s' : Search} {n i : Nat} {x : Nat × Bool} (h : Adds s s' n)
    (hx : s.spots[i]? = some x) : s'.spots[i]? = some x := by
  obtain ⟨more, hmore, _⟩ := h
  rw [hmore, List.getElem?_append_left (List.getElem?_eq_some_iff.1 hx).1, hx]

theorem Adds.free {s' : Search} {n i : Nat} {x : Nat × Bool} (h : Adds s s' n) (hi : s.size ≤ i)
    (hx : s'.spots[i]? = some x) : Free n x := by
  obtain ⟨more, hmore, hall⟩ := h
  rw [hmore, List.getElem?_append_right (by rw [length_spots]; exact hi)] at hx
  exact hall x (List.mem_of_getElem? hx)

theorem Adds.size_le {s' : Search} {n : Nat} (h : Adds s s' n) : s.size ≤ s'.size := by
  obtain ⟨more, hmore, _⟩ := h
  rw [← length_spots, ← length_spots, hmore, List.length_append]
  exact Nat.le_add_right _ _

/-! ## Joining -/

theorem of_join?_eq_some {i j : Nat} {s' : Search} (h : s.join? i j = some s') :
    ∃ a b, s.branches[i]? = some a ∧ s.branches[j]? = some b ∧ a.meets b = true ∧
      s' = (s.modify i (·.join b)).drop j := by
  unfold join? at h
  split at h
  next a b ha hb =>
    split at h
    next hm => exact ⟨a, b, ha, hb, hm, (Option.some.inj h).symm⟩
    · cases h
  · cases h

theorem ok_join? (h : s.Ok g src names) {i j : Nat} {s' : Search} (hj : s.join? i j = some s') :
    s'.Ok g src names ∧ s'.spots = s.spots.eraseIdx j := by
  obtain ⟨a, b, ha, hb, hm, rfl⟩ := of_join?_eq_some hj
  obtain ⟨hok, hplace⟩ := Branch.ok_join (h.branch ha) (h.branch hb) hm
  constructor
  · refine ok_drop (ok_modify h fun c hc => ?_) j
    rw [ha] at hc
    cases hc
    exact hok
  · have hspots : (s.modify i (·.join b)).spots = s.spots := by
      refine List.ext_getElem? fun k => ?_
      rw [getElem?_spots, getElem?_spots, modify, List.getElem?_modify]
      by_cases hik : i = k
      · subst hik
        rw [ha]
        simp only [if_true, Option.map_eq_map, Option.map_some, spot, hplace]
        rfl
      · simp [hik]
    rw [spots_drop, hspots]

theorem of_joinAny_eq_some {is : List Nat} {j : Nat} {s' : Search}
    (h : s.joinAny is j = some s') : ∃ i ∈ is, s.join? i j = some s' :=
  List.exists_of_findSome?_eq_some h

theorem ok_joinAny (h : s.Ok g src names) {is : List Nat} {j : Nat} {s' : Search}
    (hj : s.joinAny is j = some s') : s'.Ok g src names ∧ s'.spots = s.spots.eraseIdx j := by
  obtain ⟨i, _, hi⟩ := of_joinAny_eq_some hj
  exact ok_join? h hi

theorem ok_replace (h : s.Ok g src names) (i j : Nat) : (s.replace i j).Ok g src names := by
  unfold replace
  split
  next a b ha _ =>
    refine h.withBranches fun c hc => ?_
    rcases List.mem_or_eq_of_mem_set (List.mem_of_mem_eraseIdx hc) with hc | rfl
    · exact h.branches c hc
    · exact ⟨(h.branch ha).top, (h.branch ha).next⟩
  · exact h

theorem spots_replace {i j : Nat} {x : Nat × Bool} (hi : s.spots[i]? = some x)
    (hj : j < s.spots.length) : (s.replace i j).spots = (s.spots.set j x).eraseIdx i := by
  rw [getElem?_spots] at hi
  obtain ⟨a, ha, rfl⟩ := Option.map_eq_some_iff.1 hi
  rw [spots, List.length_map] at hj
  unfold replace
  rw [ha, List.getElem?_eq_getElem hj]
  dsimp only
  rw [spots, ← List.eraseIdx_map, List.map_set]
  rfl

/-! ## Reducing -/

/-- The state of branch `i`. -/
def stateAt (s : Search) (i : Nat) : Option State := s.branches[i]?.map (·.top.state)

theorem stateAt_push_of_ne (s : Search) {i v : Nat} (h : i ≠ v) (piece : Option Piece) (st : State) :
    (s.push i piece st).stateAt v = s.stateAt v := by
  simp only [stateAt, push, modify, List.getElem?_modify, if_neg h, Option.map_eq_map,
    Option.map_id_fun', id]

theorem stateAt_pushAll_of_ne {i v : Nat} (h : i ≠ v) (st : State) (ps : List Piece) :
    ∀ s : Search, (s.pushAll i ps st).stateAt v = s.stateAt v := by
  induction ps with
  | nil =>
    intro s
    rfl
  | cons p ps ih =>
    intro s
    exact (ih _).trans (stateAt_push_of_ne s h _ _)

theorem stateAt_drop_of_lt {i v : Nat} (h : v < i) : (s.drop i).stateAt v = s.stateAt v := by
  simp only [stateAt, drop, List.getElem?_eraseIdx_of_lt h]

theorem stateAt_join? {i j v : Nat} {s' : Search} (hi : i ≠ v) (hj : v < j)
    (h : s.join? i j = some s') : s'.stateAt v = s.stateAt v := by
  obtain ⟨a, b, _, _, _, rfl⟩ := of_join?_eq_some h
  rw [stateAt_drop_of_lt hj]
  simp only [stateAt, modify, List.getElem?_modify, if_neg hi, Option.map_eq_map,
    Option.map_id_fun', id]

/-- The phrase chosen is built from one of the lists of pieces, without the extras at its end. -/
theorem of_chooseParts_eq_some {build : List Piece → Piece} {pss : List (List Piece)}
    {r : Piece × List Piece} (h : chooseParts build pss = some r) :
    ∃ ps ∈ pss, r = (build (Piece.splitExtras ps).1, (Piece.splitExtras ps).2) := by
  cases pss with
  | nil => cases h
  | cons ps pss =>
    have hfold : ∀ (qss : List (List Piece)) (r : Piece × List Piece),
        (∀ qs ∈ qss, qs ∈ ps :: pss) →
        (∃ qs ∈ ps :: pss, r = (build (Piece.splitExtras qs).1, (Piece.splitExtras qs).2)) →
        ∃ qs ∈ ps :: pss, qss.foldl (chooseBetter build) r
          = (build (Piece.splitExtras qs).1, (Piece.splitExtras qs).2) := by
      intro qss
      induction qss with
      | nil =>
        intro r _ hr
        exact hr
      | cons qs qss ih =>
        intro r hqss hr
        refine ih _ (fun q hq => hqss q (List.mem_cons_of_mem _ hq)) ?_
        simp only [chooseBetter]
        split
        · exact ⟨qs, hqss qs List.mem_cons_self, rfl⟩
        · exact hr
    obtain ⟨qs, hmem, hqs⟩ := hfold pss _ (fun q hq => List.mem_cons_of_mem _ hq)
      ⟨ps, List.mem_cons_self, rfl⟩
    exact ⟨qs, hmem, (Option.some.inj h).symm.trans hqs⟩

/-- A production is complete in a state. -/
def Completes (st : State) (n : Nat) : Prop :=
  ∃ i ∈ st.items, i.rest = [] ∧ i.production = n

/-- In the middle of a reduction of one of the branches `base`: the branches before `i` that came from
it go on from no further ahead than byte `n`, and the others are still as they were forked off. -/
structure Midway (base : List (Nat × Bool)) (n : Nat) (forks : List Branch) (s : Search) (i : Nat) :
    Prop where
  todo : s.branches.drop i = forks
  done : ∃ more, s.spots.take i = base ++ more ∧ ∀ x ∈ more, Free n x

section Midway

variable {base : List (Nat × Bool)} {n i : Nat} {c : Branch} {forks : List Branch}

theorem Midway.branch (h : Midway base n (c :: forks) s i) : s.branches[i]? = some c := by
  have hget := congrArg (·[0]?) h.todo
  simpa using hget

theorem Midway.le (h : Midway base n (c :: forks) s i) : base.length ≤ i := by
  obtain ⟨more, hmore, _⟩ := h.done
  have hlen := congrArg List.length hmore
  rw [List.length_take, List.length_append] at hlen
  omega

theorem Midway.drop_succ (h : Midway base n (c :: forks) s i) : s.branches.drop (i + 1) = forks := by
  rw [← List.drop_drop, h.todo]
  rfl

theorem Midway.drop (h : Midway base n (c :: forks) s i) : Midway base n forks (s.drop i) i := by
  refine ⟨?_, ?_⟩
  · rw [Search.drop, List.eraseIdx_eq_take_drop_succ, h.drop_succ, List.drop_append_of_le_length,
      List.drop_take_self, List.nil_append]
    have := (List.getElem?_eq_some_iff.1 h.branch).1
    rw [List.length_take]
    omega
  · rw [spots_drop, List.take_eraseIdx_eq_take_of_le _ _ _ (Nat.le_refl i)]
    exact h.done

theorem Midway.change {t : Search} {k : Nat × Bool → Nat × Bool}
    (h : Midway base n (c :: forks) s i) (hrest : t.branches.drop (i + 1) = s.branches.drop (i + 1))
    (hspots : t.spots = s.spots.modify i k) (hfree : Free n (k (spot c))) :
    Midway base n forks t (i + 1) := by
  obtain ⟨more, hmore, hall⟩ := h.done
  refine ⟨hrest.trans h.drop_succ, more ++ [k (spot c)], ?_, fun x hx => ?_⟩
  · have hget : t.spots[i]? = some (k (spot c)) := by
      rw [hspots, List.getElem?_modify_eq, getElem?_spots, h.branch]
      rfl
    have htake : t.spots.take i = s.spots.take i := by
      rw [hspots, List.take_modify, List.modify_eq_self]
      rw [List.length_take]
      omega
    rw [List.take_add_one, hget, htake, hmore, List.append_assoc]
    rfl
  · rcases List.mem_append.1 hx with hx | hx
    · exact hall x hx
    · rw [List.mem_singleton.1 hx]
      exact hfree

theorem Midway.join {j : Nat} {s' : Search} (hs : s.Ok g src names)
    (h : Midway base n forks s (i + 1)) (hi : base.length ≤ i) (hji : j < i)
    (hj : s.join? j i = some s') : Midway base n forks s' i := by
  obtain ⟨more, hmore, hall⟩ := h.done
  refine ⟨?_, more.take (i - base.length), ?_, fun x hx => hall x (List.mem_of_mem_take hx)⟩
  · obtain ⟨a, b, _, hb, _, rfl⟩ := of_join?_eq_some hj
    have hlen := (List.getElem?_eq_some_iff.1 hb).1
    rw [Search.drop, List.eraseIdx_eq_take_drop_succ, List.drop_append_of_le_length,
      List.drop_take_self, List.nil_append, modify, List.drop_modify_of_lt _ _ _ _ (by omega), h.todo]
    rw [modify, List.length_take, List.length_modify]
    omega
  · rw [(ok_join? hs hj).2, List.take_eraseIdx_eq_take_of_le _ _ _ (Nat.le_refl i)]
    have htake := congrArg (List.take i) hmore
    rw [List.take_take, Nat.min_eq_left (Nat.le_succ i), List.take_append,
      List.take_of_length_le hi] at htake
    exact htake

end Midway

theorem drop_branches_push (s : Search) (i : Nat) (piece : Option Piece) (st : State) :
    (s.push i piece st).branches.drop (i + 1) = s.branches.drop (i + 1) :=
  List.drop_modify_of_lt _ _ _ _ (Nat.lt_succ_self i)

theorem drop_branches_pushAll (i : Nat) (st : State) (ps : List Piece) : ∀ s : Search,
    (s.pushAll i ps st).branches.drop (i + 1) = s.branches.drop (i + 1) := by
  induction ps with
  | nil => exact fun s => rfl
  | cons p ps ih =>
    intro s
    exact (ih _).trans (drop_branches_push s i (some p) st)

/-- What one branch of a reduction does to a search: all stays right, and so does the state of the
branch that is reduced. -/
theorem grown_reduceTo (hg : g.Lawful) {version n k m : Nat} {p : Production}
    (hp : g.productions[n]? = some p) {acc : Search × Nat} (h : acc.1.Ok g src names)
    {b : Branch} {gr : Stack × List (List Piece)} {forks : List Branch} {base : List (Nat × Bool)}
    (hmid : Midway base m (b.fork gr.1 :: forks) acc.1 (k - acc.2)) (hv : version < base.length)
    (hplace : gr.1.place.offset ≤ m) (hpss : ∀ ps ∈ gr.2, (∀ q ∈ ps, q.Sound g src) ∧
      Piece.Ordered gr.1.place.offset ps m ∧ Piece.Follows p.steps ps) :
    Grown g src names (reduceTo g version n p acc k gr.2).1 ∧
      (reduceTo g version n p acc k gr.2).1.stateAt version = acc.1.stateAt version ∧
      Midway base m forks (reduceTo g version n p acc k gr.2).1
        (k + 1 - (reduceTo g version n p acc k gr.2).2) := by
  obtain ⟨s, dropped⟩ := acc
  have hle := hmid.le
  have hk : version < k - dropped := Nat.lt_of_lt_of_le hv hle
  have hstay : k + 1 - (dropped + 1) = k - dropped := by omega
  have hnext : k + 1 - dropped = k - dropped + 1 := by omega
  have hkeep : Midway base m forks s (k + 1 - dropped) := by
    rw [hnext]
    exact hmid.change rfl (List.modify_id _ _).symm ⟨hplace, rfl⟩
  simp only [reduceTo, hmid.branch]
  split
  · exact ⟨(ok_drop h _).grown, stateAt_drop_of_lt hk, hstay ▸ hmid.drop⟩
  split
  · exact ⟨h.grown, rfl, hkeep⟩
  next piece extras hchosen =>
    obtain ⟨ps, hps, hbuilt⟩ := of_chooseParts_eq_some hchosen
    cases hbuilt
    obtain ⟨hsound, hordered, hfollows⟩ := hpss ps hps
    rw [← Piece.splitExtras_append ps] at hordered
    obtain ⟨hordered, hbehind⟩ := hordered.of_append
    have hparts : ∀ q ∈ (Piece.splitExtras ps).1, q.Sound g src := by
      intro q hq
      refine hsound q ?_
      rw [← Piece.splitExtras_append ps]
      exact List.mem_append_left _ hq
    have hextras : ∀ q ∈ (Piece.splitExtras ps).2, q.Sound g src ∧ q.extra = true := by
      intro q hq
      refine ⟨hsound q ?_, Piece.extra_of_mem_splitExtras hq⟩
      rw [← Piece.splitExtras_append ps]
      exact List.mem_append_right _ hq
    have hmain : Piece.Follows p.steps (Piece.splitExtras ps).1 := by
      unfold Piece.Follows
      rw [Piece.main_splitExtras]
      exact hfollows
    have hfork := h.branch hmid.branch
    have hphrase : (Piece.compose (.symbol p.head) n p.steps p.favour (b.fork gr.1).top.place
        (Piece.splitExtras ps).1).Sound g src :=
      Piece.sound_compose p.favour hfork.top.place hp hparts hordered hmain
    have hspot : Free gr.1.place.offset (spot (b.fork gr.1)) := ⟨Nat.le_refl _, rfl⟩
    have hpushed := ok_push_goto hg h hmid.branch hphrase rfl rfl
      (hasRoom_of_spot hspot (Piece.le_start_compose hordered (Nat.le_refl _)))
    have hne : k - dropped ≠ version := by omega
    generalize hphrase' : Piece.compose (.symbol p.head) n p.steps p.favour
      (b.fork gr.1).top.place (Piece.splitExtras ps).1 = phrase at hphrase hpushed ⊢
    have hstop : phrase.stop.offset
        = Piece.endOf gr.1.place.offset (Piece.splitExtras ps).1 := by
      rw [← hphrase', Piece.endOf_compose]
      rfl
    have hspots := spots_push (s := s) (k - dropped) phrase (g.goto (b.fork gr.1).top.state p.head)
    have hfits : (g.goto (b.fork gr.1).top.state p.head).Fits g := Tables.fits_goto hg hfork.top.fits
    obtain ⟨names', hn, hall⟩ := (grown_pushAll hfits _ hpushed (stays_push _ _ _ _)
      (by rw [hspots, List.getElem?_modify_eq, getElem?_spots, hmid.branch]; rfl)
      (hstop ▸ hbehind) hextras).trans (List.prefix_append _ _)
    have hstate := (stateAt_pushAll_of_ne hne (g.goto (b.fork gr.1).top.state p.head)
      (Piece.splitExtras ps).2 _).trans (stateAt_push_of_ne s hne (some phrase)
        (g.goto (b.fork gr.1).top.state p.head))
    have hdone := hmid.change
      (t := (s.push (k - dropped) (some phrase) (g.goto (b.fork gr.1).top.state p.head)).pushAll
        (k - dropped) (Piece.splitExtras ps).2 (g.goto (b.fork gr.1).top.state p.head))
      (k := fun x => (Piece.endOf phrase.stop.offset (Piece.splitExtras ps).2, x.2))
      ((drop_branches_pushAll _ _ _ _).trans (drop_branches_push ..))
      (by rw [spots_pushAll, hspots, List.modify_modify_eq]; rfl)
      ⟨by
        have hnil : ∀ x, Piece.Ordered x [] x := Nat.le_refl
        have hend := hbehind.append (hnil _)
        rw [← hstop] at hend
        exact hend.of_append.2, rfl⟩
    split
    next s' hjoin =>
      obtain ⟨i, hi, hij⟩ := of_joinAny_eq_some hjoin
      obtain ⟨hi, hiv⟩ := List.mem_filter.1 hi
      exact ⟨⟨names', hn, (ok_join? hall hij).1⟩,
        (stateAt_join? (by simpa using hiv) hk hij).trans hstate,
        hstay ▸ hdone.join hall hle (List.mem_range.1 hi) hij⟩
    · exact ⟨⟨names', hn, hall⟩, hstate, hnext ▸ hdone⟩

theorem stateAt_append {v : Nat} (h : v < s.size) (bs : List Branch) :
    stateAt { s with branches := s.branches ++ bs } v = s.stateAt v := by
  simp only [stateAt, List.getElem?_append_left h]

theorem grown_foldl_reduceTo (hg : g.Lawful) {version n size far : Nat} {p : Production}
    (hp : g.productions[n]? = some p) {b : Branch} {base : List (Nat × Bool)}
    (hv : version < base.length)
    (grs : List (Stack × List (List Piece))) (acc : Search × Nat) {m : Nat} {names : List Name}
    (hgrs : ∀ gr ∈ grs, gr.1.place.offset ≤ far ∧ ∀ ps ∈ gr.2, (∀ q ∈ ps, q.Sound g src) ∧
      Piece.Ordered gr.1.place.offset ps far ∧ Piece.Follows p.steps ps)
    (h : acc.1.Ok g src names)
    (hmid : Midway base far (grs.map fun gr => b.fork gr.1) acc.1 (size + m - acc.2)) :
    let r := (grs.zipIdx m).foldl (fun acc (gr, k) =>
      reduceTo g version n p acc (size + k) gr.2) acc
    Grown g src names r.1 ∧ r.1.stateAt version = acc.1.stateAt version ∧
      ∃ i, Midway base far [] r.1 i := by
  induction grs generalizing m names acc with
  | nil => exact ⟨h.grown, rfl, _, hmid⟩
  | cons gr grs ih =>
    obtain ⟨hplace, hpss⟩ := hgrs gr List.mem_cons_self
    obtain ⟨⟨names', hn, hok⟩, hstate, hmid'⟩ := grown_reduceTo hg hp h hmid hv hplace hpss
    obtain ⟨hgrown, hstate', hlast⟩ := ih _ (m := m + 1)
      (fun gr' hgr' => hgrs gr' (List.mem_cons_of_mem _ hgr')) hok hmid'
    exact ⟨hgrown.trans hn, hstate'.trans hstate, hlast⟩

/-- Reducing a branch by a production that is complete in its state keeps all right, and the state
of that branch as it is; the branches that it leads to are no further ahead. -/
theorem grown_reduce (hg : g.Lawful) (h : s.Ok g src names) {version n far : Nat} {st : State}
    (hst : s.stateAt version = some st) (hn : Completes st n)
    (hfar : ∀ x, s.spots[version]? = some x → x.1 ≤ far) :
    Grown g src names (reduce g s version n).1 ∧
      (reduce g s version n).1.stateAt version = some st ∧ Adds s (reduce g s version n).1 far ∧
      ∀ r, (reduce g s version n).2 = some r → r = s.size ∧ s.size < (reduce g s version n).1.size := by
  unfold reduce
  split
  next b p hb hp =>
    have hfarp : b.top.state = st := by
      simpa [stateAt, hb] using hst
    have hfar : b.top.place.offset ≤ far := hfar (spot b) (by rw [getElem?_spots, hb]; rfl)
    obtain ⟨i, hi, hrest, rfl⟩ := hn
    rw [← hfarp] at hi
    have hv : version < s.spots.length := by
      rw [length_spots]
      exact (List.getElem?_eq_some_iff.1 hb).1
    -- Each group of ways gives parts that the production calls for.
    have hgroups : ∀ gr ∈ Stack.group (b.top.pop p.steps.length), gr.1.Ok g src names ∧
        gr.1.place.offset ≤ far ∧ ∀ ps ∈ gr.2, (∀ q ∈ ps, q.Sound g src) ∧
          Piece.Ordered gr.1.place.offset ps far ∧ Piece.Follows p.steps ps := by
      intro gr hgr
      obtain ⟨hok, hplace, hall⟩ := (h.branch hb).top.group_pop hgr
      refine ⟨hok, Nat.le_trans hplace hfar, fun ps hps => ?_⟩
      obtain ⟨⟨w, hw, rfl⟩, hsound, hordered⟩ := hall ps hps
      exact ⟨hsound, hordered.mono (Nat.le_refl _) hfar,
        Stack.read_of_complete hg (h.branch hb).top hi hrest hp hw⟩
    have hforks : ∀ c ∈ (Stack.group (b.top.pop p.steps.length)).map fun gr => b.fork gr.1,
        c.Ok g src names := by
      intro c hc
      obtain ⟨gr, hgr, rfl⟩ := List.mem_map.1 hc
      exact Branch.ok_fork (hgroups gr hgr).1
    have hmid : Midway s.spots far
        ((Stack.group (b.top.pop p.steps.length)).map fun gr => b.fork gr.1)
        { s with branches := s.branches
          ++ (Stack.group (b.top.pop p.steps.length)).map fun gr => b.fork gr.1 } (s.size + 0 - 0) := by
      refine ⟨List.drop_left, [], ?_, nofun⟩
      rw [spots_append, Nat.add_zero, Nat.sub_zero, ← length_spots, List.take_left, List.append_nil]
    obtain ⟨hgrown, hstate, i, hlast⟩ := grown_foldl_reduceTo hg hp hv _
      ({ s with branches := s.branches
        ++ (Stack.group (b.top.pop p.steps.length)).map fun gr => b.fork gr.1 }, 0)
      (fun gr hgr => (hgroups gr hgr).2) (ok_append h hforks) hmid
    rw [length_spots] at hv
    refine ⟨hgrown, hstate.trans ((stateAt_append hv _).trans hst), ?_, fun r hr => ?_⟩
    · obtain ⟨more, hmore, hall⟩ := hlast.done
      refine ⟨more, ?_, hall⟩
      rw [← hmore, List.take_of_length_le]
      rw [spots, List.length_map]
      exact List.drop_eq_nil_iff.1 hlast.todo
    · dsimp only at hr
      split at hr
      next hlt => exact ⟨(Option.some.inj hr).symm, hlt⟩
      · cases hr
  · exact ⟨h.grown, hst, adds_refl s far, fun r hr => by cases hr⟩

end Search
end Go
end RouteScribe
