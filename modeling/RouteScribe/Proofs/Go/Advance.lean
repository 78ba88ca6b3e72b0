import RouteScribe.Proofs.Go.Accept

/-!
# RouteScribe.Proofs.Go.Advance

Every step of the search keeps all branches right, repairs included. So the parse it ends with is
sound: each phrase in it is made of what one of its productions calls for, and its parts stand one
behind the other in the text.

* `grown_recover`, `grown_handleError`, `grown_advance`, `grown_condense`: the
  steps.
* `whole_parsePiece`: the parse of a text.
-/

namespace RouteScribe
namespace Go

namespace Search

open Stack (Name)

variable {g : Tables} {src : List Char} {names : List Name} {s : Search}

/-! ## Tokens -/

theorem sound_resolve (st : State) {l : Lexeme} (before : Cursor) (hstart : l.start.Within src)
    (hstop : l.stop.Within src) (hle : l.start.offset ≤ l.stop.offset)
    (h : l.token.MayBe (l.start.textTo l.stop).toList) :
    (resolve g st l before).Sound src ∧ (resolve g st l before).start = l.start := by
  unfold resolve
  extract_lets keyword
  cases hk : keyword with
  | some k =>
    have hid : l.token = .identifier := by
      by_cases hl : l.token = .identifier
      · exact hl
      · rw [show keyword = none from if_neg hl] at hk
        cases hk
    rw [show keyword = Token.keyword? (l.start.textTo l.stop).toList from if_pos hid] at hk
    have hmem : k ∈ Token.keywords := List.mem_of_find?_eq_some hk
    dsimp only
    split
    · refine ⟨⟨hstart, hstop, hle, fun _ => h.name hid, fun _ hl => ?_, fun _ hl => ?_⟩, rfl⟩
      all_goals
        rw [Option.some.inj hl] at hmem
        exact absurd hmem (by decide)
    · exact ⟨⟨hstart, hstop, hle, fun _ => h.name hid, nofun, nofun⟩, rfl⟩
  | none =>
    refine ⟨⟨hstart, hstop, hle, fun hl => ?_, fun _ hl => h.comment (Option.some.inj hl),
      fun _ hl => h.period (Option.some.inj hl)⟩, rfl⟩
    rcases hl with hl | hl
    · exact h.name (Option.some.inj hl)
    · cases hl

theorem exists_skipUnreadable (fuel : Nat) : ∀ p : Cursor, ∃ m, skipUnreadable fuel p p = p.skip m := by
  induction fuel with
  | zero => exact fun p => ⟨0, rfl⟩
  | succ fuel ih =>
    intro p
    unfold skipUnreadable
    split
    · exact ⟨0, rfl⟩
    next a q hnext =>
      extract_lets q'
      obtain ⟨⟨m, hm⟩, n, hn⟩ := Lexeme.of_next_error hnext
      have hq : ∃ k, q' = p.skip k := by
        dsimp only at hm hn
        by_cases hstuck : q.offset = p.offset
        · exact ⟨_, by rw [show q' = q.skip 1 from if_pos hstuck, hn, hm, Cursor.skip_skip,
            Cursor.skip_skip]⟩
        · exact ⟨_, by rw [show q' = q from if_neg hstuck, hn, hm, Cursor.skip_skip]⟩
      obtain ⟨k, hk⟩ := hq
      obtain ⟨l, hl⟩ := ih q'
      exact ⟨k + l, by rw [hl, hk, Cursor.skip_skip]⟩

/-- Whatever token is read, it stands where or behind where reading began, and its text is one that
it may have. -/
theorem sound_read (st : State) {p : Cursor} (hp : p.Within src) :
    (read g st p).Sound src ∧ p.offset ≤ (read g st p).start.offset := by
  have hfound : ∀ {admitted : TokenSet} {l : Lexeme}, Lexeme.next admitted p = .ok l →
      (resolve g st l p).Sound src ∧ p.offset ≤ (resolve g st l p).start.offset := by
    intro admitted l hl
    obtain ⟨⟨m, hm⟩, ⟨n, hn⟩, hmay⟩ := Lexeme.of_next hl
    have hstart : l.start.Within src := hm ▸ hp.skip m
    obtain ⟨hsound, hplace⟩ := sound_resolve (g := g) st p hstart (hn ▸ hstart.skip n)
      (hn ▸ Cursor.offset_le_skip n l.start) hmay
    refine ⟨hsound, ?_⟩
    rw [hplace, hm]
    exact Cursor.offset_le_skip m p
  unfold read
  extract_lets found
  cases hf : found with
  | ok l =>
    by_cases hst : st = .lost
    · rw [show found = .error (p, p) from if_pos hst] at hf
      cases hf
    · rw [show found = Lexeme.next (g.expected st) p from if_neg hst] at hf
      exact hfound hf
  | error e =>
    dsimp only
    split
    next l hl => exact hfound hl
    next start far hnext =>
      obtain ⟨⟨m, hm⟩, _⟩ := Lexeme.of_next_error hnext
      obtain ⟨n, hn⟩ := exists_skipUnreadable (p.rest.length + 1) start
      have hstart : start.Within src := by
        rw [show start = p.skip m from hm]
        exact hp.skip m
      refine ⟨⟨hstart, hn ▸ hstart.skip n, hn ▸ Cursor.offset_le_skip n start, fun hl => ?_, nofun,
        nofun⟩, ?_⟩
      · rcases hl with hl | hl
        · cases hl
        · cases hl
      · rw [show start = p.skip m from hm]
        exact Cursor.offset_le_skip m p

/-! ## Repairs -/

theorem modify_concat {α : Type} (xs : List α) (x : α) (f : α → α) :
    (xs ++ [x]).modify xs.length f = xs ++ [f x] := by
  rw [List.modify_eq_take_drop, List.take_left, List.drop_left]
  rfl

/-- A new branch over the stack `t`, on which pieces that were above it come as skipped text. -/
theorem grown_fork (h : s.Ok g src names) (b : Branch) {t : Stack} (ht : t.Ok g src names)
    {goal : State} (hfits : goal.Fits g) (hstay : goal = .lost ∨ goal = t.state) {ps : List Piece}
    (hps : ∀ p ∈ ps, p.Sound g src) {far : Nat} (ho : Piece.Ordered t.place.offset ps far)
    {s' : Search}
    (hs' : s' =
      (if (Piece.splitExtras ps).1.isEmpty then
        { s with branches := s.branches ++ [b.fork t] }
      else
        push { s with branches := s.branches ++ [b.fork t] } s.size
          (some ((Piece.compose .error 0 [] 0 t.place (Piece.splitExtras ps).1).withExtra true))
          goal)) :
    Grown g src names (s'.pushAll s.size (Piece.splitExtras ps).2 goal) ∧
      Adds s (s'.pushAll s.size (Piece.splitExtras ps).2 goal) far := by
  have hsplit := Piece.splitExtras_append ps
  have hextras : ∀ p ∈ (Piece.splitExtras ps).2, p.Sound g src ∧ p.extra = true := by
    intro p hp
    refine ⟨hps p ?_, Piece.extra_of_mem_splitExtras hp⟩
    rw [← hsplit]
    exact List.mem_append_right _ hp
  have hparts : ∀ p ∈ (Piece.splitExtras ps).1, p.Sound g src := by
    intro p hp
    refine hps p ?_
    rw [← hsplit]
    exact List.mem_append_left _ hp
  rw [← hsplit] at ho
  obtain ⟨hbefore, hbehind⟩ := ho.of_append
  have hforked : Ok g src names { s with branches := s.branches ++ [b.fork t] } := by
    refine ok_append h fun c hc => ?_
    rw [List.mem_singleton.1 hc]
    exact Branch.ok_fork ht
  have hlast : Stays { s with branches := s.branches ++ [b.fork t] } s.size goal := by
    intro c hc
    have hc' : some (b.fork t) = some c := List.getElem?_concat_length.symm.trans hc
    cases hc'
    exact hstay
  have hspots : spots { s with branches := s.branches ++ [b.fork t] }
      = s.spots ++ [(t.place.offset, false)] := spots_append _
  -- The skipped pieces go on from the end of the text that is skipped as a whole.
  have hgrown : ∃ names', names <+: names' ∧ s'.Ok g src names' ∧ Stays s' s.size goal ∧
      s'.spots = s.spots ++ [(Piece.endOf t.place.offset (Piece.splitExtras ps).1, false)] := by
    split at hs'
    next hempty =>
      rw [hs', List.isEmpty_iff.1 hempty]
      exact ⟨names, List.prefix_rfl, hforked, hlast, hspots⟩
    · generalize hskipped : (Piece.compose .error 0 [] 0 t.place
        (Piece.splitExtras ps).1).withExtra true = skipped at hs'
      have hsound : skipped.Sound g src :=
        hskipped ▸ Piece.sound_withExtra
          (Piece.sound_composeError _ _ _ ht.place hparts hbefore) rfl
      have hstart : t.place.offset ≤ skipped.start.offset := by
        rw [← hskipped, Piece.start_withExtra]
        exact Piece.le_start_compose hbefore (Nat.le_refl _)
      have hstop : skipped.stop.offset = Piece.endOf t.place.offset (Piece.splitExtras ps).1 := by
        rw [← hskipped, Piece.stop_withExtra, Piece.endOf_compose]
      have hspot : (spots { s with branches := s.branches ++ [b.fork t] })[s.size]?
          = some (t.place.offset, false) := by
        rw [hspots, ← length_spots]
        exact List.getElem?_concat_length
      have hpushed := ok_push_extra hforked hfits hlast hsound
        (hskipped ▸ Piece.extra_withExtra _ _) (hasRoom_of_spots hspot ⟨Nat.le_refl _, rfl⟩ hstart)
      rw [← hs'] at hpushed
      refine ⟨_, List.prefix_append _ _, hpushed, hs' ▸ stays_push _ _ _ _, ?_⟩
      rw [hs', spots_push, hspots, ← length_spots, modify_concat, hstop]
  obtain ⟨names', hn, hok, hstays, hspots'⟩ := hgrown
  refine ⟨(grown_pushAll hfits _ hok hstays ?_ hbehind hextras).trans hn,
    [(Piece.endOf (Piece.endOf t.place.offset (Piece.splitExtras ps).1) (Piece.splitExtras ps).2,
      false)], ?_, fun x hx => ?_⟩
  · rw [hspots', ← length_spots]
    exact List.getElem?_concat_length
  · rw [spots_pushAll, hspots', ← length_spots]
    exact modify_concat ..
  · rw [List.mem_singleton.1 hx]
    rw [← List.append_nil (Piece.splitExtras ps).2] at hbehind
    exact ⟨hbehind.of_append.2, rfl⟩

/-- Going back to a stack in the state `goal` leaves a branch in that state. -/
theorem grown_recoverInto (b : Branch) (goal : State) {acc : Search × Bool}
    (h : acc.1.Ok g src names) {node : Stack} (hnode : node.Ok g src names)
    {pss : List (List Piece)} {far : Nat}
    (hpss : ∀ ps ∈ pss, (∀ p ∈ ps, p.Sound g src) ∧ Piece.Ordered node.place.offset ps far) :
    Grown g src names (recoverInto b goal acc node pss).1 ∧
      Adds acc.1 (recoverInto b goal acc node pss).1 far := by
  obtain ⟨s, done⟩ := acc
  cases pss with
  | nil => exact ⟨h.grown, adds_refl s far⟩
  | cons ps pss =>
    simp only [recoverInto]
    split
    · exact ⟨h.grown, adds_refl s far⟩
    next hgoal =>
      have hgoal : node.state = goal := Decidable.not_not.1 hgoal
      have hfits : goal.Fits g := hgoal ▸ hnode.fits
      obtain ⟨hps, hordered⟩ := hpss ps List.mem_cons_self
      generalize hearlier : node.links.findSome? _ = earlier
      cases earlier with
      | none => exact grown_fork h b hnode hfits (.inr hgoal.symm) hps hordered rfl
      | some e =>
        obtain ⟨e, under⟩ := e
        obtain ⟨l, hl, hle⟩ := List.exists_of_findSome?_eq_some hearlier
        obtain ⟨link, below⟩ := l
        cases link with
        | none => cases hle
        | some q =>
          simp only [Option.ite_none_right_eq_some, Option.some.injEq, Prod.mk.injEq] at hle
          obtain ⟨herr, rfl, rfl⟩ := hle
          have hq := hnode.piece hl
          obtain ⟨hbelow, hend⟩ := hnode.placed hl
          refine grown_fork h b (hnode.under hl) hfits ?_ (fun c hc => ?_)
            ((hq.ordered_children.mono hbelow (Nat.le_of_eq hend)).append hordered) rfl
          · rcases hnode.link hl with hlost | ⟨q', hq', ⟨_, hsame⟩ | ⟨_, x, hx, _⟩⟩
            · exact .inl (hgoal ▸ hlost)
            · exact .inr (hgoal ▸ hsame)
            · cases hq'
              rw [Piece.symbol?_of_isError herr] at hx
              cases hx
          · rcases List.mem_append.1 hc with hc | hc
            · exact hq.children hc
            · exact hps c hc

theorem grown_recoverTo (h : s.Ok g src names) (version depth : Nat) (goal : State) {far : Nat}
    (hfar : ∀ x, s.spots[version]? = some x → x.1 ≤ far) :
    Grown g src names (s.recoverTo version depth goal).1 ∧
      Adds s (s.recoverTo version depth goal).1 far := by
  unfold recoverTo
  split
  · exact ⟨h.grown, adds_refl s far⟩
  next b hb =>
    have hfar : b.top.place.offset ≤ far := hfar (spot b) (by rw [getElem?_spots, hb]; rfl)
    have hfold : ∀ (grs : List (Stack × List (List Piece))) (names' : List Name)
        (acc : Search × Bool), (∀ gr ∈ grs, gr ∈ Stack.group (b.top.pop depth)) →
        names <+: names' → acc.1.Ok g src names' →
        Grown g src names' (grs.foldl (fun acc gr => recoverInto b goal acc gr.1 gr.2) acc).1 ∧
          Adds acc.1 (grs.foldl (fun acc gr => recoverInto b goal acc gr.1 gr.2) acc).1 far := by
      intro grs
      induction grs with
      | nil =>
        intro names' acc _ _ hacc
        exact ⟨hacc.grown, adds_refl _ far⟩
      | cons gr grs ih =>
        intro names' acc hgrs hn hacc
        obtain ⟨hnode, _, hall⟩ :=
          ((h.branch hb).top.mono hn).group_pop (hgrs gr List.mem_cons_self)
        have hpss : ∀ ps ∈ gr.2, (∀ p ∈ ps, p.Sound g src) ∧
            Piece.Ordered gr.1.place.offset ps far := by
          intro ps hps
          obtain ⟨_, hsound, hordered⟩ := hall ps hps
          exact ⟨hsound, hordered.mono (Nat.le_refl _) hfar⟩
        obtain ⟨⟨names'', hn', hok⟩, hadds⟩ :=
          grown_recoverInto b goal hacc hnode hpss
        obtain ⟨hgrown, hadds'⟩ := ih names'' _
          (fun gr' hgr' => hgrs gr' (List.mem_cons_of_mem _ hgr')) (hn.trans hn') hok
        exact ⟨hgrown.trans hn', hadds.trans hadds'⟩
    exact hfold _ names (s, false) (fun gr hgr => hgr) List.prefix_rfl h

theorem grown_recoverByLandmark (h : s.Ok g src names) (version : Nat) (next : Leaf) (t : Token)
    (price since : Nat) (place : Cursor) {far : Nat}
    (hfar : ∀ x, s.spots[version]? = some x → x.1 ≤ far) (ls : List Stack.Landmark) :
    Grown g src names (recoverByLandmark g version next t price since place s ls).1 ∧
      Adds s (recoverByLandmark g version next t price since place s ls).1 far := by
  induction ls with
  | nil => exact ⟨h.grown, adds_refl s far⟩
  | cons l ls ih =>
    unfold recoverByLandmark
    split
    · exact ih
    · extract_lets cost
      split
      · exact ⟨h.grown, adds_refl s far⟩
      split
      · split
        next s' done hr =>
          split
          · have hback := grown_recoverTo h version (if 0 < since then l.depth + 1 else l.depth)
              l.state hfar
            rw [hr] at hback
            exact hback
          · exact ih
      · exact ih

theorem grown_skipToken (h : s.Ok g src names) {version : Nat} {next : Leaf}
    (hnext : next.Sound src)
    (hfree : ∀ x, s.spots[version]? = some x → Free next.start.offset x) (since : Nat) :
    Grown g src names (s.skipToken version next since) := by
  unfold skipToken
  split
  · exact h.grown
  next b hb =>
    extract_lets leaf skipped
    have hspot : Free next.start.offset (spot b) := hfree _ (by rw [getElem?_spots, hb]; rfl)
    have hleaf : leaf.Sound g src := .leaf (hnext.withExtra _)
    have halone : ∀ c ∈ [leaf], c.Sound g src := by
      intro c hc
      rw [List.mem_singleton.1 hc]
      exact hleaf
    have hordered : Piece.Ordered next.start.offset [leaf] next.stop.offset :=
      ⟨Nat.le_refl _, hnext.le, Nat.le_refl _⟩
    have hskipped : skipped.Sound g src :=
      Piece.sound_composeSkipped _ _ _ hnext.start halone hordered
    have hstart : next.start.offset ≤ skipped.start.offset :=
      Piece.le_start_compose hordered (Nat.le_refl _)
    have hpush : ∀ {s : Search}, s.Ok g src names → ∀ {c : Branch},
        s.branches[version]? = some c → ∀ {p : Piece}, p.Sound g src → HasRoom c p →
        Grown g src names (s.push version (some p) .lost) := by
      intro s hs c hc p hp hroom
      refine ⟨_, List.prefix_append _ _, ok_push hs Tables.fits_lost (fun _ _ => .inl rfl) hp
        fun a ha => ?_⟩
      rw [hc] at ha
      cases ha
      exact hroom
    split
    · split
      next under ps pss rest hgroup =>
        extract_lets joined
        have hmem : (under, ps :: pss) ∈ Stack.group (b.top.pop 1) := by
          rw [hgroup]
          exact List.mem_cons_self
        obtain ⟨hunder, hplace, hall⟩ := (h.branch hb).top.group_pop hmem
        obtain ⟨_, hps, hpsordered⟩ := hall ps List.mem_cons_self
        have htogether : Piece.Ordered under.place.offset (ps ++ [skipped]) skipped.stop.offset :=
          hpsordered.append ⟨Nat.le_trans hspot.1 hstart, hskipped.le, Nat.le_refl _⟩
        have hjoined : joined.Sound g src := by
          refine Piece.sound_composeSkipped _ _ _ hnext.start (fun c hc => ?_) htogether
          rcases List.mem_append.1 hc with hc | hc
          · exact hps c hc
          · rw [List.mem_singleton.1 hc]
            exact hskipped
        have hnone : ∀ l, b.status = .paused l → False := by
          intro l hl
          have hpaused : b.isPaused = false := hspot.2
          simp [Branch.isPaused, hl] at hpaused
        have hback : (s.modify version fun b => { b with top := under }).Ok g src names := by
          refine ok_modify h fun c hc => ?_
          rw [hb] at hc
          cases hc
          exact ⟨hunder, fun l hl => (hnone l hl).elim⟩
        have hget : (s.modify version fun b => { b with top := under }).branches[version]?
            = some { b with top := under } := by
          rw [modify, List.getElem?_modify_eq, hb]
          rfl
        refine hpush hback hget hjoined ⟨?_, fun l hl => (hnone l hl).elim⟩
        exact Piece.le_start_compose htogether (Nat.le_trans hplace hspot.1)
      · exact h.grown
    · exact hpush h hb hskipped (hasRoom_of_spot hspot hstart)

theorem ok_halt (h : s.Ok g src names) (version : Nat) :
    (s.modify version fun b => { b with status := .halted }).Ok g src names :=
  ok_modify h fun _ hb => ⟨(h.branch hb).top, fun l hl => by cases hl⟩

theorem grown_recover (hg : g.Lawful) (h : s.Ok g src names) {version : Nat} {next : Leaf}
    (hnext : next.Sound src)
    (hfree : ∀ x, s.spots[version]? = some x → Free next.start.offset x) :
    Grown g src names (recover g s version next) := by
  unfold recover
  split
  · exact h.grown
  next b hb =>
    extract_lets previous place since price
    have hversion : version < previous := (List.getElem?_eq_some_iff.1 hb).1
    have hspot : s.spots[version]? = some (spot b) := by
      rw [getElem?_spots, hb]
      rfl
    split
    next s' done hfound =>
      have hback : Grown g src names s' ∧ Adds s s' next.start.offset := by
        split at hfound
        next ls t _ _ =>
          have hland := grown_recoverByLandmark h version next t price since place
            (fun x hx => (hfree x hx).1) ls
          rw [hfound] at hland
          exact hland
        · cases hfound
          exact ⟨h.grown, adds_refl s _⟩
      obtain ⟨⟨names', hn, hok⟩, hadds⟩ := hback
      refine Grown.trans hn ?_
      extract_lets fresh t
      have ht : t.Ok g src names' := by
        refine hok.withBranches fun c hc => ?_
        rcases List.mem_append.1 hc with hc | hc
        · exact hok.branches c (List.mem_of_mem_take hc)
        · exact hok.branches c (List.mem_of_mem_drop (List.mem_filter.1 hc).1)
      have htspot : t.spots[version]? = some (spot b) := by
        rw [← hadds.getElem? hspot, getElem?_spots, getElem?_spots, List.getElem?_append_left,
          List.getElem?_take_of_lt hversion]
        rw [List.length_take]
        exact Nat.lt_min.2 ⟨hversion, Nat.lt_of_lt_of_le hversion hadds.size_le⟩
      have htfree : ∀ x, t.spots[version]? = some x → x = spot b := by
        intro x hx
        exact Option.some.inj (hx.symm.trans htspot)
      split
      · exact (ok_halt ht version).grown
      split
      · exact grown_accept_of_repair hg ht hnext (h.branch hb).top.place
          (fun x hx => htfree x hx ▸ Nat.le_refl _) (hfree _ hspot).1
      split
      · exact (ok_halt ht version).grown
      · exact grown_skipToken ht hnext (fun x hx => htfree x hx ▸ hfree _ hspot) since

/-! ## Reductions that a state allows -/

theorem completes_of_mem_noteAction {st : State} {t : Token} {known : List Nat × Bool} {a : Action}
    (hknown : ∀ n ∈ known.1, Completes st n) (ha : a ∈ g.actions st t) :
    ∀ n ∈ (noteAction g known a).1, Completes st n := by
  intro n hn
  unfold noteAction at hn
  split at hn
  · exact hknown n hn
  next p =>
    split at hn
    · dsimp only at hn
      split at hn
      · exact hknown n hn
      · rcases List.mem_append.1 hn with hn | hn
        · exact hknown n hn
        · rw [List.mem_singleton.1 hn]
          exact Tables.exists_item_of_reduce ha
    · exact hknown n hn
  · exact hknown n hn

theorem completes_of_mem_possible (st : State) (ts : List Token) :
    ∀ n ∈ (possible g st ts).1, Completes st n := by
  have hactions : ∀ (t : Token) (as : List Action), (∀ a ∈ as, a ∈ g.actions st t) →
      ∀ known : List Nat × Bool, (∀ n ∈ known.1, Completes st n) →
      ∀ n ∈ (as.foldl (noteAction g) known).1, Completes st n := by
    intro t as
    induction as with
    | nil =>
      intro _ known hknown
      exact hknown
    | cons a as ih =>
      intro has known hknown
      exact ih (fun b hb => has b (List.mem_cons_of_mem _ hb)) _
        (completes_of_mem_noteAction hknown (has a List.mem_cons_self))
  have htokens : ∀ (ts : List Token) (known : List Nat × Bool),
      (∀ n ∈ known.1, Completes st n) → ∀ n ∈ (ts.foldl (fun known t =>
        (g.actions st t).foldl (noteAction g) known) known).1, Completes st n := by
    intro ts
    induction ts with
    | nil =>
      intro known hknown
      exact hknown
    | cons t ts ih =>
      intro known hknown
      exact ih _ (hactions t _ (fun a ha => ha) known hknown)
  exact htokens ts _ fun n hn => by cases hn

theorem grown_reductions (hg : g.Lawful) {version : Nat} {st : State} {far : Nat} :
    ∀ (ns : List Nat) {names : List Name} {s : Search} (last : Option Nat), s.Ok g src names →
    s.stateAt version = some st → (∀ x, s.spots[version]? = some x → x.1 ≤ far) →
    (∀ n ∈ ns, Completes st n) →
    let r := ns.foldl (fun (s, _) n => reduce g s version n) (s, last)
    Grown g src names r.1 ∧ Adds s r.1 far ∧
      ∀ k, r.2 = some k → last = some k ∨ s.size ≤ k ∧ k < r.1.size := by
  intro ns
  induction ns with
  | nil =>
    intro names s last h _ _ _
    exact ⟨h.grown, adds_refl s far, fun k hk => .inl hk⟩
  | cons n ns ih =>
    intro names s last h hst hfar hns
    obtain ⟨⟨names', hn, hok⟩, hst', hadds, hlast⟩ :=
      grown_reduce hg h hst (hns n List.mem_cons_self) hfar
    obtain ⟨x, hx⟩ : ∃ x, s.spots[version]? = some x := by
      obtain ⟨b, hb, _⟩ := Option.map_eq_some_iff.1 hst
      exact ⟨spot b, by rw [getElem?_spots, hb]; rfl⟩
    have hfar' : ∀ y, (reduce g s version n).1.spots[version]? = some y → y.1 ≤ far := by
      intro y hy
      rw [hadds.getElem? hx] at hy
      cases hy
      exact hfar x hx
    obtain ⟨hgrown, hadds', hlast'⟩ :=
      ih (reduce g s version n).2 hok hst' hfar' fun m hm => hns m (List.mem_cons_of_mem _ hm)
    refine ⟨hgrown.trans hn, hadds.trans hadds', fun k hk => .inr ?_⟩
    rcases hlast' k hk with hk' | ⟨hle, hlt⟩
    · obtain ⟨rfl, hlt⟩ := hlast k hk'
      exact ⟨Nat.le_refl _, Nat.lt_of_lt_of_le hlt hadds'.size_le⟩
    · exact ⟨Nat.le_trans hadds.size_le hle, hlt⟩

/-- In reductions that begin with the branch `start` of the branches `base`: the others of them are
still in their places, and what `start` has led to goes on from no further ahead than byte `n`. -/
structure Reached (base : List (Nat × Bool)) (n start : Nat) (s : Search) : Prop where
  kept : ∀ k < base.length, k ≠ start → s.spots[k]? = base[k]?
  free : ∀ k x, k = start ∨ base.length ≤ k → s.spots[k]? = some x → Free n x

section Reached

variable {base : List (Nat × Bool)} {n start : Nat}

theorem reached_refl (h : ∀ x, s.spots[start]? = some x → Free n x) :
    Reached s.spots n start s := by
  refine ⟨fun k _ _ => rfl, fun k x hk hx => ?_⟩
  rcases hk with rfl | hk
  · exact h x hx
  · rw [List.getElem?_eq_none hk] at hx
    cases hx

theorem Reached.length_le (h : Reached base n start s) {b : Branch}
    (hb : s.branches[start]? = some b) : base.length ≤ s.size := by
  have hstart : start < s.size := (List.getElem?_eq_some_iff.1 hb).1
  cases hlen : base.length with
  | zero => exact Nat.zero_le _
  | succ m =>
    by_cases hm : m = start
    · rw [hm]
      exact hstart
    · have hkept := h.kept m (by omega) hm
      rw [List.getElem?_eq_getElem (show m < base.length by omega)] at hkept
      rw [← length_spots]
      exact (List.getElem?_eq_some_iff.1 hkept).1

/-- Branches that other branches lead to. -/
theorem Reached.adds {s' : Search} (h : Reached base n start s) (hsize : base.length ≤ s.size)
    (hadds : Adds s s' n) : Reached base n start s' := by
  rw [← length_spots] at hsize
  refine ⟨fun k hk hne => ?_, fun k x hk hx => ?_⟩
  · obtain ⟨more, hmore, _⟩ := hadds
    rw [hmore, List.getElem?_append_left (Nat.lt_of_lt_of_le hk hsize), h.kept k hk hne]
  · rcases Nat.lt_or_ge k s.size with hlt | hge
    · have hlt : k < s.spots.length := by rwa [length_spots]
      have hspot : s.spots[k]? = some s.spots[k] := List.getElem?_eq_getElem hlt
      have hsame := hadds.getElem? hspot
      rw [hx] at hsame
      cases hsame
      exact h.free k _ hk hspot
    · exact hadds.free hge hx

/-- A branch that is not one of those before, but perhaps the last of them, is gone. -/
theorem Reached.erase {s' : Search} {j : Nat} (h : Reached base n start s)
    (hs' : s'.spots = s.spots.eraseIdx j)
    (hj : base.length ≤ j ∨ j = start ∧ start + 1 = base.length) : Reached base n start s' := by
  refine ⟨fun k hk hne => ?_, fun k x hk hx => ?_⟩
  · rw [hs', List.getElem?_eraseIdx_of_lt (by omega), h.kept k hk hne]
  · rw [hs', List.getElem?_eraseIdx] at hx
    split at hx
    · exact h.free k x hk hx
    · exact h.free (k + 1) x (by omega) hx

theorem Reached.replace {r v : Nat} (h : Reached base n start s) (hr : base.length ≤ r)
    (hrs : r < s.size) (hv : v = start ∨ base.length ≤ v) (hvs : v < s.size) :
    Reached base n start (s.replace r v) := by
  rw [← length_spots] at hrs hvs
  have hfree : Free n s.spots[r] := h.free r _ (.inr hr) (List.getElem?_eq_getElem hrs)
  have hspots := spots_replace (s := s) (List.getElem?_eq_getElem hrs) hvs
  -- First the branch is put into its place, then it goes where it came from.
  refine ⟨fun k hk hne => ?_, fun k x hk hx => ?_⟩
  · rw [hspots, List.getElem?_eraseIdx_of_lt (by omega), List.getElem?_set_ne (by omega),
      h.kept k hk hne]
  · rw [hspots, List.getElem?_eraseIdx] at hx
    have hset : ∀ m, m = start ∨ base.length ≤ m → (s.spots.set v s.spots[r])[m]? = some x →
        Free n x := by
      intro m hm hx
      by_cases hvm : v = m
      · rw [hvm, List.getElem?_set_self (hvm ▸ hvs)] at hx
        exact Option.some.inj hx ▸ hfree
      · rw [List.getElem?_set_ne hvm] at hx
        exact h.free m x hm hx
    split at hx
    · exact hset k hk hx
    · exact hset (k + 1) (by omega) hx

end Reached

/-- All reductions of a branch keep all right. What they lead to goes on from no further ahead. -/
theorem grown_reduceAll (hg : g.Lawful) {start far : Nat} {t : Option Token}
    (base : List (Nat × Bool)) (ht : t.isSome = true → start + 1 = base.length) (fuel : Nat) :
    ∀ (round version : Nat) {names : List Name} {s : Search} (shiftable : Bool), s.Ok g src names →
    Reached base far start s → version = start ∨ base.length ≤ version →
    Grown g src names (reduceAll g start base.length t fuel round version s shiftable).1 ∧
      Reached base far start
        (reduceAll g start base.length t fuel round version s shiftable).1 := by
  induction fuel with
  | zero =>
    intro round version names s shiftable h hr _
    exact ⟨h.grown, hr⟩
  | succ fuel ih =>
    intro round version names s shiftable h hr hv
    unfold reduceAll
    extract_lets size ts next
    split
    · exact ⟨h.grown, hr⟩
    split
    next s' hjoin =>
      obtain ⟨hok, hspots⟩ := ok_joinAny h hjoin
      obtain ⟨i, hi, _⟩ := of_joinAny_eq_some hjoin
      obtain ⟨hlt, hle⟩ := List.mem_filter.1 hi
      have hlt : i < version := List.mem_range.1 hlt
      have hle : base.length ≤ i := of_decide_eq_true hle
      exact ih _ _ _ hok (hr.erase hspots (.inl (by omega))) hv
    · split
      · exact ⟨h.grown, hr⟩
      next b hb =>
        have hvs : version < s.size := (List.getElem?_eq_some_iff.1 hb).1
        have hsize : base.length ≤ s.size := by
          rcases hv with rfl | hv
          · exact hr.length_le hb
          · omega
        split
        next reductions shifts hpossible =>
          split
          next s' reached hreduced =>
            have hcompletes : ∀ n ∈ reductions, Completes b.top.state n := by
              have hall : ∀ n ∈ (possible g b.top.state ts).1, Completes b.top.state n :=
                completes_of_mem_possible b.top.state ts
              rw [hpossible] at hall
              exact hall
            have hgrown := grown_reductions hg reductions none h
              (show s.stateAt version = some b.top.state by rw [stateAt, hb]; rfl)
              (fun x hx => (hr.free version x hv hx).1) hcompletes
            rw [hreduced] at hgrown
            obtain ⟨⟨names', hn, hok⟩, hadds, hreached⟩ := hgrown
            have hr' : Reached base far start s' := hr.adds hsize hadds
            have hnext : next = start ∨ base.length ≤ next := by
              by_cases hstart : version = start
              · rw [show next = size from if_pos hstart]
                exact .inr hsize
              · rw [show next = version + 1 from if_neg hstart]
                omega
            have hdrop : (if t.isSome then s'.drop version else s').Ok g src names' ∧
                Reached base far start (if t.isSome then s'.drop version else s') := by
              split
              next hsome =>
                refine ⟨ok_drop hok version, hr'.erase (spots_drop version) ?_⟩
                rcases hv with hv | hv
                · exact .inr ⟨hv, ht hsome⟩
                · exact .inl hv
              · exact ⟨hok, hr'⟩
            have hlater : ∀ (round version : Nat) {s : Search} (shiftable : Bool),
                s.Ok g src names' → Reached base far start s →
                version = start ∨ base.length ≤ version →
                Grown g src names (reduceAll g start base.length t fuel round version s shiftable).1
                  ∧ Reached base far start
                    (reduceAll g start base.length t fuel round version s shiftable).1 := by
              intro round version s shiftable h hr hv
              obtain ⟨hgrown, hlast⟩ := ih round version shiftable h hr hv
              exact ⟨hgrown.trans hn, hlast⟩
            split
            · exact hlater _ _ _ hok hr' hnext
            split
            next _ r =>
              split
              · rcases hreached r rfl with hnone | ⟨hle, hlt⟩
                · cases hnone
                · exact hlater _ _ _ (ok_replace hok _ _)
                    (hr'.replace (Nat.le_trans hsize hle) hlt hv
                      (Nat.lt_of_lt_of_le hvs hadds.size_le)) hv
              · exact hlater _ _ _ hdrop.1 hdrop.2 hnext
            · exact hlater _ _ _ hdrop.1 hdrop.2 hnext

theorem grown_reduceAllFrom (hg : g.Lawful) (h : s.Ok g src names) (version far : Nat)
    (t : Option Token) (ht : t.isSome = true → version + 1 = s.size)
    (hfree : ∀ x, s.spots[version]? = some x → Free far x) :
    Grown g src names (reduceAllFrom g s version t).1 ∧
      Reached s.spots far version (reduceAllFrom g s version t).1 := by
  have hgrown := grown_reduceAll hg s.spots (by rwa [length_spots]) reduceFuel 0 version
    false h (reached_refl hfree) (.inl rfl)
  rw [length_spots] at hgrown
  exact hgrown

/-! ## Losing the way -/

theorem Reached.init {base : List (Nat × Bool)} {n : Nat} {x : Nat × Bool}
    (h : Reached (base ++ [x]) n base.length s) : Reached base n base.length s := by
  refine ⟨fun k hk hne => ?_, fun k y hk hy => ?_⟩
  · rw [h.kept k (by rw [List.length_append]; omega) hne, List.getElem?_append_left hk]
  · refine h.free k y ?_ hy
    rw [List.length_append, List.length_singleton]
    omega

theorem Reached.free_of_free {base : List (Nat × Bool)} {n i : Nat}
    (h : Reached base n base.length s) (hfree : ∀ x, base[i]? = some x → Free n x) :
    ∀ x, s.spots[i]? = some x → Free n x := by
  intro x hx
  rcases Nat.lt_or_ge i base.length with hlt | hge
  · rw [h.kept i hlt (Nat.ne_of_lt hlt)] at hx
    exact hfree x hx
  · exact h.free i x (.inr hge) hx

theorem Reached.trans {base : List (Nat × Bool)} {n : Nat} {s' : Search}
    (h : Reached base n base.length s) (h' : Reached s.spots n s.spots.length s') :
    Reached base n base.length s' := by
  refine ⟨fun k hk hne => ?_, fun k x hk => ?_⟩
  · have hkept := h.kept k hk hne
    rw [List.getElem?_eq_getElem hk] at hkept
    have hlt : k < s.spots.length := (List.getElem?_eq_some_iff.1 hkept).1
    rw [h'.kept k hlt (Nat.ne_of_lt hlt), h.kept k hk hne]
  · exact h'.free_of_free (fun y hy => h.free k y hk hy) x

theorem grown_insertMissing (hg : g.Lawful) (v : Nat) (next : Leaf) {far : Nat} (ts : List Token) :
    ∀ {names : List Name} {s : Search}, s.Ok g src names →
    (∀ x, s.spots[v]? = some x → Free far x) →
    Grown g src names (insertMissing g s v next ts).1 ∧
      Reached s.spots far s.spots.length (insertMissing g s v next ts).1 := by
  have hsame : ∀ s : Search, Reached s.spots far s.spots.length s := by
    refine fun s => reached_refl fun x hx => ?_
    rw [List.getElem?_eq_none (Nat.le_refl _)] at hx
    cases hx
  induction ts with
  | nil =>
    intro names s h _
    exact ⟨h.grown, hsame s⟩
  | cons t ts ih =>
    intro names s h hfree
    unfold insertMissing
    split
    · exact ⟨h.grown, hsame s⟩
    next b hb =>
      extract_lets state shifts then_ reduces place made copy s₁ s₂ goal
      split
      · have hspot : Free far (spot b) := hfree _ (by rw [getElem?_spots, hb]; rfl)
        have hmade : (Piece.leaf made).Sound g src :=
          .leaf (Leaf.sound_of_missing (h.branch hb).top.place rfl rfl)
        have hcopied : s₁.Ok g src names := by
          refine ok_append h fun c hc => ?_
          rw [List.mem_singleton.1 hc]
          exact ⟨(h.branch hb).top, (h.branch hb).next⟩
        have hcopy : s₁.branches[copy]? = some { b with landmarks := none } :=
          List.getElem?_concat_length
        have hroom : HasRoom { b with landmarks := none } (.leaf made) :=
          ⟨Nat.le_refl _, fun l hl => ((h.branch hb).next l hl).2⟩
        have hpushed : s₂.Ok g src (names ++ [(then_, place.offset)]) :=
          ok_push_goto hg hcopied hcopy hmade rfl rfl hroom
        have hspots : s₂.spots = s.spots ++ [(place.offset, b.isPaused)] := by
          have hs₁ : s₁.spots = s.spots ++ [spot b] := spots_append _
          rw [show s₂ = s₁.push copy (some (.leaf made)) then_ from rfl, spots_push, hs₁,
            show copy = s.spots.length from s.length_spots.symm, modify_concat]
          rfl
        have hlen : s₂.size = s.spots.length + 1 := by
          rw [← length_spots, hspots, List.length_append, List.length_singleton]
        have hcopyat : copy = s.spots.length := s.length_spots.symm
        split
        next s₃ done hreduced =>
          have hgrown := grown_reduceAllFrom hg hpushed copy far goal
            (fun _ => by rw [hlen, hcopyat]) fun x hx => by
              rw [hspots, hcopyat, List.getElem?_concat_length] at hx
              cases hx
              exact hspot
          rw [hreduced, hspots, hcopyat] at hgrown
          obtain ⟨⟨names', hn, hok⟩, hreached⟩ := hgrown
          have hreached' : Reached s.spots far s.spots.length s₃ := hreached.init
          split
          · exact ⟨⟨names', (List.prefix_append _ _).trans hn, hok⟩, hreached'⟩
          · obtain ⟨hrest, hlast⟩ := ih hok (hreached'.free_of_free hfree)
            exact ⟨hrest.trans ((List.prefix_append _ _).trans hn), hreached'.trans hlast⟩
      · exact ih h hfree

theorem grown_loseWay (hg : g.Lawful) (next : Leaf) {far : Nat} (vs : List Nat) :
    ∀ {names : List Name} {s : Search} (inserted : Bool), s.Ok g src names →
    (∀ v ∈ vs, ∀ x, s.spots[v]? = some x → Free far x) →
    Grown g src names (loseWay g next vs s inserted) ∧
      Reached s.spots far s.spots.length (loseWay g next vs s inserted) := by
  have hsame : ∀ s : Search, Reached s.spots far s.spots.length s := by
    refine fun s => reached_refl fun x hx => ?_
    rw [List.getElem?_eq_none (Nat.le_refl _)] at hx
    cases hx
  induction vs with
  | nil =>
    intro names s inserted h _
    exact ⟨h.grown, hsame s⟩
  | cons v vs ih =>
    intro names s inserted h hfree
    unfold loseWay
    split
    next s' inserted' hinsert =>
      have hgrown : Grown g src names s' ∧ Reached s.spots far s.spots.length s' := by
        split at hinsert
        · cases hinsert
          exact ⟨h.grown, hsame s⟩
        · have hmissing := grown_insertMissing hg v next (Token.all.filter (· ≠ .eof)) h
            (hfree v List.mem_cons_self)
          rw [hinsert] at hmissing
          exact hmissing
      obtain ⟨⟨names', hn, hok⟩, hreached⟩ := hgrown
      obtain ⟨names'', hn', hlost⟩ := grown_lose hok v
      have hrest := ih inserted' hlost fun u hu => by
        rw [spots_lose]
        exact hreached.free_of_free (hfree u (List.mem_cons_of_mem _ hu))
      rw [spots_lose] at hrest
      exact ⟨hrest.1.trans (hn.trans hn'), hreached.trans hrest.2⟩

theorem ok_joins {version previous : Nat} (hv : version < previous) (vs : List Nat) :
    ∀ {s : Search}, s.Ok g src names →
    (vs.foldl (fun s _ => (s.join? version previous).getD s) s).Ok g src names ∧
      (vs.foldl (fun s _ => (s.join? version previous).getD s) s).spots[version]?
        = s.spots[version]? := by
  induction vs with
  | nil =>
    intro s h
    exact ⟨h, rfl⟩
  | cons v vs ih =>
    intro s h
    have hjoined : ((s.join? version previous).getD s).Ok g src names ∧
        ((s.join? version previous).getD s).spots[version]? = s.spots[version]? := by
      cases hj : s.join? version previous with
      | none => exact ⟨h, rfl⟩
      | some s' =>
        obtain ⟨hok, hspots⟩ := ok_join? h hj
        exact ⟨hok, (congrArg (·[version]?) hspots).trans (List.getElem?_eraseIdx_of_lt hv)⟩
    obtain ⟨hok, hspot⟩ := ih hjoined.1
    exact ⟨hok, hspot.trans hjoined.2⟩

theorem grown_handleError (hg : g.Lawful) (h : s.Ok g src names) {version : Nat} {next : Leaf}
    (hnext : next.Sound src) (hv : version < s.size)
    (hfree : ∀ x, s.spots[version]? = some x → Free next.start.offset x) :
    Grown g src names (handleError g s version next) := by
  unfold handleError
  extract_lets previous
  split
  next s₁ shiftable hreduced =>
    extract_lets size others s₂ s₃ s₄
    have hgrown := grown_reduceAllFrom hg h _ _ none nofun hfree
    rw [hreduced] at hgrown
    obtain ⟨⟨names₁, hn₁, hok₁⟩, hreached⟩ := hgrown
    have hfree₁ : ∀ v ∈ version :: others, ∀ x, s₁.spots[v]? = some x →
        Free next.start.offset x := by
      intro v hv
      rcases List.mem_cons.1 hv with rfl | hv
      · exact fun x => hreached.free _ x (.inl rfl)
      · have hle : previous ≤ v := of_decide_eq_true (List.mem_filter.1 hv).2
        exact fun x => hreached.free v x (.inr (by rwa [length_spots]))
    obtain ⟨⟨names₂, hn₂, hok₂⟩, hreached₂⟩ :=
      grown_loseWay hg next (version :: others) false hok₁ hfree₁
    obtain ⟨hok₃, hspot₃⟩ := ok_joins hv others hok₂
    have hok₄ : s₄.Ok g src names₂ :=
      ok_modify hok₃ fun b hb => ⟨(hok₃.branch hb).top, (hok₃.branch hb).next⟩
    have hspot₄ : s₄.spots[version]? = s₂.spots[version]? := by
      have hspots : s₄.spots = s₃.spots.modify version id := spots_modify fun _ => rfl
      rw [hspots, List.modify_id]
      exact hspot₃
    refine (grown_recover hg hok₄ hnext fun x hx => ?_).trans (hn₁.trans hn₂)
    rw [hspot₄] at hx
    exact hreached₂.free_of_free (hfree₁ version List.mem_cons_self) x hx

/-! ## Going on -/

/-- The search that an outcome leaves. -/
def Outcome.search : Outcome → Search
  | .done s => s
  | .reduced s _ _ => s

/-- Carrying out actions that the state of a branch allows keeps all right. Reductions lead to
branches no further ahead, among them the last one. -/
theorem grown_perform (hg : g.Lawful) {version : Nat} {st : State} {t : Token} {next : Leaf}
    (hnext : next.Sound src) (as : List Action) :
    ∀ {names : List Name} {s : Search} (last : Option Nat) (any : Bool), s.Ok g src names →
    s.stateAt version = some st → (∀ x, s.spots[version]? = some x → Free next.start.offset x) →
    (∀ a ∈ as, a ∈ g.actions st t) →
    Grown g src names (perform g version st next as s last any).search ∧
      ∀ s' last' any', perform g version st next as s last any = .reduced s' last' any' →
        Adds s s' next.start.offset ∧
          ∀ r, last' = some r → last = some r ∨ s.size ≤ r ∧ r < s'.size := by
  induction as with
  | nil =>
    intro names s last any h _ _ _
    refine ⟨h.grown, fun s' last' any' hr => ?_⟩
    cases hr
    exact ⟨adds_refl s _, fun r hr => .inl hr⟩
  | cons a as ih =>
    intro names s last any h hst hfree has
    have hrest : ∀ a ∈ as, a ∈ g.actions st t := fun a ha => has a (List.mem_cons_of_mem _ ha)
    obtain ⟨b, hb, htop⟩ := Option.map_eq_some_iff.1 hst
    have hx : s.spots[version]? = some (spot b) := by
      rw [getElem?_spots, hb]
      rfl
    cases a with
    | shift repeats =>
      cases repeats with
      | true => exact ih last any h hst hfree hrest
      | false =>
        unfold perform
        split
        next u hu =>
          have hleaf : (Piece.leaf { next with extra := false }).Sound g src :=
            .leaf (hnext.withExtra false)
          have hsymbol : (Piece.leaf { next with extra := false }).symbol? = some (.token u) := by
            simp only [Piece.symbol?, hu, Option.map_some]
          rw [← htop]
          exact ⟨⟨_, List.prefix_append _ _, ok_push_goto hg h hb hleaf rfl hsymbol
            (hasRoom_of_spot (hfree _ hx) (Nat.le_refl _))⟩, fun _ _ _ hr => by cases hr⟩
        · exact ⟨h.grown, fun _ _ _ hr => by cases hr⟩
    | reduce n =>
      obtain ⟨⟨names', hn, hok⟩, hst', hadds, hlast⟩ :=
        grown_reduce hg h hst (Tables.exists_item_of_reduce (has _ List.mem_cons_self))
          fun x hx => (hfree x hx).1
      obtain ⟨hgrown, hall⟩ := ih ((reduce g s version n).2.or last) true hok hst' (fun y hy => by
        rw [hadds.getElem? hx] at hy
        exact hfree y (hx.trans hy)) hrest
      refine ⟨hgrown.trans hn, fun s' last' any' hr => ?_⟩
      obtain ⟨hadds', hlast'⟩ := hall s' last' any' hr
      refine ⟨hadds.trans hadds', fun r hr => ?_⟩
      rcases hlast' r hr with hr | ⟨hle, hlt⟩
      · rcases Option.or_eq_some_iff.1 hr with hr | ⟨_, hr⟩
        · obtain ⟨rfl, hlt⟩ := hlast r hr
          exact .inr ⟨Nat.le_refl _, Nat.lt_of_lt_of_le hlt hadds'.size_le⟩
        · exact .inl hr
      · exact .inr ⟨Nat.le_trans hadds.size_le hle, hlt⟩
    | accept =>
      exact ⟨grown_accept_of_completes hg h hst
        (Tables.exists_item_of_accept (has _ List.mem_cons_self)) hnext
        fun x hx => (hfree x hx).1, fun _ _ _ hr => by cases hr⟩

theorem sound_asIdentifier {l : Leaf} (h : l.Sound src) (hk : l.keyword = true) :
    Leaf.Sound src { l with token := some .identifier } :=
  ⟨h.start, h.stop, h.le, fun _ => h.name (.inr hk), nofun, nofun⟩

theorem grown_advanceOn (hg : g.Lawful) (fuel version : Nat) :
    ∀ {names : List Name} {s : Search} {next : Leaf}, s.Ok g src names → next.Sound src →
    (∀ x, s.spots[version]? = some x → Free next.start.offset x) →
    Grown g src names (advanceOn g fuel s version next) := by
  induction fuel with
  | zero =>
    intro names s next h _ _
    exact (ok_halt h version).grown
  | succ fuel ih =>
    intro names s next h hnext hfree
    unfold advanceOn
    split
    · exact h.grown
    next b hb =>
      have hst : s.stateAt version = some b.top.state := by
        rw [stateAt, hb]
        rfl
      have hx : s.spots[version]? = some (spot b) := by
        rw [getElem?_spots, hb]
        rfl
      have hv : version < s.size := (List.getElem?_eq_some_iff.1 hb).1
      extract_lets state halt
      split
      · have hstays : Stays s version state := by
          intro c hc
          rw [hb] at hc
          cases hc
          exact .inr rfl
        exact ⟨_, List.prefix_append _ _,
          ok_push_extra h (h.branch hb).top.fits hstays (.leaf (hnext.withExtra true)) rfl
            (hasRoom_of_spots hx (hfree _ hx) (Nat.le_refl _))⟩
      split
      · exact grown_recover hg h hnext hfree
      · have hperform : Grown g src names (perform g version state next
              (next.token.elim [] (g.actions state)) s none false).search ∧
            ∀ s' last any, perform g version state next
              (next.token.elim [] (g.actions state)) s none false = .reduced s' last any →
              Adds s s' next.start.offset ∧ ∀ r, last = some r → s.size ≤ r ∧ r < s'.size := by
          cases next.token with
          | none =>
            refine ⟨h.grown, fun s' last any hr => ?_⟩
            cases hr
            exact ⟨adds_refl s _, fun r hr => by cases hr⟩
          | some t =>
            obtain ⟨hgrown, hall⟩ :=
              grown_perform hg hnext (g.actions state t) none false h hst hfree fun a ha => ha
            refine ⟨hgrown, fun s' last any hr => ?_⟩
            obtain ⟨hadds, hlast⟩ := hall s' last any hr
            refine ⟨hadds, fun r hr => (hlast r hr).resolve_left fun hnone => ?_⟩
            cases hnone
        obtain ⟨⟨names', hn, hok⟩, hall⟩ := hperform
        refine Grown.trans hn ?_
        have hstays : ∀ {s' : Search}, Adds s s' next.start.offset →
            ∀ x, s'.spots[version]? = some x → Free next.start.offset x := by
          intro s' hadds x hx'
          rw [hadds.getElem? hx] at hx'
          exact hfree x (hx.trans hx')
        split
        next s' hdone =>
          rw [hdone] at hok
          exact hok.grown
        next s' r any hreduced =>
          rw [hreduced] at hok
          obtain ⟨hadds, hlast⟩ := hall _ _ _ hreduced
          obtain ⟨hle, hlt⟩ := hlast r rfl
          have hvr : version < r := Nat.lt_of_lt_of_le hv hle
          refine ih (ok_replace hok r version) hnext fun x hx' => ?_
          rw [← length_spots] at hlt
          have hr := List.getElem?_eq_getElem hlt
          rw [spots_replace hr (Nat.lt_trans hvr hlt), List.getElem?_eraseIdx_of_lt hvr,
            List.getElem?_set_self (Nat.lt_trans hvr hlt), Option.some.injEq] at hx'
          exact hx' ▸ hadds.free hle hr
        next s' hreduced =>
          rw [hreduced] at hok
          exact (ok_halt hok version).grown
        next s' hreduced =>
          rw [hreduced] at hok
          have hok : s'.Ok g src names' := hok
          have hfree' := hstays (hall _ _ _ hreduced).1
          split
          next hkeyword =>
            simp only [Bool.and_eq_true] at hkeyword
            exact ih hok (sound_asIdentifier hnext hkeyword.1.1) hfree'
          · have hpaused : (s'.modify version fun b =>
                { b with status := .paused next, mark := b.top.progress }).Ok g src names' := by
              refine ok_modify hok fun c hc => ⟨(hok.branch hc).top, fun l hl => ?_⟩
              cases hl
              exact ⟨hnext, (hfree' (spot c) (by rw [getElem?_spots, hc]; rfl)).1⟩
            exact hpaused.grown

theorem grown_advance (hg : g.Lawful) (h : s.Ok g src names) (version : Nat)
    (hactive : ∀ b, s.branches[version]? = some b → b.isPaused = false) :
    Grown g src names (advance g s version) := by
  unfold advance
  split
  · exact h.grown
  next b hb =>
    obtain ⟨hsound, hplace⟩ := sound_read (g := g) b.top.state (h.branch hb).top.place
    refine grown_advanceOn hg _ version h hsound fun x hx => ?_
    rw [getElem?_spots, hb] at hx
    cases hx
    exact ⟨hplace, hactive b hb⟩

theorem grown_advanceTo (hg : g.Lawful) (version fuel : Nat) :
    ∀ {names : List Name} {s : Search} (last : Nat), s.Ok g src names →
    Grown g src names (advanceTo g version fuel s last).1 := by
  induction fuel with
  | zero =>
    intro names s last h
    exact h.grown
  | succ fuel ih =>
    intro names s last h
    unfold advanceTo
    split
    · exact h.grown
    next b hb =>
      split
      · exact h.grown
      next hactive =>
        obtain ⟨names', hn, hok⟩ := grown_advance hg h version fun c hc => by
          rw [hb] at hc
          cases hc
          cases hstatus : b.status with
          | active => simp [Branch.isPaused, hstatus]
          | paused l => simp [Branch.isActive, hstatus] at hactive
          | halted => simp [Branch.isPaused, hstatus]
        refine Grown.trans hn ?_
        extract_lets s' place
        split
        · exact hok.grown
        · exact ih last hok

theorem grown_advanceAll (hg : g.Lawful) (fuel : Nat) :
    ∀ (version : Nat) {names : List Name} {s : Search} (last : Nat), s.Ok g src names →
    Grown g src names (advanceAll g fuel version s last).1 := by
  induction fuel with
  | zero =>
    intro version names s last h
    exact h.grown
  | succ fuel ih =>
    intro version names s last h
    unfold advanceAll
    split
    · exact h.grown
    · split
      next s' last' hadvanced =>
        have hgrown := grown_advanceTo hg version reduceFuel last h
        rw [hadvanced] at hgrown
        obtain ⟨names', hn, hok⟩ := hgrown
        exact (ih (version + 1) last' hok).trans hn

/-! ## Between two rounds -/

theorem ok_joinOr (h : s.Ok g src names) {i j : Nat} {r : Search × Option Nat} (hr : r.1.Ok g src names) :
    (match s.join? j i with
      | some s => (s, none)
      | none => r).1.Ok g src names := by
  split
  next s' hj => exact (ok_join? h hj).1
  · exact hr

theorem ok_compareWith (came : Branch.Standing) (fuel : Nat) :
    ∀ {s : Search} (i j : Nat), s.Ok g src names → (compareWith came fuel s i j).1.Ok g src names := by
  induction fuel with
  | zero =>
    intro s i j h
    exact h
  | succ fuel ih =>
    intro s i j h
    unfold compareWith
    split
    · exact h
    split
    next a b ha hb =>
      have hswapped : Ok g src names { s with branches := (s.branches.set i a).set j b } := by
        refine h.withBranches fun c hc => ?_
        rcases List.mem_or_eq_of_mem_set hc with hc | rfl
        · rcases List.mem_or_eq_of_mem_set hc with hc | rfl
          · exact h.branches c hc
          · exact h.branch ha
        · exact h.branch hb
      split
      · exact ok_drop h i
      · exact ok_joinOr h (ih i (j + 1) h)
      · exact ok_joinOr h (ih i (j + 1) h)
      · exact ok_joinOr h (ih i (j + 1) hswapped)
      · exact ih _ _ (ok_drop h j)
    · exact h

theorem ok_sift (fuel : Nat) : ∀ {s : Search} (i : Nat) (least : Option Nat), s.Ok g src names →
    (sift fuel s i least).1.Ok g src names := by
  induction fuel with
  | zero =>
    intro s i least h
    exact h
  | succ fuel ih =>
    intro s i least h
    unfold sift
    split
    · exact h
    split
    · exact ih _ _ (ok_drop h i)
    · extract_lets st least'
      have hcompared := ok_compareWith st (2 * s.size + 2) i 0 h
      split
      next s' i' hs' =>
        rw [hs'] at hcompared
        exact ih _ _ hcompared
      next s' hs' =>
        rw [hs'] at hcompared
        exact ih _ _ hcompared

theorem grown_wake (hg : g.Lawful) (fuel : Nat) :
    ∀ (n : Nat) {names : List Name} {s : Search} (i : Nat) (goes : Bool) (least : Option Nat),
    s.Ok g src names → Grown g src names (wake g fuel n s i goes least).1 := by
  induction fuel with
  | zero =>
    intro n names s i goes least h
    exact h.grown
  | succ fuel ih =>
    intro n names s i goes least h
    unfold wake
    split
    · exact h.grown
    split
    · exact h.grown
    next b hb =>
      split
      next next hnext =>
        split
        · extract_lets least' s'
          have hok' : s'.Ok g src names := by
            exact ok_modify h fun c hc => ⟨(h.branch hc).top, fun l hl => by cases hl⟩
          obtain ⟨hsound, hplace⟩ := (h.branch hb).next next hnext
          have hget : s'.branches[i]? = some { b with status := .active } := by
            rw [show s' = s.modify i _ from rfl, modify, List.getElem?_modify_eq, hb]
            rfl
          obtain ⟨names', hn, hok⟩ := grown_handleError hg hok' hsound
            (List.getElem?_eq_some_iff.1 hget).1 fun x hx => by
              rw [getElem?_spots, hget] at hx
              cases hx
              exact ⟨hplace, rfl⟩
          exact (ih n (i + 1) true least' hok).trans hn
        · exact ih _ _ _ _ (ok_drop h i)
      · exact ih _ _ _ _ h

theorem grown_condense (hg : g.Lawful) (h : s.Ok g src names) :
    Grown g src names (condense g s).1 := by
  unfold condense
  split
  next s' least hsift =>
    have hok := ok_sift (4 * s.size * s.size + 8) 0 none h
    rw [hsift] at hok
    exact grown_wake hg _ _ _ _ _ (ok_take hok maxBranches)

/-- The parse that the rounds of a right search end with is whole. -/
theorem whole_rounds (hg : g.Lawful) (fuel : Nat) :
    ∀ {names : List Name} {s : Search} (last : Nat), s.Ok g src names →
    ∀ r, rounds g fuel s last = some r → r.Whole g src := by
  induction fuel with
  | zero =>
    intro names s last h r hr
    exact h.best r hr
  | succ fuel ih =>
    intro names s last h r hr
    unfold rounds at hr
    split at hr
    next s₁ last₁ hadvanced =>
      split at hr
      next s₂ least hcondensed =>
        have hgrown₁ := grown_advanceAll hg 64 0 last h
        rw [hadvanced] at hgrown₁
        obtain ⟨names₁, _, hok₁⟩ := hgrown₁
        have hgrown₂ := grown_condense hg hok₁
        rw [hcondensed] at hgrown₂
        obtain ⟨names₂, _, hok₂⟩ := hgrown₂
        have hok₂ : s₂.Ok g src names₂ := hok₂
        split at hr
        · split at hr
          · exact hok₂.best r hr
          · exact ih last₁ hok₂ r hr
        · split at hr
          · cases hr
          · exact ih last₁ hok₂ r hr

end Search

/-- The parse of a text is sound, and a file unless all is skipped. -/
theorem whole_parsePiece {g : Tables} (hg : g.Lawful) {cs : List Char} {r : Piece}
    (h : parsePiece g cs = some r) : r.Whole g cs := by
  have hstart : Search.Ok g cs [(g.start, 0)]
      { branches := [{ top := Stack.bottom g.start (Cursor.ofChars cs) }] } := by
    refine ⟨rfl, fun b hb => ?_, nofun⟩
    rw [List.mem_singleton.1 hb]
    exact ⟨Stack.ok_bottom hg cs, fun l hl => by cases hl⟩
  exact Search.whole_rounds hg _ 0 hstart r h

end Go
end RouteScribe
