import RouteScribe.Proofs.Go.Search

/-!
# RouteScribe.Proofs.Go.Accept

The end of a parse. A branch whose state has a complete file has nothing but that file and extras
on its stack, so the parse of the whole text is a sound phrase; a branch that has lost its way ends
as skipped text.

* `main_of_file`: what lies below a complete file.
* `whole_of_accept`, `whole_of_repair`: the parses of the whole text.
* `grown_accept`: accepting keeps the search right.
-/

namespace RouteScribe
namespace Go
namespace Search

open Stack (Name)

variable {g : Tables} {src : List Char} {names : List Name} {s : Search}

/-- What the parse of the whole text is made from: the last phrase, with extras behind it. -/
theorem of_root?_eq_some {ps : List Piece} {r : Piece} (h : root? g ps = some r) :
    ∃ n cs us vs, ps = us ++ .node n cs :: vs ∧
      (Piece.node n cs).extra = false ∧ (∀ v ∈ vs, v.extra = true) ∧
      r = Piece.compose n.label n.production
        (match n.label with
          | .symbol _ => (g.productions[n.production]?.map (·.steps)).getD []
          | _ => []) 0 n.start (us ++ cs ++ vs) := by
  unfold root? at h
  split at h
  · cases h
  next k hk =>
    extract_lets at_ at h
    split at h
    next n cs hget =>
      obtain ⟨hlt, hmain, hextras⟩ := List.findIdx?_eq_some_iff_getElem.1 hk
      obtain ⟨hat, hnode⟩ := List.getElem?_eq_some_iff.1 hget
      rw [List.length_reverse] at hlt
      rw [List.getElem_reverse, hnode] at hmain
      refine ⟨n, cs, ps.take at_, ps.drop (at_ + 1), ?_, by simpa using hmain,
        fun v hv => ?_, (Option.some.inj h).symm⟩
      · rw [← hnode, ← List.drop_eq_getElem_cons hat, List.take_append_drop]
      · obtain ⟨m, hm, rfl⟩ := List.getElem_of_mem hv
        rw [List.length_drop] at hm
        have hj := hextras (k - 1 - m) (by omega)
        rw [List.getElem_reverse] at hj
        rw [List.getElem_drop]
        have hidx : ps.length - 1 - (k - 1 - m) = at_ + 1 + m := by omega
        simp only [hidx] at hj
        simpa using hj
    · cases h

/-- On each way down from the item of the whole file nothing but one file is passed, apart from
extras. -/
theorem main_of_file (hg : g.Lawful) {t : Stack} (ht : t.Ok g src names) (hc : Completes t.state 0)
    {w : Stack.Way} (hw : Stack.Way.From t w) :
    (w.count = 0 ∧ Piece.main w.pieces = []) ∨
      ∃ q, Piece.main w.pieces = [q] ∧ q.symbol? = some (.phrase .sourceFile) ∧
        ∃ j ∈ w.top.state.items, j.production = 0 ∧ j.dot = 0 := by
  obtain ⟨i, hi, hrest, hprod⟩ := hc
  have hdot : i.dot = 1 := by
    obtain ⟨p, hp, _, hdrop⟩ := ht.fits i hi
    rw [hprod, hg.whole] at hp
    cases hp
    rw [hrest] at hdrop
    have hlen := congrArg List.length hdrop
    simp only [List.length_nil, List.length_drop, Tables.codes, List.length_map,
      List.length_singleton] at hlen
    obtain ⟨p, hp, hle, _⟩ := ht.fits i hi
    rw [hprod, hg.whole] at hp
    cases hp
    simp only [List.length_singleton] at hle
    omega
  induction hw with
  | here => exact .inl ⟨rfl, rfl⟩
  | @down w l hw hl ih =>
    obtain ⟨link, under⟩ := l
    have hlink := (ht.top hw).link hl
    rcases ih with ⟨hcount, hmain⟩ | ⟨q, hq, hsymbol, j, hj, hjp, hjd⟩
    · obtain ⟨_, hitem⟩ := Stack.read_of_item hg ht hi (hprod ▸ hg.whole) hw (by omega)
      obtain ⟨j, hj, hjp, hjd⟩ := hitem (by omega)
      obtain ⟨q, rfl, ⟨hextra, _⟩ | ⟨hnot, x, hx, hstate⟩⟩ := hlink.of_item hj
      · refine .inl ⟨?_, ?_⟩
        · simp only [Stack.Way.down, hextra, if_true, hcount]
        · simp only [Stack.Way.down, Piece.main_cons_of_extra _ hextra, hmain]
      · rw [hstate] at hj
        obtain ⟨p, hp, hlast, hbefore⟩ :=
          Tables.read_of_mem_goto hg ((ht.top hw).under hl).fits hj
        rw [hjp, hprod, hg.whole] at hp
        cases hp
        have hx' : x = .phrase .sourceFile := by
          rw [hjd, hdot, hcount] at hlast
          exact Symbol.code_injective (Option.some.inj hlast).symm
        rcases hbefore with ⟨_, hne⟩ | ⟨k, hk, hkp, hkd⟩
        · exact absurd (hjp.trans hprod) hne
        · refine .inr ⟨q, ?_, hx' ▸ hx, k, hk, hkp.trans (hjp.trans hprod), by omega⟩
          simp only [Stack.Way.down, Piece.main_cons_of_main _ hnot, hmain]
    · obtain ⟨p, rfl, ⟨hextra, hstate⟩ | ⟨_, x, _, hstate⟩⟩ := hlink.of_item hj
      · refine .inr ⟨q, ?_, hsymbol, j, ?_, hjp, hjd⟩
        · simp only [Stack.Way.down, Piece.main_cons_of_extra _ hextra, hq]
        · rw [hstate] at hj
          exact hj
      · rw [hstate] at hj
        have := Tables.dot_pos_of_mem_goto hg hj
        omega

theorem whole_of_file {n : Summary} {cs us vs : List Piece} {ss : List Step}
    (hps : ∀ p ∈ us ++ .node n cs :: vs, p.Sound g src) {a b : Nat}
    (ho : Piece.Ordered a (us ++ .node n cs :: vs) b) (hus : Piece.main us = [])
    (hvs : ∀ v ∈ vs, v.extra = true) (hn : n.label = .symbol (.phrase .sourceFile))
    (hss : ss = (g.productions[n.production]?.map (·.steps)).getD []) :
    (Piece.compose n.label n.production ss 0 n.start (us ++ cs ++ vs)).Whole g src := by
  have hnode : (Piece.node n cs).Sound g src :=
    hps _ (List.mem_append_right _ List.mem_cons_self)
  obtain ⟨p, hp, hhead, hfollows⟩ := hnode.truthful.follows _ hn
  have hall : ∀ c ∈ us ++ cs ++ vs, c.Sound g src := by
    intro c hc
    rcases List.mem_append.1 hc with hc | hc
    · rcases List.mem_append.1 hc with hc | hc
      · exact hps c (List.mem_append_left _ hc)
      · exact hnode.children hc
    · exact hps c (List.mem_append_right _ (List.mem_cons_of_mem _ hc))
  have hmain : Piece.Follows p.steps (us ++ cs ++ vs) := by
    unfold Piece.Follows
    rw [Piece.main_append, Piece.main_append, hus, Piece.main_eq_nil hvs, List.nil_append,
      List.append_nil]
    exact hfollows
  have hsteps : ss = p.steps := by
    rw [hss, hp]
    rfl
  rw [hn, hsteps, ← hhead]
  exact ⟨Piece.sound_compose 0 hnode.start hp hall (ho.splice hnode) hmain,
    .inl (by rw [Piece.symbol?_compose, hhead])⟩

theorem whole_of_accept (hg : g.Lawful) {t : Stack} (ht : t.Ok g src names)
    (hc : Completes t.state 0) {l : Leaf} (hl : l.Sound src)
    (hplace : t.place.offset ≤ l.start.offset) {w : Stack.Way} (hw : Stack.Way.From t w) {r : Piece}
    (h : root? g (w.pieces ++ [.leaf l]) = some r) : r.Whole g src := by
  obtain ⟨n, cs, us, vs, hps, hextra, hvs, rfl⟩ := of_root?_eq_some h
  have hordered : Piece.Ordered w.top.place.offset (us ++ .node n cs :: vs) l.stop.offset := by
    rw [← hps]
    exact (ht.ordered hw).append ⟨hplace, hl.le, Nat.le_refl _⟩
  have hsound : ∀ p ∈ us ++ .node n cs :: vs, p.Sound g src := by
    intro p hp
    rw [← hps] at hp
    rcases List.mem_append.1 hp with hp | hp
    · exact ht.pieces hw p hp
    · rw [List.mem_singleton.1 hp]
      exact .leaf hl
  have hmain : Piece.main w.pieces ++ Piece.main [.leaf l]
      = Piece.main us ++ [Piece.node n cs] := by
    rw [← Piece.main_append, hps, Piece.main_append, Piece.main_cons_of_main vs hextra,
      Piece.main_eq_nil hvs]
  cases hle : (Piece.leaf l).extra with
  | false =>
    rw [Piece.main_cons_of_main [] hle, Piece.main_nil] at hmain
    have hlast := (List.append_inj' hmain rfl).2
    cases hlast
  | true =>
    rw [Piece.main_cons_of_extra [] hle, Piece.main_nil, List.append_nil] at hmain
    rcases main_of_file hg ht hc hw with ⟨_, hnil⟩ | ⟨q, hq, hsymbol, _⟩
    · rw [hnil] at hmain
      simp at hmain
    · rw [hq] at hmain
      have hsplit : [] ++ [q] = Piece.main us ++ [Piece.node n cs] := hmain
      obtain ⟨hus, hnode⟩ := List.append_inj' hsplit rfl
      cases hnode
      have hn : n.label = .symbol (.phrase .sourceFile) := by
        cases hlabel : n.label with
        | symbol x =>
          simp only [Piece.symbol?, hlabel, Option.some.injEq] at hsymbol
          rw [hsymbol]
        | error => simp [Piece.symbol?, hlabel] at hsymbol
        | skipped => simp [Piece.symbol?, hlabel] at hsymbol
      refine whole_of_file hsound hordered hus.symm hvs hn ?_
      rw [hn]

theorem whole_of_repair {t : Stack} (ht : t.Ok g src names) {l : Leaf} (hl : l.Sound src)
    {here : Cursor} (hhere : here.Within src) (hplace : t.place.offset ≤ here.offset)
    (hnext : here.offset ≤ l.start.offset) {w : Stack.Way} (hw : Stack.Way.From t w) {r : Piece}
    (h : root? g (w.pieces ++ [Piece.compose .error 0 [] 0 here [], .leaf l]) = some r) :
    r.Whole g src := by
  obtain ⟨n, cs, us, vs, hps, hextra, hvs, rfl⟩ := of_root?_eq_some h
  have hnothing : (Piece.compose .error 0 [] 0 here []).Sound g src :=
    Piece.sound_composeError 0 [] 0 hhere nofun (a := 0) (Nat.zero_le 0)
  have hordered : Piece.Ordered w.top.place.offset (us ++ .node n cs :: vs) l.stop.offset := by
    rw [← hps]
    exact (ht.ordered hw).append ⟨hplace, Nat.le_refl _, hnext, hl.le, Nat.le_refl _⟩
  have hsound : ∀ p ∈ us ++ .node n cs :: vs, p.Sound g src := by
    intro p hp
    rw [← hps] at hp
    rcases List.mem_append.1 hp with hp | hp
    · exact ht.pieces hw p hp
    · rcases List.mem_cons.1 hp with rfl | hp
      · exact hnothing
      · rw [List.mem_singleton.1 hp]
        exact .leaf hl
  have hmain : Piece.main w.pieces ++ Piece.main [Piece.compose .error 0 [] 0 here [], .leaf l]
      = Piece.main us ++ [Piece.node n cs] := by
    rw [← Piece.main_append, hps, Piece.main_append, Piece.main_cons_of_main vs hextra,
      Piece.main_eq_nil hvs]
  have hlabel : n.label = .error := by
    rw [Piece.main_cons_of_main _ (Piece.extra_compose ..)] at hmain
    cases hle : (Piece.leaf l).extra with
    | false =>
      rw [Piece.main_cons_of_main [] hle, Piece.main_nil] at hmain
      have hlast := congrArg List.getLast? hmain
      simp at hlast
    | true =>
      rw [Piece.main_cons_of_extra [] hle, Piece.main_nil] at hmain
      have hlast := (List.append_inj' hmain rfl).2
      cases hlast
      rfl
  have hnode : (Piece.node n cs).Sound g src :=
    hsound _ (List.mem_append_right _ List.mem_cons_self)
  have hall : ∀ c ∈ us ++ cs ++ vs, c.Sound g src := by
    intro c hc
    rcases List.mem_append.1 hc with hc | hc
    · rcases List.mem_append.1 hc with hc | hc
      · exact hsound c (List.mem_append_left _ hc)
      · exact hnode.children hc
    · exact hsound c (List.mem_append_right _ (List.mem_cons_of_mem _ hc))
  rw [hlabel]
  exact ⟨Piece.sound_composeError _ _ _ hnode.start hall (hordered.splice hnode),
    .inr ⟨rfl, Piece.cost_composeError _ _ _ _ _⟩⟩

theorem ok_offer (h : s.Ok g src names) {r : Piece} (hr : r.Whole g src) : (s.offer r).Ok g src names := by
  refine ⟨h.fresh, h.branches, fun q hq => ?_⟩
  simp only [offer] at hq
  split at hq
  next best ht =>
    split at hq
    · cases hq
      exact hr
    · cases hq
      exact h.best _ ht
  · cases hq
    exact hr

theorem ok_offers (rs : List Piece) : ∀ {s : Search}, s.Ok g src names → (∀ r ∈ rs, r.Whole g src) →
    (rs.foldl offer s).Ok g src names ∧ (rs.foldl offer s).branches = s.branches := by
  induction rs with
  | nil =>
    intro s h _
    exact ⟨h, rfl⟩
  | cons r rs ih =>
    intro s h hrs
    exact ih (ok_offer h (hrs r List.mem_cons_self)) fun q hq => hrs q (List.mem_cons_of_mem _ hq)

/-- A stack with pieces at the end of the text on it: it has a name of its own, and its ways down
pass these pieces. -/
theorem of_finish (hg : g.Lawful) (ps : List Piece) : ∀ (t : Stack) (names : List Name),
    names[t.id]? = some (t.state, t.place.offset) → t.state.Fits g → t.place.Within src →
    (∀ p ∈ ps, p.stop.Within src) →
    ∃ names', names <+: names' ∧ (finish g t names.length ps).2 = names'.length ∧
      (finish g t names.length ps).1.cut.Ok g src names' ∧
      ∀ w, Stack.Way.From (finish g t names.length ps).1 w → w.top.links = [] →
        ∃ v, Stack.Way.From t v ∧ v.top = w.top ∧ w.pieces = v.pieces ++ ps := by
  induction ps with
  | nil =>
    intro t names hname hfits hplace _
    refine ⟨names, List.prefix_rfl, rfl, ?_, fun w hw _ => ⟨w, hw, rfl, (List.append_nil _).symm⟩⟩
    cases t with
    | mk i d st pl ls c n f => exact Stack.ok_mk hname hfits hplace nofun
  | cons p ps ih =>
    intro t names hname hfits _ hps
    have hpush : (names ++ [(g.start, p.stop.offset)])[(t.push names.length (some p) g.start).id]?
        = some ((t.push names.length (some p) g.start).state,
          (t.push names.length (some p) g.start).place.offset) := List.getElem?_concat_length
    obtain ⟨names', hn, hfresh, hok, hways⟩ :=
      ih (t.push names.length (some p) g.start) (names ++ [(g.start, p.stop.offset)]) hpush
        (Tables.fits_start hg) (hps p List.mem_cons_self)
        fun q hq => hps q (List.mem_cons_of_mem _ hq)
    rw [List.length_append, List.length_singleton] at hfresh hok hways
    refine ⟨names', (List.prefix_append _ _).trans hn, hfresh, hok, fun w hw hlinks => ?_⟩
    obtain ⟨v, hv, htop, hpieces⟩ := hways w hw hlinks
    rcases Stack.from_push hv with rfl | ⟨u, hu, htop', hpieces'⟩
    · rw [← htop, Stack.links_push] at hlinks
      cases hlinks
    · exact ⟨u, hu, htop'.trans htop, by rw [hpieces, hpieces', List.append_assoc]; rfl⟩

/-- Taking the parse of a branch as one of the whole text keeps all right, if the parse is one. -/
theorem grown_accept (hg : g.Lawful) (h : s.Ok g src names) {i : Nat} {ps : List Piece}
    (hps : ∀ p ∈ ps, p.stop.Within src)
    (hwhole : ∀ b, s.branches[i]? = some b → ∀ v, Stack.Way.From b.top v →
      ∀ r, root? g (v.pieces ++ ps) = some r → r.Whole g src) :
    Grown g src names (accept g s i ps) := by
  unfold accept
  split
  · exact h.grown
  next b hb =>
    have hb' := h.branch hb
    obtain ⟨names', hn, hfresh, hcut, hways⟩ :=
      of_finish hg ps b.top names hb'.top.name hb'.top.fits hb'.top.place hps
    rw [← h.fresh] at hfresh hcut hways
    have hroots : ∀ r ∈ (Stack.group (finish g b.top s.fresh ps).1.popAll).flatMap
        (fun gr => gr.2.filterMap (root? g)), r.Whole g src := by
      intro r hr
      obtain ⟨gr, hgr, hr⟩ := List.mem_flatMap.1 hr
      obtain ⟨qs, hqs, hroot⟩ := List.mem_filterMap.1 hr
      obtain ⟨w, hw, _, rfl⟩ := (Stack.groupOf_of_mem_group gr hgr).2 qs hqs
      obtain ⟨hfrom, hlinks⟩ := Stack.from_of_mem_popAll hw
      obtain ⟨v, hv, _, hpieces⟩ := hways w hfrom hlinks
      rw [hpieces] at hroot
      exact hwhole b hb v hv r hroot
    obtain ⟨hok, hbranches⟩ := ok_offers _ h hroots
    have hok' : Ok g src names' { ((Stack.group (finish g b.top s.fresh ps).1.popAll).flatMap
        fun gr => gr.2.filterMap (root? g)).foldl offer s with
          fresh := (finish g b.top s.fresh ps).2 } :=
      ⟨hfresh, fun c hc => (hok.branches c hc).mono hn, hok.best⟩
    have hover : ∀ c : Branch, Branch.Ok g src names'
        { c with top := (finish g b.top s.fresh ps).1.cut, status := .halted } := by
      intro c
      exact ⟨hcut, fun l hl => by cases hl⟩
    exact ⟨names', hn, ok_modify hok' fun c _ => hover c⟩

theorem grown_accept_of_completes (hg : g.Lawful) (h : s.Ok g src names) {i : Nat} {st : State}
    (hst : s.stateAt i = some st) (hc : Completes st 0) {l : Leaf} (hl : l.Sound src)
    (hplace : ∀ x, s.spots[i]? = some x → x.1 ≤ l.start.offset) :
    Grown g src names (accept g s i [.leaf l]) := by
  refine grown_accept hg h (fun p hp => ?_) fun b hb v hv r hr => ?_
  · rw [List.mem_singleton.1 hp]
    exact hl.stop
  · have htop : b.top.state = st := by
      simpa [stateAt, hb] using hst
    have hspot : b.top.place.offset ≤ l.start.offset :=
      hplace (spot b) (by rw [getElem?_spots, hb]; rfl)
    exact whole_of_accept hg (h.branch hb).top (htop ▸ hc) hl hspot hv hr

theorem grown_accept_of_repair (hg : g.Lawful) (h : s.Ok g src names) {i : Nat} {l : Leaf}
    (hl : l.Sound src) {here : Cursor} (hhere : here.Within src)
    (hplace : ∀ x, s.spots[i]? = some x → x.1 ≤ here.offset)
    (hnext : here.offset ≤ l.start.offset) :
    Grown g src names (accept g s i [Piece.compose .error 0 [] 0 here [], .leaf l]) := by
  refine grown_accept hg h (fun p hp => ?_) fun b hb v hv r hr => ?_
  · rcases List.mem_cons.1 hp with rfl | hp
    · exact hhere
    · rw [List.mem_singleton.1 hp]
      exact hl.stop
  · exact whole_of_repair (h.branch hb).top hl hhere
      (hplace (spot b) (by rw [getElem?_spots, hb]; rfl)) hnext hv hr

end Search
end Go
end RouteScribe
