import RouteScribe.Go.Node
import RouteScribe.Proofs.Go.Advance

/-!
# RouteScribe.Proofs.Go.Derivation

The trees of texts without faults. Each node in them is a token of the text or a phrase that one of
the productions makes, and covers the text that its parts cover.

* `Node.Derived`: what such a tree shows.
* `derived_of_ofSource?`: the tree of a text.
* `MadeBy.exists_child`, `MadeBy.exists_step`: what a production says of the children of a node.
-/

namespace RouteScribe
namespace Go

/-- Some step of a production gives this kind to a part. -/
def Tables.Renames (g : Tables) (k : Kind) : Prop :=
  ∃ (n : Nat) (p : Production), g.productions[n]? = some p ∧ ∃ s ∈ p.steps, s.renamed = some k

/-- The productions derive phrases, not tokens. -/
def Tables.Proper (g : Tables) : Prop :=
  ∀ {n : Nat} {p : Production}, g.productions[n]? = some p → ∀ t, p.head ≠ .token t

/-- No phrase that is hidden in trees has a step with this field. -/
def Tables.Shows (g : Tables) (f : Field) : Prop :=
  ∀ {n : Nat} {p : Production}, g.productions[n]? = some p → p.head.isHidden = true →
    ∀ s ∈ p.steps, s.field ≠ some f

/-- A part that is one node of its own in the tree. -/
def Step.isShown (s : Step) : Bool := s.renamed.isSome || !s.symbol.isHidden

namespace Node

variable {g : Tables} {src : List Char}

/-- The node is made from the pieces `cs` by the production `p`. -/
structure MadeBy (g : Tables) (src : List Char) (n : Node) (p : Production) (cs : List Piece) :
    Prop where
  known : ∃ i : Nat, g.productions[i]? = some p
  start : n.start.Within src
  stop : n.stop.Within src
  ordered : Piece.Ordered n.start.offset cs n.stop.offset
  follows : Piece.Follows p.steps cs
  pieces : ∀ c ∈ cs, c.Sound g src ∧ c.cost = 0
  children : n.children = ofPieces g none p.steps cs

/-- The node is a token of the text `src` or a phrase that a production makes, and so are the nodes
below it. Their kinds are their own or given by a step. -/
inductive Derived (g : Tables) (src : List Char) : Node → Prop where
  | token {n : Node} {l : Leaf} (sound : l.Sound src) (real : l.missing = false)
      (start : n.start = l.start) (stop : n.stop = l.stop) (children : n.children = [])
      (kind : n.kind = l.token.elim Kind.error Kind.token ∨ g.Renames n.kind) : Derived g src n
  | phrase {n : Node} {p : Production} {cs : List Piece} (made : n.MadeBy g src p cs)
      (kind : (∃ q, p.head = .phrase q ∧ n.kind = .phrase q) ∨ g.Renames n.kind)
      (below : ∀ c ∈ n.children, Derived g src c) : Derived g src n

section Derived

variable {n : Node} (h : n.Derived g src)

include h

theorem Derived.child {c : Node} (hc : c ∈ n.children) : c.Derived g src := by
  cases h with
  | token _ _ _ _ hchildren _ =>
    rw [hchildren] at hc
    cases hc
  | phrase _ _ hbelow => exact hbelow c hc

theorem Derived.start : n.start.Within src := by
  cases h with
  | token sound _ hstart _ _ _ => exact hstart ▸ sound.start
  | phrase made _ _ => exact made.start

theorem Derived.stop : n.stop.Within src := by
  cases h with
  | token sound _ _ hstop _ _ => exact hstop ▸ sound.stop
  | phrase made _ _ => exact made.stop

theorem Derived.exists_made {q : Phrase} (hk : n.kind = .phrase q)
    (hq : ¬ g.Renames (.phrase q)) : ∃ p cs, p.head = .phrase q ∧ n.MadeBy g src p cs := by
  cases h with
  | @token _ l _ _ _ _ _ kind =>
    rcases kind with kind | kind
    · rw [hk] at kind
      cases htoken : l.token <;> simp [htoken] at kind
    · exact absurd (hk ▸ kind) hq
  | @phrase _ p cs made kind _ =>
    rcases kind with ⟨q', hhead, hk'⟩ | kind
    · rw [hk] at hk'
      cases hk'
      exact ⟨p, cs, hhead, made⟩
    · exact absurd (hk ▸ kind) hq

theorem Derived.isComment (hk : n.kind = .token .comment)
    (hg : ¬ g.Renames (.token .comment)) : IsComment n.text.toList := by
  cases h with
  | @token _ l sound real start stop _ kind =>
    rcases kind with kind | kind
    · rw [hk] at kind
      have htoken : l.token = some .comment := by
        cases htoken : l.token with
        | none => simp [htoken] at kind
        | some t =>
          rw [htoken] at kind
          rw [Kind.token.inj kind]
      have hcomment := sound.comment real htoken
      rw [← start, ← stop] at hcomment
      exact hcomment
    · exact absurd (hk ▸ kind) hg
  | phrase _ kind _ =>
    rcases kind with ⟨q, _, kind⟩ | kind
    · rw [hk] at kind
      cases kind
    · exact absurd (hk ▸ kind) hg

end Derived

/-! ## Pieces and their nodes -/

theorem missing_of_cost {l : Leaf} (h : (Piece.leaf l).cost = 0) : l.missing = false := by
  cases hm : l.missing with
  | false => rfl
  | true => simp [Piece.cost, hm, prices] at h

theorem label_of_symbol? {s : Summary} {cs : List Piece} {x : Symbol}
    (h : (Piece.node s cs).symbol? = some x) : s.label = .symbol x := by
  cases hlabel : s.label with
  | symbol y =>
    simp only [Piece.symbol?, hlabel, Option.some.injEq] at h
    rw [h]
  | error => simp [Piece.symbol?, hlabel] at h
  | skipped => simp [Piece.symbol?, hlabel] at h

theorem exists_leaf_of_symbol?_token (hg : g.Proper) {p : Piece} (hs : p.Sound g src) {t : Token}
    (h : p.symbol? = some (.token t)) : ∃ l, p = .leaf l ∧ l.token = some t := by
  cases p with
  | leaf l =>
    obtain ⟨u, hu, hut⟩ := Option.map_eq_some_iff.1 h
    cases hut
    exact ⟨l, rfl, hu⟩
  | node s cs =>
    obtain ⟨p, hp, hhead, _⟩ := hs.truthful.follows _ (label_of_symbol? h)
    exact absurd hhead (hg hp t)

theorem of_mem_ofPieces {outer : Option Field} {n : Node} {P : Piece → Prop} :
    ∀ {ps : List Piece} {ss : List Step}, (∀ p ∈ ps, P p) → n ∈ ofPieces g outer ss ps →
    ∃ p, P p ∧ ∃ renamed field, (renamed = none ∧ (field = none ∨ field = outer) ∨
      ∃ s ∈ ss, renamed = s.renamed ∧ field = s.field.or outer) ∧ n ∈ ofPiece g renamed field p := by
  intro ps
  induction ps with
  | nil =>
    intro ss _ h
    simp [ofPieces] at h
  | cons p ps ih =>
    intro ss hps h
    have hp : P p := hps p List.mem_cons_self
    have hrest : ∀ q ∈ ps, P q := fun q hq => hps q (List.mem_cons_of_mem _ hq)
    unfold ofPieces at h
    split at h
    · rcases List.mem_append.1 h with h | h
      · exact ⟨p, hp, none, none, .inl ⟨rfl, .inl rfl⟩, h⟩
      · exact ih hrest h
    split at h
    · rcases List.mem_append.1 h with h | h
      · exact ⟨p, hp, none, outer, .inl ⟨rfl, .inr rfl⟩, h⟩
      · exact ih hrest h
    next s ss =>
      rcases List.mem_append.1 h with h | h
      · exact ⟨p, hp, s.renamed, _, .inr ⟨s, List.mem_cons_self, rfl, rfl⟩, h⟩
      · obtain ⟨q, hq, renamed, field, hgiven, hn⟩ := ih hrest h
        refine ⟨q, hq, renamed, field, hgiven.imp_right ?_, hn⟩
        rintro ⟨s', hs', hgiven'⟩
        exact ⟨s', List.mem_cons_of_mem _ hs', hgiven'⟩

/-- Each step has a piece, and the nodes of that piece are among those of the list. -/
theorem exists_piece (outer : Option Field) : ∀ {ps : List Piece} {ss : List Step},
    Piece.Follows ss ps → ∀ s ∈ ss, ∃ p ∈ ps, p.symbol? = some s.symbol ∧
      ∀ n ∈ ofPiece g s.renamed (s.field.or outer) p, n ∈ ofPieces g outer ss ps := by
  intro ps
  induction ps with
  | nil =>
    intro ss hf s hs
    have hlen := congrArg List.length hf
    cases ss with
    | nil => cases hs
    | cons s' ss => simp at hlen
  | cons p ps ih =>
    intro ss hf s hs
    unfold Piece.Follows at hf
    cases he : p.extra with
    | true =>
      rw [Piece.main_cons_of_extra _ he] at hf
      obtain ⟨q, hq, hsymbol, hnodes⟩ := ih hf s hs
      refine ⟨q, List.mem_cons_of_mem _ hq, hsymbol, fun n hn => ?_⟩
      simp only [ofPieces, he, if_true]
      exact List.mem_append_right _ (hnodes n hn)
    | false =>
      rw [Piece.main_cons_of_main _ he] at hf
      cases ss with
      | nil => cases hs
      | cons s' ss =>
        obtain ⟨hp, hf⟩ := List.cons.inj hf
        dsimp only at hp
        simp only [ofPieces, he, Bool.false_eq_true, if_false]
        rcases List.mem_cons.1 hs with rfl | hs
        · exact ⟨p, List.mem_cons_self, hp, fun n hn => List.mem_append_left _ hn⟩
        · obtain ⟨q, hq, hsymbol, hnodes⟩ := ih hf s hs
          exact ⟨q, List.mem_cons_of_mem _ hq, hsymbol,
            fun n hn => List.mem_append_right _ (hnodes n hn)⟩

theorem exists_node_of_isShown (hg : g.Proper) {s : Step} (hshown : s.isShown = true)
    (field : Option Field) {p : Piece} (hs : p.Sound g src) (hp : p.symbol? = some s.symbol) :
    ∃ n ∈ ofPiece g s.renamed field p, n.field = field ∧ ∀ k, s.renamed = some k → n.kind = k := by
  cases p with
  | leaf l =>
    obtain ⟨t, ht, hsymbol⟩ := Option.map_eq_some_iff.1 hp
    have hown : s.renamed.isSome || (Piece.leaf l).isShown := by
      rw [Step.isShown, ← hsymbol] at hshown
      simpa [Piece.isShown, ht, Symbol.isHidden] using hshown
    simp only [ofPiece, hown, if_true]
    exact ⟨_, List.mem_singleton_self _, rfl, fun k hk => by rw [hk]; rfl⟩
  | node c cs =>
    have hlabel := label_of_symbol? hp
    have hnode : ∃ k, ofPiece g s.renamed field (.node c cs)
        = [mk k field false (0 < c.cost) c.start c.stop (ofPieces g none
          ((g.productions[c.production]?.map (·.steps)).getD []) cs)] ∧
        ∀ k', s.renamed = some k' → k = k' := by
      cases hr : s.renamed with
      | some k =>
        exact ⟨k, by simp only [ofPiece, hlabel, Option.some_or], fun k' hk' => Option.some.inj hk'⟩
      | none =>
        have hvisible : s.symbol.isHidden = false := by simpa [Step.isShown, hr] using hshown
        cases hx : s.symbol with
        | token t =>
          rw [hx] at hp
          obtain ⟨l, hl, _⟩ := exists_leaf_of_symbol?_token hg hs hp
          cases hl
        | phrase q =>
          rw [hx] at hvisible
          refine ⟨.phrase q, ?_, fun k' hk' => by cases hk'⟩
          have hq : q.isHidden = false := hvisible
          simp only [ofPiece, hlabel, hx, hq, Option.none_or, Bool.false_eq_true, if_false]
        | run i =>
          rw [hx] at hvisible
          cases hvisible
        | whole =>
          rw [hx] at hvisible
          cases hvisible
    obtain ⟨k, hk, hrenamed⟩ := hnode
    rw [hk]
    exact ⟨_, List.mem_singleton_self _, rfl, hrenamed⟩

/-- A node made by a production has a child for each step that is shown. -/
theorem MadeBy.exists_child (hg : g.Proper) {n : Node} {p : Production} {cs : List Piece}
    (h : n.MadeBy g src p cs) {s : Step} (hs : s ∈ p.steps) (hshown : s.isShown = true) :
    ∃ c ∈ n.children, c.field = s.field ∧ ∀ k, s.renamed = some k → c.kind = k := by
  obtain ⟨q, hq, hsymbol, hnodes⟩ := exists_piece (g := g) none h.follows s hs
  obtain ⟨c, hc, hfield, hkind⟩ :=
    exists_node_of_isShown hg hshown (s.field.or none) (h.pieces q hq).1 hsymbol
  refine ⟨c, h.children ▸ hnodes c hc, ?_, hkind⟩
  rw [hfield, Option.or_none]

/-- A field that hidden phrases do not give comes from outside. -/
theorem field_of_mem_ofPiece (hg : g.Proper) {f : Field} (hshows : g.Shows f) {p : Piece}
    (hs : p.Sound g src) : p.cost = 0 → p.isSkipped = false → ∀ (renamed : Option Kind)
    (field : Option Field), ∀ n ∈ ofPiece g renamed field p, n.field = some f → field = some f := by
  induction hs with
  | @leaf l _ =>
    intro _ _ renamed field n hn hf
    simp only [ofPiece] at hn
    split at hn
    · rw [List.mem_singleton.1 hn] at hf
      exact hf
    · cases hn
  | @node s cs h hcs ih =>
    intro h0 hskip renamed field n hn hf
    have h0 : s.cost = 0 := h0
    cases hlabel : s.label with
    | error =>
      have := h.error hlabel
      omega
    | skipped => simp [Piece.isSkipped, hlabel] at hskip
    | symbol x =>
      obtain ⟨p, hp, rfl, hfollows⟩ := h.follows x hlabel
      simp only [ofPiece, hlabel, hp, Option.map_some, Option.getD_some] at hn
      split at hn
      · rw [List.mem_singleton.1 hn] at hf
        exact hf
      next hnone =>
        obtain ⟨_, hown⟩ := Option.or_eq_none_iff.1 hnone
        have hhidden : p.head.isHidden = true := by
          cases hhead : p.head with
          | token t => exact absurd hhead (hg hp t)
          | phrase q =>
            by_cases hq : q.isHidden = true
            · exact hq
            · simp [hhead, hq] at hown
          | run i => rfl
          | whole => rfl
        obtain ⟨c, hc, renamed', field', hgiven, hn⟩ := of_mem_ofPieces (fun c hc => hc) hn
        have hfield' : field' = some f :=
          ih c hc (h.cost _ hlabel h0 c hc) (hfollows.isSkipped hcs hc) renamed' field' n hn hf
        rcases hgiven with ⟨_, rfl | rfl⟩ | ⟨st, hst, _, rfl⟩
        · cases hfield'
        · exact hfield'
        · rcases Option.or_eq_some_iff.1 hfield' with hstep | ⟨_, houter⟩
          · exact absurd hstep (hshows hp hhidden st hst)
          · exact houter

/-- A child in a field that hidden phrases do not give is there by a step with this field. -/
theorem MadeBy.exists_step (hg : g.Proper) {f : Field} (hshows : g.Shows f) {n : Node}
    {p : Production} {cs : List Piece} (h : n.MadeBy g src p cs) {c : Node} (hc : c ∈ n.children)
    (hf : c.field = some f) : ∃ s ∈ p.steps, s.field = some f := by
  rw [h.children] at hc
  obtain ⟨q, hq, renamed, field, hgiven, hn⟩ := of_mem_ofPieces (fun q hq => hq) hc
  obtain ⟨hs, h0⟩ := h.pieces q hq
  have hskip : q.isSkipped = false := h.follows.isSkipped (fun q hq => (h.pieces q hq).1) hq
  have hfield := field_of_mem_ofPiece hg hshows hs h0 hskip renamed field c hn hf
  rcases hgiven with ⟨_, rfl | rfl⟩ | ⟨s, hstep, _, rfl⟩
  · cases hfield
  · cases hfield
  · rw [Option.or_none] at hfield
    exact ⟨s, hstep, hfield⟩

/-! ## The tree of a text -/

theorem derived_of_mem_ofPiece {p : Piece} (hs : p.Sound g src) : p.cost = 0 →
    p.isSkipped = false → ∀ (renamed : Option Kind) (field : Option Field),
    (∀ k, renamed = some k → g.Renames k) → ∀ n ∈ ofPiece g renamed field p, n.Derived g src := by
  induction hs with
  | @leaf l hl =>
    intro h0 _ renamed field hr n hn
    have hreal := missing_of_cost h0
    simp only [ofPiece] at hn
    split at hn
    · rw [List.mem_singleton.1 hn]
      refine .token hl hreal rfl rfl rfl ?_
      cases renamed with
      | some k => exact .inr (hr k rfl)
      | none => exact .inl rfl
    · cases hn
  | @node s cs h hcs ih =>
    intro h0 hskip renamed field hr n hn
    have h0 : s.cost = 0 := h0
    cases hlabel : s.label with
    | error =>
      have := h.error hlabel
      omega
    | skipped => simp [Piece.isSkipped, hlabel] at hskip
    | symbol x =>
      obtain ⟨p, hp, rfl, hf⟩ := h.follows x hlabel
      have hall : ∀ c ∈ cs, c.Sound g src ∧ c.cost = 0 :=
        fun c hc => ⟨hcs c hc, h.cost _ hlabel h0 c hc⟩
      have hparts : ∀ (outer : Option Field), ∀ n ∈ ofPieces g outer p.steps cs,
          n.Derived g src := by
        intro outer n hn
        obtain ⟨c, hc, renamed', field', hgiven, hn'⟩ := of_mem_ofPieces (fun c hc => hc) hn
        refine ih c hc (hall c hc).2 (hf.isSkipped hcs hc) renamed' field' (fun k hk => ?_) n hn'
        rcases hgiven with ⟨rfl, _⟩ | ⟨st, hst, rfl, _⟩
        · cases hk
        · exact ⟨_, p, hp, st, hst, hk⟩
      simp only [ofPiece, hlabel, hp, Option.map_some, Option.getD_some] at hn
      split at hn
      next k hk =>
        rw [List.mem_singleton.1 hn]
        refine .phrase ⟨⟨_, hp⟩, h.start, h.stop, h.ordered, hf, hall, rfl⟩ ?_ (hparts none)
        cases renamed with
        | some k' =>
          cases hk
          exact .inr (hr k rfl)
        | none =>
          rw [Option.none_or] at hk
          split at hk
          next q hq =>
            split at hk
            · cases hk
            · cases hk
              exact .inl ⟨q, Label.symbol.inj hq, rfl⟩
          next herr => cases herr
          · cases hk
      · exact hparts field n hn

/-- A node that is not broken comes from a piece without repairs, if the piece is whole. -/
theorem cost_of_broken {p : Piece} (hp : p.Whole g src) {root : Node}
    (h : root ∈ ofPiece g none none p) (hb : root.broken = false) :
    p.cost = 0 ∧ p.isSkipped = false := by
  cases p with
  | leaf l =>
    simp only [ofPiece] at h
    split at h
    · rw [List.mem_singleton.1 h] at hb
      have hb : decide (0 < (Piece.leaf l).cost) = false := hb
      exact ⟨Nat.le_zero.1 (Nat.not_lt.1 (of_decide_eq_false hb)), rfl⟩
    · cases h
  | node s cs =>
    have hzero : ∀ {k : Kind} {ns : List Node},
        root = mk k none false (0 < s.cost) s.start s.stop ns → (Piece.node s cs).cost = 0 := by
      intro k ns hroot
      rw [hroot] at hb
      have hb : decide (0 < s.cost) = false := hb
      exact Nat.le_zero.1 (Nat.not_lt.1 (of_decide_eq_false hb))
    rcases hp.label with hsymbol | ⟨herr, hcost⟩
    · have hl := label_of_symbol? hsymbol
      simp only [ofPiece, hl, Option.none_or] at h
      exact ⟨hzero (List.mem_singleton.1 h), by simp [Piece.isSkipped, hl]⟩
    · have hl : s.label = .error := by simpa [Piece.isError] using herr
      simp only [ofPiece, hl, Option.none_or] at h
      have := hzero (List.mem_singleton.1 h)
      omega

/-- The tree of a text that parses without repairs. -/
theorem derived_of_ofSource? {cs : List Char} {root : Node} (h : ofSource? cs = some root)
    (hb : root.broken = false) : root.Derived goTables cs := by
  obtain ⟨p, hp, hhead⟩ := Option.bind_eq_some_iff.1 h
  have hwhole := whole_parsePiece Tables.lawful_goTables hp
  have hroot : root ∈ ofPiece goTables none none p := List.mem_of_head? hhead
  obtain ⟨hcost, hskip⟩ := cost_of_broken hwhole hroot hb
  exact derived_of_mem_ofPiece hwhole.sound hcost hskip none none nofun root hroot

end Node
end Go
end RouteScribe
