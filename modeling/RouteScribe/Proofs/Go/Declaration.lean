import RouteScribe.Go.Declaration
import RouteScribe.Proofs.Go.Derivation

/-!
# RouteScribe.Proofs.Go.Declaration

The names that a source file declares are single names: no text with a dot in it, or with any other
character that names do not have, is taken for the name of a type, a function or a method.

* `Production.WellNamed`: what the grammar says of the names of declarations.
* `Derived.isName`: what its trees show.
* `isName_of_parse`: the names in a source file.
-/

namespace RouteScribe
namespace Go

/-- The text is made of name characters. -/
def IsName (s : String) : Prop := ∀ c ∈ s.toList, isNameChar c = true

theorem IsName.not_mem_dot {s : String} (h : IsName s) : '.' ∉ s.toList := by
  intro hdot
  have := h '.' hdot
  revert this
  decide

/-! ## Names in the grammar -/

/-- Phrases that declare a type, a function or a method. -/
def Phrase.declares : Phrase → Bool
  | .typeSpec | .typeAlias | .functionDeclaration | .methodDeclaration => true
  | _ => false

/-- The kinds that steps give to parts. -/
def Kind.isGiven : Kind → Bool
  | alternate _ => true
  | token t => t = .identifier
  | phrase p => p = .labeledStatement || p = .argumentList
  | error => false

/-- The kind of a node for a declaration of a type, a function or a method. -/
def Kind.declares : Kind → Bool
  | phrase p => p.declares
  | _ => false

/-- A part that is a node of its own in the tree, or none. -/
def Step.isSingle (s : Step) : Bool :=
  s.renamed.isSome || match s.symbol with
    | .token _ => true
    | x => !x.isHidden

/-- The first step in the field for names is an identifier, and no step before has parts that might
be in that field. -/
def namesFirst : List Step → Bool
  | [] => true
  | s :: ss =>
    if s.field = some .name then s.symbol = .token .identifier else s.isSingle && namesFirst ss

/-- The production derives no token, gives only kinds that may be given, and has an identifier for a
name if it is a declaration. -/
def Production.WellNamed (p : Production) : Prop :=
  (∀ t, p.head ≠ .token t) ∧ (∀ s ∈ p.steps, ∀ k, s.renamed = some k → k.isGiven = true) ∧
    ∀ q, p.head = .phrase q → q.declares = true → namesFirst p.steps = true

/-- `WellNamed` as a computation. -/
def Production.wellNamed (p : Production) : Bool :=
  (match p.head with
    | .token _ => false
    | .phrase q => !q.declares || namesFirst p.steps
    | _ => true)
  && p.steps.all fun s => s.renamed.all (·.isGiven)

theorem Production.wellNamed_iff (p : Production) (h : p.wellNamed = true) : p.WellNamed := by
  simp only [wellNamed, Bool.and_eq_true, List.all_eq_true] at h
  obtain ⟨hhead, hsteps⟩ := h
  refine ⟨fun t ht => ?_, fun s hs k hk => ?_, fun q hq hd => ?_⟩
  · simp [ht] at hhead
  · have := hsteps s hs
    simpa [hk] using this
  · simpa [hq, hd] using hhead

theorem wellNamed_productions : productions.all Production.wellNamed = true := by
  decide +kernel

theorem mem_productions {n : Nat} {p : Production} (h : goTables.productions[n]? = some p) :
    p ∈ productions := by
  have hlist : productions[n]? = some p := by
    simpa [goTables, Tables.ofProductions] using h
  exact List.mem_of_getElem? hlist

theorem wellNamed_goTables {n : Nat} {p : Production} (h : goTables.productions[n]? = some p) :
    p.WellNamed :=
  p.wellNamed_iff (List.all_eq_true.1 wellNamed_productions p (mem_productions h))

theorem proper_goTables : goTables.Proper := fun h => (wellNamed_goTables h).1

/-- A kind that is not given is the own kind of a node. -/
theorem not_renames {k : Kind} (hk : k.isGiven = false) : ¬ goTables.Renames k := by
  rintro ⟨n, p, hp, s, hs, hgiven⟩
  rw [(wellNamed_goTables hp).2.1 s hs k hgiven] at hk
  cases hk

/-! ## Names in trees -/

namespace Node

variable {src : List Char}

theorem field_of_mem_ofPiece_extra {g : Tables} {p : Piece} (hs : p.Sound g src) (h0 : p.cost = 0)
    (he : p.extra = true) : ∀ n ∈ ofPiece g none none p, n.field = none := by
  intro n hn
  cases p with
  | leaf l =>
    simp only [ofPiece] at hn
    split at hn
    · rw [List.mem_singleton.1 hn]
      rfl
    · cases hn
  | node s cs =>
    have herr := hs.truthful.extra he
    have hpos := hs.truthful.error herr
    have h0 : s.cost = 0 := h0
    omega

theorem field_of_mem_ofPiece_single {g : Tables} (hg : g.Proper) {st : Step} (field : Option Field)
    {p : Piece} (hs : p.Sound g src) (hp : p.symbol? = some st.symbol)
    (hsingle : st.isSingle = true) : ∀ n ∈ ofPiece g st.renamed field p, n.field = field := by
  intro n hn
  cases p with
  | leaf l =>
    simp only [ofPiece] at hn
    split at hn
    · rw [List.mem_singleton.1 hn]
      rfl
    · cases hn
  | node s cs =>
    simp only [ofPiece, label_of_symbol? hp] at hn
    split at hn
    · rw [List.mem_singleton.1 hn]
      rfl
    next hnone =>
      obtain ⟨hrenamed, hown⟩ := Option.or_eq_none_iff.1 hnone
      cases hx : st.symbol with
      | token t =>
        rw [hx] at hp
        obtain ⟨l, hl, _⟩ := exists_leaf_of_symbol?_token hg hs hp
        cases hl
      | phrase q =>
        have hshown : q.isHidden = false := by
          simpa [Step.isSingle, hrenamed, hx, Symbol.isHidden] using hsingle
        simp [hx, hshown] at hown
      | run i => simp [Step.isSingle, hrenamed, hx, Symbol.isHidden] at hsingle
      | whole => simp [Step.isSingle, hrenamed, hx, Symbol.isHidden] at hsingle

theorem name_of_identifier {g : Tables} (renamed : Option Kind) (field : Option Field) {l : Leaf}
    (hs : l.Sound src) (ht : l.token = some .identifier) :
    ∃ n, ofPiece g renamed field (.leaf l) = [n] ∧ n.field = field ∧ IsName n.text := by
  have hshown : (Piece.leaf l).isShown = true := by
    simp only [Piece.isShown, ht]
    rfl
  refine ⟨.mk (renamed.getD (l.token.elim .error .token)) field l.missing
    (0 < (Piece.leaf l).cost) l.start l.stop [], ?_, rfl, hs.name (.inl ht)⟩
  simp only [ofPiece, hshown, Bool.or_true, if_true]

/-- The first part in the field for names is a name, where the grammar says so. -/
theorem isName_of_namesFirst {g : Tables} (hg : g.Proper) : ∀ {ps : List Piece} {ss : List Step},
    (∀ p ∈ ps, p.Sound g src ∧ p.cost = 0) → Piece.Follows ss ps → namesFirst ss = true →
    ∀ m, (ofPieces g none ss ps).find? (·.field == some .name) = some m → IsName m.text := by
  intro ps
  induction ps with
  | nil =>
    intro ss _ _ _ m hm
    simp [ofPieces] at hm
  | cons p ps ih =>
    intro ss hps hf hfirst m hm
    obtain ⟨hs, h0⟩ := hps p List.mem_cons_self
    have hrest : ∀ q ∈ ps, q.Sound g src ∧ q.cost = 0 :=
      fun q hq => hps q (List.mem_cons_of_mem _ hq)
    have hskip : ∀ (ns : List Node) (field : Option Field), field ≠ some .name →
        (∀ n ∈ ns, n.field = field) → ns.find? (·.field == some .name) = none := by
      intro ns field hne hns
      refine List.find?_eq_none.2 fun n hn => ?_
      rw [hns n hn]
      simpa using hne
    unfold ofPieces at hm
    cases he : p.extra with
    | true =>
      rw [he, if_pos rfl, List.find?_append,
        hskip _ none (by decide) (field_of_mem_ofPiece_extra hs h0 he), Option.none_or] at hm
      refine ih hrest ?_ hfirst m hm
      unfold Piece.Follows at hf ⊢
      rw [Piece.main_cons_of_extra _ he] at hf
      exact hf
    | false =>
      unfold Piece.Follows at hf
      rw [Piece.main_cons_of_main _ he] at hf
      cases ss with
      | nil => cases hf
      | cons st ss =>
        obtain ⟨hp, hf⟩ := List.cons.inj hf
        dsimp only at hp
        simp only [he, Bool.false_eq_true, if_false] at hm
        rw [List.find?_append] at hm
        simp only [namesFirst] at hfirst
        split at hfirst
        next hname =>
          have hid : st.symbol = .token .identifier := of_decide_eq_true hfirst
          rw [hid] at hp
          obtain ⟨l, rfl, ht⟩ := exists_leaf_of_symbol?_token hg hs hp
          cases hs with
          | leaf hl =>
            obtain ⟨n, hn, hfield, hisname⟩ :=
              name_of_identifier (g := g) st.renamed (st.field.or none) hl ht
            rw [hn] at hm
            simp only [List.find?_cons, hfield, hname] at hm
            cases hm
            exact hisname
        next hname =>
          rw [Bool.and_eq_true] at hfirst
          have hfield := field_of_mem_ofPiece_single hg (st.field.or none) hs hp hfirst.1
          rw [hskip _ _ (by simpa using hname) hfield, Option.none_or] at hm
          exact ih hrest hf hfirst.2 m hm

theorem Derived.isName {n : Node} (h : n.Derived goTables src) (hk : n.kind.declares = true)
    {m : Node} (hm : n.part? .name = some m) : IsName m.text := by
  cases hkind : n.kind with
  | phrase q =>
    rw [hkind] at hk
    have hgiven : (Kind.phrase q).isGiven = false := by
      revert hk
      cases q <;> decide
    obtain ⟨p, cs, hhead, hmade⟩ := h.exists_made hkind (not_renames hgiven)
    obtain ⟨i, hp⟩ := hmade.known
    have hfirst := (wellNamed_goTables hp).2.2 q hhead hk
    rw [part?, hmade.children] at hm
    exact isName_of_namesFirst proper_goTables hmade.pieces hmade.follows hfirst m hm
  | token t =>
    rw [hkind] at hk
    cases hk
  | alternate a =>
    rw [hkind] at hk
    cases hk
  | error =>
    rw [hkind] at hk
    cases hk

/-! ## Names in source files -/

theorem isName_funcDecl {n : Node} (hn : n.Derived goTables src) (hk : n.kind.declares = true)
    {doc : Option Doc} {f : FuncDecl} (h : funcDecl n doc = .ok f) : IsName f.name := by
  unfold funcDecl at h
  split at h
  · cases h
  next name hname =>
    have hname := hn.isName hk hname
    split at h
    · cases h
      exact hname
    · split at h
      · cases h
        exact hname
      · cases h

theorem isName_typeDecls (outer : Option Doc) (ns : List Node) : ∀ (seen : List Node),
    (∀ n ∈ ns, n.Derived goTables src) → ∀ t ∈ typeDecls outer seen ns, IsName t.name := by
  induction ns with
  | nil =>
    intro seen _ t ht
    simp [typeDecls] at ht
  | cons n ns ih =>
    intro seen hns t ht
    have hrest := ih (n :: seen) fun m hm => hns m (List.mem_cons_of_mem _ hm)
    unfold typeDecls at ht
    split at ht
    next hkind =>
      have hk : n.kind.declares = true := by
        simp only [Bool.or_eq_true, decide_eq_true_eq] at hkind
        rcases hkind with hkind | hkind
        · rw [hkind]
          rfl
        · rw [hkind]
          rfl
      split at ht
      next name hname =>
        rcases List.mem_cons.1 ht with rfl | ht
        · exact (hns n List.mem_cons_self).isName hk hname
        · exact hrest t ht
      · exact hrest t ht
    · exact hrest t ht

theorem isName_collect (ns : List Node) : ∀ (seen : List Node) (package : Option String)
    {p : Option String} {ts : List TypeDecl} {fs : List FuncDecl}, (∀ n ∈ ns, n.Derived goTables src) →
    collect seen package ns = .ok (p, ts, fs) →
    (∀ t ∈ ts, IsName t.name) ∧ ∀ f ∈ fs, IsName f.name := by
  induction ns with
  | nil =>
    intro seen package p ts fs _ h
    cases h
    refine ⟨fun t ht => ?_, fun f hf => ?_⟩
    · cases ht
    · cases hf
  | cons n ns ih =>
    intro seen package p ts fs hns h
    have hn := hns n List.mem_cons_self
    have hrest : ∀ m ∈ ns, m.Derived goTables src := fun m hm => hns m (List.mem_cons_of_mem _ hm)
    have hfunction : n.kind.declares = true → ∀ {f : FuncDecl} {p' : Option String}
        {ts' : List TypeDecl} {fs' : List FuncDecl}, funcDecl n (doc? seen.reverse n) = .ok f →
        collect (n :: seen) package ns = .ok (p', ts', fs') →
        (∀ t ∈ ts', IsName t.name) ∧ ∀ m ∈ f :: fs', IsName m.name := by
      intro hk f p' ts' fs' hf hcollect
      obtain ⟨hts, hfs⟩ := ih _ _ hrest hcollect
      refine ⟨hts, fun m hm => ?_⟩
      rcases List.mem_cons.1 hm with rfl | hm
      · exact isName_funcDecl hn hk hf
      · exact hfs m hm
    unfold collect at h
    split at h
    · exact ih _ _ hrest h
    · split at h
      next p' ts' fs' hcollect =>
        cases h
        obtain ⟨hts, hfs⟩ := ih _ _ hrest hcollect
        refine ⟨fun t ht => ?_, hfs⟩
        rcases List.mem_append.1 ht with ht | ht
        · exact isName_typeDecls _ _ _
            (fun m (hm : m ∈ n.parts) => hn.child (List.mem_filter.1 hm).1) t ht
        · exact hts t ht
      · cases h
    iterate 2
      next hk =>
        have hk : n.kind.declares = true := by rw [hk]; rfl
        split at h
        · cases h
        next f hf =>
          split at h
          next p' ts' fs' hcollect =>
            cases h
            exact hfunction hk hf hcollect
          · cases h
    · exact ih _ _ hrest h
    · exact ih _ _ hrest h
    · exact ih _ _ hrest h
    · exact ih _ _ hrest h
    · cases h

end Node

theorem isName_of_parse {source : String} {f : SourceFile}
    (h : SourceFile.parse source = .ok f) :
    (∀ t ∈ f.types, IsName t.name) ∧ ∀ m ∈ f.funcs, IsName m.name := by
  unfold SourceFile.parse at h
  extract_lets cs at h
  split at h
  · cases h
  next root hroot =>
    split at h
    · cases h
    next hb =>
      have hderived := Node.derived_of_ofSource? hroot (Bool.eq_false_iff.2 hb)
      unfold Node.sourceFile at h
      split at h
      · cases h
      · cases h
      next p ts fs hcollect =>
        cases h
        exact Node.isName_collect _ _ _
          (fun n hn => hderived.child (List.mem_filter.1 hn).1) hcollect

end Go
end RouteScribe
