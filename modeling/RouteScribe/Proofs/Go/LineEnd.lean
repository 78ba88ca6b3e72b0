import RouteScribe.Proofs.Go.Receiver
import RouteScribe.Proofs.Text.LineEnd

/-!
# RouteScribe.Proofs.Go.LineEnd

Trees that match: the tree of a text, and a tree of the same text with a carriage return in front of
each line feed. Matching trees have the same nodes in corresponding places. They are source files
together, and they agree on all names and on which comments are attached where.

* `Cursor.Matches`, `Node.Matches`: places and trees that match.
* `Matches.text`: the texts of matching nodes.
* `Twins.isFile_iff`: matching trees are source files together.
* `Twins.functionsInPlace`, `Twins.specsInPlace`: what they declare, with what stands before it.
-/

namespace RouteScribe
namespace Go

open Text (returnChars)

/-- The place `p'` of the text with carriage returns is the place `p` of the text without. In front of
a line feed it may be on either side of the carriage return. -/
structure Cursor.Matches (p p' : Cursor) : Prop where
  row : p'.row = p.row
  blank : p'.blank = p.blank
  rest : returnChars p.rest = p'.rest ∨ returnChars p.rest = '\r' :: p'.rest

/-- From a place of a text to another that is no nearer to the beginning stands the text between
them. -/
theorem Cursor.Within.rest_eq {src : List Char} {p q : Cursor} (hp : p.Within src)
    (hq : q.Within src) (h : p.offset ≤ q.offset) : p.rest = (p.textTo q).toList ++ q.rest := by
  obtain ⟨n, rfl⟩ := hp.exists_skip hq h
  rw [toList_textTo_skip, skip_rest, List.take_append_drop]

namespace Node

/-- Two trees have the same nodes, in places that match. -/
inductive Matches : Node → Node → Prop where
  | mk {n n' : Node} (kind : n'.kind = n.kind) (field : n'.field = n.field)
      (broken : n'.broken = n.broken) (start : n.start.Matches n'.start)
      (stop : n.stop.Matches n'.stop) (length : n.children.length = n'.children.length)
      (children : ∀ x ∈ n.children.zip n'.children, Matches x.1 x.2) : Matches n n'

variable {n n' : Node} {ns ns' : List Node} {src src' : List Char}

section Matches

variable (h : n.Matches n')

include h

theorem Matches.kind : n'.kind = n.kind := by
  cases h with
  | mk kind _ _ _ _ _ _ => exact kind

theorem Matches.field : n'.field = n.field := by
  cases h with
  | mk _ field _ _ _ _ _ => exact field

theorem Matches.broken : n'.broken = n.broken := by
  cases h with
  | mk _ _ broken _ _ _ _ => exact broken

theorem Matches.start : n.start.Matches n'.start := by
  cases h with
  | mk _ _ _ start _ _ _ => exact start

theorem Matches.stop : n.stop.Matches n'.stop := by
  cases h with
  | mk _ _ _ _ stop _ _ => exact stop

theorem Matches.children : List.Forall₂ Matches n.children n'.children := by
  cases h with
  | mk _ _ _ _ _ length children =>
    exact List.forall₂_iff_zip.2 ⟨length, fun hab => children _ hab⟩

theorem Matches.parts : List.Forall₂ Matches n.parts n'.parts :=
  List.rel_filter (fun _ _ hm => by dsimp only; rw [hm.kind]) h.children

end Matches

/-! ## Texts -/

theorem Derived.le {g : Tables} (h : n.Derived g src) : n.start.offset ≤ n.stop.offset := by
  cases h with
  | token sound _ hstart hstop _ _ => exact hstart ▸ hstop ▸ sound.le
  | phrase made _ _ => exact made.ordered.le

theorem Derived.rest_eq {g : Tables} (h : n.Derived g src) :
    n.start.rest = n.text.toList ++ n.stop.rest :=
  h.start.rest_eq h.stop h.le

/-- The texts of matching nodes differ in carriage returns in front of line feeds; those that stand
in front of the node or at its end may belong to it or not. -/
theorem Matches.text {g : Tables} (h : n.Matches n') (hn : n.Derived g src)
    (hn' : n'.Derived g src') : ∃ us vs, (us = [] ∨ us = ['\r']) ∧ (vs = [] ∨ vs = ['\r']) ∧
      returnChars n.text.toList ++ vs = us ++ n'.text.toList := by
  have hstart : ∃ us, (us = [] ∨ us = ['\r']) ∧ returnChars n.start.rest = us ++ n'.start.rest :=
    h.start.rest.elim (fun h => ⟨[], .inl rfl, h⟩) fun h => ⟨['\r'], .inr rfl, h⟩
  have hstop : ∃ vs, (vs = [] ∨ vs = ['\r']) ∧ returnChars n.stop.rest = vs ++ n'.stop.rest :=
    h.stop.rest.elim (fun h => ⟨[], .inl rfl, h⟩) fun h => ⟨['\r'], .inr rfl, h⟩
  obtain ⟨us, hus, hstart⟩ := hstart
  obtain ⟨vs, hvs, hstop⟩ := hstop
  have hall : returnChars n.text.toList ++ vs ++ n'.stop.rest
      = us ++ n'.text.toList ++ n'.stop.rest := by
    calc
      _ = returnChars (n.text.toList ++ n.stop.rest) := by
        rw [Text.returnChars_append, hstop, List.append_assoc]
      _ = us ++ n'.text.toList ++ n'.stop.rest := by
        rw [← hn.rest_eq, hstart, hn'.rest_eq, List.append_assoc]
  exact ⟨us, vs, hus, hvs, List.append_cancel_right hall⟩

/-- Names are the same. -/
theorem Matches.text_eq {g : Tables} (h : n.Matches n') (hn : n.Derived g src)
    (hn' : n'.Derived g src') (hname : IsName n.text) (hname' : IsName n'.text) :
    n'.text = n.text := by
  have hreturn : ∀ {s : String}, IsName s → '\r' ∉ s.toList := fun hs hr => absurd (hs _ hr) (by decide)
  have hfeed : '\n' ∉ n.text.toList := fun hf => absurd (hname _ hf) (by decide)
  obtain ⟨us, vs, hus, hvs, heq⟩ := h.text hn hn'
  rw [Text.returnChars_eq_self hfeed] at heq
  have hlist : n'.text.toList = n.text.toList := by
    rcases hus with rfl | rfl <;> rcases hvs with rfl | rfl
    · simpa using heq.symm
    · have hmem : '\r' ∈ n'.text.toList := by
        rw [← List.nil_append n'.text.toList, ← heq]
        exact List.mem_append_right _ (List.mem_singleton_self _)
      exact absurd hmem (hreturn hname')
    · have hmem : '\r' ∈ n.text.toList := by
        rw [← List.append_nil n.text.toList, heq]
        exact List.mem_cons_self
      exact absurd hmem (hreturn hname)
    · cases hcs : n.text.toList with
      | nil =>
        rw [hcs] at heq
        simpa using heq.symm
      | cons c cs =>
        rw [hcs] at heq
        have hc : c = '\r' := (List.cons.inj heq).1
        exact absurd (hcs ▸ hc ▸ List.mem_cons_self) (hreturn hname)
  exact String.toList_inj.1 hlist

end Node

/-! ## Names that steps give -/

/-- Kinds that are given to identifiers only. -/
def Kind.isGivenName (k : Kind) : Bool :=
  k = .alternate .typeIdentifier || k = .alternate .packageIdentifier

/-- The production gives such kinds to identifiers only. -/
def Production.namesIdentifiers (p : Production) : Bool :=
  p.steps.all fun s => !s.renamed.any Kind.isGivenName || s.symbol = .token .identifier

theorem namesIdentifiers_productions : productions.all Production.namesIdentifiers = true := by
  decide +kernel

theorem symbol_of_isGivenName {i : Nat} {p : Production} (hp : goTables.productions[i]? = some p)
    {s : Step} (hs : s ∈ p.steps) {k : Kind} (hk : s.renamed = some k)
    (hgiven : k.isGivenName = true) : s.symbol = .token .identifier := by
  have hall := List.all_eq_true.1 namesIdentifiers_productions p (mem_productions hp)
  have hstep := List.all_eq_true.1 hall s hs
  simpa [hk, hgiven] using hstep

namespace Node

variable {n n' : Node} {ns ns' : List Node} {src src' : List Char}

/-- The nodes of parts that follow the steps of a production come from extras, or from parts with
their steps. -/
theorem of_mem_ofPieces_of_follows {g : Tables} {outer : Option Field} : ∀ {ps : List Piece}
    {ss : List Step}, Piece.Follows ss ps → n ∈ ofPieces g outer ss ps →
    ∃ p ∈ ps, (∃ field, n ∈ ofPiece g none field p) ∨
      ∃ s ∈ ss, p.symbol? = some s.symbol ∧ ∃ field, n ∈ ofPiece g s.renamed field p := by
  intro ps
  induction ps with
  | nil =>
    intro ss _ h
    simp [ofPieces] at h
  | cons p ps ih =>
    intro ss hf h
    have hlater : ∀ {ss' : List Step}, Piece.Follows ss' ps → n ∈ ofPieces g outer ss' ps →
        (∀ s ∈ ss', s ∈ ss) → ∃ q ∈ p :: ps, (∃ field, n ∈ ofPiece g none field q) ∨
          ∃ s ∈ ss, q.symbol? = some s.symbol ∧ ∃ field, n ∈ ofPiece g s.renamed field q := by
      intro ss' hf' h' hss
      obtain ⟨q, hq, hcase⟩ := ih hf' h'
      refine ⟨q, List.mem_cons_of_mem _ hq, hcase.imp_right ?_⟩
      rintro ⟨s, hs, hrest⟩
      exact ⟨s, hss s hs, hrest⟩
    unfold Piece.Follows at hf
    unfold ofPieces at h
    cases he : p.extra with
    | true =>
      rw [Piece.main_cons_of_extra _ he] at hf
      rw [he, if_pos rfl] at h
      rcases List.mem_append.1 h with h | h
      · exact ⟨p, List.mem_cons_self, .inl ⟨none, h⟩⟩
      · exact hlater hf h fun _ hs => hs
    | false =>
      rw [Piece.main_cons_of_main _ he] at hf
      cases ss with
      | nil => cases hf
      | cons s ss =>
        obtain ⟨hp, hf⟩ := List.cons.inj hf
        simp only [he, Bool.false_eq_true, if_false] at h
        rcases List.mem_append.1 h with h | h
        · exact ⟨p, List.mem_cons_self, .inr ⟨s, List.mem_cons_self, hp, _, h⟩⟩
        · exact hlater hf h fun _ hs => List.mem_cons_of_mem _ hs

theorem isName_of_mem_ofPiece {p : Piece} (hs : p.Sound goTables src) : p.cost = 0 →
    p.isSkipped = false → ∀ (renamed : Option Kind) (field : Option Field),
    (∀ k, renamed = some k → k.isGivenName = true → p.symbol? = some (.token .identifier)) →
    ∀ n ∈ ofPiece goTables renamed field p, n.kind.isGivenName = true → IsName n.text := by
  induction hs with
  | @leaf l hl =>
    intro _ _ renamed field hgiven n hn hk
    simp only [ofPiece] at hn
    split at hn
    · rw [List.mem_singleton.1 hn] at hk ⊢
      cases renamed with
      | some k =>
        have hsymbol := hgiven k rfl hk
        have htoken : l.token = some .identifier := by
          obtain ⟨t, ht, hid⟩ := Option.map_eq_some_iff.1 hsymbol
          rw [ht, Symbol.token.inj hid]
        exact hl.name (.inl htoken)
      | none =>
        cases htoken : l.token <;> simp [kind, htoken, Kind.isGivenName] at hk
    · cases hn
  | @node s cs h hcs ih =>
    intro h0 hskip renamed field hgiven n hn hk
    have h0 : s.cost = 0 := h0
    cases hlabel : s.label with
    | error =>
      have := h.error hlabel
      omega
    | skipped => simp [Piece.isSkipped, hlabel] at hskip
    | symbol x =>
      obtain ⟨p, hp, rfl, hf⟩ := h.follows x hlabel
      simp only [ofPiece, hlabel, hp, Option.map_some, Option.getD_some] at hn
      split at hn
      next k hkind =>
        rw [List.mem_singleton.1 hn] at hk
        have hk : k.isGivenName = true := hk
        cases renamed with
        | some k' =>
          cases hkind
          have hsymbol := hgiven k rfl hk
          simp only [Piece.symbol?, hlabel, Option.some.injEq] at hsymbol
          exact absurd hsymbol (proper_goTables hp _)
        | none =>
          rw [Option.none_or] at hkind
          split at hkind
          · split at hkind
            · cases hkind
            · cases hkind
              cases hk
          · cases hkind
            cases hk
          · cases hkind
      · obtain ⟨c, hc, hcase⟩ := of_mem_ofPieces_of_follows hf hn
        have hclean := h.cost _ hlabel h0 c hc
        have hwhole := hf.isSkipped hcs hc
        rcases hcase with ⟨field', hn'⟩ | ⟨st, hst, hsymbol, field', hn'⟩
        · exact ih c hc hclean hwhole none field' (fun _ h => by cases h) n hn' hk
        · refine ih c hc hclean hwhole st.renamed field' (fun k hrenamed hgiven => ?_) n hn' hk
          rw [hsymbol, symbol_of_isGivenName hp hst hrenamed hgiven]

theorem Derived.isName_child (h : n.Derived goTables src) {c : Node} (hc : c ∈ n.children)
    (hk : c.kind.isGivenName = true) : IsName c.text := by
  cases h with
  | token _ _ _ _ hchildren _ =>
    rw [hchildren] at hc
    cases hc
  | @phrase _ p cs made _ _ =>
    obtain ⟨i, hp⟩ := made.known
    rw [made.children] at hc
    obtain ⟨q, hq, hcase⟩ := of_mem_ofPieces_of_follows made.follows hc
    obtain ⟨hsound, hcost⟩ := made.pieces q hq
    have hwhole := made.follows.isSkipped (fun r hr => (made.pieces r hr).1) hq
    rcases hcase with ⟨field, hn⟩ | ⟨st, hst, hsymbol, field, hn⟩
    · exact isName_of_mem_ofPiece hsound hcost hwhole none field (fun _ h => by cases h) c hn hk
    · refine isName_of_mem_ofPiece hsound hcost hwhole st.renamed field
        (fun k hrenamed hgiven => ?_) c hn hk
      rw [hsymbol, symbol_of_isGivenName hp hst hrenamed hgiven]

/-! ## Trees of the two texts -/

/-- Matching nodes of trees without faults, one of the text `src` and one of `src'`. -/
structure Twins (src src' : List Char) (n n' : Node) : Prop where
  same : n.Matches n'
  left : n.Derived goTables src
  right : n'.Derived goTables src'

section Twins

variable (h : Twins src src' n n')

include h

theorem Twins.children : List.Forall₂ (Twins src src') n.children n'.children := by
  obtain ⟨hlength, hzip⟩ := List.forall₂_iff_zip.1 h.same.children
  refine List.forall₂_iff_zip.2 ⟨hlength, fun hab => ?_⟩
  obtain ⟨ha, hb⟩ := List.of_mem_zip hab
  exact ⟨hzip hab, h.left.child ha, h.right.child hb⟩

theorem Twins.parts : List.Forall₂ (Twins src src') n.parts n'.parts :=
  List.rel_filter (fun _ _ hm => by dsimp only; rw [hm.same.kind]) h.children

end Twins

theorem rel_find? {R : Node → Node → Prop} {p : Node → Bool} (hp : ∀ m m', R m m' → p m' = p m)
    (h : List.Forall₂ R ns ns') : Option.Rel R (ns.find? p) (ns'.find? p) := by
  induction h with
  | nil => exact .none
  | cons hm _ ih =>
    rw [List.find?_cons, List.find?_cons, hp _ _ hm]
    split
    · exact .some hm
    · exact ih

theorem Twins.part? (h : Twins src src' n n') (f : Field) :
    Option.Rel (Twins src src') (n.part? f) (n'.part? f) :=
  rel_find? (fun _ _ hm => by rw [hm.same.field]) h.children

theorem rel_head? {R : Node → Node → Prop} (h : List.Forall₂ R ns ns') :
    Option.Rel R ns.head? ns'.head? := by
  cases h with
  | nil => exact .none
  | cons hm _ => exact .some hm

theorem Twins.text_eq (h : Twins src src' n n') (hname : IsName n.text) (hname' : IsName n'.text) :
    n'.text = n.text :=
  h.same.text_eq h.left h.right hname hname'

/-! ## Receivers -/

/-- Two names of types are the same, or both are qualified. -/
def SameType (t t' : String) : Prop := t' = t ∨ '.' ∈ t.toList ∧ '.' ∈ t'.toList

/-- What is given the kind of a name is one. -/
def Named (n : Node) : Prop := n.kind.isGivenName = true → IsName n.text

theorem Twins.named_part (h : Twins src src' n n') {m m' : Node} (hm : m ∈ n.children)
    (hm' : m' ∈ n'.children) : Named m ∧ Named m' :=
  ⟨h.left.isName_child hm, h.right.isName_child hm'⟩

/-- Types that are twins reduce to the same name. By recursion over the first. -/
theorem Twins.baseType? (n : Node) : ∀ {n' : Node}, Twins src src' n n' → Named n → Named n' →
    Option.Rel SameType n.baseType? n'.baseType? := by
  intro n' h hnamed hnamed'
  have hinner : ∀ {o o' : Option Node}, Option.Rel (Twins src src') o o' →
      (∀ m ∈ o, m ∈ n.children) → (∀ m ∈ o', m ∈ n'.children) →
      Option.Rel SameType (o.bind Node.baseType?) (o'.bind Node.baseType?) := by
    intro o o' ho hmem hmem'
    cases ho with
    | none => exact .none
    | @some m m' hm =>
      have hlt := sizeOf_lt_of_mem_children (hmem m rfl)
      obtain ⟨hmn, hmn'⟩ := h.named_part (hmem m rfl) (hmem' m' rfl)
      exact Twins.baseType? m hm hmn hmn'
  have hfirst : ∀ {k : Node}, ∀ m ∈ k.parts.head?, m ∈ k.children :=
    fun m hm => List.mem_of_mem_filter (List.mem_of_head? hm)
  rw [baseType?_eq, baseType?_eq, h.same.kind]
  split
  next hk =>
    have hgiven : n.kind.isGivenName = true := by rw [hk]; rfl
    exact .some (.inl (h.text_eq (hnamed hgiven) (hnamed' (h.same.kind ▸ hgiven))))
  next hk =>
    exact .some (.inr ⟨h.left.dot_mem_text hk, h.right.dot_mem_text (h.same.kind.trans hk)⟩)
  · exact hinner (rel_head? h.parts) hfirst hfirst
  · exact hinner (rel_head? h.parts) hfirst hfirst
  · exact hinner (h.part? .type) (fun m hm => List.mem_of_find?_eq_some hm)
      fun m hm => List.mem_of_find?_eq_some hm
  · exact .none
termination_by sizeOf n

theorem Twins.params (h : Twins src src' n n') :
    List.Forall₂ (Twins src src') n.params n'.params :=
  List.rel_filter (fun _ _ hm => by dsimp only; rw [hm.same.kind]) h.parts

theorem Twins.length_names (h : Twins src src' n n') : n'.names.length = n.names.length :=
  (List.rel_filter (R := Twins src src') (fun _ _ hm => by dsimp only; rw [hm.same.field])
    h.children).length_eq.symm

/-- The receiver that a list declares, if it declares one. -/
def receiver? (list : Node) : Option String :=
  match list.params with
  | [param] => if param.names.length ≤ 1 then (param.part? .type).bind baseType? else none
  | _ => none

theorem receives_iff {t : String} : n.Receives t ↔ n.receiver? = some t := by
  constructor
  · rintro ⟨hone, hnames, htyped, hreduces⟩
    rw [receiver?, hone]
    dsimp only
    rw [if_pos hnames, htyped, Option.bind_some, baseType?_of_reducesTo hreduces]
  · intro h
    rw [receiver?] at h
    split at h
    next param hone =>
      split at h
      next hnames =>
        obtain ⟨type, htyped, ht⟩ := Option.bind_eq_some_iff.1 h
        exact ⟨hone, hnames, htyped, reducesTo_of_baseType? type ht⟩
      · cases h
    · cases h

theorem Twins.receiver? (h : Twins src src' n n') :
    Option.Rel SameType n.receiver? n'.receiver? := by
  have hparams := h.params
  rw [Node.receiver?, Node.receiver?]
  generalize n.params = ps, n'.params = ps' at hparams
  cases hparams with
  | nil => exact .none
  | @cons param param' ps ps' hp hps =>
    cases hps with
    | cons _ _ => exact .none
    | nil =>
      dsimp only
      rw [hp.length_names]
      split
      · have hpart := hp.part? .type
        have hmem : ∀ {k : Node}, ∀ m ∈ k.part? .type, m ∈ k.children :=
          fun m hm => List.mem_of_find?_eq_some hm
        have hleft := hmem (k := param)
        have hright := hmem (k := param')
        generalize param.part? .type = o, param'.part? .type = o' at hpart hleft hright ⊢
        cases hpart with
        | none => exact .none
        | @some m m' hm =>
          obtain ⟨hmn, hmn'⟩ := hp.named_part (hleft m rfl) (hright m' rfl)
          exact hm.baseType? m hmn hmn'
      · exact .none

/-! ## Source files -/

theorem DeclaresFunc.declares {f : FuncDecl} (h : n.DeclaresFunc f) : n.kind.declares = true := by
  rcases h.receiver with ⟨hk, -⟩ | ⟨hk, -⟩ <;> rw [hk] <;> rfl

theorem forall_mem_iff {α β : Type} {r : α → β → Prop} {p : α → Prop} {q : β → Prop} {as : List α}
    {bs : List β} (h : List.Forall₂ r as bs) (hpq : ∀ a b, r a b → (p a ↔ q b)) :
    (∀ a ∈ as, p a) ↔ ∀ b ∈ bs, q b := by
  induction h with
  | nil => simp
  | cons hab _ ih => simp [hpq _ _ hab, ih]

/-- The receiver list of a method declares a receiver. -/
def HasReceiverList (n : Node) : Prop :=
  ∃ list t, n.part? .receiver = some list ∧ list.Receives t

theorem Twins.hasReceiverList (h : Twins src src' n n') :
    n.HasReceiverList ↔ n'.HasReceiverList := by
  unfold HasReceiverList
  simp only [receives_iff]
  have hpart := h.part? .receiver
  generalize n.part? .receiver = o, n'.part? .receiver = o' at hpart
  cases hpart with
  | none => simp
  | @some list list' hlist =>
    have hreceiver := hlist.receiver?
    simp only [Option.some.injEq, exists_and_left, exists_eq_left']
    generalize list.receiver? = r, list'.receiver? = r' at hreceiver ⊢
    cases hreceiver with
    | none => simp
    | some _ => simp

theorem Twins.isFile_iff (h : Twins src src' n n') : n.IsFile ↔ n'.IsFile := by
  have hparts := h.parts
  have htop : (∀ m ∈ n.parts, m.kind.isTop = true) ↔ ∀ m ∈ n'.parts, m.kind.isTop = true :=
    forall_mem_iff hparts fun _ _ hm => by rw [hm.same.kind]
  have hpackage : (∃ m ∈ n.parts, m.kind = .phrase .packageClause) ↔
      ∃ m ∈ n'.parts, m.kind = .phrase .packageClause :=
    exists_mem_iff hparts fun _ _ hm => by rw [hm.same.kind]
  have hreceivers : (∀ m ∈ n.parts, m.kind = .phrase .methodDeclaration → m.HasReceiverList) ↔
      ∀ m ∈ n'.parts, m.kind = .phrase .methodDeclaration → m.HasReceiverList :=
    forall_mem_iff hparts fun _ _ hm => by
      rw [hm.same.kind, hm.hasReceiverList]
  exact ⟨fun hf => ⟨htop.1 hf.top, hpackage.1 hf.package, hreceivers.1 hf.receivers⟩,
    fun hf => ⟨htop.2 hf.top, hpackage.2 hf.package, hreceivers.2 hf.receivers⟩⟩

/-! ## Declarations in place -/

/-- Nodes that are twins, behind nodes that are. -/
def TwinsInPlace (src src' : List Char) (x x' : List Node × Node) : Prop :=
  List.Forall₂ (Twins src src') x.1 x'.1 ∧ Twins src src' x.2 x'.2

theorem rel_inPlace (h : List.Forall₂ (Twins src src') ns ns') :
    List.Forall₂ (TwinsInPlace src src') (inPlace ns) (inPlace ns') := by
  induction h with
  | nil => exact .nil
  | cons hm _ ih =>
    rw [inPlace_cons, inPlace_cons]
    refine .cons ⟨.nil, hm⟩ ?_
    rw [List.forall₂_map_left_iff, List.forall₂_map_right_iff]
    exact ih.imp fun _ _ hx => ⟨.cons hm hx.1, hx.2⟩

theorem Twins.functionsInPlace (h : Twins src src' n n') :
    List.Forall₂ (TwinsInPlace src src') n.functionsInPlace n'.functionsInPlace :=
  List.rel_filter (fun _ _ hx => by dsimp only; rw [hx.2.same.kind]) (rel_inPlace h.parts)

theorem Twins.specsInPlace (h : Twins src src' n n') : List.Forall₂
    (fun z z' => TwinsInPlace src src' z.1 z'.1 ∧ TwinsInPlace src src' z.2 z'.2)
    n.specsInPlace n'.specsInPlace := by
  refine List.rel_flatMap (R := TwinsInPlace src src')
    (List.rel_filter (fun _ _ hx => by dsimp only; rw [hx.2.same.kind]) (rel_inPlace h.parts))
    fun x x' hx => ?_
  rw [List.forall₂_map_left_iff, List.forall₂_map_right_iff]
  have hspecs : List.Forall₂ (TwinsInPlace src src')
      ((inPlace x.2.parts).filter (·.2.kind.isSpec))
      ((inPlace x'.2.parts).filter (·.2.kind.isSpec)) :=
    List.rel_filter (fun _ _ hy => by dsimp only; rw [hy.2.same.kind]) (rel_inPlace hx.2.parts)
  exact hspecs.imp fun _ _ hy => ⟨hx, hy⟩

theorem rel_attached (h : List.Forall₂ (Twins src src') ns ns') : ∀ row,
    List.Forall₂ (Twins src src') (attached row ns) (attached row ns') := by
  induction h with
  | nil => exact fun _ => .nil
  | cons hm _ ih =>
    intro row
    rw [attached, attached, hm.same.kind, hm.same.stop.row, hm.same.start.blank, hm.same.start.row]
    split
    · exact .cons hm (ih _)
    · exact .nil

theorem TwinsInPlace.attached {x x' : List Node × Node} (h : TwinsInPlace src src' x x') :
    List.Forall₂ (Twins src src') (Node.attached x.2.start.row x.1.reverse).reverse
      (Node.attached x'.2.start.row x'.1.reverse).reverse := by
  rw [h.2.same.start.row]
  exact List.rel_reverse (rel_attached (List.rel_reverse h.1) _)

/-! ## The package -/

/-- The package named last, with `package` named before. -/
def lastPackage (package : Option String) (ns : List Node) : Option String :=
  ns.foldl (fun p n => if n.kind = .phrase .packageClause then
    (n.parts.find? (·.kind = .alternate .packageIdentifier)).map text else p) package

theorem lastPackage_of_collect : ∀ (ns : List Node) {seen : List Node} {package last : Option String}
    {types : List TypeDecl} {funcs : List FuncDecl},
    collect seen package ns = .ok (last, types, funcs) → last = lastPackage package ns := by
  intro ns
  induction ns with
  | nil =>
    intro seen package last types funcs h
    cases h
    rfl
  | cons n ns ih =>
    intro seen package last types funcs h
    have hskip : n.kind ≠ .phrase .packageClause → lastPackage package (n :: ns)
        = lastPackage package ns := fun hk => by
      rw [lastPackage, List.foldl_cons, if_neg hk, lastPackage]
    unfold collect at h
    split at h
    next hk =>
      rw [lastPackage, List.foldl_cons, if_pos hk]
      exact ih h
    next hk =>
      split at h
      next hrest =>
        cases h
        rw [hskip (by rw [hk]; decide)]
        exact ih hrest
      · cases h
    iterate 2
      next hk =>
        split at h
        · cases h
        · split at h
          next hrest =>
            cases h
            rw [hskip (by rw [hk]; decide)]
            exact ih hrest
          · cases h
    iterate 4
      next hk =>
        rw [hskip (by rw [hk]; decide)]
        exact ih h
    · cases h

theorem rel_lastPackage (h : List.Forall₂ (Twins src src') ns ns') (package : Option String) :
    lastPackage package ns' = lastPackage package ns := by
  induction h generalizing package with
  | nil => rfl
  | @cons n n' ns ns' hn _ ih =>
    rw [lastPackage, lastPackage, List.foldl_cons, List.foldl_cons, hn.same.kind]
    have hname : (n'.parts.find? (·.kind = .alternate .packageIdentifier)).map text
        = (n.parts.find? (·.kind = .alternate .packageIdentifier)).map text := by
      have hfind := rel_find? (p := (·.kind = .alternate .packageIdentifier))
        (fun _ _ hm => by rw [hm.same.kind]) hn.parts
      have hmem : ∀ {k : Node}, ∀ m ∈ k.parts.find? (·.kind = .alternate .packageIdentifier),
          m ∈ k.children ∧ m.kind.isGivenName = true := by
        intro k m hm
        have hfound := Option.mem_def.1 hm
        have hk : m.kind = .alternate .packageIdentifier := by simpa using List.find?_some hfound
        refine ⟨List.mem_of_mem_filter (List.mem_of_find?_eq_some hfound), ?_⟩
        rw [hk]
        rfl
      have hleft := hmem (k := n)
      have hright := hmem (k := n')
      generalize n.parts.find? (·.kind = .alternate .packageIdentifier) = o,
        n'.parts.find? (·.kind = .alternate .packageIdentifier) = o' at hfind hleft hright ⊢
      cases hfind with
      | none => rfl
      | @some m m' h =>
        obtain ⟨hm, hk⟩ := hleft m rfl
        obtain ⟨hm', hk'⟩ := hright m' rfl
        exact congrArg some
          (h.text_eq (hn.left.isName_child hm hk) (hn.right.isName_child hm' hk'))
    rw [hname]
    exact ih _

end Node

theorem package_of_parse {source : String} {root : Node} {file : SourceFile}
    (hroot : Node.ofSource? source.toList = some root) (h : SourceFile.parse source = .ok file) :
    some file.package = Node.lastPackage none root.parts := by
  rw [Node.parse_of_ofSource? hroot (broken_of_parse hroot h), Node.sourceFile] at h
  split at h
  · cases h
  · cases h
  next hcollect =>
    cases h
    exact Node.lastPackage_of_collect _ hcollect

end Go
end RouteScribe
