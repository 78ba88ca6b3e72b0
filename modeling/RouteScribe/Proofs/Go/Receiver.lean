import RouteScribe.Proofs.Go.Collection

/-!
# RouteScribe.Proofs.Go.Receiver

Which type a method belongs to: the one whose name is left of its receiver without pointers,
parentheses and type arguments. A qualified name is left as it is; the dot in it keeps it apart from
the names of all types that a file declares.

* `Node.BuiltFrom`: what a receiver is built from.
* `Node.IsMethodOf`, `Node.IsForeign`: methods of a type, and methods of a type of another package.
* `Attributes`: what a source file says of its methods.
* `attributes_of_tree`: it says so of all methods in its tree, and there are no others.
-/

namespace RouteScribe
namespace Go

/-! ## Qualified names -/

/-- A production for a qualified name has a dot. -/
def Production.hasDot (p : Production) : Bool :=
  p.head ≠ .phrase .qualifiedType || p.steps.any (·.symbol = .token .period)

theorem hasDot_productions : productions.all Production.hasDot = true := by
  decide +kernel

namespace Node

variable {src : List Char} {n : Node}

theorem Derived.dot_mem_text (h : n.Derived goTables src) (hk : n.kind = .phrase .qualifiedType) :
    '.' ∈ n.text.toList := by
  obtain ⟨p, cs, hhead, made⟩ := h.exists_made hk (not_renames (by decide))
  obtain ⟨i, hp⟩ := made.known
  have hdot := List.all_eq_true.1 hasDot_productions p (mem_productions hp)
  simp only [Production.hasDot, hhead, ne_eq, not_true_eq_false, decide_false, Bool.false_or] at hdot
  obtain ⟨s, hs, hsymbol⟩ := List.any_eq_true.1 hdot
  obtain ⟨q, hq, hqsymbol, -⟩ := exists_piece (g := goTables) none made.follows s hs
  rw [of_decide_eq_true hsymbol] at hqsymbol
  obtain ⟨hsound, hcost⟩ := made.pieces q hq
  obtain ⟨l, rfl, hl⟩ := exists_leaf_of_symbol?_token proper_goTables hsound hqsymbol
  cases hsound with
  | leaf hsound =>
    have hdot : ['.'] <:+: n.text.toList := by
      obtain ⟨hstart, hle, hstop⟩ := made.ordered.of_mem hq
      rw [← hsound.period (missing_of_cost hcost) hl]
      exact made.start.infix_textTo hsound.start hsound.stop made.stop hstart hle hstop
    exact hdot.subset List.mem_cons_self

/-! ## Forms of receivers -/

/-- The type is one of kind `k` and with the text `t`, in pointers, parentheses and type arguments.
What comes behind it in them, as comments may, does not count. -/
inductive BuiltFrom (k : Kind) (t : String) : Node → Prop where
  | core {n : Node} (hk : n.kind = k) (ht : n.text = t) : BuiltFrom k t n
  | inner {n m : Node} (hk : n.kind = .phrase .pointerType ∨ n.kind = .phrase .parenthesizedType)
      (hm : n.parts.head? = some m) (h : BuiltFrom k t m) : BuiltFrom k t n
  | generic {n m : Node} (hk : n.kind = .phrase .genericType) (hm : n.part? .type = some m)
      (h : BuiltFrom k t m) : BuiltFrom k t n

/-- The node is a method with one receiver, which has a name or none, of this type. -/
structure HasReceiver (n type : Node) : Prop where
  method : n.kind = .phrase .methodDeclaration
  list : ∃ list param, n.part? .receiver = some list ∧ list.params = [param] ∧
    param.names.length ≤ 1 ∧ param.part? .type = some type

/-- The node is a method of the type of that name. -/
def IsMethodOf (n : Node) (t : String) : Prop :=
  ∃ type, n.HasReceiver type ∧ type.BuiltFrom (.alternate .typeIdentifier) t

/-- The node is a method whose receiver has a qualified name. -/
def IsForeign (n : Node) (q : String) : Prop :=
  ∃ type, n.HasReceiver type ∧ type.BuiltFrom (.phrase .qualifiedType) q

theorem reducesTo_iff {t : String} : n.ReducesTo t ↔
    n.BuiltFrom (.alternate .typeIdentifier) t ∨ n.BuiltFrom (.phrase .qualifiedType) t := by
  constructor
  · intro h
    induction h with
    | name h => exact h.imp (.core · rfl) (.core · rfl)
    | inner hk hm _ ih => exact ih.imp (.inner hk hm) (.inner hk hm)
    | generic hk hm _ ih => exact ih.imp (.generic hk hm) (.generic hk hm)
  · have hreduces : ∀ {k : Kind}, k = .alternate .typeIdentifier ∨ k = .phrase .qualifiedType →
        n.BuiltFrom k t → n.ReducesTo t := by
      rintro k hk h
      induction h with
      | core hn ht => exact ht ▸ .name (hn ▸ hk)
      | inner hn hm _ ih => exact .inner hn hm ih
      | generic hn hm _ ih => exact .generic hn hm ih
    exact fun h => h.elim (hreduces (.inl rfl)) (hreduces (.inr rfl))

theorem ReducesTo.unique {t u : String} (h : n.ReducesTo t) (h' : n.ReducesTo u) : t = u := by
  rw [← baseType?_eq_some_iff] at h h'
  exact Option.some.inj (h.symm.trans h')

theorem BuiltFrom.dot_mem {q : String} (h : n.BuiltFrom (.phrase .qualifiedType) q)
    (hn : n.Derived goTables src) : '.' ∈ q.toList := by
  induction h with
  | core hk ht => exact ht ▸ hn.dot_mem_text hk
  | inner _ hm _ ih => exact ih (hn.child (List.mem_of_mem_filter (List.mem_of_head? hm)))
  | generic _ hm _ ih => exact ih (hn.child (List.mem_of_find?_eq_some hm))

theorem HasReceiver.derived {type : Node} (h : n.HasReceiver type) (hn : n.Derived goTables src) :
    type.Derived goTables src := by
  obtain ⟨list, param, hlist, hparams, -, htype⟩ := h.list
  have hmem : param ∈ list.params := by
    rw [hparams]
    exact List.mem_singleton_self param
  have hlist := hn.child (List.mem_of_find?_eq_some hlist)
  have hparam := hlist.child (List.mem_of_mem_filter (List.mem_of_mem_filter hmem))
  exact hparam.child (List.mem_of_find?_eq_some htype)

theorem HasReceiver.unique {type type' : Node} (h : n.HasReceiver type)
    (h' : n.HasReceiver type') : type = type' := by
  obtain ⟨list, param, hlist, hparams, -, htype⟩ := h.list
  obtain ⟨list', param', hlist', hparams', -, htype'⟩ := h'.list
  rw [hlist] at hlist'
  cases hlist'
  rw [hparams] at hparams'
  cases hparams'
  exact Option.some.inj (htype.symm.trans htype')

/-- The receiver of a function is what the type of its node reduces to. -/
theorem DeclaresFunc.receiver_eq_some_iff {f : FuncDecl} (h : n.DeclaresFunc f) {t : String} :
    f.receiver = some t ↔ ∃ type, n.HasReceiver type ∧ type.ReducesTo t := by
  rcases h.receiver with ⟨hk, hnone⟩ | ⟨hk, list, u, hlist, hu, hsome⟩
  · rw [hnone]
    refine ⟨nofun, ?_⟩
    rintro ⟨type, htype, -⟩
    rw [htype.method] at hk
    cases hk
  · obtain ⟨hone, hnames, htyped, hreduces⟩ := hu
    have hreceiver : n.HasReceiver _ := ⟨hk, list, _, hlist, hone, hnames, htyped⟩
    rw [hsome, Option.some.injEq]
    constructor
    · rintro rfl
      exact ⟨_, hreceiver, hreduces⟩
    · rintro ⟨type, htype, ht⟩
      rw [← hreceiver.unique htype] at ht
      exact hreduces.unique ht

theorem DeclaresFunc.receiver_of_isMethodOf {f : FuncDecl} (h : n.DeclaresFunc f) {t : String}
    (ht : n.IsMethodOf t) : f.receiver = some t := by
  obtain ⟨type, htype, hbuilt⟩ := ht
  exact h.receiver_eq_some_iff.2 ⟨type, htype, reducesTo_iff.2 (.inl hbuilt)⟩

theorem DeclaresFunc.receiver_of_isForeign {f : FuncDecl} (h : n.DeclaresFunc f) {q : String}
    (hq : n.IsForeign q) : f.receiver = some q := by
  obtain ⟨type, htype, hbuilt⟩ := hq
  exact h.receiver_eq_some_iff.2 ⟨type, htype, reducesTo_iff.2 (.inr hbuilt)⟩

theorem DeclaresFunc.name_eq_iff {f : FuncDecl} (h : n.DeclaresFunc f) (name : String) :
    (∃ m, n.part? .name = some m ∧ m.text = name) ↔ f.name = name := by
  obtain ⟨m, hm, hname⟩ := h.name
  simp [hm, hname]

/-- A name without a dot is the receiver of the methods of that type only. -/
theorem DeclaresFunc.isMethodOf_iff {f : FuncDecl} (h : n.DeclaresFunc f)
    (hn : n.Derived goTables src) {t : String} (ht : '.' ∉ t.toList) :
    n.IsMethodOf t ↔ f.receiver = some t := by
  refine ⟨h.receiver_of_isMethodOf, fun hreceiver => ?_⟩
  obtain ⟨type, htype, hreduces⟩ := h.receiver_eq_some_iff.1 hreceiver
  rcases reducesTo_iff.1 hreduces with hbuilt | hbuilt
  · exact ⟨type, htype, hbuilt⟩
  · exact absurd (hbuilt.dot_mem (htype.derived hn)) ht

theorem IsForeign.dot_mem {q : String} (h : n.IsForeign q) (hn : n.Derived goTables src) :
    '.' ∈ q.toList := by
  obtain ⟨type, htype, hbuilt⟩ := h
  exact hbuilt.dot_mem (htype.derived hn)

/-- A method of some type, of this package or another, is nothing to report. -/
theorem not_offends_of_reducesTo (hn : n.Derived goTables src) {type : Node} {t : String}
    (h : n.HasReceiver type) (ht : type.ReducesTo t) : ∀ e, ¬ n.Offends e := by
  obtain ⟨list, param, hlist, hparams, hnames, htype⟩ := h.list
  refine (not_offends_iff hn).2 ⟨by rw [h.method]; rfl, fun _ => ?_⟩
  exact ⟨list, t, hlist, hparams, hnames, htype, ht⟩

theorem offends_of_not_reducesTo {type : Node} (h : n.HasReceiver type)
    (hnone : ∀ t, ¬ type.ReducesTo t) : ∃ e, n.Offends e := by
  obtain ⟨list, param, hlist, hparams, hnames, htype⟩ := h.list
  refine ⟨_, .receiver h.method hlist (.type hparams hnames fun type' t htype' => ?_)⟩
  rw [htype] at htype'
  cases htype'
  exact hnone t

end Node

/-! ## Source files -/

open Classical in
/-- What a source file says of the functions in its tree. -/
structure Attributes (root : Node) (f : SourceFile) : Prop where
  /-- It has all of them, in their order. -/
  funcs : List.Forall₂ Node.DeclaresFunc root.functions f.funcs
  /-- Of these, a type has just its methods, in their order. -/
  methods : ∀ t, IsName t →
    List.Forall₂ Node.DeclaresFunc (root.functions.filter (·.IsMethodOf t)) (f.methodsOf t)
  /-- A method belongs to its type and to no other. -/
  only : ∀ n m, (n, m) ∈ root.functions.zip f.funcs → ∀ t, n.IsMethodOf t →
    m ∈ f.methodsOf t ∧ ∀ u, u ≠ t → m ∉ f.methodsOf u
  /-- A type has a method of some name if one of its methods has that name. -/
  has : ∀ t name, IsName t → (f.hasMethod t name = true ↔ ∃ n ∈ root.functions, n.IsMethodOf t ∧
    ∃ m, n.part? .name = some m ∧ m.text = name)
  /-- A method whose receiver has a qualified name belongs to no type that any file declares. -/
  foreign : ∀ n m, (n, m) ∈ root.functions.zip f.funcs → ∀ q, n.IsForeign q →
    ∀ source g, SourceFile.parse source = .ok g → ∀ t ∈ g.types, m ∉ f.methodsOf t.name

variable {src : List Char} {root : Node} {f : SourceFile}

theorem exists_mem_iff {α β : Type} {r : α → β → Prop} {p : α → Prop} {q : β → Prop} {as : List α}
    {bs : List β} (h : List.Forall₂ r as bs) (hpq : ∀ a b, r a b → (p a ↔ q b)) :
    (∃ a ∈ as, p a) ↔ ∃ b ∈ bs, q b := by
  induction h with
  | nil => simp
  | cons hab _ ih => simp [hpq _ _ hab, ih]

theorem attributes_of_forall₂ (hroot : root.Derived goTables src)
    (h : List.Forall₂ Node.DeclaresFunc root.functions f.funcs) : Attributes root f := by
  classical
  have hderived : ∀ n ∈ root.functions, n.Derived goTables src := fun n hn =>
    hroot.child (List.mem_of_mem_filter (List.mem_of_mem_filter hn))
  have hboth := (List.forall₂_and_left _ _).2 ⟨hderived, h⟩
  have hmethods : ∀ t, IsName t →
      List.Forall₂ Node.DeclaresFunc (root.functions.filter (·.IsMethodOf t)) (f.methodsOf t) := by
    intro t ht
    refine (List.rel_filter ?_ hboth).imp fun _ _ h => h.2
    rintro n m ⟨hn, hdeclares⟩
    simp only [decide_eq_true_eq, beq_iff_eq]
    exact hdeclares.isMethodOf_iff hn ht.not_mem_dot
  refine ⟨h, hmethods, fun n m hnm t ht => ?_, fun t name ht => ?_,
    fun n m hnm q hq source g hg t ht hmem => ?_⟩
  · have hreceiver := (List.forall₂_zip h hnm).receiver_of_isMethodOf ht
    refine ⟨SourceFile.mem_methodsOf.2 ⟨(List.of_mem_zip hnm).2, hreceiver⟩, fun u hu hmem => ?_⟩
    have hother := (SourceFile.mem_methodsOf.1 hmem).2
    exact hu (Option.some.inj (hother.symm.trans hreceiver))
  · have hnamed := exists_mem_iff (hmethods t ht) fun n m hnm => hnm.name_eq_iff name
    rw [SourceFile.hasMethod_iff, ← hnamed]
    simp only [List.mem_filter, decide_eq_true_eq, and_assoc]
  · have hdot := hq.dot_mem (hderived n (List.of_mem_zip hnm).1)
    have hreceiver := (List.forall₂_zip h hnm).receiver_of_isForeign hq
    have hname := (SourceFile.mem_methodsOf.1 hmem).2
    rw [hreceiver, Option.some.injEq] at hname
    exact ((isName_of_parse hg).1 t ht).not_mem_dot (hname ▸ hdot)

/-- The methods in a tree without faults belong to the types that their receivers are built from. A
method with such a receiver, or with a qualified one, is no reason to refuse the file; a method with
a receiver of any other form always is one. -/
theorem attributes_of_tree {source : String}
    (hroot : Node.ofSource? source.toList = some root) (hbroken : root.broken = false) :
    (∀ f, SourceFile.parse source = .ok f → Attributes root f) ∧
    (∀ n ∈ root.parts, ∀ t, n.IsMethodOf t ∨ n.IsForeign t → ∀ e, ¬ n.Offends e) ∧
    ∀ n ∈ root.parts, ∀ type, n.HasReceiver type →
      (∀ t, ¬ type.BuiltFrom (.alternate .typeIdentifier) t) →
      (∀ q, ¬ type.BuiltFrom (.phrase .qualifiedType) q) →
      ∃ e, SourceFile.parse source = .error e := by
  have hderived := Node.derived_of_ofSource? hroot hbroken
  refine ⟨fun f hf => ?_, fun n hn t ht => ?_, fun n hn type htype hname hqualified => ?_⟩
  · have hfuncs := Node.forall₂_funcs hderived (collects_of_parse hroot hf)
    refine attributes_of_forall₂ hderived ?_
    rw [← Node.map_functionsInPlace, List.forall₂_map_left_iff]
    exact hfuncs.imp fun _ _ h => h.1
  · have hn := hderived.child (List.mem_of_mem_filter hn)
    rcases ht with ⟨type, htype, hbuilt⟩ | ⟨type, htype, hbuilt⟩
    · exact Node.not_offends_of_reducesTo hn htype (Node.reducesTo_iff.2 (.inl hbuilt))
    · exact Node.not_offends_of_reducesTo hn htype (Node.reducesTo_iff.2 (.inr hbuilt))
  · obtain ⟨e, he⟩ := Node.offends_of_not_reducesTo htype fun t ht =>
      (Node.reducesTo_iff.1 ht).elim (hname t) (hqualified t)
    rw [Node.parse_of_ofSource? hroot hbroken]
    rcases Node.sourceFile_cases hderived with ⟨hfile, -⟩ | ⟨-, e', he', -⟩
    · exact absurd he (((Node.isFile_iff hderived).1 hfile).1 n hn e)
    · exact ⟨e', he'⟩

/-- Two methods of one type, with pointers, parentheses and type arguments, and one of a type of
another package. -/
def wrapped : String := "package p\ntype T int\nfunc (a *(*T)) M() \x7b\x7d\n"
  ++ "func ((T[int])) N() \x7b\x7d\nfunc (b q.T) O() \x7b\x7d\n"

theorem attributes_of_wrapped : ∃ root f, Node.ofSource? wrapped.toList = some root ∧
    root.broken = false ∧ SourceFile.parse wrapped = .ok f ∧
    f.methodsOf "T" = [⟨"M", some "T", none⟩, ⟨"N", some "T", none⟩] ∧ Attributes root f ∧
    ∃ n ∈ root.functions, n.IsMethodOf "T" ∧ ∃ m, n.part? .name = some m ∧ m.text = "N" := by
  have hfile : SourceFile.parse wrapped = .ok ⟨"p", [⟨"T", none⟩],
      [⟨"M", some "T", none⟩, ⟨"N", some "T", none⟩, ⟨"O", some "q.T", none⟩]⟩ := by
    decide +kernel
  obtain ⟨root, hroot, hbroken⟩ := exists_ofSource?_of_parse hfile
  have hattributes := (attributes_of_tree hroot hbroken).1 _ hfile
  have hname : IsName "T" := List.forall_mem_singleton.2 (by decide)
  exact ⟨root, _, hroot, hbroken, hfile, by decide, hattributes,
    (hattributes.has "T" "N" hname).1 (by decide)⟩

end Go
end RouteScribe
