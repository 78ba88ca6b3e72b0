import RouteScribe.Proofs.Go.Declaration
import RouteScribe.Proofs.Go.Listing

/-!
# RouteScribe.Proofs.Go.Collection

Which trees are source files. All nodes at the top must be ones that may stand there, each method
must have one receiver, and some node must name the package; otherwise the first node that offends
decides what is reported.

* `Node.ReducesTo`, `Node.Receives`, `Node.Misreceives`: what a receiver list declares.
* `Node.Offends`: what is wrong with a node at the top.
* `collect_cases`: the first node that offends, or all declarations.
* `parse_of_tree`: source files, their declarations, and the errors of the others.
-/

namespace RouteScribe
namespace Go

/-! ## What the grammar says of declarations -/

/-- The production has a part in the field `f`. -/
def Production.gives (p : Production) (f : Field) : Bool :=
  p.steps.any fun s => s.field = some f && s.isShown

/-- Declarations have names, methods and nothing else have receivers, and the clause that names the
package has a name for it. -/
def Production.isComplete (p : Production) : Bool :=
  (match p.head with
    | .phrase .methodDeclaration => p.gives .name && p.gives .receiver
    | .phrase .functionDeclaration | .phrase .typeSpec | .phrase .typeAlias => p.gives .name
    | .phrase .packageClause =>
      p.steps.any fun s => s.renamed = some (.alternate .packageIdentifier)
    | _ => true)
  && (p.head = .phrase .methodDeclaration || p.steps.all (·.field ≠ some .receiver))

theorem isComplete_productions : productions.all Production.isComplete = true := by
  decide +kernel

theorem isComplete_goTables {n : Nat} {p : Production} (h : goTables.productions[n]? = some p) :
    p.isComplete = true :=
  List.all_eq_true.1 isComplete_productions p (mem_productions h)

/-- A production for a method is shown in trees, and no other gives a receiver. -/
theorem shows_receiver : goTables.Shows .receiver := by
  intro n p hp hhidden s hs
  have h := isComplete_goTables hp
  have hhead : p.head ≠ .phrase .methodDeclaration := by
    intro hhead
    rw [hhead] at hhidden
    cases hhidden
  simp only [Production.isComplete, hhead, decide_false, Bool.false_or, Bool.and_eq_true,
    List.all_eq_true, decide_eq_true_eq] at h
  exact h.2 s hs

namespace Node

variable {src : List Char} {n : Node}

theorem Derived.exists_part (h : n.Derived goTables src) {q : Phrase} (hk : n.kind = .phrase q)
    (hown : (Kind.phrase q).isGiven = false) {f : Field}
    (hgives : ∀ p : Production, p.isComplete = true → p.head = .phrase q → p.gives f = true) :
    ∃ m, n.part? f = some m := by
  obtain ⟨p, cs, hhead, hmade⟩ := h.exists_made hk (not_renames hown)
  obtain ⟨i, hp⟩ := hmade.known
  obtain ⟨s, hs, hf⟩ := List.any_eq_true.1 (hgives p (isComplete_goTables hp) hhead)
  simp only [Bool.and_eq_true, decide_eq_true_eq] at hf
  obtain ⟨c, hc, hfield, _⟩ := hmade.exists_child proper_goTables hs hf.2
  refine Option.isSome_iff_exists.1 (List.find?_isSome.2 ⟨c, hc, ?_⟩)
  rw [hfield, hf.1]
  exact beq_self_eq_true _

theorem Derived.exists_name (h : n.Derived goTables src) (hk : n.kind.declares = true) :
    ∃ m, n.part? .name = some m := by
  cases hkind : n.kind with
  | phrase q =>
    rw [hkind] at hk
    have hq : q = .typeSpec ∨ q = .typeAlias ∨ q = .functionDeclaration ∨
        q = .methodDeclaration := by
      revert hk
      cases q <;> decide
    rcases hq with rfl | rfl | rfl | rfl
    all_goals
      refine h.exists_part hkind (by decide) fun p hp hhead => ?_
      simp only [Production.isComplete, hhead, Bool.and_eq_true] at hp
    · exact hp.1
    · exact hp.1
    · exact hp.1
    · exact hp.1.1
  | token t =>
    rw [hkind] at hk
    cases hk
  | alternate a =>
    rw [hkind] at hk
    cases hk
  | error =>
    rw [hkind] at hk
    cases hk

theorem Derived.exists_receiver (h : n.Derived goTables src)
    (hk : n.kind = .phrase .methodDeclaration) : ∃ m, n.part? .receiver = some m := by
  refine h.exists_part hk (by decide) fun p hp hhead => ?_
  simp only [Production.isComplete, hhead, Bool.and_eq_true] at hp
  exact hp.1.2

theorem Derived.receiver_eq_none (h : n.Derived goTables src)
    (hk : n.kind = .phrase .functionDeclaration) : n.part? .receiver = none := by
  refine List.find?_eq_none.2 fun c hc hfield => ?_
  obtain ⟨p, cs, hhead, hmade⟩ := h.exists_made hk (not_renames (by decide))
  obtain ⟨s, hs, hf⟩ := hmade.exists_step proper_goTables shows_receiver hc (beq_iff_eq.1 hfield)
  obtain ⟨i, hp⟩ := hmade.known
  have hcomplete := isComplete_goTables hp
  simp only [Production.isComplete, hhead, Bool.and_eq_true, Bool.or_eq_true, decide_eq_true_eq,
    List.all_eq_true] at hcomplete
  rcases hcomplete.2 with hmethod | hnone
  · cases hmethod
  · exact hnone s hs hf

theorem Derived.exists_package (h : n.Derived goTables src)
    (hk : n.kind = .phrase .packageClause) :
    ∃ m, n.parts.find? (·.kind = .alternate .packageIdentifier) = some m := by
  obtain ⟨p, cs, hhead, hmade⟩ := h.exists_made hk (not_renames (by decide))
  obtain ⟨i, hp⟩ := hmade.known
  have hcomplete := isComplete_goTables hp
  simp only [Production.isComplete, hhead, Bool.and_eq_true] at hcomplete
  obtain ⟨s, hs, hrenamed⟩ := List.any_eq_true.1 hcomplete.1
  have hrenamed : s.renamed = some (.alternate .packageIdentifier) := of_decide_eq_true hrenamed
  obtain ⟨c, hc, _, hkind⟩ := hmade.exists_child proper_goTables hs (by
    rw [Step.isShown, hrenamed]
    rfl)
  have hkind := hkind _ hrenamed
  refine Option.isSome_iff_exists.1 (List.find?_isSome.2 ⟨c, List.mem_filter.2 ⟨hc, ?_⟩, ?_⟩)
  · rw [hkind]
    rfl
  · rw [hkind]
    rfl

end Node

/-! ## Receivers -/

namespace Node

/-- The type reduces to a name: it is one, perhaps qualified, or the first part of a pointer or of
parentheses does, or what stands before type arguments. A comment that is the first part of a
pointer or of parentheses is no type. -/
inductive ReducesTo : Node → String → Prop where
  | name {n : Node} (h : n.kind = .alternate .typeIdentifier ∨ n.kind = .phrase .qualifiedType) :
      ReducesTo n n.text
  | inner {n m : Node} {t : String}
      (h : n.kind = .phrase .pointerType ∨ n.kind = .phrase .parenthesizedType)
      (hm : n.parts.head? = some m) (ht : ReducesTo m t) : ReducesTo n t
  | generic {n m : Node} {t : String} (h : n.kind = .phrase .genericType)
      (hm : n.part? .type = some m) (ht : ReducesTo m t) : ReducesTo n t

theorem firstBaseType?_eq (ns : List Node) :
    firstBaseType? ns = (ns.find? (·.kind.isNamed)).bind baseType? := by
  induction ns with
  | nil => rfl
  | cons n ns ih =>
    rw [firstBaseType?, List.find?_cons]
    cases n.kind.isNamed with
    | true => rfl
    | false => exact ih

theorem fieldBaseType?_eq (ns : List Node) :
    fieldBaseType? ns = (ns.find? (·.field == some .type)).bind baseType? := by
  induction ns with
  | nil => rfl
  | cons n ns ih =>
    rw [fieldBaseType?, List.find?_cons]
    by_cases h : n.field = some .type
    · rw [if_pos h, h]
      rfl
    · rw [if_neg h, beq_false_of_ne h]
      exact ih

theorem baseType?_eq (n : Node) : n.baseType? =
    match n.kind with
    | .alternate .typeIdentifier | .phrase .qualifiedType => some n.text
    | .phrase .pointerType | .phrase .parenthesizedType => n.parts.head?.bind baseType?
    | .phrase .genericType => (n.part? .type).bind baseType?
    | _ => none := by
  obtain ⟨k, f, m, b, s, e, cs⟩ := n
  rw [baseType?.eq_def, parts, List.head?_filter, ← firstBaseType?_eq, part?, ← fieldBaseType?_eq]
  rfl

theorem baseType?_of_reducesTo {n : Node} {t : String} (h : n.ReducesTo t) :
    n.baseType? = some t := by
  induction h with
  | name h =>
    rw [baseType?_eq]
    rcases h with h | h <;> rw [h]
  | inner h hm _ ih =>
    rw [baseType?_eq]
    rcases h with h | h <;> rw [h, hm] <;> exact ih
  | generic h hm _ ih =>
    rw [baseType?_eq, h]
    dsimp only
    rw [hm]
    exact ih

theorem sizeOf_lt_of_mem_children {n m : Node} (h : m ∈ n.children) : sizeOf m < sizeOf n := by
  obtain ⟨k, f, mi, b, s, e, cs⟩ := n
  have hlt := List.sizeOf_lt_of_mem (show m ∈ cs from h)
  simp only [mk.sizeOf_spec]
  omega

theorem reducesTo_of_baseType? (n : Node) {t : String} (h : n.baseType? = some t) :
    n.ReducesTo t := by
  rw [baseType?_eq] at h
  split at h
  next hk =>
    cases h
    exact .name (.inl hk)
  next hk =>
    cases h
    exact .name (.inr hk)
  next hk =>
    obtain ⟨m, hm, ht⟩ := Option.bind_eq_some_iff.1 h
    have hmem : m ∈ n.children := List.mem_of_mem_filter (List.mem_of_head? hm)
    exact .inner (.inl hk) hm (reducesTo_of_baseType? m ht)
  next hk =>
    obtain ⟨m, hm, ht⟩ := Option.bind_eq_some_iff.1 h
    have hmem : m ∈ n.children := List.mem_of_mem_filter (List.mem_of_head? hm)
    exact .inner (.inr hk) hm (reducesTo_of_baseType? m ht)
  next hk =>
    obtain ⟨m, hm, ht⟩ := Option.bind_eq_some_iff.1 h
    have hmem : m ∈ n.children := List.mem_of_find?_eq_some hm
    exact .generic hk hm (reducesTo_of_baseType? m ht)
  · cases h
termination_by sizeOf n
decreasing_by all_goals exact sizeOf_lt_of_mem_children hmem

theorem baseType?_eq_some_iff {n : Node} {t : String} : n.baseType? = some t ↔ n.ReducesTo t :=
  ⟨reducesTo_of_baseType? n, baseType?_of_reducesTo⟩

/-- The parameters of a list, without the comments between them. -/
def params (list : Node) : List Node := list.parts.filter (·.kind ≠ .token .comment)

/-- The names of a parameter. -/
def names (param : Node) : List Node := param.children.filter (·.field = some .name)

/-- The list declares a receiver: it has one parameter, of at most one name, and the type of the
parameter reduces to `t`. -/
inductive Receives (list : Node) (t : String) : Prop where
  | mk {param type : Node} (one : list.params = [param]) (names : param.names.length ≤ 1)
      (typed : param.part? .type = some type) (reduces : type.ReducesTo t) : Receives list t

/-- What is wrong with a list that declares no receiver. -/
inductive Misreceives (list : Node) : Fault → Prop where
  | none (h : list.params = []) : Misreceives list .noReceiver
  | several (h : 2 ≤ list.params.length) : Misreceives list .severalReceivers
  | names {param : Node} (h : list.params = [param]) (hnames : 2 ≤ param.names.length) :
      Misreceives list .severalReceivers
  | type {param : Node} (h : list.params = [param]) (hnames : param.names.length ≤ 1)
      (htype : ∀ type t, param.part? .type = some type → ¬ type.ReducesTo t) :
      Misreceives list (.invalidReceiver list.text)

theorem receiver_eq (list : Node) : list.receiver =
    match list.params with
    | [] => .error ⟨list.line, .noReceiver⟩
    | [param] =>
      if 1 < param.names.length then .error ⟨list.line, .severalReceivers⟩
      else
        match (param.part? .type).bind baseType? with
        | some t => .ok t
        | none => .error ⟨list.line, .invalidReceiver list.text⟩
    | _ => .error ⟨list.line, .severalReceivers⟩ := rfl

theorem Receives.receiver_eq {list : Node} {t : String} (h : list.Receives t) :
    list.receiver = .ok t := by
  obtain ⟨hone, hnames, htype, hreduces⟩ := h
  rw [Node.receiver_eq, hone]
  dsimp only
  rw [if_neg (Nat.not_lt.2 hnames), htype, Option.bind_some, baseType?_of_reducesTo hreduces]

theorem Misreceives.receiver_eq {list : Node} {f : Fault} (h : list.Misreceives f) :
    list.receiver = .error ⟨list.line, f⟩ := by
  cases h with
  | none h => rw [Node.receiver_eq, h]
  | several h =>
    rw [Node.receiver_eq]
    split
    next hnil =>
      rw [hnil] at h
      exact absurd h (Nat.not_succ_le_zero 1)
    next param hone =>
      rw [hone] at h
      exact absurd h (Nat.not_succ_le_self 1)
    · rfl
  | names h hseveral =>
    rw [Node.receiver_eq, h]
    dsimp only
    rw [if_pos (show 1 < _ from hseveral)]
  | @type param h hnames htype =>
    rw [Node.receiver_eq, h]
    dsimp only
    rw [if_neg (Nat.not_lt.2 hnames)]
    split
    next t ht =>
      obtain ⟨type, hpart, hbase⟩ := Option.bind_eq_some_iff.1 ht
      exact absurd (reducesTo_of_baseType? type hbase) (htype type t hpart)
    · rfl

theorem receives_or_misreceives (list : Node) :
    (∃ t, list.Receives t) ∨ ∃ f, list.Misreceives f := by
  cases hps : list.params with
  | nil => exact .inr ⟨_, .none hps⟩
  | cons param ps =>
    cases ps with
    | cons q ps => exact .inr ⟨_, .several (by rw [hps]; exact Nat.le_add_left 2 ps.length)⟩
    | nil =>
      rcases Nat.lt_or_ge 1 param.names.length with hnames | hnames
      · exact .inr ⟨_, .names hps hnames⟩
      · by_cases htype : ∃ type t, param.part? .type = some type ∧ type.ReducesTo t
        · obtain ⟨type, t, hpart, ht⟩ := htype
          exact .inl ⟨t, hps, hnames, hpart, ht⟩
        · exact .inr ⟨_, .type hps hnames fun type t hpart ht => htype ⟨type, t, hpart, ht⟩⟩

theorem Misreceives.not_receives {list : Node} {f : Fault} (h : list.Misreceives f) (t : String) :
    ¬ list.Receives t := by
  intro ht
  have hboth := h.receiver_eq.symm.trans ht.receiver_eq
  cases hboth

/-! ## Nodes that offend -/

/-- The node may not stand at the top of a file, or it is a method whose receiver list declares no
receiver. The error is on the line of the node or of the list. -/
inductive Offends : Node → ParseError → Prop where
  | misplaced {n : Node} (h : n.kind.isTop = false) :
      Offends n ⟨n.line, .notDeclaration (n.kind.label.map fun c => if c = '_' then ' ' else c)⟩
  | receiver {n list : Node} {f : Fault} (hk : n.kind = .phrase .methodDeclaration)
      (hlist : n.part? .receiver = some list) (h : list.Misreceives f) : Offends n ⟨list.line, f⟩

variable {src : List Char} {n : Node} {seen ns : List Node} {package : Option String}

/-- What does not offend is a top node, and if it is a method, it has a receiver. -/
theorem not_offends_iff (hn : n.Derived goTables src) : (∀ e, ¬ n.Offends e) ↔
    n.kind.isTop = true ∧ (n.kind = .phrase .methodDeclaration →
      ∃ list t, n.part? .receiver = some list ∧ list.Receives t) := by
  constructor
  · intro h
    refine ⟨Bool.not_eq_false _ ▸ fun htop => h _ (.misplaced htop), fun hk => ?_⟩
    obtain ⟨list, hlist⟩ := hn.exists_receiver hk
    rcases list.receives_or_misreceives with ⟨t, ht⟩ | ⟨f, hf⟩
    · exact ⟨list, t, hlist, ht⟩
    · exact absurd (Offends.receiver hk hlist hf) (h _)
  · rintro ⟨htop, hreceiver⟩ e he
    cases he with
    | misplaced h =>
      rw [htop] at h
      cases h
    | receiver hk hlist hf =>
      obtain ⟨list', t, hlist', ht⟩ := hreceiver hk
      rw [hlist] at hlist'
      cases hlist'
      exact hf.not_receives t ht

/-- A node that offends ends the collection. -/
theorem collect_of_offends (hn : n.Derived goTables src) {e : ParseError} (h : n.Offends e) :
    collect seen package (n :: ns) = .error e := by
  cases h with
  | misplaced htop =>
    unfold collect
    split
    all_goals first
      | rfl
      | next hk =>
        rw [hk] at htop
        cases htop
  | @receiver list f hk hlist hf =>
    obtain ⟨name, hname⟩ := hn.exists_name (by rw [hk]; rfl)
    have hdecl : n.funcDecl (doc? seen.reverse n) = .error ⟨list.line, f⟩ := by
      simp only [funcDecl, hname, hlist, hf.receiver_eq]
    rw [collect, hk]
    dsimp only
    rw [hdecl]

theorem exists_adds (seen : List Node) (package : Option String) (hn : n.Derived goTables src)
    (h : ∀ e, ¬ n.Offends e) : ∃ last types funcs,
    Adds seen package [n] last types funcs ∧
      (last = none ↔ package = none ∧ n.kind ≠ .phrase .packageClause) := by
  obtain ⟨htop, hreceiver⟩ := (not_offends_iff hn).1 h
  by_cases hpackage : n.kind = .phrase .packageClause
  · obtain ⟨name, hname⟩ := hn.exists_package hpackage
    exact ⟨_, _, _, adds_package hpackage hname, by simp [hpackage]⟩
  have hkeep : package = none ↔ package = none ∧ n.kind ≠ .phrase .packageClause :=
    ⟨fun h => ⟨h, hpackage⟩, fun h => h.1⟩
  simp only [Kind.isTop, Bool.or_eq_true, decide_eq_true_eq, hpackage, false_or] at htop
  rcases htop with (htype | hfunc) | hnothing
  · exact ⟨_, _, _, adds_types htype, hkeep⟩
  · have hkinds := hfunc
    simp only [Kind.isFunc, Bool.or_eq_true, decide_eq_true_eq] at hkinds
    obtain ⟨name, hname⟩ := hn.exists_name (by rcases hkinds with hk | hk <;> rw [hk] <;> rfl)
    have hdecl : ∃ f, n.funcDecl (doc? seen.reverse n) = .ok f := by
      rcases hkinds with hk | hk
      · exact ⟨⟨name.text, none, _⟩, by simp only [funcDecl, hname, hn.receiver_eq_none hk]; rfl⟩
      · obtain ⟨list, t, hlist, ht⟩ := hreceiver hk
        exact ⟨⟨name.text, some t, _⟩, by simp only [funcDecl, hname, hlist, ht.receiver_eq]; rfl⟩
    obtain ⟨f, hf⟩ := hdecl
    exact ⟨_, _, _, adds_func hfunc hf, hkeep⟩
  · exact ⟨_, _, _, adds_nothing hnothing, hkeep⟩

/-- The first node of `ns` that offends does so with the error `e`. -/
def FirstOffends (ns : List Node) (e : ParseError) : Prop :=
  ∃ before n after, ns = before ++ n :: after ∧ (∀ m ∈ before, ∀ e', ¬ m.Offends e') ∧ n.Offends e

/-- Either the first node that offends decides the error, or there is none and all declarations are
collected. -/
theorem collect_cases (ns : List Node) : ∀ (seen : List Node) (package : Option String),
    (∀ n ∈ ns, n.Derived goTables src) →
    (∃ e, collect seen package ns = .error e ∧ FirstOffends ns e) ∨
      (∀ n ∈ ns, ∀ e, ¬ n.Offends e) ∧ ∃ last types funcs,
        collect seen package ns = .ok (last, types, funcs) ∧
          (last = none ↔ package = none ∧ ∀ n ∈ ns, n.kind ≠ .phrase .packageClause) := by
  induction ns with
  | nil =>
    intro seen package _
    exact .inr ⟨nofun, package, [], [], rfl, by simp⟩
  | cons n ns ih =>
    intro seen package hns
    obtain ⟨hn, hrest⟩ := List.forall_mem_cons.1 hns
    by_cases hoffends : ∃ e, n.Offends e
    · obtain ⟨e, he⟩ := hoffends
      exact .inl ⟨e, collect_of_offends hn he, [], n, ns, rfl, nofun, he⟩
    have hnone : ∀ e, ¬ n.Offends e := fun e he => hoffends ⟨e, he⟩
    obtain ⟨last, types, funcs, hadds, hlast⟩ := exists_adds seen package hn hnone
    have hcollect := hadds ns
    rw [List.singleton_append, List.reverse_singleton, List.singleton_append] at hcollect
    rcases ih (n :: seen) last hrest with ⟨e, he, before, m, after, rfl, hbefore, hm⟩ |
      ⟨hall, last', types', funcs', hok, hlast'⟩
    · refine .inl ⟨e, by rw [hcollect, he]; rfl, n :: before, m, after, rfl, ?_, hm⟩
      exact List.forall_mem_cons.2 ⟨hnone, hbefore⟩
    · refine .inr ⟨List.forall_mem_cons.2 ⟨hnone, hall⟩, last', types ++ types', funcs ++ funcs',
        by rw [hcollect, hok]; rfl, ?_⟩
      rw [hlast', hlast, List.forall_mem_cons, and_assoc]

/-! ## Source files -/

/-- The tree is one of a source file. -/
structure IsFile (root : Node) : Prop where
  top : ∀ n ∈ root.parts, n.kind.isTop = true
  package : ∃ n ∈ root.parts, n.kind = .phrase .packageClause
  receivers : ∀ n ∈ root.parts, n.kind = .phrase .methodDeclaration →
    ∃ list t, n.part? .receiver = some list ∧ list.Receives t

/-- The types of a tree, those of a group in the place of the group. -/
def specs (root : Node) : List Node :=
  (root.parts.filter (·.kind = .phrase .typeDeclaration)).flatMap fun n =>
    n.parts.filter (·.kind.isSpec)

/-- The functions and methods of a tree. -/
def functions (root : Node) : List Node := root.parts.filter (·.kind.isFunc)

/-- The node declares this type. -/
def DeclaresType (n : Node) (t : TypeDecl) : Prop :=
  ∃ name, n.part? .name = some name ∧ t.name = name.text

/-- The node declares this function: one without a receiver if it is a function, and if it is a
method, one with the receiver of its list. -/
structure DeclaresFunc (n : Node) (f : FuncDecl) : Prop where
  name : ∃ name, n.part? .name = some name ∧ f.name = name.text
  receiver : n.kind = .phrase .functionDeclaration ∧ f.receiver = none ∨
    n.kind = .phrase .methodDeclaration ∧ ∃ list t, n.part? .receiver = some list ∧
      list.Receives t ∧ f.receiver = some t

theorem DeclaresFunc.receiver_eq_none_iff {f : FuncDecl} (h : n.DeclaresFunc f) :
    f.receiver = none ↔ n.kind = .phrase .functionDeclaration := by
  rcases h.receiver with ⟨hk, hnone⟩ | ⟨hk, list, t, _, _, hsome⟩
  · simp [hk, hnone]
  · simp [hk, hsome]

theorem declaresFunc_of_funcDecl (hn : n.Derived goTables src) (hk : n.kind.isFunc = true)
    {doc : Option Doc} {f : FuncDecl} (h : n.funcDecl doc = .ok f) :
    n.DeclaresFunc f ∧ f.doc = doc := by
  simp only [Kind.isFunc, Bool.or_eq_true, decide_eq_true_eq] at hk
  unfold funcDecl at h
  split at h
  · cases h
  next name hname =>
    rcases hk with hk | hk
    · rw [hn.receiver_eq_none hk] at h
      cases h
      exact ⟨⟨⟨name, hname, rfl⟩, .inl ⟨hk, rfl⟩⟩, rfl⟩
    · obtain ⟨list, hlist⟩ := hn.exists_receiver hk
      rw [hlist] at h
      dsimp only at h
      split at h
      next t ht =>
        cases h
        rcases list.receives_or_misreceives with ⟨u, hu⟩ | ⟨f, hf⟩
        · rw [hu.receiver_eq] at ht
          cases ht
          exact ⟨⟨⟨name, hname, rfl⟩, .inr ⟨hk, list, t, hlist, hu, rfl⟩⟩, rfl⟩
        · rw [hf.receiver_eq] at ht
          cases ht
      · cases h

/-- The types of a tree, each with what stands before it in its declaration, and the declaration with
what stands before that. -/
def specsInPlace (root : Node) : List ((List Node × Node) × (List Node × Node)) :=
  ((inPlace root.parts).filter (·.2.kind = .phrase .typeDeclaration)).flatMap fun x =>
    ((inPlace x.2.parts).filter (·.2.kind.isSpec)).map fun y => (x, y)

/-- The functions and methods of a tree, each with what stands before it. -/
def functionsInPlace (root : Node) : List (List Node × Node) :=
  (inPlace root.parts).filter (·.2.kind.isFunc)

theorem map_specsInPlace (root : Node) : root.specsInPlace.map (·.2.2) = root.specs := by
  rw [specs, ← map_filter_inPlace (·.kind = .phrase .typeDeclaration), List.flatMap_map,
    specsInPlace, List.map_flatMap]
  refine List.flatMap_congr fun x _ => ?_
  rw [List.map_map, ← map_filter_inPlace]
  rfl

theorem map_functionsInPlace (root : Node) : root.functionsInPlace.map (·.2) = root.functions :=
  map_filter_inPlace (·.kind.isFunc) root.parts

theorem forall₂_typeDecls (outer : Option Doc) {ns : List Node}
    (hns : ∀ n ∈ ns, n.Derived goTables src) :
    List.Forall₂ (fun y t => y.2.DeclaresType t ∧ t.doc = (doc? y.1 y.2).or outer)
      ((inPlace ns).filter (·.2.kind.isSpec)) (typeDecls outer [] ns) := by
  have hspecs : ∀ y ∈ (inPlace ns).filter (·.2.kind.isSpec),
      ∃ name, y.2.part? .name = some name := by
    intro y hy
    obtain ⟨hmem, hk⟩ := List.mem_filter.1 hy
    refine (hns y.2 (mem_of_mem_inPlace hmem)).exists_name ?_
    simp only [Kind.isSpec, Bool.or_eq_true, decide_eq_true_eq] at hk
    rcases hk with hk | hk <;> rw [hk] <;> rfl
  rw [typeDecls_eq]
  generalize (inPlace ns).filter (·.2.kind.isSpec) = ys at hspecs
  induction ys with
  | nil => exact .nil
  | cons y ys ih =>
    obtain ⟨⟨name, hname⟩, hrest⟩ := List.forall_mem_cons.1 hspecs
    rw [List.filterMap_cons, hname]
    exact .cons ⟨⟨name, hname, rfl⟩, rfl⟩ (ih hrest)

theorem forall₂_types {root : Node} (hroot : root.Derived goTables src) {types : List TypeDecl}
    {funcs : List FuncDecl} (h : Collects [] root.parts types funcs) :
    List.Forall₂ (fun z t => z.2.2.DeclaresType t ∧
      t.doc = (doc? z.2.1 z.2.2).or (doc? z.1.1 z.1.2)) root.specsInPlace types := by
  have hall : ∀ x ∈ (inPlace root.parts).filter (·.2.kind = .phrase .typeDeclaration),
      ∀ n ∈ x.2.parts, n.Derived goTables src := by
    intro x hx n hn
    have hmem := mem_of_mem_inPlace (List.mem_of_mem_filter hx)
    exact (hroot.child (List.mem_of_mem_filter hmem)).child (List.mem_of_mem_filter hn)
  rw [h.types, specsInPlace]
  generalize (inPlace root.parts).filter (·.2.kind = .phrase .typeDeclaration) = xs at hall
  induction xs with
  | nil => exact .nil
  | cons x xs ih =>
    obtain ⟨hx, hrest⟩ := List.forall_mem_cons.1 hall
    rw [List.flatMap_cons, List.flatMap_cons]
    have hdecl := forall₂_typeDecls (docBehind [] x) hx
    exact List.rel_append (List.forall₂_map_left_iff.2 hdecl) (ih hrest)

/-- The functions of a file, in their order. -/
theorem forall₂_funcs {root : Node} (hroot : root.Derived goTables src) {types : List TypeDecl}
    {funcs : List FuncDecl} (h : Collects [] root.parts types funcs) :
    List.Forall₂ (fun x f => x.2.DeclaresFunc f ∧ f.doc = doc? x.1 x.2)
      root.functionsInPlace funcs := by
  have hnodes : ∀ x ∈ root.functionsInPlace,
      x.2.Derived goTables src ∧ x.2.kind.isFunc = true := by
    intro x hx
    obtain ⟨hmem, hk⟩ := List.mem_filter.1 hx
    exact ⟨hroot.child (List.mem_of_mem_filter (mem_of_mem_inPlace hmem)), hk⟩
  refine ((List.forall₂_and_left _ _).2 ⟨hnodes, h.funcs⟩).imp fun x f hxf => ?_
  exact declaresFunc_of_funcDecl hxf.1.1 hxf.1.2 hxf.2

theorem isFile_iff {root : Node} (hroot : root.Derived goTables src) : root.IsFile ↔
    (∀ n ∈ root.parts, ∀ e, ¬ n.Offends e) ∧ ∃ n ∈ root.parts, n.kind = .phrase .packageClause := by
  have hparts : ∀ n ∈ root.parts, n.Derived goTables src :=
    fun n hn => hroot.child (List.mem_of_mem_filter hn)
  constructor
  · intro h
    exact ⟨fun n hn => (not_offends_iff (hparts n hn)).2 ⟨h.top n hn, h.receivers n hn⟩, h.package⟩
  · rintro ⟨hnone, hpackage⟩
    exact ⟨fun n hn => ((not_offends_iff (hparts n hn)).1 (hnone n hn)).1, hpackage,
      fun n hn => ((not_offends_iff (hparts n hn)).1 (hnone n hn)).2⟩

/-- A tree is one of a source file, or the first node that offends decides the error, or only the
clause that names the package is missing. -/
theorem sourceFile_cases {root : Node} (hroot : root.Derived goTables src) :
    (root.IsFile ∧ ∃ f, root.sourceFile = .ok f) ∨
      ¬ root.IsFile ∧ ∃ e, root.sourceFile = .error e ∧
        (FirstOffends root.parts e ∨
          (∀ n ∈ root.parts, ∀ e', ¬ n.Offends e') ∧
            (∀ n ∈ root.parts, n.kind ≠ .phrase .packageClause) ∧ e = ⟨1, .noPackage⟩) := by
  have hparts : ∀ n ∈ root.parts, n.Derived goTables src :=
    fun n hn => hroot.child (List.mem_of_mem_filter hn)
  rw [isFile_iff hroot, sourceFile]
  rcases collect_cases root.parts [] none hparts with ⟨e, he, hfirst⟩ |
    ⟨hnone, last, types, funcs, hok, hlast⟩
  · rw [he]
    have hoffends := hfirst
    obtain ⟨before, n, after, hsplit, _, hoffends⟩ := hoffends
    refine .inr ⟨fun h => h.1 n ?_ e hoffends, e, rfl, .inl hfirst⟩
    rw [hsplit]
    exact List.mem_append_right _ List.mem_cons_self
  · rw [hok]
    cases last with
    | none =>
      have hmissing := (hlast.1 rfl).2
      refine .inr ⟨fun h => ?_, _, rfl, .inr ⟨hnone, hmissing, rfl⟩⟩
      obtain ⟨n, hn, hk⟩ := h.2
      exact hmissing n hn hk
    | some p =>
      refine .inl ⟨⟨hnone, ?_⟩, _, rfl⟩
      by_contra hmissing
      have hnever : ∀ n ∈ root.parts, n.kind ≠ .phrase .packageClause :=
        fun n hn hk => hmissing ⟨n, hn, hk⟩
      cases hlast.2 ⟨rfl, hnever⟩

end Node

/-- Which trees without faults are source files, what these declare, and what is reported of the
others: the first node that offends, on its line or on that of its receiver list, and that nothing
names the package only if no node offends. -/
theorem parse_of_tree {source : String} {root : Node}
    (hroot : Node.ofSource? source.toList = some root) (hbroken : root.broken = false) :
    ((∃ f, SourceFile.parse source = .ok f) ↔ root.IsFile) ∧
    (∀ f, SourceFile.parse source = .ok f →
      List.Forall₂ Node.DeclaresType root.specs f.types ∧
      List.Forall₂ Node.DeclaresFunc root.functions f.funcs) ∧
    ∀ e, SourceFile.parse source = .error e →
      Node.FirstOffends root.parts e ∨
        (∀ n ∈ root.parts, ∀ e', ¬ n.Offends e') ∧
          (∀ n ∈ root.parts, n.kind ≠ .phrase .packageClause) ∧ e = ⟨1, .noPackage⟩ := by
  have hderived := Node.derived_of_ofSource? hroot hbroken
  have hparse := Node.parse_of_ofSource? hroot hbroken
  refine ⟨?_, fun f hf => ?_, fun e he => ?_⟩
  · rw [hparse]
    rcases Node.sourceFile_cases hderived with ⟨hfile, hok⟩ | ⟨hfile, e, he, _⟩
    · exact ⟨fun _ => hfile, fun _ => hok⟩
    · rw [he]
      exact ⟨nofun, fun h => absurd h hfile⟩
  · have hcollects := collects_of_parse hroot hf
    rw [← Node.map_specsInPlace, ← Node.map_functionsInPlace, List.forall₂_map_left_iff,
      List.forall₂_map_left_iff]
    exact ⟨(Node.forall₂_types hderived hcollects).imp fun _ _ h => h.1,
      (Node.forall₂_funcs hderived hcollects).imp fun _ _ h => h.1⟩
  · rw [hparse] at he
    rcases Node.sourceFile_cases hderived with ⟨_, f, hok⟩ | ⟨_, e', he', hcase⟩
    · rw [hok] at he
      cases he
    · rw [he'] at he
      cases he
      exact hcase

/-- A source file with a group of types and a method. -/
def grouped : String := "package p\ntype (\nA int\nB = A\n)\nfunc (a *A) M() \x7b\x7d\n"

theorem parse_grouped : ∃ root, Node.ofSource? grouped.toList = some root ∧
    root.broken = false ∧ root.specs.length = 2 ∧ root.functions.length = 1 ∧
    SourceFile.parse grouped = .ok ⟨"p", [⟨"A", none⟩, ⟨"B", none⟩], [⟨"M", some "A", none⟩]⟩ ∧
    List.Forall₂ Node.DeclaresType root.specs [⟨"A", none⟩, ⟨"B", none⟩] ∧
    List.Forall₂ Node.DeclaresFunc root.functions [⟨"M", some "A", none⟩] := by
  have h : (Node.ofSource? grouped.toList).map (fun root =>
      (root.broken, root.specs.length, root.functions.length, root.sourceFile))
        = some (false, 2, 1, .ok ⟨"p", [⟨"A", none⟩, ⟨"B", none⟩], [⟨"M", some "A", none⟩]⟩) := by
    decide +kernel
  obtain ⟨root, hroot, hfacts⟩ := Option.map_eq_some_iff.1 h
  simp only [Prod.mk.injEq] at hfacts
  obtain ⟨hbroken, hspecs, hfunctions, hfile⟩ := hfacts
  have hparse := (Node.parse_of_ofSource? hroot hbroken).trans hfile
  exact ⟨root, hroot, hbroken, hspecs, hfunctions, hparse,
    (parse_of_tree hroot hbroken).2.1 _ hparse⟩

/-- A method whose receiver list stands on the line below. -/
def receiversBelow : String := "package p\n\nfunc\n(a, b T) M() \x7b\x7d\n"

/-- The method is on line 3, but what is wrong with its receiver list is reported on the line of the
list. -/
theorem line_of_receiversBelow : ∃ root, Node.ofSource? receiversBelow.toList = some root ∧
    root.broken = false ∧
    root.parts.map (fun n => (n.kind, n.line))
      = [(.phrase .packageClause, 1), (.phrase .methodDeclaration, 3)] ∧
    SourceFile.parse receiversBelow = .error ⟨4, .severalReceivers⟩ := by
  have h : (Node.ofSource? receiversBelow.toList).map (fun root =>
      (root.broken, root.parts.map (fun n => (n.kind, n.line)), root.sourceFile))
        = some (false, [(.phrase .packageClause, 1), (.phrase .methodDeclaration, 3)],
          .error ⟨4, .severalReceivers⟩) := by
    decide +kernel
  obtain ⟨root, hroot, hfacts⟩ := Option.map_eq_some_iff.1 h
  simp only [Prod.mk.injEq] at hfacts
  obtain ⟨hbroken, hlines, hfile⟩ := hfacts
  exact ⟨root, hroot, hbroken, hlines, (Node.parse_of_ofSource? hroot hbroken).trans hfile⟩

end Go
end RouteScribe
