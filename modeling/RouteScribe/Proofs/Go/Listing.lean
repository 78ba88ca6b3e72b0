import Mathlib.Data.List.Infix
import Mathlib.Data.List.Forall2
import RouteScribe.Go.Declaration

/-!
# RouteScribe.Proofs.Go.Listing

What the nodes at the top of a tree declare, in their order. Each function comes from one node, and
each type from one part of a declaration of types, with the comment that stands before it.

* `Node.inPlace`: nodes with those before them.
* `Node.Adds`: what some nodes add to the declarations of a file.
* `collect_eq_ok`, `typeDecls_eq`: all declarations of a file.
-/

namespace RouteScribe
namespace Go

/-! ## Kinds of nodes at the top -/

namespace Kind

/-- Functions and methods. -/
def isFunc (k : Kind) : Bool := k = .phrase .functionDeclaration || k = .phrase .methodDeclaration

/-- The types in a declaration of types. -/
def isSpec (k : Kind) : Bool := k = .phrase .typeSpec || k = .phrase .typeAlias

/-- What may stand at the top of a file without declaring a type or a function. -/
def declaresNothing (k : Kind) : Bool :=
  k = .phrase .importDeclaration || k = .phrase .varDeclaration || k = .phrase .constDeclaration
    || k = .token .comment

/-- What may stand at the top of a file. -/
def isTop (k : Kind) : Bool :=
  k = .phrase .packageClause || k = .phrase .typeDeclaration || k.isFunc || k.declaresNothing

end Kind

/-! ## What nodes add -/

namespace Node

/-- Behind the nodes `seen` and the clause that names `package`, the nodes `ns` declare these types
and functions, and `last` is the package named last. -/
def Adds (seen : List Node) (package : Option String) (ns : List Node) (last : Option String)
    (types : List TypeDecl) (funcs : List FuncDecl) : Prop :=
  ∀ more, collect seen package (ns ++ more)
    = (collect (ns.reverse ++ seen) last more).map fun r => (r.1, types ++ r.2.1, funcs ++ r.2.2)

variable {seen ns ns' : List Node} {package last last' : Option String} {n : Node}
  {types types' : List TypeDecl} {funcs funcs' : List FuncDecl}

theorem adds_nil : Adds seen package [] package [] [] := by
  intro more
  cases h : collect seen package more <;> simp [h, Except.map]

theorem Adds.append (h : Adds seen package ns last types funcs)
    (h' : Adds (ns.reverse ++ seen) last ns' last' types' funcs') :
    Adds seen package (ns ++ ns') last' (types ++ types') (funcs ++ funcs') := by
  intro more
  rw [List.append_assoc, h, h', List.reverse_append, List.append_assoc]
  cases collect (ns'.reverse ++ (ns.reverse ++ seen)) last' more with
  | error e => rfl
  | ok r => simp only [Except.map, List.append_assoc]

theorem Adds.cons {p : Option String} (h : Adds seen package [n] last types funcs)
    (h' : Adds (n :: seen) last ns p types' funcs') :
    Adds seen package (n :: ns) p (types ++ types') (funcs ++ funcs') :=
  h.append h'

theorem adds_clause (h : n.kind = .phrase .packageClause) : Adds seen package [n]
    ((n.parts.find? (·.kind = .alternate .packageIdentifier)).map text) [] [] := by
  intro more
  rw [List.singleton_append, collect, h]
  exact adds_nil more

theorem adds_package (h : n.kind = .phrase .packageClause) {name : Node}
    (hname : n.parts.find? (·.kind = .alternate .packageIdentifier) = some name) :
    Adds seen package [n] (some name.text) [] [] := by
  have hclause : Adds seen package [n] _ [] [] := adds_clause h
  rwa [hname] at hclause

theorem adds_nothing (h : n.kind.declaresNothing = true) : Adds seen package [n] package [] [] := by
  intro more
  have hskip : collect seen package (n :: more) = collect (n :: seen) package more := by
    simp only [Kind.declaresNothing, decide_eq_true_eq, Bool.or_eq_true] at h
    rcases h with ((h | h) | h) | h <;> rw [collect, h]
  exact hskip.trans (adds_nil more)

theorem adds_types (h : n.kind = .phrase .typeDeclaration) :
    Adds seen package [n] package (typeDecls (doc? seen.reverse n) [] n.parts) [] := by
  intro more
  rw [List.singleton_append, collect, h]
  dsimp only
  rw [List.reverse_singleton, List.singleton_append]
  cases collect (n :: seen) package more with
  | error e => rfl
  | ok r => rfl

theorem adds_func (h : n.kind.isFunc = true) {f : FuncDecl}
    (hdecl : n.funcDecl (doc? seen.reverse n) = .ok f) : Adds seen package [n] package [] [f] := by
  intro more
  have hfunc : collect seen package (n :: more) = (collect (n :: seen) package more).map fun r =>
      (r.1, r.2.1, f :: r.2.2) := by
    simp only [Kind.isFunc, decide_eq_true_eq, Bool.or_eq_true] at h
    rcases h with h | h
    all_goals
      rw [collect, h]
      dsimp only
      rw [hdecl]
      dsimp only
      cases collect (n :: seen) package more with
      | error e => rfl
      | ok r => rfl
  exact hfunc

theorem parse_of_ofSource? {source : String} {root : Node}
    (h : Node.ofSource? source.toList = some root) (hbroken : root.broken = false) :
    SourceFile.parse source = root.sourceFile := by
  unfold SourceFile.parse
  simp only [h, hbroken, Bool.false_eq_true, if_false]

theorem Adds.sourceFile {p : String} {root : Node}
    (h : Adds [] none root.parts (some p) types funcs) :
    root.sourceFile = .ok ⟨p, types, funcs⟩ := by
  have hall := h []
  rw [List.append_nil] at hall
  rw [Node.sourceFile, hall]
  simp [collect, Except.map]

/-! ## All declarations -/

/-- Each of some nodes, with those before it. -/
def inPlace (ns : List Node) : List (List Node × Node) := ns.inits.zip ns

theorem inPlace_cons (n : Node) (ns : List Node) :
    inPlace (n :: ns) = ([], n) :: (inPlace ns).map fun x => (n :: x.1, x.2) := by
  rw [inPlace, List.inits_cons, List.zip_cons_cons, List.zip_map_left, inPlace]
  rfl

theorem map_inPlace (ns : List Node) : (inPlace ns).map Prod.snd = ns := by
  rw [inPlace, List.map_snd_zip]
  rw [List.length_inits]
  exact Nat.le_succ _

theorem map_filter_inPlace (f : Node → Bool) (ns : List Node) :
    ((inPlace ns).filter (f ·.2)).map Prod.snd = ns.filter f := by
  conv => rhs; rw [← map_inPlace ns, List.filter_map]
  rfl

theorem mem_inPlace {ns : List Node} {x : List Node × Node} :
    x ∈ inPlace ns ↔ ∃ after, ns = x.1 ++ x.2 :: after := by
  induction ns generalizing x with
  | nil => simp [inPlace]
  | cons n ns ih =>
    obtain ⟨before, m⟩ := x
    rw [inPlace_cons]
    cases before with
    | nil => simp [eq_comm]
    | cons b before =>
      simp only [List.mem_cons, List.mem_map, Prod.mk.injEq, reduceCtorEq, false_and, false_or,
        List.cons.injEq, List.cons_append, Prod.exists]
      constructor
      · rintro ⟨before', m', hmem, ⟨rfl, rfl⟩, rfl⟩
        obtain ⟨after, hafter⟩ := ih.1 hmem
        exact ⟨after, rfl, hafter⟩
      · rintro ⟨after, rfl, hafter⟩
        exact ⟨before, m, ih.2 ⟨after, hafter⟩, ⟨rfl, rfl⟩, rfl⟩

theorem mem_of_mem_inPlace {ns : List Node} {x : List Node × Node} (h : x ∈ inPlace ns) :
    x.2 ∈ ns := by
  rw [← map_inPlace ns]
  exact List.mem_map_of_mem h

/-- The comment that some comments are together, when their texts are given last first. -/
def docOf (texts : List String) : Option Doc :=
  if texts = [] then none else some ⟨texts.reverse.flatMap Doc.linesOf⟩

theorem doc?_eq_docOf (seen : List Node) (n : Node) :
    doc? seen.reverse n = docOf ((attached n.start.row seen).map text) := by
  rw [doc?, List.reverse_reverse, docOf]
  cases attached n.start.row seen with
  | nil => rfl
  | cons c cs =>
    have hne : (c :: cs).reverse ≠ [] := by simp
    rw [if_neg (by simp), ← List.map_reverse, List.flatMap_map]
    split
    next hnil => exact absurd hnil hne
    · rfl

/-- The comment of a node, when the nodes `seen`, last first, stand before all of the others. -/
def docBehind (seen : List Node) (x : List Node × Node) : Option Doc :=
  doc? (seen.reverse ++ x.1) x.2

theorem docBehind_cons (n : Node) (seen : List Node) (x : List Node × Node) :
    docBehind (n :: seen) x = docBehind seen (n :: x.1, x.2) := by
  rw [docBehind, docBehind, List.reverse_cons, List.append_assoc]
  rfl

theorem typeDecls_eq (outer : Option Doc) (ns : List Node) : ∀ seen : List Node,
    typeDecls outer seen ns = ((inPlace ns).filter (·.2.kind.isSpec)).filterMap fun x =>
      (x.2.part? .name).map fun name => ⟨name.text, (docBehind seen x).or outer⟩ := by
  induction ns with
  | nil => exact fun seen => rfl
  | cons n ns ih =>
    intro seen
    have hrest : ((inPlace (n :: ns)).tail.filter (·.2.kind.isSpec)).filterMap (fun x =>
        (x.2.part? .name).map fun name => ⟨name.text, (docBehind seen x).or outer⟩)
          = typeDecls outer (n :: seen) ns := by
      rw [ih, inPlace_cons, List.tail_cons, List.filter_map, List.filterMap_map]
      simp only [docBehind_cons]
      rfl
    rw [inPlace_cons] at hrest ⊢
    rw [List.tail_cons] at hrest
    rw [typeDecls, List.filter_cons]
    have hspec : (n.kind = .phrase .typeSpec || n.kind = .phrase .typeAlias) = n.kind.isSpec := rfl
    rw [hspec]
    split
    next hk =>
      rw [List.filterMap_cons]
      dsimp only
      have hdoc : docBehind seen ([], n) = doc? seen.reverse n := by
        rw [docBehind, List.append_nil]
      cases n.part? .name with
      | none => exact hrest.symm
      | some name =>
        rw [Option.map_some, hdoc]
        exact congrArg _ hrest.symm
    · exact hrest.symm

/-- The functions of a file come from its functions and methods, one from each, and its types from
its declarations of types. -/
structure Collects (seen ns : List Node) (types : List TypeDecl) (funcs : List FuncDecl) : Prop where
  top : ∀ n ∈ ns, n.kind.isTop = true
  types : types = ((inPlace ns).filter (·.2.kind = .phrase .typeDeclaration)).flatMap fun x =>
    typeDecls (docBehind seen x) [] x.2.parts
  funcs : List.Forall₂ (fun x f => x.2.funcDecl (docBehind seen x) = .ok f)
    ((inPlace ns).filter (·.2.kind.isFunc)) funcs

theorem Collects.cons (types' : List TypeDecl) (funcs' : List FuncDecl)
    (h : Collects (n :: seen) ns types funcs) (htop : n.kind.isTop = true)
    (htypes : types' = if n.kind = .phrase .typeDeclaration then
      typeDecls (doc? seen.reverse n) [] n.parts else [])
    (hfuncs : if n.kind.isFunc then ∃ f, n.funcDecl (doc? seen.reverse n) = .ok f ∧ funcs' = [f]
      else funcs' = []) :
    Collects seen (n :: ns) (types' ++ types) (funcs' ++ funcs) := by
  have hdoc : docBehind seen ([], n) = doc? seen.reverse n := by
    rw [docBehind, List.append_nil]
  have hmap : ∀ x : List Node × Node, docBehind seen (n :: x.1, x.2) = docBehind (n :: seen) x :=
    fun x => (docBehind_cons n seen x).symm
  refine ⟨List.forall_mem_cons.2 ⟨htop, h.top⟩, ?_, ?_⟩
  · rw [htypes, h.types, inPlace_cons, List.filter_cons, List.filter_map]
    dsimp only
    by_cases hk : n.kind = .phrase .typeDeclaration
    · simp only [hk, decide_true, if_true, List.flatMap_cons, hdoc, List.flatMap_map, hmap]
      rfl
    · simp only [hk, decide_false, Bool.false_eq_true, if_false, List.nil_append,
        List.flatMap_map, hmap]
      rfl
  · rw [inPlace_cons, List.filter_cons, List.filter_map]
    dsimp only
    have hrest : List.Forall₂ (fun x f => x.2.funcDecl (docBehind seen x) = .ok f)
        (((inPlace ns).filter ((·.2.kind.isFunc) ∘ fun x => (n :: x.1, x.2))).map
          fun x => (n :: x.1, x.2)) funcs := by
      rw [List.forall₂_map_left_iff]
      simp only [hmap]
      exact h.funcs
    by_cases hk : n.kind.isFunc = true
    · rw [if_pos hk] at hfuncs ⊢
      obtain ⟨f, hf, rfl⟩ := hfuncs
      exact .cons (hdoc.symm ▸ hf) hrest
    · rw [if_neg hk] at hfuncs ⊢
      rw [hfuncs]
      exact hrest

theorem collect_eq_ok (ns : List Node) : ∀ (seen : List Node) (package : Option String)
    {p : Option String} {types : List TypeDecl} {funcs : List FuncDecl},
    collect seen package ns = .ok (p, types, funcs) → Collects seen ns types funcs := by
  induction ns with
  | nil =>
    intro seen package p types funcs h
    cases h
    exact ⟨nofun, rfl, .nil⟩
  | cons n ns ih =>
    intro seen package p types funcs h
    have hnothing : n.kind.isTop = true → n.kind ≠ .phrase .typeDeclaration →
        n.kind.isFunc = false → Collects (n :: seen) ns types funcs →
        Collects seen (n :: ns) types funcs := by
      intro htop htype hfunc h
      exact h.cons [] [] htop (if_neg htype).symm (by rw [hfunc]; rfl)
    unfold collect at h
    split at h
    next hk => exact hnothing (by rw [hk]; rfl) (by rw [hk]; nofun) (by rw [hk]; rfl) (ih _ _ h)
    next hk =>
      split at h
      next p' types' funcs' hrest =>
        cases h
        exact (ih _ _ hrest).cons _ [] (by rw [hk]; rfl) (by rw [if_pos hk])
          (by rw [hk]; rfl)
      · cases h
    iterate 2
      next hk =>
        split at h
        · cases h
        next f hf =>
          split at h
          next p' types' funcs' hrest =>
            cases h
            exact (ih _ _ hrest).cons [] _ (by rw [hk]; rfl) (by rw [hk]; rfl)
              (by rw [hk]; exact ⟨f, hf, rfl⟩)
          · cases h
    iterate 4
      next hk => exact hnothing (by rw [hk]; rfl) (by rw [hk]; nofun) (by rw [hk]; rfl) (ih _ _ h)
    · cases h

end Node

theorem exists_ofSource?_of_parse {source : String} {f : SourceFile}
    (h : SourceFile.parse source = .ok f) :
    ∃ root, Node.ofSource? source.toList = some root ∧ root.broken = false := by
  unfold SourceFile.parse at h
  extract_lets cs at h
  split at h
  · cases h
  next root hroot =>
    split at h
    · cases h
    next hbroken => exact ⟨root, hroot, Bool.eq_false_iff.2 hbroken⟩

theorem broken_of_parse {source : String} {f : SourceFile} {root : Node}
    (hroot : Node.ofSource? source.toList = some root) (h : SourceFile.parse source = .ok f) :
    root.broken = false := by
  obtain ⟨root', hroot', hbroken⟩ := exists_ofSource?_of_parse h
  rw [hroot] at hroot'
  cases hroot'
  exact hbroken

theorem collects_of_parse {source : String} {f : SourceFile} {root : Node}
    (hroot : Node.ofSource? source.toList = some root) (h : SourceFile.parse source = .ok f) :
    Node.Collects [] root.parts f.types f.funcs := by
  unfold SourceFile.parse at h
  simp only [hroot] at h
  split at h
  · cases h
  · unfold Node.sourceFile at h
    split at h
    · cases h
    · cases h
    next p types funcs hcollect =>
      cases h
      exact Node.collect_eq_ok _ _ _ hcollect

end Go
end RouteScribe
