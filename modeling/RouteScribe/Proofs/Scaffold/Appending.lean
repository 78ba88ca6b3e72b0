import RouteScribe.Proofs.Files.Atomicity
import RouteScribe.Proofs.Go.Body
import RouteScribe.Proofs.Routing.Directive
import RouteScribe.Proofs.Scaffold.Outcome

/-!
# RouteScribe.Proofs.Scaffold.Appending

New actions in a file that is there already. Their methods are put behind its text, so whatever it
declares stays, as long as what it ends with is not read on into the first method. A comment that it
ends with becomes part of the comment of that method, but the verb and the middlewares of the method
are its own.

* `NewActions`: which actions are new.
* `StubsBehind`: the tree of a text with methods behind it.
* `AppendsMethods`: what the methods add to the declarations.
* `appends_of_writeActions`: a run adds the methods of the new actions, and a second run adds
  nothing.
-/

namespace RouteScribe
namespace Scaffold

open Files Routing
open Go (SourceFile FuncDecl Doc Node Cursor Word Stock Outline goTables)

variable {source file : SourceFile} {typeName path text : String} {a : Action}
  {actions new : List Action} {args : List String}

/-! ## New actions -/

/-- Of these actions those are new whose names are not declared, and of those with one name the
first. -/
structure NewActions (file : SourceFile) (typeName : String) (actions new : List Action) :
    Prop where
  names : new.map (·.name)
    = ((actions.map (·.name)).filter (!file.hasMethod typeName ·)).eraseDups
  first : ∀ a ∈ new, actions.find? (·.name = a.name) = some a

theorem map_name_split (source : SourceFile) (typeName : String) (actions : List Action) :
    ∀ added, (split source typeName added actions).1.map (·.name)
      = ((actions.map (·.name)).filter
          fun n => !(source.hasMethod typeName n || added.contains n)).eraseDups := by
  induction actions with
  | nil => exact fun _ => rfl
  | cons a actions ih =>
    intro added
    rw [split, List.map_cons]
    split
    next hold =>
      rw [List.filter_cons_of_neg (by rw [hold]; decide)]
      exact ih added
    next hnew =>
      have hboth : ∀ n, (!(source.hasMethod typeName n || (added ++ [a.name]).contains n))
          = (n != a.name && !(source.hasMethod typeName n || added.contains n)) := by
        intro n
        rw [Bool.eq_iff_iff]
        simp only [List.contains_eq_mem, List.mem_append, List.mem_singleton, Bool.not_eq_true',
          Bool.or_eq_false_iff, decide_eq_false_iff_not, not_or, Bool.and_eq_true, bne_iff_ne]
        tauto
      rw [List.filter_cons_of_pos (by simpa using hnew), List.eraseDups_cons, List.filter_filter,
        List.map_cons, ih]
      simp only [hboth, bne]

theorem newActions_split (source : SourceFile) (typeName : String) (actions : List Action) :
    NewActions source typeName actions (split source typeName [] actions).1 where
  names := by
    rw [map_name_split]
    simp
  first a ha := by
    have hnodup := nodup_split source typeName actions []
    have hsome : ((split source typeName [] actions).1.find? (·.name = a.name)).isSome :=
      List.find?_isSome.2 ⟨a, ha, by simp⟩
    obtain ⟨b, hb⟩ := Option.isSome_iff_exists.1 hsome
    have hname : b.name = a.name := by simpa using List.find?_some hb
    obtain rfl : b = a :=
      List.inj_on_of_nodup_map hnodup (List.mem_of_find?_eq_some hb) ha hname
    rw [find?_split] at hb
    split at hb
    · cases hb
    · exact hb

/-- There is only one such list. -/
theorem NewActions.eq {new' : List Action} (h : NewActions file typeName actions new)
    (h' : NewActions file typeName actions new') : new = new' := by
  have hnames : ∀ {as : List Action}, NewActions file typeName actions as →
      as.map some = (as.map (·.name)).map fun n => actions.find? (·.name = n) := by
    intro as has
    rw [List.map_map]
    exact List.map_congr_left fun a ha => (has.first a ha).symm
  have hsome : new.map some = new'.map some := by
    rw [hnames h, hnames h', h.names, h'.names]
  exact List.map_injective_iff.2 (Option.some_injective _) hsome

/-- Nothing is new when all names are declared. -/
theorem split_eq_nil (h : ∀ a ∈ actions, source.hasMethod typeName a.name = true) :
    (split source typeName [] actions).1 = [] := by
  rw [← List.map_eq_nil_iff (f := Action.name), map_name_split, List.filter_eq_nil_iff.2]
  · rfl
  · intro n hn
    obtain ⟨a, ha, rfl⟩ := List.mem_map.1 hn
    simp [h a ha]

/-! ## Comments of methods -/

/-- The method is one for the action: its comment ends with the lines for the action. -/
def IsMethodFor (typeName : String) (a : Action) (m : FuncDecl) : Prop :=
  ∃ more, m = ⟨a.name, some typeName,
    some ⟨more ++ [" @http_method " ++ a.verb.text, " @middleware"]⟩⟩

theorem read_verb {v : Verb} (h : v.isStandard = true) :
    Directive.read (" @http_method " ++ v.text) = some (.verb, v.text) ∧
      (some (Unicode.uppercase v.text)).filter (· ≠ "") = some v.text := by
  cases v with
  | other word => cases h
  | _ => decide +kernel

theorem read_middleware : Directive.read " @middleware" = some (.middleware, "") := by
  decide +kernel

/-- Whatever stands in the comment before, the verb is that of the action, and there are no
middlewares. -/
theorem IsMethodFor.ofDoc {m : FuncDecl} (h : IsMethodFor typeName a m)
    (hverb : a.verb.isStandard = true) : Annotations.ofDoc m.doc = ⟨some a.verb.text, none⟩ := by
  obtain ⟨more, rfl⟩ := h
  obtain ⟨hread, hupper⟩ := read_verb hverb
  have hlines : more ++ [" @http_method " ++ a.verb.text, " @middleware"]
      = (more ++ [" @http_method " ++ a.verb.text]) ++ [" @middleware"] := by simp
  have hblank : (some (Unicode.words "")).filter (· ≠ []) = none := by decide
  show Annotations.ofLines _ = _
  rw [hlines, Annotations.ofLines_concat, read_middleware, Option.elim_some,
    Annotations.ofLines_concat, hread, Option.elim_some, Annotations.set, Annotations.set, hupper,
    hblank]

/-! ## Trees -/

/-- The text with the methods for actions behind it. -/
def withStubs (text typeName : String) (new : List Action) : String :=
  new.foldl (fun text a => text ++ stub typeName a) text

/-- The nodes of the methods for actions, whose text begins at the place. -/
def stubNodes (typeName : String) : Cursor → List Action → List Node
  | _, [] => []
  | p, a :: as =>
    let words := stubWords typeName.toList a.name.toList a.verb.text.toList
    Outline.allNodes goTables (Stock.at [] p words) (stubOutlines 0)
      ++ stubNodes typeName (Word.stopOf p words) as

/-- The tree of the text with methods behind it is that of the text, with the nodes of the methods
behind its nodes. -/
structure StubsBehind (text typeName : String) (new : List Action) (root root' : Node) : Prop where
  whole : root'.broken = false
  parts : ∃ before, List.Forall₂ (Node.Alike (Node.Placed (· = ·)) fun _ _ => False)
      root.parts before ∧
    root'.parts = before ++ stubNodes typeName
      ((Cursor.ofChars (withStubs text typeName new).toList).skip text.toList.length) new

theorem exists_adds_stubNodes {rest : List Char} (typeName : String) (package : Option String) :
    ∀ (new : List Action) {p : Cursor} (seen : List Node),
      p.rest = Word.textOf (methodWords typeName.toList new) ++ rest → ∃ methods,
        Node.Adds seen package (stubNodes typeName p new) package [] methods ∧
        List.Forall₂ (IsMethodFor typeName) new methods := by
  intro new
  induction new with
  | nil => exact fun _ _ => ⟨[], Node.adds_nil, .nil⟩
  | cons a new ih =>
    intro p seen hp
    have hwords : methodWords typeName.toList (a :: new)
        = stubWords typeName.toList a.name.toList a.verb.text.toList
          ++ methodWords typeName.toList new := rfl
    rw [hwords, Word.textOf_append, List.append_assoc] at hp
    have hnil : ([] : Go.Track Go.Piece).length = 0 := List.length_nil
    obtain ⟨c₁, c₂, m, hnodes, hstub⟩ := isStub_stubOutlines (g := goTables) hnil hp
    obtain ⟨methods, hrest, hmethods⟩ := ih ([c₁, c₂, m].reverse ++ seen) (Word.rest_stopOf hp)
    have hadds := (hstub.adds_behind seen package).append hrest
    simp only [← hnodes, String.ofList_append, String.ofList_toList] at hadds
    exact ⟨_, hadds, .cons ⟨_, rfl⟩ hmethods⟩

/-! ## Source files -/

/-- The source file `file'` has what `file` has, and methods for some actions behind it. -/
structure AppendsMethods (file file' : SourceFile) (typeName : String) (new : List Action) :
    Prop where
  package : file'.package = file.package
  types : file'.types = file.types
  funcs : ∃ methods, file'.funcs = file.funcs ++ methods ∧
    List.Forall₂ (fun a m => m.name = a.name ∧ m.receiver = some typeName ∧
      Annotations.ofDoc m.doc = ⟨some a.verb.text, none⟩) new methods

theorem toList_withStubs (text typeName : String) (new : List Action) :
    (withStubs text typeName new).toList
      = text.toList ++ Word.textOf (methodWords typeName.toList new) :=
  toList_foldl_stub typeName new text

/-- A text with methods behind it declares what the text does, and the methods. -/
theorem exists_appendsMethods {root root' : Node} (hfile : SourceFile.parse text = .ok file)
    (hroot : Node.ofSource? text.toList = some root)
    (hroot' : Node.ofSource? (withStubs text typeName new).toList = some root')
    (hbehind : StubsBehind text typeName new root root')
    (hstandard : ∀ a ∈ new, a.verb.isStandard = true) : ∃ file',
      SourceFile.parse (withStubs text typeName new) = .ok file' ∧
        AppendsMethods file file' typeName new := by
  obtain ⟨hwhole, before, hbefore, hparts⟩ := hbehind
  have hleft := Node.derived_of_ofSource? hroot (Go.broken_of_parse hroot hfile)
  have hright := Node.derived_of_ofSource? hroot' hwhole
  have hmoved : List.Forall₂ (Node.Moved 0 0) root.parts before := by
    have hsubset : before ⊆ root'.children := fun m hm =>
      root'.parts_subset (hparts ▸ List.mem_append_left _ hm)
    refine (Node.Both.forall₂ ⟨hleft, hright⟩ root.parts_subset hsubset hbefore).imp
      fun m m' hm => ?_
    obtain ⟨halike, hboth⟩ := hm
    have hstop := hboth.left.stop.offset_le
    rw [toList_withStubs, ← List.append_nil text.toList] at hboth
    rw [List.append_assoc, List.nil_append] at hboth
    exact Node.moved_of_front (fun h _ => h.symm) (fun h => h.elim) halike hboth hstop
  have hold : Node.Adds [] none before (some file.package) file.types file.funcs :=
    Node.repeats_moved hmoved Node.sameAbove_nil (Go.collect_of_parse hroot hfile)
  have hstubs : ((Cursor.ofChars (withStubs text typeName new).toList).skip text.toList.length).rest
      = Word.textOf (methodWords typeName.toList new) ++ [] := by
    rw [Cursor.skip_rest, toList_withStubs, List.append_nil]
    exact List.drop_left
  obtain ⟨methods, hnew, hmethods⟩ :=
    exists_adds_stubNodes typeName (some file.package) new (before.reverse ++ []) hstubs
  have hadds := hold.append hnew
  rw [← hparts, List.append_nil] at hadds
  refine ⟨⟨file.package, file.types, file.funcs ++ methods⟩,
    (Node.parse_of_ofSource? hroot' hwhole).trans hadds.sourceFile, rfl, rfl, methods, rfl, ?_⟩
  refine ((List.forall₂_and_left _ _).2 ⟨hstandard, hmethods⟩).imp fun a m hm => ?_
  refine ⟨?_, ?_, hm.2.ofDoc hm.1⟩
  · obtain ⟨more, rfl⟩ := hm.2
    rfl
  · obtain ⟨more, rfl⟩ := hm.2
    rfl

/-! ## Runs -/

variable {s : Session} {t : Tree}

theorem perform_writeActions_of_nil (hread : s.tree.readText path = .ok text)
    (hfile : SourceFile.parse text = .ok file) (hnew : (split file typeName [] actions).1 = []) :
    ∃ log, (writeActions path typeName actions).perform s = (.ok [], ⟨s.tree, log⟩) := by
  unfold writeActions
  rw [Work.perform_bind, Work.perform_readText, hread]
  dsimp only
  rw [hfile]
  dsimp only
  rw [hnew]
  exact ⟨_, rfl⟩

theorem perform_writeActions_of_write (hread : s.tree.readText path = .ok text)
    (hfile : SourceFile.parse text = .ok file) (hnew : (split file typeName [] actions).1 = new)
    (hne : new ≠ []) (hwrite : s.tree.write path (withStubs text typeName new) = (t, none)) :
    ∃ log, (writeActions path typeName actions).perform s
      = (.ok (new.map (·.name)), ⟨t, log⟩) := by
  have hempty : new.isEmpty = false := by simpa using hne
  unfold writeActions
  rw [Work.perform_bind, Work.perform_readText, hread]
  dsimp only
  rw [hfile]
  dsimp only
  rw [hnew, Work.perform_bind, Work.perform_reportAll]
  dsimp only
  rw [hempty, if_neg Bool.false_ne_true, Work.perform_bind, Work.perform_write]
  dsimp only
  rw [← withStubs, hwrite]
  exact ⟨_, rfl⟩

/-- All names are declared in the end. -/
theorem AppendsMethods.hasMethod {file' : SourceFile} (h : AppendsMethods file file' typeName new)
    (hnew : NewActions file typeName actions new) :
    ∀ a ∈ actions, file'.hasMethod typeName a.name = true := by
  intro a ha
  obtain ⟨methods, hfuncs, hmethods⟩ := h.funcs
  rw [SourceFile.hasMethod_iff]
  simp only [SourceFile.mem_methodsOf, hfuncs, List.mem_append]
  cases hold : file.hasMethod typeName a.name with
  | true =>
    obtain ⟨m, hm, hname⟩ := SourceFile.hasMethod_iff.1 hold
    obtain ⟨hmem, hreceiver⟩ := SourceFile.mem_methodsOf.1 hm
    exact ⟨m, ⟨.inl hmem, hreceiver⟩, hname⟩
  | false =>
    have hmem : a.name ∈ new.map (·.name) := by
      rw [hnew.names, List.mem_eraseDups, List.mem_filter, hold]
      exact ⟨List.mem_map_of_mem ha, rfl⟩
    have hall := Go.exists_mem_iff hmethods (p := (·.name = a.name))
      (q := fun m => m.receiver = some typeName ∧ m.name = a.name)
      fun b m hm => by rw [hm.1, hm.2.1]; simp
    obtain ⟨m, hm, hreceiver, hname⟩ := hall.1 (List.mem_map.1 hmem)
    exact ⟨m, ⟨.inr hm, hreceiver⟩, hname⟩

/-- Actions are added to a file that is there: its text and its declarations stay, and behind them
are the methods of the new actions. The same actions another time leave the file as it is. -/
theorem appends_of_writeActions {q : Place} {mode : Nat} {root root' : Node}
    (hactions : readActions args = .ok actions)
    (hfind : s.tree.find false path = .ok (q, .file (some text) mode))
    (hfree : (s.tree.write path "").2 = none) (hfile : SourceFile.parse text = .ok file)
    (hnew : NewActions file typeName actions new)
    (hroot : Node.ofSource? text.toList = some root)
    (hroot' : Node.ofSource? (withStubs text typeName new).toList = some root')
    (hbehind : StubsBehind text typeName new root root') : ∃ file' t log,
      (writeActions path typeName actions).perform s = (.ok (new.map (·.name)), ⟨t, log⟩) ∧
      t.readText path = .ok (withStubs text typeName new) ∧
      SourceFile.parse (withStubs text typeName new) = .ok file' ∧
      AppendsMethods file file' typeName new ∧
      ∀ log, ∃ log', (writeActions path typeName actions).perform ⟨t, log⟩
        = (.ok [], ⟨t, log'⟩) := by
  obtain ⟨hread, hoverwrite⟩ := Tree.exists_write_over hfind hfree
  have hsplit : (split file typeName [] actions).1 = new :=
    (newActions_split file typeName actions).eq hnew
  have hstandard : ∀ a ∈ new, a.verb.isStandard = true := fun a ha => by
    obtain ⟨arg, -, h⟩ := exists_request (requests_of_readActions hactions)
      (List.mem_of_find?_eq_some (hnew.first a ha))
    exact h.isStandard
  obtain ⟨file', hfile', happends⟩ := exists_appendsMethods hfile hroot hroot' hbehind hstandard
  obtain ⟨t, log, hrun, htext⟩ : ∃ t log, (writeActions path typeName actions).perform s
      = (.ok (new.map (·.name)), ⟨t, log⟩) ∧
        t.readText path = .ok (withStubs text typeName new) := by
    by_cases hnil : new = []
    · subst hnil
      obtain ⟨log, hrun⟩ := perform_writeActions_of_nil hread hfile hsplit
      exact ⟨s.tree, log, hrun, hread⟩
    · obtain ⟨t, hwrite, htext⟩ := hoverwrite (withStubs text typeName new)
      obtain ⟨log, hrun⟩ := perform_writeActions_of_write hread hfile hsplit hnil hwrite
      exact ⟨t, log, hrun, htext⟩
  refine ⟨file', t, log, hrun, htext, hfile', happends, fun log' => ?_⟩
  exact perform_writeActions_of_nil (s := ⟨t, log'⟩) htext hfile'
    (split_eq_nil (happends.hasMethod hnew))

/-! ## A run -/

/-- `StubsBehind` as a computation. -/
def stubsBehind (text typeName : String) (new : List Action) (root root' : Node) : Bool :=
  !root'.broken &&
    Node.alikeAll (Node.Placed (· = ·)) (fun _ _ => False) root.parts
      (root'.parts.take root.parts.length) &&
    Node.alikeAll Node.Equal (fun _ _ => False)
      (stubNodes typeName
        ((Cursor.ofChars (withStubs text typeName new).toList).skip text.toList.length) new)
      (root'.parts.drop root.parts.length)

theorem stubsBehind_of_eq_true {root root' : Node}
    (h : stubsBehind text typeName new root root' = true) :
    StubsBehind text typeName new root root' := by
  simp only [stubsBehind, Bool.and_eq_true, Bool.not_eq_true'] at h
  obtain ⟨⟨hwhole, hbefore⟩, hstubs⟩ := h
  refine ⟨hwhole, _, Node.forall₂_alike _ _ hbefore, ?_⟩
  have heq := (Node.forall₂_alike _ _ hstubs).imp fun _ _ hn => Node.eq_of_alike hn
  rw [List.forall₂_eq_eq_eq] at heq
  rw [heq, List.take_append_drop]

/-- A method, and behind it a comment without a line end. -/
def openEnded : String := "package p\nfunc (t T) A() \x7b\x7d\n// @middleware x"

/-- A file with this text. -/
def openEndedFile : Tree := ⟨[(["f"], .file (some openEnded) 420)]⟩

theorem appends_openEnded : ∃ file' t log, SourceFile.parse openEnded
      = .ok ⟨"p", [], [⟨"A", some "T", none⟩]⟩ ∧
    (writeActions "/f" "T" [⟨"A", .post⟩, ⟨"B", .get⟩, ⟨"B", .post⟩]).perform
      ⟨openEndedFile, []⟩ = (.ok ["B"], ⟨t, log⟩) ∧
    t.readText "/f" = .ok (withStubs openEnded "T" [⟨"B", .get⟩]) ∧
    SourceFile.parse (withStubs openEnded "T" [⟨"B", .get⟩]) = .ok file' ∧
    AppendsMethods ⟨"p", [], [⟨"A", some "T", none⟩]⟩ file' "T" [⟨"B", .get⟩] ∧
    ∀ log, ∃ log',
      (writeActions "/f" "T" [⟨"A", .post⟩, ⟨"B", .get⟩, ⟨"B", .post⟩]).perform ⟨t, log⟩
        = (.ok [], ⟨t, log'⟩) := by
  have h : (Node.ofSource? openEnded.toList).any (fun root =>
      (Node.ofSource? (withStubs openEnded "T" [⟨"B", .get⟩]).toList).any fun root' =>
        !root.broken && root.sourceFile = .ok ⟨"p", [], [⟨"A", some "T", none⟩]⟩ &&
          stubsBehind openEnded "T" [⟨"B", .get⟩] root root') = true := by
    decide +kernel
  obtain ⟨root, hroot, h⟩ := (Option.any_eq_true _ _).1 h
  obtain ⟨root', hroot', h⟩ := (Option.any_eq_true _ _).1 h
  simp only [Bool.and_eq_true, Bool.not_eq_true', decide_eq_true_eq] at h
  obtain ⟨⟨hwhole, hfile⟩, hbehind⟩ := h
  have hparse := (Node.parse_of_ofSource? hroot hwhole).trans hfile
  have hactions : readActions ["a", "b:get", "b"]
      = .ok [⟨"A", .post⟩, ⟨"B", .get⟩, ⟨"B", .post⟩] := by decide +kernel
  have hnew : NewActions ⟨"p", [], [⟨"A", some "T", none⟩]⟩ "T"
      [⟨"A", .post⟩, ⟨"B", .get⟩, ⟨"B", .post⟩] [⟨"B", .get⟩] :=
    ⟨by decide +kernel, List.forall_mem_singleton.2 (by decide +kernel)⟩
  have hfind : openEndedFile.find false "/f" = .ok (["f"], .file (some openEnded) 420) := by
    decide +kernel
  have hfree : (openEndedFile.write "/f" "").2 = none := by decide +kernel
  obtain ⟨file', t, log, hall⟩ := appends_of_writeActions (s := ⟨openEndedFile, []⟩) hactions hfind
    hfree hparse hnew hroot hroot' (stubsBehind_of_eq_true hbehind)
  exact ⟨file', t, log, hparse, hall⟩

end Scaffold
end RouteScribe
