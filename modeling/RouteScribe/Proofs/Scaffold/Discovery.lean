import RouteScribe.Proofs.Scaffold.Outcome

/-!
# RouteScribe.Proofs.Scaffold.Discovery

New controllers as an analysis sees them. The file of a new controller is found, it declares one
controller with one route for each action, and what was known of the other controllers stays.

* `Gains`: what the next analysis says that the one before has not said.
* `gains_of_newController`: it says this after every creation that succeeds.
-/

namespace RouteScribe
namespace Scaffold

open Files Routing

variable {project : Project} {t : Tree} {marked : Bool} {typeName path key : String}
  {actions new : List Action}

/-! ## What the file contributes -/

/-- The declarations in the file of a controller. -/
def declarations (typeName : String) (new : List Action) : Go.SourceFile :=
  ⟨"controller", [⟨typeName, none⟩],
    ⟨"New" ++ typeName, none, none⟩ :: new.map (methodDecl typeName)⟩

/-- The type that a controller is. -/
def declared (path typeName : String) (new : List Action) : Declared :=
  ⟨⟨path, declarations typeName new⟩, ⟨typeName, none⟩⟩

theorem accepted_declarations (h : HasControllerName ⟨typeName, none⟩) :
    accepted (Analysis.matcher marked) [⟨path, declarations typeName new⟩]
      = [declared path typeName new] := by
  have haccepts : Matcher.accepts ⟨typeName, none⟩ (Analysis.matcher marked) = true := by
    cases marked with
    | true => rw [accepts_matcher, decide_eq_true h, Bool.true_or]
    | false => exact (accepts_conventional _).trans (decide_eq_true h)
  simp [accepted, declarations, declared, haccepts]

theorem contributions_declarations (h : HasControllerName ⟨typeName, none⟩) :
    contributions (Analysis.matcher marked) [⟨path, declarations typeName new⟩]
      = new.map fun a => ⟨declared path typeName new, methodDecl typeName a⟩ := by
  have hmethods : (declarations typeName new).funcs.filter (·.receiver = some typeName)
      = new.map (methodDecl typeName) := by
    rw [declarations, List.filter_cons_of_neg (by simp), List.filter_eq_self]
    intro n hn
    obtain ⟨a, -, rfl⟩ := List.mem_map.1 hn
    exact decide_eq_true rfl
  rw [contributions, accepted_declarations h, List.flatMap_singleton]
  exact (congrArg (List.map _) hmethods).trans List.map_map

theorem ofLines_verb {v : Verb} (h : v.isStandard = true) :
    Annotations.ofLines [" @http_method " ++ v.text, " @middleware"] = ⟨some v.text, none⟩ ∧
      Verb.ofString? v.text = some v := by
  cases v with
  | other word => cases h
  | _ => decide +kernel

theorem ofDoc_methodDecl {a : Action} (h : a.verb.isStandard = true) (typeName : String) :
    Annotations.ofDoc (methodDecl typeName a).doc = ⟨some a.verb.text, none⟩ := (ofLines_verb h).1

theorem verb_methodDecl {a : Action} (h : a.verb.isStandard = true) (e : Declared)
    (typeName : String) : Contribution.verb ⟨e, methodDecl typeName a⟩ = a.verb := by
  rw [Contribution.verb, ofDoc_methodDecl h, Option.bind_some, (ofLines_verb h).2]
  rfl

theorem handlers?_methodDecl {a : Action} (h : a.verb.isStandard = true) (e : Declared)
    (typeName : String) : Contribution.handlers? ⟨e, methodDecl typeName a⟩ = none := by
  rw [Contribution.handlers?, ofDoc_methodDecl h]
  rfl

/-- The route of an action. -/
def keyOf (package typeName : String) (a : Action) : String :=
  (RouteKey.mk package typeName a.name).text

theorem keyOf_inj {package : String} {a b : Action}
    (h : keyOf package typeName a = keyOf package typeName b) : a.name = b.name := by
  unfold keyOf RouteKey.text at h
  exact (String.append_right_inj _).1 h

theorem FirstOfEach.find?_keyOf (h : FirstOfEach actions new) (package typeName key : String) :
    new.find? (keyOf package typeName · = key)
      = actions.find? (keyOf package typeName · = key) := by
  by_cases hkey : ∃ a : Action, keyOf package typeName a = key
  · obtain ⟨b, rfl⟩ := hkey
    have hname : ∀ a : Action, decide (keyOf package typeName a = keyOf package typeName b)
        = decide (a.name = b.name) := by
      intro a
      rw [decide_eq_decide]
      exact ⟨keyOf_inj, fun heq => by rw [keyOf, keyOf, heq]⟩
    simp only [hname]
    exact h.find?_eq b.name
  · have hnone : ∀ as : List Action, as.find? (keyOf package typeName · = key) = none := fun as =>
      List.find?_eq_none.2 fun a _ heq => hkey ⟨a, of_decide_eq_true heq⟩
    rw [hnone, hnone]

/-- What is found of a kind of which there is one comes from either end. -/
theorem find?_reverse_of_unique {α : Type} {p : α → Bool} {xs : List α}
    (h : ∀ x ∈ xs, ∀ y ∈ xs, p x = true → p y = true → x = y) :
    xs.reverse.find? p = xs.find? p := by
  cases hfirst : xs.find? p with
  | none =>
    refine List.find?_eq_none.2 fun x hx => ?_
    exact List.find?_eq_none.1 hfirst x (List.mem_reverse.1 hx)
  | some x =>
    have hx := List.mem_of_find?_eq_some hfirst
    have hpx := List.find?_some hfirst
    have hsome : (xs.reverse.find? p).isSome :=
      List.find?_isSome.2 ⟨x, List.mem_reverse.2 hx, hpx⟩
    obtain ⟨y, hlast⟩ := Option.isSome_iff_exists.1 hsome
    rw [hlast, h y (List.mem_reverse.1 (List.mem_of_find?_eq_some hlast)) x hx
      (List.find?_some hlast) hpx]

/-- The last contribution with a key is the method for the first action with it. -/
theorem lastContribution?_declarations (h : HasControllerName ⟨typeName, none⟩)
    (hnew : FirstOfEach actions new) {package : String}
    (hpackage : (declared path typeName new).importPath project t = package) :
    lastContribution? project t
        (contributions (Analysis.matcher marked) [⟨path, declarations typeName new⟩]) key
      = (actions.find? (keyOf package typeName · = key)).map fun a =>
        ⟨declared path typeName new, methodDecl typeName a⟩ := by
  have hkey : (fun c : Contribution => decide ((c.key project t).text = key))
      ∘ (fun a => ⟨declared path typeName new, methodDecl typeName a⟩)
      = fun a => decide (keyOf package typeName a = key) := by
    funext a
    have hroute : Contribution.key project t ⟨declared path typeName new, methodDecl typeName a⟩
        = ⟨package, typeName, a.name⟩ := by
      rw [Contribution.key, hpackage]
      rfl
    rw [Function.comp_apply, decide_eq_decide, hroute, keyOf]
  rw [lastContribution?, contributions_declarations h, ← List.map_reverse, List.find?_map, hkey,
    ← hnew.find?_keyOf, find?_reverse_of_unique]
  intro a ha b hb hkeyA hkeyB
  have hname := keyOf_inj ((of_decide_eq_true hkeyA).trans (of_decide_eq_true hkeyB).symm)
  exact List.inj_on_of_nodup_map hnew.nodup ha hb hname

/-! ## What an analysis says -/

/-- The analysis `a'` has all that `a` has, and one controller more, with these actions. The aliases
of packages may be others. -/
structure Gains (a a' : Analysis) (package typeName : String) (actions : List Action) : Prop where
  fileCount : a'.fileCount = a.fileCount + 1
  controllers : ∃ before after,
    a.controllers.map (fun c => (c.importPath, c.typeName)) = before ++ after ∧
    a'.controllers.map (fun c => (c.importPath, c.typeName))
      = before ++ (package, typeName) :: after
  /-- The routes of the controller are new. -/
  absent : ∀ action ∈ actions, a.router.verbs.get? (keyOf package typeName action) = none
  sorted_verbs : a'.router.verbs.Sorted
  /-- Of actions with one name the first counts. -/
  verbs : ∀ key, a'.router.verbs.get? key
    = ((actions.find? (keyOf package typeName · = key)).map (·.verb)).or (a.router.verbs.get? key)
  middlewares : a'.router.middlewares = a.router.middlewares
  middlewareImport : a'.router.middlewareImport = a.router.middlewareImport
  imports : ∀ path, (∃ i ∈ a'.router.imports, i.path = path) ↔
    path = package ∨ ∃ i ∈ a.router.imports, i.path = path
  nodup_imports : (a'.router.imports.map (·.path)).Nodup
  registrations : a'.router.registrations = a'.controllers.map fun c => ⟨c.localName, c.typeName⟩
  /-- The alias of a controller is that of its package, and of no other. -/
  imported : ∀ c ∈ a'.controllers, ∃ i ∈ a'.router.imports,
    i.localName = c.localName ∧ i.path = c.importPath ∧
      ∀ j ∈ a'.router.imports, j.localName = c.localName → j = i

variable {command route name : String} {args : List String} {l : Location} {a a' : Analysis}
  {files files' : List ParsedFile} {t' : Tree}

theorem gains_of_extends (h : HasControllerName ⟨typeName, none⟩) (hnew : FirstOfEach actions new)
    (hstandard : ∀ action ∈ actions, action.verb.isStandard = true) {package : String}
    (hpackage : (declared path typeName new).importPath project t' = package)
    (hextends : Analysis.Extends project (Analysis.matcher marked) t'
      ⟨path, declarations typeName new⟩ a a')
    (hlinked : Analysis.Linked project (Analysis.matcher marked) t files a)
    (hlinked' : Analysis.Linked project (Analysis.matcher marked) t' files' a') :
    Gains a a' package typeName actions := by
  have hlast : ∀ key, lastContribution? project t'
      (contributions (Analysis.matcher marked) [⟨path, declarations typeName new⟩]) key
      = (actions.find? (keyOf package typeName · = key)).map fun a =>
        ⟨declared path typeName new, methodDecl typeName a⟩ :=
    fun _ => lastContribution?_declarations h hnew hpackage
  obtain ⟨before, after, hbefore, hafter⟩ := hextends.controllers
  rw [accepted_declarations h, List.map_singleton, hpackage, List.singleton_append] at hafter
  have hmiddlewares : a'.router.middlewares = a.router.middlewares := by
    refine hextends.sorted_middlewares.2.eq_of_get? hextends.sorted_middlewares.1 fun key => ?_
    rw [hextends.middlewares, hlast]
    cases hfirst : actions.find? (keyOf package typeName · = key) with
    | none => exact Option.none_or
    | some action =>
      have hverb := hstandard action (List.mem_of_find?_eq_some hfirst)
      rw [Option.map_some, Option.bind_some, handlers?_methodDecl hverb, Option.none_or]
  refine ⟨hextends.fileCount, ⟨before, after, hbefore, hafter⟩, fun action haction => ?_,
    hextends.sorted_verbs, fun key => ?_, hmiddlewares, hextends.middlewareImport hmiddlewares,
    fun path => ?_, hlinked'.nodup, hlinked'.registrations, hlinked'.imported⟩
  · have hsome : (actions.find?
        (keyOf package typeName · = keyOf package typeName action)).isSome :=
      List.find?_isSome.2 ⟨action, haction, by simp⟩
    obtain ⟨b, hb⟩ := Option.isSome_iff_exists.1 hsome
    refine hextends.absent _ ⟨declared path typeName new, methodDecl typeName b⟩ ?_
    rw [hlast, hb]
    rfl
  · rw [hextends.verbs, hlast, Option.map_map]
    congr 1
    cases hfirst : actions.find? (keyOf package typeName · = key) with
    | none => rfl
    | some action =>
      exact congrArg some
        (verb_methodDecl (hstandard action (List.mem_of_find?_eq_some hfirst)) _ typeName)
  · rw [hlinked'.exists_import_iff, hlinked.exists_import_iff]
    have hmem : ∀ cs : List Controller, (∃ c ∈ cs, c.importPath = path) ↔
        ∃ x ∈ cs.map (fun c => (c.importPath, c.typeName)), x.1 = path := fun cs => by
      simp only [List.mem_map, exists_exists_and_eq_and]
    rw [hmem, hmem, hbefore, hafter]
    simp only [List.mem_append, List.mem_cons, or_and_right, exists_or, exists_eq_left]
    rw [or_left_comm, eq_comm]

variable {u u₁ u' : Session}

/-- The name of an action is in ASCII and begins with a letter. -/
def HasPlainName (arg : String) : Prop :=
  BeginsWithLetter (requestedName arg) ∧ ∀ c ∈ (requestedName arg).toList, c.toNat < 0x80

/-- An analysis that succeeds before a controller is created succeeds after it, and gains that
controller and its actions, if no source file in the directory of the controller declares its
type. -/
theorem gains_of_newController (project : Project) (marked : Bool) (hw : u.tree.WellFormed)
    (hlinks : Analysis.LinkFree u.tree "/") (hcommand : Path.IsName command)
    (hroute : ∀ s ∈ Path.segments route, IsWord s) (hargs : ∀ arg ∈ args, HasPlainName arg)
    (hanalysis : (Analysis.ofCommand project marked command).perform u = (.ok a, u₁))
    (hnew : (newController project command route args).perform u = (.ok l, u'))
    (hfresh : ∀ path ∈ (Scan.run u.tree (project.apiDir command)).files,
      Path.parent? path = Path.parent? l.path → ¬ Analysis.Declares u.tree path l.typeName) :
    ∃ dirs name actions a', Path.segments route = dirs ++ [name] ∧
      List.Forall₂ Requests args actions ∧
      (∀ log, ∃ log', (Analysis.ofCommand project marked command).perform ⟨u'.tree, log⟩
        = (.ok a', ⟨u'.tree, log'⟩)) ∧
      Gains a a'
        (project.apiImport command ++ "/" ++ Path.ofSegments (dirs ++ ["controller"]))
        (capitalize name ++ "Controller") actions := by
  obtain ⟨-, -, hl, -⟩ := of_newController_ok hnew
  obtain ⟨dirs, name, hlocated⟩ := exists_located hl
  rw [hlocated.segments] at hroute
  obtain ⟨actions, new, d, hactions, hfirst, haddition⟩ :=
    exists_addition hw hlinks hcommand hlocated hroute hnew
  have hrequests := requests_of_readActions hactions
  have hrequest : ∀ action ∈ actions, action.verb.isStandard = true ∧ IsPlain action := by
    intro action haction
    obtain ⟨arg, harg, h⟩ := exists_request hrequests haction
    obtain ⟨hletter, hascii⟩ := hargs arg harg
    exact ⟨h.isStandard, h.isPlain (isGoName_of_ascii h.identifier hascii hletter.ne_blank)⟩
  have hword := hroute name (List.mem_append_right _ List.mem_cons_self)
  have hparse : Go.SourceFile.parse (controllerWith l.typeName new)
      = .ok (declarations l.typeName new) := by
    refine parse_controller ?_ fun action haction => (hrequest action (hfirst.mem haction)).2
    rw [hlocated.typeName]
    exact hword.isPlainName
  have hpath := hlocated.path_eq_pathOf_root hroute hcommand
  obtain ⟨a', files, files', hrun, hextends, hlinked, hlinked'⟩ :=
    haddition.exists_analysis rfl hparse hanalysis fun path hmem hparent decl hdecl => by
      obtain rfl := List.mem_singleton.1 hdecl
      exact hfresh path hmem (hparent.trans (congrArg Path.parent? hpath.symm))
  refine ⟨dirs, name, actions, a', hlocated.segments, hrequests, hrun, ?_⟩
  have hname : HasControllerName ⟨l.typeName, none⟩ := by
    rw [hlocated.typeName]
    exact ⟨(capitalize name).toList, String.toList_append.symm⟩
  have hpackage : ParsedFile.importPath project u'.tree ⟨_, declarations l.typeName new⟩ = _ :=
    haddition.importPath_new
  rw [← hlocated.typeName]
  refine gains_of_extends hname hfirst (fun action haction => (hrequest action haction).1) ?_
    hextends hlinked hlinked'
  refine hpackage.trans ?_
  have hdir : (dirs ++ ["controller", name ++ ".go"]).dropLast = dirs ++ ["controller"] := by
    rw [List.append_cons, List.dropLast_concat]
  rw [hdir]
  exact Analysis.package_eq (by simp)

/-- A project with a command that has one controller. -/
def oneOther : Tree :=
  ⟨[(["cmd"], .dir), (["cmd", "c"], .dir), (["internal"], .dir), (["internal", "c"], .dir),
    (["internal", "c", "transport"], .dir), (["internal", "c", "transport", "http"], .dir),
    (["internal", "c", "transport", "http", "api"], .dir),
    (["internal", "c", "transport", "http", "api", "controller"], .dir),
    (["internal", "c", "transport", "http", "api", "controller", "a.go"],
      .file (some Analysis.intController) 420)]⟩

theorem readFrom_oneOther : Analysis.ReadFrom oneOther
    (Scan.run oneOther ((Project.usual "/" "m").apiDir "c")).files
    [⟨"/internal/c/transport/http/api/controller/a.go", ⟨"x", [⟨"AController", none⟩], []⟩⟩] :=
  ⟨by decide +kernel, List.forall_mem_singleton.2
    ⟨Analysis.intController, by decide +kernel, Analysis.parse_intController⟩⟩

theorem not_declares_oneOther :
    ∀ path ∈ (Scan.run oneOther ((Project.usual "/" "m").apiDir "c")).files,
      ¬ Analysis.Declares oneOther path "UserController" := by
  intro path hpath
  obtain ⟨hpaths, hfiles⟩ := readFrom_oneOther
  rw [← hpaths] at hpath
  obtain rfl := List.mem_singleton.1 hpath
  obtain ⟨text, hread, hparse⟩ := List.forall_mem_singleton.1 hfiles
  rintro ⟨text', source, hread', hparse', decl, hdecl, hname⟩
  obtain rfl := Except.ok.inj (hread.symm.trans hread')
  obtain rfl := Except.ok.inj (hparse.symm.trans hparse')
  rw [List.mem_singleton.1 hdecl] at hname
  exact absurd hname (by decide)

theorem gains_oneOther : ∃ a a' l actions u₁ u',
    (Analysis.ofCommand (.usual "/" "m") false "c").perform ⟨oneOther, []⟩ = (.ok a, u₁) ∧
    (newController (.usual "/" "m") "c" "user" ["list:get", "list", "show"]).perform ⟨oneOther, []⟩
      = (.ok l, u') ∧
    List.Forall₂ Requests ["list:get", "list", "show"] actions ∧
    Gains a a' "m/internal/c/transport/http/api/controller" "UserController" actions := by
  have hlinks : Analysis.LinkFree oneOther "/" :=
    Analysis.linkFree_of_entries (by simp [oneOther]) "/"
  obtain ⟨log, hanalysis⟩ := Analysis.perform_ofDirBy_of_readFrom (s := ⟨oneOther, []⟩)
    (.usual "/" "m") (Analysis.matcher false) readFrom_oneOther
  have hl : locate (.usual "/" "m") "c" "user"
      = .ok ⟨"/internal/c/transport/http/api/controller/user.go", "UserController"⟩ := by
    decide +kernel
  have hactions : readActions ["list:get", "list", "show"]
      = .ok [⟨"List", .get⟩, ⟨"List", .post⟩, ⟨"Show", .post⟩] := by decide +kernel
  obtain ⟨u', hnew⟩ := exists_perform_newController (u := ⟨oneOther, []⟩) hlinks
    (by decide +kernel) hl hactions (by decide +kernel) (by decide +kernel) (by decide +kernel)
  have hroute : ∀ s ∈ Path.segments "user", IsWord s :=
    List.forall_mem_singleton.2 ⟨rfl, List.forall_iff_forall_mem.1 (by decide)⟩
  have hargs : ∀ arg ∈ ["list:get", "list", "show"], HasPlainName arg := by
    simp only [List.forall_mem_cons]
    have hascii {s : String} : s.toList.Forall (·.toNat < 0x80) → ∀ c ∈ s.toList, c.toNat < 0x80 :=
      List.forall_iff_forall_mem.1
    exact ⟨⟨rfl, hascii (by decide)⟩, ⟨rfl, hascii (by decide)⟩, ⟨rfl, hascii (by decide)⟩, nofun⟩
  obtain ⟨dirs, name, actions, a', hsegments, hrequests, -, hgains⟩ :=
    gains_of_newController (.usual "/" "m") false (by decide +kernel) hlinks (by decide +kernel)
      hroute hargs hanalysis hnew fun path hpath _ => not_declares_oneOther path hpath
  have hname : dirs = [] ∧ name = "user" := by
    have hsegments : dirs ++ [name] = ["user"] := hsegments.symm
    cases dirs with
    | nil => exact ⟨rfl, (List.cons.inj hsegments).1⟩
    | cons d ds => simp at hsegments
  obtain ⟨rfl, rfl⟩ := hname
  exact ⟨_, a', _, actions, _, u', hanalysis, hnew, hrequests, hgains⟩

end Scaffold
end RouteScribe
