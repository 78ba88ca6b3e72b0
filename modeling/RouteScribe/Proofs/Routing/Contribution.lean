import RouteScribe.Proofs.Routing.Draft
import RouteScribe.Proofs.Routing.Key
import RouteScribe.Proofs.Work
import RouteScribe.Routing.Analysis

/-!
# RouteScribe.Proofs.Routing.Contribution

What an analysis finds, read off the source files. A method contributes a route if its receiver is
a type that the same file declares and the rule for controllers accepts. Of contributions with one
key the last counts.

* `contributions`: the contributions of source files, in order.
* `Analysis.Reads`: what the result of an analysis says.
* `reads_of_ofDirBy`: every analysis that succeeds reads the files of its scan.
-/

namespace RouteScribe
namespace Routing

/-- A type that a file declares. -/
structure Declared where
  file : ParsedFile
  type : Go.TypeDecl

/-- A method that is a route: the type it belongs to, and what declares it. -/
structure Contribution where
  type : Declared
  method : Go.FuncDecl

/-- The types that the rule `m` accepts, file by file and in source order. -/
def accepted (m : Matcher) (files : List ParsedFile) : List Declared :=
  files.flatMap fun f => (f.source.types.filter (Matcher.accepts · m)).map (⟨f, ·⟩)

/-- The methods of these types, type by type and in source order. -/
def contributions (m : Matcher) (files : List ParsedFile) : List Contribution :=
  (accepted m files).flatMap fun d =>
    (d.file.source.funcs.filter (·.receiver = some d.type.name)).map (⟨d, ·⟩)

/-- The import path of the package that a type belongs to. -/
def Declared.importPath (project : Project) (t : Files.Tree) (d : Declared) : String :=
  (ImportPath.ofFile t project.module project.root d.file.path).1.path

namespace Contribution

/-- The key of the route. -/
def key (project : Project) (t : Files.Tree) (c : Contribution) : RouteKey :=
  ⟨c.type.importPath project t, c.type.type.name, c.method.name⟩

/-- The verb that the comment of the method gives; `POST` if it gives none. -/
def verb (c : Contribution) : Verb :=
  ((Annotations.ofDoc c.method.doc).verb.bind Verb.ofString?).getD .post

/-- The middlewares that the comment of the method names, in order and as a router refers to them;
none if it names none. -/
def handlers? (c : Contribution) : Option (List String) :=
  match (Annotations.ofDoc c.method.doc).middlewares.getD [] with
  | [] => none
  | names => some (names.map ("middleware." ++ ·))

/-- The contribution as a route. -/
def route (project : Project) (t : Files.Tree) (c : Contribution) : Route :=
  ⟨c.key project t, c.verb, (Annotations.ofDoc c.method.doc).middlewares⟩

theorem key_route (project : Project) (t : Files.Tree) (c : Contribution) :
    (c.route project t).key = c.key project t := by
  unfold route
  rfl

theorem handlers?_route (project : Project) (t : Files.Tree) (c : Contribution) :
    (c.route project t).handlers? = c.handlers? := by
  unfold Route.handlers? handlers? route
  cases (Annotations.ofDoc c.method.doc).middlewares.getD [] with
  | nil => rfl
  | cons name names => rfl

end Contribution

/-- The last contribution with a key. -/
def lastContribution? (project : Project) (t : Files.Tree) (cs : List Contribution)
    (key : String) : Option Contribution :=
  cs.reverse.find? fun c => (c.key project t).text = key

theorem lastRoute?_map_route (project : Project) (t : Files.Tree) (cs : List Contribution)
    (key : String) : lastRoute? (cs.map (·.route project t)) key
      = (lastContribution? project t cs key).map (·.route project t) := by
  unfold lastRoute? lastContribution?
  have hkey : (fun r : Route => decide (r.key.text = key)) ∘ (·.route project t)
      = fun c : Contribution => decide ((c.key project t).text = key) := by
    funext c
    rw [Function.comp_apply, decide_eq_decide, Contribution.key_route]
  rw [← List.map_reverse, List.find?_map, hkey]

namespace Analysis

/-- The files were read from the tree at these paths, in this order. -/
def ReadFrom (t : Files.Tree) (paths : List String) (files : List ParsedFile) : Prop :=
  files.map (·.path) = paths ∧ ∀ f ∈ files, ∃ text, t.readText f.path = .ok text ∧
    Go.SourceFile.parse text = .ok f.source

/-- The analysis says what the files contribute, and nothing else. -/
structure Reads (project : Project) (m : Matcher) (t : Files.Tree) (files : List ParsedFile)
    (a : Analysis) : Prop where
  controllers : a.controllers.map (fun c => (c.importPath, c.typeName))
    = (accepted m files).map fun d => (d.importPath project t, d.type.name)
  sorted_verbs : a.router.verbs.Sorted
  verbs : ∀ key, a.router.verbs.get? key
    = (lastContribution? project t (contributions m files) key).map (·.verb)
  sorted_middlewares : a.router.middlewares.Sorted
  middlewares : ∀ key, a.router.middlewares.get? key
    = (lastContribution? project t (contributions m files) key).bind (·.handlers?)
  middlewareImport : a.router.middlewareImport
    = if a.router.middlewares = [] then none else some project.middlewareImport
  keys : ∀ c ∈ contributions m files, ∀ c' ∈ contributions m files,
    (c.key project t).text = (c'.key project t).text →
    c.type.importPath project t = c'.type.importPath project t ∧
      c.type.type.name = c'.type.type.name ∧ c.method.name = c'.method.name

/-! ## Reading -/

/-- Reading files leaves the session as it is, and gives what stands in them. -/
theorem readFrom_of_readAll (paths : List String) : ∀ {s s' : Session} {files : List ParsedFile},
    (readAll paths).perform s = (.ok files, s') → s' = s ∧ ReadFrom s.tree paths files := by
  induction paths with
  | nil =>
    intro s s' files h
    cases h
    exact ⟨rfl, rfl, fun f hf => by cases hf⟩
  | cons path paths ih =>
    intro s s' files h
    obtain ⟨source, s₁, hparse, htail⟩ := Work.of_perform_bind_ok h
    obtain ⟨rest, s₂, hrest, hlast⟩ := Work.of_perform_bind_ok htail
    obtain ⟨rfl, text, htext, hsource⟩ := Work.of_perform_parseFile_ok hparse
    obtain ⟨rfl, hpaths, hfiles⟩ := ih hrest
    cases hlast
    refine ⟨rfl, congrArg (path :: ·) hpaths, fun f hf => ?_⟩
    rcases List.mem_cons.1 hf with rfl | hf
    · exact ⟨text, htext, hsource⟩
    · exact hfiles f hf

/-! ## Assembling -/

/-- What the files looked at so far contribute is in the progress made. -/
structure Follows (project : Project) (m : Matcher) (t : Files.Tree) (files : List ParsedFile)
    (p : Progress) : Prop where
  draft : p.draft.Holds ((contributions m files).map (·.route project t))
  middlewarePath : p.draft.middlewarePath = project.middlewareImport
  controllers : p.controllers.map (fun c => (c.importPath, c.typeName))
    = (accepted m files).map fun d => (d.importPath project t, d.type.name)

theorem holds_addControllers (source : Go.SourceFile) (cs : List Controller) :
    ∀ {p : Progress} {routes : List Route}, p.draft.Holds routes →
    (addControllers source p cs).draft.Holds (routes ++ cs.flatMap (Route.ofFile source)) ∧
      (addControllers source p cs).draft.middlewarePath = p.draft.middlewarePath ∧
      (addControllers source p cs).controllers = p.controllers ++ cs := by
  induction cs with
  | nil =>
    intro p routes h
    rw [List.flatMap_nil, List.append_nil, addControllers, List.append_nil]
    exact ⟨h, rfl, rfl⟩
  | cons c cs ih =>
    intro p routes h
    have hnext := Draft.holds_addRoutes (Route.ofFile source c) (Draft.holds_addController h c)
    have hpath := Draft.middlewarePath_addRoutes (Route.ofFile source c) (p.draft.addController c)
    obtain ⟨hdraft, hpath', hcontrollers⟩ := ih (p := { p with
      draft := ((p.draft.addController c).addRoutes (Route.ofFile source c)).1
      controllers := p.controllers ++ [c]
      notices := p.notices ++ verbNotices (Route.ofFile source c)
        ++ ((p.draft.addController c).addRoutes (Route.ofFile source c)).2 }) hnext
    rw [List.flatMap_cons, ← List.append_assoc]
    refine ⟨hdraft, hpath'.trans hpath, hcontrollers.trans ?_⟩
    rw [List.append_assoc]
    rfl

variable {project : Project} {m : Matcher} {t : Files.Tree} {files : List ParsedFile}
  {p : Progress}

/-- The detector of an analysis. -/
def detectorOf (project : Project) (m : Matcher) : Detector := ⟨project.module, project.root, m⟩

/-- The controllers found in a file are the types accepted there, each in the package of the
file. -/
theorem exists_alias_of_detect (project : Project) (m : Matcher) (t : Files.Tree)
    (registry : Registry) (f : ParsedFile) : ∃ localName,
    ((detectorOf project m).detect t registry f.path f.source).controllers
      = (f.source.types.filter (Matcher.accepts · m)).map fun decl =>
        ⟨decl.name, Declared.importPath project t ⟨f, decl⟩, localName⟩ := by
  unfold Detector.detect
  split
  next hnil =>
    have hnil : f.source.types.filter (Matcher.accepts · m) = [] := hnil
    rw [hnil]
    exact ⟨"", rfl⟩
  · exact ⟨_, rfl⟩

/-- The routes of the controllers found in a file are its contributions. -/
theorem flatMap_ofFile_detect (project : Project) (m : Matcher) (t : Files.Tree)
    (registry : Registry) (f : ParsedFile) :
    ((detectorOf project m).detect t registry f.path f.source).controllers.flatMap
        (Route.ofFile f.source)
      = (contributions m [f]).map (·.route project t) := by
  obtain ⟨localName, hfound⟩ := exists_alias_of_detect project m t registry f
  have haccepted : accepted m [f]
      = (f.source.types.filter (Matcher.accepts · m)).map (⟨f, ·⟩) := by
    simp [accepted]
  rw [hfound, contributions, haccepted]
  generalize f.source.types.filter (Matcher.accepts · m) = decls
  induction decls with
  | nil => rfl
  | cons decl decls ih =>
    simp only [List.map_cons, List.flatMap_cons, List.map_append]
    rw [ih]
    congr 1
    simp only [Route.ofFile, Go.SourceFile.methodsOf, List.map_map]
    have hreceiver : f.source.funcs.filter (fun n => n.receiver == some decl.name)
        = f.source.funcs.filter fun n => decide (n.receiver = some decl.name) := by
      congr 1
      funext n
      exact Bool.eq_iff_iff.2 (by simp)
    rw [hreceiver]
    congr 1

theorem follows_addFile (h : Follows project m t files p) (f : ParsedFile) :
    Follows project m t (files ++ [f]) (addFile (detectorOf project m) t p f) := by
  obtain ⟨localName, hfound⟩ := exists_alias_of_detect project m t p.registry f
  have hroutes := flatMap_ofFile_detect project m t p.registry f
  have haccepted : accepted m (files ++ [f]) = accepted m files ++ accepted m [f] := by
    simp only [accepted, List.flatMap_append]
  have hcontributions : contributions m (files ++ [f])
      = contributions m files ++ contributions m [f] := by
    simp only [contributions, haccepted, List.flatMap_append]
  unfold addFile
  extract_lets found
  obtain ⟨hdraft, hpath, hcontrollers⟩ := holds_addControllers f.source found.controllers
    (p := { p with registry := found.registry, notices := p.notices ++ found.notices }) h.draft
  refine ⟨?_, hpath.trans h.middlewarePath, ?_⟩
  · rw [hcontributions, List.map_append, ← hroutes]
    exact hdraft
  · rw [hcontrollers, haccepted, List.map_append, List.map_append, h.controllers, hfound]
    simp [accepted]

theorem follows_addFiles (fs : List ParsedFile) : ∀ {files : List ParsedFile} {p : Progress},
    Follows project m t files p →
    Follows project m t (files ++ fs) (addFiles (detectorOf project m) t p fs) := by
  induction fs with
  | nil =>
    intro files p h
    rw [List.append_nil]
    exact h
  | cons f fs ih =>
    intro files p h
    rw [List.append_cons]
    exact ih (follows_addFile h f)

theorem follows_start (project : Project) (m : Matcher) (t : Files.Tree) :
    Follows project m t [] ⟨.empty, .empty project.middlewareImport, [], []⟩ :=
  ⟨Draft.holds_empty _, rfl, rfl⟩

theorem named_key (hfiles : ∀ f ∈ files, ∃ text, Go.SourceFile.parse text = .ok f.source)
    {c : Contribution} (hc : c ∈ contributions m files) : (c.key project t).Named := by
  obtain ⟨d, hd, hc⟩ := List.mem_flatMap.1 hc
  obtain ⟨n, hn, rfl⟩ := List.mem_map.1 hc
  obtain ⟨f, hf, hd⟩ := List.mem_flatMap.1 hd
  obtain ⟨decl, hdecl, rfl⟩ := List.mem_map.1 hd
  obtain ⟨text, hparse⟩ := hfiles f hf
  obtain ⟨htypes, hfuncs⟩ := Go.isName_of_parse hparse
  exact ⟨htypes decl (List.mem_filter.1 hdecl).1, hfuncs n (List.mem_filter.1 hn).1⟩

/-- What the files of an analysis contribute, all together. -/
def progress (project : Project) (m : Matcher) (t : Files.Tree) (files : List ParsedFile) :
    Progress :=
  addFiles (detectorOf project m) t ⟨.empty, .empty project.middlewareImport, [], []⟩ files

/-- An analysis that succeeds has read all files of its scan and reports what it noticed in them. It
changes no file. -/
theorem notices_of_ofDirBy_ok {dir : String} {s s' : Session} {a : Analysis}
    (h : (ofDirBy project m dir).perform s = (.ok a, s')) :
    s'.tree = s.tree ∧ ∃ files, ReadFrom s.tree (Scan.run s.tree dir).files files ∧
      a = result (Scan.run s.tree dir) (progress project m s.tree files) ∧
      ∀ n ∈ (progress project m s.tree files).notices, n ∈ s'.log := by
  unfold ofDirBy at h
  obtain ⟨_, s₁, hscanning, h₁⟩ := Work.of_perform_bind_ok h
  obtain ⟨t₁, s₂, htree₁, h₂⟩ := Work.of_perform_bind_ok h₁
  obtain ⟨_, s₃, hwarnings, h₃⟩ := Work.of_perform_bind_ok h₂
  obtain ⟨_, s₄, hfound, h₄⟩ := Work.of_perform_bind_ok h₃
  obtain ⟨files, s₅, hfiles, h₅⟩ := Work.of_perform_bind_ok h₄
  obtain ⟨t₂, s₆, htree₂, h₆⟩ := Work.of_perform_bind_ok h₅
  obtain ⟨_, s₇, hnotices, h₇⟩ := Work.of_perform_bind_ok h₆
  cases hscanning
  cases htree₁
  cases hwarnings
  cases hfound
  obtain ⟨rfl, hread⟩ := readFrom_of_readAll _ hfiles
  cases htree₂
  cases hnotices
  dsimp only at h₇
  split at h₇
  · obtain ⟨_, s₈, hnone, h₈⟩ := Work.of_perform_bind_ok h₇
    cases hnone
    cases h₈
    refine ⟨rfl, files, hread, rfl, fun n hn => ?_⟩
    exact List.mem_append_left _ (List.mem_append_left _ (List.mem_append_right _ hn))
  · cases h₇
    refine ⟨rfl, files, hread, rfl, fun n hn => ?_⟩
    exact List.mem_append_left _ (List.mem_append_right _ hn)

theorem of_ofDirBy_ok {dir : String} {s s' : Session} {a : Analysis}
    (h : (ofDirBy project m dir).perform s = (.ok a, s')) :
    s'.tree = s.tree ∧ ∃ files, ReadFrom s.tree (Scan.run s.tree dir).files files ∧
      a = result (Scan.run s.tree dir) (progress project m s.tree files) := by
  obtain ⟨htree, files, hread, hresult, -⟩ := notices_of_ofDirBy_ok h
  exact ⟨htree, files, hread, hresult⟩

theorem reads_result {paths : List String} (scan : Scan) (hread : ReadFrom t paths files) :
    Reads project m t files (result scan (progress project m t files)) := by
  have hfollows : Follows project m t files (progress project m t files) := by
    have hall := follows_addFiles files (follows_start project m t)
    rw [List.nil_append] at hall
    exact hall
  have hlast := lastRoute?_map_route project t (contributions m files)
  refine ⟨hfollows.controllers, hfollows.draft.sorted_verbs, fun key => ?_,
    hfollows.draft.sorted_middlewares, fun key => ?_, ?_, fun c hc c' hc' htext => ?_⟩
  · refine (hfollows.draft.verbs key).trans ?_
    rw [hlast, Option.map_map]
    rfl
  · refine (hfollows.draft.middlewares key).trans ?_
    rw [hlast, Option.bind_map]
    refine congrArg (Option.bind _) (funext fun c => ?_)
    exact Contribution.handlers?_route project t c
  · simp only [result, Draft.build, hfollows.middlewarePath, List.isEmpty_iff]
  · have hnamed : ∀ f ∈ files, ∃ text, Go.SourceFile.parse text = .ok f.source := by
      intro f hf
      obtain ⟨text, _, hparse⟩ := hread.2 f hf
      exact ⟨text, hparse⟩
    have hkey := RouteKey.eq_of_text_eq (named_key hnamed hc) (named_key hnamed hc') htext
    exact ⟨congrArg RouteKey.importPath hkey, congrArg RouteKey.typeName hkey,
      congrArg RouteKey.methodName hkey⟩

/-- The result of an analysis that succeeds is what the files of its scan contribute. -/
theorem reads_of_ofDirBy {dir : String} {s s' : Session} {a : Analysis}
    (h : (ofDirBy project m dir).perform s = (.ok a, s')) :
    ∃ files, ReadFrom s.tree (Scan.run s.tree dir).files files ∧
      Reads project m s.tree files a := by
  obtain ⟨_, files, hread, rfl⟩ := of_ofDirBy_ok h
  exact ⟨files, hread, reads_result _ hread⟩

/-- A file system with one controller in it, which has one method. -/
def oneController : Files.Tree :=
  ⟨[(["a"], .dir), (["a", "controller"], .dir),
    (["a", "controller", "x.go"],
      .file (some ("package x\ntype AController struct\x7b\x7d\n// @http_method get\n"
        ++ "func (a AController) Do() \x7b\x7d\n")) 420)]⟩

theorem reads_oneController : ∃ a s',
    (ofDirBy (.usual "/" "m") .conventional "/a").perform ⟨oneController, []⟩ = (.ok a, s') ∧
    a.router.verbs = [("m/a/controller.AController.Do", .get)] ∧
    ∃ files, ReadFrom oneController (Scan.run oneController "/a").files files ∧
      Reads (.usual "/" "m") .conventional oneController files a := by
  have h : ((ofDirBy (.usual "/" "m") .conventional "/a").perform
      ⟨oneController, []⟩).1.toOption.map (·.router.verbs)
      = some [("m/a/controller.AController.Do", .get)] := by decide +kernel
  rcases hrun : (ofDirBy (.usual "/" "m") .conventional "/a").perform ⟨oneController, []⟩
    with ⟨r, s'⟩
  rw [hrun] at h
  cases r with
  | error e => cases h
  | ok a => exact ⟨a, s', rfl, Option.some.inj h, reads_of_ofDirBy hrun⟩

end Analysis
end Routing
end RouteScribe
