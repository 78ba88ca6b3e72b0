import RouteScribe.Proofs.Routing.Marker

/-!
# RouteScribe.Proofs.Routing.Coverage

Which methods become routes. A method of a controller that stands in the file of its type always
does. It keeps its middlewares unless it is declared once more without any, and then that is
reported. A method in another file of the package is not looked at.

* `Draft.Reports`: routes with the key of one before are reported.
* `Covered`: what a router has for a method.
* `covers_of_ofDirBy`: the router of an analysis covers the methods of all controllers.
* `not_coversPackage_splitController`: it does not cover those in other files of the package.
-/

namespace RouteScribe
namespace Routing

/-! ## Repeated routes -/

namespace Draft

/-- Each key that several of the routes have is reported. -/
def Reports (notices : List Notice) (routes : List Route) : Prop :=
  ∀ key, 2 ≤ routes.countP (·.key.text = key) → .repeatedRoute key ∈ notices

variable {d : Draft} {notices more : List Notice} {routes : List Route}

theorem Reports.append (h : Reports notices routes) (more : List Notice) :
    Reports (notices ++ more) routes := fun key hkey => List.mem_append_left more (h key hkey)

theorem reports_addRoute (hd : d.Holds routes) (h : Reports notices routes) (r : Route) :
    Reports (notices ++ d.routeNotices r) (routes ++ [r]) := by
  intro key hkey
  rw [List.countP_append] at hkey
  by_cases hr : r.key.text = key
  · have hpos : 0 < routes.countP (·.key.text = key) := by
      simp only [List.countP_singleton, hr, decide_true, if_true] at hkey
      omega
    obtain ⟨r', hr', hkey'⟩ := List.countP_pos_iff.1 hpos
    have hlast : (lastRoute? routes key).isSome = true :=
      List.find?_isSome.2 ⟨r', List.mem_reverse.2 hr', hkey'⟩
    have hsome : (d.verbs.get? r.key.text).isSome = true := by
      rw [hd.verbs, hr, Option.isSome_map, hlast]
    rw [routeNotices, if_pos hsome, hr]
    exact List.mem_append_right _ List.mem_cons_self
  · have hzero : [r].countP (·.key.text = key) = 0 := by simp [hr]
    exact List.mem_append_left _ (h key (by omega))

theorem reports_addRoutes (rs : List Route) : ∀ {d : Draft} {notices : List Notice}
    {routes : List Route}, d.Holds routes → Reports notices routes →
    Reports (notices ++ (d.addRoutes rs).2) (routes ++ rs) := by
  induction rs with
  | nil =>
    intro d notices routes _ h
    rw [List.append_nil]
    exact h.append _
  | cons r rs ih =>
    intro d notices routes hd h
    have hrest := ih (holds_addRoute hd r) (reports_addRoute hd h r)
    rw [List.append_assoc, ← List.append_cons] at hrest
    exact hrest

end Draft

namespace Analysis

variable {project : Project} {m : Matcher} {t : Files.Tree} {files : List ParsedFile}
  {p : Progress}

theorem reports_addControllers (source : Go.SourceFile) (cs : List Controller) :
    ∀ {p : Progress} {routes : List Route}, p.draft.Holds routes →
    Draft.Reports p.notices routes →
    Draft.Reports (addControllers source p cs).notices
      (routes ++ cs.flatMap (Route.ofFile source)) := by
  induction cs with
  | nil =>
    intro p routes _ h
    rw [List.flatMap_nil, List.append_nil]
    exact h
  | cons c cs ih =>
    intro p routes hd h
    have hd' := Draft.holds_addController hd c
    have hreports := Draft.reports_addRoutes (Route.ofFile source c) hd'
      (h.append (verbNotices (Route.ofFile source c)))
    rw [List.flatMap_cons, ← List.append_assoc]
    exact ih (p := { p with
      draft := ((p.draft.addController c).addRoutes (Route.ofFile source c)).1
      controllers := p.controllers ++ [c]
      notices := p.notices ++ verbNotices (Route.ofFile source c)
        ++ ((p.draft.addController c).addRoutes (Route.ofFile source c)).2 })
      (Draft.holds_addRoutes (Route.ofFile source c) hd') hreports

theorem reports_addFile (hp : Follows project m t files p)
    (h : Draft.Reports p.notices ((contributions m files).map (·.route project t)))
    (f : ParsedFile) : Draft.Reports (addFile (detectorOf project m) t p f).notices
      ((contributions m (files ++ [f])).map (·.route project t)) := by
  have hcontributions : contributions m (files ++ [f])
      = contributions m files ++ contributions m [f] := by
    simp only [contributions, accepted, List.flatMap_append]
  rw [hcontributions, List.map_append, ← flatMap_ofFile_detect project m t p.registry f]
  unfold addFile
  extract_lets found
  exact reports_addControllers f.source found.controllers
    (p := { p with registry := found.registry, notices := p.notices ++ found.notices }) hp.draft
    (h.append found.notices)

theorem reports_addFiles (fs : List ParsedFile) : ∀ {files : List ParsedFile} {p : Progress},
    Follows project m t files p →
    Draft.Reports p.notices ((contributions m files).map (·.route project t)) →
    Draft.Reports (addFiles (detectorOf project m) t p fs).notices
      ((contributions m (files ++ fs)).map (·.route project t)) := by
  induction fs with
  | nil =>
    intro files p _ h
    rw [List.append_nil]
    exact h
  | cons f fs ih =>
    intro files p hp h
    rw [List.append_cons]
    exact ih (follows_addFile hp f) (reports_addFile hp h f)

theorem reports_progress (project : Project) (m : Matcher) (t : Files.Tree)
    (files : List ParsedFile) : Draft.Reports (progress project m t files).notices
      ((contributions m files).map (·.route project t)) := by
  have hall := reports_addFiles files (follows_start project m t) fun key hkey => by
    simp [contributions, accepted] at hkey
  rw [List.nil_append] at hall
  exact hall

/-! ## Coverage -/

/-- The router of `a` has a verb for the method, and handlers if its comment names middlewares;
unless a method with the same key comes later that names none, and then the log says that the route
is declared more than once. -/
structure Covered (project : Project) (m : Matcher) (t : Files.Tree) (files : List ParsedFile)
    (a : Analysis) (log : List Notice) (c : Contribution) : Prop where
  verb : ∃ verb, a.router.verbs.get? (c.key project t).text = some verb
  handlers : c.handlers? ≠ none →
    (∃ handlers, a.router.middlewares.get? (c.key project t).text = some handlers) ∨
    Notice.repeatedRoute (c.key project t).text ∈ log ∧
      ∃ before after, contributions m files = before ++ c :: after ∧
        ∃ later ∈ after, later.key project t = c.key project t ∧ later.handlers? = none

/-- The methods that stand in the file of their type, if that is a controller, are covered. -/
def Covers (project : Project) (m : Matcher) (t : Files.Tree) (files : List ParsedFile)
    (a : Analysis) (log : List Notice) : Prop :=
  ∀ f ∈ files, ∀ decl ∈ f.source.types, Matcher.accepts decl m = true →
    ∀ method ∈ f.source.methodsOf decl.name,
      Covered project m t files a log ⟨⟨f, decl⟩, method⟩

/-- The methods of a controller have a verb, and handlers if their comments name middlewares, in
whatever files of the directory they and the type stand. -/
def CoversPackage (project : Project) (m : Matcher) (t : Files.Tree) (files : List ParsedFile)
    (a : Analysis) : Prop :=
  ∀ f ∈ files, ∀ g ∈ files, Path.parent? g.path = Path.parent? f.path →
    ∀ decl ∈ g.source.types, Matcher.accepts decl m = true →
      ∀ method ∈ f.source.methodsOf decl.name,
        (∃ verb, a.router.verbs.get?
          (Contribution.key project t ⟨⟨f, decl⟩, method⟩).text = some verb) ∧
        (Contribution.handlers? ⟨⟨f, decl⟩, method⟩ ≠ none → ∃ handlers, a.router.middlewares.get?
          (Contribution.key project t ⟨⟨f, decl⟩, method⟩).text = some handlers)

variable {c last : Contribution} {cs : List Contribution} {key : String}

theorem exists_split_of_lastContribution? (h : lastContribution? project t cs key = some last) :
    ∃ before after, cs = before ++ last :: after ∧
      ∀ d ∈ after, (d.key project t).text ≠ key := by
  obtain ⟨-, after, before, hsplit, hafter⟩ := List.find?_eq_some_iff_append.1 h
  refine ⟨before.reverse, after.reverse, ?_, fun d hd => ?_⟩
  · rw [← List.reverse_reverse cs, hsplit]
    simp
  · simpa using hafter d (List.mem_reverse.1 hd)

/-- A contribution is the last with its key or comes before that one. -/
theorem eq_or_exists_later (project : Project) (t : Files.Tree) (hc : c ∈ cs) : ∃ last,
    lastContribution? project t cs (c.key project t).text = some last ∧
      (last.key project t).text = (c.key project t).text ∧
      (last = c ∨ ∃ before after, cs = before ++ c :: after ∧ last ∈ after) := by
  cases hlast : lastContribution? project t cs (c.key project t).text with
  | none =>
    have hnone := List.find?_eq_none.1 hlast c (List.mem_reverse.2 hc)
    exact absurd (decide_eq_true rfl) hnone
  | some last =>
    refine ⟨last, rfl, (mem_of_lastContribution? hlast).2, ?_⟩
    obtain ⟨before, after, rfl, hafter⟩ := exists_split_of_lastContribution? hlast
    rcases List.mem_append.1 hc with hbefore | hc
    · obtain ⟨front, middle, rfl⟩ := List.append_of_mem hbefore
      exact .inr ⟨front, middle ++ last :: after, by simp, by simp⟩
    · rcases List.mem_cons.1 hc with rfl | hc
      · exact .inl rfl
      · exact absurd rfl (hafter c hc)

theorem two_le_countP (project : Project) (t : Files.Tree) {before after : List Contribution}
    (hlast : last ∈ after) (hkey : (last.key project t).text = (c.key project t).text) :
    2 ≤ ((before ++ c :: after).map (·.route project t)).countP
      (·.key.text = (c.key project t).text) := by
  have hpos : 0 < after.countP fun d => decide ((d.key project t).text = (c.key project t).text) :=
    List.countP_pos_iff.2 ⟨last, hlast, decide_eq_true hkey⟩
  rw [List.countP_map, List.countP_append, List.countP_cons]
  simp only [Function.comp_def, Contribution.key_route, decide_true, if_true]
  omega

variable {a : Analysis} {log : List Notice}

theorem covered_of_mem (h : Reads project m t files a)
    (hlog : ∀ n ∈ (progress project m t files).notices, n ∈ log)
    (hc : c ∈ contributions m files) : Covered project m t files a log c := by
  obtain ⟨last, hlast, hkey, hcases⟩ := eq_or_exists_later project t hc
  refine ⟨⟨last.verb, by rw [h.verbs, hlast]; rfl⟩, fun hhandlers => ?_⟩
  cases hnames : last.handlers? with
  | some handlers => exact .inl ⟨handlers, by rw [h.middlewares, hlast]; exact hnames⟩
  | none =>
    rcases hcases with rfl | ⟨before, after, hsplit, hmem⟩
    · exact absurd hnames hhandlers
    · refine .inr ⟨hlog _ (reports_progress project m t files _ ?_), before, after, hsplit, last,
        hmem, ?_, hnames⟩
      · rw [hsplit]
        exact two_le_countP project t hmem hkey
      · obtain ⟨himport, htype, hmethod⟩ :=
          h.keys last (mem_of_lastContribution? hlast).1 c hc hkey
        simp only [Contribution.key, himport, htype, hmethod]

/-- The router of an analysis that succeeds covers the methods of all controllers that stand in the
files of their types. -/
theorem covers_of_ofDirBy {dir : String} {s s' : Session}
    (h : (ofDirBy project m dir).perform s = (.ok a, s')) :
    ∃ files, ReadFrom s.tree (Scan.run s.tree dir).files files ∧
      Covers project m s.tree files a s'.log := by
  obtain ⟨-, files, hread, rfl, hlog⟩ := notices_of_ofDirBy_ok h
  refine ⟨files, hread, fun f hf decl hdecl haccepts method hmethod => ?_⟩
  obtain ⟨hmem, hreceiver⟩ := Go.SourceFile.mem_methodsOf.1 hmethod
  exact covered_of_mem (reads_result _ hread) hlog
    (mem_contributions.2 ⟨hf, hdecl, haccepts, hmem, hreceiver⟩)

/-- A controller with a method that is declared twice, and with one that is not. -/
def repeatedMethod : Files.Tree :=
  ⟨[(["a"], .dir), (["a", "controller"], .dir),
    (["a", "controller", "x.go"],
      .file (some ("package x\ntype AController int\n// @middleware Auth\n"
        ++ "func (a AController) Do()\nfunc (a AController) Do()\n"
        ++ "// @middleware Log\nfunc (a AController) End()\n")) 420)]⟩

/-- The method that is declared before it is declared once more. -/
def doMethod : Go.FuncDecl := ⟨"Do", some "AController", some ⟨[" @middleware Auth"]⟩⟩

/-- What stands in the file of `repeatedMethod`. -/
def repeatedFiles : List ParsedFile :=
  [⟨"/a/controller/x.go", ⟨"x", [⟨"AController", none⟩],
    [doMethod, ⟨"Do", some "AController", none⟩,
      ⟨"End", some "AController", some ⟨[" @middleware Log"]⟩⟩]⟩⟩]

theorem readFrom_repeatedFiles :
    ReadFrom repeatedMethod (Scan.run repeatedMethod "/a").files repeatedFiles :=
  ⟨by decide +kernel, List.forall_mem_singleton.2 ⟨_, rfl, by decide +kernel⟩⟩

theorem covers_repeatedMethod : ∃ a s',
    (ofDirBy (.usual "/" "m") .conventional "/a").perform ⟨repeatedMethod, []⟩ = (.ok a, s') ∧
    a.router.middlewares = [("m/a/controller.AController.End", ["middleware.Log"])] ∧
    ∃ files, ReadFrom repeatedMethod (Scan.run repeatedMethod "/a").files files ∧
      Covers (.usual "/" "m") .conventional repeatedMethod files a s'.log := by
  obtain ⟨log, hrun⟩ := perform_ofDirBy_of_readFrom (s := ⟨repeatedMethod, []⟩) (.usual "/" "m")
    .conventional readFrom_repeatedFiles
  exact ⟨_, _, hrun, by decide +kernel, covers_of_ofDirBy hrun⟩

/-- A controller whose method stands in another file of the package. -/
def splitController : Files.Tree :=
  ⟨[(["a"], .dir), (["a", "controller"], .dir),
    (["a", "controller", "x.go"], .file (some intController) 420),
    (["a", "controller", "y.go"],
      .file (some "package x\n// @middleware Auth\nfunc (a AController) Do()\n") 420)]⟩

/-- What stands in the files of `splitController`. -/
def splitFiles : List ParsedFile :=
  [⟨"/a/controller/x.go", ⟨"x", [⟨"AController", none⟩], []⟩⟩,
    ⟨"/a/controller/y.go", ⟨"x", [], [doMethod]⟩⟩]

theorem readFrom_splitFiles :
    ReadFrom splitController (Scan.run splitController "/a").files splitFiles :=
  ⟨by decide +kernel, List.forall_mem_cons.2
    ⟨⟨intController, by decide +kernel, parse_intController⟩,
      List.forall_mem_singleton.2
        ⟨"package x\n// @middleware Auth\nfunc (a AController) Do()\n", by decide +kernel,
          by decide +kernel⟩⟩⟩

/-- A method that stands in another file than its type has no verb, and one that is declared once
more without middlewares has no handlers. -/
theorem not_coversPackage_splitController :
    (∃ a s', (ofDirBy (.usual "/" "m") .conventional "/a").perform ⟨splitController, []⟩
        = (.ok a, s') ∧
      ReadFrom splitController (Scan.run splitController "/a").files splitFiles ∧
      ¬ CoversPackage (.usual "/" "m") .conventional splitController splitFiles a) ∧
    ∃ a s', (ofDirBy (.usual "/" "m") .conventional "/a").perform ⟨repeatedMethod, []⟩
        = (.ok a, s') ∧
      ReadFrom repeatedMethod (Scan.run repeatedMethod "/a").files repeatedFiles ∧
      ¬ CoversPackage (.usual "/" "m") .conventional repeatedMethod repeatedFiles a := by
  constructor
  · obtain ⟨log, hrun⟩ := perform_ofDirBy_of_readFrom (s := ⟨splitController, []⟩) (.usual "/" "m")
      .conventional readFrom_splitFiles
    refine ⟨_, _, hrun, readFrom_splitFiles, fun h => ?_⟩
    obtain ⟨⟨verb, hverb⟩, -⟩ := h splitFiles[1] (by simp [splitFiles]) splitFiles[0]
      (by simp [splitFiles]) (by decide +kernel) ⟨"AController", none⟩ (by decide) (by decide)
      doMethod (by decide)
    have hnone : (progress (.usual "/" "m") .conventional splitController
        splitFiles).draft.verbs.get? "m/a/controller.AController.Do" = none := by decide +kernel
    exact absurd (hnone.symm.trans hverb) nofun
  · obtain ⟨log, hrun⟩ := perform_ofDirBy_of_readFrom (s := ⟨repeatedMethod, []⟩) (.usual "/" "m")
      .conventional readFrom_repeatedFiles
    refine ⟨_, _, hrun, readFrom_repeatedFiles, fun h => ?_⟩
    obtain ⟨-, hhandlers⟩ := h repeatedFiles[0] (by simp [repeatedFiles]) repeatedFiles[0]
      (by simp [repeatedFiles]) rfl ⟨"AController", none⟩ (by decide) (by decide) doMethod
      (by decide)
    obtain ⟨handlers, hsome⟩ := hhandlers (by decide +kernel)
    have hnone : (progress (.usual "/" "m") .conventional repeatedMethod
        repeatedFiles).draft.middlewares.get? "m/a/controller.AController.Do" = none := by
      decide +kernel
    exact absurd (hnone.symm.trans hsome) nofun

end Analysis
end Routing
end RouteScribe
