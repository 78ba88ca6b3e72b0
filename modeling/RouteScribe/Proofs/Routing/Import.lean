import RouteScribe.Proofs.Routing.Contribution
import RouteScribe.Proofs.Routing.Registry

/-!
# RouteScribe.Proofs.Routing.Import

The imports of a router and the controllers that it registers. Each package with a controller is
imported once, under an alias that no other package has, and no other package is imported.

* `uses`: the import paths of the controllers, as often as there are controllers.
* `Analysis.Linked`: what the imports of an analysis are to its registrations.
* `linked_of_ofDirBy`: the imports and registrations of every analysis that succeeds are linked.
-/

namespace RouteScribe
namespace Routing

/-- The import paths of the controllers, one for each controller. -/
def uses (project : Project) (m : Matcher) (t : Files.Tree) (files : List ParsedFile) :
    List String :=
  (accepted m files).map (·.importPath project t)

/-- The import path of the package that a file belongs to. -/
def ParsedFile.importPath (project : Project) (t : Files.Tree) (f : ParsedFile) : String :=
  (ImportPath.ofFile t project.module project.root f.path).1.path

/-- The file declares a type that the rule `m` accepts. -/
def ParsedFile.hasController (m : Matcher) (f : ParsedFile) : Bool :=
  f.source.types.any (Matcher.accepts · m)

theorem accepted_append (m : Matcher) (files more : List ParsedFile) :
    accepted m (files ++ more) = accepted m files ++ accepted m more := by
  unfold accepted
  rw [List.flatMap_append]

theorem uses_append (project : Project) (m : Matcher) (t : Files.Tree)
    (files more : List ParsedFile) :
    uses project m t (files ++ more) = uses project m t files ++ uses project m t more := by
  unfold uses
  rw [accepted_append, List.map_append]

theorem uses_singleton (project : Project) (m : Matcher) (t : Files.Tree) (f : ParsedFile) :
    uses project m t [f]
      = List.replicate (accepted m [f]).length (f.importPath project t) := by
  refine List.eq_replicate_iff.2 ⟨by simp [uses], fun path hpath => ?_⟩
  obtain ⟨d, hd, rfl⟩ := List.mem_map.1 hpath
  have hfile : d.file = f := by
    obtain ⟨f', hf', hd⟩ := List.mem_flatMap.1 hd
    obtain ⟨decl, -, rfl⟩ := List.mem_map.1 hd
    exact List.mem_singleton.1 hf'
  rw [Declared.importPath, hfile]
  rfl

theorem Draft.registrations_addRoutes (rs : List Route) : ∀ d : Draft,
    (d.addRoutes rs).1.registrations = d.registrations := by
  induction rs with
  | nil =>
    intro d
    rfl
  | cons r rs ih =>
    intro d
    exact ih (d.addRoute r)

namespace Analysis

/-- The imports of an analysis are those that its registrations need, each once and under an alias
of its own. -/
structure Linked (project : Project) (m : Matcher) (t : Files.Tree) (files : List ParsedFile)
    (a : Analysis) : Prop where
  localName : ∀ (i : Nat) (h : i < a.router.imports.length),
    (a.router.imports[i]).localName = "controller" ++ toString i
  nodup : (a.router.imports.map (·.path)).Nodup
  controllers : a.controllers.map (fun c => (c.importPath, c.typeName))
    = (accepted m files).map fun d => (d.importPath project t, d.type.name)
  registrations : a.router.registrations = a.controllers.map fun c => ⟨c.localName, c.typeName⟩
  imported : ∀ c ∈ a.controllers, ∃ i ∈ a.router.imports,
    i.localName = c.localName ∧ i.path = c.importPath ∧
      ∀ j ∈ a.router.imports, j.localName = c.localName → j = i
  used : ∀ i ∈ a.router.imports, ∃ r ∈ a.router.registrations, r.localName = i.localName
  order : a.router.imports.map (·.localName)
    = (a.router.registrations.map (·.localName)).eraseDups
  paths : a.router.imports.map (·.path)
    = ((files.filter (·.hasController m)).map (·.importPath project t)).eraseDups

theorem Linked.exists_import_iff {project : Project} {m : Matcher} {t : Files.Tree}
    {files : List ParsedFile} {a : Analysis} (h : Linked project m t files a) {path : String} :
    (∃ i ∈ a.router.imports, i.path = path) ↔ ∃ c ∈ a.controllers, c.importPath = path := by
  constructor
  · rintro ⟨i, hi, rfl⟩
    obtain ⟨r, hr, hname⟩ := h.used i hi
    rw [h.registrations] at hr
    obtain ⟨c, hc, rfl⟩ := List.mem_map.1 hr
    obtain ⟨j, hj, -, hpath, honly⟩ := h.imported c hc
    obtain rfl := honly i hi hname.symm
    exact ⟨c, hc, hpath.symm⟩
  · rintro ⟨c, hc, rfl⟩
    obtain ⟨i, hi, -, hpath, -⟩ := h.imported c hc
    exact ⟨i, hi, hpath⟩

/-! ## Assembling -/

/-- The controller that a declaration is, after the given uses. -/
def controllerOf (project : Project) (t : Files.Tree) (us : List String) (d : Declared) :
    Controller :=
  ⟨d.type.name, d.importPath project t, Registry.aliasFor us (d.importPath project t)⟩

/-- The packages of the files looked at so far are numbered, and the registrations are those of
their controllers. -/
structure Numbered (project : Project) (m : Matcher) (t : Files.Tree) (files : List ParsedFile)
    (p : Progress) : Prop where
  registry : p.registry.Numbers (uses project m t files)
  registrations : p.draft.registrations = p.controllers.map fun c => ⟨c.localName, c.typeName⟩
  controllers : p.controllers
    = (accepted m files).map (controllerOf project t (uses project m t files))

variable {project : Project} {m : Matcher} {t : Files.Tree} {files : List ParsedFile}
  {p : Progress}

theorem map_controllerOf_append (project : Project) (m : Matcher) (t : Files.Tree)
    (files : List ParsedFile) (more : List String) :
    (accepted m files).map (controllerOf project t (uses project m t files ++ more))
      = (accepted m files).map (controllerOf project t (uses project m t files)) := by
  refine List.map_congr_left fun d hd => ?_
  have hmem : d.importPath project t ∈ uses project m t files := List.mem_map_of_mem hd
  rw [controllerOf, Registry.aliasFor_append hmem]
  rfl

theorem registrations_addControllers (source : Go.SourceFile) (cs : List Controller) :
    ∀ p : Progress, (addControllers source p cs).registry = p.registry ∧
      (addControllers source p cs).controllers = p.controllers ++ cs ∧
      (addControllers source p cs).draft.registrations
        = p.draft.registrations ++ cs.map fun c => ⟨c.localName, c.typeName⟩ := by
  induction cs with
  | nil =>
    intro p
    simp [addControllers]
  | cons c cs ih =>
    intro p
    unfold addControllers
    extract_lets routes
    obtain ⟨hregistry, hcontrollers, hregistrations⟩ := ih { p with
      draft := ((p.draft.addController c).addRoutes routes).1
      controllers := p.controllers ++ [c]
      notices := p.notices ++ verbNotices routes ++ ((p.draft.addController c).addRoutes routes).2 }
    refine ⟨hregistry, ?_, ?_⟩
    · rw [hcontrollers, List.append_assoc]
      rfl
    · rw [hregistrations, Draft.registrations_addRoutes]
      simp [Draft.addController]

/-- What is found in a file: its package is used once for each of its controllers. -/
theorem numbers_detect (project : Project) (m : Matcher) (t : Files.Tree) {r : Registry}
    {us : List String} (h : r.Numbers us) (f : ParsedFile) :
    ((detectorOf project m).detect t r f.path f.source).registry.Numbers
        (us ++ uses project m t [f]) ∧
      ((detectorOf project m).detect t r f.path f.source).controllers
        = (accepted m [f]).map (controllerOf project t (us ++ uses project m t [f])) := by
  have haccepted : accepted m [f]
      = (f.source.types.filter (Matcher.accepts · m)).map (⟨f, ·⟩) := by
    simp [accepted]
  rw [uses_singleton, haccepted, List.length_map]
  cases hdecls : f.source.types.filter (Matcher.accepts · m) with
  | nil =>
    simp only [Detector.detect, detectorOf, hdecls]
    simpa using h
  | cons decl decls =>
    simp only [Detector.detect, detectorOf, hdecls]
    obtain ⟨hregistry, halias⟩ := h.register (f.importPath project t)
    have hmem : f.importPath project t ∈ us ++ [f.importPath project t] :=
      List.mem_append_right _ List.mem_cons_self
    have hall : us ++ List.replicate (decl :: decls).length (f.importPath project t)
        = us ++ [f.importPath project t] ++ List.replicate decls.length (f.importPath project t) := by
      rw [List.length_cons, List.replicate_succ, List.append_cons]
    rw [hall]
    refine ⟨hregistry.append_replicate hmem _, ?_⟩
    rw [List.map_map]
    refine List.map_congr_left fun d _ => ?_
    have hpath : Declared.importPath project t ⟨f, d⟩ = f.importPath project t := rfl
    rw [Function.comp_apply, controllerOf, hpath, Registry.aliasFor_append hmem, ← halias]
    rfl

/-- Each file adds its registrations, and its package if it has a controller. -/
theorem numbered_addFile (h : Numbered project m t files p) (f : ParsedFile) :
    Numbered project m t (files ++ [f]) (addFile (detectorOf project m) t p f) := by
  obtain ⟨hnumbers, hfound⟩ := numbers_detect project m t h.registry f
  unfold addFile
  extract_lets found
  obtain ⟨hregistry, hcontrollers, hregistrations⟩ := registrations_addControllers f.source
    found.controllers { p with registry := found.registry, notices := p.notices ++ found.notices }
  refine ⟨?_, ?_, ?_⟩
  · rw [hregistry, uses_append]
    exact hnumbers
  · rw [hregistrations, hcontrollers, List.map_append, h.registrations]
  · rw [hcontrollers, uses_append, accepted_append, List.map_append, map_controllerOf_append,
      ← hfound, ← h.controllers]

theorem numbered_addFiles (fs : List ParsedFile) : ∀ {files : List ParsedFile} {p : Progress},
    Numbered project m t files p →
    Numbered project m t (files ++ fs) (addFiles (detectorOf project m) t p fs) := by
  induction fs with
  | nil =>
    intro files p h
    rw [List.append_nil]
    exact h
  | cons f fs ih =>
    intro files p h
    rw [List.append_cons]
    exact ih (numbered_addFile h f)

theorem numbered_progress (project : Project) (m : Matcher) (t : Files.Tree)
    (files : List ParsedFile) : Numbered project m t files (progress project m t files) := by
  have hstart : Numbered project m t []
      ⟨.empty, .empty project.middlewareImport, [], []⟩ := ⟨Registry.numbers_empty, rfl, rfl⟩
  have hall := numbered_addFiles files hstart
  rw [List.nil_append] at hall
  exact hall

/-! ## The result -/

/-- The packages used are those of the files with a controller. -/
theorem eraseDups_uses (project : Project) (m : Matcher) (t : Files.Tree)
    (files : List ParsedFile) : (uses project m t files).eraseDups
      = ((files.filter (·.hasController m)).map (·.importPath project t)).eraseDups := by
  induction files using List.reverseRecOn with
  | nil => rfl
  | append_singleton files f ih =>
    have hlength : (accepted m [f]).length = (f.source.types.filter (Matcher.accepts · m)).length := by
      simp [accepted]
    rw [uses_append, uses_singleton, List.filter_append, List.map_append, hlength]
    cases hdecls : f.source.types.filter (Matcher.accepts · m) with
    | nil =>
      have hnone : f.hasController m = false := by
        rw [ParsedFile.hasController, List.any_eq_false]
        exact fun decl hdecl => List.filter_eq_nil_iff.1 hdecls decl hdecl
      simpa [hnone] using ih
    | cons decl decls =>
      have hmem : decl ∈ f.source.types.filter (Matcher.accepts · m) := by simp [hdecls]
      have hsome : f.hasController m = true :=
        List.any_eq_true.2 ⟨decl, List.mem_filter.1 hmem⟩
      have hpath : f.importPath project t ∈ uses project m t files ++ [f.importPath project t] :=
        List.mem_append_right _ List.mem_cons_self
      rw [List.length_cons, List.replicate_succ, List.append_cons,
        Registry.eraseDups_append_replicate hpath, Registry.eraseDups_concat_congr ih]
      simp [hsome]

namespace Numbered

theorem localNames (h : Numbered project m t files p) : p.draft.registrations.map (·.localName)
    = (uses project m t files).map (Registry.aliasFor (uses project m t files)) := by
  rw [h.registrations, h.controllers, List.map_map, List.map_map, uses, List.map_map]
  rfl

/-- The aliases of the registrations, each once, are those of the imports. -/
theorem order (h : Numbered project m t files p) : p.registry.entries.map (·.localName)
    = (p.draft.registrations.map (·.localName)).eraseDups := by
  rw [h.localNames, h.registry.entries_eq, List.map_map,
    Registry.eraseDups_map fun a ha b _ => Registry.aliasFor_injective ha]
  rfl

theorem paths (h : Numbered project m t files p) :
    p.registry.entries.map (·.path) = (uses project m t files).eraseDups := by
  rw [h.registry.entries_eq, List.map_map]
  exact List.map_id _

theorem imported (h : Numbered project m t files p) {c : Controller} (hc : c ∈ p.controllers) :
    ∃ i ∈ p.registry.entries, i.localName = c.localName ∧ i.path = c.importPath ∧
      ∀ j ∈ p.registry.entries, j.localName = c.localName → j = i := by
  rw [h.controllers] at hc
  obtain ⟨d, hd, rfl⟩ := List.mem_map.1 hc
  have hpath : d.importPath project t ∈ uses project m t files := List.mem_map_of_mem hd
  rw [h.registry.entries_eq]
  refine ⟨_, List.mem_map_of_mem (List.mem_eraseDups.2 hpath), rfl, rfl, fun j hj heq => ?_⟩
  obtain ⟨path, hmem, rfl⟩ := List.mem_map.1 hj
  rw [Registry.aliasFor_injective (List.mem_eraseDups.1 hmem) heq]

theorem used (h : Numbered project m t files p) {i : Import} (hi : i ∈ p.registry.entries) :
    ∃ r ∈ p.draft.registrations, r.localName = i.localName := by
  have hmem : i.localName ∈ p.registry.entries.map (·.localName) := List.mem_map_of_mem hi
  rw [h.order, List.mem_eraseDups] at hmem
  exact List.mem_map.1 hmem

end Numbered

/-- The imports and registrations that files contribute are linked. -/
theorem linked_result (scan : Scan) (project : Project) (m : Matcher) (t : Files.Tree)
    (files : List ParsedFile) :
    Linked project m t files (result scan (progress project m t files)) := by
  have hall := numbered_progress project m t files
  refine ⟨fun i hi => ?_, ?_, ?_, hall.registrations, fun c hc => hall.imported hc,
    fun i hi => hall.used hi, hall.order, hall.paths.trans (eraseDups_uses project m t files)⟩
  · have hentries : (result scan (progress project m t files)).router.imports
        = (uses project m t files).eraseDups.mapIdx Registry.importAt := hall.registry.entries
    simp [hentries, Registry.importAt, Registry.aliasAt]
  · exact hall.paths ▸ Registry.nodup_eraseDups _
  · refine (congrArg (List.map _) hall.controllers).trans ?_
    rw [List.map_map]
    rfl

/-- The imports and registrations of an analysis that succeeds are linked. -/
theorem linked_of_ofDirBy {dir : String} {s s' : Session} {a : Analysis}
    (h : (ofDirBy project m dir).perform s = (.ok a, s')) :
    ∃ files, ReadFrom s.tree (Scan.run s.tree dir).files files ∧
      Linked project m s.tree files a := by
  obtain ⟨_, files, hread, rfl⟩ := of_ofDirBy_ok h
  exact ⟨files, hread, linked_result _ project m s.tree files⟩

/-- Two packages with controllers, one of them with a file that declares none. -/
def twoPackages : Files.Tree :=
  ⟨[(["a"], .dir), (["a", "controller"], .dir),
    (["a", "controller", "x.go"], .file (some "package x\ntype AController struct\x7b\x7d\n") 420),
    (["a", "controller", "y.go"], .file (some "package x\n") 420),
    (["b"], .dir), (["b", "controller"], .dir),
    (["b", "controller", "z.go"],
      .file (some "package z\ntype BController int\ntype CController int\n") 420)]⟩

theorem linked_twoPackages : ∃ a s',
    (ofDirBy (.usual "/" "m") .conventional "/").perform ⟨twoPackages, []⟩ = (.ok a, s') ∧
    a.router.imports = [⟨"m/a/controller", "controller0"⟩, ⟨"m/b/controller", "controller1"⟩] ∧
    ∃ files, ReadFrom twoPackages (Scan.run twoPackages "/").files files ∧
      Linked (.usual "/" "m") .conventional twoPackages files a := by
  have h : ((ofDirBy (.usual "/" "m") .conventional "/").perform
      ⟨twoPackages, []⟩).1.toOption.map (·.router.imports)
      = some [⟨"m/a/controller", "controller0"⟩, ⟨"m/b/controller", "controller1"⟩] := by
    decide +kernel
  rcases hrun : (ofDirBy (.usual "/" "m") .conventional "/").perform ⟨twoPackages, []⟩ with ⟨r, s'⟩
  rw [hrun] at h
  cases r with
  | error e => cases h
  | ok a => exact ⟨a, s', rfl, Option.some.inj h, linked_of_ofDirBy hrun⟩

end Analysis
end Routing
end RouteScribe
