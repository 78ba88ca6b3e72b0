import Mathlib.Data.List.Forall2
import RouteScribe.Proofs.Files.Replacement
import RouteScribe.Proofs.Routing.Contribution

/-!
# RouteScribe.Proofs.Routing.Generation

How the generation of a router ends. The source files are read in the order of the scan, and the
first that cannot be read decides; until all are read nothing is written.

* `fault?`: why a source file cannot be read.
* `perform_ofDirBy_of_fault`, `perform_ofDirBy_of_readable`: the two ends of an analysis.
* `generate_refused`: what a generation that fails leaves behind.
-/

namespace RouteScribe
namespace Routing
namespace Analysis

open Files

/-- Why the source file at `path` cannot be read; none if it can. -/
def fault? (t : Tree) (path : String) : Option Failure :=
  match t.readText path with
  | .error r => some (.io path r)
  | .ok text =>
    match Go.SourceFile.parse text with
    | .error e => some (.parse path e)
    | .ok _ => none

theorem perform_parseFile_of_fault {path : String} {s : Session} {f : Failure}
    (h : fault? s.tree path = some f) : (Work.parseFile path).perform s = (.error f, s) := by
  rw [Work.perform_parseFile]
  unfold fault? at h
  cases htext : s.tree.readText path with
  | error r =>
    rw [htext] at h
    cases h
    rfl
  | ok text =>
    rw [htext] at h
    dsimp only at h ⊢
    cases hparse : Go.SourceFile.parse text with
    | error e =>
      rw [hparse] at h
      cases h
      rfl
    | ok source =>
      rw [hparse] at h
      cases h

theorem perform_parseFile_of_readable {path : String} {s : Session}
    (h : fault? s.tree path = none) : ∃ text source, s.tree.readText path = .ok text ∧
      Go.SourceFile.parse text = .ok source ∧
      (Work.parseFile path).perform s = (.ok source, s) := by
  rw [Work.perform_parseFile]
  unfold fault? at h
  cases htext : s.tree.readText path with
  | error r =>
    rw [htext] at h
    cases h
  | ok text =>
    rw [htext] at h
    dsimp only at h ⊢
    cases hparse : Go.SourceFile.parse text with
    | error e =>
      rw [hparse] at h
      cases h
    | ok source => exact ⟨text, source, rfl, hparse, rfl⟩

theorem perform_readAll_of_fault (paths : List String) {s : Session} {f : Failure}
    (h : paths.findSome? (fault? s.tree) = some f) :
    (readAll paths).perform s = (.error f, s) := by
  induction paths with
  | nil => cases h
  | cons path paths ih =>
    rw [List.findSome?_cons] at h
    rw [readAll, Work.perform_bind]
    cases hpath : fault? s.tree path with
    | some f' =>
      rw [hpath] at h
      cases h
      rw [perform_parseFile_of_fault hpath]
    | none =>
      rw [hpath] at h
      obtain ⟨text, source, -, -, hrun⟩ := perform_parseFile_of_readable hpath
      rw [hrun]
      dsimp only
      rw [Work.perform_bind, ih h]

theorem perform_readAll_of_readable (paths : List String) {s : Session}
    (h : ∀ path ∈ paths, fault? s.tree path = none) :
    ∃ files, ReadFrom s.tree paths files ∧ (readAll paths).perform s = (.ok files, s) := by
  induction paths with
  | nil => exact ⟨[], ⟨rfl, nofun⟩, rfl⟩
  | cons path paths ih =>
    obtain ⟨hpath, hpaths⟩ := List.forall_mem_cons.1 h
    obtain ⟨text, source, htext, hparse, hrun⟩ := perform_parseFile_of_readable hpath
    obtain ⟨files, ⟨hmap, hfiles⟩, hrest⟩ := ih hpaths
    refine ⟨⟨path, source⟩ :: files, ⟨congrArg (path :: ·) hmap, fun f hf => ?_⟩, ?_⟩
    · rcases List.mem_cons.1 hf with rfl | hf
      · exact ⟨text, htext, hparse⟩
      · exact hfiles f hf
    · rw [readAll, Work.perform_bind, hrun]
      dsimp only
      rw [Work.perform_bind, hrest]
      rfl

theorem fault?_eq_none_of_readFrom {t : Tree} {paths : List String} {files : List ParsedFile}
    (h : ReadFrom t paths files) : ∀ path ∈ paths, fault? t path = none := by
  intro path hpath
  rw [← h.1] at hpath
  obtain ⟨f, hf, rfl⟩ := List.mem_map.1 hpath
  obtain ⟨text, htext, hparse⟩ := h.2 f hf
  simp only [fault?, htext, hparse]

theorem readFrom_unique {t : Tree} {paths : List String} : ∀ {files files' : List ParsedFile},
    ReadFrom t paths files → ReadFrom t paths files' → files = files' := by
  induction paths with
  | nil =>
    rintro files files' ⟨hmap, -⟩ ⟨hmap', -⟩
    rw [List.map_eq_nil_iff.1 hmap, List.map_eq_nil_iff.1 hmap']
  | cons path paths ih =>
    rintro files files' ⟨hmap, hfiles⟩ ⟨hmap', hfiles'⟩
    obtain ⟨f, rest, rfl, hf, hrest⟩ := List.map_eq_cons_iff.1 hmap
    obtain ⟨f', rest', rfl, hf', hrest'⟩ := List.map_eq_cons_iff.1 hmap'
    obtain ⟨text, htext, hparse⟩ := hfiles f List.mem_cons_self
    obtain ⟨text', htext', hparse'⟩ := hfiles' f' List.mem_cons_self
    have hsource : f.source = f'.source := by
      rw [hf] at htext
      rw [hf', htext] at htext'
      cases htext'
      rw [hparse] at hparse'
      exact Except.ok.inj hparse'
    have hfirst : f = f' := by
      cases f
      cases f'
      cases hsource
      cases hf
      cases hf'
      rfl
    rw [hfirst, ih ⟨hrest, fun g hg => hfiles g (List.mem_cons_of_mem _ hg)⟩
      ⟨hrest', fun g hg => hfiles' g (List.mem_cons_of_mem _ hg)⟩]

/-! ## Analyses -/

variable {s : Session} {dir : String}

/-- An analysis that comes to a file that cannot be read fails, and changes no file. -/
theorem perform_ofDirBy_of_fault (project : Project) (m : Matcher) {f : Failure}
    (h : (Scan.run s.tree dir).files.findSome? (fault? s.tree) = some f) :
    ∃ log, (ofDirBy project m dir).perform s = (.error f, ⟨s.tree, log⟩) := by
  have hread : ∀ log, (readAll (Scan.run s.tree dir).files).perform ⟨s.tree, log⟩
      = (.error f, ⟨s.tree, log⟩) := fun log => perform_readAll_of_fault (s := ⟨s.tree, log⟩) _ h
  unfold ofDirBy
  simp only [Work.perform_bind, Work.perform_report, Work.perform_tree, Work.perform_reportAll,
    hread]
  exact ⟨_, rfl⟩

theorem perform_ofDirBy_of_readable (project : Project) (m : Matcher)
    (h : ∀ path ∈ (Scan.run s.tree dir).files, fault? s.tree path = none) :
    ∃ files log, ReadFrom s.tree (Scan.run s.tree dir).files files ∧
      (ofDirBy project m dir).perform s
        = (.ok (result (Scan.run s.tree dir) (progress project m s.tree files)),
          ⟨s.tree, log⟩) := by
  obtain ⟨files, hfiles, -⟩ := perform_readAll_of_readable (s := s) _ h
  have hread : ∀ log, (readAll (Scan.run s.tree dir).files).perform ⟨s.tree, log⟩
      = (.ok files, ⟨s.tree, log⟩) := by
    intro log
    obtain ⟨files', hfiles', hrun⟩ := perform_readAll_of_readable (s := ⟨s.tree, log⟩) _ h
    rw [hrun, readFrom_unique hfiles' hfiles]
  unfold ofDirBy
  simp only [Work.perform_bind, Work.perform_report, Work.perform_tree, Work.perform_reportAll,
    hread]
  split
  · exact ⟨files, _, hfiles, rfl⟩
  · exact ⟨files, _, hfiles, rfl⟩

theorem perform_ofDirBy_of_readFrom (project : Project) (m : Matcher) {files : List ParsedFile}
    (h : ReadFrom s.tree (Scan.run s.tree dir).files files) :
    ∃ log, (ofDirBy project m dir).perform s
      = (.ok (result (Scan.run s.tree dir) (progress project m s.tree files)), ⟨s.tree, log⟩) := by
  obtain ⟨files', log, hread, hrun⟩ :=
    perform_ofDirBy_of_readable project m (fault?_eq_none_of_readFrom h)
  obtain rfl := readFrom_unique hread h
  exact ⟨log, hrun⟩

/-- A source file with a controller that has no methods. -/
def intController : String := "package x\ntype AController int\n"

theorem parse_intController :
    Go.SourceFile.parse intController = .ok ⟨"x", [⟨"AController", none⟩], []⟩ := by decide +kernel

theorem addFile_congr {t t' : Tree} {d d' : Detector} {f f' : ParsedFile}
    (hmatcher : d'.matcher = d.matcher) (hsource : f'.source = f.source)
    (h : ImportPath.ofFile t' d'.module d'.root f'.path
      = ImportPath.ofFile t d.module d.root f.path) (p : Progress) :
    addFile d' t' p f' = addFile d t p f := by
  simp only [addFile, Detector.detect, hmatcher, hsource, h]

/-- Files with the same declarations in the same packages contribute the same. -/
theorem addFiles_congr {t t' : Tree} {d d' : Detector} {files files' : List ParsedFile}
    (hmatcher : d'.matcher = d.matcher)
    (h : List.Forall₂ (fun f' f => f'.source = f.source ∧
      ImportPath.ofFile t' d'.module d'.root f'.path
        = ImportPath.ofFile t d.module d.root f.path) files' files) (p : Progress) :
    addFiles d' t' p files' = addFiles d t p files := by
  induction h generalizing p with
  | nil => rfl
  | cons hf _ ih =>
    simp only [addFiles, List.foldl_cons] at ih ⊢
    rw [addFile_congr hmatcher hf.1 hf.2, ih]

/-! ## Writing -/

/-- How the writing of a router ends, by what its template gave. -/
def written (dest : String) (s : Session) :
    Except Template.Fault String → Except Failure String × Session
  | .error e => (.error (.template e), s)
  | .ok text =>
    match s.tree.write dest text with
    | (t, some (p, r)) => (.error (.io p r), { s with tree := t })
    | (t, none) => (.ok dest, ⟨t, s.log ++ [.wrote dest]⟩)

theorem perform_rendered (dest : String) (s : Session) (source : Except Template.Fault String) :
    (do
      Work.renderTo dest source
      Work.report (.wrote dest)
      pure dest : Work String).perform s = written dest s source := by
  rw [Work.perform_bind]
  cases source with
  | error e => rfl
  | ok text =>
    rw [Work.renderTo_ok, written, Work.perform_write]
    rcases s.tree.write dest text with ⟨t, refused⟩
    cases refused with
    | none => rfl
    | some refusal => rfl

theorem perform_writeRouter (project : Project) (command : String) (a : Analysis) (s : Session) :
    (writeRouter project command a).perform s
      = written (Path.join (project.routerDir command) routerFile) s
        (a.router.sheet (project.apiImport command)).source := by
  unfold writeRouter
  exact perform_rendered _ _ _

theorem moreDirs_of_written {dest : String} {s s' : Session} {f : Failure}
    {source : Except Template.Fault String} (h : written dest s source = (.error f, s')) :
    Tree.MoreDirs s.tree s'.tree := by
  cases source with
  | error e =>
    cases h
    exact .refl s.tree
  | ok text =>
    simp only [written] at h
    rcases hwrite : s.tree.write dest text with ⟨t, refused⟩
    rw [hwrite] at h
    cases refused with
    | none => cases h
    | some refusal =>
      cases h
      exact Tree.moreDirs_of_write_refused hwrite

/-- A generation fails with the fault of the first source file that cannot be read, and then the
file system is what it was. If all can be read and the router cannot be written, the regular files
are what they were. -/
theorem generate_refused (project : Project) (marked : Bool) (command : String) (s : Session) :
    ((∃ path ∈ (Scan.run s.tree (project.apiDir command)).files, fault? s.tree path ≠ none) →
      ∃ before path after f log,
        (Scan.run s.tree (project.apiDir command)).files = before ++ path :: after ∧
        (∀ q ∈ before, fault? s.tree q = none) ∧ fault? s.tree path = some f ∧
        (generate project marked command).perform s = (.error f, ⟨s.tree, log⟩)) ∧
    ∀ a s₁ f s₂, (ofCommand project marked command).perform s = (.ok a, s₁) →
      (writeRouter project command a).perform s₁ = (.error f, s₂) →
      (generate project marked command).perform s = (.error f, s₂) ∧
        ∀ p text mode, s₂.tree.get? p = some (.file text mode)
          ↔ s.tree.get? p = some (.file text mode) := by
  refine ⟨fun ⟨path, hpath, hfault⟩ => ?_, fun a s₁ f s₂ hanalysis hwrite => ⟨?_, ?_⟩⟩
  · obtain ⟨f, hf⟩ : ∃ f,
        (Scan.run s.tree (project.apiDir command)).files.findSome? (fault? s.tree) = some f := by
      rw [← Option.isSome_iff_exists, List.findSome?_isSome_iff]
      exact ⟨path, hpath, Option.isSome_iff_ne_none.2 hfault⟩
    obtain ⟨before, path, after, hsplit, hfirst, hbefore⟩ := List.findSome?_eq_some_iff.1 hf
    obtain ⟨log, hrun⟩ := perform_ofDirBy_of_fault project (matcher marked) hf
    refine ⟨before, path, after, f, log, hsplit, hbefore, hfirst, ?_⟩
    exact Work.perform_bind_of_error hrun
  · exact (Work.perform_bind_of_ok hanalysis).trans (Work.perform_bind_of_error hwrite)
  · have htree : s₁.tree = s.tree := (of_ofDirBy_ok hanalysis).1
    rw [perform_writeRouter] at hwrite
    have hmore := moreDirs_of_written hwrite
    rw [htree] at hmore
    exact fun p text mode => hmore.file_iff

/-- A project with a source file that is no text, and a project whose router is a directory. -/
def refusedTrees : Tree × Tree :=
  (⟨[(["internal"], .dir), (["internal", "c"], .dir), (["internal", "c", "transport"], .dir),
      (["internal", "c", "transport", "http"], .dir),
      (["internal", "c", "transport", "http", "api"], .dir),
      (["internal", "c", "transport", "http", "api", "controller"], .dir),
      (["internal", "c", "transport", "http", "api", "controller", "a.go"], .file none 420)]⟩,
    ⟨[(["internal"], .dir), (["internal", "c"], .dir), (["internal", "c", "transport"], .dir),
      (["internal", "c", "transport", "http"], .dir),
      (["internal", "c", "transport", "http", "router"], .dir),
      (["internal", "c", "transport", "http", "router", "router.go"], .dir)]⟩)

theorem generate_refusedTrees :
    (∃ log, (generate (.usual "/" "m") false "c").perform ⟨refusedTrees.1, []⟩
      = (.error (.io "/internal/c/transport/http/api/controller/a.go" .notText),
        ⟨refusedTrees.1, log⟩)) ∧
    ∃ f s₂, (generate (.usual "/" "m") false "c").perform ⟨refusedTrees.2, []⟩ = (.error f, s₂) ∧
      ∀ p text mode, s₂.tree.get? p = some (.file text mode)
        ↔ refusedTrees.2.get? p = some (.file text mode) := by
  constructor
  · have hscan : (Scan.run refusedTrees.1 "/internal/c/transport/http/api").files
        = ["/internal/c/transport/http/api/controller/a.go"] := by decide +kernel
    have hfault : fault? refusedTrees.1 "/internal/c/transport/http/api/controller/a.go"
        = some (.io "/internal/c/transport/http/api/controller/a.go" .notText) := by decide +kernel
    have hdir : (Project.usual "/" "m").apiDir "c" = "/internal/c/transport/http/api" := by
      decide +kernel
    obtain ⟨before, path, after, f, log, hsplit, -, hf, hrun⟩ :=
      (generate_refused (.usual "/" "m") false "c" ⟨refusedTrees.1, []⟩).1
        ⟨_, by rw [hdir, hscan]; exact List.mem_cons_self, by rw [hfault]; exact nofun⟩
    rw [hdir, hscan] at hsplit
    obtain rfl : path = "/internal/c/transport/http/api/controller/a.go" :=
      List.mem_singleton.1 (hsplit ▸ List.mem_append_right _ List.mem_cons_self)
    rw [hfault] at hf
    cases hf
    exact ⟨log, hrun⟩
  · have hscan : (Scan.run refusedTrees.2 ((Project.usual "/" "m").apiDir "c")).files = [] := by
      decide +kernel
    obtain ⟨files, log, -, hanalysis⟩ := perform_ofDirBy_of_readable
      (s := ⟨refusedTrees.2, []⟩) (.usual "/" "m") (matcher false) (by
        rw [hscan]
        exact nofun)
    -- What the template gives does not matter: no text can be written over a directory.
    have hdest : Path.join ((Project.usual "/" "m").routerDir "c") routerFile
        = "/internal/c/transport/http/router/router.go" := by decide +kernel
    have hdirs : refusedTrees.2.makeDirs (Tree.directoryOf
        "/internal/c/transport/http/router/router.go") = (refusedTrees.2, none) := by
      decide +kernel
    have hplace : (refusedTrees.2.place false (Tree.dropSlashes
        "/internal/c/transport/http/router/router.go")).toOption
          = some ["internal", "c", "transport", "http", "router", "router.go"] := by decide +kernel
    have hwritten : ∀ source, ∃ f s₂, written
        (Path.join ((Project.usual "/" "m").routerDir "c") routerFile) ⟨refusedTrees.2, log⟩ source
          = (.error f, s₂) := by
      intro source
      cases source with
      | error e => exact ⟨_, _, rfl⟩
      | ok text =>
        rw [hdest]
        rcases hwrite : refusedTrees.2.write "/internal/c/transport/http/router/router.go" text
          with ⟨t, _ | refused⟩
        · obtain ⟨t₁, p, hmade, hp, hdir, -⟩ := Tree.of_write_ok hwrite
          rw [hdirs] at hmade
          cases hmade
          rw [hp] at hplace
          cases hplace
          exact absurd (by decide +kernel) hdir
        · exact ⟨.io refused.1 refused.2, ⟨t, log⟩, by simp only [written, hwrite]⟩
    obtain ⟨f, s₂, hwrite⟩ := hwritten _
    obtain ⟨hrun, hfiles⟩ := (generate_refused (.usual "/" "m") false "c" ⟨refusedTrees.2, []⟩).2
      _ _ f s₂ hanalysis ((perform_writeRouter _ _ _ _).trans hwrite)
    exact ⟨f, s₂, hrun, hfiles⟩

end Analysis
end Routing
end RouteScribe
