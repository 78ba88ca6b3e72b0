import RouteScribe.Proofs.Routing.Generation
import RouteScribe.Proofs.Routing.Import
import RouteScribe.Proofs.Routing.Location

/-!
# RouteScribe.Proofs.Routing.Prefix

The package below which a router takes the paths of its routes. It is made of the name of the
command, the import paths are made of where the files are, and the two agree as long as no link
leads from the root to the controllers.

* `imports_below_apiImport`: the imports of a router are below that package.
-/

namespace RouteScribe
namespace Routing

open Files

theorem ImportPath.under_append {names names' : List String} (h : names ≠ []) (h' : names' ≠ [])
    (module : String) :
    under module (names ++ names')
      = Project.trimSlashes module ++ "/" ++ Path.ofSegments names ++ "/" ++ Path.ofSegments names' := by
  have happend := Path.ofSegments_append h h'
  obtain ⟨n, names, rfl⟩ := List.exists_cons_of_ne_nil h
  simp only [under, List.cons_append] at happend ⊢
  rw [← Path.ofSegments, happend]
  simp only [String.append_assoc]

theorem apiImport_eq (project : Project) {segments : List String} (hne : segments ≠ []) :
    project.apiImport (Path.ofSegments segments)
      = Project.trimSlashes project.module ++ "/" ++ Path.ofSegments (Project.apiNames segments) := by
  have htext : "/internal/" = "/" ++ "internal/" := by decide
  rw [Project.ofSegments_apiNames hne, Project.apiImport, htext]
  simp only [String.append_assoc]

namespace Analysis

variable {project : Project} {m : Matcher} {files : List ParsedFile} {t : Tree} {path : String}

theorem exists_file_of_mem_uses (h : path ∈ uses project m t files) :
    ∃ f ∈ files, f.importPath project t = path := by
  obtain ⟨d, hd, rfl⟩ := List.mem_map.1 h
  obtain ⟨f, hf, hd⟩ := List.mem_flatMap.1 hd
  obtain ⟨decl, -, rfl⟩ := List.mem_map.1 hd
  exact ⟨f, hf, rfl⟩

/-- The imports of a router are below the package that it takes from their paths. -/
theorem imports_below_apiImport (project : Project) (marked : Bool) (segments : List String)
    {p : Place} {s s' : Session} {a : Analysis} (hne : segments ≠ [])
    (hsegments : ∀ n ∈ segments, Path.IsName n) (hw : s.tree.WellFormed)
    (hroot : s.tree.find true project.root = .ok (p, .dir))
    (hlinks : s.tree.Unlinked p (Project.apiNames segments))
    (h : (ofCommand project marked (Path.ofSegments segments)).perform s = (.ok a, s')) :
    ∀ i ∈ a.router.imports, ∃ names, Scan.dirName ∈ names ∧
      i.path = project.apiImport (Path.ofSegments segments) ++ "/" ++ Path.ofSegments names := by
  intro i hi
  obtain ⟨-, files, hread, rfl⟩ := of_ofDirBy_ok h
  have hpaths := (numbered_progress project (matcher marked) s.tree files).paths
  have huses : i.path ∈ uses project (matcher marked) s.tree files := by
    rw [← List.mem_eraseDups, ← hpaths]
    exact List.mem_map_of_mem hi
  obtain ⟨f, hf, hpath⟩ := exists_file_of_mem_uses huses
  have hfile : f.path ∈ (Scan.run s.tree (project.apiDir (Path.ofSegments segments))).files :=
    hread.1 ▸ List.mem_map_of_mem hf
  obtain ⟨text, htext, -⟩ := hread.2 f hf
  obtain ⟨q, mode, hfind⟩ := Tree.readText_eq_ok_iff.1 htext
  obtain ⟨-, -, k, henters⟩ := Tree.of_find_dir hroot
  rw [project.apiDir_eq_foldl hne hsegments] at hfile
  obtain ⟨k', p', names, henters', -, hfound, hwhere, hunlinked, hnames⟩ := Scan.of_mem_files
    (fun _ _ hp => henters.unique hp ▸ hlinks) (Project.isName_of_mem_apiNames hsegments)
    (Project.apiNames_ne_nil _) hw (by simp [Project.getLast?_apiNames, Scan.dirName]) hfile
  obtain rfl := henters.unique henters'
  have hinside : Scan.dirName ∈ names.dropLast :=
    ((Scan.isFound_iff hw).1 hfound).2.resolve_left id
  obtain ⟨init, n, rfl⟩ : ∃ init n, names = init ++ [n] := by
    refine Scan.exists_concat ?_
    rintro rfl
    cases hinside
  rw [List.dropLast_concat] at hinside
  rw [← List.append_assoc] at hwhere hunlinked hnames
  refine ⟨init, hinside, ?_⟩
  have hway : Project.apiNames segments ++ init ≠ [] := by simp [Project.apiNames_ne_nil]
  rw [hwhere] at hfind
  rw [← hpath, ParsedFile.importPath, hwhere,
    Scan.ofFile_pathOf hw hroot hunlinked hnames hway hfind, apiImport_eq project hne]
  exact ImportPath.under_append (Project.apiNames_ne_nil _) (List.ne_nil_of_mem hinside) _

/-- A project with a command whose name has two segments. -/
def nestedCommand : Tree :=
  ⟨[(["internal"], .dir), (["internal", "a"], .dir), (["internal", "a", "b"], .dir),
    (["internal", "a", "b", "transport"], .dir), (["internal", "a", "b", "transport", "http"], .dir),
    (["internal", "a", "b", "transport", "http", "api"], .dir),
    (["internal", "a", "b", "transport", "http", "api", "v1"], .dir),
    (["internal", "a", "b", "transport", "http", "api", "v1", "controller"], .dir),
    (["internal", "a", "b", "transport", "http", "api", "v1", "controller", "x.go"],
      .file (some intController) 420)]⟩

theorem imports_nestedCommand : ∃ a s',
    (ofCommand (.usual "/" "m") false "a/b").perform ⟨nestedCommand, []⟩ = (.ok a, s') ∧
    a.router.imports.length = 1 ∧ ∀ i ∈ a.router.imports, ∃ names, Scan.dirName ∈ names ∧
      i.path = (Project.usual "/" "m").apiImport "a/b" ++ "/" ++ Path.ofSegments names := by
  have hread : ReadFrom nestedCommand
      (Scan.run nestedCommand ((Project.usual "/" "m").apiDir "a/b")).files
      [⟨"/internal/a/b/transport/http/api/v1/controller/x.go",
        ⟨"x", [⟨"AController", none⟩], []⟩⟩] :=
    ⟨by decide +kernel, List.forall_mem_singleton.2 ⟨intController, by decide +kernel, parse_intController⟩⟩
  have hlinks : nestedCommand.Unlinked [] (Project.apiNames ["a", "b"]) := by
    intro w hne _ target hget
    have hmem := Tree.mem_entries_of_get? hget (by simpa using hne)
    simp [nestedCommand] at hmem
  obtain ⟨log, hrun⟩ := perform_ofDirBy_of_readFrom (s := ⟨nestedCommand, []⟩) (.usual "/" "m")
    (matcher false) hread
  refine ⟨_, _, hrun, by decide +kernel, ?_⟩
  exact imports_below_apiImport (.usual "/" "m") false ["a", "b"] (by simp) (by decide)
    (by decide +kernel) rfl hlinks hrun

/-- A command whose directory is a link that leads out of the project. -/
def linkedCommand : Tree :=
  ⟨[(["p"], .dir), (["p", "internal"], .dir), (["p", "internal", "c"], .link "../../q"),
    (["q"], .dir), (["q", "transport"], .dir), (["q", "transport", "http"], .dir),
    (["q", "transport", "http", "api"], .dir),
    (["q", "transport", "http", "api", "controller"], .dir),
    (["q", "transport", "http", "api", "controller", "x.go"],
      .file (some intController) 420)]⟩

/-- A package outside of the project is named by where it is, which is not below the package of the
command. -/
theorem not_imports_linkedCommand : linkedCommand.WellFormed ∧
    linkedCommand.find true "/p" = .ok (["p"], .dir) ∧ ∃ a s',
      (ofCommand (.usual "/p" "m") false "c").perform ⟨linkedCommand, []⟩ = (.ok a, s') ∧
      ∃ i ∈ a.router.imports, ∀ rest, i.path ≠ (Project.usual "/p" "m").apiImport "c" ++ "/" ++ rest := by
  have hread : ReadFrom linkedCommand
      (Scan.run linkedCommand ((Project.usual "/p" "m").apiDir "c")).files
      [⟨"/p/internal/c/transport/http/api/controller/x.go", ⟨"x", [⟨"AController", none⟩], []⟩⟩] :=
    ⟨by decide +kernel, List.forall_mem_singleton.2 ⟨intController, by decide +kernel, parse_intController⟩⟩
  obtain ⟨log, hrun⟩ := perform_ofDirBy_of_readFrom (s := ⟨linkedCommand, []⟩) (.usual "/p" "m")
    (matcher false) hread
  refine ⟨by decide +kernel, by rfl, _, _, hrun,
    ⟨"m/q/transport/http/api/controller", "controller0"⟩, by decide +kernel, fun rest heq => ?_⟩
  have hprefix : ((Project.usual "/p" "m").apiImport "c" ++ "/").toList
      <+: "m/q/transport/http/api/controller".toList := by
    dsimp only at heq
    rw [heq]
    simp only [String.toList_append]
    exact List.prefix_append _ _
  exact absurd hprefix (by decide)

end Analysis

end Routing
end RouteScribe
