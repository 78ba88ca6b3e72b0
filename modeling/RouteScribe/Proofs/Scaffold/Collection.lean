import RouteScribe.Proofs.Routing.Location
import RouteScribe.Proofs.Scaffold.Name

/-!
# RouteScribe.Proofs.Scaffold.Collection

New controllers are where routers look for them. The directory of a controller is one for
controllers, and a scan goes through all directories that are not hidden, so only a route through a
hidden directory leads to a file that is not found.

* `Located.path_eq_pathOf`: the names that lead to the file of a controller.
* `find_apiDir`: the directory of the controllers is there if something below it is.
* `mem_files_of_locate`: the file is found.
* `not_mem_files_hiddenRoute`: it is not if it is in a hidden directory.
-/

namespace RouteScribe

namespace Scaffold

open Files Routing

variable {project : Project} {command route name : String} {l : Location} {dirs : List String}
  {t : Tree}

namespace Located

variable (h : Located project command route l dirs name)

include h in
theorem isName_of_mem (hdirs : ∀ s ∈ dirs, s ≠ "." ∧ s ≠ "..")
    (hnul : '\x00' ∉ l.path.toList) : ∀ n ∈ dirs ++ ["controller", name ++ ".go"], Path.IsName n := by
  have hnul' : ∀ s ∈ dirs ++ [name ++ ".go"], '\x00' ∉ s.toList := fun s hs hc =>
    hnul (Path.mem_toList_of_mem_segments (h.mem_segments_path hs) hc)
  intro n hn
  rcases List.mem_append.1 hn with hn | hn
  · exact ⟨h.ne_empty n (List.mem_append_left _ hn), (hdirs n hn).1, (hdirs n hn).2,
      h.slash_notMem (List.mem_append_left _ hn), hnul' n (List.mem_append_left _ hn)⟩
  · rcases List.mem_cons.1 hn with rfl | hn
    · exact isName_controller
    · obtain rfl := List.mem_singleton.1 hn
      refine h.isName_file fun hc => hnul' (name ++ ".go") (by simp) ?_
      rw [String.toList_append]
      exact List.mem_append_left _ hc

include h in
/-- Names that the file system takes lead from the directory of the controllers to the file. -/
theorem path_eq_pathOf (hnames : ∀ n ∈ dirs, Path.IsName n) : l.path
    = Scan.pathOf (project.apiDir command) (dirs ++ ["controller", name ++ ".go"]) := by
  rw [h.path, Scan.pathOf, List.foldl_append, controllerDir]
  split
  next hnil =>
    rw [hnil]
    rfl
  next hne =>
    rw [append, Path.join_ofSegments hne hnames]
    rfl

end Located

/-! ## Scans -/

theorem nameExtension?_go (hne : name ≠ "") : Path.nameExtension? (name ++ ".go") = some "go" := by
  have hstem : name.toList.reverse ≠ [] := by simpa using hne
  simp [Path.nameExtension?, hstem]

theorem names_ne_dots_of_not_isHidden {s : String} (h : Scan.isHidden s = false) :
    s ≠ "." ∧ s ≠ ".." := by
  constructor <;> rintro rfl <;> exact absurd h (by decide)

theorem apiNames_ne_dots (hcommand : ".." ∉ Path.segments command) :
    ∀ s ∈ Project.apiNames (Path.moves command), s ≠ "." ∧ s ≠ ".." := by
  have hmoves : ∀ s ∈ Path.moves command, s ≠ "." ∧ s ≠ ".." := by
    intro s hs
    obtain ⟨hmem, hdot⟩ := List.mem_filter.1 hs
    refine ⟨?_, fun hdots => hcommand (hdots ▸ hmem)⟩
    rintro rfl
    simp at hdot
  intro s hs
  simp only [Project.apiNames, List.cons_append, List.mem_cons, List.mem_append, List.not_mem_nil,
    or_false] at hs
  rcases hs with rfl | hs | rfl | rfl | rfl
  · decide
  · exact hmoves s hs
  · decide
  · decide
  · decide

/-- The directory of the controllers of a command, if something below it is found. -/
theorem find_apiDir {names : Place} {p : Place} {e : Entry}
    (hlinks : Analysis.LinkFree t project.root) (hcommand : ".." ∉ Path.segments command)
    (hnames : ∀ n ∈ names, Path.IsName n) (hne : names ≠ [])
    (h : t.find true (Scan.pathOf (project.apiDir command) names) = .ok (p, e)) :
    ∃ d, t.find false (project.apiDir command) = .ok (d, .dir) ∧ t.Unlinked d names ∧
      ∃ k, t.Enters linkLimit [] (Path.moves (project.apiDir command)) k d := by
  have hdots := apiNames_ne_dots hcommand
  have hallowed : Tree.Allowed (project.apiDir command) := by
    refine Scan.allowed_of_allowed_pathOf hnames ?_ (Tree.of_place_ok (Tree.find_eq_ok_iff.1 h).1).1
    rw [project.apiDir_eq_join]
    exact Path.join_name_ne_empty _ (by decide)
  obtain ⟨k, d, henters⟩ := Scan.enters_of_find_pathOf hnames hne h
  have hway := henters
  rw [project.moves_apiDir] at hway
  obtain ⟨k₁, root, hroot, hway⟩ := Tree.of_enters_append hway
  obtain ⟨rfl, -, -, hdirs⟩ := hway.eq_append hdots (hlinks.unlinked hroot _)
  refine ⟨_, ?_, fun w hwne _ target => ?_, k, henters⟩
  · rw [project.apiDir_eq_join] at hallowed henters ⊢
    refine Tree.find_join_name_of_enters (by decide) hallowed henters
      (hdirs _ (Project.apiNames_ne_nil _) List.prefix_rfl) fun k' d' houter target => ?_
    -- What is around the directory is below the root as well.
    have hmoves : Path.moves (Path.join project.root ("internal/" ++ command ++ "/transport/http"))
        = Path.moves project.root ++ ("internal" :: Path.moves command ++ ["transport", "http"]) := by
      have hall := project.moves_apiDir command
      rw [project.apiDir_eq_join, Path.moves_join_name _ (by decide)] at hall
      refine List.append_cancel_right (hall.trans ?_)
      simp [Project.apiNames]
    rw [hmoves] at houter
    obtain ⟨k₂, root', hroot', houter⟩ := Tree.of_enters_append houter
    have hpre : "internal" :: Path.moves command ++ ["transport", "http"]
        <+: Project.apiNames (Path.moves command) := ⟨["api"], by simp [Project.apiNames]⟩
    obtain ⟨rfl, -⟩ :=
      houter.eq_append (fun s hs => hdots s (hpre.subset hs)) (hlinks.unlinked hroot' _)
    rw [List.append_assoc]
    exact hlinks.get?_ne hroot' (by simp) target
  · rw [List.append_assoc]
    exact hlinks.get?_ne hroot (List.append_ne_nil_of_right_ne_nil _ hwne) target

/-- A scan of the controllers of a command finds each controller of the command that is located
there, unless a directory of its route is hidden. -/
theorem mem_files_of_locate (hw : t.WellFormed) (hlinks : Analysis.LinkFree t project.root)
    (hcommand : ".." ∉ Path.segments command) (hl : locate project command route = .ok l)
    (hroute : ∀ s ∈ (Path.segments route).dropLast, Scan.isHidden s = false)
    (hfile : t.isFile l.path = true) :
    l.path ∈ (Scan.run t (project.apiDir command)).files := by
  obtain ⟨dirs, name, h⟩ := exists_located hl
  obtain ⟨p, text, mode, hfind⟩ := Tree.of_isFile hfile
  have hallowed := (Tree.of_place_ok (Tree.find_eq_ok_iff.1 hfind).1).1
  have hvisible : ∀ s ∈ dirs, Scan.isHidden s = false := by
    rwa [h.segments, List.dropLast_concat] at hroute
  have hnames := h.isName_of_mem (fun s hs => names_ne_dots_of_not_isHidden (hvisible s hs))
    hallowed.nul_notMem
  have hpath := h.path_eq_pathOf fun n hn => hnames n (List.mem_append_left _ hn)
  rw [hpath] at hfind ⊢
  obtain ⟨d, hdir, hunlinked, k, henters⟩ :=
    find_apiDir hlinks hcommand hnames (by simp) hfind
  obtain ⟨-, -, rfl, hget⟩ := Scan.of_find_pathOf henters hunlinked hnames (by simp) hfind
  have hlast : Path.fileName? (project.apiDir command) ≠ some Scan.dirName := by
    rw [project.apiDir_eq_join, Path.fileName?, Path.components_join_name _ (by decide)]
    simp [Scan.dirName]
  rw [Scan.files_run hdir hlast]
  refine List.mem_map_of_mem ((Scan.mem_foundNames hw).2 ⟨(Scan.mem_sourceNames hw).2
    ⟨by simp, ⟨text, mode, hget⟩, ?_, ?_⟩, ?_⟩)
  · have hgo := nameExtension?_go (h.ne_empty name (by simp))
    simpa using hgo
  · have hvisible' : ∀ s ∈ dirs ++ ["controller"], Scan.isHidden s = false := by
      rw [List.forall_mem_append]
      exact ⟨hvisible, List.forall_mem_singleton.2 Scan.not_isHidden_dirName⟩
    rw [Scan.inHidden, List.append_cons, List.dropLast_concat, List.any_eq_false]
    exact fun s hs => by simp [hvisible' s hs]
  · simp [Scan.dirName]

/-- A project with two controllers, one of them in a hidden directory. -/
def twoRoutes : Tree :=
  ⟨[(["internal"], .dir), (["internal", "c"], .dir), (["internal", "c", "transport"], .dir),
    (["internal", "c", "transport", "http"], .dir),
    (["internal", "c", "transport", "http", "api"], .dir),
    (["internal", "c", "transport", "http", "api", "v1"], .dir),
    (["internal", "c", "transport", "http", "api", "v1", "controller"], .dir),
    (["internal", "c", "transport", "http", "api", "v1", "controller", "user.go"],
      .file (some "package controller\n") 420),
    (["internal", "c", "transport", "http", "api", ".old"], .dir),
    (["internal", "c", "transport", "http", "api", ".old", "controller"], .dir),
    (["internal", "c", "transport", "http", "api", ".old", "controller", "user.go"],
      .file (some "package controller\n") 420)]⟩

theorem mem_files_twoRoutes : ∃ l, locate (.usual "/" "m") "c" "v1/user" = .ok l ∧
    twoRoutes.isFile l.path = true ∧
    l.path ∈ (Scan.run twoRoutes ((Project.usual "/" "m").apiDir "c")).files := by
  have hfile : twoRoutes.isFile "/internal/c/transport/http/api/v1/controller/user.go" = true := by
    decide +kernel
  have hl : locate (.usual "/" "m") "c" "v1/user"
      = .ok ⟨"/internal/c/transport/http/api/v1/controller/user.go", "UserController"⟩ := by
    decide +kernel
  exact ⟨_, hl, hfile, mem_files_of_locate (by decide +kernel)
    (Analysis.linkFree_of_entries (by simp [twoRoutes]) _) (by decide +kernel) hl
    (by decide +kernel) hfile⟩

/-- No segment of the route is a dot or dots, but its directory is hidden. -/
theorem not_mem_files_hiddenRoute : twoRoutes.WellFormed ∧ Analysis.LinkFree twoRoutes "/" ∧
    Path.segments ".old/user" = [".old", "user"] ∧
    ∃ l, locate (.usual "/" "m") "c" ".old/user" = .ok l ∧ twoRoutes.isFile l.path = true ∧
      l.path ∉ (Scan.run twoRoutes ((Project.usual "/" "m").apiDir "c")).files := by
  refine ⟨by decide +kernel, Analysis.linkFree_of_entries (by simp [twoRoutes]) _, by decide,
    ⟨"/internal/c/transport/http/api/.old/controller/user.go", "UserController"⟩, ?_, ?_, ?_⟩
  · decide +kernel
  · decide +kernel
  · decide +kernel

end Scaffold
end RouteScribe
