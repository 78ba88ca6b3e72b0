import RouteScribe.Proofs.Files.Writing
import RouteScribe.Proofs.Project.Layout
import RouteScribe.Scaffold.Name

/-!
# RouteScribe.Proofs.Scaffold.Name

Where the controller with a route is: its file is in a directory for controllers, below the
directory that the other segments of the route lead to.

* `Located`: the parts of a location.
* `exists_located`: every location has them.
* `Located.moves_controllerDir`: the way to the directory of the file.
-/

namespace RouteScribe
namespace Scaffold

variable {project : Project} {command route name : String} {l : Location} {dirs : List String}

/-- The directory of a controller whose route has the segments `dirs` before its name. -/
def controllerDir (project : Project) (command : String) (dirs : List String) : String :=
  Path.join (append (project.apiDir command)
    (if dirs = [] then none else some (Path.ofSegments dirs))) "controller"

/-- The controller with the route is at `l`, if the segments of the route are `dirs` and `name`. -/
structure Located (project : Project) (command route : String) (l : Location)
    (dirs : List String) (name : String) : Prop where
  segments : Path.segments route = dirs ++ [name]
  ne_empty : ∀ s ∈ dirs ++ [name], s ≠ ""
  path : l.path = Path.join (controllerDir project command dirs) (name ++ ".go")
  typeName : l.typeName = capitalize name ++ "Controller"

theorem isName_controller : Path.IsName "controller" := by decide

/-- The name of a source file, if the characters in front are those of a name. -/
theorem isName_append_go (hslash : '/' ∉ name.toList) (hnul : '\x00' ∉ name.toList) :
    Path.IsName (name ++ ".go") := by
  have hlast : (name ++ ".go").toList = name.toList ++ ['.', 'g', 'o'] := String.toList_append
  have hlength : (name ++ ".go").length = name.length + 3 := String.length_append _ _
  have hshort : ∀ s : String, s.length < 3 → name ++ ".go" ≠ s := by
    rintro s hs rfl
    omega
  refine ⟨hshort "" (by decide), hshort "." (by decide), hshort ".." (by decide), ?_, ?_⟩
  · simpa [hlast] using hslash
  · simpa [hlast] using hnul

theorem ne_empty_of_routeFault? (h : routeFault? route = none) :
    ∀ s ∈ Path.segments route, s ≠ "" := by
  unfold routeFault? at h
  extract_lets cs at h
  split at h
  · cases h
  · split at h
    · cases h
    · split at h
      · cases h
      next hempty =>
        rintro s hs rfl
        exact hempty (List.contains_iff_mem.2 hs)

theorem exists_located (h : locate project command route = .ok l) :
    ∃ dirs name, Located project command route l dirs name := by
  unfold locate at h
  split at h
  · cases h
  next hroute =>
    have hempty := ne_empty_of_routeFault? hroute
    obtain ⟨dirs, name, hsplit⟩ :=
      (List.eq_nil_or_concat (Path.segments route)).resolve_left (Path.segments_ne_nil route)
    rw [List.concat_eq_append] at hsplit
    have hlength : (dirs ++ [name]).length = 1 ↔ dirs = [] := by simp
    have hsplit' : Text.split '/' route = dirs ++ [name] := hsplit
    simp only [hsplit', List.getLastD_concat, List.dropLast_concat, hlength] at h
    split at h
    · cases h
    · cases h
      exact ⟨dirs, name, hsplit, hsplit ▸ hempty, rfl, rfl⟩

namespace Located

variable (h : Located project command route l dirs name)

include h in
theorem slash_notMem {s : String} (hs : s ∈ dirs ++ [name]) : '/' ∉ s.toList :=
  Path.slash_notMem_of_mem_segments (h.segments ▸ hs)

include h in
theorem isAbsolute_ofSegments_dirs (hdirs : dirs ≠ []) :
    Path.isAbsolute (Path.ofSegments dirs) = false :=
  Path.isAbsolute_ofSegments hdirs fun s hs =>
    ⟨h.ne_empty s (List.mem_append_left _ hs), h.slash_notMem (List.mem_append_left _ hs)⟩

include h in
theorem moves_controllerDir : Path.moves (controllerDir project command dirs)
    = Path.moves project.root
      ++ (Project.apiNames (Path.moves command) ++ Path.moving dirs ++ ["controller"]) := by
  have hslash : ∀ s ∈ dirs, '/' ∉ s.toList := fun s hs => h.slash_notMem (List.mem_append_left _ hs)
  have hway : Path.moves (append (project.apiDir command)
      (if dirs = [] then none else some (Path.ofSegments dirs)))
      = Path.moves (project.apiDir command) ++ Path.moving dirs := by
    split
    next hnil =>
      rw [hnil]
      exact (List.append_nil _).symm
    next hne =>
      rw [append, Path.moves_join _ (h.isAbsolute_ofSegments_dirs hne), Path.moves, Path.moves,
        Path.moving_segments_ofSegments hslash]
  rw [controllerDir, Path.moves_join_name _ isName_controller, hway, project.moves_apiDir]
  simp only [List.append_assoc]

include h in
theorem isName_file (hnul : '\x00' ∉ name.toList) : Path.IsName (name ++ ".go") :=
  isName_append_go (h.slash_notMem (List.mem_append_right _ List.mem_cons_self)) hnul

include h in
theorem slash_notMem_file : '/' ∉ (name ++ ".go").toList := by
  rw [String.toList_append, List.mem_append, not_or]
  exact ⟨h.slash_notMem (List.mem_append_right _ List.mem_cons_self), by decide⟩

include h in
theorem mem_segments_path {s : String} (hs : s ∈ dirs ++ [name ++ ".go"]) :
    s ∈ Path.segments l.path := by
  have hfile := Path.isAbsolute_eq_false h.slash_notMem_file
  rw [h.path]
  rcases List.mem_append.1 hs with hs | hs
  · have hne : ∀ s ∈ dirs, s ≠ "" := fun s hs => h.ne_empty s (List.mem_append_left _ hs)
    have hslash : ∀ s ∈ dirs, '/' ∉ s.toList :=
      fun s hs => h.slash_notMem (List.mem_append_left _ hs)
    have hdirs : dirs ≠ [] := List.ne_nil_of_mem hs
    refine Path.mem_segments_join hfile (hne s hs) (.inl ?_)
    refine Path.mem_segments_join isName_controller.isAbsolute_eq (hne s hs) (.inl ?_)
    rw [if_neg hdirs]
    refine Path.mem_segments_join (h.isAbsolute_ofSegments_dirs hdirs) (hne s hs) (.inr ?_)
    rwa [Path.segments_ofSegments hdirs hslash]
  · obtain rfl := List.mem_singleton.1 hs
    refine Path.mem_segments_join hfile (by simp) (.inr ?_)
    rw [Path.segments_eq_singleton h.slash_notMem_file]
    exact List.mem_cons_self

include h in
/-- The path of the file begins with that of the directory of the controllers. -/
theorem exists_path_eq :
    ∃ way, l.path = project.apiDir command ++ way ++ name ++ ".go" := by
  obtain ⟨dirsWay, hdirs⟩ : ∃ way, append (project.apiDir command)
      (if dirs = [] then none else some (Path.ofSegments dirs)) = project.apiDir command ++ way := by
    split
    next => exact ⟨"", String.append_empty.symm⟩
    next hne => exact Path.exists_join_eq_append _ (h.isAbsolute_ofSegments_dirs hne)
  obtain ⟨last, hlast⟩ := Path.exists_join_eq_append (project.apiDir command ++ dirsWay)
    isName_controller.isAbsolute_eq
  rw [h.path, controllerDir, hdirs, hlast, Path.join,
    Path.isAbsolute_eq_false h.slash_notMem_file, if_neg (by decide)]
  split
  · exact ⟨dirsWay ++ last, by simp only [String.append_assoc]⟩
  · exact ⟨dirsWay ++ last ++ "/", by simp only [String.append_assoc]⟩

include h in
theorem isName_file_of_write {t t' : Files.Tree} {text : String}
    (hwrite : t.write l.path text = (t', none)) : Path.IsName (name ++ ".go") := by
  obtain ⟨t₁, p, -, hplace, -⟩ := Files.Tree.of_write_ok hwrite
  obtain ⟨way, hpath⟩ := h.exists_path_eq
  have hlast : l.path.toList.getLast? ≠ some '/' := by
    rw [hpath, String.toList_append, List.getLast?_append_of_ne_nil _ (by decide)]
    decide
  rw [Files.Tree.dropSlashes_eq_self hlast] at hplace
  have hallowed := (Files.Tree.of_place_ok hplace).1
  refine h.isName_file fun hnul => hallowed.nul_notMem ?_
  rw [hpath, String.toList_append, String.toList_append]
  exact List.mem_append_left _ (List.mem_append_right _ hnul)

end Located

end Scaffold
end RouteScribe
