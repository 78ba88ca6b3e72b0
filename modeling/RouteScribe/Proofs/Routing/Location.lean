import RouteScribe.Proofs.Files.Resolve
import RouteScribe.Proofs.Project.Layout
import RouteScribe.Proofs.Routing.Scan
import RouteScribe.Routing.ImportPath

/-!
# RouteScribe.Proofs.Routing.Location

Where the source files below a root are, and which package each belongs to. Names lead where they
say as long as no link is on the way, so all that a scan passes on is the names below the root.

* `find_pathOf_iff`, `readText_pathOf_iff`: what names below the root lead to.
* `ofFile_pathOf`: the import path of a package is made of the names that lead to it.
* `of_mem_files`: the files of a scan that begins below the root.
-/

namespace RouteScribe
namespace Routing

open Files

namespace Scan

variable {t : Tree} {p q : Place} {k : Nat} {root n : String} {names init way : List String}
  {e : Entry} {follow : Bool}

/-! ## Paths that the file system takes -/

theorem pathOf_concat (root : String) (init : List String) (n : String) :
    pathOf root (init ++ [n]) = Path.join (pathOf root init) n := List.foldl_append

theorem exists_concat (hne : names ≠ []) : ∃ init n, names = init ++ [n] := by
  obtain ⟨init, n, h⟩ := (List.eq_nil_or_concat names).resolve_left hne
  exact ⟨init, n, by rw [h, List.concat_eq_append]⟩

theorem join_name_eq (path : String) (hn : Path.IsName n) :
    Path.join path n = path ++ n ∨ Path.join path n = path ++ "/" ++ n := by
  unfold Path.join
  rw [hn.isAbsolute_eq]
  split
  · contradiction
  · split
    · exact .inl rfl
    · exact .inr rfl

theorem pathOf_ne_empty (hnames : ∀ n ∈ names, Path.IsName n) (hne : names ≠ []) :
    pathOf root names ≠ "" := by
  obtain ⟨init, n, rfl⟩ := exists_concat hne
  rw [pathOf_concat]
  exact Path.join_name_ne_empty _ (hnames n (by simp))

theorem nul_notMem_pathOf (hroot : '\x00' ∉ root.toList) (hnames : ∀ n ∈ names, Path.IsName n) :
    '\x00' ∉ (pathOf root names).toList := by
  induction names using List.reverseRecOn with
  | nil => exact hroot
  | append_singleton init n ih =>
    have hinit := ih fun m hm => hnames m (List.mem_append_left _ hm)
    have hn := hnames n (by simp)
    rw [pathOf_concat]
    rcases join_name_eq (pathOf root init) hn with h | h
    · simp [h, hinit, hn.nul_notMem]
    · simp [h, hinit, hn.nul_notMem]

theorem size_join_name_le (path : String) (hn : Path.IsName n) :
    path.utf8ByteSize + n.utf8ByteSize ≤ (Path.join path n).utf8ByteSize := by
  rcases join_name_eq path hn with h | h <;> simp only [h, String.utf8ByteSize_append]
  · omega
  · omega

/-- Below a path that the file system takes, only the length of a path counts. -/
theorem allowed_pathOf_iff (hroot : Tree.Allowed root) (hnames : ∀ n ∈ names, Path.IsName n)
    (hne : names ≠ []) :
    Tree.Allowed (pathOf root names) ↔ (pathOf root names).utf8ByteSize ≤ pathLimit :=
  ⟨fun h => h.size_le, fun h =>
    ⟨nul_notMem_pathOf hroot.nul_notMem hnames, pathOf_ne_empty hnames hne, h⟩⟩

theorem exists_pathOf_eq_append (hnames : ∀ n ∈ names, Path.IsName n) (root : String) :
    ∃ rest, pathOf root names = root ++ rest := by
  induction names using List.reverseRecOn with
  | nil => exact ⟨"", String.append_empty.symm⟩
  | append_singleton init n ih =>
    obtain ⟨rest, hrest⟩ := ih fun m hm => hnames m (List.mem_append_left _ hm)
    obtain ⟨last, hlast⟩ :=
      Path.exists_join_eq_append (root ++ rest) (hnames n (by simp)).isAbsolute_eq
    exact ⟨rest ++ last, by rw [pathOf_concat, hrest, hlast, String.append_assoc]⟩

/-- What leads to a path that the file system takes is a path that it takes. -/
theorem allowed_of_allowed_pathOf (hnames : ∀ n ∈ names, Path.IsName n) (hne : root ≠ "")
    (h : Tree.Allowed (pathOf root names)) : Tree.Allowed root := by
  obtain ⟨rest, hrest⟩ := exists_pathOf_eq_append hnames root
  rw [hrest] at h
  exact h.of_append hne

/-! ## What names lead to -/

theorem of_find_pathOf (hroot : t.Enters linkLimit [] (Path.moves root) k p)
    (hlinks : t.Unlinked p names) (hnames : ∀ n ∈ names, Path.IsName n) (hne : names ≠ [])
    (h : t.find follow (pathOf root names) = .ok (q, e)) :
    Tree.Allowed (pathOf root names) ∧ (∀ n ∈ names, Tree.Named n) ∧ q = p ++ names ∧
      t.get? q = some e := by
  obtain ⟨init, n, rfl⟩ := exists_concat hne
  have hinit : ∀ m ∈ init, Path.IsName m := fun m hm => hnames m (List.mem_append_left _ hm)
  have hn : Path.IsName n := hnames n (by simp)
  obtain ⟨hplace, hget⟩ := Tree.find_eq_ok_iff.1 h
  rw [pathOf_concat] at hplace ⊢
  obtain ⟨hallowed, k', g, henters, hlast⟩ := Tree.of_place_join_name hn hplace
  rw [pathOf, Path.moves_foldl_join hinit] at henters
  obtain ⟨k₁, p₁, hfirst, hrest⟩ := Tree.of_enters_append henters
  obtain rfl := hroot.unique hfirst
  obtain ⟨rfl, -, hnamed, -⟩ := hrest.eq_append (Path.names_ne_dots hinit)
    (hlinks.of_isPrefix (List.prefix_append _ _))
  obtain ⟨rfl, hnamed'⟩ := hlast.eq_concat ⟨hn.ne_dot, hn.ne_dots⟩ fun _ target => by
    rw [List.append_assoc]
    exact hlinks _ hne List.prefix_rfl target
  refine ⟨hallowed, fun m hm => ?_, List.append_assoc .., hget⟩
  rcases List.mem_append.1 hm with hm | hm
  · exact hnamed m hm
  · exact List.mem_singleton.1 hm ▸ hnamed'

theorem find_pathOf (hw : t.WellFormed) (hroot : t.Enters linkLimit [] (Path.moves root) k p)
    (hlinks : t.Unlinked p names) (hnames : ∀ n ∈ names, Path.IsName n) (hne : names ≠ [])
    (hallowed : Tree.Allowed (pathOf root names)) (hnamed : ∀ n ∈ names, Tree.Named n)
    (he : t.get? (p ++ names) = some e) :
    t.find follow (pathOf root names) = .ok (p ++ names, e) := by
  obtain ⟨init, n, rfl⟩ := exists_concat hne
  have hinit : ∀ m ∈ init, Path.IsName m := fun m hm => hnames m (List.mem_append_left _ hm)
  have hdirs : ∀ w, w ≠ [] → w <+: init → t.get? (p ++ w) = some .dir := by
    intro w _ hw'
    have hlength := hw'.length_le
    refine get?_of_isPrefix hw he (hw'.trans (List.prefix_append _ _)) ?_
    rintro rfl
    simp at hlength
  have hway := hroot.append
    (Tree.enters_of_dirs k (fun m hm => hnamed m (List.mem_append_left _ hm)) hdirs)
  have hnlast : Tree.Named n := hnamed n (by simp)
  have hlast : t.Leads follow k (p ++ init) [n] (p ++ (init ++ [n])) := by
    rw [← List.append_assoc] at he ⊢
    cases e with
    | dir => exact .dir hnlast he (.here k _)
    | file text mode => exact .last hnlast (by rw [he]; exact trivial)
    | link target =>
      rw [List.append_assoc] at he
      exact absurd he (hlinks _ hne List.prefix_rfl target)
  rw [pathOf_concat] at hallowed ⊢
  rw [← Path.moves_foldl_join hinit] at hway
  exact Tree.find_eq_ok_iff.2 ⟨Tree.place_join_name (hnames n (by simp)) hallowed hway hlast, he⟩

section

variable (hw : t.WellFormed) (hroot : t.find true root = .ok (p, .dir))
  (hlinks : t.Unlinked p names) (hnames : ∀ n ∈ names, Path.IsName n) (hne : names ≠ [])

include hw hroot hlinks hnames hne in
/-- Where no link is on the way, names lead to what stands below the root. -/
theorem find_pathOf_iff : t.find follow (pathOf root names) = .ok (q, e) ↔
    (pathOf root names).utf8ByteSize ≤ pathLimit ∧ (∀ n ∈ names, Tree.Named n) ∧ q = p ++ names ∧
      t.get? q = some e := by
  obtain ⟨hallowed, -, k, henters⟩ := Tree.of_find_dir hroot
  rw [← allowed_pathOf_iff hallowed hnames hne]
  refine ⟨of_find_pathOf henters hlinks hnames hne, ?_⟩
  rintro ⟨hsize, hnamed, rfl, hget⟩
  exact find_pathOf hw henters hlinks hnames hne hsize hnamed hget

end

/-! ## Packages -/

theorem parent?_pathOf (hnames : ∀ m ∈ init ++ [n], Path.IsName m) (hinit : init ≠ []) :
    Path.parent? (pathOf root (init ++ [n])) = some (pathOf root init) := by
  obtain ⟨init, m, rfl⟩ := exists_concat hinit
  rw [pathOf_concat, pathOf_concat]
  exact Path.parent?_join_name _ (hnames m (by simp)) (hnames n (by simp))

/-- A file that is found below the root is in the package that the names lead to. -/
theorem ofFile_pathOf (hw : t.WellFormed) (hroot : t.find true root = .ok (p, .dir))
    (hlinks : t.Unlinked p (init ++ [n])) (hnames : ∀ m ∈ init ++ [n], Path.IsName m)
    (hinit : init ≠ []) (h : t.find true (pathOf root (init ++ [n])) = .ok (q, e))
    (module : String) : ImportPath.ofFile t module root (pathOf root (init ++ [n]))
      = (⟨ImportPath.under module init, false⟩, []) := by
  have hinitNames : ∀ m ∈ init, Path.IsName m := fun m hm => hnames m (List.mem_append_left _ hm)
  have hn : Path.IsName n := hnames n (by simp)
  obtain ⟨hsize, hnamed, rfl, hget⟩ :=
    (find_pathOf_iff hw hroot hlinks hnames (by simp)).1 h
  have hdir : t.find true (pathOf root init) = .ok (p ++ init, .dir) := by
    have hlinks' := hlinks.of_isPrefix (List.prefix_append init [n])
    refine (find_pathOf_iff hw hroot hlinks' hinitNames hinit).2 ⟨?_, ?_, rfl, ?_⟩
    · have hjoin := size_join_name_le (pathOf root init) hn
      rw [← pathOf_concat] at hjoin
      omega
    · exact fun m hm => hnamed m (List.mem_append_left _ hm)
    · exact get?_of_isPrefix hw hget (List.prefix_append _ _) (by simp)
  have hcanonical : ∀ {path : String} {place : Place}, t.find true path = .ok (place, .dir) →
      (∀ m ∈ place, Path.IsName m) →
      Path.components (ImportPath.absolute t path) = .root :: place.map .name := by
    intro path place hfind hplace
    simp only [ImportPath.absolute, Tree.canonical, hfind]
    exact Path.components_ofSegments hplace
  have hall : ∀ m ∈ p ++ init, Path.IsName m := fun m hm =>
    hw.isName_of_mem hget (by rw [← List.append_assoc]; exact List.mem_append_left _ hm)
  have hbelow : Path.below? (.root :: p.map .name) (.root :: (p ++ init).map .name)
      = some (init.map .name) := by
    rw [Path.below?, if_pos (List.isPrefixOf_iff_prefix.2 (by simp)), List.map_append]
    simp
  have hnamesOf : Path.names (init.map .name) = init := by
    simp [Path.names, List.filterMap_map]
  simp only [ImportPath.ofFile, parent?_pathOf hnames hinit, Option.getD_some, hcanonical hdir hall,
    hcanonical hroot fun m hm => hall m (List.mem_append_left _ hm), hbelow, hnamesOf]

/-- The empty path leads nowhere, but relative paths begin where it would lead to. -/
theorem absolute_empty (t : Tree) : Path.components (ImportPath.absolute t "") = [] := rfl

theorem ofFile_pathOf_of_enters (hw : t.WellFormed)
    (hroot : t.Enters linkLimit [] (Path.moves root) k p) (hlinks : t.Unlinked p (init ++ [n]))
    (hnames : ∀ m ∈ init ++ [n], Path.IsName m) (hinit : init ≠ [])
    (h : t.find true (pathOf root (init ++ [n])) = .ok (q, e)) (module : String) :
    ImportPath.ofFile t module root (pathOf root (init ++ [n]))
      = (⟨ImportPath.under module init, false⟩, []) := by
  obtain ⟨hallowed, hnamed, rfl, hget⟩ := of_find_pathOf hroot hlinks hnames (by simp) h
  by_cases hempty : root = ""
  · subst hempty
    obtain rfl : p = [] := hroot.unique (.here linkLimit [])
    obtain ⟨hinitNames, hn⟩ := List.forall_mem_append.1 hnames
    have hdir : t.find true (pathOf "" init) = .ok (init, .dir) := by
      rw [pathOf_append "" init [n]] at hallowed
      exact find_pathOf hw hroot (hlinks.of_isPrefix (List.prefix_append init [n])) hinitNames hinit
        (allowed_of_allowed_pathOf hn (pathOf_ne_empty hinitNames hinit) hallowed)
        (fun m hm => hnamed m (List.mem_append_left _ hm))
        (get?_of_isPrefix hw hget (List.prefix_append _ _) (by simp))
    have hcomponents : Path.components (ImportPath.absolute t (pathOf "" init))
        = .root :: init.map .name := by
      simp only [ImportPath.absolute, Tree.canonical, hdir]
      exact Path.components_ofSegments hinitNames
    simp only [ImportPath.ofFile, parent?_pathOf hnames hinit, Option.getD_some, hcomponents,
      absolute_empty]
    simp [Path.below?, Path.names, List.filterMap_map]
  · have hdir : t.get? p = some .dir := hroot.get?_eq hw rfl
    exact ofFile_pathOf hw (Tree.find_of_enters (allowed_of_allowed_pathOf hnames hempty hallowed)
      hroot hdir) hlinks hnames hinit h module

/-! ## Scans -/

theorem fileName?_pathOf (hnames : ∀ m ∈ init ++ [n], Path.IsName m) :
    Path.fileName? (pathOf root (init ++ [n])) = some n := by
  rw [Path.fileName?, components_pathOf hnames]
  simp

theorem enters_of_find_pathOf (hnames : ∀ n ∈ names, Path.IsName n) (hne : names ≠ [])
    (h : t.find follow (pathOf root names) = .ok (q, e)) :
    ∃ k p, t.Enters linkLimit [] (Path.moves root) k p := by
  obtain ⟨init, n, rfl⟩ := exists_concat hne
  rw [pathOf_concat] at h
  obtain ⟨-, k, g, henters, -⟩ :=
    Tree.of_place_join_name (hnames n (by simp)) (Tree.find_eq_ok_iff.1 h).1
  rw [pathOf, Path.moves_foldl_join fun m hm => hnames m (List.mem_append_left _ hm)] at henters
  obtain ⟨k, p, hroot, -⟩ := Tree.of_enters_append henters
  exact ⟨k, p, hroot⟩

theorem files_run_pathOf (hway : ∀ n ∈ way, Path.IsName n) (hne : way ≠ [])
    (hlast : way.getLast? ≠ some dirName)
    (hdir : t.find false (pathOf root way) = .ok (p ++ way, .dir)) :
    (run t (pathOf root way)).files
      = (foundNames t (p ++ way)).map fun names => pathOf root (way ++ names) := by
  have hname : Path.fileName? (pathOf root way) ≠ some dirName := by
    obtain ⟨init, n, rfl⟩ := exists_concat hne
    rwa [fileName?_pathOf hway, ← List.getLast?_concat]
  simp only [files_run hdir hname, pathOf_append]

section

variable (hlinks : ∀ k p, t.Enters linkLimit [] (Path.moves root) k p → t.Unlinked p way)
  (hway : ∀ n ∈ way, Path.IsName n) (hne : way ≠ [])

include hlinks hway hne in
theorem dir_of_mem_files {path : String} (hpath : path ∈ (run t (pathOf root way)).files) :
    ∃ k p, t.Enters linkLimit [] (Path.moves root) k p ∧
      t.find false (pathOf root way) = .ok (p ++ way, .dir) := by
  cases hfind : t.find false (pathOf root way) with
  | error refusal => simp [run, hfind] at hpath
  | ok found =>
    obtain ⟨q, e⟩ := found
    obtain ⟨k, p, hroot⟩ := enters_of_find_pathOf hway hne hfind
    obtain ⟨-, -, rfl, hget⟩ := of_find_pathOf hroot (hlinks k p hroot) hway hne hfind
    cases e with
    | dir => exact ⟨k, p, hroot, rfl⟩
    | file text mode => simp [run, hfind] at hpath
    | link target => exact absurd hget (hlinks k p hroot way hne List.prefix_rfl target)

include hlinks hway hne in
theorem of_mem_files (hw : t.WellFormed) (hlast : way.getLast? ≠ some dirName) {path : String}
    (hpath : path ∈ (run t (pathOf root way)).files) :
    ∃ k p names, t.Enters linkLimit [] (Path.moves root) k p ∧
      t.find false (pathOf root way) = .ok (p ++ way, .dir) ∧
      IsFound t (p ++ way) False names ∧ path = pathOf root (way ++ names) ∧
      t.Unlinked p (way ++ names) ∧ ∀ n ∈ way ++ names, Path.IsName n := by
  obtain ⟨k, p, hroot, hdir⟩ := dir_of_mem_files hlinks hway hne hpath
  rw [files_run_pathOf hway hne hlast hdir] at hpath
  obtain ⟨names, hnames, rfl⟩ := List.mem_map.1 hpath
  have hfound := (mem_foundNames_iff hw).1 hnames
  obtain ⟨text, mode, hget⟩ := hfound.file
  rw [List.append_assoc] at hget
  refine ⟨k, p, names, hroot, hdir, hfound, rfl, fun w hwne hwpre target hlink => ?_,
    fun n hn => hw.isName_of_mem hget (List.mem_append_right p hn)⟩
  by_cases heq : w = way ++ names
  · rw [heq, hget] at hlink
    cases hlink
  · rw [get?_of_isPrefix hw hget hwpre heq] at hlink
    cases hlink

end

end Scan

namespace Analysis

/-- No links are below the directory that a path leads to. The empty path leads to the directory
where relative paths begin. -/
def LinkFree (t : Tree) (path : String) : Prop :=
  ∀ p, t.walk true linkLimit [] (steps path) = .ok p →
    ∀ names target, names ≠ [] → t.get? (p ++ names) ≠ some (.link target)

variable {t : Tree} {p : Place} {k : Nat} {path : String} {names : List String}

theorem linkFree_of_entries (h : ∀ e ∈ t.entries, ∀ target, e.2 ≠ .link target) (path : String) :
    LinkFree t path := by
  intro p _ names target hne hget
  exact h _ (Tree.mem_entries_of_get? hget (List.append_ne_nil_of_right_ne_nil p hne)) target rfl

theorem linkless_of_linkFree (h : LinkFree t "/") (target : String) :
    t.get? p ≠ some (.link target) := by
  by_cases hp : p = []
  · rw [hp]
    exact nofun
  · exact h [] (Tree.walk_of_leads (.here _ _)) p target hp

theorem LinkFree.get?_ne (h : LinkFree t path) (hp : t.Enters linkLimit [] (Path.moves path) k p)
    (hnames : names ≠ []) (target : String) : t.get? (p ++ names) ≠ some (.link target) :=
  h p (Tree.walk_of_leads (Tree.enters_steps_iff.2 hp).leads) names target hnames

theorem LinkFree.unlinked (h : LinkFree t path)
    (hp : t.Enters linkLimit [] (Path.moves path) k p) (names : List String) :
    t.Unlinked p names := fun _ hne _ target => h.get?_ne hp hne target

end Analysis

end Routing
end RouteScribe
