import RouteScribe.Proofs.Files.Resolve
import RouteScribe.Proofs.Files.Tree
import RouteScribe.Proofs.Text.Bytes
import RouteScribe.Routing.Scan

/-!
# RouteScribe.Proofs.Routing.Scan

What a scan finds. A source file below several directories for controllers is found once, below
the outermost, so the directories found are apart from each other, and the files found in one come
before those in the next.

* `Finds`: what a scan of a directory has to find, and in which order.
* `run_finds`: a scan finds it, and the order of the table does not matter.
-/

namespace RouteScribe
namespace Routing
namespace Scan

open Files

/-- What two paths are compared by: the bytes of their components. -/
def sortKey (path : String) : List (List UInt8) :=
  (Path.components path).map fun c => Text.bytes c.text

section

variable (t : Tree) (p : Place) (top : Prop)

/-- The directory that `d` leads to from the place `p` is one for controllers; that at `p` is one
if `top`. -/
def IsControllerDir (d : Place) : Prop :=
  d = [] ∧ top ∨ d.getLast? = some dirName ∧ t.get? (p ++ d) = some .dir

/-- No directory strictly between the place `p` and what `names` lead to is hidden. -/
def Visible (names : Place) : Prop :=
  ∀ d n, d <+: names → d ≠ names → d.getLast? = some n → isHidden n → t.get? (p ++ d) ≠ some .dir

/-- A source file of controllers. -/
structure IsFound (names : Place) : Prop where
  file : ∃ text mode, t.get? (p ++ names) = some (.file text mode)
  extension : names.getLast?.bind Path.nameExtension? = some "go"
  inside : ∃ d, d <+: names ∧ d ≠ names ∧ IsControllerDir t p top d
  visible : Visible t p names

/-- A directory for controllers with none around it. -/
structure IsOutermost (d : Place) : Prop where
  controllers : IsControllerDir t p top d
  visible : Visible t p d
  outermost : ∀ d', d' <+: d → d' ≠ d → ¬ IsControllerDir t p top d'

/-- What a scan of the directory at the place `p` has to find, if `root` is its path. -/
structure Finds (root : String) (s : Scan) : Prop where
  files_iff : ∀ path, path ∈ s.files ↔ ∃ names, IsFound t p top names ∧ path = pathOf root names
  files_sorted : s.files.Pairwise fun a b => sortKey a < sortKey b
  dirs_iff : ∀ path, path ∈ s.dirs ↔ ∃ d, IsOutermost t p top d ∧ path = pathOf root d
  dirs_sorted : s.dirs.Pairwise fun a b => sortKey a < sortKey b
  dirs_apart : ∀ a ∈ s.dirs, ∀ b ∈ s.dirs, Path.components a <+: Path.components b → a = b
  warnings_eq : s.warnings = []

end

/-! ## Names on the way -/

variable {t t' : Tree} {root : String} {p d names : Place} {top : Prop}

theorem isPrefix_dropLast_iff (h : names ≠ []) :
    d <+: names.dropLast ↔ d <+: names ∧ d ≠ names := by
  obtain ⟨init, n, rfl⟩ := (List.eq_nil_or_concat names).resolve_left h
  rw [List.concat_eq_append, List.dropLast_concat, List.prefix_concat_iff]
  constructor
  · intro hd
    refine ⟨.inr hd, ?_⟩
    rintro rfl
    simpa using hd.length_le
  · rintro ⟨rfl | hd, hne⟩
    · exact absurd rfl hne
    · exact hd

/-- The names of the directories on the way are the last names of what comes before. -/
theorem exists_isPrefix_iff (names : Place) (P : String → Prop) :
    (∃ d n, d <+: names ∧ d.getLast? = some n ∧ P n) ↔ ∃ n ∈ names, P n := by
  constructor
  · rintro ⟨d, n, hd, hn, hP⟩
    exact ⟨n, hd.subset (List.mem_of_getLast? hn), hP⟩
  · rintro ⟨n, hn, hP⟩
    obtain ⟨before, after, rfl⟩ := List.append_of_mem hn
    exact ⟨before ++ [n], n, ⟨after, by simp⟩, List.getLast?_concat, hP⟩

theorem get?_of_isPrefix (hw : t.WellFormed) {e : Entry} (he : t.get? (p ++ names) = some e)
    (hd : d <+: names) (hne : d ≠ names) : t.get? (p ++ d) = some .dir :=
  hw.dir_of_isPrefix he ((List.prefix_append_right_inj p).2 hd)
    fun h => hne (List.append_cancel_left h)

theorem visible_iff (hw : t.WellFormed) {e : Entry} (he : t.get? (p ++ names) = some e)
    (h : names ≠ []) : Visible t p names ↔ inHidden names = false := by
  have hway := exists_isPrefix_iff names.dropLast fun n => isHidden n = true
  rw [inHidden, Bool.eq_false_iff, Ne, List.any_eq_true, ← hway]
  constructor
  · rintro hvisible ⟨d, n, hd, hn, hhidden⟩
    obtain ⟨hd, hne⟩ := (isPrefix_dropLast_iff h).1 hd
    exact hvisible d n hd hne hn hhidden (get?_of_isPrefix hw he hd hne)
  · intro hnone d n hd hne hn hhidden _
    exact hnone ⟨d, n, (isPrefix_dropLast_iff h).2 ⟨hd, hne⟩, hn, hhidden⟩

theorem inside_iff (hw : t.WellFormed) (top : Prop) {e : Entry}
    (he : t.get? (p ++ names) = some e)
    (h : names ≠ []) : (∃ d, d <+: names ∧ d ≠ names ∧ IsControllerDir t p top d) ↔
      top ∨ dirName ∈ names.dropLast := by
  have hway := exists_isPrefix_iff names.dropLast fun n => n = dirName
  have hmem : dirName ∈ names.dropLast ↔ ∃ n ∈ names.dropLast, n = dirName := by simp
  rw [hmem, ← hway]
  constructor
  · rintro ⟨d, hd, hne, ⟨rfl, htop⟩ | ⟨hname, -⟩⟩
    · exact .inl htop
    · exact .inr ⟨d, dirName, (isPrefix_dropLast_iff h).2 ⟨hd, hne⟩, hname, rfl⟩
  · rintro (htop | ⟨d, n, hd, hname, rfl⟩)
    · exact ⟨[], List.nil_prefix, h.symm, .inl ⟨rfl, htop⟩⟩
    · obtain ⟨hd, hne⟩ := (isPrefix_dropLast_iff h).1 hd
      exact ⟨d, hd, hne, .inr ⟨hname, get?_of_isPrefix hw he hd hne⟩⟩

/-! ## What the two walks find -/

/-- The names of the source files below a place. -/
def sourceNames (t : Tree) (p : Place) : List Place :=
  ((t.below p).filter fun e => !concealed e && isSource e).map (·.1)

theorem sources_eq (t : Tree) (root : String) (p : Place) :
    sources t root p = (sourceNames t p).map (pathOf root) := by
  rw [sources, sourceNames, List.map_map]
  rfl

theorem isSource_iff {e : Place × Entry} : isSource e = true ↔
    (∃ text mode, e.2 = .file text mode) ∧ e.1.getLast?.bind Path.nameExtension? = some "go" := by
  obtain ⟨names, e⟩ := e
  cases e with
  | dir => simp [isSource]
  | link target => simp [isSource]
  | file text mode => cases h : names.getLast? <;> simp [isSource, h]

theorem mem_sourceNames (hw : t.WellFormed) : names ∈ sourceNames t p ↔
    names ≠ [] ∧ (∃ text mode, t.get? (p ++ names) = some (.file text mode)) ∧
      names.getLast?.bind Path.nameExtension? = some "go" ∧ inHidden names = false := by
  simp only [sourceNames, List.mem_map, List.mem_filter, Bool.and_eq_true, Bool.not_eq_true',
    isSource_iff]
  constructor
  · rintro ⟨⟨names, e⟩, ⟨hbelow, hconcealed, ⟨text, mode, rfl⟩, hext⟩, rfl⟩
    obtain ⟨hne, hget⟩ := hw.mem_below.1 hbelow
    exact ⟨hne, ⟨text, mode, hget⟩, hext, by simpa [concealed] using hconcealed⟩
  · rintro ⟨hne, ⟨text, mode, hget⟩, hext, hhidden⟩
    exact ⟨(names, .file text mode), ⟨hw.mem_below.2 ⟨hne, hget⟩, by simpa [concealed],
      ⟨text, mode, rfl⟩, hext⟩, rfl⟩

theorem not_isHidden_dirName : isHidden dirName = false := by decide

theorem mem_controllerDirs (hw : t.WellFormed) : d ∈ controllerDirs t p ↔
    d.getLast? = some dirName ∧ t.get? (p ++ d) = some .dir ∧ inHidden d = false ∧
      dirName ∉ d.dropLast := by
  simp only [controllerDirs, List.mem_map, List.mem_filter, Bool.and_eq_true, Bool.not_eq_true',
    decide_eq_true_eq]
  constructor
  · rintro ⟨⟨names, e⟩, ⟨hbelow, ⟨⟨rfl, hconcealed⟩, hname⟩, houter⟩, rfl⟩
    obtain ⟨-, hget⟩ := hw.mem_below.1 hbelow
    refine ⟨hname, hget, ?_, by simpa using houter⟩
    exact (Bool.or_eq_false_iff.1 hconcealed).1
  · rintro ⟨hname, hget, hhidden, houter⟩
    have hne : d ≠ [] := by
      rintro rfl
      cases hname
    refine ⟨(d, .dir), ⟨hw.mem_below.2 ⟨hne, hget⟩, ⟨⟨rfl, ?_⟩, hname⟩, by simpa using houter⟩, rfl⟩
    simp [concealed, hhidden, hname, not_isHidden_dirName]

theorem pairwise_map_fst (hw : t.WellFormed) (f : Place × Entry → Bool) :
    (((t.below p).filter f).map (·.1)).Pairwise (· < ·) :=
  List.pairwise_map.2 ((hw.pairwise_below p).filter f)

/-! ## Their order -/

theorem map_bytes_lt {a b : List String} (h : a < b) : a.map Text.bytes < b.map Text.bytes := by
  induction h with
  | nil => exact List.Lex.nil
  | cons _ ih => exact List.Lex.cons ih
  | rel h => exact List.Lex.rel (Text.bytes_lt h)

theorem components_pathOf (h : ∀ n ∈ names, Path.IsName n) (root : String) :
    Path.components (pathOf root names) = Path.components root ++ names.map .name :=
  Path.components_foldl_join h root

theorem sortKey_pathOf_lt {names' : Place} (h : ∀ n ∈ names, Path.IsName n)
    (h' : ∀ n ∈ names', Path.IsName n) (hlt : names < names') :
    sortKey (pathOf root names) < sortKey (pathOf root names') := by
  rw [sortKey, sortKey, components_pathOf h, components_pathOf h', List.map_append,
    List.map_append, List.map_map, List.map_map]
  exact List.Lex.append_left _ (map_bytes_lt hlt) _

/-- Of two lists of which neither begins the other, the order stays when they go on. -/
theorem append_lt_append {a b : Place} (h : a < b) (hab : ¬ a <+: b) (c c' : Place) :
    a ++ c < b ++ c' := by
  induction h with
  | nil => exact absurd List.nil_prefix hab
  | cons _ ih => exact List.Lex.cons (ih fun h => hab (List.cons_prefix_cons.2 ⟨rfl, h⟩))
  | rel h => exact List.Lex.rel h

theorem pairwise_sourceNames (hw : t.WellFormed) (p : Place) :
    (sourceNames t p).Pairwise (· < ·) := pairwise_map_fst hw _

theorem pairwise_controllerDirs (hw : t.WellFormed) (p : Place) :
    (controllerDirs t p).Pairwise (· < ·) := pairwise_map_fst hw _

/-! ## Scans -/

theorem isFound_iff (hw : t.WellFormed) : IsFound t p top names ↔
    names ∈ sourceNames t p ∧ (top ∨ dirName ∈ names.dropLast) := by
  rw [mem_sourceNames hw]
  constructor
  · rintro ⟨⟨text, mode, hget⟩, hext, hinside, hvisible⟩
    have hne : names ≠ [] := by
      rintro rfl
      cases hext
    exact ⟨⟨hne, ⟨text, mode, hget⟩, hext, (visible_iff hw hget hne).1 hvisible⟩,
      (inside_iff hw top hget hne).1 hinside⟩
  · rintro ⟨⟨hne, ⟨text, mode, hget⟩, hext, hhidden⟩, hinside⟩
    exact ⟨⟨text, mode, hget⟩, hext, (inside_iff hw top hget hne).2 hinside,
      (visible_iff hw hget hne).2 hhidden⟩

theorem isOutermost_iff_of_top (htop : top) :
    IsOutermost t p top d ↔ d = [] := by
  constructor
  · intro h
    by_contra hne
    exact h.outermost [] List.nil_prefix (Ne.symm hne) (.inl ⟨rfl, htop⟩)
  · rintro rfl
    refine ⟨.inl ⟨rfl, htop⟩, fun d n hd hne => ?_, fun d hd hne => ?_⟩
    · exact absurd (List.prefix_nil.1 hd) hne
    · exact absurd (List.prefix_nil.1 hd) hne

theorem isOutermost_iff_of_not_top (hw : t.WellFormed) (htop : ¬ top) :
    IsOutermost t p top d ↔ d ∈ controllerDirs t p := by
  rw [mem_controllerDirs hw]
  constructor
  · rintro ⟨⟨-, h⟩ | ⟨hname, hget⟩, hvisible, houter⟩
    · exact absurd h htop
    · have hne : d ≠ [] := by
        rintro rfl
        cases hname
      refine ⟨hname, hget, (visible_iff hw hget hne).1 hvisible, fun hmem => ?_⟩
      obtain ⟨d', hd', hne', hcontrollers⟩ := (inside_iff hw top hget hne).2 (.inr hmem)
      exact houter d' hd' hne' hcontrollers
  · rintro ⟨hname, hget, hhidden, hnotMem⟩
    have hne : d ≠ [] := by
      rintro rfl
      cases hname
    refine ⟨.inr ⟨hname, hget⟩, (visible_iff hw hget hne).2 hhidden, fun d' hd' hne' h => ?_⟩
    rcases (inside_iff hw top hget hne).1 ⟨d', hd', hne', h⟩ with h | h
    · exact htop h
    · exact hnotMem h

/-- Lists of the right names in the right order are what a scan has to find. -/
theorem finds_of_names (hw : t.WellFormed) {found dirs : List Place}
    (hfound : ∀ names, names ∈ found ↔ IsFound t p top names)
    (hdirs : ∀ d, d ∈ dirs ↔ IsOutermost t p top d)
    (hfoundLt : found.Pairwise (· < ·)) (hdirsLt : dirs.Pairwise (· < ·)) (root : String) :
    Finds t p top root ⟨dirs.map (pathOf root), found.map (pathOf root), []⟩ := by
  have hfoundName : ∀ names ∈ found, ∀ n ∈ names, Path.IsName n := by
    intro names hmem n hn
    obtain ⟨text, mode, hget⟩ := ((hfound names).1 hmem).file
    exact hw.isName_of_mem hget (List.mem_append_right p hn)
  have hdirsName : ∀ d ∈ dirs, ∀ n ∈ d, Path.IsName n := by
    intro d hmem n hn
    rcases ((hdirs d).1 hmem).controllers with ⟨rfl, -⟩ | ⟨-, hget⟩
    · cases hn
    · exact hw.isName_of_mem hget (List.mem_append_right p hn)
  refine ⟨fun path => ?_, ?_, fun path => ?_, ?_, ?_, rfl⟩
  · simp only [List.mem_map, hfound, eq_comm]
  · refine List.pairwise_map.2 (hfoundLt.imp_of_mem fun ha hb hlt => ?_)
    exact sortKey_pathOf_lt (hfoundName _ ha) (hfoundName _ hb) hlt
  · simp only [List.mem_map, hdirs, eq_comm]
  · refine List.pairwise_map.2 (hdirsLt.imp_of_mem fun ha hb hlt => ?_)
    exact sortKey_pathOf_lt (hdirsName _ ha) (hdirsName _ hb) hlt
  · simp only [List.forall_mem_map]
    intro a ha b hb hab
    rw [components_pathOf (hdirsName a ha), components_pathOf (hdirsName b hb),
      List.prefix_append_right_inj,
      List.prefix_map_iff_of_injective fun _ _ h => Component.name.inj h] at hab
    by_contra hne
    have hne' : a ≠ b := fun h => hne (congrArg _ h)
    exact ((hdirs b).1 hb).outermost a hab hne' ((hdirs a).1 ha).controllers

/-- The names of the files found below the directories found. -/
def foundNames (t : Tree) (p : Place) : List Place :=
  (controllerDirs t p).flatMap fun d => (sourceNames t (p ++ d)).map (d ++ ·)

theorem inHidden_append {rest : Place} (h : rest ≠ []) (hname : d.getLast? = some dirName) :
    inHidden (d ++ rest) = (inHidden d || inHidden rest) := by
  obtain ⟨init, rfl⟩ := List.getLast?_eq_some_iff.1 hname
  simp only [inHidden, List.dropLast_append_of_ne_nil h, List.dropLast_concat, List.any_append,
    List.any_cons, List.any_nil, not_isHidden_dirName, Bool.or_false]

theorem mem_foundNames (hw : t.WellFormed) :
    names ∈ foundNames t p ↔ names ∈ sourceNames t p ∧ dirName ∈ names.dropLast := by
  simp only [foundNames, List.mem_flatMap, List.mem_map, mem_controllerDirs hw,
    mem_sourceNames hw]
  constructor
  · rintro ⟨d, ⟨hname, hget, hhidden, houter⟩, rest, ⟨hne, hfile, hext, hrest⟩, rfl⟩
    refine ⟨⟨List.append_ne_nil_of_right_ne_nil d hne, ?_, ?_, ?_⟩, ?_⟩
    · rwa [← List.append_assoc]
    · rwa [List.getLast?_append_of_ne_nil _ hne]
    · rw [inHidden_append hne hname, hhidden, hrest]
      rfl
    · rw [List.dropLast_append_of_ne_nil hne]
      exact List.mem_append_left _ (List.mem_of_getLast? hname)
  · rintro ⟨⟨hne, ⟨text, mode, hget⟩, hext, hhidden⟩, hmem⟩
    -- The outermost directory is the one whose name comes first.
    obtain ⟨before, after, hsplit, hfirst⟩ := List.eq_append_cons_of_mem hmem
    obtain ⟨init, n, rfl⟩ := (List.eq_nil_or_concat names).resolve_left hne
    rw [List.concat_eq_append] at *
    rw [List.dropLast_concat] at hsplit
    subst hsplit
    have hnames : (before ++ dirName :: after) ++ [n] = (before ++ [dirName]) ++ (after ++ [n]) := by
      simp
    rw [hnames] at hget hext hhidden hne ⊢
    have hrest : after ++ [n] ≠ [] := by simp
    have hname : (before ++ [dirName]).getLast? = some dirName := List.getLast?_concat
    rw [inHidden_append hrest hname, Bool.or_eq_false_iff] at hhidden
    refine ⟨before ++ [dirName], ⟨hname, ?_, hhidden.1, ?_⟩, after ++ [n],
      ⟨hrest, ⟨text, mode, ?_⟩, ?_, hhidden.2⟩, rfl⟩
    · exact get?_of_isPrefix hw hget (List.prefix_append _ _) (by simp)
    · rwa [List.dropLast_concat]
    · rwa [List.append_assoc]
    · rwa [List.getLast?_append_of_ne_nil _ hrest] at hext

theorem pairwise_foundNames (hw : t.WellFormed) (p : Place) :
    (foundNames t p).Pairwise (· < ·) := by
  refine List.pairwise_flatMap.2 ⟨fun d _ => ?_, ?_⟩
  · refine List.pairwise_map.2 ((pairwise_sourceNames hw _).imp fun hlt => ?_)
    exact List.Lex.append_left _ hlt d
  · refine (pairwise_controllerDirs hw p).imp_of_mem fun {a b} ha hb hlt x hx y hy => ?_
    obtain ⟨c, -, rfl⟩ := List.mem_map.1 hx
    obtain ⟨c', -, rfl⟩ := List.mem_map.1 hy
    refine append_lt_append hlt (fun hab => ?_) c c'
    have hb : IsOutermost t p False b := (isOutermost_iff_of_not_top hw id).2 hb
    have ha : IsOutermost t p False a := (isOutermost_iff_of_not_top hw id).2 ha
    exact hb.outermost a hab (ne_of_lt hlt) ha.controllers

theorem pathOf_append (root : String) (d names : Place) :
    pathOf root (d ++ names) = pathOf (pathOf root d) names := List.foldl_append

theorem map_foundNames (t : Tree) (root : String) (p : Place) :
    (foundNames t p).map (pathOf root)
      = (controllerDirs t p).flatMap fun d => sources t (pathOf root d) (p ++ d) := by
  rw [foundNames, List.map_flatMap]
  simp only [sources_eq, List.map_map, Function.comp_def, pathOf_append]

theorem fileName?_eq_iff :
    (Path.fileName? root).getD root = dirName ↔ Path.fileName? root = some dirName := by
  cases h : Path.fileName? root with
  | some n => simp
  | none =>
    simp only [Option.getD_none, reduceCtorEq, iff_false]
    rintro rfl
    revert h
    decide

/-- The files found by a scan that does not begin in a directory for controllers. -/
theorem files_run (hroot : t.find false root = .ok (p, .dir))
    (hname : Path.fileName? root ≠ some dirName) :
    (run t root).files = (foundNames t p).map (pathOf root) := by
  rw [map_foundNames]
  simp only [run, hroot, fileName?_eq_iff, hname, if_false]

theorem mem_foundNames_iff (hw : t.WellFormed) :
    names ∈ foundNames t p ↔ IsFound t p False names := by
  rw [mem_foundNames hw, isFound_iff hw, false_or]

/-- A scan of a directory finds what it has to, if the directory is named as its path is; and the
order in which the file system has its entries does not show. -/
theorem run_finds (hw : t.WellFormed) (hroot : t.find false root = .ok (p, .dir)) :
    Finds t p (Path.fileName? root = some dirName) root (run t root) ∧
      ∀ t' : Tree, t'.entries.Perm t.entries → run t' root = run t root := by
  constructor
  · simp only [run, hroot, fileName?_eq_iff]
    split
    next htop =>
      rw [sources_eq]
      refine @finds_of_names t p _ hw _ [[]] (fun names => ?_) (fun d => ?_)
        (pairwise_sourceNames hw p) (List.pairwise_singleton _ _) root
      · rw [isFound_iff hw]
        exact (and_iff_left (.inl htop)).symm
      · rw [isOutermost_iff_of_top htop, List.mem_singleton]
    next htop =>
      rw [← map_foundNames]
      refine finds_of_names hw (fun names => ?_) (fun d => ?_) (pairwise_foundNames hw p)
        (pairwise_controllerDirs hw p) root
      · rw [isFound_iff hw, mem_foundNames hw, or_iff_right htop]
      · exact (isOutermost_iff_of_not_top hw htop).symm
  · intro t' hperm
    have hget := Tree.get?_of_perm hw.nodup hperm
    simp only [run, Tree.find_congr hget, sources, controllerDirs, hw.below_congr hperm]

/-- A directory for controllers, with one that is hidden and one below. -/
def nestedTree : Tree :=
  ⟨[(["controller"], .dir), (["controller", "b.go"], .file (some "") 420),
    (["controller", ".old"], .dir), (["controller", ".old", "c.go"], .file (some "") 420),
    (["controller", "v2"], .dir), (["controller", "v2", "controller"], .dir),
    (["controller", "v2", "controller", "a.go"], .file (some "") 420)]⟩

theorem run_nestedTree :
    Finds nestedTree [] (Path.fileName? "/" = some dirName) "/" (run nestedTree "/") ∧
      (run nestedTree "/").dirs = ["/controller"] ∧
      (run nestedTree "/").files = ["/controller/b.go", "/controller/v2/controller/a.go"] :=
  ⟨(run_finds (by decide +kernel) rfl).1, by decide +kernel, by decide +kernel⟩

/-- A directory for controllers that is reached from below has no name by its path, and so it does
not count as one. -/
theorem not_finds_parentDir :
    nestedTree.WellFormed ∧
      nestedTree.find false "/controller/v2/.." = .ok (["controller"], .dir) ∧
      ¬ Finds nestedTree ["controller"] (["controller"].getLast? = some dirName)
        "/controller/v2/.." (run nestedTree "/controller/v2/..") := by
  refine ⟨by decide +kernel, rfl, fun h => ?_⟩
  have hmem : "/controller/v2/.." ∈ (run nestedTree "/controller/v2/..").dirs :=
    (h.dirs_iff _).2 ⟨[], (isOutermost_iff_of_top rfl).2 rfl, rfl⟩
  revert hmem
  decide +kernel

end Scan
end Routing
end RouteScribe
