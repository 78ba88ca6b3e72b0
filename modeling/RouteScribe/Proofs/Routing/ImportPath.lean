import RouteScribe.Proofs.Routing.Alias
import RouteScribe.Proofs.Routing.Location
import RouteScribe.Proofs.Text.Rooted
import Mathlib.Data.List.DropRight

/-!
# RouteScribe.Proofs.Routing.ImportPath

Import paths of packages whose directories are given by names alone. In the project an import path
is the name of the module and the names that lead on from the root, so no two packages have the same
one; elsewhere it is a guess.

* `ImportPath.Names`: what the import path of a package is.
* `ImportPath.names_of_ofFile`: the import path of a file is that of its directory, and packages of
  one project differ in their import paths and so in their aliases.
-/

namespace RouteScribe
namespace Routing

open Files

namespace ImportPath

/-! ## The name of the module -/

/-- The text `s` is `text` without the slashes at its end. -/
structure IsTrimmed (text s : String) : Prop where
  slashes : ∃ k, text.toList = s.toList ++ List.replicate k '/'
  bare : s.toList.getLast? ≠ some '/'

theorem isTrimmed_trimSlashes (s : String) : IsTrimmed s (Project.trimSlashes s) := by
  have htrimmed : (Project.trimSlashes s).toList = s.toList.rdropWhile (· = '/') :=
    String.toList_ofList
  refine ⟨⟨(s.toList.rtakeWhile (· = '/')).length, ?_⟩, fun hlast => ?_⟩
  · have hall : ∀ c ∈ s.toList.rtakeWhile (· = '/'), c = '/' := fun c hc =>
      by simpa using List.mem_rtakeWhile_imp hc
    have hsplit := List.rdropWhile_append_rtakeWhile (p := (· = '/')) (l := s.toList)
    rw [htrimmed, ← List.eq_replicate_length.2 hall, hsplit]
  · rw [htrimmed] at hlast
    obtain ⟨hne, heq⟩ := List.mem_getLast?_eq_getLast hlast
    exact List.rdropWhile_last_not _ _ hne (by simp [← heq])

/-- A package below a module has another import path than the module itself. -/
theorem ne_append_ofSegments {module s : String} (h : IsTrimmed module s) {names : List String}
    (hne : names ≠ []) (hnames : ∀ n ∈ names, Path.IsName n) :
    module ≠ s ++ "/" ++ Path.ofSegments names := by
  obtain ⟨⟨k, hk⟩, -⟩ := h
  intro heq
  rw [heq, String.append_assoc, String.toList_append, List.append_cancel_left_eq,
    String.toList_append] at hk
  have hall : ∀ c ∈ (Path.ofSegments names).toList, c = '/' := fun c hc =>
    List.eq_of_mem_replicate (hk ▸ List.mem_append_right _ hc)
  have habs := Path.isAbsolute_ofSegments_names hne hnames
  have hsegments := Path.segments_ofSegments hne fun n hn => (hnames n hn).slash_notMem
  cases hcs : (Path.ofSegments names).toList with
  | nil =>
    rw [String.toList_eq_nil_iff.1 hcs] at hsegments
    exact (hnames "" (hsegments ▸ by decide)).ne_empty rfl
  | cons c cs =>
    rw [hcs] at hall
    simp [Path.isAbsolute, hcs, hall c List.mem_cons_self] at habs

theorem ofSegments_injective {names names' : List String} (hne : names ≠ []) (hne' : names' ≠ [])
    (h : ∀ n ∈ names, Path.IsName n) (h' : ∀ n ∈ names', Path.IsName n)
    (heq : Path.ofSegments names = Path.ofSegments names') : names = names' := by
  rw [← Path.segments_ofSegments hne fun n hn => (h n hn).slash_notMem, heq,
    Path.segments_ofSegments hne' fun n hn => (h' n hn).slash_notMem]

theorem under_of_ne_nil (module : String) {names : List String} (h : names ≠ []) :
    under module names = Project.trimSlashes module ++ "/" ++ Path.ofSegments names := by
  obtain ⟨n, names, rfl⟩ := List.exists_cons_of_ne_nil h
  rfl

theorem under_injective {module : String} {names names' : List String}
    (h : ∀ n ∈ names, Path.IsName n) (h' : ∀ n ∈ names', Path.IsName n)
    (heq : under module names = under module names') : names = names' := by
  have htrimmed := isTrimmed_trimSlashes module
  by_cases hne : names = []
  · subst hne
    by_contra hne'
    rw [under_of_ne_nil module (Ne.symm hne')] at heq
    exact ne_append_ofSegments htrimmed (Ne.symm hne') h' heq
  · by_cases hne' : names' = []
    · subst hne'
      rw [under_of_ne_nil module hne] at heq
      exact absurd heq.symm (ne_append_ofSegments htrimmed hne h)
    · rw [under_of_ne_nil module hne, under_of_ne_nil module hne'] at heq
      simp only [← String.toList_inj, String.toList_append, List.append_cancel_left_eq] at heq
      exact ofSegments_injective hne hne' h h' (String.toList_inj.1 heq)

/-! ## Directories -/

/-- The names lead from the root along directories only, as far as there is anything. -/
structure Plain (t : Tree) (dir : List String) : Prop where
  names : ∀ n ∈ dir, Path.IsName n
  unlinked : t.Unlinked [] dir

variable {t : Tree} {root dir : List String} {file : String}

theorem components_absolute (h : Plain t dir) :
    Path.components (absolute t (Path.rooted dir)) = .root :: dir.map .name := by
  unfold absolute
  cases hcanonical : t.canonical (Path.rooted dir) with
  | error r =>
    dsimp only
    rw [Path.absolute_rooted "/" h.names, Path.components_rooted h.names]
  | ok path =>
    unfold Tree.canonical at hcanonical
    split at hcanonical
    · cases hcanonical
    next q e hfind =>
      cases hcanonical
      suffices hq : q = dir by
        rw [hq]
        exact Path.components_rooted h.names
      rw [Path.rooted_eq_foldl h.names] at hfind
      by_cases hne : dir = []
      · subst hne
        have hroot : t.find true "/" = .ok ([], .dir) := rfl
        exact (Prod.mk.inj (Except.ok.inj (hfind.symm.trans hroot))).1
      · have hway : t.Enters linkLimit [] (Path.moves "/") linkLimit [] := .here _ _
        exact (Scan.of_find_pathOf hway h.unlinked h.names hne hfind).2.2.1

theorem isPrefix_components {names names' : List String} :
    (.root :: names.map .name : List Component) <+: .root :: names'.map .name ↔
      names <+: names' := by
  rw [List.cons_prefix_cons, and_iff_right rfl]
  refine ⟨fun h => ?_, fun h => h.map _⟩
  obtain ⟨rest, hrest⟩ := h
  obtain ⟨front, back, rfl, hfront, -⟩ := List.map_eq_append_iff.1 hrest.symm
  rw [Path.map_name_injective hfront]
  exact List.prefix_append _ _

theorem names_map_name (names : List String) : Path.names (names.map .name) = names := by
  simp [Path.names, List.filterMap_map]

theorem ofFile_below (module : String) {names : List String} (hroot : Plain t root)
    (hdir : Plain t (root ++ names)) (hfile : Path.parent? file = some (Path.rooted (root ++ names))) :
    ofFile t module (Path.rooted root) file = (⟨under module names, false⟩, []) := by
  have hbelow : Path.below? (.root :: root.map .name) (.root :: (root ++ names).map .name)
      = some (names.map .name) := by
    rw [Path.below?, if_pos (List.isPrefixOf_iff_prefix.2
      (isPrefix_components.2 (List.prefix_append root names))), List.map_append]
    simp
  simp only [ofFile, hfile, Option.getD_some, components_absolute hdir, components_absolute hroot,
    hbelow, names_map_name]

theorem ofFile_outside (module : String) (hroot : Plain t root) (hdir : Plain t dir)
    (hfile : Path.parent? file = some (Path.rooted dir)) (h : ¬ root <+: dir) :
    (ofFile t module (Path.rooted root) file).1 = ⟨under module dir, true⟩ := by
  have hbelow : Path.below? (.root :: root.map .name) (.root :: dir.map .name) = none := by
    rw [Path.below?, if_neg]
    rwa [List.isPrefixOf_iff_prefix, isPrefix_components]
  have hnames : Path.names (.root :: dir.map .name) = dir := names_map_name dir
  simp only [ofFile, hfile, Option.getD_some, components_absolute hdir, components_absolute hroot,
    hbelow, hnames]

/-! ## Import paths -/

/-- What the import path `p` of a package is; the names `root` lead to the project, and the names
`dir` to the package. -/
structure Names (module : String) (root dir : List String) (p : ImportPath) : Prop where
  /-- It is no guess in the project, and nowhere else. -/
  guessed_iff : p.guessed = false ↔ root <+: dir
  /-- At the root it is the name of the module as it is written. -/
  atRoot : dir = root → p.path = module
  /-- Below, the names that lead on follow the name of the module. -/
  below : ∀ names, names ≠ [] → dir = root ++ names →
    ∃ s, IsTrimmed module s ∧ p.path = s ++ "/" ++ Path.ofSegments names
  /-- Outside, all names follow it. -/
  outside : ¬ root <+: dir → dir ≠ [] →
    ∃ s, IsTrimmed module s ∧ p.path = s ++ "/" ++ Path.ofSegments dir
  /-- The root of the file system has no names. -/
  top : ¬ root <+: dir → dir = [] → p.path = module

theorem names_ofFile (module : String) (hroot : Plain t root) (hdir : Plain t dir)
    (hfile : Path.parent? file = some (Path.rooted dir)) :
    Names module root dir (ofFile t module (Path.rooted root) file).1 := by
  by_cases hprefix : root <+: dir
  · obtain ⟨names, rfl⟩ := hprefix
    rw [ofFile_below module hroot hdir hfile]
    refine ⟨⟨fun _ => List.prefix_append _ _, fun _ => rfl⟩, fun h => ?_, fun names' hne h => ?_,
      fun h => absurd (List.prefix_append _ _) h, fun h => absurd (List.prefix_append _ _) h⟩
    · rw [List.append_right_eq_self.1 h]
      rfl
    · obtain rfl := List.append_cancel_left h
      exact ⟨_, isTrimmed_trimSlashes module, under_of_ne_nil module hne⟩
  · rw [ofFile_outside module hroot hdir hfile hprefix]
    refine ⟨⟨nofun, fun h => absurd h hprefix⟩, fun h => ?_, fun names _ h => ?_,
      fun _ hne => ⟨_, isTrimmed_trimSlashes module, under_of_ne_nil module hne⟩, fun _ h => ?_⟩
    · exact absurd (h ▸ List.prefix_rfl) hprefix
    · exact absurd (h ▸ List.prefix_append _ _) hprefix
    · rw [h]
      rfl

/-- Packages of one project that have the same import path are the same. -/
theorem path_ofFile_injective (module : String) {dir' : List String} {file' : String}
    (hroot : Plain t root) (hdir : Plain t dir) (hdir' : Plain t dir')
    (hfile : Path.parent? file = some (Path.rooted dir))
    (hfile' : Path.parent? file' = some (Path.rooted dir')) (h : root <+: dir) (h' : root <+: dir')
    (heq : (ofFile t module (Path.rooted root) file).1.path
      = (ofFile t module (Path.rooted root) file').1.path) : dir = dir' := by
  obtain ⟨names, rfl⟩ := h
  obtain ⟨names', rfl⟩ := h'
  rw [ofFile_below module hroot hdir hfile, ofFile_below module hroot hdir' hfile'] at heq
  rw [under_injective (fun n hn => hdir.names n (List.mem_append_right _ hn))
    (fun n hn => hdir'.names n (List.mem_append_right _ hn)) heq]

open Registry in
/-- The import path of a file is made of the name of the module and the names of its directory.
Packages of one project have the same import path only if they are the same, and so it is with the
aliases that they have, whatever packages have aliases besides. -/
theorem names_of_ofFile (t : Tree) (module : String) {root : List String} (hroot : Plain t root) :
    (∀ dir file, Plain t dir → Path.parent? file = some (Path.rooted dir) →
      Names module root dir (ofFile t module (Path.rooted root) file).1) ∧
    ∀ dir dir' file file', Plain t dir → Plain t dir' →
      Path.parent? file = some (Path.rooted dir) → Path.parent? file' = some (Path.rooted dir') →
      root <+: dir → root <+: dir' →
      ∀ path path', path = (ofFile t module (Path.rooted root) file).1.path →
        path' = (ofFile t module (Path.rooted root) file').1.path →
        (path = path' → dir = dir') ∧
        ∀ uses, path ∈ uses → path' ∈ uses →
          ∃ a a', (empty.registerAll uses).localName? path = some a ∧
            (empty.registerAll uses).localName? path' = some a' ∧ (a = a' → dir = dir') := by
  refine ⟨fun dir file hdir hfile => names_ofFile module hroot hdir hfile,
    fun dir dir' file file' hdir hdir' hfile hfile' h h' path path' hpath hpath' => ?_⟩
  have hinjective : path = path' → dir = dir' := by
    rintro heq
    rw [hpath, hpath'] at heq
    exact path_ofFile_injective module hroot hdir hdir' hfile hfile' h h' heq
  refine ⟨hinjective, fun uses huses huses' => ?_⟩
  have hnumbers : (empty.registerAll uses).Numbers uses := numbers_empty.registerAll uses
  exact ⟨_, _, hnumbers.localName?_of_mem huses, hnumbers.localName?_of_mem huses',
    fun ha => hinjective (aliasFor_injective huses ha)⟩

/-- A project, and a directory beside it whose name only begins like that of the project. -/
def neighbours : Tree :=
  ⟨[(["p"], .dir), (["p", "shop"], .dir), (["p", "shop", "api"], .dir), (["p", "shop2"], .dir)]⟩

theorem plain_neighbours {names : List String} (h : ∀ n ∈ names, Path.IsName n) :
    Plain neighbours names := by
  refine ⟨h, fun w hne _ target hget => ?_⟩
  have hmem := Tree.mem_entries_of_get? hget (by simpa using hne)
  simp [neighbours] at hmem

theorem names_neighbours : Plain neighbours ["p", "shop"] ∧
    Names "m//" ["p", "shop"] ["p", "shop", "api"]
      (ofFile neighbours "m//" "/p/shop" "/p/shop/api/a.go").1 ∧
    (ofFile neighbours "m//" "/p/shop" "/p/shop/api/a.go").1 = ⟨"m/api", false⟩ ∧
    (ofFile neighbours "m//" "/p/shop" "/p/shop2/a.go").1 = ⟨"m/p/shop2", true⟩ ∧
    ∃ a a', (Registry.empty.registerAll ["m//", "m/api"]).localName? "m//" = some a ∧
      (Registry.empty.registerAll ["m//", "m/api"]).localName? "m/api" = some a' ∧ a ≠ a' := by
  have hroot : Plain neighbours ["p", "shop"] := plain_neighbours (by decide)
  have hdir : Plain neighbours ["p", "shop", "api"] := plain_neighbours (by decide)
  obtain ⟨hnames, hothers⟩ := names_of_ofFile neighbours "m//" hroot
  have haliases := (hothers ["p", "shop"] ["p", "shop", "api"] "/p/shop/a.go" "/p/shop/api/a.go"
    hroot hdir (by decide) (by decide) List.prefix_rfl (by decide) "m//" "m/api"
    (by decide +kernel) (by decide +kernel)).2
  obtain ⟨a, a', ha, ha', hne⟩ := haliases ["m//", "m/api"] (by decide) (by decide)
  exact ⟨hroot, hnames _ "/p/shop/api/a.go" hdir (by decide), by decide +kernel, by decide +kernel,
    a, a', ha, ha', fun heq => absurd (hne heq) (by decide)⟩

end ImportPath
end Routing
end RouteScribe
