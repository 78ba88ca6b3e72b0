import Mathlib.Data.List.Sort
import RouteScribe.Proofs.Files.Creation
import RouteScribe.Proofs.Project.Layout
import RouteScribe.Proofs.Routing.Marker
import RouteScribe.Proofs.Routing.Prefix

/-!
# RouteScribe.Proofs.Routing.Addition

One more source file among the controllers of a command. The files that were found before are found
again, read the same, and belong to the same packages; the new one is somewhere between them.

* `Addition`: what two file systems have to do with each other then.
* `Addition.exists_readFrom`: what the next analysis reads.
-/

namespace RouteScribe
namespace Routing

/-- Of two lists in one order, of which the second has one element more, the first is what stands
around that element. -/
theorem exists_eq_append_cons {α : Type} {r : α → α → Prop} [Std.Antisymm r] [Std.Irrefl r] {x : α}
    {xs ys : List α} (hxs : xs.Pairwise r) (hys : ys.Pairwise r) (hx : x ∉ xs)
    (hmem : ∀ y, y ∈ ys ↔ y = x ∨ y ∈ xs) :
    ∃ before after, xs = before ++ after ∧ ys = before ++ x :: after := by
  obtain ⟨before, after, rfl⟩ := List.append_of_mem ((hmem x).2 (.inl rfl))
  refine ⟨before, after, ?_, rfl⟩
  have hsublist : (before ++ after).Sublist (before ++ x :: after) :=
    (List.sublist_cons_self x after).append_left before
  refine hxs.eq_of_mem_iff (hys.sublist hsublist) fun y => ?_
  -- The element is not among the others, for it is not before itself.
  have hnew : x ∉ before ++ after :=
    (List.nodup_cons.1 (List.nodup_middle.1 hys.nodup)).1
  have hboth : y ∈ before ++ x :: after ↔ y = x ∨ y ∈ before ++ after := by
    simp only [List.mem_append, List.mem_cons, or_left_comm]
  rw [hmem] at hboth
  by_cases hyx : y = x
  · rw [hyx]
    exact iff_of_false hx hnew
  · simpa only [hyx, false_or] using hboth

namespace Analysis

open Files

variable {project : Project} {m : Matcher} {command : String} {t t' : Tree} {d x names : Place}
  {text : String} {files : List ParsedFile} {source : Go.SourceFile} {k : Nat}

/-! ## Scans -/

/-- What is found for a command, by the names that lead to it from the root. -/
theorem files_run_apiDir (hw : t.WellFormed) (hcommand : Path.IsName command)
    (hlinks : LinkFree t project.root) (hroot : t.Enters linkLimit [] (Path.moves project.root) k d)
    (hallowed : Tree.Allowed (project.apiDir command))
    (hnamed : ∀ n ∈ Project.apiNames [command], Tree.Named n) :
    (Scan.run t (project.apiDir command)).files
      = (Scan.foundNames t (d ++ Project.apiNames [command])).map fun names =>
        Scan.pathOf project.root (Project.apiNames [command] ++ names) := by
  have hway := Project.isName_of_mem_apiNames (List.forall_mem_singleton.2 hcommand)
  have hne := Project.apiNames_ne_nil [command]
  have hlast : (Project.apiNames [command]).getLast? ≠ some Scan.dirName := by
    simp [Project.getLast?_apiNames, Scan.dirName]
  rw [project.apiDir_eq_pathOf hcommand] at hallowed ⊢
  by_cases hdir : t.get? (d ++ Project.apiNames [command]) = some .dir
  · exact Scan.files_run_pathOf hway hne hlast
      (Scan.find_pathOf hw hroot (hlinks.unlinked hroot _) hway hne hallowed hnamed hdir)
  · -- Without the directory nothing is found, and nothing is there.
    have hnone : Scan.foundNames t (d ++ Project.apiNames [command]) = [] := by
      refine List.eq_nil_iff_forall_not_mem.2 fun names hnames => ?_
      have hfound := (Scan.mem_foundNames_iff hw).1 hnames
      obtain ⟨text, mode, hget⟩ := hfound.file
      have hne' : names ≠ [] := by
        rintro rfl
        cases hfound.extension
      refine hdir (hw.dir_of_isPrefix hget (List.prefix_append _ _) fun heq => hne' ?_)
      exact List.append_right_eq_self.1 heq.symm
    rw [hnone, List.map_nil]
    refine List.eq_nil_iff_forall_not_mem.2 fun path hpath => hdir ?_
    obtain ⟨k', p, henters, hfind⟩ :=
      Scan.dir_of_mem_files (fun _ _ hp => hlinks.unlinked hp _) hway hne hpath
    obtain rfl := hroot.unique henters
    exact (Tree.find_eq_ok_iff.1 hfind).2

/-- The names lead to a source file of controllers, wherever they begin. -/
structure Collected (names : Place) : Prop where
  extension : names.getLast?.bind Path.nameExtension? = some "go"
  visible : Scan.inHidden names = false
  inside : Scan.dirName ∈ names.dropLast

theorem Collected.ne_nil (h : Collected names) : names ≠ [] := by
  rintro rfl
  cases h.extension

theorem mem_foundNames_iff_collected (hw : t.WellFormed) {p : Place} :
    names ∈ Scan.foundNames t p ↔
      Collected names ∧ ∃ text mode, t.get? (p ++ names) = some (.file text mode) := by
  rw [Scan.mem_foundNames hw, Scan.mem_sourceNames hw]
  constructor
  · rintro ⟨⟨-, hfile, hextension, hvisible⟩, hinside⟩
    exact ⟨⟨hextension, hvisible, hinside⟩, hfile⟩
  · rintro ⟨h, hfile⟩
    exact ⟨⟨h.ne_nil, hfile, h.extension, h.visible⟩, h.inside⟩

/-! ## Additions -/

/-- The file system `t'` is `t` with one more source file of controllers, and maybe with more
directories. The root of the project is at `d`, and the names `x` lead to the file from the
directory of the controllers. -/
structure Addition (project : Project) (command : String) (t t' : Tree) (d x : Place)
    (text : String) : Prop where
  wellFormed : t.WellFormed
  isName_command : Path.IsName command
  linkFree : LinkFree t project.root
  enters : ∃ k, t.Enters linkLimit [] (Path.moves project.root) k d
  puts : Tree.Puts t t' (d ++ (Project.apiNames [command] ++ x)) text
  get?_none : t.get? (d ++ (Project.apiNames [command] ++ x)) = none
  collected : Collected x
  readText : t'.readText (Scan.pathOf project.root (Project.apiNames [command] ++ x)) = .ok text

namespace Addition

variable (h : Addition project command t t' d x text)

include h in
theorem linkFree_after : LinkFree t' project.root := by
  intro p hp names target hne hlink
  obtain ⟨k, henters⟩ := h.enters
  have hway := Tree.walk_of_leads (Tree.enters_steps_iff.2 (henters.mono h.puts.keeps)).leads
  obtain rfl := Except.ok.inj (hway.symm.trans hp)
  exact h.linkFree.get?_ne henters hne target (h.puts.keeps.of_get?_link hlink)

include h in
theorem isName_of_mem : ∀ n ∈ Project.apiNames [command] ++ x, Path.IsName n := fun _ hn =>
  h.puts.wellFormed.isName_of_mem h.puts.file (List.mem_append_right d hn)

include h in
theorem allowed : Tree.Allowed (project.apiDir command) ∧
    ∀ n ∈ Project.apiNames [command], Tree.Named n := by
  obtain ⟨k, henters⟩ := h.enters
  obtain ⟨q, mode, hfind⟩ := Tree.readText_eq_ok_iff.1 h.readText
  have hne : Project.apiNames [command] ++ x ≠ [] := by simp [Project.apiNames_ne_nil]
  obtain ⟨hallowed, hnamed, -⟩ := Scan.of_find_pathOf (henters.mono h.puts.keeps)
    (h.linkFree_after.unlinked (henters.mono h.puts.keeps) _) h.isName_of_mem hne hfind
  refine ⟨?_, fun n hn => hnamed n (List.mem_append_left x hn)⟩
  obtain ⟨hapi, hrest⟩ := List.forall_mem_append.1 h.isName_of_mem
  rw [Scan.pathOf_append] at hallowed
  rw [project.apiDir_eq_pathOf h.isName_command]
  exact Scan.allowed_of_allowed_pathOf hrest
    (Scan.pathOf_ne_empty hapi (Project.apiNames_ne_nil _)) hallowed

include h in
theorem mem_foundNames_after : names ∈ Scan.foundNames t' (d ++ Project.apiNames [command]) ↔
    names = x ∨ names ∈ Scan.foundNames t (d ++ Project.apiNames [command]) := by
  rw [mem_foundNames_iff_collected h.puts.wellFormed, mem_foundNames_iff_collected h.wellFormed,
    List.append_assoc]
  by_cases hx : names = x
  · subst hx
    exact iff_of_true ⟨h.collected, _, _, h.puts.file⟩ (.inl rfl)
  · have hne : d ++ (Project.apiNames [command] ++ names)
        ≠ d ++ (Project.apiNames [command] ++ x) := fun heq =>
      hx (List.append_cancel_left (List.append_cancel_left heq))
    simp only [hx, false_or, h.puts.file_iff hne]

include h in
theorem exists_files : ∃ before after,
    (Scan.run t (project.apiDir command)).files = before ++ after ∧
      (Scan.run t' (project.apiDir command)).files
        = before ++ Scan.pathOf project.root (Project.apiNames [command] ++ x) :: after := by
  obtain ⟨k, henters⟩ := h.enters
  obtain ⟨hallowed, hnamed⟩ := h.allowed
  have hnew : x ∉ Scan.foundNames t (d ++ Project.apiNames [command]) := by
    rw [mem_foundNames_iff_collected h.wellFormed, List.append_assoc, h.get?_none]
    rintro ⟨-, _, _, hfile⟩
    cases hfile
  obtain ⟨before, after, hbefore, hafter⟩ := exists_eq_append_cons
    (Scan.pairwise_foundNames h.wellFormed _) (Scan.pairwise_foundNames h.puts.wellFormed _) hnew
    fun names => h.mem_foundNames_after
  rw [files_run_apiDir h.wellFormed h.isName_command h.linkFree henters hallowed hnamed,
    files_run_apiDir h.puts.wellFormed h.isName_command h.linkFree_after
      (henters.mono h.puts.keeps) hallowed hnamed, hbefore, hafter, List.map_append,
    List.map_append, List.map_cons]
  exact ⟨_, _, rfl, rfl⟩

include h in
theorem exists_readFrom (hparse : Go.SourceFile.parse text = .ok source)
    (hread : ReadFrom t (Scan.run t (project.apiDir command)).files files) :
    ∃ before after, files = before ++ after ∧
      ReadFrom t' (Scan.run t' (project.apiDir command)).files (before ++
        ⟨Scan.pathOf project.root (Project.apiNames [command] ++ x), source⟩ :: after) := by
  obtain ⟨before, after, hbefore, hafter⟩ := h.exists_files
  obtain ⟨hpaths, hfiles⟩ := hread
  rw [hbefore] at hpaths
  obtain ⟨first, last, rfl, rfl, rfl⟩ := List.map_eq_append_iff.1 hpaths
  refine ⟨first, last, rfl, ?_, ?_⟩
  · rw [hafter, List.map_append, List.map_cons]
  · have hold : ∀ f ∈ first ++ last, ∃ text, t'.readText f.path = .ok text ∧
        Go.SourceFile.parse text = .ok f.source := fun f hf => by
      obtain ⟨old, hold, hsource⟩ := hfiles f hf
      exact ⟨old, h.puts.readText h.get?_none hold, hsource⟩
    obtain ⟨hfirst, hlast⟩ := List.forall_mem_append.1 hold
    exact List.forall_mem_append.2
      ⟨hfirst, List.forall_mem_cons.2 ⟨⟨text, h.readText, hparse⟩, hlast⟩⟩

end Addition

/-! ## Packages -/

/-- The package in the directory that names lead to from that of the controllers. -/
def package (project : Project) (command : String) (names : List String) : String :=
  ImportPath.under project.module (Project.apiNames [command] ++ names)

theorem package_injective (hcommand : Path.IsName command) {names' : List String}
    (hnames : ∀ n ∈ names, Path.IsName n) (hnames' : ∀ n ∈ names', Path.IsName n)
    (h : package project command names = package project command names') : names = names' := by
  have hsegments : ∀ {ns : List String}, (∀ n ∈ ns, Path.IsName n) →
      Path.segments (Path.ofSegments (Project.apiNames [command] ++ ns))
        = Project.apiNames [command] ++ ns := by
    intro ns hns
    refine Path.segments_ofSegments (by simp [Project.apiNames_ne_nil]) fun n hn => ?_
    rcases List.mem_append.1 hn with hn | hn
    · have hway := Project.isName_of_mem_apiNames (List.forall_mem_singleton.2 hcommand)
      exact (hway n hn).slash_notMem
    · exact (hns n hn).slash_notMem
  have hof : ∀ ns, package project command ns = Project.trimSlashes project.module ++ "/"
      ++ Path.ofSegments (Project.apiNames [command] ++ ns) := fun _ => rfl
  rw [hof, hof, String.append_right_inj] at h
  have hall := congrArg Path.segments h
  rw [hsegments hnames, hsegments hnames'] at hall
  exact List.append_cancel_left hall

/-- The package of a command is that of its controllers without names behind it. -/
theorem package_eq (hnames : names ≠ []) : package project command names
    = project.apiImport command ++ "/" ++ Path.ofSegments names := by
  have happend := ImportPath.under_append (Project.apiNames_ne_nil [command]) hnames project.module
  rw [package, happend, ← apiImport_eq project (List.cons_ne_nil command [])]
  simp [Path.ofSegments]

/-- A source file that can be read is in the package that the names lead to. -/
theorem importPath_of_readText {f : ParsedFile} (hw : t.WellFormed)
    (hlinks : LinkFree t project.root) (hroot : t.Enters linkLimit [] (Path.moves project.root) k d)
    (hx : Collected x) (hnames : ∀ n ∈ Project.apiNames [command] ++ x, Path.IsName n)
    (hpath : f.path = Scan.pathOf project.root (Project.apiNames [command] ++ x))
    (htext : t.readText f.path = .ok text) :
    f.importPath project t = package project command x.dropLast := by
  obtain ⟨init, n, rfl⟩ := Scan.exists_concat hx.ne_nil
  obtain ⟨q, mode, hfind⟩ := Tree.readText_eq_ok_iff.1 htext
  rw [← List.append_assoc] at hpath hnames
  rw [hpath] at hfind
  have hway : Project.apiNames [command] ++ init ≠ [] := by simp [Project.apiNames_ne_nil]
  rw [ParsedFile.importPath, hpath,
    Scan.ofFile_pathOf_of_enters hw hroot (hlinks.unlinked hroot _) hnames hway hfind,
    List.dropLast_concat, package]

namespace Addition

variable (h : Addition project command t t' d x text)

include h in
theorem importPath_new : ParsedFile.importPath project t'
    ⟨Scan.pathOf project.root (Project.apiNames [command] ++ x), source⟩
      = package project command x.dropLast := by
  obtain ⟨k, henters⟩ := h.enters
  exact importPath_of_readText h.puts.wellFormed h.linkFree_after (henters.mono h.puts.keeps)
    h.collected h.isName_of_mem rfl h.readText

include h in
/-- Where a file is that was read before, and to which package it belongs before and after. -/
theorem exists_importPath {f : ParsedFile} (hf : f ∈ files)
    (hread : ReadFrom t (Scan.run t (project.apiDir command)).files files) :
    ∃ init n, (∀ s ∈ init ++ [n], Path.IsName s) ∧
      f.path = Scan.pathOf project.root (Project.apiNames [command] ++ (init ++ [n])) ∧
      f.importPath project t = package project command init ∧
      f.importPath project t' = package project command init := by
  obtain ⟨k, henters⟩ := h.enters
  obtain ⟨hallowed, hnamed⟩ := h.allowed
  have hmem : f.path ∈ (Scan.run t (project.apiDir command)).files :=
    hread.1 ▸ List.mem_map_of_mem hf
  rw [files_run_apiDir h.wellFormed h.isName_command h.linkFree henters hallowed hnamed] at hmem
  obtain ⟨names, hnames, hpath⟩ := List.mem_map.1 hmem
  obtain ⟨hcollected, _, _, hget⟩ := (mem_foundNames_iff_collected h.wellFormed).1 hnames
  rw [List.append_assoc] at hget
  have hall : ∀ n ∈ Project.apiNames [command] ++ names, Path.IsName n := fun n hn =>
    h.wellFormed.isName_of_mem hget (List.mem_append_right d hn)
  obtain ⟨old, hold, -⟩ := hread.2 f hf
  have hbefore := importPath_of_readText h.wellFormed h.linkFree henters hcollected hall hpath.symm
    hold
  have hafter := importPath_of_readText h.puts.wellFormed h.linkFree_after
    (henters.mono h.puts.keeps) hcollected hall hpath.symm (h.puts.readText h.get?_none hold)
  obtain ⟨init, n, rfl⟩ := Scan.exists_concat hcollected.ne_nil
  rw [List.dropLast_concat] at hbefore hafter
  exact ⟨init, n, (List.forall_mem_append.1 hall).2, hpath.symm, hbefore, hafter⟩

end Addition

/-! ## What one file more contributes -/

section

variable {f : ParsedFile} {before after : List ParsedFile} {key : String}

theorem accepted_append_cons (m : Matcher) (before after : List ParsedFile) (f : ParsedFile) :
    accepted m (before ++ f :: after) = accepted m before ++ (accepted m [f] ++ accepted m after) := by
  rw [accepted_append, ← List.singleton_append, accepted_append]

theorem contributions_append (m : Matcher) (files more : List ParsedFile) :
    contributions m (files ++ more) = contributions m files ++ contributions m more := by
  rw [contributions, accepted_append, List.flatMap_append, contributions, contributions]

theorem mem_accepted {e : Declared} : e ∈ accepted m files ↔ e.file ∈ files ∧
    e.type ∈ e.file.source.types ∧ Matcher.accepts e.type m = true := by
  simp only [accepted, List.mem_flatMap, List.mem_map, List.mem_filter]
  constructor
  · rintro ⟨f, hf, decl, ⟨hdecl, haccepts⟩, rfl⟩
    exact ⟨hf, hdecl, haccepts⟩
  · rintro ⟨hf, hdecl, haccepts⟩
    exact ⟨e.file, hf, e.type, ⟨hdecl, haccepts⟩, rfl⟩

theorem type_mem_accepted {c : Contribution} (hc : c ∈ contributions m files) :
    c.type ∈ accepted m files := by
  obtain ⟨hfile, htype, haccepts, -⟩ := mem_contributions.1 hc
  exact mem_accepted.2 ⟨hfile, htype, haccepts⟩

/-- The keys of contributions are those of before if the packages of their files are. -/
theorem lastContribution?_congr (himports : ∀ f ∈ files,
      f.importPath project t' = f.importPath project t) (key : String) :
    lastContribution? project t' (contributions m files) key
      = lastContribution? project t (contributions m files) key := by
  rw [lastContribution?, lastContribution?, ← List.head?_filter, ← List.head?_filter]
  refine congrArg List.head? (List.filter_congr fun c hc => ?_)
  have hpath : c.type.importPath project t' = c.type.importPath project t :=
    himports c.type.file (mem_contributions.1 (List.mem_reverse.1 hc)).1
  rw [decide_eq_decide, Contribution.key, hpath, Contribution.key]

/-- A file between others decides about the keys that it contributes, if no other file has them. -/
theorem lastContribution?_append_cons
    (hkeys : ∀ c ∈ contributions m [f], ∀ c' ∈ contributions m (before ++ after),
      (c.key project t).text ≠ (c'.key project t).text) (key : String) :
    lastContribution? project t (contributions m (before ++ f :: after)) key
      = (lastContribution? project t (contributions m [f]) key).or
        (lastContribution? project t (contributions m (before ++ after)) key) := by
  have hsplit : contributions m (before ++ f :: after)
      = contributions m before ++ (contributions m [f] ++ contributions m after) := by
    rw [contributions_append, ← List.singleton_append, contributions_append]
  rw [contributions_append] at hkeys
  rw [hsplit, contributions_append]
  simp only [lastContribution?, List.reverse_append, List.find?_append, List.append_assoc]
  cases hfound : (contributions m [f]).reverse.find? fun c => (c.key project t).text = key with
  | none => simp
  | some c =>
    obtain ⟨hmem, hkey⟩ := mem_of_lastContribution? hfound
    have hafter : (contributions m after).reverse.find?
        (fun c => (c.key project t).text = key) = none := by
      refine List.find?_eq_none.2 fun c' hc' heq => ?_
      refine hkeys c hmem c' (List.mem_append_right _ (List.mem_reverse.1 hc')) ?_
      rw [hkey, of_decide_eq_true heq]
    rw [hafter]
    rfl

end

/-- The analysis `a'` says what `a` says, and what the file `f` contributes in the file system
`t`. -/
structure Extends (project : Project) (m : Matcher) (t : Tree) (f : ParsedFile)
    (a a' : Analysis) : Prop where
  fileCount : a'.fileCount = a.fileCount + 1
  controllers : ∃ before after,
    a.controllers.map (fun c => (c.importPath, c.typeName)) = before ++ after ∧
    a'.controllers.map (fun c => (c.importPath, c.typeName))
      = before ++ ((accepted m [f]).map (fun e => (e.importPath project t, e.type.name)) ++ after)
  absent : ∀ key c, lastContribution? project t (contributions m [f]) key = some c →
    a.router.verbs.get? key = none
  sorted_verbs : a'.router.verbs.Sorted
  verbs : ∀ key, a'.router.verbs.get? key
    = ((lastContribution? project t (contributions m [f]) key).map (·.verb)).or
      (a.router.verbs.get? key)
  sorted_middlewares : a.router.middlewares.Sorted ∧ a'.router.middlewares.Sorted
  middlewares : ∀ key, a'.router.middlewares.get? key
    = ((lastContribution? project t (contributions m [f]) key).bind (·.handlers?)).or
      (a.router.middlewares.get? key)
  middlewareImport : a'.router.middlewares = a.router.middlewares →
    a'.router.middlewareImport = a.router.middlewareImport

theorem map_accepted_congr (himports : ∀ f ∈ files,
      f.importPath project t' = f.importPath project t) :
    (accepted m files).map (fun e => (e.importPath project t', e.type.name))
      = (accepted m files).map fun e => (e.importPath project t, e.type.name) := by
  refine List.map_congr_left fun e he => ?_
  have hpath : e.importPath project t' = e.importPath project t :=
    himports e.file (mem_accepted.1 he).1
  rw [hpath]

section

variable {f : ParsedFile} {before after : List ParsedFile} {a a' : Analysis}
  (h : Reads project m t (before ++ after) a) (h' : Reads project m t' (before ++ f :: after) a')
  (himports : ∀ g ∈ before ++ after, g.importPath project t' = g.importPath project t)
  (hfresh : ∀ e ∈ accepted m [f], ∀ e' ∈ accepted m (before ++ after),
    e.importPath project t' = e'.importPath project t → e.type.name ≠ e'.type.name)

include h' himports hfresh in
/-- The keys of the file are those of no other file. -/
theorem key_ne_of_fresh {c c' : Contribution} (hc : c ∈ contributions m [f])
    (hc' : c' ∈ contributions m (before ++ after)) :
    (c.key project t').text ≠ (c'.key project t').text := by
  intro htext
  have hall : ∀ {c : Contribution}, c ∈ contributions m [f] ∨ c ∈ contributions m (before ++ after) →
      c ∈ contributions m (before ++ f :: after) := by
    intro c hc
    rw [← List.singleton_append, contributions_append, contributions_append, List.mem_append,
      List.mem_append]
    rw [contributions_append, List.mem_append] at hc
    exact or_left_comm.1 hc
  obtain ⟨hpath, htype, -⟩ := h'.keys c (hall (.inl hc)) c' (hall (.inr hc')) htext
  exact hfresh c.type (type_mem_accepted hc) c'.type (type_mem_accepted hc')
    (hpath.trans (himports c'.type.file (mem_contributions.1 hc').1)) htype

include h h' himports hfresh in
/-- A file that declares no controller that its package has adds what it contributes. -/
theorem Reads.extends (hcount : a'.fileCount = a.fileCount + 1) :
    Extends project m t' f a a' := by
  have hkeys : ∀ c ∈ contributions m [f], ∀ c' ∈ contributions m (before ++ after),
      (c.key project t').text ≠ (c'.key project t').text :=
    fun c hc c' hc' => key_ne_of_fresh h' himports hfresh hc hc'
  have hlast := lastContribution?_append_cons hkeys
  have hsame := lastContribution?_congr (m := m) himports
  have hnone : ∀ c ∈ contributions m [f],
      lastContribution? project t (contributions m (before ++ after)) (c.key project t').text
        = none := by
    intro c hc
    rw [← hsame]
    refine List.find?_eq_none.2 fun c' hc' heq => ?_
    exact hkeys c hc c' (List.mem_reverse.1 hc') (of_decide_eq_true heq).symm
  refine ⟨hcount, ?_, fun key c hc => ?_, h'.sorted_verbs, fun key => ?_,
    ⟨h.sorted_middlewares, h'.sorted_middlewares⟩, fun key => ?_, fun heq => ?_⟩
  · refine ⟨(accepted m before).map fun e => (e.importPath project t', e.type.name),
      (accepted m after).map fun e => (e.importPath project t', e.type.name), ?_, ?_⟩
    · rw [h.controllers, ← map_accepted_congr himports, accepted_append, List.map_append]
    · rw [h'.controllers, accepted_append_cons, List.map_append, List.map_append]
  · obtain ⟨hmem, hkey⟩ := mem_of_lastContribution? hc
    rw [h.verbs, ← hkey, hnone c hmem]
    rfl
  · rw [h'.verbs, h.verbs, hlast, hsame, Option.map_or]
  · rw [h'.middlewares, h.middlewares, hlast, hsame]
    cases hfound : lastContribution? project t' (contributions m [f]) key with
    | none => rfl
    | some c =>
      obtain ⟨hmem, hkey⟩ := mem_of_lastContribution? hfound
      rw [← hkey, hnone c hmem, Option.or_none, Option.bind_none, Option.or_none]
  · rw [h'.middlewareImport, h.middlewareImport, heq]

end

/-- The source file at `path` declares a type of that name. -/
def Declares (t : Tree) (path typeName : String) : Prop :=
  ∃ text source, t.readText path = .ok text ∧ Go.SourceFile.parse text = .ok source ∧
    ∃ decl ∈ source.types, decl.name = typeName

namespace Addition

variable (h : Addition project command t t' d x text)

include h in
theorem importPath_eq {f : ParsedFile} (hf : f ∈ files)
    (hread : ReadFrom t (Scan.run t (project.apiDir command)).files files) :
    f.importPath project t' = f.importPath project t := by
  obtain ⟨init, n, -, -, hbefore, hafter⟩ := h.exists_importPath hf hread
  rw [hbefore, hafter]

include h in
theorem parent?_eq {f : ParsedFile} (hf : f ∈ files)
    (hread : ReadFrom t (Scan.run t (project.apiDir command)).files files)
    (hpath : f.importPath project t = package project command x.dropLast) :
    Path.parent? f.path
      = Path.parent? (Scan.pathOf project.root (Project.apiNames [command] ++ x)) := by
  obtain ⟨init, n, hnames, hwhere, hpackage, -⟩ := h.exists_importPath hf hread
  have hall := h.isName_of_mem
  obtain ⟨init', n', rfl⟩ := Scan.exists_concat h.collected.ne_nil
  rw [List.dropLast_concat] at hpath
  obtain ⟨hapi, hx⟩ := List.forall_mem_append.1 hall
  obtain rfl : init = init' := package_injective h.isName_command
    (fun s hs => hnames s (List.mem_append_left _ hs))
    (fun s hs => hx s (List.mem_append_left _ hs)) (hpackage.symm.trans hpath)
  have hparent : ∀ n, (∀ s ∈ init ++ [n], Path.IsName s) →
      Path.parent? (Scan.pathOf project.root (Project.apiNames [command] ++ (init ++ [n])))
        = some (Scan.pathOf project.root (Project.apiNames [command] ++ init)) := by
    intro n hn
    rw [← List.append_assoc]
    refine Scan.parent?_pathOf (fun m hm => ?_) (by simp [Project.apiNames_ne_nil])
    rw [List.append_assoc] at hm
    exact (List.mem_append.1 hm).elim (hapi m) (hn m)
  rw [hwhere, hparent n hnames, hparent n' hx]

include h in
/-- The next analysis says what the one before has said, and what the new file contributes, if the
directory of the file has no file that declares one of its types. -/
theorem exists_analysis {s s₁ : Session} {a : Analysis} {marked : Bool} (hs : s.tree = t)
    (hparse : Go.SourceFile.parse text = .ok source)
    (hbefore : (ofCommand project marked command).perform s = (.ok a, s₁))
    (hfresh : ∀ path ∈ (Scan.run t (project.apiDir command)).files, Path.parent? path
        = Path.parent? (Scan.pathOf project.root (Project.apiNames [command] ++ x)) →
      ∀ decl ∈ source.types, ¬ Declares t path decl.name) :
    ∃ a' files files', (∀ log, ∃ log',
        (ofCommand project marked command).perform ⟨t', log⟩ = (.ok a', ⟨t', log'⟩)) ∧
      Extends project (matcher marked) t'
        ⟨Scan.pathOf project.root (Project.apiNames [command] ++ x), source⟩ a a' ∧
      Linked project (matcher marked) t files a ∧ Linked project (matcher marked) t' files' a' := by
  subst hs
  obtain ⟨-, files, hread, rfl⟩ := of_ofDirBy_ok hbefore
  obtain ⟨before, after, rfl, hread'⟩ := h.exists_readFrom hparse hread
  have hrun : ∀ log, ∃ log', (ofCommand project marked command).perform ⟨t', log⟩
      = (.ok (result (Scan.run t' (project.apiDir command)) (progress project (matcher marked) t'
        (before ++ ⟨_, source⟩ :: after))), ⟨t', log'⟩) := fun log =>
    perform_ofDirBy_of_readFrom (s := ⟨t', log⟩) project (matcher marked) hread'
  refine ⟨_, _, _, hrun, ?_, linked_result _ project (matcher marked) s.tree _,
    linked_result _ project (matcher marked) t' _⟩
  refine Reads.extends (reads_result _ hread) (reads_result _ hread')
    (fun f hf => h.importPath_eq hf hread) (fun e he e' he' hpath htype => ?_) ?_
  · obtain ⟨hf, hdecl, -⟩ := mem_accepted.1 he
    obtain ⟨hf', hdecl', -⟩ := mem_accepted.1 he'
    obtain ⟨f, decl⟩ := e
    obtain rfl := List.mem_singleton.1 hf
    obtain ⟨old, hold, hsource⟩ := hread.2 e'.file hf'
    exact hfresh e'.file.path (hread.1 ▸ List.mem_map_of_mem hf')
      (h.parent?_eq hf' hread (hpath.symm.trans h.importPath_new)) decl hdecl
      ⟨old, e'.file.source, hold, hsource, e'.type, hdecl', htype.symm⟩
  · have hcount := congrArg List.length hread.1
    have hcount' := congrArg List.length hread'.1
    simp only [List.length_map, List.length_append, List.length_cons] at hcount hcount'
    simp only [result]
    omega

end Addition

end Analysis
end Routing
end RouteScribe
