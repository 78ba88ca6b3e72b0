import RouteScribe.Proofs.Files.Writing
import RouteScribe.Proofs.Project.Layout
import RouteScribe.Proofs.Routing.Generation
import RouteScribe.Proofs.Routing.Location
import RouteScribe.Proofs.Routing.Source

/-!
# RouteScribe.Proofs.Routing.Regeneration

Generating a router once more. The directory of the router is beside that of the controllers, so
what is written there is not read by the next analysis, and all that is read stays what it was.

* `ofDirBy_again`: an analysis that reads the same comes to the same.
* `Beside`: what a file system has after a router was written.
* `generate_again`: what a generation changes, and that a second one changes nothing.
-/

namespace RouteScribe
namespace Routing
namespace Analysis

open Files

variable {project : Project} {m : Matcher} {command : String} {t t' : Tree}

/-! ## Analyses that read the same -/

theorem ofDirBy_again {dir : String} {s s₁ : Session} {a : Analysis} (log : List Notice)
    (h : (ofDirBy project m dir).perform s = (.ok a, s₁))
    (hscan : (Scan.run t' dir).files = (Scan.run s.tree dir).files)
    (htext : ∀ path ∈ (Scan.run s.tree dir).files, ∀ text, s.tree.readText path = .ok text →
      t'.readText path = .ok text ∧ ImportPath.ofFile t' project.module project.root path
        = ImportPath.ofFile s.tree project.module project.root path) :
    ∃ a' log', (ofDirBy project m dir).perform ⟨t', log⟩ = (.ok a', ⟨t', log'⟩) ∧
      a'.router = a.router ∧ a'.controllers = a.controllers ∧ a'.fileCount = a.fileCount := by
  obtain ⟨-, files, hread, rfl⟩ := of_ofDirBy_ok h
  have hmem : ∀ f ∈ files, f.path ∈ (Scan.run s.tree dir).files := fun f hf =>
    hread.1 ▸ List.mem_map_of_mem hf
  have hread' : ReadFrom t' (Scan.run t' dir).files files := by
    refine ⟨hread.1.trans hscan.symm, fun f hf => ?_⟩
    obtain ⟨text, hftext, hparse⟩ := hread.2 f hf
    exact ⟨text, (htext f.path (hmem f hf) text hftext).1, hparse⟩
  obtain ⟨files', log', hfiles', hrun⟩ :=
    perform_ofDirBy_of_readable (s := ⟨t', log⟩) project m (fault?_eq_none_of_readFrom hread')
  obtain rfl := readFrom_unique hfiles' hread'
  have hprogress : progress project m t' files' = progress project m s.tree files' := by
    refine addFiles_congr rfl (List.forall₂_same.2 fun f hf => ⟨rfl, ?_⟩) _
    obtain ⟨text, hftext, -⟩ := hread.2 f hf
    exact (htext f.path (hmem f hf) text hftext).2
  refine ⟨_, log', hrun, ?_, ?_, ?_⟩
  · simp only [result, hprogress]
  · simp only [result, hprogress]
  · simp only [result, hscan]

/-! ## Where things are -/

variable {p q r d : Place} {k : Nat} {path : String} {names : List String}

/-- Below a directory without links, names lead where they say, as far as they were links in a
file system before. -/
theorem eq_append_of_linkFree (hkeeps : Tree.Keeps t t') (hlinks : LinkFree t path)
    (hp : t.Enters linkLimit [] (Path.moves path) k p) (hnames : ∀ n ∈ names, Path.IsName n)
    {k' : Nat} (h : t'.Enters linkLimit [] (Path.moves path ++ names) k' r) : r = p ++ names := by
  obtain ⟨k₁, p₁, hfirst, hrest⟩ := Tree.of_enters_append h
  obtain rfl := (hp.mono hkeeps).unique hfirst
  exact (hrest.eq_append (Path.names_ne_dots hnames) ((hlinks.unlinked hp names).keeps hkeeps)).1

/-- What a file system has after a router was written to the directory at `r`. -/
structure Beside (project : Project) (command : String) (t t' : Tree) (r : Place) : Prop where
  keeps : Tree.Keeps t t'
  frame : ∀ p, p ≠ r ++ [routerFile] →
    t'.get? p = t.get? p ∨ t.get? p = none ∧ t'.get? p = some .dir ∧ p <+: r
  below_eq : ∀ p, ¬ p <+: r ++ [routerFile] → t'.below p = t.below p
  cut : ∃ old new k d, Tree.Cut t (project.routerDir command) old new k d ∧ ".." ∉ new ∧ r = d ++ new
  enters : ∃ k, t'.Enters linkLimit [] (Path.moves (project.routerDir command)) k r

theorem isName_router : Path.IsName "router" := by decide

theorem isName_routerFile : Path.IsName routerFile := by decide

theorem isName_api : Path.IsName "api" := by decide

theorem moves_routerDir (hcommand : Path.IsName command) : Path.moves (project.routerDir command)
    = Path.moves project.root ++ Project.transportNames command ++ ["router"] := by
  rw [project.routerDir_eq hcommand, Path.moves_join_name _ isName_router,
    project.moves_transportDir hcommand]

theorem dots_notMem_of_cut (hcommand : Path.IsName command)
    (hroot : t.isDir project.root = true ∨ ".." ∉ Path.moves project.root)
    {old new : List String} (h : Tree.Cut t (project.routerDir command) old new k d) :
    ".." ∉ new := by
  have hnames : ".." ∉ Project.transportNames command ++ ["router"] := by
    intro hmem
    rcases List.mem_append.1 hmem with hmem | hmem
    · exact (Project.isName_of_mem_transportNames hcommand _ hmem).ne_dots rfl
    · exact absurd (List.mem_singleton.1 hmem) (by decide)
  refine h.dots_notMem ?_ hnames hroot
  rw [moves_routerDir hcommand, List.append_assoc]

theorem router_eq_append (hkeeps : Tree.Keeps t t') (hcommand : Path.IsName command)
    (hlinks : LinkFree t project.root)
    (hp : t.Enters linkLimit [] (Path.moves project.root) k p) {k' : Nat}
    (hr : t'.Enters linkLimit [] (Path.moves (project.routerDir command)) k' r) :
    r = p ++ (Project.transportNames command ++ ["router"]) := by
  rw [moves_routerDir hcommand, List.append_assoc] at hr
  refine eq_append_of_linkFree hkeeps hlinks hp (fun n hn => ?_) hr
  rcases List.mem_append.1 hn with hn | hn
  · exact Project.isName_of_mem_transportNames hcommand n hn
  · rw [List.mem_singleton.1 hn]
    exact isName_router

/-- A router that was written is beside all else. -/
theorem beside_of_write (hw : t.WellFormed) (hcommand : Path.IsName command)
    (hroot : t.isDir project.root = true ∨ ".." ∉ Path.moves project.root)
    (hlinks : LinkFree t project.root) {text : String}
    (h : t.write (Path.join (project.routerDir command) routerFile) text = (t', none)) :
    ∃ r, Beside project command t t' r ∧
      t'.find false (Path.join (project.routerDir command) routerFile)
        = .ok (r ++ [routerFile], .file (some text) Tree.usualMode) ∧
      t'.write (Path.join (project.routerDir command) routerFile) text = (t', none) := by
  rw [project.routerDir_eq hcommand] at h ⊢
  obtain ⟨hallowed, hnamed, t₁, k, r, hdirs, hr, hdir, ht'⟩ :=
    Tree.of_write_join isName_router isName_routerFile h
  have hroom := Tree.hasRoom_of_write isName_router isName_routerFile h hdirs
  rw [← project.routerDir_eq hcommand] at hdirs hr
  have ht₁ : t₁ = (t.makeDirs (project.routerDir command)).1 := by rw [hdirs]
  have hmore : Tree.MoreDirs t t₁ := ht₁ ▸ Tree.moreDirs_makeDirs t _
  rw [ht₁] at hr
  obtain ⟨old, new, k', d, hcut⟩ := Tree.exists_cut hw hr
  have hdots := dots_notMem_of_cut hcommand hroot hcut
  obtain ⟨hrd, hdirAt, hframe⟩ := Tree.of_makeDirs hw hr hcut hdots
  rw [← ht₁] at hr hdirAt hframe
  have hq : r ++ [routerFile] ≠ [] := by simp
  -- What stands where the router is to be is no link, for it would be below the root.
  have hends : Tree.Ends true (t₁.get? (r ++ [routerFile])) := by
    cases hget : t₁.get? (r ++ [routerFile]) with
    | none => exact trivial
    | some e =>
      cases e with
      | dir => exact absurd hget hdir
      | file text mode => exact trivial
      | link target =>
        have hold := hmore.keeps.of_get?_link hget
        by_cases hnew : new = []
        · have hold' : old = Path.moves (project.routerDir command) := by
            rw [hcut.moves_eq, hnew, List.append_nil]
          have hway := hcut.enters
          rw [hold', moves_routerDir hcommand, List.append_assoc] at hway
          obtain ⟨k₁, p, hp, -⟩ := Tree.of_enters_append hway
          have hrp := router_eq_append hmore.keeps hcommand hlinks hp hr
          rw [hrp, List.append_assoc] at hold
          exact absurd hold (hlinks.get?_ne hp (by simp) target)
        · have hnone := hcut.get?_none hw (w := new ++ [routerFile]) (by simp)
            (List.head?_append_of_ne_nil new hnew)
          rw [hrd, List.append_assoc, hnone] at hold
          cases hold
  have hput : Tree.Keeps t₁ t' := ht' ▸ Tree.keeps_put_file hq hends (some text) Tree.usualMode
  have hfile : t'.get? (r ++ [routerFile]) = some (.file (some text) Tree.usualMode) :=
    ht' ▸ Tree.get?_put t₁ hq _
  have hplace : t'.place false (Path.join (project.routerDir command) routerFile)
      = .ok (r ++ [routerFile]) := by
    rw [project.routerDir_eq hcommand] at hr ⊢
    refine Tree.place_join_name isName_routerFile hallowed (hr.mono hput) (.last hnamed ?_)
    rw [hfile]
    exact trivial
  refine ⟨r, ⟨hmore.keeps.trans hput, fun p hp => ?_, fun p hp => ?_, ⟨old, new, k', d, hcut, hdots, hrd⟩,
    ⟨k, ?_⟩⟩, ?_, ?_⟩
  · rw [ht', Tree.get?_put_of_ne t₁ hp]
    refine (hframe p).imp_right fun ⟨hnone, hnew, w, hw', hpw⟩ => ⟨hnone, hnew, ?_⟩
    rw [hrd, hpw]
    exact (List.prefix_append_right_inj d).2 hw'
  · rw [ht', Tree.below_put hp, ht₁]
    refine Tree.below_makeDirs fun p' hnone hnew hpp => ?_
    rw [← ht₁] at hnew
    rcases hframe p' with hsame | ⟨-, -, w, hw', hpw⟩
    · rw [hsame, hnone] at hnew
      cases hnew
    · refine hp (hpp.trans ?_)
      rw [hpw, hrd]
      exact ((List.prefix_append_right_inj d).2 hw').trans (List.prefix_append _ _)
  · exact hr.mono hput
  · rw [← project.routerDir_eq hcommand]
    exact Tree.find_eq_ok_iff.2 ⟨hplace, hfile⟩
  · rw [project.routerDir_eq hcommand] at hr
    exact Tree.write_again isName_router isName_routerFile hallowed hnamed hr hdirAt hends
      (Tree.append_go_notMem_temporaryNames "router") hroom ht'

/-! ## What is scanned -/

theorem moves_apiDir (hcommand : Path.IsName command) : Path.moves (project.apiDir command)
    = Path.moves project.root ++ (Project.transportNames command ++ ["api"]) := by
  rw [project.apiDir_eq hcommand, Path.moves_join_name _ isName_api,
    project.moves_transportDir hcommand, List.append_assoc]

theorem of_find_api {e : Entry} (hcommand : Path.IsName command)
    (h : t.find false (project.apiDir command) = .ok (p, e)) :
    Tree.Allowed (project.apiDir command) ∧ t.get? p = some e ∧
      ∃ k d, t.Enters linkLimit [] (Path.moves project.root ++ Project.transportNames command) k d ∧
        p = d ++ ["api"] := by
  obtain ⟨hplace, hget⟩ := Tree.find_eq_ok_iff.1 h
  rw [project.apiDir_eq hcommand] at hplace ⊢
  obtain ⟨hallowed, k, d, henters, hlast⟩ := Tree.of_place_join_name isName_api hplace
  rw [project.moves_transportDir hcommand] at henters
  obtain ⟨rfl, -⟩ := hlast.eq_concat ⟨isName_api.ne_dot, isName_api.ne_dots⟩ (by simp)
  exact ⟨hallowed, hget, k, d, henters, rfl⟩

theorem find_api {e : Entry} (hcommand : Path.IsName command)
    (hallowed : Tree.Allowed (project.apiDir command))
    (h : t.Enters linkLimit [] (Path.moves project.root ++ Project.transportNames command) k d)
    (he : t.get? (d ++ ["api"]) = some e) :
    t.find false (project.apiDir command) = .ok (d ++ ["api"], e) := by
  have hnamed : Tree.Named "api" := ⟨by decide, by decide, by decide⟩
  have hlast : t.Leads false k d ["api"] (d ++ ["api"]) := by
    cases e with
    | dir => exact .dir hnamed he (.here k _)
    | file text mode => exact .last hnamed (by rw [he]; exact trivial)
    | link target => exact .last hnamed (by rw [he]; rfl)
  rw [← project.moves_transportDir hcommand] at h
  rw [project.apiDir_eq hcommand] at hallowed ⊢
  exact Tree.find_eq_ok_iff.2 ⟨Tree.place_join_name isName_api hallowed h hlast, he⟩

theorem Keeps.refl (t : Tree) : Tree.Keeps t t := fun _ => .inl rfl

/-- The controllers are below the root. -/
theorem api_eq_append {e : Entry} (hcommand : Path.IsName command)
    (hlinks : LinkFree t project.root)
    (h : t.find false (project.apiDir command) = .ok (p, e)) :
    ∃ k d, t.Enters linkLimit [] (Path.moves project.root) k d ∧
      p = d ++ (Project.transportNames command ++ ["api"]) := by
  obtain ⟨-, -, k, d, henters, rfl⟩ := of_find_api hcommand h
  obtain ⟨k', d', hroot, -⟩ := Tree.of_enters_append henters
  have hd := eq_append_of_linkFree (Keeps.refl t) hlinks hroot
    (Project.isName_of_mem_transportNames hcommand) henters
  exact ⟨k', d', hroot, by rw [hd, List.append_assoc]⟩

section

variable (hw : t.WellFormed) (hcommand : Path.IsName command) (hlinks : LinkFree t project.root)
  (h : Beside project command t t' r)

include h in
theorem get?_of_not_isPrefix (hp : ¬ p <+: r ++ [routerFile]) : t'.get? p = t.get? p := by
  have hne : p ≠ r ++ [routerFile] := fun heq => hp (heq ▸ List.prefix_rfl)
  rcases h.frame p hne with hsame | ⟨-, -, hpr⟩
  · exact hsame
  · exact absurd (hpr.trans (List.prefix_append _ _)) hp

include hcommand hlinks h in
theorem not_isPrefix_router (hroot : t.Enters linkLimit [] (Path.moves project.root) k d) :
    ¬ d ++ (Project.transportNames command ++ ["api"]) <+: r ++ [routerFile] := by
  obtain ⟨k', hr⟩ := h.enters
  rw [router_eq_append h.keeps hcommand hlinks hroot hr]
  intro hpre
  rw [List.append_assoc, List.append_assoc, List.prefix_append_right_inj,
    List.prefix_append_right_inj] at hpre
  exact absurd (List.cons_prefix_cons.1 hpre).1 (by decide)

include hcommand hlinks h in
theorem find_api_after {e : Entry} (hfind : t.find false (project.apiDir command) = .ok (p, e)) :
    t'.find false (project.apiDir command) = .ok (p, e) ∧ ¬ p <+: r ++ [routerFile] := by
  obtain ⟨hallowed, hget, k, d, henters, rfl⟩ := of_find_api hcommand hfind
  obtain ⟨k', d', hroot, hp⟩ := api_eq_append hcommand hlinks hfind
  have hnot := not_isPrefix_router hcommand hlinks h hroot
  rw [← hp] at hnot
  refine ⟨find_api hcommand hallowed (henters.mono h.keeps) ?_, hnot⟩
  rw [get?_of_not_isPrefix h hnot, hget]

include hw hcommand hlinks h in
theorem find_api_before {e : Entry} (hfind : t'.find false (project.apiDir command) = .ok (p, e)) :
    t.find false (project.apiDir command) = .ok (p, e) := by
  obtain ⟨hallowed, hget, k, d, henters, rfl⟩ := of_find_api hcommand hfind
  obtain ⟨old, new, k₁, d₁, hcut, hdots, hr⟩ := h.cut
  have hmoves := hcut.moves_eq
  rw [moves_routerDir hcommand] at hmoves
  by_cases hold : ∃ k₂ d₂, t.Enters linkLimit []
      (Path.moves project.root ++ Project.transportNames command) k₂ d₂
  · obtain ⟨k₂, d₂, hbefore⟩ := hold
    obtain rfl := (hbefore.mono h.keeps).unique henters
    obtain ⟨k', d', hroot, -⟩ := Tree.of_enters_append hbefore
    have hd := eq_append_of_linkFree (Keeps.refl t) hlinks hroot
      (Project.isName_of_mem_transportNames hcommand) hbefore
    have hnot := not_isPrefix_router hcommand hlinks h hroot
    rw [← List.append_assoc, ← hd] at hnot
    exact find_api hcommand hallowed hbefore (get?_of_not_isPrefix h hnot ▸ hget)
  · -- The way is new from somewhere before, and only the router is at its end.
    obtain ⟨w, hne, rfl, hsplit⟩ : ∃ w, w ≠ [] ∧ new = w ++ ["router"] ∧
        Path.moves project.root ++ Project.transportNames command = old ++ w := by
      rcases List.eq_nil_or_concat new with rfl | ⟨w, n, rfl⟩
      · rw [List.append_nil] at hmoves
        have hway := hcut.enters
        rw [← hmoves] at hway
        obtain ⟨k₂, d₂, hbefore, -⟩ := Tree.of_enters_append hway
        exact absurd ⟨k₂, d₂, hbefore⟩ hold
      · rw [List.concat_eq_append, ← List.append_assoc] at hmoves
        obtain ⟨hinit, hlast⟩ := List.append_inj' hmoves rfl
        refine ⟨w, ?_, by rw [List.concat_eq_append, hlast], hinit⟩
        rintro rfl
        rw [List.append_nil] at hinit
        exact hold ⟨k₁, d₁, hinit ▸ hcut.enters⟩
    have hnone : ∀ w', w' ≠ [] → w'.head? = w.head? → t.get? (d₁ ++ w') = none := by
      intro w' hne' hhead
      refine hcut.get?_none hw hne' (hhead.trans ?_)
      exact (List.head?_append_of_ne_nil w hne).symm
    have hlinks' : t'.Unlinked d₁ w := by
      intro w' hne' hw' target hlink
      have hlink' := h.keeps.of_get?_link hlink
      rw [hnone w' hne' (Tree.head?_eq_of_isPrefix hne' hw')] at hlink'
      cases hlink'
    have hnames : ∀ s ∈ w, s ≠ "." ∧ s ≠ ".." := by
      intro s hs
      have hmem : s ∈ Path.moves (project.routerDir command) := by
        rw [hcut.moves_eq]
        exact List.mem_append_right _ (List.mem_append_left _ hs)
      refine ⟨Tree.ne_dot_of_mem_moves hmem, ?_⟩
      rintro rfl
      exact hdots (List.mem_append_left _ hs)
    rw [hsplit] at henters
    obtain ⟨k₂, d₂, hfirst, hrest⟩ := Tree.of_enters_append henters
    obtain rfl := (hcut.enters.mono h.keeps).unique hfirst
    obtain ⟨rfl, -⟩ := hrest.eq_append hnames hlinks'
    have hnot : ¬ d₁ ++ w ++ ["api"] <+: r ++ [routerFile] := by
      intro hpre
      rw [hr, List.append_assoc, List.append_assoc, List.append_assoc,
        List.prefix_append_right_inj, List.prefix_append_right_inj] at hpre
      exact absurd (List.cons_prefix_cons.1 hpre).1 (by decide)
    rw [get?_of_not_isPrefix h hnot, List.append_assoc,
      hnone _ (by simp) (List.head?_append_of_ne_nil w hne)] at hget
    cases hget

/-- A scan depends on the directory where it begins and on what is below. -/
theorem files_run_congr {dir : String} (h : t.find false dir = .ok (p, .dir))
    (h' : t'.find false dir = .ok (p, .dir))
    (hbelow : ∀ names, t'.below (p ++ names) = t.below (p ++ names)) :
    (Scan.run t' dir).files = (Scan.run t dir).files := by
  have hbelow' := hbelow []
  rw [List.append_nil] at hbelow'
  simp only [Scan.run, h, h', Scan.sources, Scan.controllerDirs, hbelow, hbelow']

include hw hcommand hlinks h in
theorem files_run_after : (Scan.run t' (project.apiDir command)).files
    = (Scan.run t (project.apiDir command)).files := by
  have hnoLink : ∀ p target, t.find false (project.apiDir command) ≠ .ok (p, .link target) := by
    intro p target hfind
    obtain ⟨k, d, hroot, rfl⟩ := api_eq_append hcommand hlinks hfind
    exact hlinks.get?_ne hroot (by simp) target (of_find_api hcommand hfind).2.1
  cases hfind : t.find false (project.apiDir command) with
  | error refusal =>
    cases hfind' : t'.find false (project.apiDir command) with
    | error refusal' => simp only [Scan.run, hfind, hfind']
    | ok found =>
      obtain ⟨p, e⟩ := found
      rw [find_api_before hw hcommand hlinks h hfind'] at hfind
      cases hfind
  | ok found =>
    obtain ⟨p, e⟩ := found
    obtain ⟨hfind', hnot⟩ := find_api_after hcommand hlinks h hfind
    cases e with
    | file text mode => simp only [Scan.run, hfind, hfind']
    | link target => exact absurd hfind (hnoLink p target)
    | dir =>
      have hbelow : ∀ names, t'.below (p ++ names) = t.below (p ++ names) := by
        intro names
        exact h.below_eq _ fun hpre => hnot ((List.prefix_append p names).trans hpre)
      exact files_run_congr hfind hfind' hbelow

include hw hcommand hlinks h in
/-- What was read is read again, from the same place, and its package has the same path. -/
theorem reads_after {text : String} (hpath : path ∈ (Scan.run t (project.apiDir command)).files)
    (htext : t.readText path = .ok text) :
    (∃ p e, t'.find true path = .ok (p, e) ∧ p ≠ r ++ [routerFile]) ∧
      t'.readText path = .ok text ∧
      ImportPath.ofFile t' project.module project.root path
        = ImportPath.ofFile t project.module project.root path := by
  rw [project.apiDir_eq_pathOf hcommand] at hpath
  obtain ⟨k, d, names, hroot, -, hfound, rfl, -, hnames⟩ := Scan.of_mem_files
    (fun k d hroot => hlinks.unlinked hroot _)
    (Project.isName_of_mem_apiNames (List.forall_mem_singleton.2 hcommand))
    (Project.apiNames_ne_nil _) hw (by simp [Project.getLast?_apiNames, Scan.dirName]) hpath
  obtain ⟨q, mode, hread⟩ := Tree.readText_eq_ok_iff.1 htext
  obtain ⟨hplace, hfile⟩ := Tree.find_eq_ok_iff.1 hread
  obtain ⟨-, -, rfl, -⟩ := Scan.of_find_pathOf hroot (hlinks.unlinked hroot _) hnames
    (by simp [Project.apiNames]) hread
  have hq : ¬ d ++ (Project.apiNames [command] ++ names) <+: r ++ [routerFile] := by
    intro hpre
    refine not_isPrefix_router hcommand hlinks h hroot (List.IsPrefix.trans ?_ hpre)
    exact (List.prefix_append_right_inj d).2 (List.prefix_append _ names)
  have hread' : t'.find true (Scan.pathOf project.root (Project.apiNames [command] ++ names))
      = .ok (d ++ (Project.apiNames [command] ++ names), .file (some text) mode) := by
    refine Tree.find_eq_ok_iff.2 ⟨Tree.place_mono h.keeps hplace, ?_⟩
    rw [get?_of_not_isPrefix h hq, hfile]
  refine ⟨⟨_, _, hread', fun heq => hq (heq ▸ List.prefix_rfl)⟩, ?_, ?_⟩
  · exact Tree.readText_eq_ok_iff.2 ⟨_, mode, hread'⟩
  · obtain ⟨init, n, rfl⟩ : ∃ init n, names = init ++ [n] := by
      refine Scan.exists_concat ?_
      rintro rfl
      cases hfound.extension
    rw [← List.append_assoc] at hnames hplace ⊢
    have hinit : Project.apiNames [command] ++ init ≠ [] := by simp [Project.apiNames]
    have henters := hplace
    rw [Scan.pathOf_concat] at henters
    obtain ⟨-, k', g, henters, -⟩ := Tree.of_place_join_name (hnames n (by simp)) henters
    have hdir := Tree.canonical_congr h.keeps henters (henters.get?_eq hw rfl)
    have hbase := Tree.canonical_congr h.keeps hroot (hroot.get?_eq hw rfl)
    simp only [ImportPath.ofFile, ImportPath.absolute, Scan.parent?_pathOf hnames hinit,
      Option.getD_some, hdir, hbase]

end

/-! ## Generating once more -/

theorem of_written_ok {dest dest' : String} {s s' : Session} {source : Except Template.Fault String}
    (h : written dest s source = (.ok dest', s')) :
    dest' = dest ∧ ∃ text, source = .ok text ∧ s.tree.write dest text = (s'.tree, none) := by
  cases source with
  | error e => cases h
  | ok text =>
    rw [written] at h
    rcases hwrite : s.tree.write dest text with ⟨t, refused⟩
    rw [hwrite] at h
    cases refused with
    | some refusal => cases h
    | none =>
      cases h
      exact ⟨rfl, text, rfl, hwrite⟩

theorem written_again {dest text : String} {s : Session} {source : Except Template.Fault String}
    (hsource : source = .ok text) (hwrite : s.tree.write dest text = (s.tree, none)) :
    ∃ log, written dest s source = (.ok dest, ⟨s.tree, log⟩) :=
  ⟨s.log ++ [.wrote dest], by rw [hsource, written, hwrite]⟩

/-- What a generation that succeeds has done to the file system `t`, which is `t'` then. -/
structure Generates (project : Project) (marked : Bool) (command : String) (t t' : Tree)
    (a : Analysis) (dest : String) (q : Place) : Prop where
  dest_eq : dest = Path.join (project.routerDir command) routerFile
  router : ∃ text, t'.find false dest = .ok (q, .file (some text) Tree.usualMode)
  frame : ∀ p, p ≠ q →
    t'.get? p = t.get? p ∨ t.get? p = none ∧ t'.get? p = some .dir ∧ p <+: q
  again : ∀ log, ∃ a' s'', (generate project marked command).perform ⟨t', log⟩
      = (.ok (a', dest), s'') ∧ a'.router = a.router ∧ a'.controllers = a.controllers ∧
    a'.fileCount = a.fileCount ∧ s''.tree = t'
  unread : ∀ path ∈ (Scan.run t' (project.apiDir command)).files, ∃ p e,
    t'.find true path = .ok (p, e) ∧ p ≠ q

/-- A generation changes the file of the router, and makes the directories on the way to it; and
one that follows it changes nothing. -/
theorem generate_again (project : Project) (marked : Bool) {command dest : String}
    {s s' : Session} {a : Analysis} (hw : s.tree.WellFormed) (hcommand : Path.IsName command)
    (hroot : s.tree.isDir project.root = true ∨ ".." ∉ Path.segments project.root)
    (hlinks : LinkFree s.tree project.root)
    (h : (generate project marked command).perform s = (.ok (a, dest), s')) :
    ∃ q, Generates project marked command s.tree s'.tree a dest q := by
  obtain ⟨a₁, s₁, hanalysis, hrest⟩ := Work.of_perform_bind_ok h
  obtain ⟨dest₁, s₂, hwriteRouter, hpure⟩ := Work.of_perform_bind_ok hrest
  rw [Work.perform_pure] at hpure
  cases hpure
  obtain ⟨htree, files, hread, ha⟩ := of_ofDirBy_ok hanalysis
  rw [perform_writeRouter] at hwriteRouter
  obtain ⟨rfl, text, hsource, hwrite⟩ := of_written_ok hwriteRouter
  rw [htree] at hwrite
  have hdots : s.tree.isDir project.root = true ∨ ".." ∉ Path.moves project.root :=
    hroot.imp_right fun hnot hmem => hnot (List.mem_of_mem_filter hmem)
  obtain ⟨r, hbeside, hfind, hwrite'⟩ := beside_of_write hw hcommand hdots hlinks hwrite
  have hscan := files_run_after hw hcommand hlinks hbeside
  have hreads : ∀ path ∈ (Scan.run s.tree (project.apiDir command)).files, ∀ text,
      s.tree.readText path = .ok text → _ := fun path hpath text htext =>
    reads_after hw hcommand hlinks hbeside hpath htext
  refine ⟨r ++ [routerFile], rfl, ⟨text, hfind⟩, fun p hp => ?_, fun log => ?_, fun path hpath => ?_⟩
  · refine (hbeside.frame p hp).imp_right fun ⟨hnone, hdir, hpr⟩ => ⟨hnone, hdir, ?_⟩
    exact hpr.trans (List.prefix_append _ _)
  · obtain ⟨a', log', hrun, hrouter, hcontrollers, hcount⟩ :=
      ofDirBy_again log hanalysis hscan
        fun path hpath text htext => (hreads path hpath text htext).2
    rw [← hrouter] at hsource
    obtain ⟨log'', hagain⟩ := written_again (s := ⟨s'.tree, log'⟩) hsource hwrite'
    have hrunAgain := (perform_writeRouter project command a' ⟨s'.tree, log'⟩).trans hagain
    refine ⟨a', ⟨s'.tree, log''⟩, ?_, hrouter, hcontrollers, hcount, rfl⟩
    exact (Work.perform_bind_of_ok hrun).trans (Work.perform_bind_of_ok hrunAgain)
  · rw [hscan] at hpath
    obtain ⟨f, hf, rfl⟩ : ∃ f ∈ files, f.path = path := by
      rw [← hread.1] at hpath
      exact List.mem_map.1 hpath
    obtain ⟨text', htext', -⟩ := hread.2 f hf
    exact (hreads f.path hpath text' htext').1

/-- A generation succeeds if all source files can be read and the place of the router can be
written to. -/
theorem perform_generate_of_readable (project : Project) (marked : Bool) (command : String)
    {s : Session} {t₁ : Tree} {q : Place}
    (hread : ∀ path ∈ (Scan.run s.tree (project.apiDir command)).files, fault? s.tree path = none)
    (hwrite : ∀ text, s.tree.write (Path.join (project.routerDir command) routerFile) text
      = (t₁.put q (.file (some text) Tree.usualMode), none)) :
    ∃ a text log, (generate project marked command).perform s
        = (.ok (a, Path.join (project.routerDir command) routerFile),
          ⟨t₁.put q (.file (some text) Tree.usualMode), log⟩) ∧
      a.fileCount = (Scan.run s.tree (project.apiDir command)).files.length := by
  obtain ⟨a, log, hanalysis, hcount⟩ : ∃ a log,
      (ofCommand project marked command).perform s = (.ok a, ⟨s.tree, log⟩) ∧
        a.fileCount = (Scan.run s.tree (project.apiDir command)).files.length := by
    obtain ⟨files, log, -, hrun⟩ := perform_ofDirBy_of_readable project (matcher marked) hread
    exact ⟨_, log, hrun, rfl⟩
  have hwritten : ∀ text source, source = Except.ok text → ∃ log',
      written (Path.join (project.routerDir command) routerFile) ⟨s.tree, log⟩ source
        = (.ok (Path.join (project.routerDir command) routerFile),
          ⟨t₁.put q (.file (some text) Tree.usualMode), log'⟩) := by
    intro text source hsource
    exact ⟨_, by rw [hsource, written, hwrite text]⟩
  have hsource := Source.source_eq (a.router.sheet (project.apiImport command))
  obtain ⟨log', hrouter⟩ := hwritten _ _ hsource
  refine ⟨a, String.join (Source.parts (a.router.sheet (project.apiImport command))), log', ?_,
    hcount⟩
  exact (Work.perform_bind_of_ok hanalysis).trans
    (Work.perform_bind_of_ok ((perform_writeRouter project command _ _).trans hrouter))

/-- A project in the directory `p`, with one source file for controllers. -/
def oneSource : Tree :=
  ⟨[(["p"], .dir), (["p", "internal"], .dir), (["p", "internal", "c"], .dir),
    (["p", "internal", "c", "transport"], .dir), (["p", "internal", "c", "transport", "http"], .dir),
    (["p", "internal", "c", "transport", "http", "api"], .dir),
    (["p", "internal", "c", "transport", "http", "api", "controller"], .dir),
    (["p", "internal", "c", "transport", "http", "api", "controller", "a.go"],
      .file (some "package controller\n") 420)]⟩

theorem linkFree_oneSource (path : String) : LinkFree oneSource path :=
  linkFree_of_entries (by simp [oneSource]) path

theorem generate_oneSource : ∃ a dest s',
    (generate (.usual "/p" "m") false "c").perform ⟨oneSource, []⟩ = (.ok (a, dest), s') ∧
    a.fileCount = 1 ∧ ∃ q, Generates (.usual "/p" "m") false "c" oneSource s'.tree a dest q := by
  have hread : ∀ path ∈ (Scan.run oneSource ((Project.usual "/p" "m").apiDir "c")).files,
      fault? oneSource path = none := by decide +kernel
  have hcount : (Scan.run oneSource ((Project.usual "/p" "m").apiDir "c")).files.length = 1 := by
    decide +kernel
  have hfree : (oneSource.write
      (Path.join ((Project.usual "/p" "m").routerDir "c") routerFile) "").2 = none := by
    decide +kernel
  obtain ⟨t₁, q, -, -, hwrite⟩ := Tree.write_other hfree
  obtain ⟨a, text, log, hrun, ha⟩ := perform_generate_of_readable (.usual "/p" "m") false "c"
    (s := ⟨oneSource, []⟩) hread hwrite
  have hw : oneSource.WellFormed := by decide +kernel
  refine ⟨a, _, _, hrun, ha.trans hcount, ?_⟩
  exact generate_again _ false hw (by decide) (.inl (by decide +kernel)) (linkFree_oneSource _) hrun

/-- The file of a router does not change what is found in a directory where it is not. -/
theorem files_run_put {dir : String} (h : t.find false dir = .ok (p, .dir)) (hnot : ¬ p <+: q)
    (hnone : t.get? q = none) (text : String) :
    (Scan.run (t.put q (.file (some text) Tree.usualMode)) dir).files = (Scan.run t dir).files := by
  obtain ⟨hplace, hget⟩ := Tree.find_eq_ok_iff.1 h
  have hq : q ≠ [] := by
    rintro rfl
    cases hnone
  have hends : Tree.Ends true (t.get? q) := by
    rw [hnone]
    exact trivial
  have hne : p ≠ q := fun heq => hnot (heq ▸ List.prefix_rfl)
  refine files_run_congr h (Tree.find_eq_ok_iff.2 ⟨?_, ?_⟩) fun names => ?_
  · exact Tree.place_mono (Tree.keeps_put_file hq hends (some text) Tree.usualMode) hplace
  · rw [Tree.get?_put_of_ne t hne, hget]
  · exact Tree.below_put fun hpre => hnot ((List.prefix_append p names).trans hpre)

/-- A second generation reads as many files as the first. -/
theorem Generates.fileCount_eq {marked : Bool} {a : Analysis} {dest : String}
    (h : Generates project marked command t t' a dest q) :
    (Scan.run t' (project.apiDir command)).files.length = a.fileCount := by
  obtain ⟨a', s'', hagain, -, -, hsame, -⟩ := h.again []
  obtain ⟨a₁, s₁, hanalysis, hrest⟩ := Work.of_perform_bind_ok hagain
  obtain ⟨dest₁, s₂, -, hpure⟩ := Work.of_perform_bind_ok hrest
  rw [Work.perform_pure] at hpure
  cases hpure
  obtain ⟨-, files, -, rfl⟩ := of_ofDirBy_ok hanalysis
  exact hsame

/-- A root that goes up from a directory that is not there. -/
def parentRoot : Project := .usual "/new/../p" "m"

/-- `oneSource` with the directories that lead to the router of such a root. -/
def routerRoom : Tree :=
  (oneSource.makeDirs (Tree.directoryOf (Path.join (parentRoot.routerDir "c") routerFile))).1

theorem eq_ok_of_toOption {ε α : Type} {x : Except ε α} {y : α} (h : x.toOption = some y) :
    x = .ok y := by
  cases x with
  | error e => cases h
  | ok z => exact congrArg _ (Option.some.inj h)

theorem find_routerRoom : routerRoom.find false (parentRoot.apiDir "c")
    = .ok (["p", "internal", "c", "transport", "http", "api"], .dir) := by
  have h : (routerRoom.find false (parentRoot.apiDir "c")).toOption
      = some (["p", "internal", "c", "transport", "http", "api"], .dir) := by decide +kernel
  exact eq_ok_of_toOption h

theorem files_routerRoom : (Scan.run routerRoom (parentRoot.apiDir "c")).files
    = ["/new/../p/internal/c/transport/http/api/controller/a.go"] := by decide +kernel

theorem place_routerRoom : routerRoom.place false
    (Tree.dropSlashes (Path.join (parentRoot.routerDir "c") routerFile))
      = .ok ["p", "internal", "c", "transport", "http", "router", "router.go"] := by
  have h : (routerRoom.place false
      (Tree.dropSlashes (Path.join (parentRoot.routerDir "c") routerFile))).toOption
        = some ["p", "internal", "c", "transport", "http", "router", "router.go"] := by
    decide +kernel
  exact eq_ok_of_toOption h

theorem get?_routerRoom : routerRoom.get?
    ["p", "internal", "c", "transport", "http", "router", "router.go"] = none := by decide +kernel

/-- When the router is written, the directory is made and the root is there; then a source file is
found that was not found before. -/
theorem not_generates_parentRoot : oneSource.WellFormed ∧ LinkFree oneSource parentRoot.root ∧
    Path.IsName "c" ∧ ∃ a dest s',
      (generate parentRoot false "c").perform ⟨oneSource, []⟩ = (.ok (a, dest), s') ∧
      ¬ ∃ q, Generates parentRoot false "c" oneSource s'.tree a dest q := by
  have hbefore : (Scan.run oneSource (parentRoot.apiDir "c")).files = [] := by decide +kernel
  have hread : ∀ path ∈ (Scan.run oneSource (parentRoot.apiDir "c")).files,
      fault? oneSource path = none := by
    rw [hbefore]
    exact nofun
  have hfree : (oneSource.write (Path.join (parentRoot.routerDir "c") routerFile) "").2 = none := by
    decide +kernel
  obtain ⟨t₁, q, hdirs, hq, hwrite⟩ := Tree.write_other hfree
  have hroom : t₁ = routerRoom := (congrArg Prod.fst hdirs).symm
  rw [hroom, place_routerRoom] at hq
  obtain ⟨a, text, log, hrun, ha⟩ := perform_generate_of_readable parentRoot false "c"
    (s := ⟨oneSource, []⟩) hread hwrite
  refine ⟨by decide +kernel, linkFree_oneSource _, by decide, a, _, _, hrun, ?_⟩
  rintro ⟨q', hgenerates⟩
  have hsame := hgenerates.fileCount_eq
  have hafter := files_run_put find_routerRoom (by decide) get?_routerRoom text
  rw [hroom, ← Except.ok.inj hq, hafter, files_routerRoom, ha, hbefore] at hsame
  cases hsame

end Analysis
end Routing
end RouteScribe
