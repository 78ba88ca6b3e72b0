import Mathlib.Logic.Relation
import RouteScribe.Proofs.Scaffold.Creation

/-!
# RouteScribe.Proofs.Scaffold.Confinement

Where scaffolding writes. Nothing looks at where a command and a route lead, so two dots and a slash
in front can lead out of the project. A command and a route that never go up from where they begin
stay below the directory of the controllers, as long as no links are there.

* `Enters.eq_of_settle?`: without links, a way leads where its segments say.
* `writes_newController`, `writes_addActions`: all that is done is writing to one path.
* `Steady.of_write`, `Steady.of_writes`: what each write keeps, and all of them.
* `confined_of_scaffolding`: scaffolding stays inside the directory of the controllers.
* `not_confined_scaffolding`: it does not if the command or the route goes up.
-/

namespace RouteScribe

namespace Path

/-- Where segments lead from the names `here`, if two dots take the last name back; none if there
is no name to take back. -/
def settle? : List String → List String → Option (List String)
  | here, [] => some here
  | here, s :: ss =>
    if s = "." then settle? here ss
    else if s = ".." then if here = [] then none else settle? here.dropLast ss
    else settle? (here ++ [s]) ss

variable {here there ss : List String}

theorem settle?_append (here ss ss' : List String) :
    settle? here (ss ++ ss') = (settle? here ss).bind fun there => settle? there ss' := by
  induction ss generalizing here with
  | nil => rfl
  | cons s ss ih =>
    rw [List.cons_append, settle?, settle?, ih, ih, ih]
    split
    · rfl
    · split
      · split <;> rfl
      · rfl

/-- What stays below the beginning does so from anywhere. -/
theorem settle?_below (base : List String) (h : settle? here ss = some there) :
    settle? (base ++ here) ss = some (base ++ there) := by
  induction ss generalizing here with
  | nil => exact congrArg _ (congrArg _ (Option.some.inj h))
  | cons s ss ih =>
    rw [settle?] at h ⊢
    by_cases hdot : s = "."
    · rw [if_pos hdot] at h ⊢
      exact ih h
    · rw [if_neg hdot] at h ⊢
      by_cases hdots : s = ".."
      · rw [if_pos hdots] at h ⊢
        by_cases hnil : here = []
        · rw [if_pos hnil] at h
          cases h
        · rw [if_neg hnil] at h
          rw [if_neg (List.append_ne_nil_of_right_ne_nil base hnil),
            List.dropLast_append_of_ne_nil hnil]
          exact ih h
      · rw [if_neg hdots] at h ⊢
        rw [List.append_assoc]
        exact ih h

theorem settle?_names (here : List String) (h : ∀ s ∈ ss, s ≠ "." ∧ s ≠ "..") :
    settle? here ss = some (here ++ ss) := by
  induction ss generalizing here with
  | nil => rw [settle?, List.append_nil]
  | cons s ss ih =>
    obtain ⟨hs, hss⟩ := List.forall_mem_cons.1 h
    rw [settle?, if_neg hs.1, if_neg hs.2, ih _ hss, List.append_assoc]
    rfl

end Path

namespace Files
namespace Tree

variable {t : Tree} {k k' : Nat} {p q base : Place} {here there ss : List String}

theorem Enters.eq_of_settle? (h : t.Enters k p ss k' q) (hp : p = base ++ here)
    (hlinks : ∀ names target, names ≠ [] → t.get? (base ++ names) ≠ some (.link target))
    (hs : Path.settle? here ss = some there) : q = base ++ there := by
  induction h generalizing here with
  | here k p => rw [hp, Option.some.inj hs]
  | dot _ ih =>
    rw [Path.settle?, if_pos rfl] at hs
    exact ih hp hs
  | dots _ ih =>
    rw [Path.settle?, if_neg (by decide), if_pos rfl] at hs
    by_cases hnil : here = []
    · rw [if_pos hnil] at hs
      cases hs
    · rw [if_neg hnil] at hs
      exact ih (by rw [hp, List.dropLast_append_of_ne_nil hnil]) hs
  | dir hn _ _ ih =>
    rw [Path.settle?, if_neg hn.ne_dot, if_neg hn.ne_dots] at hs
    exact ih (by rw [hp, List.append_assoc]) hs
  | link _ hget _ _ =>
    rw [hp, List.append_assoc] at hget
    exact absurd hget (hlinks _ _ (by simp))

/-- What a name at the end of such a way leads to is a directory. -/
theorem Enters.get?_of_settle? {n : String} (h : t.Enters k p (ss ++ [n]) k' q)
    (hn : n ≠ "." ∧ n ≠ "..")
    (hlinks : ∀ names target, names ≠ [] → t.get? (p ++ names) ≠ some (.link target))
    (hs : Path.settle? [] (ss ++ [n]) = some there) : t.get? q = some .dir := by
  rw [Path.settle?_append] at hs
  obtain ⟨way, hway, -⟩ := Option.bind_eq_some_iff.1 hs
  refine h.get?_concat hn fun k₁ d₁ hfirst target => ?_
  rw [hfirst.eq_of_settle? (List.append_nil p).symm hlinks hway, List.append_assoc]
  exact hlinks _ target (by simp)

end Tree
end Files

namespace Scaffold

open Files Routing

variable {project : Project} {command route path typeName text name : String}
  {args : List String} {actions : List Action} {l : Location} {s s' : Session} {t t' : Tree}

/-! ## All writes are to one path -/

/-- Texts were written to the path, one after the other. -/
def Writes (path : String) : Tree → Tree → Prop :=
  Relation.ReflTransGen fun t t' => ∃ text, (t.write path text).1 = t'

theorem writes_of_write {refused : Option (String × Refusal)}
    (h : t.write path text = (t', refused)) : Writes path t t' :=
  .single ⟨text, congrArg Prod.fst h⟩

theorem writes_of_eq (h : t' = t) : Writes path t t' := h ▸ .refl

theorem writes_writeActions {r : Except Failure (List String)}
    (h : (writeActions path typeName actions).perform s = (r, s')) :
    Writes path s.tree s'.tree := by
  rcases writeActions_cases h with ⟨-, -, -, hsame⟩ | ⟨-, -, ⟨-, -, -, hsame⟩ | ⟨-, -, hwritten⟩⟩
  · exact writes_of_eq hsame
  · exact writes_of_eq hsame
  · rcases hwritten with ⟨-, -, hsame⟩ | ⟨more, ⟨_, _, hwrite, -⟩ | ⟨hwrite, -⟩⟩
    · exact writes_of_eq hsame
    · exact writes_of_write hwrite
    · exact writes_of_write hwrite

/-- What a task for a controller leaves behind. -/
def WritesController (project : Project) (command route : String) (t t' : Tree) : Prop :=
  t' = t ∨ t.isDir (project.commandDir command) = true ∧
    ∃ l, locate project command route = .ok l ∧ Writes l.path t t'

theorem writes_newController {r : Except Failure Location}
    (h : (newController project command route args).perform s = (r, s')) :
    WritesController project command route s.tree s'.tree := by
  rcases newController_cases h with ⟨rfl, -⟩ | ⟨l, actions, hdir, hl, -, -, h⟩
  · exact .inl rfl
  refine .inr ⟨hdir, l, hl, ?_⟩
  rcases create_cases h with ⟨_, _, hwrite, -⟩ | ⟨t, hwrite, ⟨-, -, rfl⟩ | ⟨-, r', log, h, -⟩⟩
  · exact writes_of_write hwrite
  · exact writes_of_write hwrite
  · exact (writes_of_write hwrite).trans (writes_writeActions h)

theorem writes_addActions {r : Except Failure (List String)}
    (h : (addActions project command route args).perform s = (r, s')) :
    WritesController project command route s.tree s'.tree := by
  rcases addActions_cases h with ⟨rfl, -⟩ | ⟨l, actions, hdir, hl, -, -, h⟩
  · exact .inl rfl
  · exact .inr ⟨hdir, l, hl, writes_writeActions h⟩

/-! ## What each write keeps -/

/-- Directories and links stayed, and each regular file that is new or changed is inside the
directory at the place `d`, to which the path `dir` leads now. -/
structure Steady (dir : String) (d : Place) (t t' : Tree) : Prop where
  keeps : Tree.Keeps t t'
  confined : ∀ p text mode, t'.get? p = some (.file text mode) →
    t.get? p ≠ some (.file text mode) → t'.find true dir = .ok (d, .dir) ∧ d <+: p

namespace Steady

variable {dir : String} {d : Place}

theorem of_moreDirs (h : Tree.MoreDirs t t') : Steady dir d t t' :=
  ⟨h.keeps, fun _ _ _ hfile hold => absurd (h.file_iff.1 hfile) hold⟩

theorem trans {t'' : Tree} (h : Steady dir d t t') (h' : Steady dir d t' t'') :
    Steady dir d t t'' := by
  refine ⟨h.keeps.trans h'.keeps, fun p text mode hfile hold => ?_⟩
  by_cases hbefore : t'.get? p = some (.file text mode)
  · obtain ⟨hfind, hp⟩ := h.confined p text mode hbefore hold
    exact ⟨Tree.find_dir_mono h'.keeps hfind, hp⟩
  · exact h'.confined p text mode hfile hbefore

end Steady

theorem settle?_apiNames {segments c : List String} (h : Path.settle? [] segments = some c) :
    Path.settle? [] (Project.apiNames segments) = some (Project.apiNames c) := by
  have hfirst : Path.settle? [] ["internal"] = some ["internal"] := by decide
  have hsegments := Path.settle?_below ["internal"] h
  rw [List.append_nil] at hsegments
  have hlast : Path.settle? (["internal"] ++ c) ["transport", "http", "api"]
      = some (["internal"] ++ c ++ ["transport", "http", "api"]) :=
    Path.settle?_names _ (by decide)
  have hnames : Project.apiNames segments
      = ["internal"] ++ segments ++ ["transport", "http", "api"] := rfl
  rw [hnames, Path.settle?_append, Path.settle?_append, hfirst, Option.bind_some, hsegments,
    Option.bind_some, hlast]
  rfl

theorem settle?_controllerNames {segments dirs below c : List String}
    (hc : Path.settle? [] segments = some c) (hbelow : Path.settle? [] dirs = some below) :
    Path.settle? [] (Project.apiNames segments ++ dirs ++ ["controller"])
      = some (Project.apiNames c ++ below ++ ["controller"]) := by
  have hdirs := Path.settle?_below (Project.apiNames c) hbelow
  rw [List.append_nil] at hdirs
  rw [Path.settle?_append, Path.settle?_append, settle?_apiNames hc, Option.bind_some, hdirs,
    Option.bind_some, Path.settle?_names _ (by decide)]

section

variable {dirs below c : List String} {root : Place} {k : Nat}
  (located : Located project command route l dirs name)
  (hc : Path.settle? [] (Path.moves command) = some c)
  (hbelow : Path.settle? [] (Path.moving dirs) = some below)

include located in
theorem allowed_apiDir (h : Tree.Allowed l.path) : Tree.Allowed (project.apiDir command) := by
  obtain ⟨way, hpath⟩ := located.exists_path_eq
  rw [hpath, String.append_assoc, String.append_assoc] at h
  refine h.of_append ?_
  rw [project.apiDir_eq_join]
  exact Path.join_name_ne_empty _ (by decide)

include located in
/-- A write makes the directory of the controller, and puts the file there. -/
theorem of_write_located (hwrite : t.write l.path text = (t', none)) :
    Tree.Allowed l.path ∧ ∃ t₁ k r, Tree.MoreDirs t t₁ ∧
      t₁.Enters linkLimit [] (Path.moves (controllerDir project command dirs)) k r ∧
      t₁.get? (r ++ [name ++ ".go"]) ≠ some .dir ∧
      t' = t₁.put (r ++ [name ++ ".go"]) (.file (some text) Tree.usualMode) := by
  have hname := located.isName_file_of_write hwrite
  rw [located.path] at hwrite ⊢
  obtain ⟨hallowed, -, t₁, k₁, r, hdirs, hr, hdir, rfl⟩ :=
    Tree.of_write_join isName_controller hname hwrite
  refine ⟨hallowed, t₁, k₁, r, ?_, hr, hdir, rfl⟩
  have hmade := Tree.moreDirs_makeDirs t (controllerDir project command dirs)
  rwa [controllerDir, hdirs] at hmade

section

variable (hroot : t.Enters linkLimit [] (Path.moves project.root) k root)
  (hlinks : ∀ names target, names ≠ [] → t.get? (root ++ names) ≠ some (.link target))

include located hc hbelow hroot hlinks in
/-- The way to the directory of a controller leads through that of all controllers. -/
theorem of_enters_controllerDir {k' : Nat} {r : Place}
    (hr : t.Enters linkLimit [] (Path.moves (controllerDir project command dirs)) k' r) :
    r = root ++ (Project.apiNames c ++ below ++ ["controller"]) ∧
      t.get? (root ++ Project.apiNames c) = some .dir ∧
      ∃ k₁, t.Enters linkLimit [] (Path.moves (project.apiDir command)) k₁
        (root ++ Project.apiNames c) := by
  have hnil : root = root ++ [] := (List.append_nil root).symm
  have hsettled := settle?_apiNames hc
  rw [located.moves_controllerDir] at hr
  obtain ⟨k₂, root', hfirst, hway⟩ := Tree.of_enters_append hr
  obtain rfl := hroot.unique hfirst
  refine ⟨hway.eq_of_settle? hnil hlinks (settle?_controllerNames hc hbelow), ?_⟩
  rw [List.append_assoc] at hway
  obtain ⟨k₁, api, hapi, -⟩ := Tree.of_enters_append hway
  obtain rfl := hapi.eq_of_settle? hnil hlinks hsettled
  have hall := hfirst.append hapi
  rw [← project.moves_apiDir] at hall
  refine ⟨?_, k₁, hall⟩
  have hnames : Project.apiNames (Path.moves command)
      = "internal" :: Path.moves command ++ ["transport", "http"] ++ ["api"] := by
    simp [Project.apiNames]
  rw [hnames] at hapi hsettled
  exact hapi.get?_of_settle? (by decide) hlinks hsettled

include located hc hbelow hroot hlinks in
theorem Steady.of_write {refused : Option (String × Refusal)}
    (hwrite : t.write l.path text = (t', refused)) :
    Steady (project.apiDir command) (root ++ Project.apiNames c) t t' := by
  cases refused with
  | some refusal => exact .of_moreDirs (Tree.moreDirs_of_write_refused hwrite)
  | none =>
    obtain ⟨hallowed, t₁, k₁, r, hmore, hr, hdir, rfl⟩ := of_write_located located hwrite
    have hlinks₁ : ∀ names target, names ≠ [] → t₁.get? (root ++ names) ≠ some (.link target) :=
      fun names target hne hget => hlinks names target hne (hmore.keeps.of_get?_link hget)
    obtain ⟨rfl, hapi, k₂, henters⟩ :=
      of_enters_controllerDir located hc hbelow (hroot.mono hmore.keeps) hlinks₁ hr
    have hfind := Tree.find_of_enters (allowed_apiDir located hallowed) henters hapi
    rw [List.append_assoc] at hdir ⊢
    have hends := Tree.ends_of_ne hdir fun target => hlinks₁ _ target (by simp)
    have hkeeps := Tree.keeps_put_file (by simp) hends (some text) Tree.usualMode
    refine ⟨hmore.keeps.trans hkeeps, fun p text' mode hfile hold =>
      ⟨Tree.find_dir_mono hkeeps hfind, ?_⟩⟩
    by_cases hp : p = root ++ (Project.apiNames c ++ below ++ ["controller"] ++ [name ++ ".go"])
    · exact ⟨below ++ ["controller", name ++ ".go"], by simp [hp]⟩
    · rw [Tree.get?_put_of_ne t₁ hp] at hfile
      exact absurd (hmore.file_iff.1 hfile) hold

include located hc hbelow hroot hlinks in
theorem Steady.of_writes (hwrites : Writes l.path t t') :
    Steady (project.apiDir command) (root ++ Project.apiNames c) t t' := by
  induction hwrites with
  | refl => exact .of_moreDirs (.refl t)
  | tail _ hstep ih =>
    obtain ⟨text, rfl⟩ := hstep
    refine ih.trans (.of_write located hc hbelow (hroot.mono ih.keeps) ?_ rfl)
    exact fun names target hne hget => hlinks names target hne (ih.keeps.of_get?_link hget)

end

end

/-! ## Scaffolding -/

/-- The place `p` is inside the directory of the controllers of the command, both are below the root
of the project, and the directory of the command is below `cmd` there. -/
def Confined (project : Project) (command : String) (t : Tree) (p : Place) : Prop :=
  ∃ root c, t.walk true linkLimit [] (steps project.root) = .ok root ∧ c ≠ [] ∧
    t.find true (project.commandDir command) = .ok (root ++ "cmd" :: c, .dir) ∧
    t.find true (project.apiDir command) = .ok (root ++ Project.apiNames c, .dir) ∧
    root ++ Project.apiNames c <+: p

/-- All regular files that are new or changed are confined. -/
def ConfinesChanges (project : Project) (command : String) (t t' : Tree) : Prop :=
  ∀ p text mode, t'.get? p = some (.file text mode) → t.get? p ≠ some (.file text mode) →
    Confined project command t' p

theorem confinesChanges_of_writesController {c : List String}
    (hlinks : Analysis.LinkFree t project.root) (hrelative : Path.isAbsolute command = false)
    (hc : Path.settle? [] (Path.moves command) = some c) (hne : c ≠ [])
    (hroute : Path.settle? [] (Path.moving (Path.segments route).dropLast) ≠ none)
    (h : WritesController project command route t t') :
    ConfinesChanges project command t t' := by
  rcases h with rfl | ⟨hdir, l, hl, hwrites⟩
  · exact fun _ _ _ hfile hold => absurd hfile hold
  obtain ⟨dirs, name, located⟩ := exists_located hl
  rw [located.segments, List.dropLast_concat] at hroute
  obtain ⟨below, hbelow⟩ := Option.ne_none_iff_exists'.1 hroute
  obtain ⟨q, hfind⟩ := Tree.of_isDir hdir
  obtain ⟨-, -, k, henters⟩ := Tree.of_find_dir hfind
  rw [project.moves_commandDir hrelative] at henters
  obtain ⟨k₁, root, hroot, hcmd⟩ := Tree.of_enters_append henters
  have hunlinked : ∀ names target, names ≠ [] → t.get? (root ++ names) ≠ some (.link target) :=
    fun names target hne => hlinks.get?_ne hroot hne target
  have hsettled : Path.settle? [] ("cmd" :: Path.moves command) = some ("cmd" :: c) :=
    Path.settle?_below ["cmd"] hc
  obtain rfl := hcmd.eq_of_settle? (List.append_nil root).symm hunlinked hsettled
  have hsteady := Steady.of_writes located hc hbelow hroot hunlinked hwrites
  intro p text mode hfile hold
  obtain ⟨hapi, hp⟩ := hsteady.confined p text mode hfile hold
  exact ⟨root, c, Tree.walk_of_leads (Tree.enters_steps_iff.2 (hroot.mono hsteady.keeps)).leads, hne,
    Tree.find_dir_mono hsteady.keeps hfind, hapi, hp⟩

/-- Scaffolding stays inside the directory of the controllers, whether it succeeds or not, if the
command leads below where it begins and neither it nor the route goes up from there. -/
theorem confined_of_scaffolding {c : List String} (hlinks : Analysis.LinkFree s.tree project.root)
    (hrelative : Path.isAbsolute command = false)
    (hc : Path.settle? [] (Path.moves command) = some c) (hne : c ≠ [])
    (hroute : Path.settle? [] (Path.moving (Path.segments route).dropLast) ≠ none) :
    (∀ r s', (newController project command route args).perform s = (r, s') →
      ConfinesChanges project command s.tree s'.tree) ∧
    ∀ r s', (addActions project command route args).perform s = (r, s') →
      ConfinesChanges project command s.tree s'.tree :=
  ⟨fun _ _ h => confinesChanges_of_writesController hlinks hrelative hc hne hroute
      (writes_newController h),
    fun _ _ h => confinesChanges_of_writesController hlinks hrelative hc hne hroute
      (writes_addActions h)⟩

/-- A project in the directory `p`, with directories for controllers where some are expected and
where none are. -/
def manyDirs : Tree :=
  ⟨[(["p"], .dir), (["p", "cmd"], .dir), (["p", "cmd", "c"], .dir), (["p", "internal"], .dir),
    (["p", "internal", "c"], .dir), (["p", "internal", "c", "transport"], .dir),
    (["p", "internal", "c", "transport", "http"], .dir),
    (["p", "internal", "c", "transport", "http", "api"], .dir),
    (["p", "internal", "c", "transport", "http", "api", "v1"], .dir),
    (["p", "internal", "c", "transport", "http", "api", "controller"], .dir),
    (["p", "internal", "transport"], .dir), (["p", "internal", "transport", "http"], .dir),
    (["p", "internal", "transport", "http", "api"], .dir),
    (["p", "internal", "transport", "http", "api", "controller"], .dir),
    (["transport"], .dir), (["transport", "http"], .dir), (["transport", "http", "api"], .dir),
    (["transport", "http", "api", "controller"], .dir), (["controller"], .dir)]⟩

theorem linkFree_manyDirs (path : String) : Analysis.LinkFree manyDirs path :=
  Analysis.linkFree_of_entries (by simp [manyDirs]) path

/-- The command is refused by nothing, and the new controller stands at the place `q`. -/
structure Lands (command route : String) (x q : Place) (l : Location) : Prop where
  find : manyDirs.find true ((Project.usual "/p" "m").commandDir command) = .ok (x, .dir)
  locate : locate (.usual "/p" "m") command route = .ok l
  not_exists : manyDirs.exists l.path = false
  write : manyDirs.write l.path "" = (manyDirs.put q (.file (some "") Tree.usualMode), none)
  get?_eq : manyDirs.get? q = none

theorem Lands.perform {x q : Place} (h : Lands command route x q l) :
    (newController (.usual "/p" "m") command route []).perform ⟨manyDirs, []⟩
      = (.ok l, ⟨manyDirs.put q (.file (some (controllerText l.typeName)) Tree.usualMode),
          [.controllerCreated l.typeName l.path]⟩) :=
  perform_newController_nil (Tree.isDir_of_find h.find) h.locate h.not_exists
    (Tree.write_put_other h.write _)

theorem lands_v1 : Lands "c" "v1/../user" ["p", "cmd", "c"]
    ["p", "internal", "c", "transport", "http", "api", "controller", "user.go"]
    ⟨"/p/internal/c/transport/http/api/v1/../controller/user.go", "UserController"⟩ :=
  ⟨by decide +kernel, by decide +kernel, by decide +kernel, by decide +kernel, by decide +kernel⟩

theorem confined_v1 : ∃ l s',
    (newController (.usual "/p" "m") "c" "v1/../user" []).perform ⟨manyDirs, []⟩ = (.ok l, s') ∧
    s'.tree.get? ["p", "internal", "c", "transport", "http", "api", "controller", "user.go"]
      = some (.file (some (controllerText "UserController")) Tree.usualMode) ∧
    ConfinesChanges (.usual "/p" "m") "c" manyDirs s'.tree := by
  have hrun := lands_v1.perform
  have hconfined := @confined_of_scaffolding (.usual "/p" "m") "c" "v1/../user" [] ⟨manyDirs, []⟩
    ["c"] (linkFree_manyDirs "/p") (by decide) (by decide) (by decide) (by decide)
  exact ⟨_, _, hrun, Tree.get?_put _ (by decide) _, hconfined.1 _ _ hrun⟩

/-- A creation in `manyDirs` succeeds and writes where it should not. -/
def Escapes (command route : String) : Prop :=
  ∃ l s', (newController (.usual "/p" "m") command route []).perform ⟨manyDirs, []⟩ = (.ok l, s') ∧
    ¬ ConfinesChanges (.usual "/p" "m") command manyDirs s'.tree

theorem Lands.escapes {x q : Place} (h : Lands command route x q l)
    (hout : ∀ c, c ≠ [] → x = "p" :: "cmd" :: c → ¬ "p" :: Project.apiNames c <+: q) :
    Escapes command route := by
  have hq : q ≠ [] := by
    rintro rfl
    cases h.get?_eq
  have hkeeps := Tree.keeps_put_file (t := manyDirs) hq (h.get?_eq ▸ trivial)
    (some (controllerText l.typeName)) Tree.usualMode
  refine ⟨_, _, h.perform, fun hconfined => ?_⟩
  obtain ⟨root, c, hroot, hne, hcommand, -, hbelow⟩ := hconfined q _ _ (Tree.get?_put _ hq _)
    (by rw [h.get?_eq]; exact nofun)
  have hway : manyDirs.walk true linkLimit [] (steps "/p") = .ok ["p"] := by decide +kernel
  obtain rfl : ["p"] = root := Except.ok.inj
    ((Tree.walk_of_leads ((Tree.leads_of_walk hway).mono hkeeps)).symm.trans hroot)
  obtain ⟨rfl, -⟩ := Prod.mk.inj
    (Except.ok.inj ((Tree.find_dir_mono hkeeps h.find).symm.trans hcommand))
  exact hout c hne rfl hbelow

/-- A route that goes up leads out of the directory of the controllers, a command that goes up leads
out of the project, and one that is a dot or a slash is none of those below `cmd`. -/
theorem not_confined_scaffolding : Analysis.LinkFree manyDirs "/p" ∧
    Escapes "c" "../../../../../../user" ∧ Escapes "../.." "user" ∧ Escapes "." "user" ∧
    Escapes "/" "user" := by
  refine ⟨linkFree_manyDirs "/p", ?_, ?_, ?_, ?_⟩
  · have h : Lands "c" "../../../../../../user" ["p", "cmd", "c"] ["controller", "user.go"]
        ⟨"/p/internal/c/transport/http/api/../../../../../../controller/user.go",
          "UserController"⟩ :=
      ⟨by decide +kernel, by decide +kernel, by decide +kernel, by decide +kernel,
        by decide +kernel⟩
    exact h.escapes fun c _ _ hway => absurd (List.cons_prefix_cons.1 hway).1 (by decide)
  · have h : Lands "../.." "user" [] ["transport", "http", "api", "controller", "user.go"]
        ⟨"/p/internal/../../transport/http/api/controller/user.go", "UserController"⟩ :=
      ⟨by decide +kernel, by decide +kernel, by decide +kernel, by decide +kernel,
        by decide +kernel⟩
    exact h.escapes fun c _ hfind => nomatch hfind
  · have h : Lands "." "user" ["p", "cmd"]
        ["p", "internal", "transport", "http", "api", "controller", "user.go"]
        ⟨"/p/internal/./transport/http/api/controller/user.go", "UserController"⟩ :=
      ⟨by decide +kernel, by decide +kernel, by decide +kernel, by decide +kernel,
        by decide +kernel⟩
    exact h.escapes fun c hne hfind => absurd (List.cons.inj (List.cons.inj hfind).2).2.symm hne
  · have h : Lands "/" "user" []
        ["p", "internal", "transport", "http", "api", "controller", "user.go"]
        ⟨"/p/internal///transport/http/api/controller/user.go", "UserController"⟩ :=
      ⟨by decide +kernel, by decide +kernel, by decide +kernel, by decide +kernel,
        by decide +kernel⟩
    exact h.escapes fun c _ hfind => nomatch hfind

end Scaffold
end RouteScribe
