import RouteScribe.Project.Discovery
import RouteScribe.Proofs.Files.Lookup
import RouteScribe.Proofs.Project.Marker
import RouteScribe.Proofs.Work

/-!
# RouteScribe.Proofs.Project.Discovery

Which project a directory belongs to. Of the files that may mark a root, from the inside out, the
first that can be used decides; the others are not even looked at, unless a link leads there.

* `Marks`: what a marker says, and `markers`: those that may count, in their order.
* `Nearest`: the marker that decides.
* `Decides`: what follows from it, or from its absence.
* `decides_of_discover`: this is what is found, and no file in a directory around the root matters.
-/

namespace RouteScribe
namespace Project

open Files

/-! ## Markers -/

/-- A file that may mark a directory, given by its names, as the root of a project. -/
inductive Marker where
  | settings (dir : List String)
  | module (dir : List String)

namespace Marker

/-- The directory that is marked. -/
def dir : Marker → List String
  | settings d => d
  | module d => d

/-- The names that lead to the file. -/
def names : Marker → List String
  | settings d => d ++ [settingsFile]
  | module d => d ++ [moduleFile]

/-- The path of the file. -/
def path (m : Marker) : String := Path.rooted m.names

end Marker

/-- The markers for a place, from the inside out; settings come before modules. -/
def markers (place : Place) : List Marker :=
  place.inits.reverse.flatMap fun d => [.settings d, .module d]

/-- The path leads to a file with this text. -/
def Holds (t : Tree) (path text : String) : Prop :=
  ∃ q mode, t.find true path = .ok (q, .file (some text) mode)

/-- The marker can be used, and this is the project that it says. -/
inductive Marks (t : Tree) : Marker → Project → Prop
  | settings {d : List String} {text : String} {v : Json.Value} {s : Settings}
      (htext : Holds t (Marker.settings d).path text) (hv : Json.read? text = some v)
      (hs : Settings.Describes v s) : Marks t (.settings d) ⟨Path.rooted d, s.projectName,
        if s.defaultCommand = "" then "default-api" else s.defaultCommand⟩
  | module {d : List String} {text name : String} (htext : Holds t (Marker.module d).path text)
      (hname : NamesModule text name) : Marks t (.module d) ⟨Path.rooted d, name, "default-api"⟩

/-- Of the markers for a place, those in `before` cannot be used, and `m`, which comes next, says
that the project is `p`. -/
structure Nearest (t : Tree) (place : Place) (before : List Marker) (m : Marker) (p : Project) :
    Prop where
  order : before ++ [m] <+: markers place
  unusable : ∀ m' ∈ before, ∀ p', ¬ Marks t m' p'
  marks : Marks t m p

/-- The outcome `r` is what the nearest marker says, or that there is none. -/
structure Decides (t : Tree) (place : Place) (r : Except Failure Project) : Prop where
  total : (∃ before m p, Nearest t place before m p) ∨ ∀ m ∈ markers place, ∀ p, ¬ Marks t m p
  found : ∀ before m p, Nearest t place before m p → ¬ Unicode.Blank p.module.toList → r = .ok p
  unnamed : ∀ before m p, Nearest t place before m p → Unicode.Blank p.module.toList →
    r = .error (.config (.unnamed p.root))
  none : (∀ m ∈ markers place, ∀ p, ¬ Marks t m p) →
    r = .error (.config (.noProject ((markers place).map Marker.path)))
  /-- No path is listed twice. -/
  once : ((markers place).map Marker.path).Nodup

/-- The place is in a directory above `dir`, and not on the way there. -/
def Above (dir w : Place) : Prop := ∃ a n, a <+: dir ∧ a ≠ dir ∧ w = a ++ [n] ∧ ¬ w <+: dir

/-! ## The order of the markers -/

variable {t t' : Tree} {place w : Place} {before : List Marker} {m m' : Marker} {p : Project}

theorem pairwise_inits (ns : List String) : ns.inits.Pairwise fun a b => a <+: b ∧ a ≠ b := by
  induction ns with
  | nil => exact List.pairwise_singleton _ _
  | cons n ns ih =>
    rw [List.inits_cons]
    refine List.pairwise_cons.2 ⟨fun b hb => ?_, List.pairwise_map.2 (ih.imp fun {a b} h => ?_)⟩
    · obtain ⟨b, -, rfl⟩ := List.mem_map.1 hb
      exact ⟨List.nil_prefix, (List.cons_ne_nil n b).symm⟩
    · exact ⟨List.cons_prefix_cons.2 ⟨rfl, h.1⟩, fun heq => h.2 (List.cons.inj heq).2⟩

theorem mem_markers : m ∈ markers place ↔ m.dir <+: place := by
  simp only [markers, List.mem_flatMap, List.mem_reverse, List.mem_inits, List.mem_cons,
    List.not_mem_nil, or_false]
  constructor
  · rintro ⟨d, hd, rfl | rfl⟩ <;> exact hd
  · intro h
    cases m with
    | settings d => exact ⟨d, h, .inl rfl⟩
    | module d => exact ⟨d, h, .inr rfl⟩

theorem pairwise_markers (place : Place) :
    (markers place).Pairwise fun m m' => m ≠ m' ∧ m'.dir <+: m.dir := by
  refine List.pairwise_flatMap.2 ⟨fun d _ => ?_, ?_⟩
  · exact List.pairwise_pair.2 ⟨by simp, List.prefix_rfl⟩
  · refine List.pairwise_reverse.2 ((pairwise_inits place).imp fun {a b} h x hx y hy => ?_)
    have hdir : ∀ {d : List String} {z : Marker}, z ∈ [Marker.settings d, .module d] →
        z.dir = d := by
      intro d z hz
      simp only [List.mem_cons, List.not_mem_nil, or_false] at hz
      rcases hz with rfl | rfl <;> rfl
    rw [← hdir hx, ← hdir hy] at h
    exact ⟨fun heq => h.2 (heq ▸ rfl), h.1⟩

theorem Nearest.isPrefix_dir (h : Nearest t place before m p) (hm' : m' ∈ before ++ [m]) :
    m.dir <+: m'.dir ∧ m'.dir <+: place := by
  refine ⟨?_, mem_markers.1 (h.order.subset hm')⟩
  rcases List.mem_append.1 hm' with hm' | hm'
  · have hpairwise := (pairwise_markers place).sublist h.order.sublist
    exact ((List.pairwise_append.1 hpairwise).2.2 m' hm' m List.mem_cons_self).2
  · rw [List.mem_singleton.1 hm']

theorem isName_of_mem_names (h : ∀ n ∈ place, Path.IsName n) (hm : m.dir <+: place) :
    ∀ n ∈ m.names, Path.IsName n := by
  have hdir : ∀ n ∈ m.dir, Path.IsName n := fun n hn => h n (hm.subset hn)
  have hfiles : Path.IsName settingsFile ∧ Path.IsName moduleFile := by decide
  cases m with
  | settings d => exact List.forall_mem_append.2 ⟨hdir, List.forall_mem_singleton.2 hfiles.1⟩
  | module d => exact List.forall_mem_append.2 ⟨hdir, List.forall_mem_singleton.2 hfiles.2⟩

theorem names_injective {m m' : Marker} (h : m.names = m'.names) : m = m' := by
  have hfiles : settingsFile ≠ moduleFile := by decide
  cases m with
  | settings d =>
    cases m' with
    | settings d' => rw [List.append_cancel_right h]
    | module d' => exact absurd (List.singleton_inj.1 (List.append_inj' h rfl).2) hfiles
  | module d =>
    cases m' with
    | settings d' => exact absurd (List.singleton_inj.1 (List.append_inj' h rfl).2).symm hfiles
    | module d' => rw [List.append_cancel_right h]

theorem nodup_paths (h : ∀ n ∈ place, Path.IsName n) :
    ((markers place).map Marker.path).Nodup := by
  refine List.Nodup.map_on (fun m hm m' hm' heq => ?_)
    ((pairwise_markers place).imp fun h => h.1)
  have hnames := isName_of_mem_names h (mem_markers.1 hm)
  have hnames' := isName_of_mem_names h (mem_markers.1 hm')
  exact names_injective (Path.rooted_injective hnames hnames' heq)

/-! ## Markers as they are read -/

/-- The project that a marker says, as it is read. -/
def read? (t : Tree) : Marker → Option Project
  | .settings d => ofSettings? t (Path.rooted d)
  | .module d => ofModule? t (Path.rooted d)

theorem fileText?_eq_some_iff {path text : String} :
    fileText? t path = some text ↔ Holds t path text := by
  unfold Holds
  rw [← Tree.readText_eq_ok_iff, fileText?]
  constructor
  · intro h
    split at h
    · cases htext : t.readText path with
      | error r =>
        rw [htext] at h
        cases h
      | ok text' =>
        rw [htext] at h
        cases h
        rfl
    · cases h
  · intro h
    rw [if_pos (Tree.isFile_of_readText h), h]
    rfl

theorem ofSettings?_eq (t : Tree) (dir : String) : ofSettings? t dir
    = ((fileText? t (Path.join dir settingsFile)).bind Settings.read?).map fun s =>
      ⟨dir, s.projectName, if s.defaultCommand = "" then "default-api" else s.defaultCommand⟩ := by
  unfold ofSettings?
  congr 1
  funext s
  by_cases h : s.defaultCommand = ""
  · rw [if_pos h, if_pos h]
    rfl
  · rw [if_neg h, if_neg h]
    rfl

theorem ofSettings?_eq_some_iff {d : List String}
    (h : ∀ n ∈ (Marker.settings d).names, Path.IsName n) :
    ofSettings? t (Path.rooted d) = some p ↔ Marks t (.settings d) p := by
  have hpath : Path.join (Path.rooted d) settingsFile = (Marker.settings d).path :=
    (Path.rooted_concat h).symm
  rw [ofSettings?_eq, hpath]
  constructor
  · intro hread
    obtain ⟨s, hs, rfl⟩ := Option.map_eq_some_iff.1 hread
    obtain ⟨text, htext, hsettings⟩ := Option.bind_eq_some_iff.1 hs
    obtain ⟨v, hv, hdescribes⟩ := Settings.read?_eq_some_iff.1 hsettings
    exact .settings (fileText?_eq_some_iff.1 htext) hv hdescribes
  · intro hmarks
    cases hmarks with
    | settings htext hv hdescribes =>
      rw [fileText?_eq_some_iff.2 htext, Option.bind_some,
        Settings.read?_eq_some_iff.2 ⟨_, hv, hdescribes⟩]
      rfl

theorem ofModule?_eq_some_iff {d : List String}
    (h : ∀ n ∈ (Marker.module d).names, Path.IsName n) :
    ofModule? t (Path.rooted d) = some p ↔ Marks t (.module d) p := by
  have hpath : Path.join (Path.rooted d) moduleFile = (Marker.module d).path :=
    (Path.rooted_concat h).symm
  rw [ofModule?, hpath]
  constructor
  · intro hread
    obtain ⟨name, hname, rfl⟩ := Option.map_eq_some_iff.1 hread
    obtain ⟨text, htext, hmodule⟩ := Option.bind_eq_some_iff.1 hname
    exact .module (fileText?_eq_some_iff.1 htext) (moduleName?_eq_some_iff.1 hmodule)
  · intro hmarks
    cases hmarks with
    | module htext hname =>
      rw [fileText?_eq_some_iff.2 htext, Option.bind_some, moduleName?_eq_some_iff.2 hname]
      rfl

theorem read?_eq_some_iff (h : ∀ n ∈ place, Path.IsName n) (hm : m ∈ markers place) :
    read? t m = some p ↔ Marks t m p := by
  have hnames := isName_of_mem_names h (mem_markers.1 hm)
  cases m with
  | settings d => exact ofSettings?_eq_some_iff hnames
  | module d => exact ofModule?_eq_some_iff hnames

/-- Directory by directory, the markers are tried one after the other. -/
theorem findSome?_map_rooted (t : Tree) (dirs : List (List String)) :
    (dirs.map Path.rooted).findSome? (at? t)
      = (dirs.flatMap fun d => [Marker.settings d, .module d]).findSome? (read? t) := by
  induction dirs with
  | nil => rfl
  | cons d ds ih =>
    rw [List.map_cons, List.flatMap_cons, List.findSome?_append, ← ih, List.findSome?_cons, at?]
    simp only [List.findSome?_cons, List.findSome?_nil, read?]
    cases ofSettings? t (Path.rooted d) with
    | some p => rfl
    | none => cases ofModule? t (Path.rooted d) <;> rfl

theorem findSome?_at? (h : ∀ n ∈ place, Path.IsName n) :
    (Path.ancestors (Path.rooted place)).findSome? (at? t) = (markers place).findSome? (read? t) := by
  rw [Path.ancestors_rooted h]
  exact findSome?_map_rooted t _

theorem findSome?_read?_eq_some_iff (h : ∀ n ∈ place, Path.IsName n) :
    (markers place).findSome? (read? t) = some p ↔ ∃ before m, Nearest t place before m p := by
  rw [List.findSome?_eq_some_iff]
  constructor
  · rintro ⟨before, m, after, heq, hm, hbefore⟩
    have horder : before ++ [m] <+: markers place :=
      ⟨after, (List.append_cons ..).symm.trans heq.symm⟩
    refine ⟨before, m, horder, fun m' hm' p' hp' => ?_,
      (read?_eq_some_iff h (horder.subset (by simp))).1 hm⟩
    have hsome := (read?_eq_some_iff h (horder.subset (List.mem_append_left _ hm'))).2 hp'
    rw [hbefore m' hm'] at hsome
    cases hsome
  · rintro ⟨before, m, ⟨after, heq⟩, hbefore, hm⟩
    rw [List.append_assoc, List.singleton_append] at heq
    refine ⟨before, m, after, heq.symm, (read?_eq_some_iff h (by simp [← heq])).2 hm,
      fun m' hm' => Option.eq_none_iff_forall_ne_some.2 fun p' hp' => ?_⟩
    have hmem : m' ∈ markers place := heq ▸ List.mem_append_left _ hm'
    exact hbefore m' hm' p' ((read?_eq_some_iff h hmem).1 hp')

/-! ## Discovery -/

theorem firstAt_of_nearest (h : ∀ n ∈ place, Path.IsName n) (hnearest : Nearest t place before m p) :
    firstAt t (Path.ancestors (Path.rooted place))
      = if Unicode.isBlank p.module then .error (.unnamed p.root) else .ok p := by
  rw [firstAt, findSome?_at? h, (findSome?_read?_eq_some_iff h).2 ⟨before, m, hnearest⟩]

theorem flatMap_candidates (h : ∀ n ∈ place, Path.IsName n) :
    (Path.ancestors (Path.rooted place)).flatMap candidates = (markers place).map Marker.path := by
  rw [Path.ancestors_rooted h, markers, List.flatMap_map, List.map_flatMap]
  refine List.flatMap_congr fun d hd => ?_
  have hdir : d <+: place := (List.mem_inits ..).1 (List.mem_reverse.1 hd)
  have hsettings := isName_of_mem_names (m := .settings d) h hdir
  have hmodule := isName_of_mem_names (m := .module d) h hdir
  rw [candidates, ← Path.rooted_concat hsettings, ← Path.rooted_concat hmodule]
  rfl

theorem firstAt_of_none (h : ∀ n ∈ place, Path.IsName n)
    (hnone : ∀ m ∈ markers place, ∀ p, ¬ Marks t m p) :
    firstAt t (Path.ancestors (Path.rooted place))
      = .error (.noProject ((markers place).map Marker.path)) := by
  have hread : (markers place).findSome? (read? t) = none := by
    refine Option.eq_none_iff_forall_ne_some.2 fun p hp => ?_
    obtain ⟨before, m, hnearest⟩ := (findSome?_read?_eq_some_iff h).1 hp
    exact hnone m (hnearest.order.subset (by simp)) p hnearest.marks
  rw [firstAt, findSome?_at? h, hread, flatMap_candidates h]

theorem perform_discover {here start : String} {e : Entry} (hne : start ≠ "")
    (h : t.find true (Path.join here start) = .ok (place, e)) (log : List Notice) :
    (discover here start).perform ⟨t, log⟩
      = ((firstAt t (Path.ancestors (Path.rooted place))).mapError .config, ⟨t, log⟩) := by
  have hcanonical : t.canonical (Path.join here start) = .ok (Path.rooted place) := by
    rw [Tree.canonical, h]
    rfl
  rw [discover, Work.perform_bind, Work.perform_tree]
  simp only [hne, if_false, hcanonical]
  cases firstAt t (Path.ancestors (Path.rooted place)) <;> rfl

theorem decides_firstAt (h : ∀ n ∈ place, Path.IsName n) :
    Decides t place ((firstAt t (Path.ancestors (Path.rooted place))).mapError .config) := by
  refine ⟨?_, fun before m p hnearest hnamed => ?_, fun before m p hnearest hblank => ?_,
    fun hnone => ?_, nodup_paths h⟩
  · cases hread : (markers place).findSome? (read? t) with
    | some p =>
      obtain ⟨before, m, hnearest⟩ := (findSome?_read?_eq_some_iff h).1 hread
      exact .inl ⟨before, m, p, hnearest⟩
    | none =>
      refine .inr fun m hm p hmarks => ?_
      have hsome := (read?_eq_some_iff h hm).2 hmarks
      rw [List.findSome?_eq_none_iff.1 hread m hm] at hsome
      cases hsome
  · have hname : Unicode.isBlank p.module = false :=
      Bool.eq_false_iff.2 fun hblank => hnamed (List.all_eq_true.1 hblank)
    rw [firstAt_of_nearest h hnearest, hname]
    rfl
  · have hname : Unicode.isBlank p.module = true := List.all_eq_true.2 hblank
    rw [firstAt_of_nearest h hnearest, hname]
    rfl
  · rw [firstAt_of_none h hnone]
    rfl

/-! ## Other files -/

theorem Marks.of_holds (h : ∀ text, Holds t m.path text → Holds t' m.path text)
    (hmarks : Marks t m p) : Marks t' m p := by
  cases hmarks with
  | settings htext hv hs => exact .settings (h _ htext) hv hs
  | module htext hname => exact .module (h _ htext) hname

theorem marks_congr (h : ∀ w, t.Looks m.path w → t'.get? w = t.get? w) :
    Marks t' m p ↔ Marks t m p := by
  have hholds : ∀ text, Holds t' m.path text ↔ Holds t m.path text := fun text => by
    rw [Holds, Holds, Tree.find_of_looks h]
  exact ⟨.of_holds fun text => (hholds text).1, .of_holds fun text => (hholds text).2⟩

/-- The same marker is the nearest where the lookups up to it look at the same. -/
theorem Nearest.congr (h : Nearest t place before m p)
    (hsame : ∀ m' ∈ before ++ [m], ∀ w, t.Looks m'.path w → t'.get? w = t.get? w) :
    Nearest t' place before m p := by
  refine ⟨h.order, fun m' hm' p' hmarks => ?_, ?_⟩
  · exact h.unusable m' hm' p' ((marks_congr (hsame m' (List.mem_append_left _ hm'))).1 hmarks)
  · exact (marks_congr (hsame m (by simp))).2 h.marks

/-- The lookup of a marker that is no link does not leave the way there. -/
theorem isPrefix_of_looks (hw : t.WellFormed) {e : Entry} (he : t.get? place = some e)
    (hlink : ∀ target, e ≠ .link target) (hdir : m.dir <+: place)
    (hmarker : ∀ target, t.get? m.names ≠ some (.link target)) (h : t.Looks m.path w) :
    w <+: m.names := by
  have hnames := isName_of_mem_names (fun n hn => hw.isName_of_mem he hn) hdir
  refine Tree.isPrefix_of_looks hnames (fun w hne hway target hget => ?_) h
  have hcases : w = m.names ∨ w <+: m.dir := by
    cases m with
    | settings d => exact List.prefix_concat_iff.1 hway
    | module d => exact List.prefix_concat_iff.1 hway
  rw [List.nil_append] at hget
  rcases hcases with rfl | hway
  · exact hmarker target hget
  · by_cases hplace : w = place
    · rw [hplace, he, Option.some.injEq] at hget
      exact hlink target hget
    · rw [hw.dir_of_isPrefix he (hway.trans hdir) hplace] at hget
      cases hget

/-- A place on the way to a marker is not above a directory that is on the way, too. -/
theorem not_above_of_isPrefix (h : w <+: m'.names) (hdir : m.dir <+: m'.dir) : ¬ Above m.dir w := by
  rintro ⟨a, n, ha, hne, rfl, hnot⟩
  have hnames : m'.dir <+: m'.names := by
    cases m' with
    | settings d => exact List.prefix_append _ _
    | module d => exact List.prefix_append _ _
  rcases List.prefix_or_prefix_of_prefix h (hdir.trans hnames) with hway | hway
  · exact hnot hway
  · rcases List.prefix_concat_iff.1 hway with heq | hway
    · exact hnot (heq ▸ List.prefix_rfl)
    · exact hne (ha.eq_of_length (Nat.le_antisymm ha.length_le hway.length_le))

/-- What is found is decided by the nearest marker. In another file system in which the start is
the same place, it is the same, if the lookups up to that marker look at the same; so it is if they
meet no link and only directories above that of the marker have other files. -/
theorem decides_of_discover (hw : t.WellFormed) {here start : String} {e : Entry} (hne : start ≠ "")
    (hfind : t.find true (Path.join here start) = .ok (place, e)) (log : List Notice) :
    ∃ r, (discover here start).perform ⟨t, log⟩ = (r, ⟨t, log⟩) ∧ Decides t place r ∧
      ∀ before m p, Nearest t place before m p → ∀ (t' : Tree) (e' : Entry) (log' : List Notice),
        t'.find true (Path.join here start) = .ok (place, e') →
        (∀ m' ∈ before ++ [m], ∀ w, t.Looks m'.path w → t'.get? w = t.get? w) ∨
          (∀ m' ∈ before ++ [m], ∀ target, t.get? m'.names ≠ some (.link target)) ∧
            (∀ w, t'.get? w ≠ t.get? w → Above m.dir w) →
        (discover here start).perform ⟨t', log'⟩ = (r, ⟨t', log'⟩) := by
  have hget := (Tree.find_eq_ok_iff.1 hfind).2
  have hnames : ∀ n ∈ place, Path.IsName n := fun n hn => hw.isName_of_mem hget hn
  refine ⟨_, perform_discover hne hfind log, decides_firstAt hnames, ?_⟩
  intro before m p hnearest t' e' log' hfind' hother
  have hsame : ∀ m' ∈ before ++ [m], ∀ w, t.Looks m'.path w → t'.get? w = t.get? w := by
    rcases hother with hsame | ⟨hlinks, habove⟩
    · exact hsame
    · intro m' hm' w hlooks
      obtain ⟨hdir, hplace⟩ := hnearest.isPrefix_dir hm'
      have hway := isPrefix_of_looks hw hget (Tree.ne_link_of_find hw hfind) hplace
        (hlinks m' hm') hlooks
      by_contra hdiffers
      exact not_above_of_isPrefix hway hdir (habove w hdiffers)
  rw [perform_discover hne hfind' log', firstAt_of_nearest hnames (hnearest.congr hsame),
    firstAt_of_nearest hnames hnearest]

/-- A project with settings, and a directory in it with files that cannot be used. -/
def surrounded : Tree :=
  ⟨[(["p"], .dir), (["p", "godoconfig.json"], .file (some "\x7b\"project_name\": \"shop\"\x7d") 0o644),
    (["p", "q"], .dir), (["p", "q", "godoconfig.json"], .file (some "\x7b") 0o644),
    (["p", "q", "go.mod"], .file (some "go 1.22\n") 0o644)]⟩

theorem decides_surrounded : surrounded.WellFormed ∧
    surrounded.find true (Path.join "/" "/p/q") = .ok (["p", "q"], .dir) ∧
    Decides surrounded ["p", "q"] (.ok ⟨"/p", "shop", "default-api"⟩) ∧
    (discover "/" "/p/q").perform ⟨surrounded.put ["go.mod"] (.file (some "module m\n") 0o644), []⟩
      = (.ok ⟨"/p", "shop", "default-api"⟩,
        ⟨surrounded.put ["go.mod"] (.file (some "module m\n") 0o644), []⟩) := by
  have hw : surrounded.WellFormed := by decide +kernel
  have hfind : surrounded.find true (Path.join "/" "/p/q") = .ok (["p", "q"], .dir) := by
    decide +kernel
  obtain ⟨r, -, hdecides, hothers⟩ := decides_of_discover hw (by decide) hfind []
  have hnames : ∀ n ∈ ["p", "q"], Path.IsName n := by decide
  have hnearest : Nearest surrounded ["p", "q"] [.settings ["p", "q"], .module ["p", "q"]]
      (.settings ["p"]) ⟨"/p", "shop", "default-api"⟩ := by
    refine ⟨⟨_, rfl⟩, ?_,
      (read?_eq_some_iff hnames (mem_markers.2 ⟨_, rfl⟩)).1 (by decide +kernel)⟩
    intro m hm p hmarks
    have hnone : read? surrounded (.settings ["p", "q"]) = none ∧
        read? surrounded (.module ["p", "q"]) = none := by decide +kernel
    simp only [List.mem_cons, List.not_mem_nil, or_false] at hm
    rcases hm with rfl | rfl
    · have hsome := (read?_eq_some_iff hnames (mem_markers.2 List.prefix_rfl)).2 hmarks
      rw [hnone.1] at hsome
      cases hsome
    · have hsome := (read?_eq_some_iff hnames (mem_markers.2 List.prefix_rfl)).2 hmarks
      rw [hnone.2] at hsome
      cases hsome
  have hlinks : ∀ m : Marker, ∀ target, surrounded.get? m.names ≠ some (.link target) := by
    intro m target hget
    have hne : m.names ≠ [] := by cases m <;> simp [Marker.names]
    have hmem := Tree.mem_entries_of_get? hget hne
    simp [surrounded] at hmem
  obtain rfl := hdecides.found _ _ _ hnearest fun hblank =>
    absurd (hblank 's' (by decide)) (by decide)
  refine ⟨hw, hfind, hdecides, hothers _ _ _ hnearest _ .dir [] (by decide +kernel)
    (.inr ⟨fun m _ => hlinks m, fun w hdiffers => ?_⟩)⟩
  have hplace : w = ["go.mod"] := by
    by_contra hne
    exact hdiffers (Tree.get?_put_of_ne _ hne _)
  exact ⟨[], "go.mod", List.nil_prefix, by decide, hplace, by rw [hplace]; decide⟩

/-- A project around a directory with a link to its module file. -/
def linkedUp (name : String) : Tree :=
  ⟨[(["p"], .dir), (["p", "go.mod"], .file (some ("module " ++ name ++ "\n")) 0o644),
    (["p", "q"], .dir), (["p", "q", "go.mod"], .link "../go.mod")]⟩

/-- The two differ only in a file above the directory that is found, and yet in what is found. -/
theorem discover_linkedUp : (linkedUp "a").WellFormed ∧ (linkedUp "b").WellFormed ∧
    (linkedUp "a").find true "/p/q" = .ok (["p", "q"], .dir) ∧
    (linkedUp "b").find true "/p/q" = .ok (["p", "q"], .dir) ∧
    (∀ w, (linkedUp "b").get? w ≠ (linkedUp "a").get? w → Above ["p", "q"] w) ∧
    ((discover "/" "/p/q").perform ⟨linkedUp "a", []⟩).1 = .ok ⟨"/p/q", "a", "default-api"⟩ ∧
    ((discover "/" "/p/q").perform ⟨linkedUp "b", []⟩).1 = .ok ⟨"/p/q", "b", "default-api"⟩ := by
  refine ⟨by decide +kernel, by decide +kernel, by decide +kernel, by decide +kernel,
    fun w hdiffers => ?_, by decide +kernel, by decide +kernel⟩
  have hplace : w = ["p", "go.mod"] := by
    by_contra hne
    have hne' : ¬ (["p", "go.mod"] = w) := fun h => hne h.symm
    exact hdiffers (by simp [Tree.get?, linkedUp, List.find?_cons, hne'])
  exact ⟨["p"], "go.mod", by decide, by decide, hplace, by rw [hplace]; decide⟩

end Project
end RouteScribe
