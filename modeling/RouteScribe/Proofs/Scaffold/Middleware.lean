import RouteScribe.Proofs.Files.Creation
import RouteScribe.Proofs.Files.Gathering
import RouteScribe.Proofs.Project.Layout
import RouteScribe.Proofs.Scaffold.Name
import RouteScribe.Proofs.Scaffold.Source
import RouteScribe.Proofs.Unicode.Uppercase
import RouteScribe.Proofs.Work
import RouteScribe.Scaffold.Generate

/-!
# RouteScribe.Proofs.Scaffold.Middleware

New middlewares. Every name is looked up in a file system that has the files for the names before
it; that these are found again, and no others appear, is what carries the loop.

* `Creates`: the steps of the loop.
* `Creates.gathers`: what the loop has done, if it goes on from any state of it.
* `Provides`: what a run does. A second run has nothing to do.
-/

namespace RouteScribe
namespace Scaffold

open Files Files.Tree

variable {project : Project} {name : String} {names new made done all written : List String}
  {b t t' : Tree} {r : Place} {s s' : Session}

/-! ## Names of files -/

theorem le_toNat_of_isAlphanumeric {c : Char} (h : Unicode.isAlphanumeric c = true) :
    0x30 ≤ c.toNat := by
  by_cases hlow : c.toNat < 0x80
  · have hall : ∀ n < 0x80, Unicode.isAlphanumeric (Char.ofNat n) = true → 0x30 ≤ n := by decide
    exact hall c.toNat hlow (by rwa [Char.ofNat_toNat])
  · omega

theorem le_toNat_of_mem_capitalize (h : isIdentifier name = true) :
    ∀ u ∈ (capitalize name).toList, 0x30 ≤ u.toNat := by
  have hchar : ∀ {c : Char}, (Unicode.isAlphanumeric c = true ∨ c = '_') → 0x30 ≤ c.toNat := by
    rintro c (hc | rfl)
    · exact le_toNat_of_isAlphanumeric hc
    · decide
  unfold isIdentifier at h
  unfold capitalize
  cases hname : name.toList with
  | nil => exact nofun
  | cons c cs =>
    rw [hname] at h
    simp only [Bool.and_eq_true, Bool.or_eq_true, List.all_eq_true, decide_eq_true_eq] at h
    have hc : 0x30 ≤ c.toNat := hchar (h.1.imp_left fun ha => Bool.or_eq_true_iff.2 (.inl ha))
    rw [String.toList_ofList]
    refine List.forall_mem_append.2 ⟨fun u hu => ?_, fun u hu => hchar (h.2 u hu)⟩
    exact Unicode.le_toNat_of_mem_uppercaseChar hc hu

theorem isName_capitalize_append_go (h : isIdentifier name = true) :
    Path.IsName (capitalize name ++ ".go") := by
  have hall := le_toNat_of_mem_capitalize h
  refine isName_append_go (fun hslash => ?_) fun hnul => ?_
  · exact absurd (hall _ hslash) (by decide)
  · exact absurd (hall _ hnul) (by decide)

theorem isJoined_middlewareDir (project : Project) : IsJoined project.middlewareDir :=
  ⟨_, "middleware", by decide, project.middlewareDir_eq⟩

/-! ## The steps of the loop -/

/-- The middlewares `new` are written for the names in order, where there is none. -/
inductive Creates (project : Project) : Tree → List String → List String → Tree → Prop
  | nil (t : Tree) : Creates project t [] [] t
  | old {t t' : Tree} {name : String} {names new : List String} : isIdentifier name = true →
      t.exists (sourcePath project.middlewareDir (capitalize name)) = true →
      Creates project t names new t' → Creates project t (name :: names) new t'
  | new {t t₁ t' : Tree} {name : String} {names new : List String} : isIdentifier name = true →
      t.exists (sourcePath project.middlewareDir (capitalize name)) = false →
      t.write (sourcePath project.middlewareDir (capitalize name))
        (middlewareText (capitalize name)) = (t₁, none) →
      Creates project t₁ names new t' → Creates project t (name :: names) (capitalize name :: new) t'

theorem perform_newMiddlewares_cons (project : Project) (name : String) (names : List String)
    (s : Session) : (newMiddlewares project (name :: names)).perform s =
      let path := sourcePath project.middlewareDir (capitalize name)
      if isIdentifier name = true then
        if s.tree.exists path = true then
          (newMiddlewares project names).perform ⟨s.tree, s.log ++ [.fileExists path]⟩
        else
          match s.tree.write path (middlewareText (capitalize name)) with
          | (t, some (p, e)) => (.error (.io p e), ⟨t, s.log⟩)
          | (t, none) =>
            let (r, s') :=
              (newMiddlewares project names).perform ⟨t, s.log ++ [.fileCreated path]⟩
            (r.map (path :: ·), s')
      else (.error (.argument (.middlewareName name)), s) := by
  have hpath : Path.join project.middlewareDir (capitalize name ++ ".go")
      = sourcePath project.middlewareDir (capitalize name) := rfl
  rw [newMiddlewares]
  dsimp only
  rw [hpath, middlewareSource_eq, Work.renderTo_ok]
  generalize sourcePath project.middlewareDir (capitalize name) = path
  by_cases hname : isIdentifier name = true
  · rw [if_pos hname, hname, if_neg (by decide), Work.perform_bind, Work.perform_tree]
    dsimp only
    by_cases hexists : s.tree.exists path = true
    · rw [if_pos hexists, if_pos hexists, Work.perform_bind, Work.perform_report]
    · rw [if_neg hexists, if_neg hexists, Work.perform_bind, Work.perform_write]
      rcases s.tree.write path (middlewareText (capitalize name)) with ⟨t, _ | ⟨p, e⟩⟩
      · dsimp only
        rw [Work.perform_bind, Work.perform_report]
        dsimp only
        rw [Work.perform_bind]
        rcases hrest : (newMiddlewares project names).perform ⟨t, s.log ++ [.fileCreated path]⟩
          with ⟨_ | rest, s'⟩
        · rw [hrest]
          rfl
        · rw [hrest]
          rfl
      · rfl
  · rw [if_neg hname, Bool.eq_false_iff.2 hname]
    rfl

theorem creates_of_perform (h : (newMiddlewares project names).perform s = (.ok written, s')) :
    ∃ new, written = new.map (sourcePath project.middlewareDir) ∧
      Creates project s.tree names new s'.tree := by
  induction names generalizing s written with
  | nil =>
    cases h
    exact ⟨[], rfl, .nil _⟩
  | cons name names ih =>
    rw [perform_newMiddlewares_cons] at h
    dsimp only at h
    split at h
    next hname =>
      split at h
      next hexists =>
        obtain ⟨new, hwritten, hrest⟩ := ih h
        exact ⟨new, hwritten, .old hname hexists hrest⟩
      next hmissing =>
        split at h
        · cases h
        next t hwrite =>
          rcases hperform : (newMiddlewares project names).perform ⟨t, s.log ++
            [.fileCreated (sourcePath project.middlewareDir (capitalize name))]⟩ with ⟨_ | rest, s₁⟩
          · rw [hperform] at h
            cases h
          · rw [hperform] at h
            cases h
            obtain ⟨new, rfl, hrest⟩ := ih hperform
            exact ⟨capitalize name :: new, rfl,
              .new hname (Bool.eq_false_iff.2 hmissing) hwrite hrest⟩
    · cases h

namespace Creates

theorem perform (h : Creates project t names new t') (log : List Notice) :
    ∃ log', (newMiddlewares project names).perform ⟨t, log⟩
      = (.ok (new.map (sourcePath project.middlewareDir)), ⟨t', log'⟩) := by
  induction h generalizing log with
  | nil t => exact ⟨log, rfl⟩
  | @old t _ name _ _ hname hexists _ ih =>
    rw [perform_newMiddlewares_cons]
    dsimp only
    rw [if_pos hname, if_pos hexists]
    exact ih _
  | @new _ _ _ name _ _ hname hmissing hwrite _ ih =>
    obtain ⟨log', hrest⟩ :=
      ih (log ++ [.fileCreated (sourcePath project.middlewareDir (capitalize name))])
    refine ⟨log', ?_⟩
    rw [perform_newMiddlewares_cons]
    dsimp only
    rw [if_pos hname, if_neg (Bool.eq_false_iff.1 hmissing), hwrite]
    dsimp only
    rw [hrest]
    rfl

theorem isIdentifier (h : Creates project t names new t') :
    ∀ n ∈ names, isIdentifier n = true := by
  induction h with
  | nil => exact nofun
  | old hname _ _ ih => exact List.forall_mem_cons.2 ⟨hname, ih⟩
  | new hname _ _ _ ih => exact List.forall_mem_cons.2 ⟨hname, ih⟩

theorem of_exists (h : ∀ n ∈ names, Scaffold.isIdentifier n = true ∧
    t.exists (sourcePath project.middlewareDir (capitalize n)) = true) :
    Creates project t names [] t := by
  induction names with
  | nil => exact .nil t
  | cons name names ih =>
    obtain ⟨⟨hname, hexists⟩, hnames⟩ := List.forall_mem_cons.1 h
    exact .old hname hexists (ih hnames)

end Creates

/-! ## The whole loop -/

/-- The names that are not among `done`, each once, in the order in which they come first. -/
def firsts (done names : List String) : List String := (names.filter (· ∉ done)).eraseDups

theorem firsts_cons_of_mem (h : name ∈ done) :
    firsts done (name :: names) = firsts (done ++ [name]) names := by
  have hsame : ∀ n, n ∈ done ++ [name] ↔ n ∈ done := by
    intro n
    rw [List.mem_append, List.mem_singleton]
    exact or_iff_left_of_imp fun hn => hn ▸ h
  simp only [firsts, List.filter_cons, h, hsame, not_true_eq_false, decide_false, if_false,
    Bool.false_eq_true]

theorem firsts_cons_of_notMem (h : name ∉ done) :
    firsts done (name :: names) = name :: firsts (done ++ [name]) names := by
  have hrest : (names.filter (· ∉ done)).filter (fun n => !n == name)
      = names.filter (· ∉ done ++ [name]) := by
    rw [List.filter_filter]
    refine List.filter_congr fun n _ => ?_
    simp [and_comm, Bool.beq_eq_decide_eq]
  rw [firsts, List.filter_cons_of_pos (by simpa using h), List.eraseDups_cons, hrest]
  rfl

/-- From `b` the loop has come to `t` when it is done with some names and has written the middlewares
`made`. -/
structure Reaches (project : Project) (b t : Tree) (r : Place) (done made : List String) : Prop where
  gathers : Gathers b t project.middlewareDir r middlewareText made
  mem_done : ∀ n ∈ made, n ∈ done
  exists_or : ∀ n ∈ done, b.exists (sourcePath project.middlewareDir n) = true ∨ n ∈ made

namespace Reaches

theorem nil (project : Project) (b : Tree) (r : Place) : Reaches project b b r [] [] :=
  ⟨.nil .., nofun, nofun⟩

section

variable {rest : List String} (hb : b.WellFormed)
  (hr : b.find true project.middlewareDir = .ok (r, .dir))
  (hnames : ∀ n ∈ all, Path.IsName (n ++ ".go"))
  (hapart : Apart b project.middlewareDir r all) (h : Reaches project b t r done made)

include hb hr hnames hapart h in
theorem exists_of_mem_done (hall : ∀ n ∈ done, n ∈ all) :
    ∀ n ∈ done, t.exists (sourcePath project.middlewareDir n) = true := fun n hn =>
  h.gathers.exists_of_or (isJoined_middlewareDir project) hb hr hnames hapart
    (fun m hm => hall m (h.mem_done m hm)) (hall n hn) (h.exists_or n hn)

include hapart h in
/-- A name that comes up first is looked up as at the beginning. -/
theorem exists_eq (hall : all = done ++ name :: rest) (hname : name ∉ done) :
    t.exists (sourcePath project.middlewareDir name)
      = b.exists (sourcePath project.middlewareDir name) := by
  have hfind : t.find true (sourcePath project.middlewareDir name)
      = b.find true (sourcePath project.middlewareDir name) := by
    refine h.gathers.find_eq fun n hn => ?_
    obtain ⟨front, back, rfl⟩ := List.append_of_mem (h.mem_done n hn)
    have hsplit : all = front ++ n :: (back ++ name :: rest) := by
      rw [hall, List.append_assoc, List.cons_append]
    refine hapart.later front n _ hsplit (h.gathers.missing n hn) name (by simp) ?_ ?_
    · exact fun hmem => hname (List.mem_append_left _ hmem)
    · rintro rfl
      exact hname (by simp)
  simp only [«exists», entry?, hfind]

include hapart h in
theorem skip (hall : all = done ++ name :: rest)
    (hexists : t.exists (sourcePath project.middlewareDir name) = true) :
    Reaches project b t r (done ++ [name]) made := by
  refine ⟨h.gathers, fun n hn => List.mem_append_left _ (h.mem_done n hn), ?_⟩
  refine List.forall_mem_append.2 ⟨h.exists_or, List.forall_mem_singleton.2 ?_⟩
  by_cases hname : name ∈ done
  · exact h.exists_or name hname
  · exact .inl ((h.exists_eq hapart hall hname).symm.trans hexists)

include hb hr hnames hapart h in
theorem notMem_of_missing (hall : all = done ++ name :: rest)
    (hmissing : t.exists (sourcePath project.middlewareDir name) = false) : name ∉ done := by
  intro hname
  have hexists := h.exists_of_mem_done hb hr hnames hapart
    (fun n hn => hall ▸ List.mem_append_left _ hn) name hname
  rw [hmissing] at hexists
  cases hexists

include hb hr hnames hapart h in
theorem write (hall : all = done ++ name :: rest)
    (hmissing : t.exists (sourcePath project.middlewareDir name) = false)
    (hwrite : t.write (sourcePath project.middlewareDir name) (middlewareText name) = (t', none)) :
    Reaches project b t' r (done ++ [name]) (made ++ [name]) := by
  have hname := h.notMem_of_missing hb hr hnames hapart hall hmissing
  have hbefore := (h.exists_eq hapart hall hname).symm.trans hmissing
  refine ⟨h.gathers.write (isJoined_middlewareDir project) hr hnames hapart ?_ ?_ hbefore ?_ hwrite,
    ?_, ?_⟩
  · exact fun n hn => hall ▸ List.mem_append_left _ (h.mem_done n hn)
  · exact hall ▸ List.mem_append_right _ List.mem_cons_self
  · exact fun hmade => hname (h.mem_done name hmade)
  · refine List.forall_mem_append.2 ⟨fun n hn => List.mem_append_left _ (h.mem_done n hn), ?_⟩
    exact fun n hn => List.mem_append_right _ hn
  · refine List.forall_mem_append.2 ⟨fun n hn => ?_, fun n hn => ?_⟩
    · exact (h.exists_or n hn).imp_right (List.mem_append_left _)
    · exact .inr (List.mem_append_right _ hn)

end

/-- The rest of the loop: it writes the names that come up first and had no file. -/
theorem run (hb : b.WellFormed) (hr : b.find true project.middlewareDir = .ok (r, .dir))
    (hnames : ∀ n ∈ all, Path.IsName (n ++ ".go"))
    (hapart : Apart b project.middlewareDir r all) (hrun : Creates project t names new t')
    (h : Reaches project b t r done made) (hall : all = done ++ names.map capitalize) :
    Reaches project b t' r all (made ++ new) ∧ new = (firsts done (names.map capitalize)).filter
      fun n => !b.exists (sourcePath project.middlewareDir n) := by
  induction hrun generalizing done made with
  | nil t =>
    rw [List.map_nil, List.append_nil] at hall
    rw [hall, List.append_nil]
    exact ⟨h, rfl⟩
  | @old t t' name names new _ hexists _ ih =>
    rw [List.map_cons] at hall
    obtain ⟨hdone, hnew⟩ := ih (h.skip hapart hall hexists) (by rw [hall, List.append_assoc]; rfl)
    refine ⟨hdone, hnew.trans ?_⟩
    rw [List.map_cons]
    by_cases hname : capitalize name ∈ done
    · rw [firsts_cons_of_mem hname]
    · rw [firsts_cons_of_notMem hname, List.filter_cons_of_neg]
      rw [← h.exists_eq hapart hall hname, hexists]
      decide
  | @new t t₁ t' name names new _ hmissing hwrite _ ih =>
    rw [List.map_cons] at hall
    have hname := h.notMem_of_missing hb hr hnames hapart hall hmissing
    obtain ⟨hdone, hnew⟩ := ih (h.write hb hr hnames hapart hall hmissing hwrite)
      (by rw [hall, List.append_assoc]; rfl)
    refine ⟨by rwa [List.append_assoc] at hdone, ?_⟩
    rw [List.map_cons, firsts_cons_of_notMem hname, List.filter_cons_of_pos, ← hnew]
    rw [← h.exists_eq hapart hall hname, hmissing]
    rfl

end Reaches

/-! ## Where the loop begins -/

/-- The directories that lead to the middlewares. -/
def wayToMiddlewares : List (Place × Entry) :=
  [(["internal"], .dir), (["internal", "common"], .dir),
    (["internal", "common", "transport"], .dir), (["internal", "common", "transport", "http"], .dir),
    (["internal", "common", "transport", "http", "middleware"], .dir)]

/-- A project with one middleware. -/
def oneMiddleware : Tree :=
  ⟨wayToMiddlewares ++ [(["internal", "common", "transport", "http", "middleware", "Log.go"],
    .file (some "package middleware") usualMode)]⟩

theorem write_oneMiddleware :
    oneMiddleware.write "/internal/common/transport/http/middleware/Auth.go" ""
      = (oneMiddleware.put ["internal", "common", "transport", "http", "middleware", "Auth.go"]
          (.file (some "") usualMode), none) := by decide +kernel

end Scaffold
end RouteScribe
