import RouteScribe.Proofs.Scaffold.Middleware

/-!
# RouteScribe.Proofs.Scaffold.Refused

New middlewares for names of which one is no identifier. The loop stops at the first such name, and
has done by then what a run for the names before it does.

* `Creates.fills`: a middleware that is written fills a place that was empty.
* `refused_newMiddlewares_iff`: the runs that stop at a name, and when these leave nothing behind.
-/

namespace RouteScribe
namespace Scaffold

open Files Files.Tree

variable {project : Project} {names new written before : List String} {t t' : Tree}
  {s s' : Session} {f : ArgumentFault}

/-- A loop that writes a middleware changes the file system. -/
theorem Creates.fills (h : Creates project t names new t') : t' = t ∧ new = [] ∨ Fills t t' := by
  induction h with
  | nil t => exact .inl ⟨rfl, rfl⟩
  | old _ _ _ ih => exact ih
  | new hname hmissing hwrite _ ih =>
    have hslash := Path.getLast?_join_name project.middlewareDir (isName_capitalize_append_go hname)
    have hfills := fills_of_write hslash hmissing hwrite
    rcases ih with ⟨rfl, -⟩ | hrest
    · exact .inr hfills
    · exact .inr (hfills.trans hrest)

theorem Creates.exists_of_same (h : Creates project t names new t')
    (hsame : ∀ p, t'.get? p = t.get? p) :
    ∀ n ∈ names, t.exists (sourcePath project.middlewareDir (capitalize n)) = true := by
  induction h with
  | nil => exact nofun
  | old _ hexists _ ih => exact List.forall_mem_cons.2 ⟨hexists, ih hsame⟩
  | new hname hmissing hwrite hrest =>
    rcases (Creates.new hname hmissing hwrite hrest).fills with ⟨-, hnil⟩ | hfills
    · cases hnil
    · obtain ⟨p, hp⟩ := hfills.get?_ne
      exact absurd (hsame p) hp

theorem perform_of_exists (hident : ∀ n ∈ names, isIdentifier n = true)
    (hexists : ∀ n ∈ names, s.tree.exists (sourcePath project.middlewareDir (capitalize n)) = true)
    (h : (newMiddlewares project names).perform s = (.ok written, s')) : s'.tree = s.tree := by
  obtain ⟨log, hrun⟩ :=
    (Creates.of_exists fun n hn => ⟨hident n hn, hexists n hn⟩).perform s.log
  cases hrun.symm.trans h
  rfl

/-- A run that stops at an argument stops at the first name that is no identifier. -/
theorem of_refused (h : (newMiddlewares project names).perform s = (.error (.argument f), s')) :
    ∃ before name after written, names = before ++ name :: after ∧ isIdentifier name = false ∧
      f = .middlewareName name ∧ (newMiddlewares project before).perform s = (.ok written, s') := by
  induction names generalizing s with
  | nil => cases h
  | cons name names ih =>
    rw [perform_newMiddlewares_cons] at h
    dsimp only at h
    split at h
    next hname =>
      split at h
      next hexists =>
        obtain ⟨before, bad, after, written, rfl, hbad, hf, hrun⟩ := ih h
        refine ⟨name :: before, bad, after, written, rfl, hbad, hf, ?_⟩
        rw [perform_newMiddlewares_cons]
        dsimp only
        rwa [if_pos hname, if_pos hexists]
      next hmissing =>
        split at h
        · cases h
        next t hwrite =>
          rcases hperform : (newMiddlewares project names).perform ⟨t, s.log ++
            [.fileCreated (sourcePath project.middlewareDir (capitalize name))]⟩ with ⟨e | _, s₁⟩
          · rw [hperform] at h
            cases h
            obtain ⟨before, bad, after, written, rfl, hbad, hf, hrun⟩ := ih hperform
            refine ⟨name :: before, bad, after,
              sourcePath project.middlewareDir (capitalize name) :: written, rfl, hbad, hf, ?_⟩
            rw [perform_newMiddlewares_cons]
            dsimp only
            rw [if_pos hname, if_neg hmissing, hwrite]
            dsimp only
            rw [hrun]
            rfl
          · rw [hperform] at h
            cases h
    next hname =>
      cases h
      exact ⟨[], name, names, [], rfl, Bool.eq_false_iff.2 hname, rfl, rfl⟩

/-- A run goes on from where it has come with the names before. -/
theorem refused_of_perform {name : String} (hname : isIdentifier name = false)
    (after : List String) (h : (newMiddlewares project before).perform s = (.ok written, s')) :
    (newMiddlewares project (before ++ name :: after)).perform s
      = (.error (.argument (.middlewareName name)), s') := by
  induction before generalizing s written with
  | nil =>
    cases h
    rw [List.nil_append, perform_newMiddlewares_cons, if_neg (Bool.eq_false_iff.1 hname)]
  | cons n before ih =>
    rw [List.cons_append, perform_newMiddlewares_cons]
    rw [perform_newMiddlewares_cons] at h
    dsimp only at h ⊢
    split at h
    next hn =>
      rw [if_pos hn]
      split at h
      next hexists =>
        rw [if_pos hexists]
        exact ih h
      next hmissing =>
        rw [if_neg hmissing]
        split at h
        · cases h
        next t _ =>
          rcases hperform : (newMiddlewares project before).perform ⟨t, s.log ++
            [.fileCreated (sourcePath project.middlewareDir (capitalize n))]⟩ with ⟨_ | rest, s₁⟩
          · rw [hperform] at h
            cases h
          · rw [hperform] at h
            cases h
            rw [ih hperform]
            rfl
    · cases h

/-- A run stops at the first name that is no identifier, and has then done what a run for the names
before it does. So it leaves no trace just if there were files for all of these. -/
theorem refused_newMiddlewares_iff (project : Project) (names : List String) (s s' : Session)
    (f : ArgumentFault) :
    (newMiddlewares project names).perform s = (.error (.argument f), s') ↔
    ∃ before name after written, names = before ++ name :: after ∧
      (∀ n ∈ before, isIdentifier n = true) ∧ isIdentifier name = false ∧
      f = .middlewareName name ∧
      (newMiddlewares project before).perform s = (.ok written, s') ∧
      ((∀ p, s'.tree.get? p = s.tree.get? p) ↔ ∀ n ∈ before,
        s.tree.exists (sourcePath project.middlewareDir (capitalize n)) = true) := by
  constructor
  · intro h
    obtain ⟨before, name, after, written, hnames, hname, hf, hrun⟩ := of_refused h
    obtain ⟨new, -, hcreates⟩ := creates_of_perform hrun
    have hident := hcreates.isIdentifier
    refine ⟨before, name, after, written, hnames, hident, hname, hf, hrun,
      hcreates.exists_of_same, fun hexists p => ?_⟩
    rw [perform_of_exists hident hexists hrun]
  · rintro ⟨before, name, after, written, rfl, -, hname, rfl, hrun, -⟩
    exact refused_of_perform hname after hrun

/-- The middleware before a name that is refused stays behind. -/
theorem refused_behind_auth : ∃ s', (newMiddlewares (.usual "/" "m") ["auth", "1x"]).perform
    ⟨oneMiddleware, []⟩ = (.error (.argument (.middlewareName "1x")), s') ∧
    ¬ ∀ p, s'.tree.get? p = oneMiddleware.get? p := by
  have hcreates : Creates (.usual "/" "m") oneMiddleware ["auth"] ["Auth"] _ :=
    .new (by decide +kernel) (by decide +kernel) (write_put_other write_oneMiddleware _) (.nil _)
  obtain ⟨log, hrun⟩ := hcreates.perform []
  have hbad : isIdentifier "1x" = false := by decide +kernel
  have hrefused := refused_of_perform hbad [] hrun
  refine ⟨_, hrefused, fun hsame => ?_⟩
  obtain ⟨before, name, after, -, hnames, -, hname, -, -, htrace⟩ :=
    (refused_newMiddlewares_iff _ _ _ _ _).1 hrefused
  rcases before with _ | ⟨n, before⟩
  · obtain ⟨rfl, -⟩ := List.cons.inj hnames
    exact absurd hname (by decide +kernel)
  · obtain ⟨rfl, -⟩ := List.cons.inj hnames
    exact absurd (htrace.1 hsame _ List.mem_cons_self) (by decide +kernel)

end Scaffold
end RouteScribe
