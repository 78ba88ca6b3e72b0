import RouteScribe.Proofs.Files.Writing
import RouteScribe.Proofs.Routing.Location
import RouteScribe.Proofs.Scaffold.Name
import RouteScribe.Proofs.Scaffold.Source
import RouteScribe.Proofs.Work
import RouteScribe.Scaffold.Generate

/-!
# RouteScribe.Proofs.Scaffold.Creation

What scaffolding does to the file system. All checks come before the first write, and each write is
one to the file of the controller; but a new controller is written before its actions are, and those
need a file that the parser takes.

* `newController_cases`, `addActions_cases`, `writeActions_cases`: all that can happen.
* `newController_refused`: what a creation that fails leaves behind.
-/

namespace RouteScribe
namespace Scaffold

open Files

variable {α : Type} {project : Project} {command route path typeName text : String}
  {args : List String} {actions : List Action} {l : Location} {s s' : Session} {t : Tree}

theorem perform_checked (r : Except ArgumentFault α) (s : Session) :
    (checked r).perform s = match r with
      | .ok a => (.ok a, s)
      | .error f => (.error (.argument f), s) := by
  cases r with
  | ok a => rfl
  | error f => rfl

theorem perform_requireCommand (project : Project) (command : String) (s : Session) :
    (requireCommand project command).perform s =
      if s.tree.isDir (project.commandDir command) then (.ok (), s)
      else (.error (.argument (.unknownCommand command)), s) := by
  rw [requireCommand, Work.perform_bind, Work.perform_tree]
  dsimp only
  split
  · rfl
  · rfl

/-- The checks that all scaffolding of controllers begins with. -/
theorem of_checks {β : Type} {rest : Location → List Action → Work β} {r : Except Failure β}
    (h : (do
        requireCommand project command
        let l ← checked (locate project command route)
        let actions ← checked (readActions args)
        rest l actions : Work β).perform s = (r, s')) :
    (s' = s ∧ ∃ f, r = .error f) ∨
      ∃ l actions, s.tree.isDir (project.commandDir command) = true ∧
        locate project command route = .ok l ∧ readActions args = .ok actions ∧
        (rest l actions).perform s = (r, s') := by
  rw [Work.perform_bind, perform_requireCommand] at h
  by_cases hdir : s.tree.isDir (project.commandDir command) = true
  · rw [if_pos hdir] at h
    dsimp only at h
    rw [Work.perform_bind, perform_checked] at h
    cases hl : locate project command route with
    | error f =>
      rw [hl] at h
      cases h
      exact .inl ⟨rfl, _, rfl⟩
    | ok l =>
      rw [hl] at h
      dsimp only at h
      rw [Work.perform_bind, perform_checked] at h
      cases hactions : readActions args with
      | error f =>
        rw [hactions] at h
        cases h
        exact .inl ⟨rfl, _, rfl⟩
      | ok actions =>
        rw [hactions] at h
        exact .inr ⟨l, actions, hdir, rfl, rfl, h⟩
  · rw [if_neg hdir] at h
    cases h
    exact .inl ⟨rfl, _, rfl⟩

/-- What is left of a creation when the checks are done. -/
def create (l : Location) (actions : List Action) (text : String) : Work Location := do
  Work.write l.path text
  Work.report (.controllerCreated l.typeName l.path)
  if !actions.isEmpty then
    let _ ← writeActions l.path l.typeName actions
  pure l

theorem newController_cases {r : Except Failure Location}
    (h : (newController project command route args).perform s = (r, s')) :
    (s' = s ∧ ∃ f, r = .error f) ∨
      ∃ l actions, s.tree.isDir (project.commandDir command) = true ∧
        locate project command route = .ok l ∧ readActions args = .ok actions ∧
        s.tree.exists l.path = false ∧
        (create l actions (controllerText l.typeName)).perform s = (r, s') := by
  unfold newController at h
  rcases of_checks h with hrefused | ⟨l, actions, hdir, hl, hactions, h⟩
  · exact .inl hrefused
  · rw [Work.perform_bind, Work.perform_tree] at h
    dsimp only at h
    by_cases hexists : s.tree.exists l.path = true
    · rw [if_pos hexists] at h
      cases h
      exact .inl ⟨rfl, _, rfl⟩
    · rw [if_neg hexists, controllerSource_eq, Work.renderTo_ok] at h
      exact .inr ⟨l, actions, hdir, hl, hactions, by simpa using hexists, h⟩

/-- Adding actions is refused before anything is done, or all checks hold. -/
theorem addActions_cases {r : Except Failure (List String)}
    (h : (addActions project command route args).perform s = (r, s')) :
    (s' = s ∧ ∃ f, r = .error f) ∨
      ∃ l actions, s.tree.isDir (project.commandDir command) = true ∧
        locate project command route = .ok l ∧ readActions args = .ok actions ∧
        s.tree.isFile l.path = true ∧
        (writeActions l.path l.typeName actions).perform s = (r, s') := by
  unfold addActions at h
  by_cases hargs : args.isEmpty = true
  · rw [if_pos hargs] at h
    cases h
    exact .inl ⟨rfl, _, rfl⟩
  · rw [if_neg hargs] at h
    rcases of_checks h with hrefused | ⟨l, actions, hdir, hl, hactions, h⟩
    · exact .inl hrefused
    · rw [Work.perform_bind, Work.perform_tree] at h
      dsimp only at h
      by_cases hfile : s.tree.isFile l.path = true
      · rw [hfile] at h
        exact .inr ⟨l, actions, hdir, hl, hactions, hfile, h⟩
      · rw [Bool.not_eq_true] at hfile
        rw [hfile] at h
        cases h
        exact .inl ⟨rfl, _, rfl⟩

theorem readActions_nil : readActions [] = .ok [] := rfl

theorem perform_newController (hdir : s.tree.isDir (project.commandDir command) = true)
    (hl : locate project command route = .ok l) (hactions : readActions args = .ok actions)
    (hnone : s.tree.exists l.path = false) : (newController project command route args).perform s
      = (create l actions (controllerText l.typeName)).perform s := by
  rw [newController, Work.perform_bind, perform_requireCommand, if_pos hdir]
  dsimp only
  rw [Work.perform_bind, perform_checked, hl]
  dsimp only
  rw [Work.perform_bind, perform_checked, hactions]
  dsimp only
  rw [Work.perform_bind, Work.perform_tree]
  dsimp only
  rw [hnone, controllerSource_eq, if_neg (by decide), Work.renderTo_ok]
  rfl

theorem perform_newController_nil
    (hdir : s.tree.isDir (project.commandDir command) = true)
    (hl : locate project command route = .ok l) (hnone : s.tree.exists l.path = false)
    (hwrite : s.tree.write l.path (controllerText l.typeName) = (t, none)) :
    (newController project command route []).perform s
      = (.ok l, ⟨t, s.log ++ [.controllerCreated l.typeName l.path]⟩) := by
  rw [perform_newController hdir hl readActions_nil hnone, create, Work.perform_bind,
    Work.perform_write, hwrite]
  rfl

theorem create_cases {r : Except Failure Location}
    (h : (create l actions text).perform s = (r, s')) :
    (∃ p e, s.tree.write l.path text = (s'.tree, some (p, e)) ∧ r = .error (.io p e)) ∨
      ∃ t, s.tree.write l.path text = (t, none) ∧
        ((actions = [] ∧ r = .ok l ∧ s'.tree = t) ∨ actions ≠ [] ∧ ∃ r' log,
          (writeActions l.path l.typeName actions).perform ⟨t, log⟩ = (r', s') ∧
            r = r'.map fun _ => l) := by
  rw [create, Work.perform_bind, Work.perform_write] at h
  rcases hwrite : s.tree.write l.path text with ⟨t, _ | ⟨p, e⟩⟩
  · rw [hwrite] at h
    dsimp only at h
    rw [Work.perform_bind, Work.perform_report] at h
    dsimp only at h
    refine .inr ⟨t, rfl, ?_⟩
    cases actions with
    | nil =>
      cases h
      exact .inl ⟨rfl, rfl, rfl⟩
    | cons a as =>
      have hsome : (!(a :: as).isEmpty) = true := rfl
      rw [if_pos hsome, Work.perform_bind] at h
      refine .inr ⟨List.cons_ne_nil a as, ?_⟩
      rcases hactions : (writeActions l.path l.typeName (a :: as)).perform
        ⟨t, s.log ++ [.controllerCreated l.typeName l.path]⟩ with ⟨r', s₁⟩
      rw [hactions] at h
      cases r' with
      | ok names =>
        cases h
        exact ⟨_, _, hactions, rfl⟩
      | error f =>
        cases h
        exact ⟨_, _, hactions, rfl⟩
  · rw [hwrite] at h
    cases h
    exact .inl ⟨p, e, rfl, rfl⟩

theorem writeActions_cases {r : Except Failure (List String)}
    (h : (writeActions path typeName actions).perform s = (r, s')) :
    (∃ e, s.tree.readText path = .error e ∧ r = .error (.io path e) ∧ s'.tree = s.tree) ∨
      ∃ text, s.tree.readText path = .ok text ∧
        ((∃ e, Go.SourceFile.parse text = .error e ∧ r = .error (.parse path e) ∧
            s'.tree = s.tree) ∨
          ∃ source, Go.SourceFile.parse text = .ok source ∧
            ((∃ names, r = .ok names ∧ s'.tree = s.tree) ∨
              ∃ more, (∃ p e, s.tree.write path more = (s'.tree, some (p, e)) ∧
                  r = .error (.io p e)) ∨
                s.tree.write path more = (s'.tree, none) ∧ ∃ names, r = .ok names)) := by
  rw [writeActions, Work.perform_bind, Work.perform_readText] at h
  cases hread : s.tree.readText path with
  | error e =>
    rw [hread] at h
    cases h
    exact .inl ⟨e, rfl, rfl, rfl⟩
  | ok text =>
    rw [hread] at h
    dsimp only at h
    refine .inr ⟨text, rfl, ?_⟩
    cases hparse : Go.SourceFile.parse text with
    | error e =>
      rw [hparse] at h
      cases h
      exact .inl ⟨e, rfl, rfl, rfl⟩
    | ok source =>
      rw [hparse] at h
      dsimp only at h
      refine .inr ⟨source, rfl, ?_⟩
      generalize (split source typeName [] actions).1 = new at h
      rw [Work.perform_bind, Work.perform_reportAll] at h
      dsimp only at h
      by_cases hnew : new.isEmpty = true
      · rw [if_pos hnew] at h
        cases h
        exact .inl ⟨_, rfl, rfl⟩
      · rw [if_neg hnew, Work.perform_bind, Work.perform_write] at h
        refine .inr ⟨new.foldl (fun text a => text ++ stub typeName a) text, ?_⟩
        dsimp only at h
        rcases hwrite : s.tree.write path (new.foldl (fun text a => text ++ stub typeName a) text)
          with ⟨t, _ | ⟨p, e⟩⟩
        · rw [hwrite] at h
          cases h
          exact .inr ⟨rfl, _, rfl⟩
        · rw [hwrite] at h
          cases h
          exact .inl ⟨p, e, rfl, rfl⟩

/-- Where no links are, a controller that was written can be read, and can be written once more. -/
theorem of_write_controller {t' : Tree} (hlinks : Routing.Analysis.LinkFree t "/")
    (hl : locate project command route = .ok l) (hwrite : t.write l.path text = (t', none)) :
    t'.readText l.path = .ok text ∧ ∀ other, (t'.write l.path other).2 = none := by
  obtain ⟨dirs, name, located⟩ := exists_located hl
  have hfile := located.isName_file_of_write hwrite
  rw [located.path] at hwrite ⊢
  exact Tree.of_write_join_of_linkless isName_controller hfile
    (Tree.append_go_notMem_temporaryNames name)
    (fun _ => Routing.Analysis.linkless_of_linkFree hlinks) hwrite

/-- A creation that fails changes no file, unless it has just written the file of the controller and
the parser refuses that. -/
theorem newController_refused (hlinks : Routing.Analysis.LinkFree s.tree "/") {f : Failure}
    (h : (newController project command route args).perform s = (.error f, s')) :
    Tree.MoreDirs s.tree s'.tree ∨ ∃ l e, locate project command route = .ok l ∧ args ≠ [] ∧
      Go.SourceFile.parse (controllerText l.typeName) = .error e ∧ f = .parse l.path e ∧
      s.tree.write l.path (controllerText l.typeName) = (s'.tree, none) := by
  rcases newController_cases h with ⟨rfl, -⟩ | ⟨l, actions, -, hl, hactions, -, h⟩
  · exact .inl (.refl _)
  rcases create_cases h with ⟨p, e, hwrite, -⟩ | ⟨t, hwrite, ⟨-, h, -⟩ | ⟨hne, r, log, h, hr⟩⟩
  · exact .inl (Tree.moreDirs_of_write_refused hwrite)
  · cases h
  -- The actions are all that is left to fail.
  obtain ⟨hread, hagain⟩ := of_write_controller hlinks hl hwrite
  obtain ⟨f', rfl⟩ : ∃ f', r = .error f' := by
    cases r with
    | ok names => cases hr
    | error f' => exact ⟨f', rfl⟩
  obtain rfl : f = f' := Except.error.inj hr
  rcases writeActions_cases h with ⟨e, hrefused, -⟩ | ⟨text, htext, hparse⟩
  · rw [hread] at hrefused
    cases hrefused
  obtain rfl := Except.ok.inj (hread.symm.trans htext)
  rcases hparse with ⟨e, hparse, hf, hsame⟩ |
    ⟨-, -, ⟨names, hok, -⟩ | ⟨more, ⟨p, e, hrefused, -⟩ | ⟨-, names, hok⟩⟩⟩
  · refine .inr ⟨l, e, hl, ?_, hparse, Except.error.inj hf, by rw [hwrite, hsame]⟩
    rintro rfl
    exact hne (Except.ok.inj (hactions.symm.trans readActions_nil))
  · cases hok
  · have hnone := hagain more
    rw [hrefused] at hnone
    cases hnone
  · cases hok

/-- A project with a command and nothing else. -/
def oneCommand : Tree := ⟨[(["cmd"], .dir), (["cmd", "c"], .dir)]⟩

/-- Where the controller with the route `user.v2` is. -/
def dotted : Location :=
  ⟨"/internal/c/transport/http/api/controller/user.v2.go", "User.v2Controller"⟩

theorem locate_dotted : locate (.usual "/" "m") "c" "user.v2" = .ok dotted := by decide +kernel

theorem parse_dotted :
    (Go.SourceFile.parse (controllerText dotted.typeName)).toOption = none := by decide +kernel

theorem refused_dotted : ∃ f s',
    (newController (.usual "/" "m") "c" "user.v2" ["list"]).perform ⟨oneCommand, []⟩
      = (.error f, s') ∧
    s'.tree.isFile dotted.path = true ∧
    (Tree.MoreDirs oneCommand s'.tree ∨ ∃ l e, locate (.usual "/" "m") "c" "user.v2" = .ok l ∧
      ["list"] ≠ [] ∧ Go.SourceFile.parse (controllerText l.typeName) = .error e ∧
      f = .parse l.path e ∧
      oneCommand.write l.path (controllerText l.typeName) = (s'.tree, none)) := by
  have hlinks : Routing.Analysis.LinkFree oneCommand "/" :=
    Routing.Analysis.linkFree_of_entries (by simp [oneCommand]) "/"
  have hactions : readActions ["list"] = .ok [⟨"List", .post⟩] := by decide +kernel
  have hrun := perform_newController (s := ⟨oneCommand, []⟩) (by decide +kernel) locate_dotted
    hactions (by decide +kernel)
  have hfree : (oneCommand.write dotted.path "").2 = none := by decide +kernel
  obtain ⟨t₁, q, -, -, hwrites⟩ := Tree.write_other hfree
  have hwritten := hwrites (controllerText dotted.typeName)
  obtain ⟨hread, -⟩ := of_write_controller hlinks locate_dotted hwritten
  have hisFile := Tree.isFile_of_readText hread
  generalize hres : (create dotted [⟨"List", .post⟩] (controllerText dotted.typeName)).perform
    ⟨oneCommand, []⟩ = res at hrun
  obtain ⟨r, s'⟩ := res
  rcases create_cases hres with ⟨p, e, hrefused, -⟩ | ⟨t, hwrite, ⟨hnil, -, -⟩ | ⟨-, r', log, h, hr⟩⟩
  · cases (congrArg Prod.snd hwritten).symm.trans (congrArg Prod.snd hrefused)
  · cases hnil
  rw [hwritten] at hwrite
  cases hwrite
  rcases writeActions_cases h with ⟨e, hrefused, -⟩ | ⟨text, htext, hparse⟩
  · rw [hread] at hrefused
    cases hrefused
  obtain rfl := Except.ok.inj (hread.symm.trans htext)
  rcases hparse with ⟨e, -, rfl, hsame⟩ | ⟨source, hparse, -⟩
  · rw [hr] at hrun
    have hall := newController_refused (s := ⟨oneCommand, []⟩) hlinks hrun
    refine ⟨_, s', hrun, ?_, hall⟩
    rw [hsame]
    exact hisFile
  · have hnone := parse_dotted
    rw [hparse] at hnone
    cases hnone

end Scaffold
end RouteScribe
