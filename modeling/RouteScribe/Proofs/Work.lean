import RouteScribe.Work

/-!
# RouteScribe.Proofs.Work

How work runs. Reading and reporting leave the file system as it is; a task that succeeds is made
of tasks that succeed.

* `perform_bind`: one task after another.
* `of_perform_bind_ok`: a task that succeeds, taken apart.
* `perform_readText`, `perform_parseFile`, `perform_write`, `renderTo_ok`: the single steps.
-/

namespace RouteScribe
namespace Work

variable {α β : Type}

@[simp] theorem perform_pure (a : α) (s : Session) : perform (pure a) s = (.ok a, s) := rfl

@[simp] theorem perform_throw (f : Failure) (s : Session) :
    perform (throw f : Work α) s = (.error f, s) := rfl

theorem perform_bind (w : Work α) (f : α → Work β) (s : Session) :
    perform (w >>= f) s = match perform w s with
      | (.ok a, s') => perform (f a) s'
      | (.error e, s') => (.error e, s') := by
  show StateT.run (ExceptT.run (w >>= f)) s = _
  simp only [ExceptT.run_bind, StateT.run_bind, perform]
  rcases hw : StateT.run (ExceptT.run w) s with ⟨r, s'⟩
  cases r with
  | ok a => rfl
  | error e => rfl

@[simp] theorem perform_report (n : Notice) (s : Session) :
    perform (report n) s = (.ok (), { s with log := s.log ++ [n] }) := rfl

@[simp] theorem perform_reportAll (ns : List Notice) (s : Session) :
    perform (reportAll ns) s = (.ok (), { s with log := s.log ++ ns }) := rfl

@[simp] theorem perform_tree (s : Session) : perform tree s = (.ok s.tree, s) := rfl

theorem perform_readText (path : String) (s : Session) :
    perform (readText path) s = match s.tree.readText path with
      | .ok text => (.ok text, s)
      | .error r => (.error (.io path r), s) := by
  unfold readText
  rw [perform_bind, perform_tree]
  dsimp only
  cases s.tree.readText path with
  | ok text => rfl
  | error r => rfl

theorem perform_parseFile (path : String) (s : Session) :
    perform (parseFile path) s = match s.tree.readText path with
      | .ok text => match Go.SourceFile.parse text with
        | .ok f => (.ok f, s)
        | .error e => (.error (.parse path e), s)
      | .error r => (.error (.io path r), s) := by
  unfold parseFile
  rw [perform_bind, perform_readText]
  cases s.tree.readText path with
  | error r => rfl
  | ok text =>
    dsimp only
    cases Go.SourceFile.parse text with
    | ok f => rfl
    | error e => rfl

theorem perform_write (path text : String) (s : Session) :
    perform (write path text) s = match s.tree.write path text with
      | (t, none) => (.ok (), { s with tree := t })
      | (t, some (p, r)) => (.error (.io p r), { s with tree := t }) := by
  unfold write
  rw [perform_bind, perform_tree]
  dsimp only
  rcases s.tree.write path text with ⟨t, refused⟩
  cases refused with
  | none => rfl
  | some pr => rfl

theorem renderTo_ok (path text : String) : renderTo path (.ok text) = write path text := rfl

theorem perform_renderTo_error (path : String) (f : Template.Fault) (s : Session) :
    perform (renderTo path (.error f)) s = (.error (.template f), s) := rfl

theorem perform_bind_of_ok {w : Work α} {f : α → Work β} {s s₁ : Session} {a : α}
    (h : perform w s = (.ok a, s₁)) : perform (w >>= f) s = perform (f a) s₁ := by
  rw [perform_bind, h]

theorem perform_bind_of_error {w : Work α} {f : α → Work β} {s s₁ : Session} {e : Failure}
    (h : perform w s = (.error e, s₁)) : perform (w >>= f) s = (.error e, s₁) := by
  rw [perform_bind, h]

theorem of_perform_bind_ok {w : Work α} {f : α → Work β} {s s' : Session} {b : β}
    (h : perform (w >>= f) s = (.ok b, s')) :
    ∃ a s₁, perform w s = (.ok a, s₁) ∧ perform (f a) s₁ = (.ok b, s') := by
  rw [perform_bind] at h
  split at h
  next a s₁ ha => exact ⟨a, s₁, ha, h⟩
  · cases h

theorem of_perform_parseFile_ok {path : String} {s s' : Session} {f : Go.SourceFile}
    (h : perform (parseFile path) s = (.ok f, s')) :
    s' = s ∧ ∃ text, s.tree.readText path = .ok text ∧ Go.SourceFile.parse text = .ok f := by
  rw [perform_parseFile] at h
  split at h
  next text htext =>
    split at h
    next f' hf =>
      cases h
      exact ⟨rfl, text, htext, hf⟩
    · cases h
  · cases h

end Work
end RouteScribe
