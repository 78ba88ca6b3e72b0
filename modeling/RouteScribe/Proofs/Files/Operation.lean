import RouteScribe.Files.Operation

/-!
# RouteScribe.Proofs.Files.Operation

What operations leave as it was. Directories and temporary files are only made where nothing is.

* `MoreDirs`: directories were made, and nothing else changed.
* `moreDirs_makeDirs`: this is all that making directories does, be it refused or not.
* `of_makeTemporary_ok`, `unlink_put`: a temporary file is new, and nothing is left when it is taken
  away.
-/

namespace RouteScribe
namespace Files
namespace Tree

variable {t t' t'' : Tree} {p : Place}

/-- Directories were made where nothing was, and nothing else changed. -/
def MoreDirs (t t' : Tree) : Prop :=
  ∀ p, t'.get? p = t.get? p ∨ t.get? p = none ∧ t'.get? p = some .dir

namespace MoreDirs

theorem refl (t : Tree) : MoreDirs t t := fun _ => .inl rfl

theorem trans (h : MoreDirs t t') (h' : MoreDirs t' t'') : MoreDirs t t'' := by
  intro p
  rcases h p with hsame | ⟨hnone, hdir⟩
  · rcases h' p with hsame' | ⟨hnone', hdir'⟩
    · exact .inl (hsame'.trans hsame)
    · exact .inr ⟨hsame ▸ hnone', hdir'⟩
  · rcases h' p with hsame' | ⟨hnone', -⟩
    · exact .inr ⟨hnone, hsame'.trans hdir⟩
    · rw [hdir] at hnone'
      cases hnone'

theorem get?_eq (h : MoreDirs t t') {e : Entry} (he : t.get? p = some e) :
    t'.get? p = some e := by
  rcases h p with hsame | ⟨hnone, -⟩
  · exact hsame.trans he
  · rw [he] at hnone
    cases hnone

theorem file_iff (h : MoreDirs t t') {text : Option String} {mode : Nat} :
    t'.get? p = some (.file text mode) ↔ t.get? p = some (.file text mode) := by
  refine ⟨fun hfile => ?_, h.get?_eq⟩
  rcases h p with hsame | ⟨-, hdir⟩
  · exact hsame ▸ hfile
  · rw [hdir] at hfile
    cases hfile

end MoreDirs

theorem get?_nil (t : Tree) : t.get? [] = some .dir := rfl

theorem ne_nil_of_get?_ne_dir (h : t.get? p ≠ some .dir) : p ≠ [] := fun hp => h (hp ▸ get?_nil t)

theorem moreDirs_put (h : t.get? p = none) : MoreDirs t (t.put p .dir) := by
  have hp : p ≠ [] := ne_nil_of_get?_ne_dir (by rw [h]; exact nofun)
  intro q
  by_cases hq : q = p
  · exact .inr ⟨hq ▸ h, hq ▸ get?_put t hp .dir⟩
  · exact .inl (get?_put_of_ne t hq .dir)

theorem of_makeDir_ok {path : String} (h : t.makeDir path = .ok t') :
    ∃ p, t.place false (dropSlashes path) = .ok p ∧ t.get? p = none ∧ t' = t.put p .dir := by
  unfold makeDir at h
  split at h
  · cases h
  next p hp =>
    split at h
    · cases h
    next hnone =>
      cases h
      exact ⟨p, hp, by simpa using hnone, rfl⟩

theorem moreDirs_makeEach (paths : List String) : ∀ t : Tree, MoreDirs t (t.makeEach paths).1 := by
  induction paths with
  | nil => exact MoreDirs.refl
  | cons path paths ih =>
    intro t
    unfold makeEach
    split
    next t' ht' =>
      obtain ⟨p, -, hnone, rfl⟩ := of_makeDir_ok ht'
      exact (moreDirs_put hnone).trans (ih _)
    · split
      · exact ih t
      · exact MoreDirs.refl t

theorem moreDirs_makeDirs (t : Tree) (path : String) : MoreDirs t (t.makeDirs path).1 := by
  unfold makeDirs
  split
  · exact MoreDirs.refl t
  · exact moreDirs_makeEach _ t

/-! ## Files -/

variable {text : Option String} {mode : Nat} {names : List String} {dir : String}

theorem put_put (t : Tree) (p : Place) (e e' : Entry) : (t.put p e).put p e' = t.put p e' := by
  simp [put]

theorem unlink_put (h : t.get? p = none) (e : Entry) : (t.put p e).unlink p = t := by
  have hp : p ≠ [] := ne_nil_of_get?_ne_dir (by rw [h]; exact nofun)
  have hnone : ∀ x ∈ t.entries, x.1 ≠ p := by
    simpa [get?, hp] using h
  have hfilter : t.entries.filter (·.1 ≠ p) = t.entries :=
    List.filter_eq_self.2 fun x hx => by simpa using hnone x hx
  rw [put, hfilter, unlink, List.filter_cons_of_neg (by simp), hfilter]

theorem setText_put (hp : p ≠ []) (new : String) :
    (t.put p (.file text mode)).setText p new = t.put p (.file (some new) mode) := by
  simp only [setText, get?_put t hp, put_put]

theorem setMode_put (hp : p ≠ []) (new : Nat) :
    (t.put p (.file text mode)).setMode p new = t.put p (.file text new) := by
  simp only [setMode, get?_put t hp, put_put]

theorem of_makeTemporary_ok {made : Temporary} (h : t.makeTemporary dir names = .ok (t', made)) :
    t.get? made.place = none ∧ t' = t.put made.place (.file (some "") privateMode) ∧
      ∃ n ∈ names, made.path = Path.join (Path.join "/" dir) n := by
  induction names with
  | nil => cases h
  | cons n names ih =>
    rw [makeTemporary] at h
    split at h
    · cases h
    · split at h
      · obtain ⟨hnone, ht', n', hmem, hpath⟩ := ih h
        exact ⟨hnone, ht', n', List.mem_cons_of_mem n hmem, hpath⟩
      next hnone =>
        cases h
        exact ⟨by simpa using hnone, rfl, n, List.mem_cons_self, rfl⟩

theorem complete_put (hp : p ≠ []) (new : String) :
    complete none (t.put p (.file text mode)) p new =
      (t.put p (.file (some new) usualMode), none) := by
  rw [complete, setText_put hp, setMode_put hp]

theorem complete_put_fault (hp : p ≠ []) (fault : Fault) (new : String) :
    ∃ e r, complete (some fault) (t.put p (.file text mode)) p new = (t.put p e, some r) := by
  cases fault with
  | text part r => exact ⟨.file (some part) mode, r, by rw [complete, setText_put hp]⟩
  | mode r => exact ⟨.file (some new) mode, r, by rw [complete, setText_put hp]⟩

end Tree
end Files
end RouteScribe
