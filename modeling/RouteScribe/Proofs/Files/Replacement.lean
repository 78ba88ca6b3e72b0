import RouteScribe.Proofs.Files.Resolve

/-!
# RouteScribe.Proofs.Files.Replacement

How a write ends. The temporary file is made where nothing is, so paths lead to the same with it and
without it; when it has been moved, or taken away again, there is no trace of it.

* `Accepts`: a file can be put where a path leads to.
* `rename_put_eq_ok_iff`: what moving a temporary file does.
* `writeBy_eq_none_iff`: when a write is done, and what it has done.
* `moreDirs_of_write_refused`: a write that is refused has changed no file.
-/

namespace RouteScribe
namespace Files
namespace Tree

variable {t t' : Tree} {p w : Place} {path dir text : String} {names : List String}
  {fault : Option Fault}

/-- A file can be put at the place `p` that the path leads to. -/
structure Accepts (t : Tree) (path : String) (p : Place) : Prop where
  endsInName : endsInName path = true
  place : t.place false (dropSlashes path) = .ok p
  ne_slash : path.toList.getLast? ≠ some '/'
  ne_dir : t.get? p ≠ some .dir

/-- A temporary file can be made in the directory. -/
def HasRoom (names : List String) (t : Tree) (dir : String) : Prop :=
  ∃ made, t.makeTemporary dir names = .ok made

section

variable {s : Option String} {mode : Nat}

theorem keeps_of_put_file (h : t.get? w = none) : Keeps (t.put w (.file s mode)) t := by
  have hw : w ≠ [] := ne_nil_of_get?_ne_dir (by rw [h]; exact nofun)
  intro q
  by_cases hq : q = w
  · subst hq
    rw [get?_put t hw, h]
    exact .inr ⟨trivial, nofun⟩
  · exact .inl (get?_put_of_ne t hq _).symm

theorem keeps_put_file_of_none (h : t.get? w = none) : Keeps t (t.put w (.file s mode)) :=
  keeps_put_file (ne_nil_of_get?_ne_dir (by rw [h]; exact nofun)) (by rw [h]; exact trivial) s mode

/-- A file that was put where nothing was makes no difference to where another can be put. -/
theorem accepts_put_iff (h : t.get? w = none) :
    Accepts (t.put w (.file s mode)) path p ↔ Accepts t path p := by
  have hw : w ≠ [] := ne_nil_of_get?_ne_dir (by rw [h]; exact nofun)
  have hdir : (t.put w (.file s mode)).get? p = some .dir ↔ t.get? p = some .dir := by
    by_cases hp : p = w
    · rw [hp, get?_put t hw, h]
      exact iff_of_false nofun nofun
    · rw [get?_put_of_ne t hp]
  constructor
  · rintro ⟨hname, hplace, hslash, hne⟩
    exact ⟨hname, place_mono (keeps_of_put_file h) hplace, hslash, fun hp => hne (hdir.2 hp)⟩
  · rintro ⟨hname, hplace, hslash, hne⟩
    exact ⟨hname, place_mono (keeps_put_file_of_none h) hplace, hslash, fun hp => hne (hdir.1 hp)⟩

theorem rename_eq_ok_iff : t.rename w path = .ok t' ↔
    ∃ e p, t.get? w = some e ∧ Accepts t path p ∧ t' = (t.unlink w).put p e := by
  unfold rename
  constructor
  · intro h
    split at h
    · cases h
    next e he =>
      split at h
      next hname =>
        split at h
        · cases h
        next p hplace =>
          split at h
          · cases h
          next hslash =>
            split at h
            · cases h
            next hdir =>
              cases h
              exact ⟨e, p, he, ⟨hname, hplace, hslash, hdir⟩, rfl⟩
      · split at h <;> cases h
  · rintro ⟨e, p, he, ⟨hname, hplace, hslash, hdir⟩, rfl⟩
    simp only [he, hname, hplace, hslash, hdir, if_true, if_false]

/-- A temporary file that is moved is put where the path leads to, and nothing is left of it where
it was. -/
theorem rename_put_eq_ok_iff (h : t.get? w = none) :
    (t.put w (.file s mode)).rename w path = .ok t' ↔
      ∃ p, Accepts t path p ∧ t' = t.put p (.file s mode) := by
  have hw : w ≠ [] := ne_nil_of_get?_ne_dir (by rw [h]; exact nofun)
  rw [rename_eq_ok_iff, get?_put t hw, unlink_put h]
  simp only [accepts_put_iff h, Option.some.injEq]
  constructor
  · rintro ⟨e, p, rfl, hp, rfl⟩
    exact ⟨p, hp, rfl⟩
  · rintro ⟨p, hp, rfl⟩
    exact ⟨_, p, rfl, hp, rfl⟩

end

/-- How a write goes on when the directories are there. -/
def replaceBy (names : List String) (fault : Option Fault) (t : Tree) (path text : String) :
    Tree × Option (String × Refusal) :=
  match t.makeTemporary (directoryOf path) names with
  | .error r => (t, some (directoryOf path, r))
  | .ok (made, temporary) =>
    match (complete fault made temporary.place text).2 with
    | some r => (t, some (temporary.path, r))
    | none =>
      match (t.put temporary.place (.file (some text) usualMode)).rename temporary.place path with
      | .ok t' => (t', none)
      | .error r => (t, some (path, r))

theorem writeBy_eq (names : List String) (fault : Option Fault) (t : Tree) (path text : String) :
    writeBy names fault t path text = match t.makeDirs (directoryOf path) with
      | (t₁, some r) => (t₁, some (directoryOf path, r))
      | (t₁, none) => replaceBy names fault t₁ path text := by
  unfold writeBy
  extract_lets dir
  rcases t.makeDirs dir with ⟨t₁, _ | r⟩
  · dsimp only
    rw [replaceBy]
    cases hmake : t₁.makeTemporary dir names with
    | error r => rfl
    | ok made =>
      obtain ⟨t₂, temporary⟩ := made
      obtain ⟨hnone, rfl, -⟩ := of_makeTemporary_ok hmake
      have hne : temporary.place ≠ [] := ne_nil_of_get?_ne_dir (by rw [hnone]; exact nofun)
      dsimp only
      cases fault with
      | some fault =>
        obtain ⟨e, r, hcomplete⟩ := complete_put_fault hne fault text
        rw [hcomplete]
        dsimp only
        rw [unlink_put hnone]
      | none =>
        rw [complete_put hne]
        dsimp only
        cases (t₁.put temporary.place (.file (some text) usualMode)).rename temporary.place path with
        | ok t' => rfl
        | error r =>
          dsimp only
          rw [unlink_put hnone]
  · rfl

/-- When a write is done, and what it has done: it made the directories first, and then put the
file. -/
theorem writeBy_eq_none_iff : writeBy names fault t path text = (t', none) ↔ fault = none ∧
    ∃ t₁ p, t.makeDirs (directoryOf path) = (t₁, none) ∧ HasRoom names t₁ (directoryOf path) ∧
      Accepts t₁ path p ∧ t' = t₁.put p (.file (some text) usualMode) := by
  rw [writeBy_eq]
  constructor
  · intro h
    split at h
    · cases h
    next t₁ hdirs =>
      unfold replaceBy at h
      split at h
      · cases h
      next made temporary hmake =>
        obtain ⟨hnone, rfl, -⟩ := of_makeTemporary_ok hmake
        have hne : temporary.place ≠ [] := ne_nil_of_get?_ne_dir (by rw [hnone]; exact nofun)
        cases fault with
        | some fault =>
          obtain ⟨e, r, hcomplete⟩ := complete_put_fault hne fault text
          rw [hcomplete] at h
          cases h
        | none =>
          rw [complete_put hne] at h
          dsimp only at h
          split at h
          next hrename =>
            cases h
            obtain ⟨p, hp, rfl⟩ := (rename_put_eq_ok_iff hnone).1 hrename
            exact ⟨rfl, t₁, p, hdirs, ⟨_, hmake⟩, hp, rfl⟩
          · cases h
  · rintro ⟨rfl, t₁, p, hdirs, ⟨⟨made, temporary⟩, hmake⟩, hp, rfl⟩
    obtain ⟨hnone, rfl, -⟩ := of_makeTemporary_ok hmake
    have hne : temporary.place ≠ [] := ne_nil_of_get?_ne_dir (by rw [hnone]; exact nofun)
    have hrename : (t₁.put temporary.place (.file (some text) usualMode)).rename temporary.place
        path = .ok (t₁.put p (.file (some text) usualMode)) :=
      (rename_put_eq_ok_iff hnone).2 ⟨p, hp, rfl⟩
    rw [hdirs]
    dsimp only
    rw [replaceBy, hmake]
    dsimp only
    rw [complete_put hne]
    dsimp only
    rw [hrename]

/-- A write that is refused has made directories at most. What is refused is the directory, a
temporary file in it or the path. -/
theorem of_writeBy_refused {refused : String × Refusal}
    (h : writeBy names fault t path text = (t', some refused)) :
    t' = (t.makeDirs (directoryOf path)).1 ∧ (refused.1 = directoryOf path ∨ refused.1 = path ∨
      ∃ n ∈ names, refused.1 = Path.join (Path.join "/" (directoryOf path)) n) := by
  rw [writeBy_eq] at h
  split at h
  next hdirs =>
    cases h
    exact ⟨by rw [hdirs], .inl rfl⟩
  next hdirs =>
    unfold replaceBy at h
    split at h
    · cases h
      exact ⟨by rw [hdirs], .inl rfl⟩
    next hmake =>
      obtain ⟨-, -, hname⟩ := of_makeTemporary_ok hmake
      split at h
      · cases h
        exact ⟨by rw [hdirs], .inr (.inr hname)⟩
      · split at h
        · cases h
        · cases h
          exact ⟨by rw [hdirs], .inr (.inl rfl)⟩

/-! ## The usual names -/

/-- A write that is not refused makes the directories first, and then puts the file. -/
theorem of_write_ok (h : t.write path text = (t', none)) :
    ∃ t₁ p, t.makeDirs (directoryOf path) = (t₁, none) ∧
      t₁.place false (dropSlashes path) = .ok p ∧ t₁.get? p ≠ some .dir ∧
      t' = t₁.put p (.file (some text) usualMode) := by
  obtain ⟨-, t₁, p, hdirs, -, hp, ht'⟩ := writeBy_eq_none_iff.1 h
  exact ⟨t₁, p, hdirs, hp.place, hp.ne_dir, ht'⟩

/-- Whether a write is refused does not depend on the text. -/
theorem write_other (h : (t.write path text).2 = none) :
    ∃ t₁ p, t.makeDirs (directoryOf path) = (t₁, none) ∧
      t₁.place false (dropSlashes path) = .ok p ∧
      ∀ other, t.write path other = (t₁.put p (.file (some other) usualMode), none) := by
  have hwrite : t.write path text = ((t.write path text).1, none) := Prod.ext rfl h
  obtain ⟨-, t₁, p, hdirs, hroom, hp, -⟩ := writeBy_eq_none_iff.1 hwrite
  exact ⟨t₁, p, hdirs, hp.place,
    fun other => writeBy_eq_none_iff.2 ⟨rfl, t₁, p, hdirs, hroom, hp, rfl⟩⟩

theorem write_put_other {t₀ : Tree}
    (h : t.write path text = (t₀.put p (.file (some text) usualMode), none)) (other : String) :
    t.write path other = (t₀.put p (.file (some other) usualMode), none) := by
  obtain ⟨t₁, q, -, -, hwrite⟩ := write_other (congrArg Prod.snd h)
  have hentries := congrArg Tree.entries (congrArg Prod.fst ((hwrite text).symm.trans h))
  obtain ⟨hentry, hrest⟩ := List.cons.inj hentries
  obtain rfl : q = p := congrArg Prod.fst hentry
  rw [hwrite other, put, put, hrest]

theorem moreDirs_of_write_refused {refused : String × Refusal}
    (h : t.write path text = (t', some refused)) : MoreDirs t t' := by
  obtain ⟨rfl, -⟩ := of_writeBy_refused h
  exact moreDirs_makeDirs t _

end Tree
end Files
end RouteScribe
