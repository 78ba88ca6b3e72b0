import RouteScribe.Proofs.Files.Writing
import RouteScribe.Proofs.Work

/-!
# RouteScribe.Proofs.Files.Atomicity

A write is done as a whole or not at all. Whatever is refused on the way, by the file system or by
the device, all that can be new are directories; if nothing is refused, there is one new file.

* `Paves`: the directories that lead to a path were made, and nothing else.
* `Replaces`: a file is where a path leads, in place of what was there.
* `whole_of_writeBy`: a write replaces the file, or it does not go beyond the directories.
-/

namespace RouteScribe
namespace Files
namespace Tree

variable {t t₁ t' : Tree} {p d : Place} {path text : String} {ss : List String} {k k' : Nat}
  {names : List String} {fault : Option Fault}

/-! ## The way to a file -/

/-- The directory of a path has the moves of the path, but for the last. -/
theorem moves_directoryOf (path : String) :
    Path.moves (directoryOf path) = (Path.moves path).dropLast := by
  have hdot : Path.moves "." = [] := by decide
  unfold directoryOf
  split
  next hparent => rw [hdot, ← Path.moves_parent?_eq hparent, Path.moves_empty]
  next hparent => rw [hdot, Path.moves_of_parent?_eq_none hparent, List.dropLast_nil]
  next hparent => exact Path.moves_parent?_eq hparent

theorem exists_steps_of_endsInName (h : endsInName path = true)
    (hslash : path.toList.getLast? ≠ some '/') :
    ∃ ss s, steps path = ss ++ [s] ∧ s ≠ "." ∧ s ≠ ".." := by
  have hsteps : steps path = (Path.segments path).filter (· ≠ "") := by
    simp [steps, hslash]
  rw [endsInName, ← hsteps] at h
  split at h
  · cases h
  · cases h
  · cases h
  next s hdot hdots hlast =>
    obtain ⟨ss, hss⟩ := List.getLast?_eq_some_iff.1 hlast
    exact ⟨ss, s, hss, hdot, hdots⟩

theorem Accepts.exists_way (h : Accepts t path p) : ∃ ss s k d, steps path = ss ++ [s] ∧
    ss.filter (· ≠ ".") = Path.moves (directoryOf path) ∧ t.Enters linkLimit [] ss k d ∧
    p = d ++ [s] ∧ Named s := by
  obtain ⟨ss, s, hss, hdot, hdots⟩ := exists_steps_of_endsInName h.endsInName h.ne_slash
  have hplace := h.place
  rw [dropSlashes_eq_self h.ne_slash] at hplace
  obtain ⟨-, hleads⟩ := of_place_ok hplace
  rw [hss] at hleads
  obtain ⟨k, d, henters, hlast⟩ := of_leads_append hleads (List.cons_ne_nil _ _)
  obtain ⟨hp, hnamed⟩ := hlast.eq_concat ⟨hdot, hdots⟩ nofun
  refine ⟨ss, s, k, d, hss, ?_, henters, hp, hnamed⟩
  rw [moves_directoryOf, ← filter_steps, hss, List.filter_append,
    List.filter_cons_of_pos (by simpa using hdot), List.filter_nil, List.dropLast_concat]

theorem Enters.of_put_file {text : Option String} {mode : Nat} (hp : p ≠ []) {a : Place}
    (h : (t.put p (.file text mode)).Enters k a ss k' d) : t.Enters k a ss k' d := by
  have hget : ∀ {q e}, (t.put p (.file text mode)).get? q = some e → (∀ s m, e ≠ .file s m) →
      t.get? q = some e := by
    intro q e hq he
    by_cases hqp : q = p
    · rw [hqp, get?_put t hp] at hq
      exact absurd (Option.some.inj hq).symm (he _ _)
    · rwa [get?_put_of_ne t hqp] at hq
  induction h with
  | here k a => exact .here k a
  | dot _ ih => exact .dot ih
  | dots _ ih => exact .dots ih
  | dir hs hdir _ ih => exact .dir hs (hget hdir nofun) ih
  | link hs hlink _ ih => exact .link hs (hget hlink nofun) ih

/-- A file that was put is found, if the way to it does not lead through what it replaced. -/
theorem Accepts.find_put (h : Accepts t path p)
    (hway : (∀ target, t.get? p ≠ some (.link target)) ∨
      (t.put p (.file (some text) usualMode)).isDir (directoryOf path) = true) :
    (t.put p (.file (some text) usualMode)).find true path =
      .ok (p, .file (some text) usualMode) := by
  have hp : p ≠ [] := ne_nil_of_get?_ne_dir h.ne_dir
  have hfile := get?_put t hp (.file (some text) usualMode)
  obtain ⟨ss, s, k, d, hss, hmoves, henters, rfl, hnamed⟩ := h.exists_way
  have hplace := h.place
  rw [dropSlashes_eq_self h.ne_slash] at hplace
  have hallowed := (of_place_ok hplace).1
  suffices ∃ k', (t.put (d ++ [s]) (.file (some text) usualMode)).Enters linkLimit [] ss k' d by
    obtain ⟨k', henters'⟩ := this
    refine find_eq_ok_iff.2 ⟨?_, hfile⟩
    rw [place_of_allowed hallowed, hss]
    refine walk_of_leads (henters'.leads_append (.last hnamed ?_) (.inl (List.cons_ne_nil _ _)))
    rw [hfile]
    exact trivial
  rcases hway with hlink | hdir
  · exact ⟨k, henters.mono (keeps_put_file hp (ends_of_ne h.ne_dir hlink) _ _)⟩
  · obtain ⟨d', hfind⟩ := of_isDir hdir
    obtain ⟨-, -, k', henters'⟩ := of_find_dir hfind
    rw [← hmoves, enters_filter_iff] at henters'
    obtain rfl := henters.unique (henters'.of_put_file hp)
    exact ⟨k', henters'⟩

/-- A way that does not end at a link is one that follows links. -/
theorem Leads.followed {follow : Bool} {q : Place} (h : t.Leads follow k p ss q)
    (hq : ∀ target, t.get? q ≠ some (.link target)) : t.Leads true k p ss q := by
  induction h with
  | here k p => exact .here k p
  | dot _ ih => exact .dot (ih hq)
  | dots _ ih => exact .dots (ih hq)
  | dir hs hdir _ ih => exact .dir hs hdir (ih hq)
  | link hs hlink _ _ ih => exact .link hs hlink (.inr rfl) (ih hq)
  | @last k p s hs hends =>
    refine .last hs (ends_of_ne (fun hdir => ?_) hq)
    rw [hdir] at hends
    exact hends

/-- A file that is written over can be read before and after. -/
theorem exists_write_over {old : String} {mode : Nat}
    (hfind : t.find false path = .ok (p, .file (some old) mode))
    (hfree : (t.write path "").2 = none) : t.readText path = .ok old ∧
      ∀ text, ∃ t', t.write path text = (t', none) ∧ t'.readText path = .ok text := by
  obtain ⟨hplace, hfile⟩ := find_eq_ok_iff.1 hfind
  have hlink : ∀ target, t.get? p ≠ some (.link target) := fun target => by
    rw [hfile]
    exact nofun
  refine ⟨?_, fun text => ?_⟩
  · obtain ⟨hallowed, hleads⟩ := of_place_ok hplace
    refine readText_eq_ok_iff.2 ⟨p, mode, find_eq_ok_iff.2 ⟨?_, hfile⟩⟩
    rw [place_of_allowed hallowed]
    exact walk_of_leads (hleads.followed hlink)
  · obtain ⟨-, t₁, q, hdirs, hroom, hq, -⟩ :=
      writeBy_eq_none_iff.1 (show t.write path "" = (_, none) from Prod.ext rfl hfree)
    have hmore : MoreDirs t t₁ := by
      have hmore := moreDirs_makeDirs t (directoryOf path)
      rwa [hdirs] at hmore
    have hplace' := hq.place
    rw [dropSlashes_eq_self hq.ne_slash] at hplace'
    obtain rfl := Except.ok.inj ((place_mono hmore.keeps hplace).symm.trans hplace')
    have hwrite : t.write path text = (t₁.put p (.file (some text) usualMode), none) :=
      writeBy_eq_none_iff.2 ⟨rfl, t₁, p, hdirs, hroom, hq, rfl⟩
    exact ⟨_, hwrite, readText_eq_ok_iff.2 ⟨p, usualMode,
      hq.find_put (.inl fun target hget => hlink target (hmore.keeps.of_get?_link hget))⟩⟩

/-! ## Whole or nothing -/

/-- Directories that lead to a path were made where nothing was, and they have nothing but each
other in them. Nothing else changed. -/
structure Paves (t t' : Tree) (path : String) : Prop where
  moreDirs : MoreDirs t t'
  leading : ∀ p, t.get? p = none → t'.get? p = some .dir →
    ∃ dir ∈ Path.ancestors (directoryOf path), t'.place false (dropSlashes dir) = .ok p
  empty : ∀ p q e, t.get? p = none → p <+: q → t'.get? q = some e → e = .dir

theorem paves_makeDirs (hw : t.WellFormed) (path : String) :
    Paves t (t.makeDirs (directoryOf path)).1 path where
  moreDirs := moreDirs_makeDirs t _
  leading _ hnone hdir := place_of_makeDirs hnone hdir
  empty p q e hnone hpq he := by
    rcases moreDirs_makeDirs t (directoryOf path) q with hsame | ⟨-, hdir⟩
    · rw [hsame] at he
      by_cases hne : p = q
      · rw [hne, he] at hnone
        cases hnone
      · rw [hw.dir_of_isPrefix he hpq hne] at hnone
        cases hnone
    · exact Option.some.inj (he.symm.trans hdir)

/-- A file with the text is at the place that the path leads to, in place of the file or the link
that was there, if any. Besides it only directories that lead to the path are new. The path leads to
the file, unless it had led through the link that is gone. -/
structure Replaces (t t' : Tree) (path text : String) (p : Place) : Prop where
  others : ∃ t₁, Paves t t₁ path ∧ t₁.place false path = .ok p ∧
    ∀ q, q ≠ p → t'.get? q = t₁.get? q
  ne_dir : t.get? p ≠ some .dir
  file : t'.get? p = some (.file (some text) usualMode)
  find : (∀ target, t.get? p ≠ some (.link target)) ∨ t'.isDir (directoryOf path) = true →
    t'.find true path = .ok (p, .file (some text) usualMode)

theorem Accepts.replaces (hpaves : Paves t t₁ path) (h : Accepts t₁ path p) :
    Replaces t (t₁.put p (.file (some text) usualMode)) path text p where
  others := ⟨t₁, hpaves, dropSlashes_eq_self h.ne_slash ▸ h.place,
    fun _ hq => get?_put_of_ne t₁ hq _⟩
  ne_dir hdir := h.ne_dir (hpaves.moreDirs.get?_eq hdir)
  file := get?_put t₁ (ne_nil_of_get?_ne_dir h.ne_dir) _
  find hway := h.find_put <| hway.imp_left fun hlink target hget =>
    hlink target (hpaves.moreDirs.keeps.of_get?_link hget)

/-- A write replaces the file, or it does not go beyond the directories, whatever names there are
for temporary files and whatever the device refuses. A template that fails does not even lead to a
write. -/
theorem whole_of_writeBy (hw : t.WellFormed) (names : List String) (fault : Option Fault)
    (path text : String) :
    (∀ t', writeBy names fault t path text = (t', none) → ∃ p, Replaces t t' path text p) ∧
    (∀ t' refused, writeBy names fault t path text = (t', some refused) → Paves t t' path ∧
      (refused.1 = directoryOf path ∨ refused.1 = path ∨
        ∃ n ∈ names, refused.1 = Path.join (Path.join "/" (directoryOf path)) n)) ∧
    ∀ log, (∀ f, Work.perform (Work.renderTo path (.error f)) ⟨t, log⟩ =
        (.error (.template f), ⟨t, log⟩)) ∧
      Work.perform (Work.renderTo path (.ok text)) ⟨t, log⟩ =
        match writeBy temporaryNames none t path text with
        | (t', none) => (.ok (), ⟨t', log⟩)
        | (t', some (p, r)) => (.error (.io p r), ⟨t', log⟩) := by
  refine ⟨fun t' h => ?_, fun t' refused h => ?_, fun log => ⟨fun f => ?_, ?_⟩⟩
  · obtain ⟨-, t₁, p, hdirs, -, hp, rfl⟩ := writeBy_eq_none_iff.1 h
    have hpaves := paves_makeDirs hw path
    rw [hdirs] at hpaves
    exact ⟨p, hp.replaces hpaves⟩
  · obtain ⟨rfl, hrefused⟩ := of_writeBy_refused h
    exact ⟨paves_makeDirs hw path, hrefused⟩
  · exact Work.perform_renderTo_error path f _
  · rw [Work.renderTo_ok, Work.perform_write]
    rfl

/-- A file, and a link to it. -/
def linkedFile : Tree :=
  ⟨[(["a"], .dir), (["a", "f"], .file (some "old") usualMode), (["l"], .link "a/f")]⟩

/-- The link gives way to a file, and a directory is all that is left when there is no space. -/
theorem whole_of_linkedFile : linkedFile.WellFormed ∧
    (∃ t' p, writeBy ["t"] none linkedFile "/l" "new" = (t', none) ∧
      Replaces linkedFile t' "/l" "new" p) ∧
    ∃ t', writeBy ["t"] (some (.text "n" .noSpace)) linkedFile "/a/b/g" "new" =
        (t', some ("/a/b/t", .noSpace)) ∧ Paves linkedFile t' "/a/b/g" := by
  have hw : linkedFile.WellFormed := by decide +kernel
  have hdone : writeBy ["t"] none linkedFile "/l" "new" =
      (linkedFile.put ["l"] (.file (some "new") usualMode), none) := by decide +kernel
  have hrefused : writeBy ["t"] (some (.text "n" .noSpace)) linkedFile "/a/b/g" "new" =
      (linkedFile.put ["a", "b"] .dir, some ("/a/b/t", .noSpace)) := by decide +kernel
  obtain ⟨p, hreplaces⟩ := (whole_of_writeBy hw ["t"] none "/l" "new").1 _ hdone
  exact ⟨hw, ⟨_, p, hdone, hreplaces⟩, _, hrefused,
    ((whole_of_writeBy hw ["t"] _ "/a/b/g" "new").2.1 _ _ hrefused).1⟩

end Tree
end Files
end RouteScribe
