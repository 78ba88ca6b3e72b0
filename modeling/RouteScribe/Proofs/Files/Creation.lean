import RouteScribe.Proofs.Files.Writing

/-!
# RouteScribe.Proofs.Files.Creation

File systems that a file was added to. A write keeps the table one that a file system can have, and
all that is new besides the file is directories.

* `WellFormed.write`: a write leaves a file system that can exist.
* `Puts`: a file has a new text, and all else is as it was.
* `Fills`: a place is filled that was not; a write does so where it finds nothing.
-/

namespace RouteScribe
namespace Files
namespace Tree

variable {t t' : Tree} {p q : Place} {path text : String} {e : Entry}

namespace WellFormed

/-- What is put in a directory may be there, unless it is a file in place of a directory. -/
theorem put (h : t.WellFormed) (hq : q ≠ []) (hdir : t.get? q.dropLast = some .dir)
    (hnames : ∀ n ∈ q, Path.IsName n) (he : e = .dir ∨ t.get? q ≠ some .dir) :
    (t.put q e).WellFormed where
  nodup := by
    rw [Tree.put, List.map_cons, List.nodup_cons]
    refine ⟨fun hmem => ?_, h.nodup.sublist (List.filter_sublist.map _)⟩
    obtain ⟨x, hx, rfl⟩ := List.mem_map.1 hmem
    simpa using (List.mem_filter.1 hx).2
  ne_nil := by
    refine List.forall_mem_cons.2 ⟨hq, fun x hx => ?_⟩
    exact h.ne_nil x (List.mem_filter.1 hx).1
  closed := by
    refine List.forall_mem_cons.2 ⟨?_, fun x hx => ?_⟩
    · have hne : q.dropLast ≠ q := fun heq => by
        have hlength := congrArg List.length heq
        have hpos := List.length_pos_iff.2 hq
        rw [List.length_dropLast] at hlength
        omega
      rw [get?_put_of_ne t hne, hdir]
    · have hclosed := h.closed x (List.mem_filter.1 hx).1
      by_cases hxq : x.1.dropLast = q
      · rw [hxq] at hclosed ⊢
        rw [get?_put t hq, he.resolve_right fun hne => hne hclosed]
      · rw [get?_put_of_ne t hxq, hclosed]
  named := by
    refine List.forall_mem_cons.2 ⟨hnames, fun x hx => ?_⟩
    exact h.named x (List.mem_filter.1 hx).1

/-- What is at a place, or might be put there by its path, is a name in a directory. -/
theorem of_place (h : t.WellFormed) (hplace : t.place false path = .ok q) (hq : q ≠ []) :
    t.get? q.dropLast = some .dir ∧ ∀ n ∈ q, Path.IsName n := by
  cases hget : t.get? q with
  | some e => exact ⟨h.closed _ (mem_entries_of_get? hget hq), fun n hn => h.isName_of_mem hget hn⟩
  | none =>
    obtain ⟨ss, s, k, d, hmoves, -, hd, rfl, hdot, hdots⟩ := of_place_none h hplace hget
    rw [List.dropLast_concat]
    refine ⟨hd, List.forall_mem_append.2 ⟨fun n hn => h.isName_of_mem hd hn, ?_⟩⟩
    have hmem : s ∈ Path.moves path := hmoves ▸ List.mem_append_right ss (List.mem_singleton_self s)
    have hsegment : s ∈ Path.segments path := List.mem_of_mem_filter hmem
    refine List.forall_mem_singleton.2 ⟨?_, hdot, hdots, Path.slash_notMem_of_mem_segments hsegment,
      fun hnul => ?_⟩
    · rintro rfl
      simp [Path.moves, Path.moving] at hmem
    · exact (of_place_ok hplace).1.nul_notMem (Path.mem_toList_of_mem_segments hsegment hnul)

theorem makeEach (paths : List String) : ∀ {t : Tree}, t.WellFormed →
    (t.makeEach paths).1.WellFormed := by
  induction paths with
  | nil => exact id
  | cons path paths ih =>
    intro t h
    rw [Tree.makeEach]
    split
    next t₁ hmake =>
      obtain ⟨q, hplace, hnone, rfl⟩ := of_makeDir_ok hmake
      have hq : q ≠ [] := ne_nil_of_get?_ne_dir (t := t) (by simp [hnone])
      obtain ⟨hdir, hnames⟩ := h.of_place hplace hq
      exact ih (h.put hq hdir hnames (.inl rfl))
    · split
      · exact ih h
      · exact h

theorem makeDirs (h : t.WellFormed) (path : String) : (t.makeDirs path).1.WellFormed := by
  unfold Tree.makeDirs
  split
  · exact h
  · exact h.makeEach _

theorem write (h : t.WellFormed) (hwrite : t.write path text = (t', none)) : t'.WellFormed := by
  obtain ⟨t₁, q, hdirs, hplace, hdir, rfl⟩ := of_write_ok hwrite
  have h₁ : t₁.WellFormed := by
    have hmade := h.makeDirs (directoryOf path)
    rwa [hdirs] at hmade
  have hq : q ≠ [] := ne_nil_of_get?_ne_dir hdir
  obtain ⟨hparent, hnames⟩ := h₁.of_place hplace hq
  exact h₁.put hq hparent hnames (.inr hdir)

end WellFormed

/-- The file at `q` has the text now; nothing else has changed, but there may be more
directories. -/
structure Puts (t t' : Tree) (q : Place) (text : String) : Prop where
  wellFormed : t'.WellFormed
  ends : Ends true (t.get? q)
  file : t'.get? q = some (.file (some text) usualMode)
  others : ∀ p, p ≠ q → t'.get? p = t.get? p ∨ t.get? p = none ∧ t'.get? p = some .dir

namespace Puts

theorem keeps (h : Puts t t' q text) : Keeps t t' := by
  intro p
  by_cases hp : p = q
  · subst hp
    refine .inr ⟨h.ends, fun target => ?_⟩
    rw [h.file]
    exact nofun
  · refine (h.others p hp).imp_right fun ⟨hnone, hdir⟩ => ⟨?_, fun target => ?_⟩
    · rw [hnone]
      exact trivial
    · rw [hdir]
      exact nofun

theorem file_iff (h : Puts t t' q text) (hp : p ≠ q) {old : Option String} {mode : Nat} :
    t'.get? p = some (.file old mode) ↔ t.get? p = some (.file old mode) := by
  rcases h.others p hp with hsame | ⟨hnone, hdir⟩
  · rw [hsame]
  · rw [hnone, hdir]
    exact iff_of_false nofun nofun

/-- What could be read is read again, unless it was in the place of the file. -/
theorem readText (h : Puts t t' q text) (hnone : t.get? q = none) {old : String}
    (hread : t.readText path = .ok old) : t'.readText path = .ok old := by
  obtain ⟨p, mode, hfind⟩ := readText_eq_ok_iff.1 hread
  obtain ⟨hplace, hfile⟩ := find_eq_ok_iff.1 hfind
  have hp : p ≠ q := by
    rintro rfl
    rw [hfile] at hnone
    cases hnone
  exact readText_eq_ok_iff.2
    ⟨p, mode, find_eq_ok_iff.2 ⟨place_mono h.keeps hplace, (h.file_iff hp).2 hfile⟩⟩

theorem trans {t'' : Tree} {other : String} (h : Puts t t' q text) (h' : Puts t' t'' q other) :
    Puts t t'' q other := by
  refine ⟨h'.wellFormed, h.ends, h'.file, fun p hp => ?_⟩
  rcases h'.others p hp with hsame' | ⟨hnone', hdir'⟩
  · rw [hsame']
    exact h.others p hp
  · rcases h.others p hp with hsame | ⟨-, hdir⟩
    · exact .inr ⟨hsame ▸ hnone', hdir'⟩
    · rw [hdir] at hnone'
      cases hnone'

theorem of_put (hmore : MoreDirs t t') (hw : (t'.put q (.file (some text) usualMode)).WellFormed)
    (hends : Ends true (t'.get? q)) : Puts t (t'.put q (.file (some text) usualMode)) q text := by
  have hq : q ≠ [] := by
    rintro rfl
    exact hends
  refine ⟨hw, ?_, get?_put t' hq _, fun p hp => ?_⟩
  · rcases hmore q with hsame | ⟨hnone, -⟩
    · rwa [← hsame]
    · rw [hnone]
      exact trivial
  · rw [get?_put_of_ne t' hp]
    exact hmore p

end Puts

theorem exists_puts_of_write (hw : t.WellFormed)
    (hlinks : ∀ p target, t.get? p ≠ some (.link target))
    (h : t.write path text = (t', none)) :
    ∃ q, t'.place false (dropSlashes path) = .ok q ∧ Puts t t' q text := by
  obtain ⟨t₁, q, hdirs, hplace, hdir, rfl⟩ := of_write_ok h
  have hmore : MoreDirs t t₁ := by
    have hmore := moreDirs_makeDirs t (directoryOf path)
    rwa [hdirs] at hmore
  have hends : Ends true (t₁.get? q) := ends_of_ne hdir fun target hlink =>
    hlinks q target (hmore.keeps.of_get?_link hlink)
  have hq : q ≠ [] := ne_nil_of_get?_ne_dir hdir
  exact ⟨q, place_mono (keeps_put_file hq hends (some text) usualMode) hplace,
    .of_put hmore (hw.write h) hends⟩

/-! ## Filled places -/

section

variable {t'' : Tree} {k : Nat} {ss : List String}

/-- A directory or a file stands at the place. -/
def Filled (t : Tree) (p : Place) : Prop :=
  ∃ e, t.get? p = some e ∧ ∀ target, e ≠ .link target

/-- All places that were filled still are, and another one is. -/
structure Fills (t t' : Tree) : Prop where
  keep : ∀ p, t.Filled p → t'.Filled p
  more : ∃ p, ¬ t.Filled p ∧ t'.Filled p

theorem Fills.trans (h : Fills t t') (h' : Fills t' t'') : Fills t t'' := by
  obtain ⟨p, hp, hp'⟩ := h.more
  exact ⟨fun q hq => h'.keep q (h.keep q hq), p, hp, h'.keep p hp'⟩

theorem Fills.get?_ne (h : Fills t t') : ∃ p, t'.get? p ≠ t.get? p := by
  obtain ⟨p, hp, e, he, hlink⟩ := h.more
  exact ⟨p, fun hsame => hp ⟨e, hsame ▸ he, hlink⟩⟩

theorem MoreDirs.filled (h : MoreDirs t t') (hp : t.Filled p) : t'.Filled p := by
  obtain ⟨e, he, hlink⟩ := hp
  exact ⟨e, h.get?_eq he, hlink⟩

/-- Where no link is at the end, it makes no difference whether such a link is followed. -/
theorem Leads.follow (h : t.Leads false k p ss q) (hq : ∀ target, t.get? q ≠ some (.link target)) :
    t.Leads true k p ss q := by
  induction h with
  | here k p => exact .here k p
  | dot _ ih => exact .dot (ih hq)
  | dots _ ih => exact .dots (ih hq)
  | dir hs hget _ ih => exact .dir hs hget (ih hq)
  | link hs hget _ _ ih => exact .link hs hget (.inr rfl) (ih hq)
  | last hs hends =>
    refine .last hs ?_
    unfold Ends at hends ⊢
    split at hends
    · trivial
    · trivial
    · exact hends
    next target hlink => exact absurd hlink (hq target)

theorem exists_of_place (hplace : t.place false path = .ok p) (hp : t.Filled p) :
    t.exists path = true := by
  obtain ⟨e, he, hlink⟩ := hp
  obtain ⟨hallowed, hleads⟩ := of_place_ok hplace
  have hnot : ∀ target, t.get? p ≠ some (.link target) := fun target h =>
    hlink target (Option.some.inj (he.symm.trans h))
  have hplace' : t.place true path = .ok p :=
    (place_of_allowed hallowed t true).trans (walk_of_leads (hleads.follow hnot))
  exact exists_eq_true_iff.2 ⟨p, e, find_eq_ok_iff.2 ⟨hplace', he⟩⟩

theorem exists_congr (h : ∀ p, t'.get? p = t.get? p) (path : String) :
    t'.exists path = t.exists path := by
  rw [«exists», «exists», entry?, entry?, find_congr h]

/-- A file that is written where none was fills its place, or a directory on the way to it does. -/
theorem fills_of_write (hslash : path.toList.getLast? ≠ some '/') (hmissing : t.exists path = false)
    (h : t.write path text = (t', none)) : Fills t t' := by
  obtain ⟨t₁, p, hdirs, hplace, hdir, rfl⟩ := of_write_ok h
  rw [dropSlashes_eq_self hslash] at hplace
  have hmore : MoreDirs t t₁ := by
    have hmade := moreDirs_makeDirs t (directoryOf path)
    rwa [hdirs] at hmade
  have hput : (t₁.put p (.file (some text) usualMode)).Filled p :=
    ⟨_, get?_put t₁ (ne_nil_of_get?_ne_dir hdir) _, nofun⟩
  have hkeep : ∀ q, t₁.Filled q → (t₁.put p (.file (some text) usualMode)).Filled q := by
    intro q hq
    by_cases heq : q = p
    · exact heq ▸ hput
    · obtain ⟨e, he, hlink⟩ := hq
      exact ⟨e, (get?_put_of_ne t₁ heq _).trans he, hlink⟩
  refine ⟨fun q hq => hkeep q (hmore.filled hq), ?_⟩
  by_cases hp : t₁.Filled p
  · -- A link led astray before, so that the file is there only because directories were made.
    have hchange : ∃ q, t₁.get? q ≠ t.get? q := by
      by_contra hsame
      push Not at hsame
      rw [exists_congr fun q => (hsame q).symm, exists_of_place hplace hp] at hmissing
      cases hmissing
    obtain ⟨q, hq⟩ := hchange
    obtain ⟨hnone, hmade⟩ := (hmore q).resolve_left hq
    refine ⟨q, fun ⟨e, he, _⟩ => ?_, hkeep q ⟨_, hmade, nofun⟩⟩
    rw [hnone] at he
    cases he
  · exact ⟨p, fun hfilled => hp (hmore.filled hfilled), hput⟩

end

end Tree
end Files
end RouteScribe
