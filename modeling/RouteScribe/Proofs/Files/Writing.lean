import RouteScribe.Proofs.Files.Replacement

/-!
# RouteScribe.Proofs.Files.Writing

What writing to a path does. The way to the directory is cut where it leaves what exists: up to
there nothing is made, and behind there everything is, one directory in the other, unless two dots
lead back.

* `of_makeDirs`: the directories that are made.
* `of_write`: what stands where after a write.
* `write_again`: a write that is repeated changes nothing.
-/

namespace RouteScribe
namespace Files
namespace Tree

variable {t t' : Tree} {p q : Place} {path n : String} {k : Nat}

theorem dropSlashes_append_slash (path : String) :
    dropSlashes (path ++ "/") = dropSlashes path := by
  have h : (path ++ "/").toList.reverse = '/' :: path.toList.reverse := by
    rw [String.toList_append, List.reverse_append]
    rfl
  simp only [dropSlashes, h, List.dropWhile_cons, decide_true, if_true]

theorem dropSlashes_eq_self (h : path.toList.getLast? ≠ some '/') : dropSlashes path = path := by
  have hdrop : path.toList.reverse.dropWhile (· = '/') = path.toList.reverse := by
    rw [List.getLast?_eq_head?_reverse] at h
    cases hrev : path.toList.reverse with
    | nil => rfl
    | cons c cs =>
      rw [hrev] at h
      exact List.dropWhile_cons_of_neg (by simpa using h)
  rw [dropSlashes, hdrop, List.reverse_reverse, String.ofList_toList]

theorem moves_dropSlashes (path : String) : Path.moves (dropSlashes path) = Path.moves path := by
  generalize hsize : path.length = size
  induction size generalizing path with
  | zero =>
    obtain rfl : path = "" := String.length_eq_zero_iff.1 hsize
    rfl
  | succ size ih =>
    by_cases hlast : path.toList.getLast? = some '/'
    · obtain ⟨path, rfl⟩ := Path.exists_append_slash hlast
      rw [dropSlashes_append_slash, Path.moves_append_slash]
      refine ih path ?_
      rw [String.length_append] at hsize
      exact Nat.succ.inj hsize
    · rw [dropSlashes_eq_self hlast]

theorem mem_of_missing {paths ps : List String} (h : t.missing paths = .ok ps) :
    ∀ path ∈ ps, path ∈ paths := by
  induction paths generalizing ps with
  | nil =>
    cases h
    exact nofun
  | cons path paths ih =>
    rw [missing] at h
    split at h
    · cases h
      exact nofun
    · split at h
      · cases h
        exact fun _ hmem => List.mem_cons.2 (.inl (List.mem_singleton.1 hmem))
      · split at h
        next more hmore =>
          cases h
          intro p hp
          rcases List.mem_append.1 hp with hp | hp
          · exact List.mem_cons_of_mem _ (ih hmore p hp)
          · exact List.mem_cons.2 (.inl (List.mem_singleton.1 hp))
        · cases h
      · split at h
        · cases h
          exact nofun
        · cases h

theorem find_dir_mono (hkeeps : Keeps t t') {follow : Bool}
    (h : t.find follow path = .ok (p, .dir)) : t'.find follow path = .ok (p, .dir) := by
  obtain ⟨hplace, hget⟩ := find_eq_ok_iff.1 h
  exact find_eq_ok_iff.2 ⟨place_mono hkeeps hplace, hkeeps.get?_dir hget⟩

theorem place_of_makeEach (paths : List String) (hp : t.get? p = none)
    (hdir : (t.makeEach paths).1.get? p = some .dir) :
    ∃ path ∈ paths, (t.makeEach paths).1.place false (dropSlashes path) = .ok p := by
  induction paths generalizing t with
  | nil =>
    rw [makeEach, hp] at hdir
    cases hdir
  | cons path paths ih =>
    rw [makeEach] at hdir ⊢
    split at hdir
    next t₁ hmake =>
      obtain ⟨p₁, hplace, hnone, rfl⟩ := of_makeDir_ok hmake
      have hmore := moreDirs_makeEach paths (t.put p₁ .dir)
      by_cases hpp : p = p₁
      · refine ⟨path, List.mem_cons_self, ?_⟩
        rw [hpp]
        exact place_mono ((moreDirs_put hnone).trans hmore).keeps hplace
      · obtain ⟨path', hmem, hplace'⟩ := ih (by rwa [get?_put_of_ne t hpp]) hdir
        exact ⟨path', List.mem_cons_of_mem _ hmem, hplace'⟩
    next r hmake =>
      split at hdir
      next hisDir =>
        simp only [hisDir, if_true]
        obtain ⟨path', hmem, hplace'⟩ := ih hp hdir
        exact ⟨path', List.mem_cons_of_mem _ hmem, hplace'⟩
      · rw [hp] at hdir
        cases hdir

/-- If anything is made at all, the first of it is made in what exists. -/
theorem makeEach_eq_self_or (paths : List String) : (t.makeEach paths).1 = t ∨
    ∃ path ∈ paths, ∃ p, t.place false (dropSlashes path) = .ok p ∧ t.get? p = none := by
  induction paths with
  | nil => exact .inl rfl
  | cons path paths ih =>
    rw [makeEach]
    split
    next t₁ hmake =>
      obtain ⟨p, hplace, hnone, -⟩ := of_makeDir_ok hmake
      exact .inr ⟨path, List.mem_cons_self, p, hplace, hnone⟩
    · split
      · refine ih.imp_right ?_
        rintro ⟨path', hmem, h⟩
        exact ⟨path', List.mem_cons_of_mem _ hmem, h⟩
      · exact .inl rfl

/-- A directory that was made is where the path leads, or a parent of it. -/
theorem place_of_makeDirs (hp : t.get? p = none)
    (hdir : (t.makeDirs path).1.get? p = some .dir) :
    ∃ path' ∈ Path.ancestors path, (t.makeDirs path).1.place false (dropSlashes path') = .ok p := by
  unfold makeDirs at hdir ⊢
  split at hdir
  · rw [hp] at hdir
    cases hdir
  next ps hmissing =>
    obtain ⟨path', hmem, hplace⟩ := place_of_makeEach ps hp hdir
    exact ⟨path', mem_of_missing hmissing _ hmem, hplace⟩

theorem makeDirs_eq_self_or (t : Tree) (path : String) : (t.makeDirs path).1 = t ∨
    ∃ path' p, Path.moves path' <+: Path.moves path ∧ t.place false path' = .ok p ∧
      t.get? p = none := by
  unfold makeDirs
  split
  · exact .inl rfl
  next ps hmissing =>
    refine (makeEach_eq_self_or ps).imp_right ?_
    rintro ⟨path', hmem, p, hplace, hnone⟩
    refine ⟨dropSlashes path', p, ?_, hplace, hnone⟩
    rw [moves_dropSlashes]
    exact Path.moves_of_mem_ancestors (mem_of_missing hmissing _ hmem)

theorem of_place_none (hw : t.WellFormed) (h : t.place false path = .ok p)
    (hp : t.get? p = none) : ∃ ss s k d, Path.moves path = ss ++ [s] ∧
      t.Enters linkLimit [] ss k d ∧ t.get? d = some .dir ∧ p = d ++ [s] ∧ s ≠ "." ∧ s ≠ ".." := by
  obtain ⟨-, hleads⟩ := of_place_ok h
  rcases List.eq_nil_or_concat (steps path) with hnil | ⟨ss, s, hss⟩
  · rw [hnil] at hleads
    cases hleads
    cases hp
  · rw [List.concat_eq_append] at hss
    rw [hss] at hleads
    obtain ⟨k, d, henters, hlast⟩ := of_leads_append hleads (List.cons_ne_nil _ _)
    have hd : t.get? d = some .dir := henters.get?_eq hw rfl
    have hdot : s ≠ "." := by
      rintro rfl
      rw [hlast.eq_of_dot, hd] at hp
      cases hp
    have hdots : s ≠ ".." := by
      rintro rfl
      rw [hlast.eq_of_dots, get?_dropLast hw hd] at hp
      cases hp
    have hmoves : Path.moves path = ss.filter (· ≠ ".") ++ [s] := by
      rw [← filter_steps, hss, List.filter_append, List.filter_cons_of_pos (by simpa using hdot)]
      rfl
    obtain ⟨rfl, -⟩ := hlast.eq_concat ⟨hdot, hdots⟩ (fun h => by cases h)
    exact ⟨_, s, k, d, hmoves, enters_filter_iff.2 henters, hd, rfl, hdot, hdots⟩

theorem ne_dot_of_mem_moves {s : String} (h : s ∈ Path.moves path) : s ≠ "." := by
  simp only [Path.moves, Path.moving, List.mem_filter, Bool.and_eq_true, decide_eq_true_eq] at h
  exact h.2.2

/-- How far a path leads in what exists: to the directory `d` by the moves `old`. What `new` names
does not exist. -/
structure Cut (t : Tree) (path : String) (old new : List String) (k : Nat) (d : Place) : Prop where
  moves_eq : Path.moves path = old ++ new
  enters : t.Enters linkLimit [] old k d
  get?_eq : t.get? d = some .dir
  first : ∀ s rest, new = s :: rest → s ≠ ".." ∧ t.get? (d ++ [s]) = none

variable {old new : List String} {d r : Place} {k' : Nat}

theorem Cut.get?_none (hw : t.WellFormed) (h : Cut t path old new k d) {w : Place} (hne : w ≠ [])
    (hfirst : w.head? = new.head?) : t.get? (d ++ w) = none := by
  obtain ⟨s, w, rfl⟩ := List.exists_cons_of_ne_nil hne
  cases new with
  | nil => cases hfirst
  | cons s' rest =>
    obtain rfl : s = s' := Option.some.inj hfirst
    obtain ⟨-, hnone⟩ := h.first s rest rfl
    by_contra hsome
    obtain ⟨e, he⟩ := Option.ne_none_iff_exists'.1 hsome
    cases w with
    | nil =>
      rw [hnone] at he
      cases he
    | cons s' w =>
      have hway : d ++ [s] <+: d ++ s :: s' :: w := ⟨s' :: w, by simp⟩
      rw [hw.dir_of_isPrefix he hway (by simp)] at hnone
      cases hnone

theorem head?_eq_of_isPrefix {w : List String} (hne : w ≠ []) (h : w <+: new) :
    w.head? = new.head? := by
  obtain ⟨s, w, rfl⟩ := List.exists_cons_of_ne_nil hne
  obtain ⟨rest, rfl⟩ := h
  rfl

theorem Cut.isPrefix_old (h : Cut t path old new k d) {ss : List String}
    (hss : ss <+: Path.moves path) (henters : t.Enters linkLimit [] ss k' p) : ss <+: old := by
  rw [h.moves_eq] at hss
  rcases List.prefix_or_prefix_of_prefix hss (List.prefix_append old new) with hshort | hlong
  · exact hshort
  · obtain ⟨w, rfl⟩ := hlong
    have hnew : w <+: new := (List.prefix_append_right_inj old).1 hss
    cases w with
    | nil => simp
    | cons s w =>
      obtain ⟨rest, rfl⟩ := hnew
      obtain ⟨hdots, hnone⟩ := h.first s (w ++ rest) rfl
      have hdot : s ≠ "." := by
        refine ne_dot_of_mem_moves (h.moves_eq ▸ List.mem_append_right old ?_)
        exact List.mem_cons_self
      obtain ⟨k₂, d₂, hfirst, hrest⟩ := of_enters_append henters
      obtain rfl := h.enters.unique hfirst
      rw [← List.singleton_append] at hrest
      obtain ⟨k₃, d₃, hstep, -⟩ := of_enters_append hrest
      obtain ⟨-, e, he⟩ := hstep.exists_entry ⟨hdot, hdots⟩
      rw [hnone] at he
      cases he

/-- A way does not go up where it is new, if it goes down from a directory, or never goes up. -/
theorem Cut.dots_notMem (h : Cut t path old new k d) {root : String} {names : List String}
    (hmoves : Path.moves path = Path.moves root ++ names) (hnames : ".." ∉ names)
    (hroot : t.isDir root = true ∨ ".." ∉ Path.moves root) : ".." ∉ new := by
  have hall := h.moves_eq
  rw [hmoves] at hall
  intro hmem
  rcases hroot with hroot | hroot
  · obtain ⟨p, hfind⟩ := of_isDir hroot
    obtain ⟨-, -, k', henters⟩ := of_find_dir hfind
    have hold : Path.moves root <+: old :=
      h.isPrefix_old (hmoves ▸ List.prefix_append _ _) henters
    obtain ⟨more, rfl⟩ := hold
    rw [List.append_assoc, List.append_cancel_left_eq] at hall
    rw [hall] at hnames
    exact hnames (List.mem_append_right more hmem)
  · have hboth := List.mem_append_right old hmem
    rw [← hall] at hboth
    exact (List.mem_append.1 hboth).elim hroot hnames

theorem exists_cut (hw : t.WellFormed)
    (hr : (t.makeDirs path).1.Enters linkLimit [] (Path.moves path) k r) :
    ∃ old new k' d, Cut t path old new k' d := by
  obtain ⟨old, new, k', d, hmoves, henters, hlongest⟩ :=
    exists_longest_way t linkLimit [] (Path.moves path)
  refine ⟨old, new, k', d, hmoves, henters, henters.get?_eq hw rfl, fun s rest hnew => ?_⟩
  subst hnew
  rcases makeDirs_eq_self_or t path with hsame | ⟨path', p, hway, hplace, hnone⟩
  · rw [hsame, hmoves, ← List.singleton_append, ← List.append_assoc] at hr
    obtain ⟨k'', q, hnext, -⟩ := of_enters_append hr
    exact absurd hnext (hlongest s rest rfl k'' q)
  · obtain ⟨ss, s', k₁, d₁, hmoves', henters', hdir, rfl, hdot, hdots⟩ :=
      of_place_none hw hplace hnone
    rw [hmoves', hmoves] at hway
    have hnot : ∀ k₂ q, ¬ t.Enters linkLimit [] (ss ++ [s']) k₂ q := by
      intro k₂ q h
      obtain ⟨k₃, d₃, hfirst, hlast⟩ := of_enters_append h
      obtain rfl := henters'.unique hfirst
      obtain ⟨rfl, -⟩ := hlast.leads.eq_concat ⟨hdot, hdots⟩ fun _ target => by
        rw [hnone]
        exact nofun
      rw [h.get?_eq hw rfl] at hnone
      cases hnone
    -- Neither of the two ways is longer than the other.
    have hss : ss <+: old ++ s :: rest := (List.prefix_append ss [s']).trans hway
    rcases List.prefix_or_prefix_of_prefix hway (List.prefix_append old (s :: rest))
      with hshort | hlong
    · obtain ⟨more, rfl⟩ := hshort
      obtain ⟨k₂, q, h, -⟩ := of_enters_append henters
      exact absurd h (hnot k₂ q)
    · rcases List.prefix_concat_iff.1 hlong with rfl | hlong
      · exact absurd henters (hnot k' d)
      · obtain ⟨more, rfl⟩ := hlong
        cases more with
        | nil =>
          rw [List.append_nil] at henters' hway
          obtain rfl := henters.unique henters'
          have hs := (List.prefix_append_right_inj old).1 hway
          obtain ⟨rfl, -⟩ := List.cons_prefix_cons.1 hs
          exact ⟨hdots, hnone⟩
        | cons s'' more =>
          have hs := (List.prefix_append_right_inj old).1 hss
          obtain ⟨rfl, -⟩ := List.cons_prefix_cons.1 hs
          rw [← List.singleton_append, ← List.append_assoc] at henters'
          obtain ⟨k₂, q, h, -⟩ := of_enters_append henters'
          exact absurd h (hlongest s'' rest rfl k₂ q)

/-- The directories that are made are those that the new names lead to. -/
theorem of_makeDirs (hw : t.WellFormed)
    (hr : (t.makeDirs path).1.Enters linkLimit [] (Path.moves path) k r)
    (h : Cut t path old new k' d) (hdots : ".." ∉ new) :
    r = d ++ new ∧ (t.makeDirs path).1.get? r = some .dir ∧
      ∀ p, (t.makeDirs path).1.get? p = t.get? p ∨ t.get? p = none ∧
        (t.makeDirs path).1.get? p = some .dir ∧ ∃ w, w <+: new ∧ p = d ++ w := by
  have hmore := moreDirs_makeDirs t path
  have hnames : ∀ s ∈ new, s ≠ "." ∧ s ≠ ".." := by
    intro s hs
    refine ⟨ne_dot_of_mem_moves (h.moves_eq ▸ List.mem_append_right old hs), ?_⟩
    rintro rfl
    exact hdots hs
  have hlinks : (t.makeDirs path).1.Unlinked d new := by
    intro w hne hw' target hget
    have hold := hmore.keeps.of_get?_link hget
    rw [h.get?_none hw hne (head?_eq_of_isPrefix hne hw')] at hold
    cases hold
  have holdWay := h.enters.mono hmore.keeps
  rw [h.moves_eq] at hr
  obtain ⟨k₂, d₂, hfirst, hrest⟩ := of_enters_append hr
  obtain rfl := holdWay.unique hfirst
  obtain ⟨rfl, -, -, hdirs⟩ := hrest.eq_append hnames hlinks
  refine ⟨rfl, ?_, fun p => (hmore p).imp_right fun ⟨hnone, hdir⟩ => ⟨hnone, hdir, ?_⟩⟩
  · by_cases hnew : new = []
    · rw [hnew, List.append_nil]
      exact hmore.get?_eq h.get?_eq
    · exact hdirs new hnew List.prefix_rfl
  · obtain ⟨path', hmem, hplace⟩ := place_of_makeDirs hnone hdir
    have hpath := Path.moves_of_mem_ancestors hmem
    rw [← moves_dropSlashes] at hpath
    obtain ⟨k₃, henters⟩ := Enters.of_leads (of_place_ok hplace).2 hdir
    rw [enters_steps_iff] at henters
    rw [h.moves_eq] at hpath
    rcases List.prefix_or_prefix_of_prefix hpath (List.prefix_append old new) with hshort | hlong
    · obtain ⟨more, hsplit⟩ := hshort
      have hway := h.enters
      rw [← hsplit] at hway
      obtain ⟨k₄, p', hp', -⟩ := of_enters_append hway
      obtain rfl := henters.unique (hp'.mono hmore.keeps)
      rw [hp'.get?_eq hw rfl] at hnone
      cases hnone
    · obtain ⟨w, hsplit⟩ := hlong
      rw [← hsplit] at hpath henters
      have hw' : w <+: new := (List.prefix_append_right_inj old).1 hpath
      obtain ⟨k₂, d₂, hfirst, hrest⟩ := of_enters_append henters
      obtain rfl := holdWay.unique hfirst
      refine ⟨w, hw', (hrest.eq_append (fun s hs => hnames s (hw'.subset hs)) ?_).1⟩
      exact fun w' hne hww => hlinks w' hne (hww.trans hw')

/-! ## Listings -/

theorem below_put {e : Entry} (h : ¬ p <+: q) : (t.put q e).below p = t.below p := by
  have hnot : ∀ x : Place × Entry, x.1 = q → p.isPrefixOf x.1 = false := by
    intro x hx
    rw [hx, Bool.eq_false_iff, Ne, List.isPrefixOf_iff_prefix]
    exact h
  have hsame : (t.put q e).unsortedBelow p = t.unsortedBelow p := by
    simp only [unsortedBelow, put, List.filterMap_cons, hnot (q, e) rfl, Bool.false_and,
      Bool.false_eq_true, if_false, List.filterMap_filter]
    refine List.filterMap_congr fun x _ => ?_
    by_cases hx : x.1 = q
    · simp only [hnot x hx, Bool.false_and, Bool.false_eq_true, if_false, ite_self]
    · simp only [hx, ne_eq, not_false_eq_true, decide_true, if_true]
  rw [below_eq, below_eq, hsame]

theorem below_makeEach (paths : List String) (h : ∀ q, t.get? q = none →
    (t.makeEach paths).1.get? q = some .dir → ¬ p <+: q) :
    (t.makeEach paths).1.below p = t.below p := by
  induction paths generalizing t with
  | nil => rfl
  | cons path paths ih =>
    rw [makeEach] at h ⊢
    cases hmake : t.makeDir path with
    | ok t₁ =>
      simp only [hmake] at h
      obtain ⟨q, -, hnone, rfl⟩ := of_makeDir_ok hmake
      have hq : q ≠ [] := ne_nil_of_get?_ne_dir (by rw [hnone]; exact nofun)
      have hmore := moreDirs_makeEach paths (t.put q .dir)
      have hnot : ¬ p <+: q := h q hnone (hmore.get?_eq (get?_put t hq .dir))
      refine (ih fun q' hnone' hdir => h q' ?_ hdir).trans (below_put hnot)
      by_cases hqq : q' = q
      · rw [hqq, get?_put t hq] at hnone'
        cases hnone'
      · rwa [get?_put_of_ne t hqq] at hnone'
    | error r =>
      by_cases hisDir : t.isDir path = true
      · simp only [hmake, hisDir, if_true] at h ⊢
        exact ih h
      · simp only [hisDir]
        rfl

theorem below_makeDirs (h : ∀ q, t.get? q = none →
    (t.makeDirs path).1.get? q = some .dir → ¬ p <+: q) :
    (t.makeDirs path).1.below p = t.below p := by
  unfold makeDirs at h ⊢
  split at h
  · rfl
  next ps _ => exact below_makeEach ps h

/-! ## Files in a directory -/

variable {m text : String}

theorem directoryOf_join_name (path : String) (hm : Path.IsName m) (hn : Path.IsName n) :
    directoryOf (Path.join (Path.join path m) n) = Path.join path m := by
  have hne := Path.join_name_ne_empty path hm
  rw [directoryOf, Path.parent?_join_name path hm hn]
  generalize Path.join path m = dir at hne
  split
  next h => exact absurd (Option.some.inj h) hne
  next h => cases h
  next h => exact (Option.some.inj h).symm

theorem join_join_name (path : String) (hm : Path.IsName m) (hn : Path.IsName n) :
    Path.join (Path.join path m) n = Path.join path m ++ "/" ++ n := by
  have hne := Path.join_name_ne_empty path hm
  have hlast := Path.getLast?_join_name path hm
  generalize Path.join path m = dir at hne hlast
  simp [Path.join, hn.isAbsolute_eq, hne, hlast]

theorem Allowed.of_join (hm : Path.IsName m) (hn : Path.IsName n)
    (h : Allowed (Path.join (Path.join path m) n)) : Allowed (Path.join path m) := by
  have hne := Path.join_name_ne_empty path hm
  rw [join_join_name path hm hn, String.append_assoc] at h
  exact h.of_append hne

theorem accepts_join_name (hn : Path.IsName n)
    (hplace : t.place false (Path.join path n) = .ok q) (hq : t.get? q ≠ some .dir) :
    Accepts t (Path.join path n) q := by
  obtain ⟨ss, hss, -⟩ := Path.segments_join_name path hn
  have hlast := Path.getLast?_join_name path hn
  have hnames : (Path.segments (Path.join path n)).filter (· ≠ "") = ss.filter (· ≠ "") ++ [n] := by
    rw [hss, List.filter_append, List.filter_cons_of_pos (by simpa using hn.ne_empty)]
    rfl
  refine ⟨?_, by rwa [dropSlashes_eq_self hlast], hlast, hq⟩
  rw [endsInName, hnames, List.getLast?_concat]
  split
  next h => cases h
  next h => exact absurd (Option.some.inj h) hn.ne_dot
  next h => exact absurd (Option.some.inj h) hn.ne_dots
  · rfl

/-! ## Temporary files -/

theorem isDigit_digitChar {d : Nat} (h : d < 10) : (Nat.digitChar d).isDigit = true := by
  have hall : ∀ d < 10, (Nat.digitChar d).isDigit = true := by decide
  exact hall d h

theorem exists_toList_temporaryName (i : Nat) : ∃ ds c, (∀ d ∈ ds, Char.isDigit d = true) ∧
    c.isDigit = true ∧ (temporaryName i).toList = ".tmp".toList ++ ds ++ [c] := by
  refine ⟨[100000, 10000, 1000, 100, 10].map fun k => Nat.digitChar (i / k % 10),
    Nat.digitChar (i / 1 % 10), ?_, isDigit_digitChar (Nat.mod_lt _ (by decide)), ?_⟩
  · intro d hd
    obtain ⟨k, -, rfl⟩ := List.mem_map.1 hd
    exact isDigit_digitChar (Nat.mod_lt _ (by decide))
  · simp only [temporaryName, String.toList_append, String.toList_ofList, List.append_assoc]
    rfl

theorem isName_temporaryName (i : Nat) : Path.IsName (temporaryName i) := by
  obtain ⟨ds, c, hds, hc, hlist⟩ := exists_toList_temporaryName i
  have hchars : ∀ d ∈ (temporaryName i).toList, d ≠ '/' ∧ d ≠ '\x00' := by
    rw [hlist]
    have hdigit : ∀ d : Char, d.isDigit = true → d ≠ '/' ∧ d ≠ '\x00' := by
      intro d hd
      constructor <;>
        · rintro rfl
          cases hd
    refine List.forall_mem_append.2 ⟨List.forall_mem_append.2 ⟨by simp, ?_⟩, ?_⟩
    · exact fun d hd => hdigit d (hds d hd)
    · exact List.forall_mem_singleton.2 (hdigit c hc)
  have hlength : 5 ≤ (temporaryName i).toList.length := by
    simp only [hlist, List.length_append, List.length_singleton]
    have hfront : ".tmp".toList.length = 4 := rfl
    omega
  have hshort : ∀ s : String, s.toList.length < 5 → temporaryName i ≠ s := by
    rintro s hs rfl
    omega
  exact ⟨hshort "" (by decide), hshort "." (by decide), hshort ".." (by decide),
    fun h => (hchars _ h).1 rfl, fun h => (hchars _ h).2 rfl⟩

theorem isName_of_mem_temporaryNames (h : n ∈ temporaryNames) : Path.IsName n := by
  obtain ⟨i, -, rfl⟩ := List.mem_map.1 h
  exact isName_temporaryName i

theorem notMem_temporaryNames {c : Char} (h : n.toList.getLast? = some c)
    (hc : c.isDigit = false) : n ∉ temporaryNames := by
  intro hmem
  obtain ⟨i, -, rfl⟩ := List.mem_map.1 hmem
  obtain ⟨ds, d, -, hd, hlist⟩ := exists_toList_temporaryName i
  rw [hlist, List.getLast?_concat] at h
  rw [Option.some.inj h, hc] at hd
  cases hd

theorem append_go_notMem_temporaryNames (name : String) : name ++ ".go" ∉ temporaryNames := by
  have hlast : (name ++ ".go").toList.getLast? = some 'o' := by
    rw [String.toList_append, List.getLast?_append_of_ne_nil _ (by decide)]
    rfl
  exact notMem_temporaryNames hlast rfl

/-- A file with another name does not take the room for temporary files. -/
theorem HasRoom.put {names : List String} {dir : String} {s : Option String} {mode : Nat}
    (hnames : ∀ m ∈ names, Path.IsName m ∧ m ≠ n) (hends : Ends true (t.get? (r ++ [n])))
    (h : HasRoom names t dir) : HasRoom names (t.put (r ++ [n]) (.file s mode)) dir := by
  obtain ⟨made, hmade⟩ := h
  have hq : r ++ [n] ≠ [] := by simp
  have hkeeps := keeps_put_file hq hends s mode
  induction names with
  | nil => cases hmade
  | cons m names ih =>
    obtain ⟨⟨hm, hmn⟩, hrest⟩ := List.forall_mem_cons.1 hnames
    rw [makeTemporary] at hmade
    split at hmade
    · cases hmade
    next p hplace =>
      have hplace' := place_mono hkeeps hplace
      split at hmade
      next htaken =>
        obtain ⟨made', hmade'⟩ := ih hrest hmade
        have htaken' : ((t.put (r ++ [n]) (.file s mode)).get? p).isSome = true := by
          by_cases hp : p = r ++ [n]
          · rw [hp, get?_put t hq]
            rfl
          · rwa [get?_put_of_ne t hp]
        exact ⟨made', by rw [makeTemporary, hplace']; exact (if_pos htaken').trans hmade'⟩
      next hfree =>
        obtain ⟨-, k, d, -, hlast⟩ := of_place_join_name hm hplace
        obtain ⟨rfl, -⟩ := hlast.eq_concat ⟨hm.ne_dot, hm.ne_dots⟩ (fun h => by cases h)
        have hne : d ++ [m] ≠ r ++ [n] := fun heq =>
          hmn (List.singleton_inj.1 (List.append_inj' heq rfl).2)
        have hfree' : ¬ ((t.put (r ++ [n]) (.file s mode)).get? (d ++ [m])).isSome = true := by
          rwa [get?_put_of_ne t hne]
        exact ⟨_, by rw [makeTemporary, hplace']; exact if_neg hfree'⟩

/-! ## Writes -/

theorem hasRoom_of_write {t₁ : Tree} (hm : Path.IsName m) (hn : Path.IsName n)
    (h : t.write (Path.join (Path.join path m) n) text = (t', none))
    (hdirs : t.makeDirs (Path.join path m) = (t₁, none)) :
    HasRoom temporaryNames t₁ (Path.join path m) := by
  obtain ⟨-, t₂, p, hdirs', hroom, -⟩ := writeBy_eq_none_iff.1 h
  rw [directoryOf_join_name path hm hn] at hdirs' hroom
  obtain rfl : t₂ = t₁ := congrArg Prod.fst (hdirs'.symm.trans hdirs)
  exact hroom

theorem of_write_join (hm : Path.IsName m) (hn : Path.IsName n)
    (h : t.write (Path.join (Path.join path m) n) text = (t', none)) :
    Allowed (Path.join (Path.join path m) n) ∧ Named n ∧ ∃ t₁ k r,
      t.makeDirs (Path.join path m) = (t₁, none) ∧
      t₁.Enters linkLimit [] (Path.moves (Path.join path m)) k r ∧
      t₁.get? (r ++ [n]) ≠ some .dir ∧ t' = t₁.put (r ++ [n]) (.file (some text) usualMode) := by
  obtain ⟨t₁, q, hdirs, hplace, hdir, rfl⟩ := of_write_ok h
  rw [directoryOf_join_name path hm hn] at hdirs
  rw [dropSlashes_eq_self (Path.getLast?_join_name _ hn)] at hplace
  obtain ⟨hallowed, k, r, henters, hlast⟩ := of_place_join_name hn hplace
  obtain ⟨rfl, hnamed⟩ := hlast.eq_concat ⟨hn.ne_dot, hn.ne_dots⟩ (fun h => by cases h)
  exact ⟨hallowed, hnamed, t₁, k, r, hdirs, henters, hdir, rfl⟩

theorem makeDirs_of_isDir (h : t.find true path = .ok (p, .dir))
    (hplace : ∃ q e, t.place false (dropSlashes path) = .ok q ∧ t.get? q = some e) :
    t.makeDirs path = (t, none) := by
  have hne : path ≠ "" := (of_find_dir h).1.ne_empty
  have hisDir := isDir_of_find h
  obtain ⟨q, e, hplace, hget⟩ := hplace
  have hmake : t.makeDir path = .error .exists := by
    simp only [makeDir, hplace, hget, Option.isSome_some, if_true]
  have hmissing : t.missing (Path.ancestors path) = .ok [] := by
    rw [Path.ancestors, Path.upwards, missing]
    simp only [hne, hmake, hisDir, if_true, if_false]
  rw [makeDirs, hmissing]
  rfl

theorem makeDirs_join_of_find (hm : Path.IsName m)
    (h : t.find true (Path.join path m) = .ok (q, .dir)) :
    t.makeDirs (Path.join path m) = (t, none) := by
  obtain ⟨hallowed, -, k, henters⟩ := of_find_dir h
  refine makeDirs_of_isDir h ?_
  rw [dropSlashes_eq_self (Path.getLast?_join_name _ hm)]
  rw [Path.moves_join_name path hm] at henters
  obtain ⟨k₁, d, hfirst, hlast⟩ := of_enters_append henters
  obtain ⟨hleads, e, he⟩ := hlast.exists_entry ⟨hm.ne_dot, hm.ne_dots⟩
  exact ⟨_, e, place_join_name hm hallowed hfirst hleads, he⟩

/-- A write that is repeated changes nothing. -/
theorem write_again (hm : Path.IsName m) (hn : Path.IsName n)
    (hallowed : Allowed (Path.join (Path.join path m) n)) (hnamed : Named n)
    (hr : t.Enters linkLimit [] (Path.moves (Path.join path m)) k r)
    (hdir : t.get? r = some .dir) (hends : Ends true (t.get? (r ++ [n])))
    (hlasts : n ∉ temporaryNames) (hroom : HasRoom temporaryNames t (Path.join path m))
    (ht' : t' = t.put (r ++ [n]) (.file (some text) usualMode)) :
    t'.write (Path.join (Path.join path m) n) text = (t', none) := by
  have hq : r ++ [n] ≠ [] := by simp
  have hkeeps : Keeps t t' := ht' ▸ keeps_put_file hq hends (some text) usualMode
  have hfile : t'.get? (r ++ [n]) = some (.file (some text) usualMode) := ht' ▸ get?_put t hq _
  have hr' := hr.mono hkeeps
  have hdir' := hkeeps.get?_dir hdir
  have hdirs : t'.makeDirs (Path.join path m) = (t', none) :=
    makeDirs_join_of_find hm (find_of_enters (hallowed.of_join hm hn) hr' hdir')
  have hplace : t'.place false (Path.join (Path.join path m) n) = .ok (r ++ [n]) := by
    refine place_join_name hn hallowed hr' (.last hnamed ?_)
    rw [hfile]
    exact trivial
  have hroom' : HasRoom temporaryNames t' (Path.join path m) := by
    rw [ht']
    refine hroom.put (fun m' hm' => ⟨isName_of_mem_temporaryNames hm', ?_⟩) hends
    rintro rfl
    exact hlasts hm'
  have haccepts := accepts_join_name hn hplace (by rw [hfile]; exact nofun)
  rw [← directoryOf_join_name path hm hn] at hdirs hroom'
  exact writeBy_eq_none_iff.2 ⟨rfl, t', _, hdirs, hroom', haccepts, by rw [ht', put_put]⟩

theorem ends_of_ne {e : Option Entry} (hdir : e ≠ some .dir)
    (hlink : ∀ target, e ≠ some (.link target)) : Ends true e := by
  rcases e with _ | ⟨_ | _ | target⟩
  · exact trivial
  · exact absurd rfl hdir
  · exact trivial
  · exact absurd rfl (hlink target)

/-- Where no links are, a file that was written can be read, and can be written once more. -/
theorem of_write_join_of_linkless (hm : Path.IsName m) (hn : Path.IsName n)
    (hlasts : n ∉ temporaryNames) (hlinks : ∀ p target, t.get? p ≠ some (.link target))
    (h : t.write (Path.join (Path.join path m) n) text = (t', none)) :
    t'.readText (Path.join (Path.join path m) n) = .ok text ∧
      ∀ other, (t'.write (Path.join (Path.join path m) n) other).2 = none := by
  obtain ⟨hallowed, hnamed, t₁, k, r, hdirs, hr, hdir, rfl⟩ := of_write_join hm hn h
  have hroom := hasRoom_of_write hm hn h hdirs
  have hmore : MoreDirs t t₁ := by
    have hmade := moreDirs_makeDirs t (Path.join path m)
    rwa [hdirs] at hmade
  have hlinks₁ : ∀ p target, t₁.get? p ≠ some (.link target) :=
    fun p target hget => hlinks p target (hmore.keeps.of_get?_link hget)
  have hends : Ends true (t₁.get? (r ++ [n])) := ends_of_ne hdir (hlinks₁ _)
  have hq : r ++ [n] ≠ [] := by simp
  have hfile := get?_put t₁ hq (.file (some text) usualMode)
  constructor
  · have hr' := hr.mono (keeps_put_file hq hends (some text) usualMode)
    refine readText_eq_ok_iff.2 ⟨_, _, find_eq_ok_iff.2 ⟨?_, hfile⟩⟩
    refine place_join_name hn hallowed hr' (.last hnamed ?_)
    rw [hfile]
    exact trivial
  · have hrDir : t₁.get? r = some .dir := by
      rw [Path.moves_join_name path hm] at hr
      exact hr.get?_concat ⟨hm.ne_dot, hm.ne_dots⟩ fun _ _ _ => hlinks₁ _
    have hagain := write_again hm hn hallowed hnamed hr hrDir hends hlasts hroom
      (Eq.refl (t₁.put (r ++ [n]) (.file (some text) usualMode)))
    intro other
    obtain ⟨t₂, p, -, -, hother⟩ := write_other (congrArg Prod.snd hagain)
    rw [hother other]

end Tree
end Files
end RouteScribe
