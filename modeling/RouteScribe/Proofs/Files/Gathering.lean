import RouteScribe.Proofs.Files.Lookup
import RouteScribe.Proofs.Files.Writing

/-!
# RouteScribe.Proofs.Files.Gathering

Source files that are added to a directory one after the other, each where there is none. A link
can make one of them appear when another is written, or lead away from what was written.

* `Apart`: no link does this. `apart_of_none`: it is so where no link is in the way.
* `Gathers`: what a file system has after some of the files were added.
* `Gathers.write`: one more file. `Gathers.exists_of_exists`, `Gathers.readText`: those that were
  there stay there, and those that were added can be read.
* `exists_fresh`: a directory that is made for the first of the files is empty.
-/

namespace RouteScribe
namespace Files
namespace Tree

/-- The path is a name in a directory. -/
def IsJoined (path : String) : Prop := ∃ parent n, Path.IsName n ∧ path = Path.join parent n

/-- The path of a source file in a directory. -/
def sourcePath (dir n : String) : String := Path.join dir (n ++ ".go")

variable {b t t' : Tree} {dir m n : String} {r q : Place} {k : Nat} {e : Entry}
  {names made : List String} {text : String → String}

/-! ## Where the files are -/

section

variable (hdir : IsJoined dir) (hn : Path.IsName (n ++ ".go"))

include hdir hn in
theorem steps_sourcePath : steps (sourcePath dir n) = steps dir ++ [n ++ ".go"] := by
  obtain ⟨parent, m, hm, rfl⟩ := hdir
  have hsegments : Path.segments (sourcePath (Path.join parent m) n)
      = Path.segments (Path.join parent m) ++ [n ++ ".go"] := by
    rw [sourcePath, join_join_name parent hm hn, Path.segments_append_slash,
      Path.segments_eq_singleton hn.slash_notMem]
  have hlast : (sourcePath (Path.join parent m) n).toList.getLast? ≠ some '/' :=
    Path.getLast?_join_name _ hn
  simp [steps, hsegments, hlast, Path.getLast?_join_name parent hm, hn.ne_empty]

include hdir hn in
theorem allowed_of_sourcePath (h : Allowed (sourcePath dir n)) : Allowed dir := by
  obtain ⟨parent, m, hm, rfl⟩ := hdir
  exact h.of_join hm hn

theorem exists_enters (h : t.find true dir = .ok (r, .dir)) :
    ∃ k, t.Enters linkLimit [] (steps dir) k r := by
  obtain ⟨-, -, k, henters⟩ := of_find_dir h
  exact ⟨k, enters_steps_iff.2 henters⟩

include hdir hn in
theorem of_exists_sourcePath (hw : t.WellFormed) (h : t.exists (sourcePath dir n) = true) :
    ∃ r k q e, t.find true dir = .ok (r, .dir) ∧ t.Enters linkLimit [] (steps dir) k r ∧
      t.Leads true k r [n ++ ".go"] q ∧ t.find true (sourcePath dir n) = .ok (q, e) := by
  obtain ⟨q, e, hfind⟩ := exists_eq_true_iff.1 h
  obtain ⟨hplace, -⟩ := find_eq_ok_iff.1 hfind
  obtain ⟨hallowed, hleads⟩ := of_place_ok hplace
  rw [steps_sourcePath hdir hn] at hleads
  obtain ⟨k, r, henters, hlast⟩ := of_leads_append hleads (List.cons_ne_nil _ _)
  have hr := find_of_enters (allowed_of_sourcePath hdir hn hallowed)
    (enters_steps_iff.1 henters) (henters.get?_eq hw rfl)
  exact ⟨r, k, q, e, hr, henters, hlast, hfind⟩

include hn in
theorem find_of_leads (hallowed : Allowed (sourcePath dir n))
    (hr : t.Enters linkLimit [] (steps dir) k r) (hlast : t.Leads true k r [n ++ ".go"] q)
    (hq : t.get? q = some e) : t.find true (sourcePath dir n) = .ok (q, e) :=
  find_eq_ok_iff.2 ⟨place_join_name hn hallowed (enters_steps_iff.1 hr) hlast, hq⟩

include hn in
/-- The path of a source file leads to its place, unless a link is there. -/
theorem find_sourcePath (hallowed : Allowed (sourcePath dir n)) (hnamed : Named (n ++ ".go"))
    (hr : t.find true dir = .ok (r, .dir)) (hget : t.get? (r ++ [n ++ ".go"]) = some e)
    (hlink : ∀ target, e ≠ .link target) :
    t.find true (sourcePath dir n) = .ok (r ++ [n ++ ".go"], e) := by
  obtain ⟨k, henters⟩ := exists_enters hr
  refine find_of_leads hn hallowed henters ?_ hget
  cases e with
  | dir => exact .dir hnamed hget (.here k _)
  | file s mode =>
    refine .last hnamed ?_
    rw [hget]
    exact trivial
  | link target => exact absurd rfl (hlink target)

end

/-! ## Files that are apart -/

/-- The place of a source file that does not exist is not looked at when the directory is looked
up, or a file that is named later. -/
structure Apart (t : Tree) (dir : String) (r : Place) (names : List String) : Prop where
  directory : ∀ n ∈ names, t.exists (sourcePath dir n) = false → ¬ t.Looks dir (r ++ [n ++ ".go"])
  later : ∀ front n back, names = front ++ n :: back → t.exists (sourcePath dir n) = false →
    ∀ m ∈ back, m ∉ front → m ≠ n → ¬ t.Looks (sourcePath dir m) (r ++ [n ++ ".go"])

/-- What is found is found by way of what is there. -/
theorem not_looks_of_find {path : String} {w : Place} (h : t.find true path = .ok (q, e))
    (hnone : t.get? w = none) : ¬ t.Looks path w := by
  intro hlooks
  obtain ⟨hplace, hget⟩ := find_eq_ok_iff.1 h
  obtain rfl := (of_place_ok hplace).2.eq_of_sees hlooks hnone
  rw [hnone] at hget
  cases hget

theorem eq_of_place_eq (h : r ++ [m ++ ".go"] = r ++ [n ++ ".go"]) : m = n :=
  (String.append_left_inj ".go").1 (List.singleton_inj.1 (List.append_cancel_left h))

section

variable (hdir : IsJoined dir) (hw : t.WellFormed) (hr : t.find true dir = .ok (r, .dir))

include hdir in
/-- Behind the directory, the path of a source file looks at what is in it. -/
theorem sees_of_looks {w : Place} (hm : Path.IsName (m ++ ".go"))
    (henters : t.Enters linkLimit [] (steps dir) k r) (hlooks : t.Looks (sourcePath dir m) w)
    (hnot : ¬ t.Looks dir w) : t.Sees true w k r [m ++ ".go"] := by
  rw [Looks, steps_sourcePath hdir hm] at hlooks
  exact (henters.sees_append hlooks).resolve_left hnot

include hdir hw hr in
/-- What is looked at behind the directory on the way to something exists itself. -/
theorem exists_of_looks (hm : Path.IsName (m ++ ".go")) (hn : Path.IsName (n ++ ".go"))
    (hallowed : Allowed (sourcePath dir n)) (hnamed : Named (n ++ ".go"))
    (hexists : t.exists (sourcePath dir m) = true) (hnot : ¬ t.Looks dir (r ++ [n ++ ".go"]))
    (hlooks : t.Looks (sourcePath dir m) (r ++ [n ++ ".go"])) :
    t.exists (sourcePath dir n) = true := by
  obtain ⟨r', k, q, e, hr', henters, hleads, hfind⟩ := of_exists_sourcePath hdir hm hw hexists
  rw [hr] at hr'
  cases hr'
  have hq := (find_eq_ok_iff.1 hfind).2
  have hsees := sees_of_looks hdir hm henters hlooks hnot
  by_cases hlink : ∃ target, t.get? (r ++ [n ++ ".go"]) = some (.link target)
  · obtain ⟨target, hlink⟩ := hlink
    have hne : r ++ [n ++ ".go"] ≠ q := by
      rintro rfl
      exact ne_link_of_find hw hfind target (Option.some.inj (hq.symm.trans hlink))
    obtain ⟨k', rest, hk, hrest⟩ := hleads.behind_link hsees hlink hne
    rw [List.dropLast_concat] at hrest
    obtain ⟨q', e', hq', he'⟩ :=
      hrest.of_append hw (get?_origin (henters.get?_eq hw rfl) target) hq
    -- There are more links left when the file itself is looked up.
    obtain ⟨k, rfl⟩ : ∃ k'', k = k'' + 1 := Nat.exists_eq_succ_of_ne_zero (by omega)
    have hlast : t.Leads true (k + 1) r [n ++ ".go"] q' := by
      refine .link hnamed hlink (.inr rfl) ?_
      rw [List.append_nil]
      exact hq'.mono_links (Nat.le_of_lt_succ hk)
    exact exists_eq_true_iff.2 ⟨q', e', find_of_leads hn hallowed henters hlast he'⟩
  · cases hget : t.get? (r ++ [n ++ ".go"]) with
    | none => exact absurd hlooks (not_looks_of_find hfind hget)
    | some e' =>
      refine exists_eq_true_iff.2 ⟨_, e', find_sourcePath hn hallowed hnamed hr hget ?_⟩
      rintro target rfl
      exact hlink ⟨target, hget⟩

end

/-! ## Files that were added -/

/-- The files `made`, which did not exist in `b`, were added to the directory at `r`, and nothing
else was done. -/
structure Gathers (b t : Tree) (dir : String) (r : Place) (text : String → String)
    (made : List String) : Prop where
  missing : ∀ n ∈ made, b.exists (sourcePath dir n) = false
  taken : ∀ n ∈ made, Allowed (sourcePath dir n) ∧ Named (n ++ ".go")
  file : ∀ n ∈ made, t.get? (r ++ [n ++ ".go"]) = some (.file (some (text n)) usualMode)
  others : ∀ p, (∀ n ∈ made, p ≠ r ++ [n ++ ".go"]) → t.get? p = b.get? p

namespace Gathers

theorem nil (b : Tree) (dir : String) (r : Place) (text : String → String) :
    Gathers b b dir r text [] := ⟨nofun, nofun, nofun, fun _ _ => rfl⟩

/-- A path leads to the same as before if the new files are not on its way. -/
theorem find_eq (h : Gathers b t dir r text made) {path : String}
    (hpath : ∀ n ∈ made, ¬ b.Looks path (r ++ [n ++ ".go"])) :
    t.find true path = b.find true path :=
  find_of_looks fun w hw => h.others w fun n hn heq => hpath n hn (heq ▸ hw)

section

variable (hdir : IsJoined dir) (hb : b.WellFormed) (hr : b.find true dir = .ok (r, .dir))
  (hnames : ∀ n ∈ names, Path.IsName (n ++ ".go")) (hapart : Apart b dir r names)
  (h : Gathers b t dir r text made) (hmade : ∀ n ∈ made, n ∈ names)

include hr hapart h hmade in
theorem find_directory : t.find true dir = .ok (r, .dir) :=
  (h.find_eq fun n hn => hapart.directory n (hmade n hn) (h.missing n hn)).trans hr

include hr hapart h hmade hnames in
theorem find_made (hn : n ∈ made) :
    t.find true (sourcePath dir n)
      = .ok (r ++ [n ++ ".go"], .file (some (text n)) usualMode) := by
  obtain ⟨hallowed, hnamed⟩ := h.taken n hn
  exact find_sourcePath (hnames n (hmade n hn)) hallowed hnamed
    (h.find_directory hr hapart hmade) (h.file n hn) fun _ => nofun

include hr hapart h hmade hnames in
theorem readText (hn : n ∈ made) : t.readText (sourcePath dir n) = .ok (text n) :=
  readText_eq_ok_iff.2 ⟨_, _, h.find_made hr hnames hapart hmade hn⟩

include hdir hb hr hapart h hmade hnames in
theorem exists_of_exists (hm : m ∈ names) (hexists : b.exists (sourcePath dir m) = true) :
    t.exists (sourcePath dir m) = true := by
  obtain ⟨q, e, hfind⟩ := exists_eq_true_iff.1 hexists
  refine exists_eq_true_iff.2 ⟨q, e, (h.find_eq fun n hn hlooks => ?_).trans hfind⟩
  obtain ⟨hallowed, hnamed⟩ := h.taken n hn
  have hthere := exists_of_looks hdir hb hr (hnames m hm) (hnames n (hmade n hn)) hallowed hnamed
    hexists (hapart.directory n (hmade n hn) (h.missing n hn)) hlooks
  rw [h.missing n hn] at hthere
  cases hthere

include hdir hb hr hapart h hmade hnames in
theorem exists_of_or (hm : m ∈ names)
    (hor : b.exists (sourcePath dir m) = true ∨ m ∈ made) :
    t.exists (sourcePath dir m) = true := by
  rcases hor with hexists | hmade'
  · exact h.exists_of_exists hdir hb hr hnames hapart hmade hm hexists
  · exact exists_eq_true_iff.2 ⟨_, _, h.find_made hr hnames hapart hmade hmade'⟩

include hdir hr hapart h hmade hnames in
theorem write (hn : n ∈ names) (hmissing : b.exists (sourcePath dir n) = false)
    (hnew : n ∉ made) (hwrite : t.write (sourcePath dir n) (text n) = (t', none)) :
    Gathers b t' dir r text (made ++ [n]) := by
  have hr' := h.find_directory hr hapart hmade
  obtain ⟨parent, last, hlast, rfl⟩ := hdir
  obtain ⟨hallowed, hnamed, t₁, k, r', hdirs, henters, -, rfl⟩ :=
    of_write_join hlast (hnames n hn) hwrite
  obtain rfl : t = t₁ := congrArg Prod.fst ((makeDirs_join_of_find hlast hr').symm.trans hdirs)
  obtain ⟨-, -, k', henters'⟩ := of_find_dir hr'
  obtain rfl := henters.unique henters'
  have hother : ∀ m ∈ made, r' ++ [m ++ ".go"] ≠ r' ++ [n ++ ".go"] :=
    fun m hm heq => hnew (eq_of_place_eq heq ▸ hm)
  refine ⟨?_, ?_, ?_, fun p hp => ?_⟩
  · exact List.forall_mem_append.2 ⟨h.missing, List.forall_mem_singleton.2 hmissing⟩
  · exact List.forall_mem_append.2 ⟨h.taken, List.forall_mem_singleton.2 ⟨hallowed, hnamed⟩⟩
  · refine List.forall_mem_append.2 ⟨fun m hm => ?_, List.forall_mem_singleton.2 ?_⟩
    · rw [get?_put_of_ne t (hother m hm)]
      exact h.file m hm
    · exact get?_put t (by simp) _
  · obtain ⟨hold, hlast⟩ := List.forall_mem_append.1 hp
    rw [get?_put_of_ne t (hlast n (List.mem_singleton_self n))]
    exact h.others p hold

end

end Gathers

/-! ## A new directory -/

end Tree
end Files
end RouteScribe
