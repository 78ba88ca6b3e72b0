import Mathlib.Data.List.Induction
import Mathlib.Data.List.Lex
import Mathlib.Data.List.Nodup
import Mathlib.Data.String.Basic
import RouteScribe.Files.Tree
import RouteScribe.Proofs.Text.Path

/-!
# RouteScribe.Proofs.Files.Tree

File systems that can exist, and what is below a place in them. The listing of a place is sorted,
and so the order of the table does not show in it.

* `WellFormed`: each place once, in a directory, by a name.
* `mem_below`: what a listing has.
* `pairwise_below`: its order.
* `below_congr`: it depends on the entries only.
-/

namespace RouteScribe
namespace Files
namespace Tree

variable {t t' : Tree} {p q : Place} {e : Entry}

/-- A table that a file system can have. -/
structure WellFormed (t : Tree) : Prop where
  nodup : (t.entries.map (·.1)).Nodup
  ne_nil : ∀ x ∈ t.entries, x.1 ≠ []
  closed : ∀ x ∈ t.entries, t.get? x.1.dropLast = some .dir
  named : ∀ x ∈ t.entries, ∀ n ∈ x.1, Path.IsName n

instance : DecidablePred WellFormed := fun t =>
  decidable_of_iff ((t.entries.map (·.1)).Nodup ∧ (∀ x ∈ t.entries, x.1 ≠ []) ∧
      (∀ x ∈ t.entries, t.get? x.1.dropLast = some .dir) ∧
      ∀ x ∈ t.entries, ∀ n ∈ x.1, Path.IsName n)
    ⟨fun ⟨h₁, h₂, h₃, h₄⟩ => ⟨h₁, h₂, h₃, h₄⟩, fun ⟨h₁, h₂, h₃, h₄⟩ => ⟨h₁, h₂, h₃, h₄⟩⟩

theorem mem_entries_of_get? (h : t.get? p = some e) (hp : p ≠ []) : (p, e) ∈ t.entries := by
  simp only [get?, hp, if_false, Option.map_eq_some_iff] at h
  obtain ⟨⟨q, e'⟩, hfind, rfl⟩ := h
  obtain rfl : q = p := by simpa using List.find?_some hfind
  exact List.mem_of_find?_eq_some hfind

theorem get?_of_mem_entries (hnodup : (t.entries.map (·.1)).Nodup) (hp : p ≠ [])
    (h : (p, e) ∈ t.entries) : t.get? p = some e := by
  obtain ⟨⟨q, e'⟩, hfind⟩ : ∃ x, t.entries.find? (·.1 = p) = some x := by
    rw [← Option.isSome_iff_exists, List.find?_isSome]
    exact ⟨_, h, decide_eq_true rfl⟩
  obtain rfl : q = p := by simpa using List.find?_some hfind
  have hsame : (q, e') = (q, e) :=
    List.inj_on_of_nodup_map hnodup (List.mem_of_find?_eq_some hfind) h rfl
  cases hsame
  simp only [get?, hp, if_false, hfind, Option.map_some]

theorem get?_of_perm (hnodup : (t.entries.map (·.1)).Nodup) (h : t'.entries.Perm t.entries)
    (p : Place) : t'.get? p = t.get? p := by
  have hnodup' : (t'.entries.map (·.1)).Nodup := (h.map _).nodup_iff.2 hnodup
  by_cases hp : p = []
  · rw [hp]
    rfl
  · refine Option.ext fun e => ⟨fun he => ?_, fun he => ?_⟩
    · exact get?_of_mem_entries hnodup hp (h.mem_iff.1 (mem_entries_of_get? he hp))
    · exact get?_of_mem_entries hnodup' hp (h.mem_iff.2 (mem_entries_of_get? he hp))

namespace WellFormed

theorem dir_of_isPrefix (h : t.WellFormed) (he : t.get? q = some e) (hpq : p <+: q) (hne : p ≠ q) :
    t.get? p = some .dir := by
  induction q using List.reverseRecOn generalizing e with
  | nil => exact absurd (List.prefix_nil.1 hpq) hne
  | append_singleton q n ih =>
    have hdir : t.get? q = some .dir := by
      have hclosed := h.closed _ (mem_entries_of_get? he (by simp))
      rwa [List.dropLast_concat] at hclosed
    rcases List.prefix_concat_iff.1 hpq with rfl | hpq
    · exact absurd rfl hne
    · by_cases hq : p = q
      · exact hq ▸ hdir
      · exact ih hdir hpq hq

theorem isName_of_mem (h : t.WellFormed) (he : t.get? p = some e) {n : String} (hn : n ∈ p) :
    Path.IsName n :=
  h.named _ (mem_entries_of_get? he (List.ne_nil_of_mem hn)) n hn

end WellFormed

/-! ## Listings -/

theorem placeLe_iff : placeLe p q = true ↔ p < q ∨ p = q := by
  induction p generalizing q with
  | nil =>
    cases q with
    | nil => simp [placeLe]
    | cons b q => simp [placeLe]
  | cons a p ih =>
    cases q with
    | nil => simp [placeLe]
    | cons b q =>
      simp only [placeLe, Bool.or_eq_true, Bool.and_eq_true, decide_eq_true_eq, ih,
        List.cons_lt_cons_iff, List.cons.injEq]
      tauto

theorem perm_insertEntry (x : Place × Entry) (xs : List (Place × Entry)) :
    (insertEntry x xs).Perm (x :: xs) := by
  induction xs with
  | nil => exact .refl _
  | cons y ys ih =>
    rw [insertEntry]
    split
    · exact .refl _
    · exact (ih.cons y).trans (.swap x y ys)

theorem perm_sortEntries (xs : List (Place × Entry)) : (sortEntries xs).Perm xs := by
  induction xs with
  | nil => exact .refl _
  | cons x xs ih => exact (perm_insertEntry x _).trans (ih.cons x)

/-- The places of two entries are in order. -/
def Before (x y : Place × Entry) : Prop := x.1 < y.1

theorem pairwise_insertEntry {x : Place × Entry} {xs : List (Place × Entry)}
    (hxs : xs.Pairwise Before) (hx : ∀ y ∈ xs, x.1 ≠ y.1) :
    (insertEntry x xs).Pairwise Before := by
  induction xs with
  | nil => exact List.pairwise_singleton _ _
  | cons y ys ih =>
    obtain ⟨hy, hys⟩ := List.pairwise_cons.1 hxs
    obtain ⟨hne, hnes⟩ := List.forall_mem_cons.1 hx
    rw [insertEntry]
    split
    next hle =>
      have hlt : x.1 < y.1 := (placeLe_iff.1 hle).resolve_right hne
      refine List.pairwise_cons.2 ⟨fun z hz => ?_, hxs⟩
      rcases List.mem_cons.1 hz with rfl | hz
      · exact hlt
      · exact lt_trans hlt (hy z hz)
    next hle =>
      have hlt : y.1 < x.1 := by
        rcases lt_trichotomy x.1 y.1 with h | h | h
        · exact absurd (placeLe_iff.2 (.inl h)) hle
        · exact absurd h hne
        · exact h
      refine List.pairwise_cons.2 ⟨fun z hz => ?_, ih hys hnes⟩
      rcases List.mem_cons.1 ((perm_insertEntry x ys).mem_iff.1 hz) with rfl | hz
      · exact hlt
      · exact hy z hz

theorem pairwise_sortEntries {xs : List (Place × Entry)} (h : (xs.map (·.1)).Nodup) :
    (sortEntries xs).Pairwise Before := by
  induction xs with
  | nil => exact List.Pairwise.nil
  | cons x xs ih =>
    obtain ⟨hx, hxs⟩ := List.nodup_cons.1 h
    refine pairwise_insertEntry (ih hxs) fun y hy hxy => hx ?_
    exact List.mem_map.2 ⟨y, (perm_sortEntries xs).mem_iff.1 hy, hxy.symm⟩

theorem sortEntries_congr {xs ys : List (Place × Entry)} (h : (xs.map (·.1)).Nodup)
    (hperm : ys.Perm xs) : sortEntries ys = sortEntries xs := by
  have hys : (ys.map (·.1)).Nodup := (hperm.map _).nodup_iff.2 h
  have hanti : ∀ x y, x ∈ sortEntries ys → y ∈ sortEntries xs → Before x y → Before y x →
      x = y := fun x y _ _ hxy hyx => absurd (lt_trans hxy hyx) (lt_irrefl x.1)
  exact List.Perm.eq_of_pairwise hanti (pairwise_sortEntries hys) (pairwise_sortEntries h)
    ((perm_sortEntries ys).trans (hperm.trans (perm_sortEntries xs).symm))

/-- The entries below a place, before they are sorted. -/
def unsortedBelow (t : Tree) (p : Place) : List (Place × Entry) :=
  t.entries.filterMap fun (q, e) =>
    if p.isPrefixOf q && p.length < q.length then some (q.drop p.length, e) else none

theorem of_below_some {x y : Place × Entry}
    (h : (if p.isPrefixOf x.1 && p.length < x.1.length then some (x.1.drop p.length, x.2) else none)
      = some y) : y.1 ≠ [] ∧ x = (p ++ y.1, y.2) := by
  split at h
  next hx =>
    cases h
    simp only [Bool.and_eq_true, List.isPrefixOf_iff_prefix, decide_eq_true_eq] at hx
    obtain ⟨⟨r, hr⟩, hlt⟩ := hx
    obtain ⟨q, e⟩ := x
    obtain rfl : p ++ r = q := hr
    rw [List.drop_left]
    refine ⟨?_, rfl⟩
    rintro rfl
    rw [List.append_nil] at hlt
    exact lt_irrefl _ hlt
  · cases h

theorem mem_unsortedBelow {names : Place} :
    (names, e) ∈ t.unsortedBelow p ↔ names ≠ [] ∧ (p ++ names, e) ∈ t.entries := by
  simp only [unsortedBelow, List.mem_filterMap]
  constructor
  · rintro ⟨x, hmem, hx⟩
    obtain ⟨hne, rfl⟩ := of_below_some hx
    exact ⟨hne, hmem⟩
  · rintro ⟨hne, hmem⟩
    refine ⟨_, hmem, ?_⟩
    have hpos : 0 < names.length := List.length_pos_of_ne_nil hne
    have hlt : p.length < (p ++ names).length := by
      rw [List.length_append]
      omega
    simp only [List.isPrefixOf_iff_prefix.2 (List.prefix_append p names), hlt, decide_true,
      Bool.and_self, if_true, List.drop_left]

theorem nodup_unsortedBelow (h : (t.entries.map (·.1)).Nodup) :
    ((t.unsortedBelow p).map (·.1)).Nodup := by
  rw [List.Nodup, List.pairwise_map] at h ⊢
  refine List.pairwise_filterMap.2 (h.imp fun {x x'} hne y hy y' hy' hyy => hne ?_)
  rw [(of_below_some hy).2, (of_below_some hy').2, hyy]

theorem below_eq (t : Tree) (p : Place) : t.below p = sortEntries (t.unsortedBelow p) := rfl

namespace WellFormed

theorem mem_below (h : t.WellFormed) {names : Place} :
    (names, e) ∈ t.below p ↔ names ≠ [] ∧ t.get? (p ++ names) = some e := by
  rw [below_eq, (perm_sortEntries _).mem_iff, mem_unsortedBelow]
  refine and_congr_right fun hne => ?_
  have happ : p ++ names ≠ [] := List.append_ne_nil_of_right_ne_nil p hne
  exact ⟨get?_of_mem_entries h.nodup happ, fun he => mem_entries_of_get? he happ⟩

theorem pairwise_below (h : t.WellFormed) (p : Place) : (t.below p).Pairwise Before :=
  pairwise_sortEntries (nodup_unsortedBelow h.nodup)

theorem below_congr (h : t.WellFormed) (hperm : t'.entries.Perm t.entries) (p : Place) :
    t'.below p = t.below p :=
  sortEntries_congr (nodup_unsortedBelow h.nodup) (hperm.filterMap _)

end WellFormed

end Tree
end Files
end RouteScribe
