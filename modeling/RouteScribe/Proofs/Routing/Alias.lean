import RouteScribe.Proofs.Routing.Registry
import Mathlib.Data.List.Perm.Subperm
import Mathlib.Order.Bounds.Basic

/-!
# RouteScribe.Proofs.Routing.Alias

Packages and aliases determine each other. The package that comes as the `k`th has the alias with
number `k` and keeps it; where an alias is taken for something else, the next free one is given.

* `isLeast_freeFrom`: the search for a free alias finds the least.
* `OneToOne.register`: no alias is given twice.
* `assigns_registerAll`: the registry after any number of uses, and one more package in any registry.
-/

namespace RouteScribe
namespace Routing
namespace Registry

/-! ## The least free number -/

theorem exists_free (r : Registry) (n : Nat) :
    ∃ m, n ≤ m ∧ m < n + (r.taken.length + 1) ∧ aliasAt m ∉ r.taken := by
  by_contra hall
  have htaken : ∀ m, n ≤ m → m < n + (r.taken.length + 1) → aliasAt m ∈ r.taken :=
    fun m hle hlt => by_contra fun hfree => hall ⟨m, hle, hlt, hfree⟩
  have hnodup : ((List.range' n (r.taken.length + 1)).map aliasAt).Nodup :=
    List.Nodup.map (fun _ _ => aliasAt_injective) List.nodup_range'
  have hsubset : (List.range' n (r.taken.length + 1)).map aliasAt ⊆ r.taken := fun a ha => by
    obtain ⟨m, hm, rfl⟩ := List.mem_map.1 ha
    obtain ⟨hle, hlt⟩ := List.mem_range'_1.1 hm
    exact htaken m hle hlt
  have hle := (hnodup.subperm hsubset).length_le
  rw [List.length_map, List.length_range'] at hle
  exact absurd hle (Nat.not_succ_le_self _)

/-- If one of the numbers that are tried is free, the least free one is found. -/
theorem isLeast_freeFrom (r : Registry) : ∀ fuel n,
    (∃ m, n ≤ m ∧ m < n + fuel ∧ aliasAt m ∉ r.taken) →
    IsLeast {m | n ≤ m ∧ aliasAt m ∉ r.taken} (r.freeFrom fuel n) := by
  intro fuel
  induction fuel with
  | zero =>
    rintro n ⟨m, hle, hlt, -⟩
    exact absurd hlt (Nat.not_lt.2 hle)
  | succ fuel ih =>
    rintro n ⟨m, hle, hlt, hfree⟩
    rw [freeFrom]
    split
    next htaken =>
      have htaken : aliasAt n ∈ r.taken := List.contains_iff_mem.1 htaken
      -- The number `n` is out of the question, so the search goes on behind it.
      have hne : ∀ k, aliasAt k ∉ r.taken → k ≠ n := by
        rintro k hk rfl
        exact hk htaken
      have hmn := hne m hfree
      obtain ⟨⟨hge, hfound⟩, hleast⟩ := ih (n + 1) ⟨m, by omega, by omega, hfree⟩
      refine ⟨⟨Nat.le_of_succ_le hge, hfound⟩, fun k hk => hleast ⟨?_, hk.2⟩⟩
      exact Nat.lt_of_le_of_ne hk.1 (hne k hk.2).symm
    next hfree =>
      exact ⟨⟨Nat.le_refl n, fun h => hfree (List.contains_iff_mem.2 h)⟩, fun k hk => hk.1⟩

/-- The new alias is the least that is free, from the number of packages on. -/
theorem exists_fresh_eq (r : Registry) :
    ∃ n, IsLeast {n | r.size ≤ n ∧ aliasAt n ∉ r.taken} n ∧ r.fresh = aliasAt n :=
  ⟨_, r.isLeast_freeFrom _ _ (r.exists_free r.size), rfl⟩

/-! ## One to one -/

/-- No path and no alias has two entries. -/
structure OneToOne (r : Registry) : Prop where
  paths : (r.entries.map (·.path)).Nodup
  aliases : (r.entries.map (·.localName)).Nodup

theorem oneToOne_empty : empty.OneToOne := ⟨List.nodup_nil, List.nodup_nil⟩

/-- No alias is given twice. -/
theorem OneToOne.register {r : Registry} (h : r.OneToOne) (hr : r.Indexed) (path : String) :
    (r.register path).1.OneToOne := by
  refine ⟨(hr.register path).nodup_paths, ?_⟩
  by_cases hpath : path ∈ r.entries.map (·.path)
  · obtain ⟨e, he, rfl⟩ := List.mem_map.1 hpath
    rw [register_of_localName? (hr.localName?_eq_some_iff.2 he)]
    exact h.aliases
  · obtain ⟨n, ⟨⟨-, hfree⟩, -⟩, hfresh⟩ := r.exists_fresh_eq
    rw [hr.register_of_not_mem hpath, hfresh, List.map_append]
    refine h.aliases.append (List.nodup_singleton _) fun a ha hn => ?_
    obtain ⟨e, he, rfl⟩ := List.mem_map.1 ha
    have heq : e.localName = aliasAt n := List.mem_singleton.1 hn
    exact hfree (heq ▸ hr.taken e he)

/-! ## Any number of uses -/

/-- Registers paths one after the other. -/
def registerAll (r : Registry) (paths : List String) : Registry :=
  paths.foldl (fun r path => (r.register path).1) r

theorem Numbers.registerAll (paths : List String) : ∀ {r : Registry} {uses : List String},
    r.Numbers uses → (r.registerAll paths).Numbers (uses ++ paths) := by
  induction paths with
  | nil =>
    intro r uses h
    rw [List.append_nil]
    exact h
  | cons path paths ih =>
    intro r uses h
    rw [List.append_cons]
    exact ih (h.register path).1

theorem oneToOne_registerAll (paths : List String) : ∀ {r : Registry}, r.OneToOne → r.Indexed →
    (r.registerAll paths).OneToOne := by
  induction paths with
  | nil => exact fun h _ => h
  | cons path paths ih => exact fun h hr => ih (h.register hr path) (hr.register path)

theorem entries_prefix_registerAll (paths : List String) : ∀ r : Registry,
    r.entries <+: (r.registerAll paths).entries := by
  induction paths with
  | nil => exact fun r => List.prefix_rfl
  | cons path paths ih => exact fun r => (r.entries_prefix_register path).trans (ih _)

/-- The registry `r` is what the uses of `paths` leave. -/
structure Assigns (r : Registry) (paths : List String) : Prop where
  oneToOne : r.OneToOne
  /-- The index says where the entry of each path is. -/
  index : ∀ path i, r.index.lookup path = some i ↔ r.entries[i]?.map (·.path) = some path
  /-- No aliases are taken but those of the entries. -/
  taken : ∀ a, a ∈ r.taken ↔ a ∈ r.entries.map (·.localName)
  /-- There is one entry for each path. -/
  size : r.size = paths.eraseDups.length
  /-- Entries stay where they are. -/
  grows : ∀ more, r.entries <+: (r.registerAll more).entries
  /-- The path that comes as the `k`th has the alias with number `k`, whatever comes later, and to
  use it once more changes nothing. -/
  keeps : ∀ k path, paths.eraseDups[k]? = some path → ∀ more,
    (r.registerAll more).entries[k]? = some ⟨path, aliasAt k⟩ ∧
      (r.registerAll more).register path = (r.registerAll more, aliasAt k)

/-- The registry gives the path, which has none, the alias with number `n`, the least that is
free. -/
structure Allocates (r : Registry) (path : String) (n : Nat) : Prop where
  least : IsLeast {n | r.size ≤ n ∧ aliasAt n ∉ r.taken} n
  register : r.register path = (⟨r.entries ++ [⟨path, aliasAt n⟩], (path, r.size) :: r.index,
    aliasAt n :: r.taken⟩, aliasAt n)

theorem Numbers.keeps {r : Registry} {uses : List String} (h : r.Numbers uses) {k : Nat}
    {path : String} (hk : uses.eraseDups[k]? = some path) :
    r.entries[k]? = some ⟨path, aliasAt k⟩ ∧ r.register path = (r, aliasAt k) := by
  have hentry : r.entries[k]? = some ⟨path, aliasAt k⟩ := by
    rw [h.entries, List.getElem?_mapIdx, hk]
    rfl
  exact ⟨hentry, register_of_localName?
    (h.indexed.localName?_eq_some_iff.2 (List.mem_of_getElem? hentry))⟩

/-- A registry numbers the paths that are used in the order of their first use, once and for all;
and from any registry on, whatever aliases are taken, a new path gets the least that is free. -/
theorem assigns_registerAll (paths : List String) :
    (empty.registerAll paths).Assigns paths ∧
    ∀ (r : Registry) (path : String), r.Indexed → path ∉ r.entries.map (·.path) →
      ∃ n, r.Allocates path n ∧ (r.register path).1.Indexed ∧
        (r.OneToOne → (r.register path).1.OneToOne) := by
  have h : (empty.registerAll paths).Numbers paths := numbers_empty.registerAll paths
  refine ⟨⟨oneToOne_registerAll paths oneToOne_empty indexed_empty, h.indexed.index,
    fun a => ⟨h.taken a, fun ha => ?_⟩, h.size, fun more => entries_prefix_registerAll more _,
    fun k path hk more => ?_⟩, fun r path hr hpath => ?_⟩
  · obtain ⟨e, he, rfl⟩ := List.mem_map.1 ha
    exact h.indexed.taken e he
  · refine (h.registerAll more).keeps ?_
    obtain ⟨hlt, -⟩ := List.getElem?_eq_some_iff.1 hk
    rw [List.eraseDups_append, List.getElem?_append_left hlt, hk]
  · obtain ⟨n, hleast, hfresh⟩ := r.exists_fresh_eq
    refine ⟨n, ⟨hleast, ?_⟩, hr.register path, fun h => h.register hr path⟩
    rw [hr.register_of_not_mem hpath, hfresh]

/-- A registry in which an alias is taken that is of no package. -/
def reservedAlias : Registry :=
  ⟨[⟨"m/a", "controller0"⟩], [("m/a", 0)], ["controller0", "controller1"]⟩

theorem indexed_reservedAlias : reservedAlias.Indexed where
  index path i := by
    by_cases hpath : path = "m/a"
    · cases i <;> simp [reservedAlias, hpath]
    · have hne : (path == "m/a") = false := beq_eq_false_iff_ne.2 hpath
      cases i <;> simp [reservedAlias, List.lookup_cons, hne, Ne.symm hpath]
  taken := by decide

theorem assigns_repeatedPath :
    (empty.registerAll ["m/a", "m/b", "m/a"]).Assigns ["m/a", "m/b", "m/a"] ∧
    (empty.registerAll ["m/a", "m/b", "m/a"]).entries
      = [⟨"m/a", "controller0"⟩, ⟨"m/b", "controller1"⟩] ∧
    reservedAlias.Indexed ∧ "m/b" ∉ reservedAlias.entries.map (·.path) ∧
    (∃ n, reservedAlias.Allocates "m/b" n ∧ (reservedAlias.register "m/b").1.Indexed ∧
      (reservedAlias.OneToOne → (reservedAlias.register "m/b").1.OneToOne)) ∧
    (reservedAlias.register "m/b").2 = "controller2" := by
  have hnew : "m/b" ∉ reservedAlias.entries.map (·.path) := by decide
  exact ⟨(assigns_registerAll _).1, by decide +kernel, indexed_reservedAlias, hnew,
    (assigns_registerAll []).2 _ _ indexed_reservedAlias hnew, by decide +kernel⟩

end Registry
end Routing
end RouteScribe
