import RouteScribe.Routing.Registry
import Mathlib.Data.List.Basic
import Mathlib.Data.List.Induction
import Mathlib.Data.List.Nodup

/-!
# RouteScribe.Proofs.Routing.Registry

Aliases are numbers: the package with number `i` has the alias number `i`, where packages are
numbered in the order of their first use.

* `aliasAt_injective`: two numbers have two aliases.
* `Indexed`: what is looked up of the entries is what they say.
* `Numbers`: the registry numbers the packages of a list of uses.
* `Numbers.register`: one more use.
-/

namespace RouteScribe
namespace Routing
namespace Registry

theorem aliasAt_injective {i j : Nat} (h : aliasAt i = aliasAt j) : i = j := by
  have hrepr : Nat.repr i = Nat.repr j := (String.append_right_inj _).1 h
  have hdigits : Nat.toDigits 10 i = Nat.toDigits 10 j := String.ofList_injective hrepr
  calc
    i = Nat.ofDigitChars 10 (Nat.toDigits 10 i) 0 := Nat.ofDigitChars_ten_toDigits.symm
    _ = Nat.ofDigitChars 10 (Nat.toDigits 10 j) 0 := by rw [hdigits]
    _ = j := Nat.ofDigitChars_ten_toDigits

/-! ## First uses -/

theorem eraseDups_concat (uses : List String) (path : String) : (uses ++ [path]).eraseDups
    = if path ∈ uses then uses.eraseDups else uses.eraseDups ++ [path] := by
  rw [List.eraseDups_append]
  by_cases h : path ∈ uses
  · simp [h, List.removeAll]
  · simp [h, List.removeAll, List.eraseDups_cons]

theorem nodup_eraseDups (uses : List String) : uses.eraseDups.Nodup := by
  induction uses using List.reverseRecOn with
  | nil => simp
  | append_singleton uses path ih =>
    rw [eraseDups_concat]
    split
    · exact ih
    next h =>
      refine List.nodup_append.2 ⟨ih, by simp, fun a ha b hb => ?_⟩
      rw [List.mem_singleton] at hb
      rintro rfl
      exact h (hb ▸ List.mem_eraseDups.1 ha)

theorem eraseDups_append_replicate {uses : List String} {path : String} (h : path ∈ uses)
    (n : Nat) : (uses ++ List.replicate n path).eraseDups = uses.eraseDups := by
  induction n with
  | zero => rw [List.replicate_zero, List.append_nil]
  | succ n ih =>
    rw [List.replicate_succ', ← List.append_assoc, eraseDups_concat,
      if_pos (List.mem_append_left _ h), ih]

/-- Whether a path is a first use depends on the first uses before it only. -/
theorem eraseDups_concat_congr {uses others : List String} (h : uses.eraseDups = others.eraseDups)
    (path : String) : (uses ++ [path]).eraseDups = (others ++ [path]).eraseDups := by
  have hmem : path ∈ uses ↔ path ∈ others := by
    rw [← List.mem_eraseDups, h, List.mem_eraseDups]
  simp only [eraseDups_concat, hmem, h]

/-- Paths keep their first uses under other names, as long as no two of them get the same. -/
theorem eraseDups_map {g : String → String} {uses : List String}
    (h : ∀ a ∈ uses, ∀ b ∈ uses, g a = g b → a = b) :
    (uses.map g).eraseDups = uses.eraseDups.map g := by
  induction uses using List.reverseRecOn with
  | nil => rfl
  | append_singleton uses path ih =>
    have huses : ∀ a ∈ uses, ∀ b ∈ uses, g a = g b → a = b := fun a ha b hb =>
      h a (List.mem_append_left _ ha) b (List.mem_append_left _ hb)
    have hmem : g path ∈ uses.map g ↔ path ∈ uses := by
      refine ⟨fun hpath => ?_, List.mem_map_of_mem⟩
      obtain ⟨a, ha, heq⟩ := List.mem_map.1 hpath
      exact h a (List.mem_append_left _ ha) path (by simp) heq ▸ ha
    rw [List.map_append, List.map_singleton, eraseDups_concat, eraseDups_concat, ih huses]
    by_cases hpath : path ∈ uses
    · rw [if_pos (hmem.2 hpath), if_pos hpath]
    · rw [if_neg (fun hg => hpath (hmem.1 hg)), if_neg hpath, List.map_append, List.map_singleton]

/-- The number of a package in the order of first uses. -/
def number (uses : List String) (path : String) : Nat := uses.eraseDups.idxOf path

theorem number_append {uses : List String} {path : String} (h : path ∈ uses) (more : List String) :
    number (uses ++ more) path = number uses path := by
  unfold number
  rw [List.eraseDups_append, List.idxOf_append_of_mem (List.mem_eraseDups.2 h)]

theorem number_concat_of_not_mem {uses : List String} {path : String} (h : path ∉ uses) :
    number (uses ++ [path]) path = uses.eraseDups.length := by
  unfold number
  rw [eraseDups_concat, if_neg h, List.idxOf_append_of_notMem fun hmem =>
    h (List.mem_eraseDups.1 hmem)]
  simp

theorem number_injective {uses : List String} {a b : String} (ha : a ∈ uses)
    (h : number uses a = number uses b) : a = b := by
  have hlt : number uses a < uses.eraseDups.length :=
    List.idxOf_lt_length_iff.2 (List.mem_eraseDups.2 ha)
  have hget : ∀ c (hc : number uses c < uses.eraseDups.length),
      uses.eraseDups[number uses c] = c := fun c hc => List.getElem_idxOf hc
  rw [← hget a hlt, ← hget b (h ▸ hlt)]
  congr 1

/-- The alias of a package after the given uses. -/
def aliasFor (uses : List String) (path : String) : String := aliasAt (number uses path)

theorem aliasFor_append {uses : List String} {path : String} (h : path ∈ uses)
    (more : List String) : aliasFor (uses ++ more) path = aliasFor uses path := by
  rw [aliasFor, number_append h, aliasFor]

theorem aliasFor_injective {uses : List String} {a b : String} (ha : a ∈ uses)
    (h : aliasFor uses a = aliasFor uses b) : a = b :=
  number_injective ha (aliasAt_injective h)

/-! ## The entries and what is looked up of them -/

/-- What is looked up of the entries is what they say. Other aliases than theirs may be taken. -/
structure Indexed (r : Registry) : Prop where
  index : ∀ path i, r.index.lookup path = some i ↔ r.entries[i]?.map (·.path) = some path
  taken : ∀ e ∈ r.entries, e.localName ∈ r.taken

theorem indexed_empty : empty.Indexed where
  index path i := by simp [empty]
  taken := nofun

namespace Indexed

variable {r : Registry} {path a : String}

theorem localName?_eq_some_iff (h : r.Indexed) :
    r.localName? path = some a ↔ ⟨path, a⟩ ∈ r.entries := by
  rw [localName?, Option.bind_eq_some_iff, List.mem_iff_getElem?]
  constructor
  · rintro ⟨i, hi, ha⟩
    obtain ⟨e, he, rfl⟩ := Option.map_eq_some_iff.1 ha
    have hpath := (h.index path i).1 hi
    rw [he] at hpath
    exact ⟨i, he.trans (by rw [← Option.some.inj hpath])⟩
  · rintro ⟨i, hi⟩
    exact ⟨i, (h.index path i).2 (by rw [hi]; rfl), by rw [hi]; rfl⟩

theorem localName?_eq_none_iff (h : r.Indexed) :
    r.localName? path = none ↔ path ∉ r.entries.map (·.path) := by
  rw [Option.eq_none_iff_forall_ne_some, List.mem_map]
  constructor
  · rintro hnone ⟨e, he, rfl⟩
    exact hnone e.localName (h.localName?_eq_some_iff.2 he)
  · exact fun hnone a ha => hnone ⟨_, h.localName?_eq_some_iff.1 ha, rfl⟩

theorem nodup_paths (h : r.Indexed) : (r.entries.map (·.path)).Nodup := by
  refine List.nodup_iff_getElem?_ne_getElem?.2 fun i j hij hj heq => ?_
  have hlt : j < r.entries.length := by simpa using hj
  have hat : r.entries[j]?.map (·.path) = some r.entries[j].path := by
    rw [List.getElem?_eq_getElem hlt]
    rfl
  rw [List.getElem?_map, List.getElem?_map] at heq
  have hi := (h.index _ i).2 (heq.trans hat)
  rw [(h.index _ j).2 hat] at hi
  exact absurd (Option.some.inj hi).symm (Nat.ne_of_lt hij)

theorem register_of_not_mem (h : r.Indexed) (hpath : path ∉ r.entries.map (·.path)) :
    r.register path = (⟨r.entries ++ [⟨path, r.fresh⟩], (path, r.size) :: r.index,
      r.fresh :: r.taken⟩, r.fresh) := by
  rw [Registry.register, h.localName?_eq_none_iff.2 hpath]

theorem register (h : r.Indexed) (path : String) : (r.register path).1.Indexed := by
  by_cases hpath : path ∈ r.entries.map (·.path)
  · obtain ⟨e, he, rfl⟩ := List.mem_map.1 hpath
    rw [register_of_localName? (h.localName?_eq_some_iff.2 he)]
    exact h
  · rw [h.register_of_not_mem hpath]
    refine ⟨fun q i => ?_, fun e he => ?_⟩
    · have hnew : r.entries[i]?.map (·.path) ≠ some path := fun hsome => by
        obtain ⟨e, he, rfl⟩ := Option.map_eq_some_iff.1 hsome
        exact hpath (List.mem_map_of_mem (List.mem_of_getElem? he))
      rw [List.lookup_cons, List.getElem?_append, size]
      by_cases hq : q = path
      · subst hq
        by_cases hi : i < r.entries.length
        · simpa [hi, Nat.ne_of_gt hi] using hnew
        · simp only [beq_self_eq_true, if_neg hi, List.getElem?_singleton]
          by_cases hlast : i = r.entries.length
          · simp [hlast]
          · have hne : i - r.entries.length ≠ 0 := by omega
            simp [Ne.symm hlast, hne]
      · have hqb : (q == path) = false := beq_eq_false_iff_ne.2 hq
        rw [hqb]
        by_cases hi : i < r.entries.length
        · simpa [hi] using h.index q i
        · have hnone : r.index.lookup q ≠ some i := fun hsome => by
            have hat := (h.index q i).1 hsome
            rw [List.getElem?_eq_none (Nat.le_of_not_lt hi)] at hat
            cases hat
          refine iff_of_false hnone fun hat => hq ?_
          rw [if_neg hi] at hat
          obtain ⟨e, he, rfl⟩ := Option.map_eq_some_iff.1 hat
          rw [List.mem_singleton.1 (List.mem_of_getElem? he)]
    · rcases List.mem_append.1 he with he | he
      · exact List.mem_cons_of_mem _ (h.taken e he)
      · rw [List.mem_singleton.1 he]
        exact List.mem_cons_self

end Indexed

/-! ## Numbers -/

/-- The package with number `i`. -/
def importAt (i : Nat) (path : String) : Import := ⟨path, aliasAt i⟩

/-- The registry holds the packages of `uses`, each once and with its number, in the order of first
use, and no other alias is taken. -/
structure Numbers (r : Registry) (uses : List String) : Prop where
  indexed : r.Indexed
  taken : ∀ a ∈ r.taken, a ∈ r.entries.map (·.localName)
  entries : r.entries = uses.eraseDups.mapIdx importAt

theorem mapIdx_importAt (uses : List String) : uses.eraseDups.mapIdx importAt
    = uses.eraseDups.map fun path => ⟨path, aliasFor uses path⟩ := by
  rw [List.mapIdx_eq_iff]
  intro i
  by_cases hi : i < uses.eraseDups.length
  · have hnumber : number uses uses.eraseDups[i] = i :=
      (nodup_eraseDups uses).idxOf_getElem i hi
    simp [hi, hnumber, importAt, aliasFor]
  · simp [hi]

theorem numbers_empty : empty.Numbers [] := ⟨indexed_empty, nofun, rfl⟩

namespace Numbers

variable {r : Registry} {uses : List String}

theorem size (h : r.Numbers uses) : r.size = uses.eraseDups.length := by
  rw [Registry.size, h.entries, List.length_mapIdx]

theorem entries_eq (h : r.Numbers uses) :
    r.entries = uses.eraseDups.map fun path => ⟨path, aliasFor uses path⟩ :=
  h.entries.trans (mapIdx_importAt uses)

theorem paths (h : r.Numbers uses) : r.entries.map (·.path) = uses.eraseDups := by
  rw [h.entries_eq, List.map_map]
  exact List.map_id _

/-- The next number is free. -/
theorem fresh (h : r.Numbers uses) : r.fresh = aliasAt r.size := by
  have hfree : aliasAt r.size ∉ r.taken := fun htaken => by
    obtain ⟨e, he, heq⟩ := List.mem_map.1 (h.taken _ htaken)
    rw [h.entries] at he
    obtain ⟨i, hi, rfl⟩ := List.mem_mapIdx.1 he
    exact absurd (aliasAt_injective heq) (Nat.ne_of_lt (h.size ▸ hi))
  unfold Registry.fresh freeFrom
  rw [if_neg (by simpa using hfree)]

theorem localName?_of_mem (h : r.Numbers uses) {path : String} (hpath : path ∈ uses) :
    r.localName? path = some (aliasFor uses path) := by
  rw [h.indexed.localName?_eq_some_iff, h.entries_eq]
  exact List.mem_map_of_mem (List.mem_eraseDups.2 hpath)

/-- Giving a package an alias is one more use of it, and the alias is that of its number. -/
theorem register (h : r.Numbers uses) (path : String) :
    (r.register path).1.Numbers (uses ++ [path]) ∧
      (r.register path).2 = aliasFor (uses ++ [path]) path := by
  have hindexed := h.indexed.register path
  by_cases hpath : path ∈ uses
  · have hsame : (uses ++ [path]).eraseDups = uses.eraseDups := by
      rw [eraseDups_concat, if_pos hpath]
    rw [register_of_localName? (h.localName?_of_mem hpath), aliasFor_append hpath]
    exact ⟨⟨h.indexed, h.taken, h.entries.trans (by rw [hsame])⟩, rfl⟩
  · have hmore : (uses ++ [path]).eraseDups = uses.eraseDups ++ [path] := by
      rw [eraseDups_concat, if_neg hpath]
    have hnew : path ∉ r.entries.map (·.path) := by rwa [h.paths, List.mem_eraseDups]
    rw [aliasFor, number_concat_of_not_mem hpath, ← h.size, ← h.fresh]
    rw [h.indexed.register_of_not_mem hnew] at hindexed ⊢
    refine ⟨⟨hindexed, fun a ha => ?_, ?_⟩, rfl⟩
    · rw [List.map_append]
      rcases List.mem_cons.1 ha with rfl | ha
      · exact List.mem_append_right _ List.mem_cons_self
      · exact List.mem_append_left _ (h.taken a ha)
    · rw [hmore, List.mapIdx_concat, ← h.entries, ← h.size, importAt, ← h.fresh]

theorem append_replicate (h : r.Numbers uses) {path : String} (hpath : path ∈ uses) (n : Nat) :
    r.Numbers (uses ++ List.replicate n path) :=
  ⟨h.indexed, h.taken, h.entries.trans (by rw [eraseDups_append_replicate hpath])⟩

end Numbers
end Registry
end Routing
end RouteScribe
