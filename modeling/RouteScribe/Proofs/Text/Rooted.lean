import Mathlib.Data.List.Infix
import RouteScribe.Proofs.Project.Layout

/-!
# RouteScribe.Proofs.Text.Rooted

Paths that go down from the root by names alone. Such a path is the same as its names: it is read,
made absolute, joined and taken apart name by name.

* `rooted`: the path of names.
* `rooted_injective`: other names, another path.
* `ancestors_rooted`: the directories on the way, the last one first.
-/

namespace RouteScribe
namespace Path

variable {names init : List String} {n : String}

/-- The path that the names lead along from the root. -/
def rooted (names : List String) : String := "/" ++ ofSegments names

theorem rooted_eq_foldl (h : ∀ n ∈ names, IsName n) : rooted names = names.foldl join "/" := by
  cases names with
  | nil => rfl
  | cons n ns =>
    have habs := isAbsolute_ofSegments_names (List.cons_ne_nil n ns) h
    have hslash : "/".toList.getLast? = some '/' := by decide
    rw [← join_ofSegments (List.cons_ne_nil n ns) h, join, habs, hslash]
    simp [rooted]

theorem components_rooted (h : ∀ n ∈ names, IsName n) :
    components (rooted names) = .root :: names.map .name := components_ofSegments h

theorem moves_rooted (h : ∀ n ∈ names, IsName n) : moves (rooted names) = names := by
  have hslash : moves "/" = [] := by decide
  rw [rooted_eq_foldl h, moves_foldl_join h, hslash, List.nil_append]

theorem isAbsolute_rooted (names : List String) : isAbsolute (rooted names) = true := by
  simp [rooted, isAbsolute, String.toList_append]

theorem rooted_ne_empty (names : List String) : rooted names ≠ "" := by
  intro h
  have habs := isAbsolute_rooted names
  rw [h] at habs
  cases habs

theorem map_name_injective : Function.Injective (List.map Component.name) :=
  List.map_injective_iff.2 fun _ _ h => Component.name.inj h

theorem rooted_injective {names' : List String} (h : ∀ n ∈ names, IsName n)
    (h' : ∀ n ∈ names', IsName n) (heq : rooted names = rooted names') : names = names' := by
  have hcomponents := congrArg components heq
  rw [components_rooted h, components_rooted h', List.cons.injEq] at hcomponents
  exact map_name_injective hcomponents.2

theorem rooted_concat (h : ∀ m ∈ init ++ [n], IsName m) :
    rooted (init ++ [n]) = join (rooted init) n := by
  rw [rooted_eq_foldl h, rooted_eq_foldl fun m hm => h m (List.mem_append_left _ hm),
    List.foldl_append]
  rfl

/-! ## Made absolute -/

theorem getLast?_rooted (h : ∀ m ∈ init ++ [n], IsName m) :
    (rooted (init ++ [n])).toList.getLast? ≠ some '/' := by
  rw [rooted_concat h]
  exact getLast?_join_name _ (h n (by simp))

theorem takeWhile_rooted (h : ∀ n ∈ names, IsName n) :
    (rooted names).toList.takeWhile (· = '/') = ['/'] := by
  have htext : (rooted names).toList = '/' :: (ofSegments names).toList := by
    rw [rooted, String.toList_append]
    rfl
  have hrest : (ofSegments names).toList.takeWhile (· = '/') = [] := by
    cases names with
    | nil => rfl
    | cons n ns =>
      have habs := isAbsolute_ofSegments_names (List.cons_ne_nil n ns) h
      simp only [isAbsolute, decide_eq_false_iff_not] at habs
      cases hcs : (ofSegments (n :: ns)).toList with
      | nil => rfl
      | cons c cs =>
        rw [hcs, List.head?_cons, Option.some.injEq] at habs
        exact List.takeWhile_cons_of_neg (by simpa using habs)
  rw [htext, List.takeWhile_cons_of_pos (by decide), hrest]

theorem absolute_rooted (here : String) (h : ∀ n ∈ names, IsName n) :
    absolute here (rooted names) = rooted names := by
  have hkept : (components (rooted names)).filter (· ≠ .current) = .root :: names.map .name := by
    rw [components_rooted h]
    exact List.filter_eq_self.2 (by simp)
  have hrest : ((.root :: names.map .name : List Component)).filter (· ≠ .root)
      = names.map .name := by
    rw [List.filter_cons_of_neg (by simp)]
    exact List.filter_eq_self.2 (by simp)
  have htexts : (names.map Component.name).foldl (fun a c => join a c.text) "/" = rooted names := by
    rw [List.foldl_map, rooted_eq_foldl h]
    rfl
  have hend : (if (rooted names).toList.getLast? = some '/' then join (rooted names) ""
      else rooted names) = rooted names := by
    rcases List.eq_nil_or_concat names with rfl | ⟨init, n, rfl⟩
    · decide
    · rw [List.concat_eq_append] at h ⊢
      rw [if_neg (getLast?_rooted h)]
  simp only [absolute, rooted_ne_empty, hkept, takeWhile_rooted h, isAbsolute_rooted, hrest]
  exact htexts.symm ▸ hend

/-! ## Upwards -/

theorem parent?_rooted_nil : parent? (rooted []) = none := by decide

theorem parent?_rooted_concat (h : ∀ m ∈ init ++ [n], IsName m) :
    parent? (rooted (init ++ [n])) = some (rooted init) := by
  have hn : IsName n := h n (by simp)
  rw [rooted_concat h]
  rcases List.eq_nil_or_concat init with rfl | ⟨front, m, rfl⟩
  · have hjoin : join (rooted []) n = "" ++ "/" ++ n := by
      have hslash : (rooted []).toList.getLast? = some '/' := by decide
      rw [join, hn.isAbsolute_eq, hslash]
      simp [rooted, ofSegments]
    have hsegments : segments ("" ++ "/" ++ n) = ["", n] := by
      rw [segments_append_slash, segments_eq_singleton hn.slash_notMem]
      rfl
    have habs : isAbsolute ("" ++ "/" ++ n) = true := by
      simp [isAbsolute, String.toList_append]
    have hdrop : dropComponent? false [n] = some [] := dropComponent?_append_name false [] hn
    simp only [hjoin, parent?, habs, hsegments, List.tail_cons, hdrop]
    rfl
  · rw [List.concat_eq_append] at h ⊢
    have hm : ∀ k ∈ front ++ [m], IsName k := fun k hk => h k (List.mem_append_left _ hk)
    rw [rooted_concat hm]
    exact parent?_join_name _ (hm m (by simp)) hn

theorem inits_concat (init : List String) (n : String) :
    (init ++ [n]).inits = init.inits ++ [init ++ [n]] := by
  induction init with
  | nil => rfl
  | cons m init ih =>
    rw [List.cons_append, List.inits_cons, ih, List.inits_cons, List.map_append]
    rfl

theorem upwards_rooted (h : ∀ n ∈ names, IsName n) {fuel : Nat} (hfuel : names.length < fuel) :
    upwards fuel (rooted names) = names.inits.reverse.map rooted := by
  induction names using List.reverseRecOn generalizing fuel with
  | nil =>
    obtain ⟨fuel, rfl⟩ := Nat.exists_eq_add_one_of_ne_zero (Nat.ne_of_gt hfuel)
    rw [upwards, parent?_rooted_nil]
    rfl
  | append_singleton init n ih =>
    obtain ⟨fuel, rfl⟩ := Nat.exists_eq_add_one_of_ne_zero (Nat.ne_of_gt (Nat.zero_lt_of_lt hfuel))
    have hinit : ∀ m ∈ init, IsName m := fun m hm => h m (List.mem_append_left _ hm)
    rw [List.length_append, List.length_singleton] at hfuel
    rw [upwards, parent?_rooted_concat h]
    dsimp only
    rw [ih hinit (Nat.lt_of_succ_lt_succ hfuel), inits_concat, List.reverse_concat, List.map_cons]

theorem length_le_rooted (h : ∀ n ∈ names, IsName n) : names.length ≤ (rooted names).length := by
  rw [rooted_eq_foldl h]
  have hall : ∀ path : String, path.length + names.length ≤ (names.foldl join path).length := by
    induction names with
    | nil => exact fun path => Nat.le_refl _
    | cons n ns ih =>
      intro path
      obtain ⟨hn, hns⟩ := List.forall_mem_cons.1 h
      have hpos : 0 < n.length := by
        rw [Nat.pos_iff_ne_zero, ← String.length_toList]
        exact fun h0 => hn.ne_empty (String.toList_eq_nil_iff.1 (List.eq_nil_of_length_eq_zero h0))
      have hjoin : path.length + n.length ≤ (join path n).length := by
        unfold join
        rw [hn.isAbsolute_eq, if_neg (by decide)]
        split <;> simp only [String.length_append] <;> omega
      have hrest := ih hns (join path n)
      rw [List.length_cons, List.foldl_cons]
      omega
  have := hall "/"
  omega

/-- The directories on the way to the last name, from there up to the root. -/
theorem ancestors_rooted (h : ∀ n ∈ names, IsName n) :
    ancestors (rooted names) = names.inits.reverse.map rooted :=
  upwards_rooted h (Nat.lt_succ_of_le (length_le_rooted h))

end Path
end RouteScribe
