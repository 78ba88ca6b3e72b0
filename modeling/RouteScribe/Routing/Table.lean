/-!
# RouteScribe.Routing.Table

Tables with text keys, kept in the order of the keys. Texts are ordered by code points, which is
the order of their bytes.
-/

namespace RouteScribe
namespace Routing

/-- Rows with distinct keys in increasing order. -/
abbrev Table (α : Type) := List (String × α)

namespace Table

variable {α : Type}

def get? (t : Table α) (key : String) : Option α := (t.find? (·.1 = key)).map (·.2)

/-- The table with a row for `key`, in place of the one it had. -/
def insert (key : String) (value : α) : Table α → Table α
  | [] => [(key, value)]
  | r :: rs =>
    if key < r.1 then (key, value) :: r :: rs
    else if key = r.1 then (key, value) :: rs
    else r :: insert key value rs

/-- The table without a row for `key`. -/
def erase (key : String) (t : Table α) : Table α := t.filter (·.1 ≠ key)

/-- The table of rows in any order; of two rows with one key the later counts. -/
def ofList (rows : List (String × α)) : Table α := rows.foldl (fun t r => t.insert r.1 r.2) []

/-- The rows are in the order of a table. -/
def Sorted (t : Table α) : Prop := t.Pairwise (·.1 < ·.1)

instance (t : Table α) : Decidable t.Sorted :=
  inferInstanceAs (Decidable (List.Pairwise (·.1 < ·.1) t))

@[simp] theorem get?_nil (key : String) : get? ([] : Table α) key = none := rfl

theorem get?_cons (r : String × α) (t : Table α) (key : String) :
    get? (r :: t) key = if r.1 = key then some r.2 else get? t key := by
  unfold get?
  rw [List.find?_cons]
  by_cases h : r.1 = key
  · simp [h]
  · simp [h]

/-- The row inserted is the one that is found; the others stay. -/
theorem get?_insert (t : Table α) (key : String) (value : α) (k : String) :
    get? (t.insert key value) k = if key = k then some value else get? t k := by
  induction t with
  | nil => rw [insert, get?_cons]
  | cons r t ih =>
    rw [insert]
    split
    · rw [get?_cons]
    · split
      next heq =>
        rw [get?_cons, get?_cons, heq]
        by_cases h : r.1 = k
        · simp [h]
        · simp [h]
      next hne =>
        rw [get?_cons, get?_cons, ih]
        by_cases h : r.1 = k
        · have hk : key ≠ k := fun hkey => hne (hkey.trans h.symm)
          simp [h, hk]
        · simp [h]

theorem get?_erase (t : Table α) (key k : String) :
    get? (t.erase key) k = if key = k then none else get? t k := by
  induction t with
  | nil => simp [erase]
  | cons r t ih =>
    unfold erase at ih ⊢
    rw [List.filter_cons]
    by_cases hr : r.1 = key
    · have hdrop : decide (r.1 ≠ key) = false := by simp [hr]
      rw [hdrop, if_neg (by decide), ih, get?_cons, hr]
      by_cases hk : key = k
      · simp [hk]
      · simp [hk]
    · have hkeep : decide (r.1 ≠ key) = true := by simp [hr]
      rw [hkeep, if_pos rfl, get?_cons, get?_cons, ih]
      by_cases hk : r.1 = k
      · have hne : key ≠ k := fun hkey => hr (hk.trans hkey.symm)
        simp [hk, hne]
      · simp [hk]

theorem mem_insert {key : String} {value : α} {t : Table α} {r : String × α}
    (h : r ∈ insert key value t) : r = (key, value) ∨ r ∈ t := by
  induction t with
  | nil => simp [insert] at h; exact .inl h
  | cons s t ih =>
    simp only [insert] at h
    split at h
    · simpa using h
    split at h
    · rcases List.mem_cons.1 h with h | h
      · exact .inl h
      · exact .inr (List.mem_cons_of_mem _ h)
    · rcases List.mem_cons.1 h with h | h
      · exact .inr (h ▸ List.mem_cons_self)
      · rcases ih h with h | h
        · exact .inl h
        · exact .inr (List.mem_cons_of_mem _ h)

theorem Sorted.insert {t : Table α} (h : t.Sorted) (key : String) (value : α) :
    (t.insert key value).Sorted := by
  induction t with
  | nil => simp [Table.insert, Sorted]
  | cons s t ih =>
    obtain ⟨hs, ht⟩ := List.pairwise_cons.1 h
    simp only [Table.insert]
    split
    next hlt =>
      refine List.pairwise_cons.2 ⟨fun r hr => ?_, h⟩
      rcases List.mem_cons.1 hr with hr | hr
      · exact hr ▸ hlt
      · exact String.lt_trans hlt (hs r hr)
    next hlt =>
      split
      next heq => exact List.pairwise_cons.2 ⟨fun r hr => heq ▸ hs r hr, ht⟩
      next hne =>
        refine List.pairwise_cons.2 ⟨fun r hr => ?_, ih ht⟩
        rcases mem_insert hr with hr | hr
        · subst hr
          exact Std.lt_of_le_of_ne (String.not_lt.1 hlt) (Ne.symm hne)
        · exact hs r hr

/-- Keys in front of the first row are in no row. -/
theorem get?_eq_none_of_lt {t : Table α} {key : String} (h : ∀ r ∈ t, key < r.1) :
    get? t key = none := by
  induction t with
  | nil => rfl
  | cons r t ih =>
    obtain ⟨hr, ht⟩ := List.forall_mem_cons.1 h
    have hne : r.1 ≠ key := fun heq => String.lt_irrefl key (heq ▸ hr)
    rw [get?_cons, if_neg hne, ih ht]

theorem mem_of_get? {t : Table α} {key : String} {value : α} (h : get? t key = some value) :
    (key, value) ∈ t := by
  obtain ⟨r, hr, rfl⟩ := Option.map_eq_some_iff.1 h
  have hkey := List.find?_some hr
  rw [decide_eq_true_eq] at hkey
  exact hkey ▸ List.mem_of_find?_eq_some hr

/-- A row is what is found at its key. -/
theorem Sorted.get?_of_mem {t : Table α} (h : t.Sorted) {r : String × α} (hr : r ∈ t) :
    get? t r.1 = some r.2 := by
  induction t with
  | nil => cases hr
  | cons s t ih =>
    obtain ⟨hs, ht⟩ := List.pairwise_cons.1 h
    rw [get?_cons]
    rcases List.mem_cons.1 hr with rfl | hr
    · rw [if_pos rfl]
    · have hne : s.1 ≠ r.1 := fun heq => String.lt_irrefl s.1 (heq ▸ hs r hr)
      rw [if_neg hne, ih ht hr]

/-- A row is new unless there was one with its key. -/
theorem Sorted.length_insert {t : Table α} (h : t.Sorted) (key : String) (value : α) :
    (t.insert key value).length = t.length + if (get? t key).isSome then 0 else 1 := by
  induction t with
  | nil => rfl
  | cons r t ih =>
    obtain ⟨hr, ht⟩ := List.pairwise_cons.1 h
    rw [Table.insert]
    split
    next hlt =>
      have hnone : get? (r :: t) key = none := get?_eq_none_of_lt
        (List.forall_mem_cons.2 ⟨hlt, fun s hs => String.lt_trans hlt (hr s hs)⟩)
      rw [hnone]
      rfl
    · split
      next heq =>
        rw [get?_cons, if_pos heq.symm]
        rfl
      next hne =>
        rw [List.length_cons, ih ht, List.length_cons, get?_cons, if_neg (Ne.symm hne)]
        exact Nat.add_right_comm _ _ _

/-- Tables that hold the same at each key are the same. -/
theorem Sorted.eq_of_get? {t t' : Table α} (h : t.Sorted) (h' : t'.Sorted)
    (hget : ∀ key, get? t key = get? t' key) : t = t' := by
  induction t generalizing t' with
  | nil =>
    cases t' with
    | nil => rfl
    | cons s t' =>
      have hs := hget s.1
      rw [get?_nil, get?_cons, if_pos rfl] at hs
      cases hs
  | cons r t ih =>
    obtain ⟨hr, ht⟩ := List.pairwise_cons.1 h
    cases t' with
    | nil =>
      have hr := hget r.1
      rw [get?_nil, get?_cons, if_pos rfl] at hr
      cases hr
    | cons s t' =>
      obtain ⟨hs, ht'⟩ := List.pairwise_cons.1 h'
      have hnot : ∀ {a b : String × α} {u v : Table α}, (∀ c ∈ v, b.1 < c.1) →
          (∀ key, get? (a :: u) key = get? (b :: v) key) → ¬ a.1 < b.1 := by
        intro a b u v hv heq hlt
        have hnone : get? (b :: v) a.1 = none := get?_eq_none_of_lt
          (List.forall_mem_cons.2 ⟨hlt, fun c hc => String.lt_trans hlt (hv c hc)⟩)
        rw [← heq, get?_cons, if_pos rfl] at hnone
        cases hnone
      have hkey : r.1 = s.1 := String.le_antisymm
        (String.not_lt.1 (hnot hr fun key => (hget key).symm)) (String.not_lt.1 (hnot hs hget))
      have hvalue := hget r.1
      rw [get?_cons, if_pos rfl, get?_cons, if_pos hkey.symm] at hvalue
      have hrow : r = s := Prod.ext hkey (Option.some.inj hvalue)
      subst hrow
      rw [ih ht ht' fun key => ?_]
      by_cases hkey : r.1 = key
      · subst hkey
        rw [get?_eq_none_of_lt hr, get?_eq_none_of_lt hs]
      · have heq := hget key
        rwa [get?_cons, if_neg hkey, get?_cons, if_neg hkey] at heq

theorem Sorted.erase {t : Table α} (h : t.Sorted) (key : String) : (t.erase key).Sorted :=
  List.Pairwise.filter _ h

end Table

end Routing
end RouteScribe
