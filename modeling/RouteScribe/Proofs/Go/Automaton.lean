import RouteScribe.Go.Automaton

/-!
# RouteScribe.Proofs.Go.Automaton

What the states of the automaton say. An item of a state behind the symbol `x` has `x` as the last
symbol read, and the item with one symbol less is in the state before, unless nothing else was
read. A reduction is made only by an item that has read all symbols of its production.

* `of_mem_goto`: where the items of a state come from.
* `fits_goto`: items agree with their productions.
* `exists_item_of_reduce`, `exists_item_of_accept`: what stands behind an action.
-/

namespace RouteScribe
namespace Go

theorem Token.index_lt (t : Token) : t.index < Symbol.tokenCount := by
  cases t <;> decide

theorem Token.index_injective {s t : Token} (h : s.index = t.index) : s = t := by
  have hs : Token.all[s.index]? = some s := by cases s <;> rfl
  have ht : Token.all[t.index]? = some t := by cases t <;> rfl
  rw [h, ht] at hs
  exact (Option.some.inj hs).symm

theorem Phrase.index_lt (p : Phrase) : p.index < Phrase.all.length := by
  cases p <;> decide

theorem Phrase.index_injective {p q : Phrase} (h : p.index = q.index) : p = q := by
  have hp : Phrase.all[p.index]? = some p := by cases p <;> rfl
  have hq : Phrase.all[q.index]? = some q := by cases q <;> rfl
  rw [h, hq] at hp
  exact (Option.some.inj hp).symm

theorem Symbol.code_injective {x y : Symbol} (h : x.code = y.code) : x = y := by
  cases x with
  | token s =>
    have hs := Token.index_lt s
    cases y with
    | token t => exact congrArg _ (Token.index_injective h)
    | phrase q | run n | whole => simp only [Symbol.code, Symbol.namedCount] at h; omega
  | phrase p =>
    have hp := Phrase.index_lt p
    cases y with
    | token t => have ht := Token.index_lt t; simp only [Symbol.code] at h; omega
    | phrase q =>
      have : p.index = q.index := by simp only [Symbol.code] at h; omega
      exact congrArg _ (Phrase.index_injective this)
    | run n | whole => simp only [Symbol.code, Symbol.namedCount] at h; omega
  | run m =>
    cases y with
    | token t => have ht := Token.index_lt t; simp only [Symbol.code, Symbol.namedCount] at h; omega
    | phrase q => have hq := Phrase.index_lt q; simp only [Symbol.code, Symbol.namedCount] at h; omega
    | run n =>
      have : m = n := by simp only [Symbol.code] at h; omega
      exact congrArg _ this
    | whole => simp only [Symbol.code] at h; omega
  | whole =>
    cases y with
    | token t => have ht := Token.index_lt t; simp only [Symbol.code, Symbol.namedCount] at h; omega
    | phrase q => have hq := Phrase.index_lt q; simp only [Symbol.code, Symbol.namedCount] at h; omega
    | run n => simp only [Symbol.code] at h; omega
    | whole => rfl

/-- What an item says of its production is right. -/
def Item.Fits (g : Tables) (i : Item) : Prop :=
  ∃ p, g.productions[i.production]? = some p ∧ i.dot ≤ p.steps.length ∧
    i.rest = (Tables.codes p).drop i.dot

/-- All items of a state fit their productions. -/
def State.Fits (g : Tables) (s : State) : Prop := ∀ i ∈ s.items, i.Fits g

namespace Tables

/-- The tables agree with the productions. -/
structure Lawful (g : Tables) : Prop where
  whole : g.productions[0]? = some ⟨.whole, [{ symbol := .phrase .sourceFile }], 0⟩
  opens : ∀ {x : Nat} {o : Opening}, o ∈ g.beginning[x]?.getD [] →
    o.production ≠ 0 ∧ ∃ p, g.productions[o.production]? = some p ∧ codes p = x :: o.rest

theorem mem_beginningWith {ps : List (Production × Nat)} {x : Nat} {o : Opening}
    (h : o ∈ beginningWith ps x) : ∃ p, (p, o.production) ∈ ps ∧ codes p = x :: o.rest := by
  obtain ⟨⟨p, i⟩, hmem, ho⟩ := List.mem_filterMap.1 h
  dsimp only at ho
  cases hc : codes p with
  | nil => simp [hc] at ho
  | cons y rest =>
    simp only [hc, Option.ite_none_right_eq_some, Option.some.injEq] at ho
    obtain ⟨rfl, rfl⟩ := ho
    exact ⟨p, hmem, hc⟩

theorem opens_ofProductions {ps : List Production} {x : Nat} {o : Opening}
    (h : o ∈ (ofProductions ps).beginning[x]?.getD []) :
    o.production ≠ 0 ∧
      ∃ p, (ofProductions ps).productions[o.production]? = some p ∧ codes p = x :: o.rest := by
  simp only [ofProductions, List.getElem?_toArray, List.getElem?_map] at h
  cases hx : (List.range (symbolCount ps))[x]? with
  | none => simp [hx] at h
  | some y =>
    obtain ⟨hlt, rfl⟩ := List.getElem?_eq_some_iff.1 hx
    simp only [hx, Option.map_some, Option.getD_some, List.getElem_range] at h
    obtain ⟨p, hmem, hcodes⟩ := mem_beginningWith h
    cases ps with
    | nil => simp at hmem
    | cons q ps =>
      rw [List.drop_one, List.zipIdx_cons, List.tail_cons,
        List.mk_mem_zipIdx_iff_le_and_getElem?_sub] at hmem
      obtain ⟨hle, hget⟩ := hmem
      refine ⟨by omega, p, ?_, hcodes⟩
      obtain ⟨k, hk⟩ : ∃ k, o.production = k + 1 := ⟨o.production - 1, by omega⟩
      simpa [ofProductions, hk] using hget

theorem lawful_goTables : goTables.Lawful where
  whole := by simp [goTables, ofProductions, Go.productions]
  opens := opens_ofProductions

variable {g : Tables} {s : State} {x : Symbol} {i : Item}

theorem past?_eq_some {n : Nat} {j : Item} (h : j.past? n = some i) :
    j.rest = n :: i.rest ∧ i.production = j.production ∧ i.dot = j.dot + 1 ∧
      i.ahead = j.ahead := by
  unfold Item.past? at h
  split at h
  · cases h
  next y rest hr =>
    simp only [Option.ite_none_right_eq_some, Option.some.injEq] at h
    obtain ⟨rfl, rfl⟩ := h
    exact ⟨hr, rfl, rfl, rfl⟩

theorem of_mem_goto (hg : g.Lawful) (h : i ∈ (g.goto s x).items) :
    (∃ j ∈ s.items, j.past? x.code = some i) ∨
      (i.dot = 1 ∧ i.production ≠ 0 ∧
        ∃ p, g.productions[i.production]? = some p ∧ codes p = x.code :: i.rest) := by
  simp only [goto, List.mem_append, List.mem_filterMap] at h
  rcases h with ⟨j, hj, hp⟩ | ⟨o, ho, hi⟩
  · exact .inl ⟨j, hj, hp⟩
  · split at hi
    · cases hi
    next f _ =>
      cases hi
      obtain ⟨hne, p, hp, hc⟩ := hg.opens ho
      exact .inr ⟨rfl, hne, p, hp, hc⟩

theorem dot_pos_of_mem_goto (hg : g.Lawful) (h : i ∈ (g.goto s x).items) : 0 < i.dot := by
  rcases of_mem_goto hg h with ⟨j, _, hp⟩ | ⟨hd, _⟩
  · have := (past?_eq_some hp).2.2.1
    omega
  · omega

theorem fits_goto (hg : g.Lawful) (hs : s.Fits g) : (g.goto s x).Fits g := by
  intro i hi
  rcases of_mem_goto hg hi with ⟨j, hj, hp⟩ | ⟨hd, _, p, hp, hc⟩
  · obtain ⟨p, hget, hle, hrest⟩ := hs j hj
    obtain ⟨hr, hprod, hdot, _⟩ := past?_eq_some hp
    rw [hr] at hrest
    have hlen : j.dot < (codes p).length := by
      refine Nat.lt_of_not_le fun hge => ?_
      rw [List.drop_eq_nil_of_le hge] at hrest
      cases hrest
    refine ⟨p, hprod ▸ hget, by simp [codes] at hlen; omega, ?_⟩
    rw [List.drop_eq_getElem_cons hlen] at hrest
    rw [hdot]
    exact (List.cons.inj hrest).2
  · refine ⟨p, hp, ?_, by rw [hd, hc, List.drop_succ_cons, List.drop_zero]⟩
    have : (codes p).length = i.rest.length + 1 := by rw [hc, List.length_cons]
    simp only [codes, List.length_map] at this
    omega

/-- The last symbol that an item behind `x` has read is `x`; the item without it is in the state
before, unless it was the first. -/
theorem read_of_mem_goto (hg : g.Lawful) (hs : s.Fits g) (h : i ∈ (g.goto s x).items) :
    ∃ p, g.productions[i.production]? = some p ∧ (codes p)[i.dot - 1]? = some x.code ∧
      (i.dot = 1 ∧ i.production ≠ 0 ∨
        ∃ j ∈ s.items, j.production = i.production ∧ j.dot + 1 = i.dot) := by
  rcases of_mem_goto hg h with ⟨j, hj, hp⟩ | ⟨hd, hne, p, hp, hc⟩
  · obtain ⟨p, hget, _, hrest⟩ := hs j hj
    obtain ⟨hr, hprod, hdot, _⟩ := past?_eq_some hp
    refine ⟨p, hprod ▸ hget, ?_, .inr ⟨j, hj, hprod.symm, hdot.symm⟩⟩
    rw [hdot, Nat.add_sub_cancel, ← List.head?_drop, ← hrest, hr, List.head?_cons]
  · exact ⟨p, hp, by rw [hd, hc]; rfl, .inl ⟨hd, hne⟩⟩

theorem fits_lost : State.lost.Fits g := by
  intro i hi
  cases hi

theorem fits_start (hg : g.Lawful) : g.start.Fits g := by
  have hwhole : Item.Fits g ⟨0, 0, [(Symbol.phrase .sourceFile).code], TokenSet.single .eof⟩ :=
    ⟨_, hg.whole, Nat.zero_le _, rfl⟩
  intro i hi
  unfold start at hi
  split at hi
  next e he =>
    rcases List.mem_cons.1 hi with rfl | hi
    · exact hwhole
    · obtain ⟨hlt, hp, _⟩ := Array.findIdx?_eq_some_iff_getElem.1 he
      rw [List.mem_singleton.1 hi]
      refine ⟨g.productions[e], Array.getElem?_eq_getElem hlt, Nat.zero_le _, ?_⟩
      simp only [Bool.and_eq_true, List.isEmpty_iff] at hp
      simp [codes, hp.2]
  · rw [List.mem_singleton.1 hi]
    exact hwhole

theorem mem_of_mem_strongest {is : List Item} (h : i ∈ g.strongest is) : i ∈ is := by
  unfold strongest at h
  split at h
  · exact h
  · exact h
  · exact (List.mem_filter.1 (List.mem_mergeSort.1 h)).1

theorem of_mem_actions {t : Token} {a : Action} (h : a ∈ g.actions s t) :
    (∃ r, a = .shift r) ∨ ∃ i ∈ s.items, i.rest = [] ∧ a = i.completion := by
  have hdone : ∀ a ∈ (g.strongest (s.items.filter fun i => i.rest.isEmpty && i.ahead.has t)).map
      Item.completion, ∃ i ∈ s.items, i.rest = [] ∧ a = i.completion := by
    intro a ha
    obtain ⟨i, hi, rfl⟩ := List.mem_map.1 ha
    obtain ⟨hmem, hc⟩ := List.mem_filter.1 (mem_of_mem_strongest hi)
    simp only [Bool.and_eq_true, List.isEmpty_iff] at hc
    exact ⟨i, hmem, hc.1, rfl⟩
  have hsplit : ∀ b : Bool, a ∈ (g.strongest (s.items.filter fun i =>
      i.rest.isEmpty && i.ahead.has t)).map Item.completion ++ [.shift b] →
      (∃ r, a = .shift r) ∨ ∃ i ∈ s.items, i.rest = [] ∧ a = i.completion := by
    intro b hb
    rcases List.mem_append.1 hb with hb | hb
    · exact .inr (hdone a hb)
    · exact .inl ⟨b, List.mem_singleton.1 hb⟩
  have hsettled : ∀ d midway, a ∈ actions.settled g d
      (g.strongest (s.items.filter fun i => i.rest.isEmpty && i.ahead.has t)) midway →
      (∃ r, a = .shift r) ∨ ∃ i ∈ s.items, i.rest = [] ∧ a = i.completion := by
    intro d midway ha
    unfold actions.settled at ha
    simp only at ha
    split at ha
    · exact .inl ⟨false, List.mem_singleton.1 ha⟩
    split at ha
    · exact .inr (hdone a ha)
    split at ha
    · exact .inr (hdone a ha)
    split at ha
    · exact .inl ⟨false, List.mem_singleton.1 ha⟩
    · exact hsplit false ha
  unfold actions at h
  simp only at h
  split at h
  · exact .inr (hdone a h)
  · exact .inl ⟨false, List.mem_singleton.1 h⟩
  · split at h
    · split at h
      · exact hsplit true h
      · exact hsettled _ _ h
    · exact hsettled _ _ h

theorem exists_item_of_reduce {t : Token} {n : Nat} (h : .reduce n ∈ g.actions s t) :
    ∃ i ∈ s.items, i.rest = [] ∧ i.production = n := by
  rcases of_mem_actions h with ⟨r, hr⟩ | ⟨i, hi, hrest, ha⟩
  · cases hr
  · refine ⟨i, hi, hrest, ?_⟩
    unfold Item.completion at ha
    split at ha
    · cases ha
    · exact (Action.reduce.inj ha).symm

theorem exists_item_of_accept {t : Token} (h : .accept ∈ g.actions s t) :
    ∃ i ∈ s.items, i.rest = [] ∧ i.production = 0 := by
  rcases of_mem_actions h with ⟨r, hr⟩ | ⟨i, hi, hrest, ha⟩
  · cases hr
  · refine ⟨i, hi, hrest, ?_⟩
    unfold Item.completion at ha
    split at ha
    · assumption
    · cases ha

end Tables
end Go
end RouteScribe
