import RouteScribe.Routing.Router

/-!
# RouteScribe.Proofs.Routing.Draft

What the tables of a router hold: for each key what the last route with that key says.

* `lastRoute?`: the last route with a key.
* `Draft.Holds`: the tables are those of a list of routes.
* `holds_addRoutes`: adding routes at the end.
-/

namespace RouteScribe
namespace Routing

/-- The last route with the key. -/
def lastRoute? (routes : List Route) (key : String) : Option Route :=
  routes.reverse.find? (·.key.text = key)

/-- The handlers of a route, if it has any, as a router refers to them. -/
def Route.handlers? (r : Route) : Option (List String) :=
  match r.middlewares.getD [] with
  | [] => none
  | names => some (names.map Draft.handler)

theorem lastRoute?_concat (routes : List Route) (r : Route) (key : String) :
    lastRoute? (routes ++ [r]) key = if r.key.text = key then some r else lastRoute? routes key := by
  unfold lastRoute?
  rw [List.reverse_concat, List.find?_cons]
  by_cases h : r.key.text = key
  · simp [h]
  · simp [h]

namespace Draft

/-- The tables of a draft hold for each key what the last of the routes says. -/
structure Holds (d : Draft) (routes : List Route) : Prop where
  sorted_verbs : d.verbs.Sorted
  sorted_middlewares : d.middlewares.Sorted
  verbs : ∀ key, d.verbs.get? key = (lastRoute? routes key).map (·.verb)
  middlewares : ∀ key, d.middlewares.get? key = (lastRoute? routes key).bind Route.handlers?

variable {d : Draft} {routes : List Route}

theorem holds_empty (path : String) : (empty path).Holds [] where
  sorted_verbs := List.Pairwise.nil
  sorted_middlewares := List.Pairwise.nil
  verbs _ := rfl
  middlewares _ := rfl

theorem holds_addController (h : d.Holds routes) (c : Controller) :
    (d.addController c).Holds routes :=
  ⟨h.sorted_verbs, h.sorted_middlewares, h.verbs, h.middlewares⟩

theorem holds_addRoute (h : d.Holds routes) (r : Route) : (d.addRoute r).Holds (routes ++ [r]) where
  sorted_verbs := sorted_verbs_addRoute h.sorted_verbs r
  sorted_middlewares := sorted_middlewares_addRoute h.sorted_middlewares r
  verbs key := by
    simp only [addRoute]
    rw [Table.get?_insert, lastRoute?_concat, h.verbs key]
    by_cases hk : r.key.text = key
    · rw [if_pos hk, if_pos hk]
      rfl
    · rw [if_neg hk, if_neg hk]
  middlewares key := by
    have hhandlers : (d.addRoute r).middlewares.get? key
        = if r.key.text = key then r.handlers? else d.middlewares.get? key := by
      simp only [addRoute, Route.handlers?]
      cases r.middlewares.getD [] with
      | nil => exact Table.get?_erase _ _ _
      | cons name names => exact Table.get?_insert _ _ _ _
    rw [hhandlers, lastRoute?_concat, h.middlewares key]
    by_cases hk : r.key.text = key
    · rw [if_pos hk, if_pos hk]
      rfl
    · rw [if_neg hk, if_neg hk]

theorem holds_addRoutes : ∀ (rs : List Route) {d : Draft} {routes : List Route},
    d.Holds routes → (d.addRoutes rs).1.Holds (routes ++ rs) := by
  intro rs
  induction rs with
  | nil =>
    intro d routes h
    rw [List.append_nil]
    exact h
  | cons r rs ih =>
    intro d routes h
    rw [List.append_cons]
    exact ih (holds_addRoute h r)

theorem middlewarePath_addRoutes (rs : List Route) : ∀ d : Draft,
    (d.addRoutes rs).1.middlewarePath = d.middlewarePath := by
  induction rs with
  | nil =>
    intro d
    rfl
  | cons r rs ih =>
    intro d
    exact ih (d.addRoute r)

end Draft
end Routing
end RouteScribe
