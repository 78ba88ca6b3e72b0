import RouteScribe.Proofs.Routing.Draft
import Mathlib.Data.List.Perm.Basic

/-!
# RouteScribe.Proofs.Routing.Assembly

Routers that are built up call by call. The tables hold what the last route with a key says; which
routes with other keys, and which controllers, come in between makes no difference. No route is lost
without a report.

* `Draft.run`: the calls, and what is reported on the way.
* `holds_run`, `length_run`: what a run leaves, and what it counts.
* `tells_build`: the router that is built.
-/

namespace RouteScribe
namespace Routing

namespace Draft

/-- A call that builds up a router. -/
inductive Call where
  | controller (c : Controller)
  | route (r : Route)
  | routes (rs : List Route)

/-- The routes that a call adds. -/
def Call.added : Call → List Route
  | controller _ => []
  | route r => [r]
  | routes rs => rs

/-- The routes that calls add, in order. -/
def addedBy (calls : List Call) : List Route := calls.flatMap Call.added

/-- What a call makes of a draft, with what is reported. -/
def call (d : Draft) : Call → Draft × List Notice
  | .controller c => (d.addController c, [])
  | .route r => (d.addRoute r, d.routeNotices r)
  | .routes rs => d.addRoutes rs

/-- What calls make of a draft one after the other, with what is reported. -/
def run (d : Draft) : List Call → Draft × List Notice
  | [] => (d, [])
  | c :: cs =>
    let (next, notices) := d.call c
    let (last, more) := run next cs
    (last, notices ++ more)

variable {d d' : Draft} {routes routes' : List Route}

/-! ## Tables -/

theorem holds_call (h : d.Holds routes) (c : Call) : (d.call c).1.Holds (routes ++ c.added) := by
  cases c with
  | controller c =>
    rw [Call.added, List.append_nil]
    exact holds_addController h c
  | route r => exact holds_addRoute h r
  | routes rs => exact holds_addRoutes rs h

theorem holds_run (calls : List Call) : ∀ {d : Draft} {routes : List Route}, d.Holds routes →
    (d.run calls).1.Holds (routes ++ addedBy calls) := by
  induction calls with
  | nil =>
    intro d routes h
    rw [addedBy, List.flatMap_nil, List.append_nil]
    exact h
  | cons c cs ih =>
    intro d routes h
    rw [addedBy, List.flatMap_cons, ← List.append_assoc]
    exact ih (holds_call h c)

theorem middlewarePath_run (calls : List Call) : ∀ d : Draft,
    (d.run calls).1.middlewarePath = d.middlewarePath := by
  induction calls with
  | nil =>
    intro d
    rfl
  | cons c cs ih =>
    intro d
    have hcall : (d.call c).1.middlewarePath = d.middlewarePath := by
      cases c with
      | controller c => rfl
      | route r => rfl
      | routes rs => exact middlewarePath_addRoutes rs d
    exact (ih (d.call c).1).trans hcall

/-- Drafts hold the same tables if the last routes with each key are the same. -/
theorem Holds.tables_eq (h : d.Holds routes) (h' : d'.Holds routes')
    (hlast : ∀ key, lastRoute? routes key = lastRoute? routes' key) :
    d.verbs = d'.verbs ∧ d.middlewares = d'.middlewares :=
  ⟨h.sorted_verbs.eq_of_get? h'.sorted_verbs fun key => by rw [h.verbs, h'.verbs, hlast],
    h.sorted_middlewares.eq_of_get? h'.sorted_middlewares fun key => by
      rw [h.middlewares, h'.middlewares, hlast]⟩

/-! ## Reports -/

theorem length_addRoute (h : d.verbs.Sorted) (r : Route) :
    (d.addRoute r).verbs.length + (d.routeNotices r).length = d.verbs.length + 1 := by
  simp only [addRoute, routeNotices, h.length_insert]
  split <;> simp

theorem length_addRoutes (rs : List Route) : ∀ {d : Draft}, d.verbs.Sorted →
    (d.addRoutes rs).1.verbs.length + (d.addRoutes rs).2.length = d.verbs.length + rs.length := by
  induction rs with
  | nil =>
    intro d _
    rfl
  | cons r rs ih =>
    intro d h
    have hrest := ih (sorted_verbs_addRoute h r)
    have hfirst := length_addRoute h r
    have hcons : d.addRoutes (r :: rs)
        = (((d.addRoute r).addRoutes rs).1, d.routeNotices r ++ ((d.addRoute r).addRoutes rs).2) := rfl
    rw [hcons]
    simp only [List.length_append, List.length_cons]
    omega

theorem length_call (h : d.verbs.Sorted) (c : Call) :
    (d.call c).1.verbs.length + (d.call c).2.length = d.verbs.length + c.added.length := by
  cases c with
  | controller c => rfl
  | route r => exact length_addRoute h r
  | routes rs => exact length_addRoutes rs h

/-- All routes have rows, but for those that are reported. -/
theorem length_run (calls : List Call) : ∀ {d : Draft} {routes : List Route}, d.Holds routes →
    (d.run calls).1.verbs.length + (d.run calls).2.length
      = d.verbs.length + (addedBy calls).length := by
  induction calls with
  | nil =>
    intro d _ _
    rfl
  | cons c cs ih =>
    intro d routes h
    have hrest := ih (holds_call h c)
    have hfirst := length_call h.sorted_verbs c
    have hcons : d.run (c :: cs)
        = (((d.call c).1.run cs).1, (d.call c).2 ++ ((d.call c).1.run cs).2) := rfl
    rw [hcons, addedBy, List.flatMap_cons, ← addedBy]
    simp only [List.length_append]
    omega

theorem mem_routeNotices {r : Route} {n : Notice} (h : n ∈ d.routeNotices r) :
    n = .repeatedRoute r.key.text := by
  unfold routeNotices at h
  split at h
  · exact List.mem_singleton.1 h
  · cases h

theorem mem_notices_addRoutes (rs : List Route) : ∀ {d : Draft} {n : Notice},
    n ∈ (d.addRoutes rs).2 → ∃ r ∈ rs, n = .repeatedRoute r.key.text := by
  induction rs with
  | nil => nofun
  | cons r rs ih =>
    intro d n h
    rcases List.mem_append.1 h with h | h
    · exact ⟨r, List.mem_cons_self, mem_routeNotices h⟩
    · obtain ⟨r', hr', hn⟩ := ih h
      exact ⟨r', List.mem_cons_of_mem r hr', hn⟩

theorem mem_notices_run (calls : List Call) : ∀ {d : Draft} {n : Notice},
    n ∈ (d.run calls).2 → ∃ r ∈ addedBy calls, n = .repeatedRoute r.key.text := by
  induction calls with
  | nil => nofun
  | cons c cs ih =>
    intro d n h
    rw [addedBy, List.flatMap_cons]
    rcases List.mem_append.1 h with h | h
    · have hcall : ∃ r ∈ c.added, n = .repeatedRoute r.key.text := by
        cases c with
        | controller c => cases h
        | route r => exact ⟨r, List.mem_cons_self, mem_routeNotices h⟩
        | routes rs => exact mem_notices_addRoutes rs h
      obtain ⟨r, hr, hn⟩ := hcall
      exact ⟨r, List.mem_append_left _ hr, hn⟩
    · obtain ⟨r, hr, hn⟩ := ih h
      exact ⟨r, List.mem_append_right _ hr, hn⟩

/-! ## Order -/

/-- For each key, the calls add the same routes in the same order. -/
def Agree (calls calls' : List Call) : Prop :=
  ∀ key, (addedBy calls).filter (·.key.text = key) = (addedBy calls').filter (·.key.text = key)

theorem lastRoute?_eq (routes : List Route) (key : String) :
    lastRoute? routes key = (routes.filter (·.key.text = key)).getLast? :=
  List.getLast?_filter.symm

/-- Routes whose keys are distinct may come in any order. -/
theorem filter_eq_of_perm (h : routes.Perm routes') (hkeys : (routes.map (·.key.text)).Nodup)
    (key : String) :
    routes.filter (·.key.text = key) = routes'.filter (·.key.text = key) := by
  induction h with
  | nil => rfl
  | cons r _ ih =>
    rw [List.filter_cons, List.filter_cons, ih (List.nodup_cons.1 hkeys).2]
  | swap a b routes =>
    have hne : b.key.text ≠ a.key.text := fun heq => by
      refine (List.nodup_cons.1 hkeys).1 (List.mem_map.2 ⟨a, List.mem_cons_self, heq.symm⟩)
    by_cases ha : a.key.text = key
    · have hb : b.key.text ≠ key := fun hb => hne (hb.trans ha.symm)
      simp [ha, hb]
    · simp [List.filter_cons, ha]
  | trans h _ ih ih' =>
    exact (ih hkeys).trans (ih' ((h.map _).nodup_iff.1 hkeys))

end Draft

/-! ## The router -/

/-- The tables of the router say of each key what the last of the routes with it says. -/
structure Router.Tells (router : Router) (middlewarePath : String) (routes : List Route) : Prop where
  sorted_verbs : router.verbs.Sorted
  sorted_middlewares : router.middlewares.Sorted
  verbs : ∀ key, router.verbs.get? key = (lastRoute? routes key).map (·.verb)
  middlewares : ∀ key handlers, router.middlewares.get? key = some handlers ↔
    ∃ r names, lastRoute? routes key = some r ∧ r.middlewares = some names ∧ names ≠ [] ∧
      handlers = names.map fun name => "middleware." ++ name
  /-- A route with handlers has a verb. -/
  verb_of_handlers : ∀ row ∈ router.middlewares, ∃ verb, (row.1, verb) ∈ router.verbs
  handlers_ne_nil : ∀ row ∈ router.middlewares, row.2 ≠ []
  middlewareImport :
    router.middlewareImport = if router.middlewares = [] then none else some middlewarePath

theorem Route.handlers?_eq_some_iff {r : Route} {handlers : List String} :
    r.handlers? = some handlers ↔ ∃ names, r.middlewares = some names ∧ names ≠ [] ∧
      handlers = names.map Draft.handler := by
  rw [handlers?]
  cases r.middlewares with
  | none => simp
  | some names =>
    cases names with
    | nil => simp
    | cons name names => simp [eq_comm]

namespace Draft

variable {d : Draft} {routes : List Route}

/-- The router of a draft says what the draft holds. -/
theorem Holds.tells (h : d.Holds routes) (registry : Registry) :
    (d.build registry).Tells d.middlewarePath routes := by
  have hmiddlewares : ∀ key handlers, d.middlewares.get? key = some handlers ↔
      ∃ r names, lastRoute? routes key = some r ∧ r.middlewares = some names ∧ names ≠ [] ∧
        handlers = names.map handler := by
    intro key handlers
    rw [h.middlewares, Option.bind_eq_some_iff]
    simp only [Route.handlers?_eq_some_iff, exists_and_left]
  have hrow : ∀ row ∈ d.middlewares, ∃ r names, lastRoute? routes row.1 = some r ∧
      r.middlewares = some names ∧ names ≠ [] ∧ row.2 = names.map handler := fun row hrow =>
    (hmiddlewares _ _).1 (h.sorted_middlewares.get?_of_mem hrow)
  refine ⟨h.sorted_verbs, h.sorted_middlewares, h.verbs, hmiddlewares, fun row hmem => ?_,
    fun row hmem => ?_, ?_⟩
  · obtain ⟨r, names, hlast, -⟩ := hrow row hmem
    exact ⟨r.verb, Table.mem_of_get? (by rw [build, h.verbs, hlast]; rfl)⟩
  · obtain ⟨r, names, -, -, hnames, hhandlers⟩ := hrow row hmem
    rw [hhandlers, Ne, List.map_eq_nil_iff]
    exact hnames
  · simp only [build, List.isEmpty_iff]

/-- The router that calls build up says of each key what the last route with it says, in whatever
order routes with other keys and controllers come; and each route has a row or was reported. -/
theorem tells_build (middlewarePath : String) (calls : List Call) (registry : Registry) :
    (((empty middlewarePath).run calls).1.build registry).Tells middlewarePath (addedBy calls) ∧
    (∀ calls' registry', Agree calls calls' →
      (((empty middlewarePath).run calls').1.build registry').verbs
          = (((empty middlewarePath).run calls).1.build registry).verbs ∧
        (((empty middlewarePath).run calls').1.build registry').middlewares
          = (((empty middlewarePath).run calls).1.build registry).middlewares) ∧
    (∀ calls', ((addedBy calls).map (·.key.text)).Nodup → (addedBy calls).Perm (addedBy calls') →
      Agree calls calls') ∧
    (addedBy calls).length
      = (((empty middlewarePath).run calls).1.build registry).verbs.length
        + ((empty middlewarePath).run calls).2.length ∧
    ∀ n ∈ ((empty middlewarePath).run calls).2, ∃ r ∈ addedBy calls,
      n = .repeatedRoute r.key.text := by
  have hholds : ∀ calls, ((empty middlewarePath).run calls).1.Holds (addedBy calls) :=
    fun calls => holds_run calls (holds_empty middlewarePath)
  have hpath : ((empty middlewarePath).run calls).1.middlewarePath = middlewarePath :=
    middlewarePath_run calls _
  refine ⟨?_, fun calls' registry' hagree => ?_, fun calls' hkeys hperm => ?_, ?_,
    fun n => mem_notices_run calls⟩
  · have htells := (hholds calls).tells registry
    rwa [hpath] at htells
  · refine (hholds calls').tables_eq (hholds calls) fun key => ?_
    rw [lastRoute?_eq, lastRoute?_eq, hagree key]
  · exact filter_eq_of_perm hperm hkeys
  · have hlength := length_run calls (holds_empty middlewarePath)
    exact (hlength.trans (Nat.zero_add _)).symm

/-- Routes of which two have one key, with a controller between them. -/
def redeclared : List Call :=
  [.route ⟨⟨"m", "A", "Do"⟩, .get, some ["Auth"]⟩, .controller ⟨"A", "m", "controller0"⟩,
    .routes [⟨⟨"m", "A", "Do"⟩, .put, some []⟩, ⟨⟨"m", "A", "End"⟩, .get, some ["Log", "Log"]⟩]]

/-- The same without the controller, and with the routes in another order. -/
def reordered : List Call :=
  [.routes [⟨⟨"m", "A", "End"⟩, .get, some ["Log", "Log"]⟩, ⟨⟨"m", "A", "Do"⟩, .get, some ["Auth"]⟩,
    ⟨⟨"m", "A", "Do"⟩, .put, some []⟩]]

theorem agree_redeclared : Agree redeclared reordered := by
  intro key
  by_cases hdo : "m.A.Do" = key
  · subst hdo
    decide +kernel
  · by_cases hend : "m.A.End" = key
    · subst hend
      decide +kernel
    · simp [redeclared, reordered, addedBy, Call.added, RouteKey.text, hdo, hend]

theorem tells_redeclared :
    (((empty "w").run redeclared).1.build .empty).verbs
      = [("m.A.Do", .put), ("m.A.End", .get)] ∧
    (((empty "w").run redeclared).1.build .empty).middlewares
      = [("m.A.End", ["middleware.Log", "middleware.Log"])] ∧
    ((empty "w").run redeclared).2 = [.repeatedRoute "m.A.Do"] ∧
    (((empty "w").run redeclared).1.build .empty).Tells "w" (addedBy redeclared) ∧
    Agree redeclared reordered ∧
    (((empty "w").run reordered).1.build .empty).verbs
      = (((empty "w").run redeclared).1.build .empty).verbs := by
  have htells := tells_build "w" redeclared .empty
  exact ⟨by decide +kernel, by decide +kernel, by decide +kernel, htells.1, agree_redeclared,
    (htells.2.1 reordered .empty agree_redeclared).1⟩

end Draft
end Routing
end RouteScribe
