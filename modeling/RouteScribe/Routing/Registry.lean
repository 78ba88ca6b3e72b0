/-!
# RouteScribe.Routing.Registry

Aliases for packages. Controller packages tend to have the same name, so each import path gets an
alias of its own, in the order in which the paths come.
-/

namespace RouteScribe
namespace Routing

/-- A package and the alias under which it is imported. -/
structure Import where
  path : String
  localName : String
  deriving DecidableEq, Repr

/-- The packages that have an alias, in the order in which they came, and what is looked up of
them. -/
structure Registry where
  entries : List Import
  /-- The place of each path among the entries. -/
  index : List (String × Nat)
  /-- The aliases that no further package gets: those of the entries, and maybe others. -/
  taken : List String
  deriving DecidableEq, Repr, Inhabited

namespace Registry

def empty : Registry := ⟨[], [], []⟩

def size (r : Registry) : Nat := r.entries.length

def isEmpty (r : Registry) : Bool := r.entries.isEmpty

def aliasAt (n : Nat) : String := "controller" ++ toString n

/-- The alias of a package, if it has one. -/
def localName? (r : Registry) (path : String) : Option String :=
  (r.index.lookup path).bind fun i => r.entries[i]?.map (·.localName)

/-- The first number from `n` on whose alias is free; `fuel` numbers are tried. -/
def freeFrom (r : Registry) : Nat → Nat → Nat
  | 0, n => n
  | fuel + 1, n => if r.taken.contains (aliasAt n) then freeFrom r fuel (n + 1) else n

/-- The alias for a package that has none. The numbers begin at that of the packages; one more
than there are aliases taken is enough. -/
def fresh (r : Registry) : String := aliasAt (r.freeFrom (r.taken.length + 1) r.size)

/-- Gives a package an alias, unless it has one. -/
def register (r : Registry) (path : String) : Registry × String :=
  match r.localName? path with
  | some a => (r, a)
  | none =>
    (⟨r.entries ++ [⟨path, r.fresh⟩], (path, r.size) :: r.index, r.fresh :: r.taken⟩, r.fresh)

theorem register_of_localName? {r : Registry} {path a : String} (h : r.localName? path = some a) :
    r.register path = (r, a) := by
  simp [register, h]

theorem localName?_register (r : Registry) (path : String) :
    (r.register path).1.localName? path = some (r.register path).2 := by
  unfold register
  split
  · assumption
  · simp [localName?, size]

/-- A package that comes a second time changes nothing. -/
theorem register_again (r : Registry) (path : String) :
    (r.register path).1.register path = r.register path :=
  register_of_localName? (localName?_register r path)

/-- No package loses its alias or its place. -/
theorem entries_prefix_register (r : Registry) (path : String) :
    r.entries <+: (r.register path).1.entries := by
  unfold register
  split
  · exact List.prefix_rfl
  · exact List.prefix_append r.entries _

end Registry

end Routing
end RouteScribe
