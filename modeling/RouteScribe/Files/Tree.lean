/-!
# RouteScribe.Files.Tree

A file system as a value: a table from places to what stands there. A place is the list of names
that lead to it from the root, which is always a directory.
-/

namespace RouteScribe
namespace Files

abbrev Place := List String

inductive Entry where
  | dir
  /-- A file with permission bits. The text is absent if the bytes are not UTF-8. -/
  | file (text : Option String) (mode : Nat)
  /-- A link, with the path that it holds. -/
  | link (target : String)
  deriving DecidableEq, Repr

/-- The entries of a file system, each place once. -/
structure Tree where
  entries : List (Place × Entry)
  deriving DecidableEq, Repr

namespace Tree

def empty : Tree := ⟨[]⟩

def get? (t : Tree) (p : Place) : Option Entry :=
  if p = [] then some .dir else (t.entries.find? (·.1 = p)).map (·.2)

/-- The tree without what stands at `p` and below. -/
def erase (t : Tree) (p : Place) : Tree := ⟨t.entries.filter fun e => !p.isPrefixOf e.1⟩

/-- The tree with `e` at `p`, in place of what stands there. -/
def put (t : Tree) (p : Place) (e : Entry) : Tree :=
  ⟨(p, e) :: t.entries.filter (·.1 ≠ p)⟩

/-- The order of places in which a directory comes before what is in it, and the entries of a
directory are in the order of their names. -/
def placeLe : Place → Place → Bool
  | [], _ => true
  | _ :: _, [] => false
  | a :: p, b :: q => a < b || (a = b && placeLe p q)

/-- Puts an entry before those that do not come before it. -/
def insertEntry (e : Place × Entry) : List (Place × Entry) → List (Place × Entry)
  | [] => [e]
  | d :: ds => if placeLe e.1 d.1 then e :: d :: ds else d :: insertEntry e ds

def sortEntries (es : List (Place × Entry)) : List (Place × Entry) := es.foldr insertEntry []

/-- The entries below a place, with the names that lead to them from there, in order. -/
def below (t : Tree) (p : Place) : List (Place × Entry) :=
  sortEntries (t.entries.filterMap fun (q, e) =>
    if p.isPrefixOf q && p.length < q.length then some (q.drop p.length, e) else none)

theorem get?_put (t : Tree) {p : Place} (h : p ≠ []) (e : Entry) : (t.put p e).get? p = some e := by
  simp [get?, put, h]

theorem get?_put_of_ne (t : Tree) {p q : Place} (h : q ≠ p) (e : Entry) :
    (t.put p e).get? q = t.get? q := by
  have h' : ¬ p = q := fun hp => h hp.symm
  by_cases hq : q = []
  · simp [get?, hq]
  · simp only [get?, put, hq, if_false, List.find?_cons]
    simp only [h', decide_false, List.find?_filter]
    congr 1
    apply congrArg (fun f => List.find? f t.entries)
    funext x
    by_cases hx : x.1 = q
    · simp [hx, h]
    · simp [hx]

end Tree

end Files
end RouteScribe
