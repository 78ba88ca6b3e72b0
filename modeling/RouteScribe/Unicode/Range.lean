/-!
# RouteScribe.Unicode.Range

Sets of characters given as lists of closed code point ranges, the form in which the tables of
Unicode properties are kept.
-/

namespace RouteScribe
namespace Unicode

/-- Closed ranges of code points, in increasing order. -/
abbrev Ranges := List (Nat × Nat)

def Ranges.covers (rs : Ranges) (n : Nat) : Bool :=
  rs.any fun r => r.1 ≤ n && n ≤ r.2

theorem Ranges.covers_iff (rs : Ranges) (n : Nat) :
    rs.covers n = true ↔ ∃ r ∈ rs, r.1 ≤ n ∧ n ≤ r.2 := by
  simp [Ranges.covers]

end Unicode
end RouteScribe
