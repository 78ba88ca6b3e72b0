/-!
# RouteScribe.Go.Pattern

Regular patterns over characters, matched by partial derivatives: after each character a list of
patterns is left, any of which the rest of the match may follow. Used for the tokens whose
spelling is not fixed.
-/

namespace RouteScribe
namespace Go

inductive Pattern where
  | nothing
  | one (f : Char → Bool)
  | seq (a b : Pattern)
  | either (a b : Pattern)
  | many (a : Pattern)

namespace Pattern

def nullable : Pattern → Bool
  | nothing => true
  | one _ => false
  | seq a b => a.nullable && b.nullable
  | either a b => a.nullable || b.nullable
  | many _ => true

/-- `a` and then `b`, where nothing is left of an exhausted `a`. -/
def before : Pattern → Pattern → Pattern
  | nothing, b => b
  | a, b => seq a b

/-- What may be left of the pattern behind the character `c`. -/
def after (c : Char) : Pattern → List Pattern
  | nothing => []
  | one f => if f c then [nothing] else []
  | seq a b =>
    let left := (a.after c).map (·.before b)
    if a.nullable then left ++ b.after c else left
  | either a b => a.after c ++ b.after c
  | many a => (a.after c).map (·.before (many a))

/-- A run over `cs` with the patterns `ps` left, `n` characters in. The answer has the length of
the longest match so far and the number of characters read before no match was possible. -/
def run : List Pattern → List Char → Nat → Option Nat → Option Nat × Nat
  | ps, [], n, best => (if ps.any nullable then some n else best, n)
  | ps, c :: cs, n, best =>
    let best := if ps.any nullable then some n else best
    match ps.flatMap (after c) with
    | [] => (best, n)
    | qs => run qs cs (n + 1) best

/-- Length of the longest match at the front of `cs`. -/
def longest (p : Pattern) (cs : List Char) : Option Nat := (run [p] cs 0 none).1

/-- How many characters of `cs` begin some match. -/
def reach (p : Pattern) (cs : List Char) : Nat := (run [p] cs 0 none).2

def char (c : Char) : Pattern := one (· == c)

def oneOf (cs : List Char) : Pattern := one (cs.contains ·)

def opt (a : Pattern) : Pattern := either a nothing

def chain : List Pattern → Pattern
  | [] => nothing
  | [a] => a
  | a :: as => seq a (chain as)

/-- Any of the patterns; the list has members. -/
def choice : List Pattern → Pattern
  | [] => one fun _ => false
  | [a] => a
  | a :: as => either a (choice as)

def times : Nat → Pattern → Pattern
  | 0, _ => nothing
  | 1, a => a
  | n + 2, a => seq a (times (n + 1) a)

end Pattern

end Go
end RouteScribe
