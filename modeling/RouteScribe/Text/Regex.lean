/-!
# RouteScribe.Text.Regex

Regular expressions with groups. A text can often be matched in several ways; the first counts, in
this order: the left alternative before the right one, and more or fewer repetitions first as the
expression says.
-/

namespace RouteScribe
namespace Text

/-- Regular expressions. Only single characters are repeated. -/
inductive Regex where
  | nothing
  | one (f : Char → Bool)
  | seq (a b : Regex)
  | either (a b : Regex)
  /-- As many characters as possible. -/
  | many (f : Char → Bool)
  /-- As few characters as possible. -/
  | few (f : Char → Bool)
  /-- What `a` matches is the group with number `n`. -/
  | group (n : Nat) (a : Regex)
  /-- The end of the text. -/
  | stop

namespace Regex

/-- What was matched in each group, the last group first. -/
abbrev Groups := List (Nat × List Char)

section

variable {α : Type}

/-- Tries `k` behind as many characters as possible, then behind fewer. -/
def runMany (f : Char → Bool) (k : List Char → Option α) : List Char → Option α
  | [] => k []
  | c :: cs => if f c then (runMany f k cs).orElse fun _ => k (c :: cs) else k (c :: cs)

/-- Tries `k` at once, then behind more and more characters. -/
def runFew (f : Char → Bool) (k : List Char → Option α) : List Char → Option α
  | [] => k []
  | c :: cs => (k (c :: cs)).orElse fun _ => if f c then runFew f k cs else none

/-- What `k` makes of the first match at the front of a text that it accepts. -/
def run : Regex → (Groups → List Char → Option α) → Groups → List Char → Option α
  | nothing, k, gs, cs => k gs cs
  | one _, _, _, [] => none
  | one f, k, gs, c :: cs => if f c then k gs cs else none
  | seq a b, k, gs, cs => run a (run b k) gs cs
  | either a b, k, gs, cs => (run a k gs cs).orElse fun _ => run b k gs cs
  | many f, k, gs, cs => runMany f (k gs) cs
  | few f, k, gs, cs => runFew f (k gs) cs
  | group n a, k, gs, cs =>
    run a (fun gs rest => k ((n, cs.take (cs.length - rest.length)) :: gs) rest) gs cs
  | stop, k, gs, cs => if cs.isEmpty then k gs cs else none

end

/-- The groups of the first match at the front of a text. -/
def groups? (r : Regex) (cs : List Char) : Option Groups := r.run (fun gs _ => some gs) [] cs

/-- The given characters. -/
def text (cs : List Char) : Regex := cs.foldr (fun c r => seq (one (· == c)) r) nothing

/-- One character or more, as many as possible. -/
def oneOrMore (f : Char → Bool) : Regex := seq (one f) (many f)

/-- The expression, or nothing if that does not match. -/
def opt (a : Regex) : Regex := either a nothing

/-- All expressions one after the other. -/
def chain (rs : List Regex) : Regex := rs.foldr seq nothing

end Regex

end Text
end RouteScribe
