import RouteScribe.Go.Grammar

/-!
# RouteScribe.Go.Production

The grammar as plain productions. Repetitions become symbols of their own, `xs → xs xs | x`, and
every choice becomes several productions. A step keeps what the annotations around it said.
-/

namespace RouteScribe
namespace Go

/-- Symbols of productions; `run n` is the repetition number `n`, and `whole` derives the file. -/
inductive Symbol where
  | token (t : Token)
  | phrase (p : Phrase)
  | run (n : Nat)
  | whole
  deriving DecidableEq, Repr

namespace Symbol

def tokenCount : Nat := Token.all.length

def namedCount : Nat := tokenCount + Phrase.all.length

def code : Symbol → Nat
  | token t => t.index
  | phrase p => tokenCount + p.index
  | whole => namedCount
  | run n => namedCount + 1 + n

/-- Repetitions and the start symbol appear in no tree. -/
def isHidden : Symbol → Bool
  | token t => t.isHidden
  | phrase p => p.isHidden
  | run _ => true
  | whole => true

end Symbol

/-- One symbol of a production. -/
structure Step where
  symbol : Symbol
  field : Option Field := none
  renamed : Option Kind := none
  /-- Binding strength of the production up to and with this symbol. -/
  level : Option Int := none
  side : Option Side := none
  deriving DecidableEq, Repr

/-- A production; `favour` counts in the choice between parses. -/
structure Production where
  head : Symbol
  steps : List Step
  favour : Int
  deriving DecidableEq, Repr

/-- Equality of productions. The symbols are compared by their numbers first, since they tell most
productions apart. -/
def Production.same (a b : Production) : Bool :=
  a.steps.map (·.symbol.code) == b.steps.map (·.symbol.code) && a == b

/-- Grammar expressions without repetition and choice. -/
inductive Strand where
  | symbol (s : Symbol)
  | seq (rs : List Strand)
  | field (f : Field) (r : Strand)
  | renamed (k : Kind) (r : Strand)
  | bound (n : Int) (s : Option Side) (r : Strand)
  | favour (d : Int) (r : Strand)

namespace Strand

mutual

def same : Strand → Strand → Bool
  | symbol s, symbol s' => s == s'
  | seq rs, seq rs' => sameAll rs rs'
  | field f r, field f' r' => f == f' && same r r'
  | renamed k r, renamed k' r' => k == k' && same r r'
  | bound n s r, bound n' s' r' => n == n' && s == s' && same r r'
  | favour d r, favour d' r' => d == d' && same r r'
  | _, _ => false

def sameAll : List Strand → List Strand → Bool
  | [], [] => true
  | r :: rs, r' :: rs' => same r r' && sameAll rs rs'
  | _, _ => false

end

end Strand

/-- The alternatives of each repetition met so far. -/
abbrev Runs := List (List Strand)

/-- The number of the repetition with these alternatives, which is added if it is new. -/
def Runs.intern (runs : Runs) (body : List Strand) : Nat × Runs :=
  match runs.findIdx? (Strand.sameAll body) with
  | some i => (i, runs)
  | none => (runs.length, runs ++ [body])

namespace Rule

mutual

/-- The alternatives of a rule. -/
def strands : Rule → Runs → List Strand × Runs
  | token t, runs => ([.symbol (.token t)], runs)
  | phrase p, runs => ([.symbol (.phrase p)], runs)
  | seq rs, runs =>
    let (ss, runs) := strandsSeq rs runs
    (ss.map .seq, runs)
  | choice rs, runs => strandsChoice rs runs
  | many1 r, runs =>
    let (body, runs) := strands r runs
    let (i, runs) := runs.intern body
    ([.symbol (.run i)], runs)
  | field f r, runs =>
    let (ss, runs) := strands r runs
    (ss.map (.field f), runs)
  | renamed k r, runs =>
    let (ss, runs) := strands r runs
    (ss.map (.renamed k), runs)
  | bound n s r, runs =>
    let (ss, runs) := strands r runs
    (ss.map (.bound n s), runs)
  | favour d r, runs =>
    let (ss, runs) := strands r runs
    (ss.map (.favour d), runs)

/-- The alternatives of a sequence: each alternative of its first part with each of the rest. -/
def strandsSeq : List Rule → Runs → List (List Strand) × Runs
  | [], runs => ([[]], runs)
  | r :: rs, runs =>
    let (heads, runs) := strands r runs
    let (tails, runs) := strandsSeq rs runs
    (heads.flatMap fun h => tails.map (h :: ·), runs)

def strandsChoice : List Rule → Runs → List Strand × Runs
  | [], runs => ([], runs)
  | r :: rs, runs =>
    let (ss, runs) := strands r runs
    let (ss', runs) := strandsChoice rs runs
    (ss ++ ss', runs)

end

end Rule

/-- The annotations around a place of a rule. -/
structure Context where
  field : Option Field := none
  renamed : Option Kind := none
  level : Option Int := none
  side : Option Side := none

namespace Context

def step (c : Context) (s : Symbol) : Step := ⟨s, c.field, c.renamed, c.level, c.side⟩

/-- The context inside `bound n s`. -/
def bound (c : Context) (n : Int) (s : Option Side) : Context :=
  { c with level := some n, side := s.or c.side }

/-- Outside a binding that does not reach the end of the production, its last symbol binds again
as the surroundings do. -/
def close (c : Context) (s : Option Side) : List Step → List Step
  | [] => []
  | [x] => [{ x with level := c.level, side := if s.isSome then c.side else x.side }]
  | x :: y :: xs => x :: close c s (y :: xs)

end Context

namespace Strand

mutual

/-- The symbols of a strand; `atEnd` says that nothing follows it in its production. -/
def steps : Strand → Context → Bool → List Step
  | symbol s, c, _ => [c.step s]
  | seq rs, c, atEnd => stepsAll rs c atEnd
  | field f r, c, atEnd => steps r { c with field := some f } atEnd
  | renamed k r, c, atEnd => steps r { c with renamed := some k } atEnd
  | bound n s r, c, atEnd =>
    let xs := steps r (c.bound n s) atEnd
    if atEnd then xs else c.close s xs
  | favour _ r, c, atEnd => steps r c atEnd

def stepsAll : List Strand → Context → Bool → List Step
  | [], _, _ => []
  | [r], c, atEnd => steps r c atEnd
  | r :: r' :: rs, c, atEnd => steps r c false ++ stepsAll (r' :: rs) c atEnd

end

mutual

/-- The weights given in a strand, in the order in which they are met. -/
def weights : Strand → List Int
  | symbol _ => []
  | seq rs => weightsAll rs
  | field _ r | renamed _ r | bound _ _ r => weights r
  | favour d r => d :: weights r

def weightsAll : List Strand → List Int
  | [] => []
  | r :: rs => weights r ++ weightsAll rs

end

/-- The heaviest weight given in a strand, whatever its sign. -/
def weight (r : Strand) : Int :=
  r.weights.foldl (fun w d => if w.natAbs < d.natAbs then d else w) 0

/-- The production from `head` to the strand. -/
def production (head : Symbol) (r : Strand) : Production where
  head
  steps := r.steps {} true
  favour := r.weight

end Strand

/-- The productions of all phrases from `ps` on, with the repetitions met. -/
def phraseProductions : List Phrase → Runs → List Production × Runs
  | [], runs => ([], runs)
  | p :: ps, runs =>
    let (ss, runs) := p.definition.strands runs
    let (rest, runs) := phraseProductions ps runs
    ((ss.map (Strand.production (.phrase p))).eraseDupsBy Production.same ++ rest, runs)

def runProductions (i : Nat) (body : List Strand) : List Production :=
  let self : Step := { symbol := .run i }
  ⟨.run i, [self, self], 0⟩ :: (body.map (Strand.production (.run i))).eraseDupsBy Production.same

/-- All productions of the grammar. The first derives the whole file. -/
def productions : List Production :=
  let (ofPhrases, runs) := phraseProductions Phrase.all []
  ⟨.whole, [{ symbol := .phrase .sourceFile }], 0⟩ :: ofPhrases
    ++ (runs.mapIdx runProductions).flatten

end Go
end RouteScribe
