import RouteScribe.Go.Search
import RouteScribe.Proofs.Go.Lexeme

/-!
# RouteScribe.Proofs.Go.Word

How a parse reads the words of a text: names, keywords, marks, comments and string literals. What
it takes for a word depends on the tokens that the state admits and on one character behind the
word.

* `Pattern.run_many`: a repetition takes all it can.
* `Lexeme.best?_of_longest`: the longest candidate wins.
* `Word.read_eq`: a word that the state admits is read.
-/

namespace RouteScribe
namespace Go

/-- The characters that names begin with. -/
def isNameStart (c : Char) : Bool := c == '_' || Unicode.isIdentifierStart c

theorem isNameChar_of_isNameStart {c : Char} (h : isNameStart c = true) : isNameChar c = true := by
  rcases Bool.or_eq_true_iff.1 h with h | h
  · exact Bool.or_eq_true_iff.2 (.inl h)
  · exact Bool.or_eq_true_iff.2 (.inr (Unicode.isIdentifierContinue_of_start h))

theorem isDigit_eq_false_of_isNameStart {c : Char} (h : isNameStart c = true) :
    c.isDigit = false := by
  refine Bool.eq_false_iff.2 fun hd => ?_
  have hrange : 48 ≤ c.toNat ∧ c.toNat ≤ 57 := by
    simpa [Char.isDigit, UInt32.le_iff_toNat_le] using hd
  rcases Bool.or_eq_true_iff.1 h with h | h
  · rw [eq_of_beq h] at hrange
    exact absurd hrange (by decide)
  · have hlt : c.toNat < 0x80 := by omega
    rw [Unicode.isIdentifierStart, if_pos hlt] at h
    have hlow {d : Char} (hd : d.toNat ≤ c.toNat) : d.toNat ≤ 57 := Nat.le_trans hd hrange.2
    rcases Bool.or_eq_true_iff.1 h with h | h
    · exact absurd (hlow (of_decide_eq_true h).1) (by decide)
    · exact absurd (hlow (of_decide_eq_true (Bool.and_eq_true_iff.1 h).1)) (by decide)

namespace Pattern

/-- What the pattern can begin with satisfies `f`. -/
def Opens (f : Char → Bool) : Pattern → Prop
  | nothing => True
  | one h => ∀ c, h c = true → f c = true
  | seq a b => a.Opens f ∧ (a.nullable = true → b.Opens f)
  | either a b => a.Opens f ∧ b.Opens f
  | many a => a.Opens f

variable {f : Char → Bool} {c d : Char}

theorem after_eq_nil {p : Pattern} (hp : p.Opens f) (hc : f c = false) : p.after c = [] := by
  induction p with
  | nothing => rfl
  | one h =>
    have hnot : h c = false := Bool.eq_false_iff.2 fun hh => by
      rw [hp c hh] at hc
      cases hc
    rw [after, hnot]
    rfl
  | seq a b iha ihb =>
    rw [after, iha hp.1]
    by_cases hn : a.nullable = true
    · rw [if_pos hn, ihb (hp.2 hn)]
      rfl
    · rw [if_neg hn]
      rfl
  | either a b iha ihb =>
    rw [after, iha hp.1, ihb hp.2]
    rfl
  | many a ih =>
    rw [after, ih hp]
    rfl

theorem longest_eq_none {p : Pattern} (hn : p.nullable = false) (h : p.after c = [])
    (cs : List Char) : p.longest (c :: cs) = none := by
  simp [longest, run, hn, h]

theorem run_many (hd : f d = false) (cs : List Char) : ∀ {us : List Char} {n : Nat}
    {best : Option Nat}, (∀ c ∈ us, f c = true) →
    run [many (one f)] (us ++ d :: cs) n best = (some (n + us.length), n + us.length) := by
  intro us
  induction us with
  | nil =>
    intro n best _
    simp [run, nullable, after, hd]
  | cons c us ih =>
    intro n best hall
    obtain ⟨hc, hus⟩ := List.forall_mem_cons.1 hall
    have hstep : run [many (one f)] (c :: us ++ d :: cs) n best
        = run [many (one f)] (us ++ d :: cs) (n + 1) (some n) := by
      simp [run, nullable, after, hc, before]
    rw [hstep, ih hus, List.length_cons]
    simp [Nat.add_comm, Nat.add_left_comm]

end Pattern

namespace Lexeme

/-- A token that may come, and the length of its match. -/
def Candidate (admitted : TokenSet) (cs : List Char) (t : Token) (n : Nat) : Prop :=
  admitted.has t = true ∧
    ((t ∈ Token.punctuation ∧ t.spelling.isPrefixOf cs = true ∧ n = t.spelling.length) ∨
      ∃ p, (t, p) ∈ Token.patterned ∧ p.longest cs = some n)

/-- All tokens that are tried, with the lengths of their matches. -/
def trials (admitted : TokenSet) (cs : List Char) : List (Token × Option Nat) :=
  (Token.punctuation.map fun t =>
    (t, if admitted.has t && t.spelling.isPrefixOf cs then some t.spelling.length else none))
  ++ Token.patterned.map fun q => (q.1, if admitted.has q.1 then q.2.longest cs else none)

/-- The longer of a match and a trial. -/
def pick (b : Option (Token × Nat)) (c : Token × Option Nat) : Option (Token × Nat) :=
  match c.2 with
  | some n => longer b c.1 n
  | none => b

variable {admitted : TokenSet} {cs : List Char} {t : Token} {n : Nat}

theorem best?_eq_foldl (admitted : TokenSet) (cs : List Char) :
    best? admitted cs = (trials admitted cs).foldl pick none := by
  have hfixed : ∀ (b : Option (Token × Nat)) (t : Token),
      pick b (t, if admitted.has t && t.spelling.isPrefixOf cs then some t.spelling.length else none)
        = if admitted.has t && t.spelling.isPrefixOf cs then longer b t t.spelling.length else b := by
    intro b t
    unfold pick
    split <;> split <;> simp_all
  have hpattern : ∀ (b : Option (Token × Nat)) (q : Token × Pattern),
      pick b (q.1, if admitted.has q.1 then q.2.longest cs else none)
        = if admitted.has q.1 then
            match q.2.longest cs with
            | some n => longer b q.1 n
            | none => b
          else b := by
    intro b q
    unfold pick
    split <;> split <;> simp_all
  simp only [trials, List.foldl_append, List.foldl_map, hfixed, hpattern]
  rfl

theorem candidate_of_mem_trials (h : (t, some n) ∈ trials admitted cs) :
    Candidate admitted cs t n := by
  rcases List.mem_append.1 h with h | h
  · obtain ⟨u, hu, heq⟩ := List.mem_map.1 h
    cases hcond : admitted.has u && u.spelling.isPrefixOf cs with
    | false => simp [hcond] at heq
    | true =>
      rw [hcond] at heq
      cases heq
      obtain ⟨hadmitted, hfront⟩ := Bool.and_eq_true_iff.1 hcond
      exact ⟨hadmitted, .inl ⟨hu, hfront, rfl⟩⟩
  · obtain ⟨q, hq, heq⟩ := List.mem_map.1 h
    cases hadmitted : admitted.has q.1 with
    | false => simp [hadmitted] at heq
    | true =>
      simp only [hadmitted, if_true, Prod.mk.injEq] at heq
      obtain ⟨rfl, hlongest⟩ := heq
      exact ⟨hadmitted, .inr ⟨q.2, hq, hlongest⟩⟩

theorem mem_trials_of_candidate (h : Candidate admitted cs t n) :
    (t, some n) ∈ trials admitted cs := by
  obtain ⟨hadmitted, ⟨ht, hfront, rfl⟩ | ⟨p, hp, hlongest⟩⟩ := h
  · exact List.mem_append_left _ (List.mem_map.2 ⟨t, ht, by simp [hadmitted, hfront]⟩)
  · exact List.mem_append_right _ (List.mem_map.2 ⟨(t, p), hp, by simp [hadmitted, hlongest]⟩)

theorem foldl_pick_of_best {l : List (Token × Option Nat)}
    (hl : ∀ c ∈ l, ∀ k, c.2 = some k → k ≤ n) :
    l.foldl pick (some (t, n)) = some (t, n) := by
  induction l with
  | nil => rfl
  | cons c l ih =>
    obtain ⟨hc, hrest⟩ := List.forall_mem_cons.1 hl
    have hpick : pick (some (t, n)) c = some (t, n) := by
      unfold pick
      split
      next k hk => rw [longer, if_neg (Nat.not_lt.2 (hc k hk))]
      · rfl
    rw [List.foldl_cons, hpick]
    exact ih hrest

theorem foldl_pick {l : List (Token × Option Nat)} (hmem : (t, some n) ∈ l)
    (hl : ∀ c ∈ l, ∀ k, c.2 = some k → c.1 = t ∧ k = n ∨ k < n) :
    ∀ {b : Option (Token × Nat)}, (∀ r, b = some r → r.2 < n) → l.foldl pick b = some (t, n) := by
  induction l with
  | nil => cases hmem
  | cons c l ih =>
    intro b hb
    obtain ⟨hc, hrest⟩ := List.forall_mem_cons.1 hl
    have hle : ∀ c ∈ l, ∀ k, c.2 = some k → k ≤ n := by
      intro c' hc' k hk
      rcases hrest c' hc' k hk with ⟨-, rfl⟩ | hlt
      · exact Nat.le_refl k
      · exact Nat.le_of_lt hlt
    have hlonger : ∀ u, longer b u n = some (u, n) := by
      intro u
      unfold longer
      split
      · rfl
      next m => rw [if_pos (hb _ rfl)]
    rw [List.foldl_cons]
    cases hc2 : c.2 with
    | none =>
      have hpick : pick b c = b := by rw [pick, hc2]
      rw [hpick]
      refine ih ?_ hrest hb
      rcases List.mem_cons.1 hmem with rfl | hmem
      · cases hc2
      · exact hmem
    | some k =>
      have hpick : pick b c = longer b c.1 k := by rw [pick, hc2]
      rw [hpick]
      rcases hc k hc2 with ⟨rfl, rfl⟩ | hlt
      · rw [hlonger]
        exact foldl_pick_of_best hle
      · refine ih ?_ hrest fun r hr => ?_
        · rcases List.mem_cons.1 hmem with rfl | hmem
          · cases hc2
            omega
          · exact hmem
        · rcases longer_eq_some hr with hr | rfl
          · exact hb r hr
          · exact hlt

/-- The longest candidate wins, if there is only one. -/
theorem best?_of_longest (h : Candidate admitted cs t n)
    (hall : ∀ u k, Candidate admitted cs u k → u = t ∧ k = n ∨ k < n) :
    best? admitted cs = some (t, n) := by
  rw [best?_eq_foldl]
  refine foldl_pick (mem_trials_of_candidate h) ?_ nofun
  rintro ⟨u, o⟩ hc k rfl
  exact hall u k (candidate_of_mem_trials hc)

/-- The characters that literals and comments begin with. -/
def isLiteralStart (c : Char) : Bool := c.isDigit || c == '.' || c == '\'' || c == '/'

theorem isLiteralStart_eq_false_of_isNameStart {c : Char} (h : isNameStart c = true) :
    isLiteralStart c = false := by
  have hne : ∀ d, isNameStart d = false → (c == d) = false := by
    intro d hd
    rw [beq_eq_false_iff_ne]
    rintro rfl
    rw [hd] at h
    cases h
  rw [isLiteralStart, isDigit_eq_false_of_isNameStart h, hne '.' (by decide), hne '\'' (by decide),
    hne '/' (by decide)]
  rfl

section

open Token

theorem opens_digits {f : Char → Bool} (h : ∀ c, f c = true → isLiteralStart c = true) :
    (digits f).Opens isLiteralStart := ⟨h, fun hn => by cases hn⟩

theorem isLiteralStart_of_isDigit {c : Char} (h : c.isDigit = true) : isLiteralStart c = true := by
  simp [isLiteralStart, h]

theorem opens_decimalDigits : decimalDigits.Opens isLiteralStart :=
  opens_digits fun _ => isLiteralStart_of_isDigit

theorem opens_char {c : Char} (h : isLiteralStart c = true) :
    (Pattern.char c).Opens isLiteralStart := by
  intro d hd
  rw [eq_of_beq hd]
  exact h

theorem opens_intPattern : intPattern.Opens isLiteralStart := by
  have hzero := opens_char (c := '0') (by decide)
  refine ⟨⟨hzero, nofun⟩, hzero, ⟨fun c hc => ?_, nofun⟩, ⟨hzero, nofun⟩, hzero, nofun⟩
  refine isLiteralStart_of_isDigit ?_
  simp only [Bool.and_eq_true, decide_eq_true_eq] at hc
  simp only [Char.isDigit, Bool.and_eq_true, decide_eq_true_eq]
  exact ⟨Nat.le_trans (by decide) (UInt32.le_iff_toNat_le.1 hc.1), hc.2⟩

theorem opens_floatPattern : floatPattern.Opens isLiteralStart :=
  ⟨⟨opens_decimalDigits, nofun⟩, ⟨opens_decimalDigits, nofun⟩,
    ⟨opens_char (by decide), nofun⟩, opens_char (by decide), nofun⟩

end

theorem opens_patterned : ∀ q ∈ Token.patterned,
    q.1 = .identifier ∧ q.2 = Token.identifierPattern ∨
      q.2.nullable = false ∧ q.2.Opens isLiteralStart := by
  have himaginary : Token.imaginaryPattern.Opens isLiteralStart :=
    ⟨⟨opens_decimalDigits, opens_intPattern, opens_floatPattern⟩, nofun⟩
  have hrune : Token.runePattern.Opens isLiteralStart := ⟨opens_char (by decide), nofun⟩
  have hcomment : Token.commentPattern.Opens isLiteralStart := ⟨opens_char (by decide), nofun⟩
  intro q hq
  simp only [Token.patterned, List.mem_cons, List.not_mem_nil, or_false] at hq
  rcases hq with rfl | rfl | rfl | rfl | rfl | rfl
  · exact .inl ⟨rfl, rfl⟩
  · exact .inr ⟨rfl, opens_intPattern⟩
  · exact .inr ⟨rfl, opens_floatPattern⟩
  · exact .inr ⟨rfl, himaginary⟩
  · exact .inr ⟨rfl, hrune⟩
  · exact .inr ⟨rfl, hcomment⟩

variable {c d : Char} {us : List Char}

theorem identifierPattern_eq :
    Token.identifierPattern = .seq (.one isNameStart) (.many (.one isNameChar)) := rfl

theorem longest_identifierPattern (hc : isNameStart c = true) (hus : ∀ u ∈ us, isNameChar u = true)
    (hd : isNameChar d = false) (cs : List Char) :
    Token.identifierPattern.longest (c :: us ++ d :: cs) = some (us.length + 1) := by
  have hstep : Pattern.run [Token.identifierPattern] (c :: us ++ d :: cs) 0 none
      = Pattern.run [.many (.one isNameChar)] (us ++ d :: cs) 1 none := by
    have hafter : Token.identifierPattern.after c = [.many (.one isNameChar)] := by
      rw [identifierPattern_eq, Pattern.after, Pattern.after, if_pos hc]
      rfl
    simp only [List.cons_append, Pattern.run, List.flatMap_cons, List.flatMap_nil, hafter,
      List.append_nil]
    rfl
  rw [Pattern.longest, hstep, Pattern.run_many hd cs hus, Nat.add_comm]

theorem not_isNameStart_of_mark {u : Token} (hu : u ∈ Token.punctuation) {cs : List Char}
    (h : u.spelling.isPrefixOf (c :: cs) = true) : isNameStart c = false := by
  have hall : ∀ u ∈ Token.punctuation, u.spelling.head?.any (!isNameStart ·) = true := by decide
  have hu := hall u hu
  cases hspelling : u.spelling with
  | nil =>
    rw [hspelling] at hu
    cases hu
  | cons e es =>
    rw [hspelling, List.isPrefixOf, Bool.and_eq_true] at h
    rw [hspelling, eq_of_beq h.1] at hu
    simpa using hu

theorem best?_name (h : admitted.has .identifier = true) (hc : isNameStart c = true)
    (hus : ∀ u ∈ us, isNameChar u = true) (hd : isNameChar d = false) (cs : List Char) :
    best? admitted (c :: us ++ d :: cs) = some (.identifier, us.length + 1) := by
  have hlongest := longest_identifierPattern hc hus hd cs
  refine best?_of_longest ⟨h, .inr ⟨_, List.mem_cons_self, hlongest⟩⟩ ?_
  rintro u k ⟨-, ⟨hu, hfront, -⟩ | ⟨p, hp, hk⟩⟩
  · rw [not_isNameStart_of_mark hu hfront] at hc
    cases hc
  · rcases opens_patterned _ hp with ⟨hname, hpattern⟩ | ⟨hn, hopens⟩
    · refine .inl ⟨hname, ?_⟩
      simp only at hpattern
      rw [hpattern, hlongest] at hk
      exact (Option.some.inj hk).symm
    · rw [List.cons_append, Pattern.longest_eq_none hn
        (Pattern.after_eq_nil hopens (isLiteralStart_eq_false_of_isNameStart hc))] at hk
      cases hk

/-! ### Marks -/

/-- The characters that marks of several characters go on with. -/
def isMarkEnd (c : Char) : Bool := ['.', '-', '=', '+', '<', '>', '&', '^', '|'].contains c

/-- A mark of one character, which is no other mark, and the beginning of others only where one of
those characters follows. -/
def isMark (t : Token) (c : Char) : Bool :=
  t.spelling = [c] && Token.punctuation.contains t && !isNameStart c &&
    Token.punctuation.all fun u =>
      match u.spelling with
      | [e] => e != c || u == t
      | e :: e' :: _ => e != c || isMarkEnd e'
      | [] => false

theorem best?_mark (h : admitted.has t = true) (ht : isMark t c = true)
    (hd : ∀ d, cs.head? = some d → isMarkEnd d = false)
    (hcs : ∀ q ∈ Token.patterned, q.2.longest (c :: cs) = none) :
    best? admitted (c :: cs) = some (t, 1) := by
  simp only [isMark, Bool.and_eq_true, decide_eq_true_eq, List.contains_iff_mem, List.all_eq_true]
    at ht
  obtain ⟨⟨⟨hspelling, hmem⟩, -⟩, hall⟩ := ht
  refine best?_of_longest ⟨h, .inl ⟨hmem, by simp [hspelling], by simp [hspelling]⟩⟩ ?_
  rintro u k ⟨-, ⟨hu, hfront, rfl⟩ | ⟨p, hp, hk⟩⟩
  · have hcond := hall u hu
    split at hcond
    next e heq =>
      rw [heq, List.isPrefixOf, Bool.and_eq_true] at hfront
      refine .inl ⟨?_, by rw [heq]; rfl⟩
      simpa [eq_of_beq hfront.1] using hcond
    next e e' es heq =>
      rw [heq] at hfront
      cases cs with
      | nil => simp [List.isPrefixOf] at hfront
      | cons d cs =>
        simp only [List.isPrefixOf, Bool.and_eq_true, beq_iff_eq] at hfront
        obtain ⟨rfl, rfl, -⟩ := hfront
        simp [hd e' rfl] at hcond
    · cases hcond
  · rw [hcs _ hp] at hk
    cases hk

theorem longest_patterned_eq_none (hc : isLiteralStart c = false) (hn : isNameStart c = false)
    (cs : List Char) : ∀ q ∈ Token.patterned, q.2.longest (c :: cs) = none := by
  intro q hq
  rcases opens_patterned q hq with ⟨-, hpattern⟩ | ⟨hnull, hopens⟩
  · rw [hpattern]
    refine Pattern.longest_eq_none rfl ?_ cs
    rw [identifierPattern_eq, Pattern.after, Pattern.after, hn]
    rfl
  · exact Pattern.longest_eq_none hnull (Pattern.after_eq_nil hopens hc) cs

theorem longest_period (hd : d.isDigit = false) (cs : List Char) :
    ∀ q ∈ Token.patterned, q.2.longest ('.' :: d :: cs) = none := by
  have hdigits : ∀ q, (Pattern.seq Token.decimalDigits q).after d = [] := by
    intro q
    simp [Token.decimalDigits, Token.digits, Pattern.after, Pattern.nullable, hd]
  intro q hq
  simp only [Token.patterned, List.mem_cons, List.not_mem_nil, or_false] at hq
  rcases hq with rfl | rfl | rfl | rfl | rfl | rfl
  · rfl
  · rfl
  · have hafter : Token.floatPattern.after '.'
        = [.seq Token.decimalDigits (.opt (Token.exponent ['e', 'E']))] := rfl
    simp [Pattern.longest, Pattern.run, hafter, hdigits]
    rfl
  · have hafter : Token.imaginaryPattern.after '.'
        = [.seq (.seq Token.decimalDigits (.opt (Token.exponent ['e', 'E']))) (.char 'i')] := rfl
    have hinner : (Pattern.seq (.seq Token.decimalDigits (.opt (Token.exponent ['e', 'E'])))
        (.char 'i')).after d = [] := by
      rw [Pattern.after, hdigits]
      rfl
    simp [Pattern.longest, Pattern.run, hafter, hinner]
    rfl
  · rfl
  · rfl

/-! ### Comments -/

theorem longest_commentPattern (hus : ∀ u ∈ us, u ≠ '\n' ∧ u ≠ '\x00') (cs : List Char) :
    Token.commentPattern.longest ('/' :: '/' :: us ++ '\n' :: cs) = some (us.length + 2) := by
  have hstep : Pattern.run [Token.commentPattern] ('/' :: '/' :: us ++ '\n' :: cs) 0 none
      = Pattern.run [.many (.one fun c => c != '\n' && c != '\x00')] (us ++ '\n' :: cs) 2 none := rfl
  have hall : ∀ u ∈ us, (u != '\n' && u != '\x00') = true := by
    intro u hu
    obtain ⟨hline, hnul⟩ := hus u hu
    simp [hline, hnul]
  rw [Pattern.longest, hstep, Pattern.run_many (by decide) cs hall, Nat.add_comm]

/-- A comment is longer than what else begins so. -/
theorem best?_of_commentPattern (h : admitted.has .comment = true) (hd : d = '/' ∨ d = '*')
    {n : Nat} (hlongest : Token.commentPattern.longest ('/' :: d :: us) = some (n + 2)) :
    best? admitted ('/' :: d :: us) = some (.comment, n + 2) := by
  have hmem : (Token.comment, Token.commentPattern) ∈ Token.patterned := by
    simp [Token.patterned]
  refine best?_of_longest ⟨h, .inr ⟨_, hmem, hlongest⟩⟩ ?_
  rintro u k ⟨-, ⟨hu, hfront, rfl⟩ | ⟨p, hp, hk⟩⟩
  · -- Only marks of one character match in front of a comment.
    have hall : ∀ u ∈ Token.punctuation, u.spelling.length ≤ 1 ∨
        (u.spelling.take 2 ≠ ['/', '/'] ∧ u.spelling.take 2 ≠ ['/', '*']) := by decide
    rcases hall u hu with hlength | ⟨hslash, hstar⟩
    · exact .inr (by omega)
    · obtain ⟨rest, hrest⟩ := List.isPrefixOf_iff_prefix.1 hfront
      by_cases hlength : u.spelling.length ≤ 1
      · exact .inr (by omega)
      · have htake := congrArg (List.take 2) hrest
        rw [List.take_append_of_le_length (by omega)] at htake
        rcases hd with rfl | rfl
        · exact absurd htake hslash
        · exact absurd htake hstar
  · simp only [Token.patterned, List.mem_cons, Prod.mk.injEq, List.not_mem_nil, or_false] at hp
    rcases hp with ⟨-, rfl⟩ | ⟨-, rfl⟩ | ⟨-, rfl⟩ | ⟨-, rfl⟩ | ⟨-, rfl⟩ | ⟨rfl, rfl⟩
    · cases hk
    · cases hk
    · cases hk
    · cases hk
    · cases hk
    · rw [hlongest] at hk
      exact .inl ⟨rfl, (Option.some.inj hk).symm⟩

theorem best?_comment (h : admitted.has .comment = true) (hus : ∀ u ∈ us, u ≠ '\n' ∧ u ≠ '\x00')
    (cs : List Char) :
    best? admitted ('/' :: '/' :: us ++ '\n' :: cs) = some (.comment, us.length + 2) :=
  best?_of_commentPattern h (.inl rfl) (longest_commentPattern hus cs)

/-! ### Block comments -/

/-- Nothing in `cs` ends a block comment; `star` says that a star stands in front. -/
def StaysOpen : Bool → List Char → Prop
  | _, [] => True
  | star, c :: cs => c ≠ '\x00' ∧ (star = true → c ≠ '/') ∧ StaysOpen (c == '*') cs

/-- Text of a block comment up to a star. -/
def textPart : Pattern := .many (.one fun c => c != '*' && c != '\x00')

/-- Stars in a block comment. -/
def starsPart : Pattern := .many (.char '*')

/-- Text and stars behind the first stars of a block comment. -/
def moreParts : Pattern :=
  .many (.seq (.one fun c => c != '/' && c != '*' && c != '\x00')
    (.seq textPart (.seq (.char '*') starsPart)))

/-- What is left of the pattern for comments within a block comment, behind a star or not. -/
inductive Within : Bool → Pattern → Prop where
  | text :
    Within false (.seq textPart (.seq (.char '*') (.seq starsPart (.seq moreParts (.char '/')))))
  | stars : Within true (.seq starsPart (.seq moreParts (.char '/')))
  | moreText : Within false
    (.seq (.seq (.seq textPart (.seq (.char '*') starsPart)) moreParts) (.char '/'))
  | moreStars : Within true (.seq (.seq starsPart moreParts) (.char '/'))

section Within

variable {star : Bool} {p : Pattern} (h : Within star p)

include h

theorem Within.nullable_eq : p.nullable = false := by
  cases h <;> rfl

theorem Within.after_star : ∃ q, p.after '*' = [q] ∧ Within true q := by
  cases h with
  | text => exact ⟨_, rfl, .stars⟩
  | stars => exact ⟨_, rfl, .stars⟩
  | moreText => exact ⟨_, rfl, .moreStars⟩
  | moreStars => exact ⟨_, rfl, .moreStars⟩

theorem Within.after_slash (hstar : star = true) : p.after '/' = [.nothing] := by
  cases h with
  | text => cases hstar
  | stars => rfl
  | moreText => cases hstar
  | moreStars => rfl

theorem Within.after_other (hstar : c ≠ '*') (hnul : c ≠ '\x00')
    (hslash : star = true → c ≠ '/') : ∃ q, p.after c = [q] ∧ Within false q := by
  have hmark : (Pattern.char '*').after c = [] := by
    simp [Pattern.char, Pattern.after, hstar]
  have htext : textPart.after c = [textPart] := by
    simp [textPart, Pattern.after, Pattern.before, hstar, hnul]
  have hstars : starsPart.after c = [] := by
    simp [starsPart, Pattern.after, hmark]
  have hmore : c ≠ '/' → moreParts.after c
      = [.seq (.seq textPart (.seq (.char '*') starsPart)) moreParts] := by
    intro hc
    simp [moreParts, Pattern.after, Pattern.nullable, Pattern.before, hstar, hnul, hc]
  have hend : c ≠ '/' → (Pattern.char '/').after c = [] := by
    intro hc
    simp [Pattern.char, Pattern.after, hc]
  have hbefore : ∀ q, textPart.before q = .seq textPart q := fun _ => rfl
  have hseq : ∀ a b q : Pattern, (Pattern.seq a b).before q = .seq (.seq a b) q :=
    fun _ _ _ => rfl
  have htextNullable : textPart.nullable = true := rfl
  have hstarsNullable : starsPart.nullable = true := rfl
  have hmoreNullable : moreParts.nullable = true := rfl
  have hmarkNullable : (Pattern.char '*').nullable = false := rfl
  cases h with
  | text =>
    refine ⟨_, ?_, .text⟩
    simp [Pattern.after, hbefore, htext, hmark, htextNullable, hmarkNullable]
  | stars =>
    refine ⟨_, ?_, .moreText⟩
    simp [Pattern.after, hseq, hstars, hmore (hslash rfl), hend (hslash rfl), hstarsNullable,
      hmoreNullable]
  | moreText =>
    refine ⟨_, ?_, .moreText⟩
    simp [Pattern.after, Pattern.nullable, hbefore, hseq, htext, hmark, htextNullable,
      hmarkNullable]
  | moreStars =>
    refine ⟨_, ?_, .moreText⟩
    simp [Pattern.after, Pattern.nullable, hseq, hstars, hmore (hslash rfl), hend (hslash rfl),
      hstarsNullable, hmoreNullable]

end Within

/-- A block comment goes on up to the first mark that ends it. -/
theorem run_within (cs : List Char) : ∀ {us : List Char} {star : Bool} {p : Pattern} (n : Nat),
    Within star p → StaysOpen star us →
    (Pattern.run [p] (us ++ '*' :: '/' :: cs) n none).1 = some (n + us.length + 2) := by
  intro us
  induction us with
  | nil =>
    intro star p n h _
    obtain ⟨q, hq, hwithin⟩ := h.after_star
    have hfirst : Pattern.run [p] ([] ++ '*' :: '/' :: cs) n none
        = Pattern.run [q] ('/' :: cs) (n + 1) none := by
      simp [Pattern.run, h.nullable_eq, hq]
    have hsecond : Pattern.run [q] ('/' :: cs) (n + 1) none
        = Pattern.run [.nothing] cs (n + 2) none := by
      simp [Pattern.run, hwithin.nullable_eq, hwithin.after_slash]
    rw [hfirst, hsecond]
    cases cs <;> rfl
  | cons c us ih =>
    intro star p n h hopen
    obtain ⟨hnul, hslash, hopen⟩ := hopen
    have hnext : ∃ q, p.after c = [q] ∧ Within (c == '*') q := by
      by_cases hc : c = '*'
      · subst hc
        exact h.after_star
      · rw [beq_false_of_ne hc]
        exact h.after_other hc hnul hslash
    obtain ⟨q, hq, hwithin⟩ := hnext
    have hrun : Pattern.run [p] (c :: us ++ '*' :: '/' :: cs) n none
        = Pattern.run [q] (us ++ '*' :: '/' :: cs) (n + 1) none := by
      simp [Pattern.run, h.nullable_eq, hq]
    rw [hrun, ih (n + 1) hwithin hopen, List.length_cons]
    exact congrArg some (by omega)

theorem best?_block (h : admitted.has .comment = true) (hus : StaysOpen false us)
    (cs : List Char) : best? admitted ('/' :: '*' :: (us ++ '*' :: '/' :: cs))
      = some (.comment, us.length + 4) := by
  refine best?_of_commentPattern h (.inr rfl) (n := us.length + 2) ?_
  exact (run_within cs 2 .text hus).trans (congrArg some (by omega))

theorem staysOpen_append {star : Bool} {vs : List Char} : StaysOpen star (us ++ vs) ↔
    StaysOpen star us ∧ StaysOpen (us.foldl (fun _ c => c == '*') star) vs := by
  induction us generalizing star with
  | nil => simp [StaysOpen]
  | cons c us ih =>
    rw [List.cons_append, StaysOpen, StaysOpen, List.foldl_cons, ih]
    simp only [and_assoc]

theorem staysOpen_of_forall (h : ∀ c ∈ us, c ≠ '\x00' ∧ c ≠ '/') (star : Bool) :
    StaysOpen star us := by
  induction us generalizing star with
  | nil => trivial
  | cons c us ih =>
    obtain ⟨hc, hus⟩ := List.forall_mem_cons.1 h
    exact ⟨hc.1, fun _ => hc.2, ih hus _⟩

theorem staysOpen_of_not_infix {star : Bool} (hnul : '\x00' ∉ us)
    (h : ¬ ['*', '/'] <:+: (if star then '*' :: us else us)) : StaysOpen star us := by
  induction us generalizing star with
  | nil => trivial
  | cons c us ih =>
    obtain ⟨hc, hnul⟩ := not_or.1 (mt List.mem_cons.2 hnul)
    refine ⟨Ne.symm hc, ?_, ih hnul fun hinfix => h ?_⟩
    · rintro rfl rfl
      exact h ⟨[], us, rfl⟩
    · have hsuffix : (if (c == '*') = true then '*' :: us else us) <:+ c :: us := by
        split
        next heq => exact eq_of_beq heq ▸ List.suffix_rfl
        · exact List.suffix_cons c us
      refine hinfix.trans (hsuffix.isInfix.trans ?_)
      split
      · exact (List.suffix_cons _ _).isInfix
      · exact List.infix_rfl

/-! ### String literals -/

theorem part?_quoted (hraw : admitted.has .rawText = false) (h : admitted.has .quotedText = true)
    (hne : us ≠ []) (hus : ∀ u ∈ us, Token.isQuotedText u = true) (hd : Token.isQuotedText d = false)
    (cs : List Char) : part? admitted (us ++ d :: cs) = some (.quotedText, us.length) := by
  have htake : (us ++ d :: cs).takeWhile Token.isQuotedText = us := by
    rw [List.takeWhile_append_of_pos hus, List.takeWhile_cons_of_neg (by simp [hd]),
      List.append_nil]
  simp [part?, hraw, h, htake, hne]

theorem part?_closing (hraw : admitted.has .rawText = false)
    (h : admitted.has .closingQuote = true) (cs : List Char) :
    part? admitted ('"' :: cs) = some (.closingQuote, 1) := by
  simp [part?, hraw, h, Token.isQuotedText]

/-- The tokens that are looked for where a state expects some: comments may come anywhere, and
keywords are read as identifiers. -/
def widened (expected : TokenSet) : TokenSet :=
  let expected := expected ||| TokenSet.single .comment
  if expected &&& Token.keywordSet == 0 then expected
  else expected ||| TokenSet.single .identifier

/-- No part of a string literal is looked for. -/
def outside (admitted : TokenSet) : Bool :=
  !admitted.has .rawText && !admitted.has .quotedText && !admitted.has .closingQuote
    && !admitted.has .escape

theorem part?_eq_none (h : outside admitted = true) (cs : List Char) : part? admitted cs = none := by
  simp only [outside, Bool.and_eq_true, Bool.not_eq_true'] at h
  obtain ⟨⟨⟨hraw, hquoted⟩, hclosing⟩, hescape⟩ := h
  simp [part?, hraw, hquoted, hclosing, hescape]

/-- White space that is skipped where the tokens `admitted` may come. -/
def skips (admitted : TokenSet) (c : Char) : Bool :=
  isSeparator c && !(c == '\n' && admitted.has .newline)

end Lexeme

/-- What a parse needs to know of a word. -/
structure Sign where
  token : Token
  /-- A line ends in front of it. -/
  breaks : Bool := false
  /-- The keyword that is spelled like it. -/
  reserved : Option Token := none
  deriving DecidableEq

/-- In the state a word is read as its token. -/
def Tables.reads (g : Tables) (st : State) (x : Sign) : Bool :=
  let admitted := Lexeme.widened (g.expected st)
  !st.items.isEmpty &&
    if x.token = .quotedText || x.token = .closingQuote then
      admitted.has x.token && !admitted.has .rawText
    else
      Lexeme.outside admitted && !(x.breaks && admitted.has .newline) &&
        match x.reserved with
        | none => admitted.has x.token
        | some k => admitted.has .identifier && x.token == if g.admits st k then k else .identifier

/-- A token as it stands in a text: the white space in front of it, and its spelling. -/
structure Word where
  gap : List Char
  text : List Char
  token : Token
  /-- The keyword that is spelled like it. -/
  reserved : Option Token := none

namespace Word

variable (w : Word) (p : Cursor)

/-- Where the spelling begins, if the word stands at `p`. -/
def start : Cursor := p.skip w.gap.length

/-- What a parse needs to know of the word. -/
def sign : Sign := ⟨w.token, w.gap.contains '\n', w.reserved⟩

/-- Where the word ends. -/
def stop : Cursor := (w.start p).skip w.text.length

/-- The token that the word is at `p`. -/
def leaf : Leaf where
  token := some w.token
  keyword := w.reserved.isSome
  before := p
  start := w.start p
  stop := w.stop p

variable {w p} {g : Tables} {st : State} {rest : List Char} {t : Token}

theorem rest_start (hp : p.rest = w.gap ++ (w.text ++ rest)) :
    (w.start p).rest = w.text ++ rest := by
  rw [start, Cursor.skip_rest, hp, List.drop_left]

theorem rest_stop (hp : p.rest = w.gap ++ (w.text ++ rest)) : (w.stop p).rest = rest := by
  rw [stop, Cursor.skip_rest, rest_start hp, List.drop_left]

theorem textTo_stop (hp : p.rest = w.gap ++ (w.text ++ rest)) :
    (w.start p).textTo (w.stop p) = String.ofList w.text := by
  rw [← String.ofList_toList (s := (w.start p).textTo (w.stop p)), stop,
    Cursor.toList_textTo_skip, rest_start hp, List.take_left]

/-- The white space in front of a word is skipped, and its spelling stays. -/
structure Stands (w : Word) (admitted : TokenSet) : Prop where
  gap : ∀ c ∈ w.gap, Lexeme.skips admitted c = true
  text : ∃ c us, w.text = c :: us ∧ Lexeme.skips admitted c = false ∧ c ≠ '\ufeff'

theorem Stands.head?_ne {admitted : TokenSet} (h : w.Stands admitted)
    (hp : p.rest = w.gap ++ (w.text ++ rest)) : p.rest.head? ≠ some '\ufeff' := by
  obtain ⟨c, us, htext, -, hc⟩ := h.text
  intro hhead
  rw [hp, htext] at hhead
  cases hgap : w.gap with
  | nil =>
    rw [hgap] at hhead
    exact hc (Option.some.inj hhead)
  | cons d ds =>
    rw [hgap] at hhead
    obtain rfl : d = '\ufeff' := Option.some.inj hhead
    have hskips := h.gap '\ufeff' (hgap ▸ List.mem_cons_self)
    rw [Lexeme.skips, Bool.and_eq_true] at hskips
    exact absurd hskips.1 (by decide)

theorem Stands.skipWhile {admitted : TokenSet} (h : w.Stands admitted)
    (hp : p.rest = w.gap ++ (w.text ++ rest)) :
    p.skipWhile (Lexeme.skips admitted) = w.start p := by
  obtain ⟨c, us, htext, hc, -⟩ := h.text
  rw [Cursor.skipWhile, hp, List.takeWhile_append_of_pos h.gap, htext, List.cons_append,
    List.takeWhile_cons_of_neg (by simp [hc]), List.append_nil, start]

theorem next_eq {expected : TokenSet} (hp : p.rest = w.gap ++ (w.text ++ rest))
    (h : w.Stands (Lexeme.widened expected))
    (houtside : Lexeme.outside (Lexeme.widened expected) = true)
    (hbest : Lexeme.best? (Lexeme.widened expected) (w.text ++ rest) = some (t, w.text.length)) :
    Lexeme.next expected p = .ok ⟨t, w.start p, w.stop p⟩ := by
  have hmark : (p.offset == 0 && p.rest.head? == some '\ufeff') = false := by
    rw [Bool.and_eq_false_iff]
    exact .inr (beq_eq_false_iff_ne.2 (h.head?_ne hp))
  have hempty : (w.start p).rest.isEmpty = false := by
    obtain ⟨c, us, htext, -, -⟩ := h.text
    rw [rest_start hp, htext]
    rfl
  have hskip := h.skipWhile hp
  unfold Lexeme.skips at hskip
  unfold Lexeme.next
  simp only [hmark, Bool.false_eq_true, if_false]
  rw [← Lexeme.widened, Lexeme.part?_eq_none houtside]
  simp only [hskip, hempty, Bool.false_eq_true, if_false]
  rw [rest_start hp, hbest]
  rfl

/-! ## What states read -/

/-- The word is spelled as its token may be, with `rest` behind it. -/
inductive Spells : Word → List Char → Prop
  | name {gap us rest : List Char} {c d : Char} {t : Token} :
      (∀ c ∈ gap, isSeparator c = true) → isNameStart c = true →
      (∀ u ∈ us, isNameChar u = true) → isNameChar d = false →
      (t = .identifier ∨ Token.keyword? (c :: us) = some t) →
      Spells ⟨gap, c :: us, t, Token.keyword? (c :: us)⟩ (d :: rest)
  | mark {gap rest : List Char} {t : Token} {c : Char} : (∀ c ∈ gap, isSeparator c = true) →
      Lexeme.isMark t c = true → isSeparator c = false → Lexeme.isLiteralStart c = false →
      (∀ d, rest.head? = some d → Lexeme.isMarkEnd d = false) → Spells ⟨gap, [c], t, none⟩ rest
  | period {gap rest : List Char} {d : Char} : (∀ c ∈ gap, isSeparator c = true) →
      d.isDigit = false → Lexeme.isMarkEnd d = false → Spells ⟨gap, ['.'], .period, none⟩ (d :: rest)
  | newline {gap rest : List Char} : (∀ c ∈ gap, isSeparator c = true ∧ c ≠ '\n') →
      (∀ d, rest.head? = some d → Lexeme.isMarkEnd d = false) →
      Spells ⟨gap, ['\n'], .newline, none⟩ rest
  | comment {gap us rest : List Char} : (∀ c ∈ gap, isSeparator c = true) →
      (∀ u ∈ us, u ≠ '\n' ∧ u ≠ '\x00') → Spells ⟨gap, '/' :: '/' :: us, .comment, none⟩ ('\n' :: rest)
  | quoted {us rest : List Char} {c d : Char} : c ≠ '\ufeff' →
      (∀ u ∈ c :: us, Token.isQuotedText u = true) → Token.isQuotedText d = false →
      Spells ⟨[], c :: us, .quotedText, none⟩ (d :: rest)
  | closing {rest : List Char} : Spells ⟨[], ['"'], .closingQuote, none⟩ rest

theorem isSeparator_of_isNameStart {c : Char} (h : isNameStart c = true) :
    isSeparator c = false ∧ c ≠ '\ufeff' := by
  have hne : ∀ d, isNameStart d = false → c ≠ d := by
    rintro d hd rfl
    rw [hd] at h
    cases h
  simp [isSeparator, hne ' ' (by decide), hne '\t' (by decide), hne '\n' (by decide),
    hne '\x0b' (by decide), hne '\x0c' (by decide), hne '\r' (by decide),
    hne '\ufeff' (by decide +kernel)]

theorem stands_of_gap {expected : TokenSet} {c : Char} {us : List Char}
    (hgap : ∀ c ∈ w.gap, isSeparator c = true)
    (hbreaks : (w.gap.contains '\n' && (Lexeme.widened expected).has .newline) = false)
    (htext : w.text = c :: us) (hc : Lexeme.skips (Lexeme.widened expected) c = false)
    (hmark : c ≠ '\ufeff') : w.Stands (Lexeme.widened expected) := by
  refine ⟨fun d hd => ?_, c, us, htext, hc, hmark⟩
  rw [Lexeme.skips, hgap d hd, Bool.true_and]
  by_cases hline : d = '\n'
  · subst hline
    rw [List.contains_iff_mem.2 hd, Bool.true_and] at hbreaks
    rw [hbreaks]
    rfl
  · simp [hline]

theorem skips_eq_false {admitted : TokenSet} {c : Char} (h : isSeparator c = false) :
    Lexeme.skips admitted c = false := by
  rw [Lexeme.skips, h]
  rfl

theorem read_of_next (hst : st ≠ .lost)
    (hnext : Lexeme.next (g.expected st) p = .ok ⟨w.token, w.start p, w.stop p⟩)
    (hname : w.token ≠ .identifier) (hend : w.token ≠ .eof) (hreserved : w.reserved = none) :
    Search.read g st p = w.leaf p := by
  rw [Search.read, if_neg hst]
  simp only [hnext, Search.resolve, if_neg hname, hend, decide_false, leaf, hreserved,
    Option.isSome_none]

/-- What a state that reads a word behind white space admits. -/
structure Admits (g : Tables) (st : State) (x : Sign) : Prop where
  ne_lost : st ≠ .lost
  outside : Lexeme.outside (Lexeme.widened (g.expected st)) = true
  breaks : (x.breaks && (Lexeme.widened (g.expected st)).has .newline) = false
  plain : x.reserved = none → (Lexeme.widened (g.expected st)).has x.token = true
  reserved : ∀ k, x.reserved = some k → (Lexeme.widened (g.expected st)).has .identifier = true ∧
    x.token = if g.admits st k then k else .identifier

theorem ne_lost_of_items {st : State} (h : (!st.items.isEmpty) = true) : st ≠ .lost := by
  rintro rfl
  cases h

theorem admits_of_reads {x : Sign} (h : g.reads st x = true) (hquoted : x.token ≠ .quotedText)
    (hclosing : x.token ≠ .closingQuote) : Admits g st x := by
  simp only [Tables.reads, hquoted, hclosing, decide_false, Bool.or_false, Bool.false_eq_true,
    if_false, Bool.and_eq_true] at h
  obtain ⟨hitems, ⟨houtside, hbreaks⟩, htoken⟩ := h
  rw [Bool.not_eq_true'] at hbreaks
  refine ⟨ne_lost_of_items hitems, houtside, hbreaks, fun hnone => ?_, fun k hk => ?_⟩
  · rwa [hnone] at htoken
  · rw [hk] at htoken
    simpa only [Bool.and_eq_true, beq_iff_eq] using htoken

theorem read_of_best (hp : p.rest = w.gap ++ (w.text ++ rest)) (h : Admits g st w.sign)
    (hname : w.token ≠ .identifier) (hend : w.token ≠ .eof) (hreserved : w.reserved = none)
    (hgap : ∀ c ∈ w.gap, isSeparator c = true) {c : Char} {us : List Char}
    (htext : w.text = c :: us) (hmark : c ≠ '\ufeff')
    (hc : ∀ admitted : TokenSet, admitted.has w.token = true → Lexeme.skips admitted c = false)
    (hbest : ∀ admitted : TokenSet, admitted.has w.token = true →
      Lexeme.best? admitted (w.text ++ rest) = some (w.token, w.text.length)) :
    Search.read g st p = w.leaf p := by
  have htoken := h.plain hreserved
  exact read_of_next h.ne_lost (next_eq hp (stands_of_gap hgap h.breaks htext (hc _ htoken) hmark)
    h.outside (hbest _ htoken)) hname hend hreserved

/-- A name is read; as a keyword if it is spelled like one that the state admits. -/
theorem read_name {gap us rest : List Char} {c d : Char} (hgap : ∀ c ∈ gap, isSeparator c = true)
    (hc : isNameStart c = true) (hus : ∀ u ∈ us, isNameChar u = true) (hd : isNameChar d = false)
    (ht : t = .identifier ∨ Token.keyword? (c :: us) = some t)
    (hp : p.rest = gap ++ (c :: us ++ d :: rest))
    (h : Admits g st ⟨t, gap.contains '\n', Token.keyword? (c :: us)⟩) :
    Search.read g st p = leaf ⟨gap, c :: us, t, Token.keyword? (c :: us)⟩ p := by
  have hplain : Token.keyword? (c :: us) = none → t = .identifier := fun hnone =>
    ht.resolve_right fun hsome => nomatch hnone.symm.trans hsome
  generalize hw : (⟨gap, c :: us, t, Token.keyword? (c :: us)⟩ : Word) = w
  have hwp : p.rest = w.gap ++ (w.text ++ d :: rest) := by
    rw [← hw]
    exact hp
  obtain ⟨hseparator, hmark⟩ := isSeparator_of_isNameStart hc
  have hidentifier : (Lexeme.widened (g.expected st)).has .identifier = true := by
    cases hkeyword : Token.keyword? (c :: us) with
    | none =>
      have hadmitted := h.plain hkeyword
      rwa [hplain hkeyword] at hadmitted
    | some k => exact (h.reserved k hkeyword).1
  have hbest := Lexeme.best?_name hidentifier hc hus hd rest
  have hnext : Lexeme.next (g.expected st) p = .ok ⟨.identifier, w.start p, w.stop p⟩ := by
    subst hw
    exact next_eq hp (stands_of_gap hgap h.breaks rfl (skips_eq_false hseparator) hmark) h.outside
      hbest
  have htext : ((w.start p).textTo (w.stop p)).toList = c :: us := by
    rw [textTo_stop hwp, String.toList_ofList, ← hw]
  rw [Search.read, if_neg h.ne_lost]
  simp only [hnext, Search.resolve, if_true, htext]
  subst hw
  cases hkeyword : Token.keyword? (c :: us) with
  | none =>
    rw [hplain hkeyword]
    rfl
  | some k =>
    have htoken : t = if g.admits st k then k else .identifier := (h.reserved k hkeyword).2
    simp only [decide_eq_false h.ne_lost, Bool.false_or, leaf, Option.isSome_some]
    split at htoken
    next hadmits => simp only [hadmits, if_true, htoken]
    next hadmits => simp only [hadmits, htoken, Bool.false_eq_true, if_false]

theorem isMark_token {c : Char} (h : Lexeme.isMark t c = true) : t ∈ Token.punctuation := by
  simp only [Lexeme.isMark, Bool.and_eq_true, List.contains_iff_mem] at h
  exact h.1.1.2

theorem isMark_ne {c : Char} (h : Lexeme.isMark t c = true) : c ≠ '\ufeff' := by
  have hall : ∀ t ∈ Token.punctuation, t.spelling ≠ ['\ufeff'] := by decide
  rintro rfl
  have hmem := isMark_token h
  simp only [Lexeme.isMark, Bool.and_eq_true, decide_eq_true_eq] at h
  exact hall t hmem h.1.1.1

theorem of_mem_punctuation (h : t ∈ Token.punctuation) : t ≠ .identifier ∧ t ≠ .eof ∧
    t ≠ .quotedText ∧ t ≠ .closingQuote := by
  have hall : ∀ t ∈ Token.punctuation, t ≠ .identifier ∧ t ≠ .eof ∧ t ≠ .quotedText ∧
      t ≠ .closingQuote := by decide
  exact hall t h

theorem read_part (hp : p.rest = w.gap ++ (w.text ++ rest))
    (hreads : g.reads st w.sign = true) (hreserved : w.reserved = none)
    (ht : w.token = .quotedText ∨ w.token = .closingQuote) (hgap : w.gap = []) {c : Char}
    {us : List Char} (htext : w.text = c :: us) (hmark : c ≠ '\ufeff')
    (hpart : ∀ admitted : TokenSet, admitted.has .rawText = false →
      admitted.has w.token = true →
      Lexeme.part? admitted (w.text ++ rest) = some (w.token, w.text.length)) :
    Search.read g st p = w.leaf p := by
  have hor : (w.sign.token = .quotedText || w.sign.token = .closingQuote) = true := by
    rw [sign]
    dsimp only
    rcases ht with ht | ht <;> rw [ht] <;> rfl
  simp only [Tables.reads, hor, if_true, Bool.and_eq_true, Bool.not_eq_true'] at hreads
  obtain ⟨hitems, hadmitted, hraw⟩ := hreads
  have hrest : p.rest = w.text ++ rest := by rw [hp, hgap, List.nil_append]
  have hstart : w.start p = p := by rw [start, hgap]; rfl
  have hguard : (p.offset == 0 && p.rest.head? == some '\ufeff') = false := by
    rw [Bool.and_eq_false_iff, hrest, htext]
    exact .inr (beq_eq_false_iff_ne.2 fun h => hmark (Option.some.inj h))
  have hnext : Lexeme.next (g.expected st) p = .ok ⟨w.token, w.start p, w.stop p⟩ := by
    unfold Lexeme.next
    simp only [hguard, Bool.false_eq_true, if_false]
    rw [← Lexeme.widened, hrest, hpart _ hraw hadmitted, stop, hstart]
  refine read_of_next (ne_lost_of_items (by simp [hitems])) hnext ?_ ?_ hreserved
  · rcases ht with ht | ht <;> rw [ht] <;> decide
  · rcases ht with ht | ht <;> rw [ht] <;> decide

theorem read_eq (h : w.Spells rest) (hp : p.rest = w.gap ++ (w.text ++ rest))
    (hreads : g.reads st w.sign = true) : Search.read g st p = w.leaf p := by
  cases h with
  | @name gap us rest c d t hgap hc hus hd ht =>
    have hparts : t ≠ .quotedText ∧ t ≠ .closingQuote := by
      rcases ht with rfl | hkeyword
      · exact ⟨nofun, nofun⟩
      · have hmem := List.mem_of_find?_eq_some hkeyword
        constructor <;> rintro rfl <;> exact absurd hmem (by decide)
    exact read_name hgap hc hus hd ht hp (admits_of_reads hreads hparts.1 hparts.2)
  | @mark gap rest t c hgap ht hc hliteral hrest =>
    obtain ⟨hname, hend, hquoted, hclosing⟩ := of_mem_punctuation (isMark_token ht)
    have hstart : isNameStart c = false := by
      simp only [Lexeme.isMark, Bool.and_eq_true, Bool.not_eq_true'] at ht
      exact ht.1.2
    exact read_of_best hp (admits_of_reads hreads hquoted hclosing) hname hend rfl hgap rfl
      (isMark_ne ht) (fun _ _ => skips_eq_false hc) fun _ hadmitted => Lexeme.best?_mark hadmitted ht hrest
        (Lexeme.longest_patterned_eq_none hliteral hstart rest)
  | @period gap rest d hgap hd hend =>
    refine read_of_best hp (admits_of_reads hreads nofun nofun) nofun nofun rfl hgap rfl (by decide)
      (fun _ _ => skips_eq_false (by decide)) fun _ hadmitted => ?_
    have ht : Lexeme.isMark .period '.' = true := by decide
    refine Lexeme.best?_mark hadmitted ht (fun e he => ?_) (Lexeme.longest_period hd rest)
    rwa [← Option.some.inj he]
  | newline hgap hrest =>
    refine read_of_best hp (admits_of_reads hreads nofun nofun) nofun nofun rfl
      (fun c hc => (hgap c hc).1) rfl (by decide) (fun admitted hadmitted => ?_) fun _ hadmitted => ?_
    · rw [Lexeme.skips, hadmitted]
      rfl
    · have ht : Lexeme.isMark .newline '\n' = true := by decide
      exact Lexeme.best?_mark hadmitted ht hrest
        (Lexeme.longest_patterned_eq_none (by decide) (by decide) rest)
  | comment hgap hus =>
    exact read_of_best hp (admits_of_reads hreads nofun nofun) nofun nofun rfl hgap rfl (by decide)
      (fun _ _ => skips_eq_false (by decide)) fun _ hadmitted =>
        Lexeme.best?_comment hadmitted hus _
  | @quoted us rest c d hmark hus hd =>
    exact read_part hp hreads rfl (.inl rfl) rfl rfl hmark fun _ hraw hadmitted =>
      Lexeme.part?_quoted hraw hadmitted (List.cons_ne_nil c us) hus hd rest
  | closing =>
    exact read_part hp hreads rfl (.inr rfl) rfl rfl (by decide) fun _ hraw hadmitted =>
      Lexeme.part?_closing hraw hadmitted rest

/-! ## Common words -/

/-- The characters are a name that is no keyword. -/
structure IsPlainName (cs : List Char) : Prop where
  start : cs.head?.any isNameStart = true
  chars : cs.all isNameChar = true
  keyword : Token.keyword? cs = none

instance (cs : List Char) : Decidable (IsPlainName cs) :=
  decidable_of_iff (cs.head?.any isNameStart = true ∧ cs.all isNameChar = true ∧
    Token.keyword? cs = none) ⟨fun h => ⟨h.1, h.2.1, h.2.2⟩, fun h => ⟨h.1, h.2, h.3⟩⟩

theorem IsPlainName.exists_cons {cs : List Char} (h : IsPlainName cs) : ∃ c us, cs = c :: us ∧
    isNameStart c = true ∧ ∀ u ∈ us, isNameChar u = true := by
  cases cs with
  | nil => cases h.start
  | cons c us =>
    have hchars := List.all_eq_true.1 h.chars
    exact ⟨c, us, rfl, h.start, fun u hu => hchars u (List.mem_cons_of_mem c hu)⟩

/-- What a mark of one character is no part of, if it stands next to it. -/
theorem isMarkEnd_eq_false_of_isNameStart {c : Char} (h : isNameStart c = true) :
    Lexeme.isMarkEnd c = false := by
  rw [Lexeme.isMarkEnd, ← Bool.not_eq_true, List.contains_iff_mem]
  intro hmem
  simp only [List.mem_cons, List.not_mem_nil, or_false] at hmem
  rcases hmem with rfl | rfl | rfl | rfl | rfl | rfl | rfl | rfl | rfl
  all_goals exact absurd h (by decide)

/-- A name. -/
def name (gap : String) (cs : List Char) : Word := ⟨gap.toList, cs, .identifier, none⟩

/-- A name that is spelled like a keyword. -/
def reservedName (gap : String) (t : Token) : Word := ⟨gap.toList, t.spelling, .identifier, some t⟩

/-- A keyword. -/
def keyword (gap : String) (t : Token) : Word := ⟨gap.toList, t.spelling, t, some t⟩

/-- A mark. -/
def mark (gap : String) (t : Token) : Word := ⟨gap.toList, t.spelling, t, none⟩

/-- The end of a line. -/
def newline : Word := mark "" .newline

/-- A comment to the end of the line. -/
def comment (gap : String) (cs : List Char) : Word := ⟨gap.toList, '/' :: '/' :: cs, .comment, none⟩

/-- The text between quotes. -/
def quoted (cs : List Char) : Word := ⟨[], cs, .quotedText, none⟩

variable {gap : String} {cs : List Char} {d : Char}

theorem spells_name (hgap : gap.toList.all isSeparator = true) (h : IsPlainName cs)
    (hrest : rest.head? = some d) (hd : isNameChar d = false) : (name gap cs).Spells rest := by
  obtain ⟨c, us, rfl, hc, hus⟩ := h.exists_cons
  obtain ⟨ds, rfl⟩ := List.head?_eq_some_iff.1 hrest
  have hspells : Spells ⟨gap.toList, c :: us, .identifier, Token.keyword? (c :: us)⟩ (d :: ds) :=
    .name (List.all_eq_true.1 hgap) hc hus hd (.inl rfl)
  rwa [h.keyword] at hspells

theorem exists_spelling_of_keyword (h : t ∈ Token.keywords) : ∃ c us, t.spelling = c :: us ∧
    isNameStart c = true ∧ (∀ u ∈ us, isNameChar u = true) ∧
    Token.keyword? (c :: us) = some t := by
  have hall : ∀ t ∈ Token.keywords, (t.spelling.head?.any isNameStart &&
      t.spelling.tail.all isNameChar && Token.keyword? t.spelling == some t) = true := by decide
  have ht := hall t h
  simp only [Bool.and_eq_true, beq_iff_eq, List.all_eq_true] at ht
  obtain ⟨⟨hc, hus⟩, hkeyword⟩ := ht
  cases hspelling : t.spelling with
  | nil =>
    rw [hspelling] at hc
    cases hc
  | cons c us =>
    rw [hspelling] at hc hus hkeyword
    exact ⟨c, us, rfl, hc, hus, hkeyword⟩

theorem spells_keyword (hgap : gap.toList.all isSeparator = true) (h : t ∈ Token.keywords)
    (hrest : rest.head? = some d) (hd : isNameChar d = false) : (keyword gap t).Spells rest := by
  obtain ⟨c, us, hspelling, hc, hus, hkeyword⟩ := exists_spelling_of_keyword h
  obtain ⟨ds, rfl⟩ := List.head?_eq_some_iff.1 hrest
  have hspells : Spells ⟨gap.toList, c :: us, t, Token.keyword? (c :: us)⟩ (d :: ds) :=
    .name (List.all_eq_true.1 hgap) hc hus hd (.inr hkeyword)
  rwa [hkeyword, ← hspelling] at hspells

theorem spells_reservedName (hgap : gap.toList.all isSeparator = true) (h : t ∈ Token.keywords)
    (hrest : rest.head? = some d) (hd : isNameChar d = false) :
    (reservedName gap t).Spells rest := by
  obtain ⟨c, us, hspelling, hc, hus, hkeyword⟩ := exists_spelling_of_keyword h
  obtain ⟨ds, rfl⟩ := List.head?_eq_some_iff.1 hrest
  have hspells : Spells ⟨gap.toList, c :: us, .identifier, Token.keyword? (c :: us)⟩ (d :: ds) :=
    .name (List.all_eq_true.1 hgap) hc hus hd (.inl rfl)
  rwa [hkeyword, ← hspelling] at hspells

/-- The token is a mark of one character that begins no literal, and no line end. -/
def isPlainMark (t : Token) : Bool :=
  match t.spelling with
  | [c] => Lexeme.isMark t c && !isSeparator c && !Lexeme.isLiteralStart c
  | _ => false

theorem spells_mark (hgap : gap.toList.all isSeparator = true) (h : isPlainMark t = true)
    (hrest : rest.head? = some d) (hd : Lexeme.isMarkEnd d = false) : (mark gap t).Spells rest := by
  unfold isPlainMark at h
  split at h
  next c hspelling =>
    simp only [Bool.and_eq_true, Bool.not_eq_true'] at h
    rw [mark, hspelling]
    refine .mark (List.all_eq_true.1 hgap) h.1.1 h.1.2 h.2 fun e he => ?_
    rw [hrest] at he
    rwa [← Option.some.inj he]
  · cases h

theorem spells_period (hgap : gap.toList.all isSeparator = true) (hrest : rest.head? = some d)
    (hdigit : d.isDigit = false) (hd : Lexeme.isMarkEnd d = false) :
    (mark gap .period).Spells rest := by
  obtain ⟨ds, rfl⟩ := List.head?_eq_some_iff.1 hrest
  exact .period (List.all_eq_true.1 hgap) hdigit hd

theorem spells_newline (hrest : rest.head? = some d) (hd : Lexeme.isMarkEnd d = false) :
    newline.Spells rest := by
  refine .newline nofun fun e he => ?_
  rw [hrest] at he
  rwa [← Option.some.inj he]

theorem spells_comment (hgap : gap.toList.all isSeparator = true)
    (h : ∀ c ∈ cs, c ≠ '\n' ∧ c ≠ '\x00') (hrest : rest.head? = some '\n') :
    (comment gap cs).Spells rest := by
  obtain ⟨ds, rfl⟩ := List.head?_eq_some_iff.1 hrest
  exact .comment (List.all_eq_true.1 hgap) h

theorem spells_quoted (hne : cs ≠ []) (hmark : cs.head? ≠ some '\ufeff')
    (h : cs.all Token.isQuotedText = true) (hrest : rest.head? = some '"') :
    (quoted cs).Spells rest := by
  obtain ⟨ds, rfl⟩ := List.head?_eq_some_iff.1 hrest
  obtain ⟨c, us, rfl⟩ := List.exists_cons_of_ne_nil hne
  exact .quoted (fun hc => hmark (congrArg some hc)) (List.all_eq_true.1 h) (by decide)

theorem spells_closing : (mark "" .closingQuote).Spells rest := .closing

end Word

end Go
end RouteScribe
