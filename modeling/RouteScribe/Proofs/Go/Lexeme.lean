import RouteScribe.Go.Lexeme

/-!
# RouteScribe.Proofs.Go.Lexeme

Where a token that is read stands, and what its text may be: an identifier is made of name
characters, and a comment is a text between its marks or up to the end of a line.

* `Pattern.matches_longest`: what a pattern is found to match is in its language.
* `toList_textTo_skip`: the text between a place and one further on.
* `Lexeme.of_next`: the place and the text of a token.
-/

namespace RouteScribe
namespace Go

/-- The characters that names are made of. -/
def isNameChar (c : Char) : Bool := c == '_' || Unicode.isIdentifierContinue c

namespace Pattern

/-- The pattern matches these characters as a whole. -/
def Matches : Pattern → List Char → Prop
  | nothing, cs => cs = []
  | one f, cs => ∃ c, f c = true ∧ cs = [c]
  | seq a b, cs => ∃ us vs, a.Matches us ∧ b.Matches vs ∧ cs = us ++ vs
  | either a b, cs => a.Matches cs ∨ b.Matches cs
  | many a, cs => ∃ uss : List (List Char), (∀ us ∈ uss, a.Matches us) ∧ cs = uss.flatten

variable {p q : Pattern} {cs : List Char} {c : Char} {f : Char → Bool}

theorem matches_nil (h : p.nullable = true) : p.Matches [] := by
  induction p with
  | nothing => rfl
  | one g => cases h
  | seq a b iha ihb =>
    rw [nullable, Bool.and_eq_true] at h
    exact ⟨[], [], iha h.1, ihb h.2, rfl⟩
  | either a b iha ihb =>
    rcases Bool.or_eq_true_iff.1 h with h | h
    · exact .inl (iha h)
    · exact .inr (ihb h)
  | many a _ => exact ⟨[], nofun, rfl⟩

theorem matches_before (h : (p.before q).Matches cs) :
    ∃ us vs, p.Matches us ∧ q.Matches vs ∧ cs = us ++ vs := by
  cases p with
  | nothing => exact ⟨[], cs, rfl, h, rfl⟩
  | one g => exact h
  | seq a b => exact h
  | either a b => exact h
  | many a => exact h

theorem matches_of_after : ∀ {q : Pattern} {cs : List Char}, q ∈ p.after c → q.Matches cs →
    p.Matches (c :: cs) := by
  induction p with
  | nothing =>
    intro q cs hq
    cases hq
  | one g =>
    intro q cs hq h
    simp only [after] at hq
    split at hq
    next hg =>
      rw [List.mem_singleton.1 hq] at h
      exact ⟨c, hg, congrArg (c :: ·) h⟩
    · cases hq
  | seq a b iha ihb =>
    intro q cs hq h
    have hleft : q ∈ (a.after c).map (·.before b) → (seq a b).Matches (c :: cs) := by
      intro hq
      obtain ⟨a', ha', rfl⟩ := List.mem_map.1 hq
      obtain ⟨us, vs, hus, hvs, rfl⟩ := matches_before h
      exact ⟨c :: us, vs, iha ha' hus, hvs, rfl⟩
    simp only [after] at hq
    split at hq
    next hnull =>
      rcases List.mem_append.1 hq with hq | hq
      · exact hleft hq
      · exact ⟨[], c :: cs, matches_nil hnull, ihb hq h, rfl⟩
    · exact hleft hq
  | either a b iha ihb =>
    intro q cs hq h
    rcases List.mem_append.1 hq with hq | hq
    · exact .inl (iha hq h)
    · exact .inr (ihb hq h)
  | many a ih =>
    intro q cs hq h
    obtain ⟨a', ha', rfl⟩ := List.mem_map.1 hq
    obtain ⟨us, vs, hus, ⟨uss, huss, rfl⟩, rfl⟩ := matches_before h
    exact ⟨(c :: us) :: uss, List.forall_mem_cons.2 ⟨ih ha' hus, huss⟩, rfl⟩

theorem matches_run (cs : List Char) : ∀ {ps : List Pattern} {n m : Nat} {best : Option Nat},
    (run ps cs n best).1 = some m →
    best = some m ∨ n ≤ m ∧ ∃ p ∈ ps, p.Matches (cs.take (m - n)) := by
  induction cs with
  | nil =>
    intro ps n m best h
    simp only [run] at h
    split at h
    next hany =>
      cases h
      obtain ⟨p, hp, hnull⟩ := List.any_eq_true.1 hany
      refine .inr ⟨Nat.le_refl n, p, hp, ?_⟩
      rw [List.take_nil]
      exact matches_nil hnull
    · exact .inl h
  | cons d cs ih =>
    intro ps n m best h
    have hbest : (if ps.any nullable then some n else best) = some m →
        best = some m ∨ n ≤ m ∧ ∃ p ∈ ps, p.Matches ((d :: cs).take (m - n)) := by
      intro hb
      split at hb
      next hany =>
        cases hb
        obtain ⟨p, hp, hnull⟩ := List.any_eq_true.1 hany
        refine .inr ⟨Nat.le_refl n, p, hp, ?_⟩
        rw [Nat.sub_self, List.take_zero]
        exact matches_nil hnull
      · exact .inl hb
    cases hqs : ps.flatMap (after d) with
    | nil =>
      simp only [run, hqs] at h
      exact hbest h
    | cons q qs =>
      simp only [run, hqs] at h
      rcases ih h with hb | ⟨hle, r, hr, hmatches⟩
      · exact hbest hb
      · rw [← hqs] at hr
        obtain ⟨p, hp, hr⟩ := List.mem_flatMap.1 hr
        refine .inr ⟨by omega, p, hp, ?_⟩
        have hsub : m - n = (m - (n + 1)) + 1 := by omega
        rw [hsub, List.take_succ_cons]
        exact matches_of_after hr hmatches

theorem matches_longest {n : Nat} (h : p.longest cs = some n) : p.Matches (cs.take n) := by
  rcases matches_run cs h with hb | ⟨_, p', hp, hmatches⟩
  · cases hb
  · rw [List.mem_singleton.1 hp] at hmatches
    exact hmatches

/-- Every character that a part of the pattern admits satisfies `f`. -/
def Over (f : Char → Bool) : Pattern → Prop
  | nothing => True
  | one g => ∀ c, g c = true → f c = true
  | seq a b => a.Over f ∧ b.Over f
  | either a b => a.Over f ∧ b.Over f
  | many a => a.Over f

theorem Over.of_matches (hp : p.Over f) : ∀ {cs : List Char}, p.Matches cs →
    ∀ c ∈ cs, f c = true := by
  induction p with
  | nothing =>
    intro cs h c hc
    rw [show cs = [] from h] at hc
    cases hc
  | one g =>
    rintro cs ⟨d, hd, rfl⟩ c hc
    rw [List.mem_singleton.1 hc]
    exact hp d hd
  | seq a b iha ihb =>
    rintro cs ⟨us, vs, hus, hvs, rfl⟩ c hc
    rcases List.mem_append.1 hc with hc | hc
    · exact iha hp.1 hus c hc
    · exact ihb hp.2 hvs c hc
  | either a b iha ihb =>
    rintro cs (h | h) c hc
    · exact iha hp.1 h c hc
    · exact ihb hp.2 h c hc
  | many a ih =>
    rintro cs ⟨uss, huss, rfl⟩ c hc
    obtain ⟨us, hus, hc⟩ := List.mem_flatten.1 hc
    exact ih hp (huss us hus) c hc

theorem matches_char {d : Char} (h : (char d).Matches cs) : cs = [d] := by
  obtain ⟨c, hc, rfl⟩ := h
  rw [beq_iff_eq.1 hc]

theorem exists_concat_of_matches {d : Char} (h : (seq (char d) (many (char d))).Matches cs) :
    ∃ us, cs = us ++ [d] := by
  obtain ⟨us, vs, hus, ⟨uss, huss, rfl⟩, rfl⟩ := h
  rw [matches_char hus]
  rcases List.eq_nil_or_concat uss with rfl | ⟨tss, ts, rfl⟩
  · exact ⟨[], rfl⟩
  · rw [List.concat_eq_append] at huss ⊢
    have hts := matches_char (huss ts (List.mem_append_right _ List.mem_cons_self))
    exact ⟨[d] ++ tss.flatten, by rw [hts, List.flatten_append]; simp⟩

end Pattern

/-- The text of a comment: between marks, or up to the end of a line. -/
def IsComment (cs : List Char) : Prop :=
  (∃ us, cs = '/' :: '/' :: us ∧ '\n' ∉ us) ∨ ∃ us, cs = '/' :: '*' :: (us ++ ['*', '/'])

theorem Token.isComment_of_matches {cs : List Char} (h : commentPattern.Matches cs) :
    IsComment cs := by
  obtain ⟨us, vs, hus, hvs, rfl⟩ := h
  rw [Pattern.matches_char hus]
  rcases hvs with ⟨us, vs, hus, ⟨uss, huss, rfl⟩, rfl⟩ | h
  · rw [Pattern.matches_char hus]
    refine .inl ⟨_, rfl, fun hmem => ?_⟩
    obtain ⟨us, hus, hc⟩ := List.mem_flatten.1 hmem
    obtain ⟨c, hline, rfl⟩ := huss us hus
    rw [← List.mem_singleton.1 hc] at hline
    simp at hline
  · obtain ⟨_, _, hopen, ⟨as, _, _, ⟨bs, _, hstar, ⟨ds, _, hstars, ⟨es, _, ⟨ess, hess, rfl⟩, hclose,
      rfl⟩, rfl⟩, rfl⟩, rfl⟩, rfl⟩ := h
    rw [Pattern.matches_char hopen, Pattern.matches_char hclose]
    -- The stars before the last mark belong to the first run of stars or to the last one.
    have hend : ∃ us, bs ++ (ds ++ ess.flatten) = us ++ ['*'] := by
      rcases List.eq_nil_or_concat ess with rfl | ⟨tss, ts, rfl⟩
      · rw [List.flatten_nil, List.append_nil]
        exact Pattern.exists_concat_of_matches ⟨bs, ds, hstar, hstars, rfl⟩
      · rw [List.concat_eq_append] at hess ⊢
        obtain ⟨fs, _, _, ⟨gs, _, _, hlast, rfl⟩, rfl⟩ :=
          hess ts (List.mem_append_right _ List.mem_cons_self)
        obtain ⟨us, rfl⟩ := Pattern.exists_concat_of_matches hlast
        refine ⟨bs ++ (ds ++ (tss.flatten ++ (fs ++ (gs ++ us)))), ?_⟩
        simp only [List.flatten_append, List.flatten_singleton, List.append_assoc]
    obtain ⟨us, hus⟩ := hend
    refine .inr ⟨as ++ us, ?_⟩
    have hsplit : bs ++ (ds ++ (ess.flatten ++ ['/'])) = us ++ ['*', '/'] := by
      rw [← List.append_assoc, ← List.append_assoc, List.append_assoc bs, hus, List.append_assoc]
      rfl
    simp only [List.singleton_append, hsplit, List.append_assoc]

namespace Cursor

theorem skip_skip (m n : Nat) (p : Cursor) : (p.skip m).skip n = p.skip (m + n) := by
  induction m generalizing p with
  | zero => rw [Nat.zero_add, skip]
  | succ m ih =>
    rw [Nat.succ_add, skip, skip]
    cases h : p.rest with
    | nil =>
      cases n with
      | zero => rfl
      | succ n =>
        dsimp only
        rw [skip, h]
    | cons c cs => exact ih _

theorem takeBytes_take (n : Nat) (p : Cursor) :
    p.offset ≤ (p.skip n).offset ∧
      takeBytes ((p.skip n).offset - p.offset) p.rest = p.rest.take n := by
  induction n generalizing p with
  | zero =>
    refine ⟨Nat.le_refl _, ?_⟩
    rw [skip, Nat.sub_self]
    cases p.rest with
    | nil => rfl
    | cons c cs => rfl
  | succ n ih =>
    unfold skip
    split
    next h =>
      refine ⟨Nat.le_refl _, ?_⟩
      rw [h]
      rfl
    next c cs h =>
      obtain ⟨hle, htake⟩ := ih (p.past c cs)
      have hpos : 0 < c.utf8Size := Char.utf8Size_pos c
      have hpast : (p.past c cs).offset = p.offset + c.utf8Size := rfl
      have hrest : (p.past c cs).rest = cs := rfl
      rw [hpast] at hle htake
      rw [hrest] at htake
      have hne : ((p.past c cs).skip n).offset - p.offset ≠ 0 := by omega
      refine ⟨by omega, ?_⟩
      rw [h, takeBytes, if_neg hne, List.take_succ_cons, ← htake, Nat.sub_sub]

theorem toList_textTo_skip (n : Nat) (p : Cursor) : (p.textTo (p.skip n)).toList = p.rest.take n := by
  rw [textTo, String.toList_ofList, (takeBytes_take n p).2]

theorem textTo_self (p : Cursor) : p.textTo p = "" := by
  unfold textTo
  rw [Nat.sub_self]
  cases p.rest with
  | nil => rfl
  | cons c cs => rfl

end Cursor

theorem Token.over_identifierPattern : Token.identifierPattern.Over isNameChar := by
  refine ⟨fun c hc => ?_, fun c hc => hc⟩
  rcases Bool.or_eq_true_iff.1 hc with hc | hc
  · exact Bool.or_eq_true_iff.2 (.inl hc)
  · exact Bool.or_eq_true_iff.2 (.inr (Unicode.isIdentifierContinue_of_start hc))

namespace Lexeme

theorem longer_eq_some {best : Option (Token × Nat)} {t : Token} {n : Nat} {r : Token × Nat}
    (h : longer best t n = some r) : best = some r ∨ (t, n) = r := by
  unfold longer at h
  split at h
  · exact .inr (Option.some.inj h)
  · split at h
    · exact .inr (Option.some.inj h)
    · exact .inl h

theorem of_foldl_spelling {admitted : TokenSet} {cs : List Char} {r : Token × Nat} (ts : List Token)
    (b : Option (Token × Nat))
    (h : ts.foldl (fun b t => if admitted.has t && t.spelling.isPrefixOf cs then
      longer b t t.spelling.length else b) b = some r) :
    b = some r ∨ r.1 ∈ ts ∧ cs.take r.2 = r.1.spelling := by
  induction ts generalizing b with
  | nil => exact .inl h
  | cons u ts ih =>
    rcases ih _ h with hb | ⟨hmem, hspell⟩
    · dsimp only at hb
      split at hb
      next hfits =>
        rcases longer_eq_some hb with hb | rfl
        · exact .inl hb
        · rw [Bool.and_eq_true, List.isPrefixOf_iff_prefix] at hfits
          exact .inr ⟨List.mem_cons_self, (List.prefix_iff_eq_take.1 hfits.2).symm⟩
      · exact .inl hb
    · exact .inr ⟨List.mem_cons_of_mem _ hmem, hspell⟩

theorem of_foldl_longest {admitted : TokenSet} {cs : List Char} {r : Token × Nat}
    (ps : List (Token × Pattern)) (b : Option (Token × Nat))
    (h : ps.foldl (fun b (t, p) => if admitted.has t then
      match p.longest cs with
      | some n => longer b t n
      | none => b
      else b) b = some r) :
    b = some r ∨ ∃ p, (r.1, p) ∈ ps ∧ p.longest cs = some r.2 := by
  induction ps generalizing b with
  | nil => exact .inl h
  | cons q ps ih =>
    rcases ih _ h with hb | ⟨p, hmem, hp⟩
    · dsimp only at hb
      split at hb
      · split at hb
        next m hm =>
          rcases longer_eq_some hb with hb | rfl
          · exact .inl hb
          · exact .inr ⟨q.2, List.mem_cons_self, hm⟩
        · exact .inl hb
      · exact .inl hb
    · exact .inr ⟨p, List.mem_cons_of_mem _ hmem, hp⟩

theorem best?_eq_some {admitted : TokenSet} {cs : List Char} {t : Token} {n : Nat}
    (h : best? admitted cs = some (t, n)) :
    t ∈ Token.punctuation ∧ cs.take n = t.spelling ∨
      ∃ p, (t, p) ∈ Token.patterned ∧ p.Matches (cs.take n) := by
  rcases of_foldl_longest _ _ h with h | ⟨p, hmem, hlong⟩
  · rcases of_foldl_spelling _ _ h with h | h
    · cases h
    · exact .inl h
  · exact .inr ⟨p, hmem, Pattern.matches_longest hlong⟩

end Lexeme

/-- The token may have this text, if it is a name, a comment or a period. -/
structure Token.MayBe (t : Token) (cs : List Char) : Prop where
  name : t = .identifier → ∀ c ∈ cs, isNameChar c = true
  comment : t = .comment → IsComment cs
  period : t = .period → cs = ['.']

namespace Lexeme

theorem mayBe_of_best? {admitted : TokenSet} {cs : List Char} {t : Token} {n : Nat}
    (h : best? admitted cs = some (t, n)) : t.MayBe (cs.take n) := by
  rcases best?_eq_some h with ⟨hmem, hspell⟩ | ⟨q, hmem, hmatches⟩
  · refine ⟨fun ht => ?_, fun ht => ?_, fun ht => ?_⟩
    · exact absurd (ht ▸ hmem) (by decide)
    · exact absurd (ht ▸ hmem) (by decide)
    · rw [hspell, ht]
      rfl
  · refine ⟨fun ht => ?_, fun ht => ?_, fun ht => ?_⟩
    · have hq : q = Token.identifierPattern := by
        simpa [Token.patterned, ht] using hmem
      exact Token.over_identifierPattern.of_matches (hq ▸ hmatches)
    · have hq : q = Token.commentPattern := by
        simpa [Token.patterned, ht] using hmem
      exact Token.isComment_of_matches (hq ▸ hmatches)
    · simp [Token.patterned, ht] at hmem

theorem mayBe_of_part? {admitted : TokenSet} {cs us : List Char} {t : Token} {n : Nat}
    (h : part? admitted cs = some (t, n)) : t.MayBe us := by
  have hpart : t = .rawText ∨ t = .quotedText ∨ t = .closingQuote ∨ t = .escape := by
    unfold part? at h
    simp only at h
    split at h
    · cases h
      exact .inl rfl
    split at h
    · cases h
      exact .inr (.inl rfl)
    split at h
    · cases h
      exact .inr (.inr (.inl rfl))
    split at h
    · obtain ⟨m, _, hm⟩ := Option.map_eq_some_iff.1 h
      cases hm
      exact .inr (.inr (.inr rfl))
    · cases h
  rcases hpart with rfl | rfl | rfl | rfl <;> exact ⟨nofun, nofun, nofun⟩

/-- A token that is found stands behind the place where reading began, and its text is one that it
may have. -/
theorem of_next {admitted : TokenSet} {p : Cursor} {l : Lexeme} (h : next admitted p = .ok l) :
    (∃ m, l.start = p.skip m) ∧ (∃ n, l.stop = l.start.skip n) ∧
      l.token.MayBe (l.start.textTo l.stop).toList := by
  unfold next at h
  extract_lets q a b r at h
  have hq : ∃ m, q = p.skip m := by
    by_cases hmark : (p.offset == 0 && p.rest.head? == some '\ufeff') = true
    · exact ⟨1, if_pos hmark⟩
    · exact ⟨0, if_neg hmark⟩
  have hr : ∃ m, r = p.skip m := by
    obtain ⟨m, hm⟩ := hq
    exact ⟨_, by rw [show r = q.skip _ from rfl, hm, Cursor.skip_skip]⟩
  split at h
  next t n hpart =>
    cases h
    exact ⟨hq, ⟨n, rfl⟩, mayBe_of_part? hpart⟩
  · split at h
    · cases h
      refine ⟨hr, ⟨0, rfl⟩, ?_⟩
      dsimp only
      split <;> exact ⟨nofun, nofun, nofun⟩
    · split at h
      next t n hbest =>
        cases h
        refine ⟨hr, ⟨n, rfl⟩, ?_⟩
        rw [Cursor.toList_textTo_skip]
        exact mayBe_of_best? hbest
      · cases h

theorem of_next_error {admitted : TokenSet} {p : Cursor} {e : Cursor × Cursor}
    (h : next admitted p = .error e) : (∃ m, e.1 = p.skip m) ∧ ∃ n, e.2 = e.1.skip n := by
  unfold next at h
  extract_lets q a b r at h
  have hr : ∃ m, r = p.skip m := by
    by_cases hmark : (p.offset == 0 && p.rest.head? == some '\ufeff') = true
    · exact ⟨_, by rw [show r = q.skip _ from rfl, show q = p.skip 1 from if_pos hmark,
        Cursor.skip_skip]⟩
    · exact ⟨_, by rw [show r = q.skip _ from rfl, show q = p from if_neg hmark]⟩
  split at h
  · cases h
  split at h
  · cases h
  split at h
  · cases h
  · cases h
    exact ⟨hr, _, rfl⟩

end Lexeme
end Go
end RouteScribe
