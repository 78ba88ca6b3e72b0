import RouteScribe.Text.Regex
import Mathlib.Data.List.Basic

/-!
# RouteScribe.Proofs.Text.Regex

How regular expressions match. Each kind of expression has one lemma, from which that of a whole
expression is put together; a repetition stops where the characters do if going back would not help.

* `run_chain`, `run_opt`, `run_text`, `run_oneOrMore`: the expressions made of others.
* `runMany_eq`, `runFew_eq`: repetitions.
-/

namespace RouteScribe
namespace Text
namespace Regex

variable {α : Type} {f : Char → Bool} {k : Groups → List Char → Option α} {gs : Groups}
  {cs : List Char}

@[simp] theorem run_chain_nil : (chain []).run k gs cs = k gs cs := rfl

@[simp] theorem run_chain_cons (r : Regex) (rs : List Regex) :
    (chain (r :: rs)).run k gs cs = r.run ((chain rs).run k) gs cs := rfl

theorem run_opt (r : Regex) :
    (opt r).run k gs cs = (r.run k gs cs).orElse fun _ => k gs cs := rfl

theorem run_oneOrMore_cons {c : Char} (h : f c = true) :
    (oneOrMore f).run k gs (c :: cs) = runMany f (k gs) cs := by
  rw [oneOrMore, run, run, if_pos h, run]

theorem run_oneOrMore_eq_none (h : ∀ c, cs.head? = some c → f c = false) :
    (oneOrMore f).run k gs cs = none := by
  cases cs with
  | nil => rfl
  | cons c cs => rw [oneOrMore, run, run, if_neg (by simp [h c rfl])]

theorem run_text_append (w rest : List Char) : (text w).run k gs (w ++ rest) = k gs rest := by
  induction w with
  | nil => rfl
  | cons c w ih =>
    have hc : (c == c) = true := beq_self_eq_true c
    rw [text, List.foldr_cons, run, List.cons_append, run, if_pos hc]
    exact ih

theorem run_text_eq_none {w : List Char} (h : ¬ w <+: cs) : (text w).run k gs cs = none := by
  induction w generalizing cs with
  | nil => exact absurd (List.nil_prefix) h
  | cons c w ih =>
    rw [text, List.foldr_cons, run]
    cases cs with
    | nil => rfl
    | cons d ds =>
      rw [run]
      split
      next heq =>
        obtain rfl : d = c := beq_iff_eq.1 heq
        exact ih fun hw => h (List.cons_prefix_cons.2 ⟨rfl, hw⟩)
      · rfl

theorem run_group (n : Nat) (r : Regex) : (group n r).run k gs cs
    = r.run (fun gs rest => k ((n, cs.take (cs.length - rest.length)) :: gs) rest) gs cs := rfl

theorem run_stop_of_ne_nil (h : cs ≠ []) : stop.run k gs cs = none := by
  rw [run, if_neg (by simpa using h)]

/-- As many characters as there are are matched, where to match fewer does not help. -/
theorem runMany_eq {k : List Char → Option α}
    (h : k (cs.dropWhile f) = none → ∀ us, us ≠ [] → us <:+ cs.takeWhile f →
      k (us ++ cs.dropWhile f) = none) :
    runMany f k cs = k (cs.dropWhile f) := by
  induction cs with
  | nil => rfl
  | cons c cs ih =>
    rw [runMany]
    split
    next hc =>
      rw [List.dropWhile_cons_of_pos hc, List.takeWhile_cons_of_pos hc] at h
      rw [List.dropWhile_cons_of_pos hc,
        ih fun hnone us hus hsuffix => h hnone us hus (hsuffix.trans (List.suffix_cons c _))]
      cases hk : k (cs.dropWhile f) with
      | some a => rfl
      | none =>
        have hall := h hk (c :: cs.takeWhile f) (List.cons_ne_nil _ _) List.suffix_rfl
        rw [List.cons_append, List.takeWhile_append_dropWhile] at hall
        exact hall
    next hc => rw [List.dropWhile_cons_of_neg hc]

theorem runFew_eq {k : List Char → Option α} {us rest : List Char}
    (hus : ∀ u ∈ us, f u = true)
    (hfew : ∀ vs, vs ≠ [] → vs <:+ us → k (vs ++ rest) = none)
    (hrest : k rest ≠ none ∨ ∃ c ds, rest = c :: ds ∧ f c = false) :
    runFew f k (us ++ rest) = k rest := by
  induction us with
  | nil =>
    rcases hrest with hrest | ⟨c, ds, rfl, hc⟩
    · obtain ⟨a, ha⟩ := Option.ne_none_iff_exists'.1 hrest
      cases rest with
      | nil => rfl
      | cons c ds =>
        rw [List.nil_append, runFew, ha]
        rfl
    · rw [List.nil_append, runFew, if_neg (by simp [hc])]
      cases k (c :: ds) <;> rfl
  | cons u us ih =>
    obtain ⟨hu, hall⟩ := List.forall_mem_cons.1 hus
    have hnone := hfew (u :: us) (List.cons_ne_nil _ _) List.suffix_rfl
    rw [List.cons_append] at hnone
    rw [List.cons_append, runFew, hnone, if_pos hu]
    exact ih hall fun vs hvs hsuffix => hfew vs hvs (hsuffix.trans (List.suffix_cons u us))

end Regex
end Text
end RouteScribe
