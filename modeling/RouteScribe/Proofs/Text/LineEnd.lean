import RouteScribe.Proofs.Text.Path

/-!
# RouteScribe.Proofs.Text.LineEnd

Texts with a carriage return in front of each line feed. They have the lines of the text without
them, each but the last with a carriage return at its end.
-/

namespace RouteScribe
namespace Text

/-- A text with a carriage return in front of each line feed. -/
def returnChars : List Char → List Char
  | [] => []
  | c :: cs => if c = '\n' then '\r' :: '\n' :: returnChars cs else c :: returnChars cs

/-- `returnChars` of a text. -/
def withReturns (s : String) : String := String.ofList (returnChars s.toList)

/-- The lines with a carriage return at the end of each but the last. -/
def returnLines : List (List Char) → List (List Char)
  | [] => []
  | [l] => [l]
  | l :: l' :: ls => (l ++ ['\r']) :: returnLines (l' :: ls)

variable {cs ds : List Char}

@[simp] theorem returnChars_nil : returnChars [] = [] := rfl

@[simp] theorem returnChars_feed (cs : List Char) :
    returnChars ('\n' :: cs) = '\r' :: '\n' :: returnChars cs := rfl

theorem returnChars_cons_of_ne {c : Char} (h : c ≠ '\n') (cs : List Char) :
    returnChars (c :: cs) = c :: returnChars cs := if_neg h

theorem returnChars_append (cs ds : List Char) :
    returnChars (cs ++ ds) = returnChars cs ++ returnChars ds := by
  induction cs with
  | nil => rfl
  | cons c cs ih =>
    by_cases h : c = '\n'
    · subst h
      simp [ih]
    · rw [List.cons_append, returnChars_cons_of_ne h, returnChars_cons_of_ne h, ih,
        List.cons_append]

theorem returnChars_eq_self (h : '\n' ∉ cs) : returnChars cs = cs := by
  induction cs with
  | nil => rfl
  | cons c cs ih =>
    rw [List.mem_cons, not_or] at h
    rw [returnChars_cons_of_ne (Ne.symm h.1), ih h.2]

theorem mem_returnChars {c : Char} (h : c ≠ '\r') : c ∈ returnChars cs ↔ c ∈ cs := by
  induction cs with
  | nil => rfl
  | cons d cs ih =>
    by_cases hd : d = '\n'
    · subst hd
      simp [ih, h]
    · rw [returnChars_cons_of_ne hd, List.mem_cons, List.mem_cons, ih]

theorem count_returnChars (cs : List Char) : (returnChars cs).count '\n' = cs.count '\n' := by
  induction cs with
  | nil => rfl
  | cons c cs ih =>
    by_cases h : c = '\n'
    · subst h
      simp [ih]
    · rw [returnChars_cons_of_ne h, List.count_cons_of_ne h, List.count_cons_of_ne h, ih]

@[simp] theorem toList_withReturns (s : String) :
    (withReturns s).toList = returnChars s.toList := String.toList_ofList

/-- The lines of a text with carriage returns. -/
theorem splitChars_returnChars (cs : List Char) :
    splitChars (· == '\n') (returnChars cs) = returnLines (splitChars (· == '\n') cs) := by
  induction cs with
  | nil => rfl
  | cons c cs ih =>
    obtain ⟨l, ls, hls⟩ := List.exists_cons_of_ne_nil (splitChars_ne_nil (· == '\n') cs)
    by_cases h : c = '\n'
    · subst h
      simp [splitChars, ih, hls, returnLines]
    · have hc : (c == '\n') = false := beq_false_of_ne h
      rw [returnChars_cons_of_ne h, splitChars, splitChars, ih, hls, hc]
      cases ls with
      | nil => rfl
      | cons l' ls => rfl

end Text
end RouteScribe
