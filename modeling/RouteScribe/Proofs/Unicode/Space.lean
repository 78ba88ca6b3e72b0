import RouteScribe.Unicode.Space
import Mathlib.Data.List.DropRight

/-!
# RouteScribe.Proofs.Unicode.Space

Trimming. White space at the end of a text is what comes behind its last other character, so what
stands in front of that character makes no difference to it.

* `trimEndChars_append`: trimming the end of a text with more in front.
* `words_eq_nil_iff`: only blank texts have no words.
-/

namespace RouteScribe
namespace Unicode

variable {cs sp : List Char}

/-- The characters are white space. -/
def Blank (cs : List Char) : Prop := ∀ c ∈ cs, isSpace c = true

theorem blank_takeWhile (cs : List Char) : Blank (cs.takeWhile isSpace) :=
  fun _ hc => List.mem_takeWhile_imp hc

theorem trimEndChars_eq (cs : List Char) : trimEndChars cs = cs.rdropWhile isSpace := rfl

theorem trimEndChars_concat (cs : List Char) (c : Char) :
    trimEndChars (cs ++ [c]) = if isSpace c then trimEndChars cs else cs ++ [c] := by
  simp only [trimEndChars_eq, List.rdropWhile_concat]

theorem trimEndChars_append_blank (h : Blank sp) (cs : List Char) :
    trimEndChars (cs ++ sp) = trimEndChars cs := by
  induction sp using List.reverseRecOn with
  | nil => rw [List.append_nil]
  | append_singleton sp c ih =>
    obtain ⟨hsp, hc⟩ := List.forall_mem_append.1 h
    rw [← List.append_assoc, trimEndChars_concat, hc c (List.mem_singleton_self c), if_pos rfl,
      ih hsp]

theorem trimEndChars_eq_nil_iff : trimEndChars cs = [] ↔ Blank cs := List.rdropWhile_eq_nil_iff

theorem trimEndChars_append (xs : List Char) (h : trimEndChars cs ≠ []) :
    trimEndChars (xs ++ cs) = xs ++ trimEndChars cs := by
  induction cs using List.reverseRecOn with
  | nil => exact absurd rfl h
  | append_singleton cs c ih =>
    rw [trimEndChars_concat] at h
    rw [← List.append_assoc, trimEndChars_concat, trimEndChars_concat]
    split
    next hc =>
      rw [if_pos hc] at h
      exact ih h
    · rw [List.append_assoc]

/-- A text is what is left of it, and white space. -/
theorem exists_blank_append (cs : List Char) : ∃ sp, Blank sp ∧ cs = trimEndChars cs ++ sp := by
  induction cs using List.reverseRecOn with
  | nil => exact ⟨[], nofun, rfl⟩
  | append_singleton cs c ih =>
    rw [trimEndChars_concat]
    split
    next hc =>
      obtain ⟨sp, hsp, heq⟩ := ih
      refine ⟨sp ++ [c], List.forall_mem_append.2 ⟨hsp, fun d hd => ?_⟩, ?_⟩
      · rwa [List.mem_singleton.1 hd]
      · rw [← List.append_assoc, ← heq]
    · exact ⟨[], nofun, (List.append_nil _).symm⟩

theorem trimStartChars_append_blank (h : Blank sp) (cs : List Char) :
    trimStartChars (sp ++ cs) = trimStartChars cs :=
  List.dropWhile_append_of_pos h

theorem trimStartChars_cons_of_not {c : Char} (h : isSpace c = false) (cs : List Char) :
    trimStartChars (c :: cs) = c :: cs := by
  rw [trimStartChars, List.dropWhile_cons_of_neg (by simp [h])]

theorem head?_trimStartChars (cs : List Char) {c : Char}
    (h : (trimStartChars cs).head? = some c) : isSpace c = false := by
  have hhead := List.head?_dropWhile_not isSpace cs
  rw [show cs.dropWhile isSpace = trimStartChars cs from rfl, h] at hhead
  simpa using hhead

theorem head?_of_trimChars_eq {c : Char} (h : trimChars cs = cs) (hc : cs.head? = some c) :
    isSpace c = false := by
  refine head?_trimStartChars cs ?_
  obtain ⟨sp, -, heq⟩ := exists_blank_append (trimStartChars cs)
  rw [heq, show trimEndChars (trimStartChars cs) = trimChars cs from rfl, h]
  cases cs with
  | nil => cases hc
  | cons d ds => exact hc

theorem trimStartChars_append_of_ne_nil {xs : List Char} (hne : xs ≠ []) (h : trimChars xs = xs)
    (cs : List Char) : trimStartChars (xs ++ cs) = xs ++ cs := by
  obtain ⟨c, xs, rfl⟩ := List.exists_cons_of_ne_nil hne
  exact trimStartChars_cons_of_not (head?_of_trimChars_eq h rfl) _

theorem trimChars_trimChars (cs : List Char) : trimChars (trimChars cs) = trimChars cs := by
  have hend : trimEndChars (trimChars cs) = trimChars cs := List.rdropWhile_idempotent isSpace _
  rcases hcs : trimChars cs with _ | ⟨c, t⟩
  · rfl
  · obtain ⟨sp, -, heq⟩ := exists_blank_append (trimStartChars cs)
    have hc : isSpace c = false := by
      refine head?_trimStartChars cs ?_
      rw [heq, show trimEndChars (trimStartChars cs) = trimChars cs from rfl, hcs]
      rfl
    rw [trimChars, trimStartChars_cons_of_not hc, ← hcs, hend]

theorem trimChars_eq_nil_iff : trimChars cs = [] ↔ Blank cs := by
  rw [trimChars, trimEndChars_eq_nil_iff]
  constructor
  · intro h c hc
    rw [← List.takeWhile_append_dropWhile (p := isSpace) (l := cs), List.mem_append] at hc
    exact hc.elim (blank_takeWhile cs c) (h c)
  · exact fun h c hc => h c ((List.dropWhile_suffix _).subset hc)

theorem trimChars_append_blank (h : Blank sp) (cs : List Char) :
    trimChars (cs ++ sp) = trimChars cs := by
  by_cases hcs : Blank cs
  · rw [trimChars_eq_nil_iff.2 hcs, trimChars_eq_nil_iff.2 (List.forall_mem_append.2 ⟨hcs, h⟩)]
  · have hstart : trimStartChars (cs ++ sp) = trimStartChars cs ++ sp := by
      refine List.dropWhile_append.trans (if_neg ?_)
      rw [List.isEmpty_iff, List.dropWhile_eq_nil_iff]
      exact hcs
    rw [trimChars, hstart, trimEndChars_append_blank h]
    rfl

theorem trimChars_blank_append (h : Blank sp) (cs : List Char) :
    trimChars (sp ++ cs) = trimChars cs := by
  rw [trimChars, trimStartChars_append_blank h]
  rfl

theorem trimChars_trimEndChars (cs : List Char) : trimChars (trimEndChars cs) = trimChars cs := by
  obtain ⟨sp, hsp, heq⟩ := exists_blank_append cs
  rw [congrArg trimChars heq, trimChars_append_blank hsp]

theorem trimChars_cons_of_not {c : Char} (h : isSpace c = false) (cs : List Char) :
    trimChars (c :: cs) = c :: trimEndChars cs := by
  rw [trimChars, trimStartChars_cons_of_not h]
  by_cases hcs : trimEndChars cs = []
  · have hblank := trimEndChars_eq_nil_iff.1 hcs
    rw [hcs]
    exact (trimEndChars_append_blank hblank [c]).trans (by simp [trimEndChars, h])
  · exact trimEndChars_append [c] hcs

theorem trim_trim (s : String) : trim (trim s) = trim s := by
  rw [trim, trim, String.toList_ofList, trimChars_trimChars]

theorem wordsAux_ne_nil {acc : List Char} (h : acc ≠ []) (cs : List Char) :
    wordsAux acc cs ≠ [] := by
  induction cs generalizing acc with
  | nil => simp [wordsAux, h]
  | cons c cs ih =>
    rw [wordsAux]
    split
    · simp [h]
    · exact ih (List.cons_ne_nil _ _)

theorem wordsAux_eq_nil_iff : wordsAux [] cs = [] ↔ Blank cs := by
  induction cs with
  | nil => simp [wordsAux, Blank]
  | cons c cs ih =>
    rw [wordsAux, Blank, List.forall_mem_cons]
    split
    next hc => simpa [hc, Blank] using ih
    next hc => simp [hc, wordsAux_ne_nil (List.cons_ne_nil c [])]

/-- Only blank texts have no words. -/
theorem words_eq_nil_iff (s : String) : words s = [] ↔ Blank s.toList := wordsAux_eq_nil_iff

end Unicode
end RouteScribe
