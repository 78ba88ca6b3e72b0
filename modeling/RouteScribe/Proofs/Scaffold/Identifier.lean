import RouteScribe.Proofs.Scaffold.Grammar
import RouteScribe.Proofs.Unicode.Uppercase
import RouteScribe.Scaffold.Name

/-!
# RouteScribe.Proofs.Scaffold.Identifier

Names from the command line as identifiers of the grammar. A name that the grammar would read is
still one with its first character in upper case, and then it is no keyword.

* `IsGoName`: the grammar reads the name, as an identifier or a keyword.
* `isGoName_of_ascii`: an ASCII name that is accepted is read.
* `IsGoName.isPlainName_capitalize`: the name in upper case is one identifier.
-/

namespace RouteScribe
namespace Scaffold

open Go

variable {s : String} {c : Char}

/-- The name begins with a letter or an underscore and goes on with letters, digits and underscores,
as the grammar understands them. It is not the blank name, which is an underscore alone. -/
structure IsGoName (s : String) : Prop where
  start : s.toList.head?.any isNameStart = true
  chars : ∀ c ∈ s.toList, isNameChar c = true
  ne_blank : s ≠ "_"

/-! ## ASCII -/

theorem toNat_lt_of_isAlpha (h : c.isAlpha = true) : c.toNat < 0x80 := by
  change (decide ('A'.val ≤ c.val ∧ c.val ≤ 'Z'.val)
    || (decide ('a'.val ≤ c.val) && decide (c.val ≤ 'z'.val))) = true at h
  simp only [Bool.or_eq_true, Bool.and_eq_true, decide_eq_true_eq, UInt32.le_iff_toNat_le] at h
  rcases h with ⟨-, h⟩ | ⟨-, h⟩
  · exact Nat.lt_of_le_of_lt h (by decide)
  · exact Nat.lt_of_le_of_lt h (by decide)

theorem toNat_lt_of_isDigit (h : c.isDigit = true) : c.toNat < 0x80 := by
  simp only [Char.isDigit, Bool.and_eq_true, decide_eq_true_eq, ge_iff_le,
    UInt32.le_iff_toNat_le] at h
  exact Nat.lt_of_le_of_lt h.2 (by decide)

theorem toNat_lt_of_isAlphanum (h : c.isAlphanum = true) : c.toNat < 0x80 := by
  rw [Char.isAlphanum, Bool.or_eq_true] at h
  exact h.elim toNat_lt_of_isAlpha toNat_lt_of_isDigit

theorem isNameStart_of_isAlpha (h : c.isAlpha = true) : isNameStart c = true := by
  rw [isNameStart, Unicode.isIdentifierStart, if_pos (toNat_lt_of_isAlpha h), h, Bool.or_true]

theorem isNameChar_of_isAlphanum (h : c.isAlphanum = true) : isNameChar c = true := by
  rw [isNameChar, Unicode.isIdentifierContinue, if_pos (toNat_lt_of_isAlphanum h), h,
    Bool.true_or, Bool.or_true]

/-- An ASCII name that is accepted is one that the grammar reads. -/
theorem isGoName_of_ascii (h : isIdentifier s = true) (hascii : ∀ c ∈ s.toList, c.toNat < 0x80)
    (hblank : s ≠ "_") : IsGoName s := by
  unfold isIdentifier at h
  cases hs : s.toList with
  | nil =>
    rw [hs] at h
    cases h
  | cons c cs =>
    rw [hs, List.forall_mem_cons] at hascii
    obtain ⟨hc, hcs⟩ := hascii
    rw [hs] at h
    simp only [Bool.and_eq_true, Bool.or_eq_true, List.all_eq_true, decide_eq_true_eq] at h
    have hstart : isNameStart c = true := by
      rcases h.1 with halpha | rfl
      · rw [Unicode.isAlphabetic, if_pos hc] at halpha
        exact isNameStart_of_isAlpha halpha
      · decide
    refine ⟨by rw [hs]; exact hstart, ?_, hblank⟩
    rw [hs]
    refine List.forall_mem_cons.2 ⟨isNameChar_of_isNameStart hstart, fun d hd => ?_⟩
    rcases h.2 d hd with hchar | rfl
    · rw [Unicode.isAlphanumeric, Unicode.isAlphabetic, Unicode.isNumeric, if_pos (hcs d hd),
        if_pos (hcs d hd)] at hchar
      exact isNameChar_of_isAlphanum hchar
    · decide

/-! ## Upper case -/

theorem isNameChar_of_isIdentifierContinue (h : Unicode.isIdentifierContinue c = true) :
    isNameChar c = true := Bool.or_eq_true_iff.2 (.inr h)

theorem exists_uppercaseChar_of_isNameStart (h : isNameStart c = true) : ∃ u us,
    Unicode.uppercaseChar c = u :: us ∧ isNameStart u = true ∧ u.isLower = false ∧
      (∀ v ∈ us, isNameChar v = true) ∧ (u = '_' → c = '_') := by
  rcases Bool.or_eq_true_iff.1 h with hc | hc
  · rw [eq_of_beq hc]
    exact ⟨'_', [], rfl, rfl, rfl, nofun, id⟩
  · obtain ⟨u, us, heq, hu, hlower, hus⟩ := Unicode.exists_uppercaseChar_eq hc
    refine ⟨u, us, heq, Bool.or_eq_true_iff.2 (.inr hu), hlower,
      fun v hv => isNameChar_of_isIdentifierContinue (hus v hv), ?_⟩
    rintro rfl
    exact absurd hu (by decide)

/-- With its first character in upper case a name is no keyword, whatever name is behind it. -/
theorem IsGoName.isPlainName_capitalize (h : IsGoName s) {last : List Char}
    (hlast : ∀ c ∈ last, isNameChar c = true) :
    Word.IsPlainName ((capitalize s).toList ++ last) := by
  obtain ⟨hstart, hchars, hblank⟩ := h
  unfold capitalize
  cases hs : s.toList with
  | nil =>
    rw [hs] at hstart
    cases hstart
  | cons c cs =>
    rw [hs] at hstart hchars
    obtain ⟨u, us, heq, hu, hlower, hus, hunderscore⟩ := exists_uppercaseChar_of_isNameStart hstart
    dsimp only
    rw [String.toList_ofList, heq, List.cons_append, List.cons_append]
    refine isPlainName_of_isLower hlower hu ?_ ?_
    · refine List.forall_mem_append.2 ⟨List.forall_mem_append.2 ⟨hus, fun d hd => ?_⟩, hlast⟩
      exact hchars d (List.mem_cons_of_mem c hd)
    · intro hall
      obtain ⟨hu, hrest⟩ := List.cons.inj hall
      obtain ⟨hfront, -⟩ := List.append_eq_nil_iff.1 hrest
      rw [hunderscore hu, (List.append_eq_nil_iff.1 hfront).2] at hs
      exact hblank (String.toList_inj.1 hs)

end Scaffold
end RouteScribe
