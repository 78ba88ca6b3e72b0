import Mathlib.Data.List.Lex
import Mathlib.Data.String.Basic

/-!
# RouteScribe.Proofs.Text.Bytes

The bytes of a text. Texts compare as their bytes do: a greater character has a greater first byte,
or the same and a greater rest.
-/

namespace RouteScribe
namespace Text

/-- The bytes of a text in UTF-8. -/
def bytes (s : String) : List UInt8 := s.toUTF8.data.toList

theorem bytes_eq (s : String) : bytes s = s.toList.flatMap String.utf8EncodeChar := by
  rw [← String.ofList_toList (s := s), bytes, String.toUTF8, String.toByteArray_ofList,
    List.utf8Encode, List.toList_data_toByteArray, String.toList_ofList]

theorem toNat_lt_limit (c : Char) : c.val.toNat < 0x110000 := by
  rcases c.valid with h | ⟨-, h⟩
  · omega
  · exact h

theorem lt_or_mod_lt {m n : Nat} (h : m < n) :
    m / 64 < n / 64 ∨ m / 64 = n / 64 ∧ m % 64 < n % 64 := by
  omega

/-- One of two characters that comes before the other has bytes that do, whatever follows. -/
theorem utf8EncodeChar_append_lt {c d : Char} (h : c < d) (l l' : List UInt8) :
    String.utf8EncodeChar c ++ l < String.utf8EncodeChar d ++ l' := by
  have hc := toNat_lt_limit c
  have hd := toNat_lt_limit d
  replace h : c.val.toNat < d.val.toNat := h
  simp only [String.utf8EncodeChar]
  generalize c.val.toNat = m at hc h
  generalize d.val.toNat = n at hd h
  have hdigits : m / 64 / 64 / 64 < n / 64 / 64 / 64 ∨ m / 64 / 64 / 64 = n / 64 / 64 / 64 ∧
      (m / 64 / 64 % 64 < n / 64 / 64 % 64 ∨ m / 64 / 64 % 64 = n / 64 / 64 % 64 ∧
        (m / 64 % 64 < n / 64 % 64 ∨ m / 64 % 64 = n / 64 % 64 ∧ m % 64 < n % 64)) := by
    rcases lt_or_mod_lt h with h | ⟨h, h'⟩
    · rcases lt_or_mod_lt h with h | ⟨h, h'⟩
      · rcases lt_or_mod_lt h with h | ⟨h, h'⟩
        · exact .inl h
        · exact .inr ⟨h, .inl h'⟩
      · exact .inr ⟨by rw [h], .inr ⟨by rw [h], .inl h'⟩⟩
    · exact .inr ⟨by rw [h], .inr ⟨by rw [h], .inr ⟨by rw [h], h'⟩⟩⟩
  simp only [Nat.div_div_eq_div_mul] at hdigits
  have hm : (m / 262144 % 8 + 240) % 256 = m / 262144 + 240 := by omega
  have hn : (n / 262144 % 8 + 240) % 256 = n / 262144 + 240 := by omega
  have htrail : ∀ k, (k % 64 + 128) % 256 = k % 64 + 128 := by omega
  by_cases hl : l < l' <;> split_ifs <;>
    simp only [List.cons_append, List.nil_append, List.cons_lt_cons_iff, UInt8.lt_iff_toNat_lt,
      ← UInt8.toNat_inj, UInt8.toNat_ofNat', Nat.reducePow, htrail, hm, hn, hl, and_true,
      and_false] <;>
    omega

theorem bytes_lt {s s' : String} (h : s < s') : bytes s < bytes s' := by
  rw [bytes_eq, bytes_eq]
  replace h : s.toList < s'.toList := String.lt_iff_toList_lt.1 h
  generalize s.toList = cs at h
  generalize s'.toList = cs' at h
  induction h with
  | @nil c cs =>
    rw [List.flatMap_nil, List.flatMap_cons]
    have hpos : 0 < (String.utf8EncodeChar c ++ cs.flatMap String.utf8EncodeChar).length := by
      rw [List.length_append, String.length_utf8EncodeChar]
      exact Nat.add_pos_left c.utf8Size_pos _
    obtain ⟨b, bs, hbs⟩ := List.exists_cons_of_length_pos hpos
    rw [hbs]
    exact List.Lex.nil
  | cons _ ih =>
    rw [List.flatMap_cons, List.flatMap_cons]
    exact List.Lex.append_left _ ih _
  | rel h => exact utf8EncodeChar_append_lt h _ _

end Text
end RouteScribe
