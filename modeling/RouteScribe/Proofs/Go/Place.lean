import RouteScribe.Proofs.Go.Lexeme
import RouteScribe.Proofs.Unicode.Space
import Mathlib.Algebra.GroupWithZero.Nat

/-!
# RouteScribe.Proofs.Go.Place

Places of one text. What a place says of what precedes it, the line, the bytes before it and whether
its line is blank up to it, is what the text says; and two places of one text that are as many bytes
from its beginning are the same.

* `Cursor.Within`: a place of a text.
* `Within.behind`: what precedes it.
* `Within.exists_skip`: from a place to any that is no nearer to the beginning.
-/

namespace RouteScribe
namespace Go
namespace Cursor

variable {p q : Cursor} {cs rest : List Char}

/-- The place is one of the text `cs`. -/
def Within (cs : List Char) (p : Cursor) : Prop := ∃ n, p = (ofChars cs).skip n

theorem within_ofChars (cs : List Char) : (ofChars cs).Within cs := ⟨0, rfl⟩

theorem Within.skip (h : p.Within cs) (n : Nat) : (p.skip n).Within cs := by
  obtain ⟨m, rfl⟩ := h
  exact ⟨m + n, skip_skip m n _⟩

theorem Within.skipWhile (h : p.Within cs) (f : Char → Bool) : (p.skipWhile f).Within cs :=
  h.skip _

/-- The characters behind the last line end. -/
def lastLine (cs : List Char) : List Char := (cs.reverse.takeWhile (· ≠ '\n')).reverse

theorem lastLine_concat (cs : List Char) (c : Char) :
    lastLine (cs ++ [c]) = if c = '\n' then [] else lastLine cs ++ [c] := by
  unfold lastLine
  rw [List.reverse_append, List.reverse_singleton, List.singleton_append, List.takeWhile_cons]
  by_cases h : c = '\n'
  · simp [h]
  · simp [h]

/-- Bytes of some characters. -/
def size (cs : List Char) : Nat := (cs.map Char.utf8Size).sum

/-- The place has the text `before` before it. -/
structure Behind (before : List Char) (p : Cursor) : Prop where
  offset : p.offset = size before
  row : p.row = before.count '\n'
  blank : p.blank = (lastLine before).all Unicode.isSpace

theorem Behind.past {before : List Char} (h : Behind before p) (c : Char) (cs : List Char) :
    Behind (before ++ [c]) (p.past c cs) := by
  refine ⟨?_, ?_, ?_⟩
  · simp [Cursor.past, size, h.offset]
  · by_cases hc : c = '\n'
    · simp [Cursor.past, hc, h.row]
    · simp [Cursor.past, hc, h.row]
  · rw [lastLine_concat]
    by_cases hc : c = '\n'
    · simp [Cursor.past, hc]
    · simp [Cursor.past, hc, h.blank]

theorem Within.exists_before (h : p.Within cs) :
    ∃ before, cs = before ++ p.rest ∧ Behind before p := by
  obtain ⟨n, rfl⟩ := h
  induction n with
  | zero => exact ⟨[], rfl, ⟨rfl, rfl, rfl⟩⟩
  | succ n ih =>
    obtain ⟨before, hcs, hbehind⟩ := ih
    rw [← skip_skip n 1, Cursor.skip]
    split
    · exact ⟨before, hcs, hbehind⟩
    next c rest hrest =>
      refine ⟨before ++ [c], ?_, hbehind.past c rest⟩
      rw [List.append_assoc]
      rw [hrest] at hcs
      exact hcs

/-- The part of the text `cs` before a place. -/
def before (cs : List Char) (p : Cursor) : List Char := cs.take (cs.length - p.rest.length)

theorem Within.behind (h : p.Within cs) : cs = p.before cs ++ p.rest ∧ Behind (p.before cs) p := by
  obtain ⟨us, hcs, hbehind⟩ := h.exists_before
  have hus : p.before cs = us := by
    have hlen : cs.length - p.rest.length = us.length := by
      rw [congrArg List.length hcs, List.length_append]
      omega
    rw [before, hlen, hcs, List.take_left]
  rw [hus]
  exact ⟨hcs, hbehind⟩

/-- The row of a place in the text `cs`, counted from 0. -/
def rowIn (cs : List Char) (p : Cursor) : Nat := (p.before cs).count '\n'

/-- Nothing but white space precedes the place on its line. -/
def OpensLine (cs : List Char) (p : Cursor) : Prop := Unicode.Blank (lastLine (p.before cs))

theorem Within.row_eq (h : p.Within cs) : p.row = p.rowIn cs := h.behind.2.row

theorem Within.blank_iff (h : p.Within cs) : p.blank = true ↔ p.OpensLine cs := by
  rw [h.behind.2.blank, List.all_eq_true]
  rfl

theorem offset_le_skip (n : Nat) (p : Cursor) : p.offset ≤ (p.skip n).offset :=
  (takeBytes_take n p).1

theorem offset_lt_skip (h : p.rest ≠ []) (n : Nat) : p.offset < (p.skip (n + 1)).offset := by
  rw [skip]
  split
  next hrest => exact absurd hrest h
  next c cs hrest =>
    have hpast : (p.past c cs).offset = p.offset + c.utf8Size := rfl
    have hpos : 0 < c.utf8Size := Char.utf8Size_pos c
    have hle := offset_le_skip n (p.past c cs)
    omega

/-- From a place of a text one comes to any other that is no nearer to the beginning. -/
theorem Within.exists_skip (hp : p.Within cs) (hq : q.Within cs) (h : p.offset ≤ q.offset) :
    ∃ n, q = p.skip n := by
  obtain ⟨m, rfl⟩ := hp
  obtain ⟨n, rfl⟩ := hq
  rcases Nat.le_total m n with hle | hle
  · exact ⟨n - m, by rw [skip_skip, Nat.add_sub_cancel' hle]⟩
  · refine ⟨0, ?_⟩
    rw [← Nat.add_sub_cancel' hle, ← skip_skip n (m - n)] at h ⊢
    generalize (ofChars cs).skip n = r at h ⊢
    -- Nothing is left to go on to.
    cases hd : m - n with
    | zero => rfl
    | succ d =>
      by_cases hrest : r.rest = []
      · simp only [Cursor.skip, hrest]
      · rw [hd] at h
        exact absurd h (Nat.not_le_of_lt (offset_lt_skip hrest d))

/-- The text between two places holds what is between places between them. -/
theorem Within.infix_textTo {p' q' : Cursor} (hp : p.Within cs) (hp' : p'.Within cs)
    (hq' : q'.Within cs) (hq : q.Within cs) (h₁ : p.offset ≤ p'.offset) (h₂ : p'.offset ≤ q'.offset)
    (h₃ : q'.offset ≤ q.offset) : (p'.textTo q').toList <:+: (p.textTo q).toList := by
  obtain ⟨l, rfl⟩ := hp.exists_skip hp' h₁
  obtain ⟨m, rfl⟩ := hp'.exists_skip hq' h₂
  obtain ⟨n, rfl⟩ := hq'.exists_skip hq h₃
  have hall : (p.textTo (((p.skip l).skip m).skip n)).toList = p.rest.take (l + m + n) := by
    rw [skip_skip, skip_skip, toList_textTo_skip, Nat.add_assoc]
  have hprefix : p.rest.take (l + m) <+: p.rest.take (l + m + n) :=
    List.take_prefix_take_left (Nat.le_add_right _ _)
  rw [hall, toList_textTo_skip, skip_rest, List.take_drop]
  exact (List.drop_suffix _ _).isInfix.trans hprefix.isInfix

end Cursor
end Go
end RouteScribe
