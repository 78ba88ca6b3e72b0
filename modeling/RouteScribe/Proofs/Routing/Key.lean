import RouteScribe.Proofs.Go.Declaration
import RouteScribe.Routing.Route

/-!
# RouteScribe.Proofs.Routing.Key

The text of a key tells the key. Import paths may hold dots, but the names of types and methods do
not, so the last two dots are those between the parts.
-/

namespace RouteScribe
namespace Routing

/-- What stands behind the last occurrence of `a` is told by the whole. -/
theorem append_cons_inj {α : Type} {a : α} {ys ys' : List α} (hy : a ∉ ys) (hy' : a ∉ ys') :
    ∀ {xs xs' : List α}, xs ++ a :: ys = xs' ++ a :: ys' → xs = xs' ∧ ys = ys' := by
  intro xs
  induction xs with
  | nil =>
    intro xs' h
    cases xs' with
    | nil => exact ⟨rfl, (List.cons.inj h).2⟩
    | cons x' xs' =>
      have htail : ys = xs' ++ a :: ys' := (List.cons.inj h).2
      rw [htail] at hy
      exact absurd (List.mem_append_right _ List.mem_cons_self) hy
  | cons x xs ih =>
    intro xs' h
    cases xs' with
    | nil =>
      have htail : xs ++ a :: ys = ys' := (List.cons.inj h).2
      rw [← htail] at hy'
      exact absurd (List.mem_append_right _ List.mem_cons_self) hy'
    | cons x' xs' =>
      obtain ⟨hx, htail⟩ := List.cons.inj h
      obtain ⟨hxs, hys⟩ := ih htail
      exact ⟨by rw [hx, hxs], hys⟩

namespace RouteKey

/-- The parts of a key behind the import path are single names. -/
structure Named (k : RouteKey) : Prop where
  typeName : Go.IsName k.typeName
  methodName : Go.IsName k.methodName

theorem toList_text (k : RouteKey) : k.text.toList
    = (k.importPath.toList ++ '.' :: k.typeName.toList) ++ '.' :: k.methodName.toList := by
  simp only [text, String.toList_append, List.append_assoc]
  rfl

/-- Keys with the same text are the same. -/
theorem eq_of_text_eq {k k' : RouteKey} (hk : k.Named) (hk' : k'.Named) (h : k.text = k'.text) :
    k = k' := by
  have hlist := congrArg String.toList h
  rw [toList_text, toList_text] at hlist
  obtain ⟨hfront, hmethod⟩ :=
    append_cons_inj hk.methodName.not_mem_dot hk'.methodName.not_mem_dot hlist
  obtain ⟨himport, htype⟩ :=
    append_cons_inj hk.typeName.not_mem_dot hk'.typeName.not_mem_dot hfront
  obtain ⟨p, t, m⟩ := k
  obtain ⟨p', t', m'⟩ := k'
  have hp : p = p' := String.toList_inj.1 himport
  have ht : t = t' := String.toList_inj.1 htype
  have hm : m = m' := String.toList_inj.1 hmethod
  rw [hp, ht, hm]

end RouteKey
end Routing
end RouteScribe
