import RouteScribe.Proofs.Files.Resolve
import RouteScribe.Proofs.Text.Rooted

/-!
# RouteScribe.Proofs.Files.Lookup

What a path is looked up by. A walk looks at the places that it comes through; if the same stands
there in another file system, the path leads to the same.

* `Tree.Looks`: the places that a lookup looks at.
* `Tree.find_of_looks`: they decide where the path leads.
* `Tree.isPrefix_of_looks`: where no link is, these are the places on the way.
* `Tree.ne_link_of_find`: what a path leads to is no link.
* `Tree.Leads.eq_of_sees`, `Tree.Leads.behind_link`: what a walk that succeeds looks at.
-/

namespace RouteScribe
namespace Files
namespace Tree

/-- A walk along the steps looks at the place `w`. -/
inductive Sees (t : Tree) (follow : Bool) (w : Place) : Nat → Place → List String → Prop
  | stop {k : Nat} : Sees t follow w k w []
  | dot {k : Nat} {p : Place} {ss : List String} :
      Sees t follow w k p ss → Sees t follow w k p ("." :: ss)
  | dots {k : Nat} {p : Place} {ss : List String} :
      Sees t follow w k p.dropLast ss → Sees t follow w k p (".." :: ss)
  | name {k : Nat} {p : Place} {s : String} {ss : List String} : Named s → w = p ++ [s] →
      Sees t follow w k p (s :: ss)
  | dir {k : Nat} {p : Place} {s : String} {ss : List String} : Named s →
      t.get? (p ++ [s]) = some .dir → Sees t follow w k (p ++ [s]) ss → Sees t follow w k p (s :: ss)
  | link {k : Nat} {p : Place} {s target : String} {ss : List String} : Named s →
      t.get? (p ++ [s]) = some (.link target) → ss ≠ [] ∨ follow = true →
      Sees t follow w k (origin p target) (steps target ++ ss) → Sees t follow w (k + 1) p (s :: ss)

/-- The lookup of the path, links included, looks at the place `w`. -/
def Looks (t : Tree) (path : String) (w : Place) : Prop :=
  t.Sees true w linkLimit [] (steps path)

variable {t t' : Tree} {follow : Bool} {k : Nat} {p q w : Place} {ss names : List String}
  {path : String}

/-- Steps lead to the same where the walk sees the same; behind links this is asked of `onward`. -/
theorem walkTo_of_sees {onward onward' : Place → List String → Except Refusal Place}
    (h : ∀ w, t.Sees follow w k p ss → t'.get? w = t.get? w)
    (honward : ∀ q rest, (∀ k', k = k' + 1 → ∀ w, t.Sees follow w k' q rest → t'.get? w = t.get? w) →
      onward' q rest = onward q rest) :
    t'.walkTo follow onward' p ss = t.walkTo follow onward p ss := by
  induction ss generalizing p with
  | nil => rfl
  | cons s ss ih =>
    by_cases hdot : s = "."
    · subst hdot
      exact ih fun w hw => h w (.dot hw)
    · by_cases hdots : s = ".."
      · subst hdots
        exact ih fun w hw => h w (.dots hw)
      · by_cases hsize : nameLimit < s.utf8ByteSize
        · simp only [walkTo, hdot, hdots, hsize, if_true, if_false]
        · have hs : Named s := ⟨hdot, hdots, Nat.not_lt.1 hsize⟩
          have hsame : t'.get? (p ++ [s]) = t.get? (p ++ [s]) := h _ (.name hs rfl)
          simp only [walkTo, hdot, hdots, hsize, if_false, hsame]
          cases hget : t.get? (p ++ [s]) with
          | none => rfl
          | some e =>
            cases e with
            | dir => exact ih fun w hw => h w (.dir hs hget hw)
            | file text mode => rfl
            | link target =>
              dsimp only
              split
              · rfl
              next hlast =>
                refine honward _ _ ?_
                rintro k' rfl w hw
                refine h w (.link hs hget ?_ hw)
                by_contra hnot
                simp_all

theorem walk_of_sees (h : ∀ w, t.Sees follow w k p ss → t'.get? w = t.get? w) :
    t'.walk follow k p ss = t.walk follow k p ss := by
  induction k generalizing p ss with
  | zero => exact walkTo_of_sees h fun _ _ _ => rfl
  | succ k ih => exact walkTo_of_sees h fun _ _ hrest => ih (hrest k rfl)

theorem Leads.sees (h : t.Leads follow k p ss q) : t.Sees follow q k p ss := by
  induction h with
  | here k p => exact .stop
  | dot _ ih => exact .dot ih
  | dots _ ih => exact .dots ih
  | dir hs hget _ ih => exact .dir hs hget ih
  | link hs hget hon _ ih => exact .link hs hget hon ih
  | last hs _ => exact .name hs rfl

theorem of_sees_dot (h : t.Sees follow w k p ("." :: ss)) : t.Sees follow w k p ss := by
  generalize hall : "." :: ss = all at h
  cases h with
  | stop => cases hall
  | dot h => exact (List.cons.inj hall).2 ▸ h
  | dots => exact absurd (List.cons.inj hall).1 (by decide)
  | name hs => exact absurd (List.cons.inj hall).1.symm hs.ne_dot
  | dir hs => exact absurd (List.cons.inj hall).1.symm hs.ne_dot
  | link hs => exact absurd (List.cons.inj hall).1.symm hs.ne_dot

theorem of_sees_dots (h : t.Sees follow w k p (".." :: ss)) :
    t.Sees follow w k p.dropLast ss := by
  generalize hall : ".." :: ss = all at h
  cases h with
  | stop => cases hall
  | dot => exact absurd (List.cons.inj hall).1 (by decide)
  | dots h => exact (List.cons.inj hall).2 ▸ h
  | name hs => exact absurd (List.cons.inj hall).1.symm hs.ne_dots
  | dir hs => exact absurd (List.cons.inj hall).1.symm hs.ne_dots
  | link hs => exact absurd (List.cons.inj hall).1.symm hs.ne_dots

/-- At a directory a walk sees the directory, and what it sees from there on. -/
theorem of_sees_dir {s : String} (hs : Named s) (hget : t.get? (p ++ [s]) = some .dir)
    (h : t.Sees follow w k p (s :: ss)) : w = p ++ [s] ∨ t.Sees follow w k (p ++ [s]) ss := by
  cases h with
  | dot => exact absurd rfl hs.ne_dot
  | dots => exact absurd rfl hs.ne_dots
  | name _ heq => exact .inl heq
  | dir _ _ h => exact .inr h
  | link _ hlink =>
    rw [hget] at hlink
    cases hlink

theorem of_sees_link {s target : String} (hs : Named s)
    (hget : t.get? (p ++ [s]) = some (.link target)) (h : t.Sees follow w (k + 1) p (s :: ss)) :
    w = p ++ [s] ∨ t.Sees follow w k (origin p target) (steps target ++ ss) := by
  cases h with
  | dot => exact absurd rfl hs.ne_dot
  | dots => exact absurd rfl hs.ne_dots
  | name _ heq => exact .inl heq
  | dir _ hdir =>
    rw [hget] at hdir
    cases hdir
  | link _ hlink _ h =>
    rw [hget] at hlink
    cases hlink
    exact .inr h

theorem of_sees_last {s : String} (hs : s ≠ "." ∧ s ≠ "..")
    (hends : Ends follow (t.get? (p ++ [s]))) (h : t.Sees follow w k p [s]) : w = p ++ [s] := by
  cases h with
  | dot => exact absurd rfl hs.1
  | dots => exact absurd rfl hs.2
  | name _ heq => exact heq
  | dir _ hdir =>
    rw [hdir] at hends
    exact hends.elim
  | link _ hlink hon =>
    rw [hlink] at hends
    rw [show follow = false from hends] at hon
    simp at hon

theorem Leads.eq_of_sees (h : t.Leads follow k p ss q) (hw : t.Sees follow w k p ss)
    (hnone : t.get? w = none) : w = q := by
  induction h with
  | here k p =>
    cases hw
    rfl
  | dot _ ih => exact ih (of_sees_dot hw)
  | dots _ ih => exact ih (of_sees_dots hw)
  | dir hs hget _ ih =>
    rcases of_sees_dir hs hget hw with rfl | hw
    · rw [hget] at hnone
      cases hnone
    · exact ih hw
  | link hs hget _ _ ih =>
    rcases of_sees_link hs hget hw with rfl | hw
    · rw [hget] at hnone
      cases hnone
    · exact ih hw
  | last hs hends => exact of_sees_last ⟨hs.ne_dot, hs.ne_dots⟩ hends hw

/-- A walk sees what it sees on the way to a directory, or from there on. -/
theorem Enters.sees_append {k' : Nat} {rest : List String} (h : t.Enters k p ss k' q)
    (hw : t.Sees true w k p (ss ++ rest)) :
    t.Sees true w k p ss ∨ t.Sees true w k' q rest := by
  induction h with
  | here k p => exact .inr hw
  | dot _ ih => exact (ih (of_sees_dot hw)).imp_left .dot
  | dots _ ih => exact (ih (of_sees_dots hw)).imp_left .dots
  | dir hs hget _ ih =>
    rcases of_sees_dir hs hget hw with rfl | hw
    · exact .inl (.name hs rfl)
    · exact (ih hw).imp_left (.dir hs hget)
  | link hs hget _ ih =>
    rcases of_sees_link hs hget hw with rfl | hw
    · exact .inl (.name hs rfl)
    · exact (ih (List.append_assoc .. ▸ hw)).imp_left (.link hs hget (.inr rfl))

/-- A walk that sees a link and does not end there goes on behind it, with fewer links left. -/
theorem Leads.behind_link {target : String} (h : t.Leads true k p ss q)
    (hw : t.Sees true w k p ss) (hlink : t.get? w = some (.link target)) (hne : w ≠ q) :
    ∃ k' rest, k' < k ∧ t.Leads true k' (origin w.dropLast target) (steps target ++ rest) q := by
  induction h with
  | here k p =>
    cases hw
    exact absurd rfl hne
  | dot _ ih => exact ih (of_sees_dot hw) hne
  | dots _ ih => exact ih (of_sees_dots hw) hne
  | dir hs hget _ ih =>
    rcases of_sees_dir hs hget hw with rfl | hw
    · rw [hget] at hlink
      cases hlink
    · exact ih hw hne
  | @link k _ _ _ _ ss hs hget _ h ih =>
    rcases of_sees_link hs hget hw with rfl | hw
    · rw [hget] at hlink
      cases hlink
      rw [List.dropLast_concat]
      exact ⟨k, ss, Nat.lt_succ_self k, h⟩
    · obtain ⟨k', rest, hk, hleads⟩ := ih hw hne
      exact ⟨k', rest, Nat.lt_succ_of_lt hk, hleads⟩
  | last hs hends => exact absurd (of_sees_last ⟨hs.ne_dot, hs.ne_dots⟩ hends hw) hne

theorem Leads.of_append {rest : List String} {e : Entry} (hw : t.WellFormed)
    (hp : t.get? p = some .dir) (h : t.Leads true k p (ss ++ rest) q) (hq : t.get? q = some e) :
    ∃ q' e', t.Leads true k p ss q' ∧ t.get? q' = some e' := by
  cases rest with
  | nil => exact ⟨q, e, List.append_nil ss ▸ h, hq⟩
  | cons s rest =>
    obtain ⟨k', d, henters, -⟩ := of_leads_append h (List.cons_ne_nil s rest)
    exact ⟨d, .dir, henters.leads, henters.get?_eq hw hp⟩

theorem Leads.mono_links {k' : Nat} (h : t.Leads follow k p ss q) (hk : k ≤ k') :
    t.Leads follow k' p ss q := by
  induction h generalizing k' with
  | here k p => exact .here k' p
  | dot _ ih => exact .dot (ih hk)
  | dots _ ih => exact .dots (ih hk)
  | dir hs hget _ ih => exact .dir hs hget (ih hk)
  | link hs hget hon _ ih =>
    obtain ⟨k', rfl⟩ : ∃ k'', k' = k'' + 1 := Nat.exists_eq_succ_of_ne_zero (by omega)
    exact .link hs hget hon (ih (Nat.le_of_succ_le_succ hk))
  | last hs hends => exact .last hs hends

theorem find_of_looks (h : ∀ w, t.Looks path w → t'.get? w = t.get? w) :
    t'.find true path = t.find true path := by
  have hplace : t'.place true path = t.place true path := by
    simp only [place, walk_of_sees h]
  unfold find
  rw [hplace]
  cases hq : t.place true path with
  | error r => rfl
  | ok q =>
    dsimp only
    rw [h q (of_place_ok hq).2.sees]

/-- Where no link is, a walk sees the places on the way. Dots do not lead anywhere. -/
theorem Sees.isPrefix (h : t.Sees follow w k p ss) (hss : ".." ∉ ss)
    (hlinks : t.Unlinked p (ss.filter (· ≠ "."))) : w <+: p ++ ss.filter (· ≠ ".") := by
  induction h with
  | stop => exact List.prefix_append _ _
  | dot _ ih =>
    rw [List.filter_cons_of_neg (by simp)] at hlinks ⊢
    exact ih (fun hmem => hss (List.mem_cons_of_mem _ hmem)) hlinks
  | dots => exact absurd List.mem_cons_self hss
  | @name _ p s ss hs hw =>
    rw [List.filter_cons_of_pos (by simpa using hs.ne_dot), List.append_cons, hw]
    exact List.prefix_append _ _
  | @dir _ p s ss hs _ _ ih =>
    rw [List.filter_cons_of_pos (by simpa using hs.ne_dot)] at hlinks ⊢
    rw [List.append_cons]
    exact ih (fun hmem => hss (List.mem_cons_of_mem _ hmem)) hlinks.tail
  | @link _ _ s _ _ hs hget =>
    rw [List.filter_cons_of_pos (by simpa using hs.ne_dot)] at hlinks
    refine absurd hget (hlinks [s] (List.cons_ne_nil _ _) ?_ _)
    exact List.cons_prefix_cons.2 ⟨rfl, List.nil_prefix⟩

/-- Along names without links, a lookup looks at the places on the way. -/
theorem isPrefix_of_looks (h : ∀ n ∈ names, Path.IsName n) (hlinks : t.Unlinked [] names)
    (hw : t.Looks (Path.rooted names) w) : w <+: names := by
  have hsteps : (steps (Path.rooted names)).filter (· ≠ ".") = names :=
    (filter_steps _).trans (Path.moves_rooted h)
  have hdots : ".." ∉ steps (Path.rooted names) := by
    intro hmem
    have hmem : ".." ∈ (steps (Path.rooted names)).filter (· ≠ ".") :=
      List.mem_filter.2 ⟨hmem, by decide⟩
    rw [hsteps] at hmem
    exact (h _ hmem).ne_dots rfl
  have hprefix := Sees.isPrefix hw hdots (hsteps.symm ▸ hlinks)
  rwa [hsteps] at hprefix

theorem Leads.ne_link (hw : t.WellFormed) (h : t.Leads true k p ss q) (hp : t.get? p = some .dir)
    (target : String) : t.get? q ≠ some (.link target) := by
  induction h with
  | here k p =>
    rw [hp]
    simp
  | dot _ ih => exact ih hp
  | dots _ ih => exact ih (get?_dropLast hw hp)
  | dir _ hget _ ih => exact ih hget
  | link _ _ _ _ ih => exact ih (get?_origin hp _)
  | last _ hends =>
    intro hget
    rw [hget] at hends
    cases hends

theorem ne_link_of_find (hw : t.WellFormed) {e : Entry} (h : t.find true path = .ok (q, e))
    (target : String) : e ≠ .link target := by
  obtain ⟨hplace, hget⟩ := find_eq_ok_iff.1 h
  have hne := (of_place_ok hplace).2.ne_link hw rfl target
  rintro rfl
  exact hne hget

end Tree
end Files
end RouteScribe
