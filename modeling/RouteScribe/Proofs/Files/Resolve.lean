import RouteScribe.Proofs.Files.Operation
import RouteScribe.Proofs.Files.Tree
import RouteScribe.Proofs.Text.Path

/-!
# RouteScribe.Proofs.Files.Resolve

Where paths lead in one file system and in another. A way through directories and links is a
relation, `Enters`; it can be cut anywhere, and it stays when entries are added.

* `find_congr`: paths lead to the same in file systems with the same entries.
* `Enters`: what leads from one directory to another.
* `of_walk_append`, `walk_append`: a walk goes on where a way ends.
* `Enters.mono`, `walk_mono`: ways stay in a file system that has more.
* `Enters.eq_append`: where no link is, a way is the names that it is made of.
-/

namespace RouteScribe
namespace Files
namespace Tree

variable {t t' : Tree}

theorem walkTo_congr (h : ∀ p, t'.get? p = t.get? p) (follow : Bool)
    (onward : Place → List String → Except Refusal Place) (here : Place) (ss : List String) :
    t'.walkTo follow onward here ss = t.walkTo follow onward here ss := by
  induction ss generalizing here with
  | nil => rfl
  | cons s ss ih => simp only [walkTo, h, ih]

theorem walk_congr (h : ∀ p, t'.get? p = t.get? p) (follow : Bool) (links : Nat) :
    t'.walk follow links = t.walk follow links := by
  induction links with
  | zero =>
    funext here ss
    exact walkTo_congr h follow _ here ss
  | succ links ih =>
    funext here ss
    rw [walk, walk, ih]
    exact walkTo_congr h follow _ here ss

theorem find_congr (h : ∀ p, t'.get? p = t.get? p) (follow : Bool) (path : String) :
    t'.find follow path = t.find follow path := by
  simp only [find, place, walk_congr h, h]

/-! ## Steps -/

/-- A step that is looked up in a directory. -/
structure Named (s : String) : Prop where
  ne_dot : s ≠ "."
  ne_dots : s ≠ ".."
  size_le : s.utf8ByteSize ≤ nameLimit

/-- The directory from which the path in a link leads on. -/
def origin (here : Place) (target : String) : Place :=
  if Path.isAbsolute target then [] else here

/-- A step that ends a walk where no directory is. -/
def Ends (follow : Bool) (e : Option Entry) : Prop :=
  match e with
  | none | some (.file ..) => True
  | some .dir => False
  | some (.link _) => follow = false

/-- The steps lead from one place to another, through at most so many links. -/
inductive Leads (t : Tree) (follow : Bool) : Nat → Place → List String → Place → Prop
  | here (k : Nat) (p : Place) : Leads t follow k p [] p
  | dot {k : Nat} {p q : Place} {ss : List String} :
      Leads t follow k p ss q → Leads t follow k p ("." :: ss) q
  | dots {k : Nat} {p q : Place} {ss : List String} :
      Leads t follow k p.dropLast ss q → Leads t follow k p (".." :: ss) q
  | dir {k : Nat} {p q : Place} {s : String} {ss : List String} : Named s →
      t.get? (p ++ [s]) = some .dir → Leads t follow k (p ++ [s]) ss q →
      Leads t follow k p (s :: ss) q
  | link {k : Nat} {p q : Place} {s target : String} {ss : List String} : Named s →
      t.get? (p ++ [s]) = some (.link target) → ss ≠ [] ∨ follow = true →
      Leads t follow k (origin p target) (steps target ++ ss) q →
      Leads t follow (k + 1) p (s :: ss) q
  | last {k : Nat} {p : Place} {s : String} : Named s → Ends follow (t.get? (p ++ [s])) →
      Leads t follow k p [s] (p ++ [s])

variable {follow : Bool} {k k' : Nat} {p q d : Place} {s n : String} {ss rest : List String}
  {target : String}

theorem leads_of_walkTo {onward : Place → List String → Except Refusal Place}
    (honward : ∀ {p ss q}, onward p ss = .ok q → ∃ k', k = k' + 1 ∧ t.Leads follow k' p ss q)
    (h : t.walkTo follow onward p ss = .ok q) : t.Leads follow k p ss q := by
  induction ss generalizing p with
  | nil =>
    cases h
    exact .here _ _
  | cons s ss ih =>
    rw [walkTo] at h
    split at h
    next hs => exact hs ▸ .dot (ih h)
    next hdot =>
      split at h
      next hs => exact hs ▸ .dots (ih h)
      next hdots =>
        split at h
        · cases h
        next hsize =>
          have hs : Named s := ⟨hdot, hdots, Nat.not_lt.1 hsize⟩
          dsimp only at h
          split at h
          next hget =>
            split at h
            next hss =>
              cases h
              cases hss
              exact .last hs (by rw [hget]; exact trivial)
            · cases h
          next hget => exact .dir hs hget (ih h)
          next hget =>
            split at h
            next hss =>
              cases h
              cases hss
              exact .last hs (by rw [hget]; exact trivial)
            · cases h
          next target hget =>
            split at h
            next hlast =>
              cases h
              simp only [Bool.and_eq_true, decide_eq_true_eq, Bool.not_eq_true'] at hlast
              cases hlast.1
              exact .last hs (by rw [hget]; exact hlast.2)
            next hlast =>
              obtain ⟨k', rfl, hleads⟩ := honward h
              refine .link hs hget ?_ hleads
              by_contra hnot
              simp_all

theorem leads_of_walk (h : t.walk follow k p ss = .ok q) : t.Leads follow k p ss q := by
  induction k generalizing p ss q with
  | zero => exact leads_of_walkTo (fun h => by cases h) h
  | succ k ih => exact leads_of_walkTo (fun h => ⟨k, rfl, ih h⟩) h

theorem walk_of_leads (h : t.Leads follow k p ss q) : t.walk follow k p ss = .ok q := by
  induction h with
  | here k p => cases k <;> rfl
  | @dot k _ _ _ _ ih => cases k <;> exact ih
  | @dots k _ _ _ _ ih => cases k <;> exact ih
  | @dir k _ _ _ _ hs hget _ ih =>
    have hsize := Nat.not_lt.2 hs.size_le
    cases k <;> simpa only [walk, walkTo, hs.ne_dot, hs.ne_dots, hsize, if_false, hget] using ih
  | @link _ _ _ _ _ ss hs hget hon _ ih =>
    have hsize := Nat.not_lt.2 hs.size_le
    have hlast : (decide (ss = []) && !follow) = false := by
      rcases hon with hne | rfl
      · simp [hne]
      · exact Bool.and_false _
    simpa only [walk, walkTo, hs.ne_dot, hs.ne_dots, hsize, if_false, hget, hlast,
      Bool.false_eq_true, origin] using ih
  | @last k p s hs hends =>
    have hsize := Nat.not_lt.2 hs.size_le
    cases hget : t.get? (p ++ [s]) with
    | none => cases k <;> simp [walk, walkTo, hs.ne_dot, hs.ne_dots, hsize, hget]
    | some e =>
      rw [hget] at hends
      cases e with
      | dir => exact hends.elim
      | file text mode => cases k <;> simp [walk, walkTo, hs.ne_dot, hs.ne_dots, hsize, hget]
      | link target =>
        obtain rfl : follow = false := hends
        cases k <;> simp [walk, walkTo, hs.ne_dot, hs.ne_dots, hsize, hget]

/-! ## Ways -/

/-- The steps lead from one directory to another, and so many links are left then. -/
inductive Enters (t : Tree) : Nat → Place → List String → Nat → Place → Prop
  | here (k : Nat) (p : Place) : Enters t k p [] k p
  | dot {k k' : Nat} {p q : Place} {ss : List String} :
      Enters t k p ss k' q → Enters t k p ("." :: ss) k' q
  | dots {k k' : Nat} {p q : Place} {ss : List String} :
      Enters t k p.dropLast ss k' q → Enters t k p (".." :: ss) k' q
  | dir {k k' : Nat} {p q : Place} {s : String} {ss : List String} : Named s →
      t.get? (p ++ [s]) = some .dir → Enters t k (p ++ [s]) ss k' q → Enters t k p (s :: ss) k' q
  | link {k k' : Nat} {p q : Place} {s target : String} {ss : List String} : Named s →
      t.get? (p ++ [s]) = some (.link target) →
      Enters t k (origin p target) (steps target ++ ss) k' q → Enters t (k + 1) p (s :: ss) k' q

theorem Enters.leads_append (h : t.Enters k p ss k' d) (hrest : t.Leads follow k' d rest q)
    (hon : rest ≠ [] ∨ follow = true) : t.Leads follow k p (ss ++ rest) q := by
  induction h with
  | here k p => exact hrest
  | dot _ ih => exact .dot (ih hrest)
  | dots _ ih => exact .dots (ih hrest)
  | dir hs hget _ ih => exact .dir hs hget (ih hrest)
  | link hs hget _ ih =>
    refine .link hs hget ?_ (List.append_assoc .. ▸ ih hrest)
    exact hon.imp_left (List.append_ne_nil_of_right_ne_nil _)

theorem of_leads_append (h : t.Leads follow k p (ss ++ rest) q) (hrest : rest ≠ []) :
    ∃ k' d, t.Enters k p ss k' d ∧ t.Leads follow k' d rest q := by
  generalize hall : ss ++ rest = all at h
  induction h generalizing ss with
  | here k p => exact absurd (List.append_eq_nil_iff.1 hall).2 hrest
  | dot h ih =>
    cases ss with
    | nil =>
      obtain rfl : rest = _ := hall
      exact ⟨_, _, .here _ _, .dot h⟩
    | cons s ss =>
      obtain ⟨rfl, rfl⟩ := List.cons.inj hall
      obtain ⟨k', d, henters, hleads⟩ := ih rfl
      exact ⟨k', d, .dot henters, hleads⟩
  | dots h ih =>
    cases ss with
    | nil =>
      obtain rfl : rest = _ := hall
      exact ⟨_, _, .here _ _, .dots h⟩
    | cons s ss =>
      obtain ⟨rfl, rfl⟩ := List.cons.inj hall
      obtain ⟨k', d, henters, hleads⟩ := ih rfl
      exact ⟨k', d, .dots henters, hleads⟩
  | dir hs hget h ih =>
    cases ss with
    | nil =>
      obtain rfl : rest = _ := hall
      exact ⟨_, _, .here _ _, .dir hs hget h⟩
    | cons s ss =>
      obtain ⟨rfl, rfl⟩ := List.cons.inj hall
      obtain ⟨k', d, henters, hleads⟩ := ih rfl
      exact ⟨k', d, .dir hs hget henters, hleads⟩
  | link hs hget hon h ih =>
    cases ss with
    | nil =>
      obtain rfl : rest = _ := hall
      exact ⟨_, _, .here _ _, .link hs hget hon h⟩
    | cons s ss =>
      obtain ⟨rfl, rfl⟩ := List.cons.inj hall
      obtain ⟨k', d, henters, hleads⟩ := ih (List.append_assoc ..)
      exact ⟨k', d, .link hs hget henters, hleads⟩
  | last hs hends =>
    cases ss with
    | nil =>
      obtain rfl : rest = _ := hall
      exact ⟨_, _, .here _ _, .last hs hends⟩
    | cons s ss => exact absurd (List.append_eq_nil_iff.1 (List.cons.inj hall).2).2 hrest

theorem Enters.of_leads (h : t.Leads follow k p ss q) (hq : t.get? q = some .dir) :
    ∃ k', t.Enters k p ss k' q := by
  induction h with
  | here k p => exact ⟨k, .here k p⟩
  | dot _ ih => exact (ih hq).imp fun _ => .dot
  | dots _ ih => exact (ih hq).imp fun _ => .dots
  | dir hs hget _ ih => exact (ih hq).imp fun _ => .dir hs hget
  | link hs hget _ _ ih => exact (ih hq).imp fun _ => .link hs hget
  | last hs hends =>
    rw [hq] at hends
    exact hends.elim

theorem Enters.leads (h : t.Enters k p ss k' d) : t.Leads true k p ss d := by
  have h' := h.leads_append (.here k' d) (.inr rfl)
  rwa [List.append_nil] at h'

theorem Enters.append (h : t.Enters k p ss k' d) {k'' : Nat} (hrest : t.Enters k' d rest k'' q) :
    t.Enters k p (ss ++ rest) k'' q := by
  induction h with
  | here k p => exact hrest
  | dot _ ih => exact .dot (ih hrest)
  | dots _ ih => exact .dots (ih hrest)
  | dir hs hget _ ih => exact .dir hs hget (ih hrest)
  | link hs hget _ ih => exact .link hs hget (List.append_assoc .. ▸ ih hrest)

theorem of_enters_append (h : t.Enters k p (ss ++ rest) k' q) :
    ∃ k'' d, t.Enters k p ss k'' d ∧ t.Enters k'' d rest k' q := by
  generalize hall : ss ++ rest = all at h
  induction h generalizing ss with
  | here k p =>
    obtain ⟨rfl, rfl⟩ := List.append_eq_nil_iff.1 hall
    exact ⟨k, p, .here k p, .here k p⟩
  | dot h ih =>
    cases ss with
    | nil =>
      obtain rfl : rest = _ := hall
      exact ⟨_, _, .here _ _, .dot h⟩
    | cons s ss =>
      obtain ⟨rfl, rfl⟩ := List.cons.inj hall
      obtain ⟨k'', d, henters, hrest⟩ := ih rfl
      exact ⟨k'', d, .dot henters, hrest⟩
  | dots h ih =>
    cases ss with
    | nil =>
      obtain rfl : rest = _ := hall
      exact ⟨_, _, .here _ _, .dots h⟩
    | cons s ss =>
      obtain ⟨rfl, rfl⟩ := List.cons.inj hall
      obtain ⟨k'', d, henters, hrest⟩ := ih rfl
      exact ⟨k'', d, .dots henters, hrest⟩
  | dir hs hget h ih =>
    cases ss with
    | nil =>
      obtain rfl : rest = _ := hall
      exact ⟨_, _, .here _ _, .dir hs hget h⟩
    | cons s ss =>
      obtain ⟨rfl, rfl⟩ := List.cons.inj hall
      obtain ⟨k'', d, henters, hrest⟩ := ih rfl
      exact ⟨k'', d, .dir hs hget henters, hrest⟩
  | link hs hget h ih =>
    cases ss with
    | nil =>
      obtain rfl : rest = _ := hall
      exact ⟨_, _, .here _ _, .link hs hget h⟩
    | cons s ss =>
      obtain ⟨rfl, rfl⟩ := List.cons.inj hall
      obtain ⟨k'', d, henters, hrest⟩ := ih (List.append_assoc ..)
      exact ⟨k'', d, .link hs hget henters, hrest⟩

theorem Enters.unique {k₁ k₂ : Nat} {d₁ d₂ : Place} (h₁ : t.Enters k p ss k₁ d₁)
    (h₂ : t.Enters k p ss k₂ d₂) : d₁ = d₂ :=
  Except.ok.inj ((walk_of_leads h₁.leads).symm.trans (walk_of_leads h₂.leads))

theorem of_enters_dot (h : t.Enters k p ("." :: ss) k' q) : t.Enters k p ss k' q := by
  generalize hall : "." :: ss = all at h
  cases h with
  | here => cases hall
  | dot h => exact (List.cons.inj hall).2 ▸ h
  | dots => exact absurd (List.cons.inj hall).1 (by decide)
  | dir hs => exact absurd (List.cons.inj hall).1.symm hs.ne_dot
  | link hs => exact absurd (List.cons.inj hall).1.symm hs.ne_dot

/-- Dots do not lead anywhere. -/
theorem enters_filter_iff : t.Enters k p (ss.filter (· ≠ ".")) k' q ↔ t.Enters k p ss k' q := by
  induction ss generalizing k p with
  | nil => exact Iff.rfl
  | cons s ss ih =>
    by_cases hs : s = "."
    · subst hs
      rw [List.filter_cons_of_neg (by simp), ih]
      exact ⟨.dot, of_enters_dot⟩
    · rw [List.filter_cons_of_pos (by simpa using hs)]
      constructor
      · intro h
        obtain ⟨k'', d, hstep, hrest⟩ := of_enters_append (List.singleton_append ▸ h)
        exact hstep.append (ih.1 hrest)
      · intro h
        obtain ⟨k'', d, hstep, hrest⟩ := of_enters_append (List.singleton_append ▸ h)
        exact hstep.append (ih.2 hrest)

theorem get?_dropLast (hw : t.WellFormed) (hp : t.get? p = some .dir) :
    t.get? p.dropLast = some .dir := by
  by_cases hnil : p = []
  · rw [hnil]
    rfl
  · exact hw.closed _ (mem_entries_of_get? hp hnil)

theorem get?_origin (hp : t.get? p = some .dir) (target : String) :
    t.get? (origin p target) = some .dir := by
  unfold origin
  split
  · rfl
  · exact hp

theorem Enters.get?_eq (hw : t.WellFormed) (h : t.Enters k p ss k' d)
    (hp : t.get? p = some .dir) : t.get? d = some .dir := by
  induction h with
  | here k p => exact hp
  | dot _ ih => exact ih hp
  | dots _ ih => exact ih (get?_dropLast hw hp)
  | dir _ hget _ ih => exact ih hget
  | link _ _ _ ih => exact ih (get?_origin hp _)

theorem exists_longest_way (t : Tree) (k : Nat) (p : Place) (ss : List String) :
    ∃ done rest k' d, ss = done ++ rest ∧ t.Enters k p done k' d ∧
      ∀ s rest', rest = s :: rest' → ∀ k'' q, ¬ t.Enters k p (done ++ [s]) k'' q := by
  induction ss using List.reverseRecOn with
  | nil => exact ⟨[], [], k, p, rfl, .here k p, nofun⟩
  | append_singleton ss s ih =>
    obtain ⟨done, rest, k', d, rfl, hdone, hlongest⟩ := ih
    cases rest with
    | cons s' rest' =>
      refine ⟨done, s' :: rest' ++ [s], k', d, by simp, hdone, fun s'' rest'' heq => ?_⟩
      exact (List.cons.inj heq).1 ▸ hlongest s' rest' rfl
    | nil =>
      rw [List.append_nil]
      by_cases hnext : ∃ k'' q, t.Enters k p (done ++ [s]) k'' q
      · obtain ⟨k'', q, hnext⟩ := hnext
        exact ⟨done ++ [s], [], k'', q, by simp, hnext, nofun⟩
      · refine ⟨done, [s], k', d, rfl, hdone, fun s' rest' heq k'' q h => hnext ⟨k'', q, ?_⟩⟩
        rwa [(List.cons.inj heq).1]

/-! ## Ways in another file system -/

/-- Directories and links stay, and no link is new. -/
def Keeps (t t' : Tree) : Prop :=
  ∀ p, t'.get? p = t.get? p ∨ Ends true (t.get? p) ∧ ∀ target, t'.get? p ≠ some (.link target)

namespace Keeps

theorem trans {t'' : Tree} (h : Keeps t t') (h' : Keeps t' t'') : Keeps t t'' := by
  intro p
  rcases h' p with hsame' | ⟨hends', hlink'⟩
  · rcases h p with hsame | ⟨hends, hlink⟩
    · exact .inl (hsame'.trans hsame)
    · exact .inr ⟨hends, by rwa [hsame']⟩
  · rcases h p with hsame | ⟨hends, -⟩
    · exact .inr ⟨hsame ▸ hends', hlink'⟩
    · exact .inr ⟨hends, hlink'⟩

theorem get?_dir (h : Keeps t t') (hp : t.get? p = some .dir) : t'.get? p = some .dir := by
  rcases h p with hsame | ⟨hends, -⟩
  · exact hsame.trans hp
  · rw [hp] at hends
    exact hends.elim

theorem get?_link (h : Keeps t t') (hp : t.get? p = some (.link target)) :
    t'.get? p = some (.link target) := by
  rcases h p with hsame | ⟨hends, -⟩
  · exact hsame.trans hp
  · rw [hp] at hends
    cases hends

theorem of_get?_link (h : Keeps t t') (hp : t'.get? p = some (.link target)) :
    t.get? p = some (.link target) := by
  rcases h p with hsame | ⟨-, hlink⟩
  · exact hsame.symm.trans hp
  · exact absurd hp (hlink target)

end Keeps

theorem MoreDirs.keeps (h : MoreDirs t t') : Keeps t t' := by
  intro p
  rcases h p with hsame | ⟨hnone, hdir⟩
  · exact .inl hsame
  · refine .inr ⟨by rw [hnone]; exact trivial, fun target => ?_⟩
    rw [hdir]
    exact nofun

theorem keeps_put_file (hq : q ≠ []) (hends : Ends true (t.get? q)) (text : Option String)
    (mode : Nat) : Keeps t (t.put q (.file text mode)) := by
  intro p
  by_cases hp : p = q
  · refine .inr ⟨hp ▸ hends, fun target => ?_⟩
    rw [hp, get?_put t hq]
    exact nofun
  · exact .inl (get?_put_of_ne t hp _)

theorem Enters.mono (hkeeps : Keeps t t') (h : t.Enters k p ss k' d) : t'.Enters k p ss k' d := by
  induction h with
  | here k p => exact .here k p
  | dot _ ih => exact .dot ih
  | dots _ ih => exact .dots ih
  | dir hs hget _ ih => exact .dir hs (hkeeps.get?_dir hget) ih
  | link hs hget _ ih => exact .link hs (hkeeps.get?_link hget) ih

theorem Leads.mono (hkeeps : Keeps t t') (h : t.Leads follow k p ss q) :
    t'.Leads follow k p ss q := by
  induction h with
  | here k p => exact .here k p
  | dot _ ih => exact .dot ih
  | dots _ ih => exact .dots ih
  | dir hs hget _ ih => exact .dir hs (hkeeps.get?_dir hget) ih
  | link hs hget hon _ ih => exact .link hs (hkeeps.get?_link hget) hon ih
  | @last k p s hs hends =>
    rcases hkeeps (p ++ [s]) with hsame | ⟨-, hlink⟩
    · exact .last hs (by rwa [hsame])
    · cases hget : t'.get? (p ++ [s]) with
      | none => exact .last hs (by rw [hget]; exact trivial)
      | some e =>
        cases e with
        | dir => exact .dir hs hget (.here k _)
        | file text mode => exact .last hs (by rw [hget]; exact trivial)
        | link target => exact absurd hget (hlink target)

/-! ## Ways without links -/

/-- The entries on the way along `ss` are no links. -/
def Unlinked (t : Tree) (p : Place) (ss : List String) : Prop :=
  ∀ w, w ≠ [] → w <+: ss → ∀ target, t.get? (p ++ w) ≠ some (.link target)

theorem Unlinked.tail (h : t.Unlinked p (s :: ss)) : t.Unlinked (p ++ [s]) ss := by
  intro w hne hw target
  rw [List.append_assoc]
  exact h (s :: w) (List.cons_ne_nil _ _) (List.cons_prefix_cons.2 ⟨rfl, hw⟩) target

theorem Unlinked.of_isPrefix (h : t.Unlinked p ss) {ss' : List String} (hss : ss' <+: ss) :
    t.Unlinked p ss' := fun w hne hw => h w hne (hw.trans hss)

theorem Unlinked.keeps (hkeeps : Keeps t t') (h : t.Unlinked p ss) : t'.Unlinked p ss :=
  fun w hne hw target hget => h w hne hw target (hkeeps.of_get?_link hget)

/-- Where no link is, a way is the names that it is made of, all of directories. -/
theorem Enters.eq_append (h : t.Enters k p ss k' d) (hss : ∀ s ∈ ss, s ≠ "." ∧ s ≠ "..")
    (hlinks : t.Unlinked p ss) : d = p ++ ss ∧ k' = k ∧ (∀ s ∈ ss, Named s) ∧
      ∀ w, w ≠ [] → w <+: ss → t.get? (p ++ w) = some .dir := by
  induction h with
  | here k p =>
    refine ⟨(List.append_nil p).symm, rfl, nofun, fun w hne hw => ?_⟩
    exact absurd (List.prefix_nil.1 hw) hne
  | dot => exact absurd rfl (hss _ List.mem_cons_self).1
  | dots => exact absurd rfl (hss _ List.mem_cons_self).2
  | @dir k _ p _ s ss hs hget _ ih =>
    obtain ⟨hd, hk, hnamed, hdirs⟩ :=
      ih (fun s' hs' => hss s' (List.mem_cons_of_mem _ hs')) hlinks.tail
    refine ⟨by rw [hd, List.append_assoc]; rfl, hk, List.forall_mem_cons.2 ⟨hs, hnamed⟩, ?_⟩
    intro w hne hw
    obtain ⟨s', w, rfl⟩ := List.exists_cons_of_ne_nil hne
    obtain ⟨rfl, hrest⟩ := List.cons_prefix_cons.1 hw
    cases w with
    | nil => exact hget
    | cons s'' w =>
      have hdir := hdirs (s'' :: w) (List.cons_ne_nil _ _) hrest
      rwa [List.append_assoc] at hdir
  | @link _ _ p _ s _ _ _ hget =>
    refine absurd hget (hlinks [s] (List.cons_ne_nil _ _) ?_ _)
    exact List.cons_prefix_cons.2 ⟨rfl, List.nil_prefix⟩

theorem enters_of_dirs (k : Nat) (hss : ∀ s ∈ ss, Named s)
    (hdirs : ∀ w, w ≠ [] → w <+: ss → t.get? (p ++ w) = some .dir) :
    t.Enters k p ss k (p ++ ss) := by
  induction ss generalizing p with
  | nil =>
    rw [List.append_nil]
    exact .here k p
  | cons s ss ih =>
    obtain ⟨hs, hss⟩ := List.forall_mem_cons.1 hss
    have hget : t.get? (p ++ [s]) = some .dir :=
      hdirs [s] (List.cons_ne_nil _ _) (List.cons_prefix_cons.2 ⟨rfl, List.nil_prefix⟩)
    refine .dir hs hget ?_
    have hrest := ih (p := p ++ [s]) hss fun w hne hw => by
      rw [List.append_assoc]
      exact hdirs (s :: w) (List.cons_ne_nil _ _) (List.cons_prefix_cons.2 ⟨rfl, hw⟩)
    rwa [List.append_assoc] at hrest

/-- The last step leads to what it names, unless that is a link to be followed. -/
theorem Leads.eq_concat (h : t.Leads follow k p [s] q) (hs : s ≠ "." ∧ s ≠ "..")
    (hlink : follow = true → ∀ target, t.get? (p ++ [s]) ≠ some (.link target)) :
    q = p ++ [s] ∧ Named s := by
  generalize hall : [s] = all at h
  cases h with
  | here => cases hall
  | dot => exact absurd (List.cons.inj hall).1 hs.1
  | dots => exact absurd (List.cons.inj hall).1 hs.2
  | dir hn _ h =>
    obtain ⟨rfl, rfl⟩ := List.cons.inj hall
    cases h
    exact ⟨rfl, hn⟩
  | link hn hget hon =>
    obtain ⟨rfl, rfl⟩ := List.cons.inj hall
    exact absurd hget (hlink (hon.resolve_left fun h => h rfl) _)
  | last hn =>
    obtain ⟨rfl, -⟩ := List.cons.inj hall
    exact ⟨rfl, hn⟩

/-- Without following it, a name on a way leads to what it is in its directory. -/
theorem Enters.exists_entry (h : t.Enters k p [s] k' d) (hs : s ≠ "." ∧ s ≠ "..") :
    t.Leads false k p [s] (p ++ [s]) ∧ ∃ e, t.get? (p ++ [s]) = some e := by
  generalize hall : [s] = all at h
  cases h with
  | here => cases hall
  | dot => exact absurd (List.cons.inj hall).1 hs.1
  | dots => exact absurd (List.cons.inj hall).1 hs.2
  | dir hn hget h =>
    obtain ⟨rfl, rfl⟩ := List.cons.inj hall
    exact ⟨.dir hn hget (.here k _), _, hget⟩
  | link hn hget h =>
    obtain ⟨rfl, rfl⟩ := List.cons.inj hall
    exact ⟨.last hn (by rw [hget]; rfl), _, hget⟩

theorem Enters.get?_concat (h : t.Enters k p (ss ++ [n]) k' d) (hn : n ≠ "." ∧ n ≠ "..")
    (hlink : ∀ k₁ d₁, t.Enters k p ss k₁ d₁ → ∀ target, t.get? (d₁ ++ [n]) ≠ some (.link target)) :
    t.get? d = some .dir := by
  obtain ⟨k₁, d₁, hfirst, hlast⟩ := of_enters_append h
  have hunlinked : t.Unlinked d₁ [n] := by
    intro w hne hw
    rw [List.Sublist.eq_of_length_le hw.sublist (List.length_pos_of_ne_nil hne)]
    exact hlink k₁ d₁ hfirst
  obtain ⟨rfl, -, -, hdirs⟩ := hlast.eq_append (List.forall_mem_singleton.2 hn) hunlinked
  exact hdirs [n] (List.cons_ne_nil _ _) List.prefix_rfl

theorem Leads.eq_of_dot (h : t.Leads follow k p ["."] q) : q = p := by
  have hwalk : t.walk follow k p ["."] = .ok p := by cases k <;> rfl
  exact Except.ok.inj ((walk_of_leads h).symm.trans hwalk)

theorem Leads.eq_of_dots (h : t.Leads follow k p [".."] q) : q = p.dropLast := by
  have hwalk : t.walk follow k p [".."] = .ok p.dropLast := by cases k <;> rfl
  exact Except.ok.inj ((walk_of_leads h).symm.trans hwalk)

/-! ## Paths -/

/-- A path that the file system takes. -/
structure Allowed (path : String) : Prop where
  nul_notMem : '\x00' ∉ path.toList
  ne_empty : path ≠ ""
  size_le : path.utf8ByteSize ≤ pathLimit

theorem Allowed.of_append {p q : String} (h : Allowed (p ++ q)) (hp : p ≠ "") : Allowed p := by
  refine ⟨fun hnul => h.nul_notMem ?_, hp, le_trans ?_ h.size_le⟩
  · rw [String.toList_append]
    exact List.mem_append_left _ hnul
  · rw [String.utf8ByteSize_append]
    omega

theorem place_of_allowed {path : String} (h : Allowed path) (t : Tree) (follow : Bool) :
    t.place follow path = t.walk follow linkLimit [] (steps path) := by
  have hnul : path.toList.contains '\x00' = false := by simpa using h.nul_notMem
  simp only [place, hnul, h.ne_empty, Nat.not_lt.2 h.size_le, if_false, Bool.false_eq_true]

theorem of_place_ok {path : String} (h : t.place follow path = .ok q) :
    Allowed path ∧ t.Leads follow linkLimit [] (steps path) q := by
  unfold place at h
  split at h
  · cases h
  next hnul =>
    split at h
    · cases h
    next hempty =>
      split at h
      · cases h
      next hsize =>
        exact ⟨⟨by simpa using hnul, hempty, Nat.not_lt.1 hsize⟩, leads_of_walk h⟩

theorem place_mono (hkeeps : Keeps t t') {path : String}
    (h : t.place follow path = .ok p) :
    t'.place follow path = .ok p := by
  obtain ⟨hallowed, hleads⟩ := of_place_ok h
  rw [place_of_allowed hallowed]
  exact walk_of_leads (hleads.mono hkeeps)

theorem place_of_not_allowed {path : String} (h : ¬ Allowed path) :
    ∃ r, ∀ (t : Tree) (follow : Bool), t.place follow path = .error r := by
  by_cases hnul : path.toList.contains '\x00'
  · exact ⟨.nulInPath, fun t follow => by simp only [place, hnul, if_true]⟩
  · by_cases hempty : path = ""
    · subst hempty
      exact ⟨.notFound, fun t follow => rfl⟩
    · have hsize : pathLimit < path.utf8ByteSize := by
        by_contra hsize
        exact h ⟨by simpa using hnul, hempty, Nat.not_lt.1 hsize⟩
      exact ⟨.nameTooLong, fun t follow => by
        simp only [place, hnul, hempty, hsize, if_true, if_false]; rfl⟩

theorem filter_steps (path : String) : (steps path).filter (· ≠ ".") = Path.moves path := by
  have hnames : ((Path.segments path).filter (· ≠ "")).filter (· ≠ ".") = Path.moves path := by
    rw [List.filter_filter, Path.moves, Path.moving]
    refine List.filter_congr fun s _ => ?_
    exact Bool.and_comm _ _
  unfold steps
  extract_lets names
  split
  · rw [List.filter_append, hnames]
    exact List.append_nil _
  · exact hnames

theorem enters_steps_iff {path : String} :
    t.Enters k p (steps path) k' d ↔ t.Enters k p (Path.moves path) k' d := by
  rw [← filter_steps, enters_filter_iff]

theorem find_eq_ok_iff {path : String} {e : Entry} :
    t.find follow path = .ok (p, e) ↔ t.place follow path = .ok p ∧ t.get? p = some e := by
  unfold find
  constructor
  · intro h
    split at h
    · cases h
    next hplace =>
      split at h
      next hget =>
        cases h
        exact ⟨hplace, hget⟩
      · cases h
  · rintro ⟨hplace, hget⟩
    simp only [hplace, hget]

theorem readText_eq_ok_iff {path text : String} : t.readText path = .ok text ↔
    ∃ p mode, t.find true path = .ok (p, .file (some text) mode) := by
  unfold readText
  constructor
  · intro h
    split at h
    · cases h
    next p text' mode hfind =>
      cases h
      exact ⟨p, mode, hfind⟩
    · cases h
    · cases h
  · rintro ⟨p, mode, hfind⟩
    rw [hfind]

theorem of_find_dir {path : String} (h : t.find follow path = .ok (p, .dir)) :
    Allowed path ∧ t.get? p = some .dir ∧ ∃ k, t.Enters linkLimit [] (Path.moves path) k p := by
  obtain ⟨hplace, hget⟩ := find_eq_ok_iff.1 h
  obtain ⟨hallowed, hleads⟩ := of_place_ok hplace
  obtain ⟨k, henters⟩ := Enters.of_leads hleads hget
  exact ⟨hallowed, hget, k, enters_steps_iff.1 henters⟩

theorem isDir_of_find {path : String} (h : t.find true path = .ok (p, .dir)) :
    t.isDir path = true := by
  simp only [isDir, entry?, h]
  rfl

theorem of_isDir {path : String} (h : t.isDir path = true) :
    ∃ p, t.find true path = .ok (p, .dir) := by
  have h : t.entry? path = some .dir := of_decide_eq_true h
  unfold entry? at h
  cases hfind : t.find true path with
  | error r =>
    rw [hfind] at h
    cases h
  | ok found =>
    rw [hfind] at h
    obtain ⟨p, e⟩ := found
    cases h
    exact ⟨p, rfl⟩

theorem exists_eq_true_iff {path : String} :
    t.exists path = true ↔ ∃ p e, t.find true path = .ok (p, e) := by
  unfold «exists» entry?
  cases hfind : t.find true path with
  | error r => exact iff_of_false (fun h => by cases h) (fun ⟨_, _, h⟩ => by cases h)
  | ok found => exact iff_of_true rfl ⟨found.1, found.2, rfl⟩

theorem of_isFile {path : String} (h : t.isFile path = true) :
    ∃ p text mode, t.find true path = .ok (p, .file text mode) := by
  unfold isFile entry? at h
  cases hfind : t.find true path with
  | error r =>
    rw [hfind] at h
    cases h
  | ok found =>
    rw [hfind] at h
    obtain ⟨p, e⟩ := found
    cases e with
    | file text mode => exact ⟨p, text, mode, rfl⟩
    | dir => cases h
    | link target => cases h

theorem isFile_of_readText {path text : String} (h : t.readText path = .ok text) :
    t.isFile path = true := by
  obtain ⟨p, mode, hfind⟩ := readText_eq_ok_iff.1 h
  simp only [isFile, entry?, hfind]
  rfl

theorem find_of_enters {path : String} (hallowed : Allowed path)
    (h : t.Enters linkLimit [] (Path.moves path) k p) (hp : t.get? p = some .dir) :
    t.find true path = .ok (p, .dir) := by
  have hplace : t.place true path = .ok p :=
    (place_of_allowed hallowed t true).trans (walk_of_leads (enters_steps_iff.2 h).leads)
  exact find_eq_ok_iff.2 ⟨hplace, hp⟩

theorem canonical_congr {path : String} (hkeeps : Keeps t t')
    (h : t.Enters linkLimit [] (Path.moves path) k p) (hp : t.get? p = some .dir) :
    t'.canonical path = t.canonical path := by
  by_cases hallowed : Allowed path
  · have hfind := find_of_enters hallowed h hp
    have hfind' := find_of_enters hallowed (h.mono hkeeps) (hkeeps.get?_dir hp)
    simp only [canonical, hfind, hfind']
  · obtain ⟨r, hr⟩ := place_of_not_allowed hallowed
    simp only [canonical, find, hr]

/-- The steps to a name in a directory are those to the directory and the name. -/
theorem steps_join_name (path : String) (hn : Path.IsName n) :
    ∃ ss, steps (Path.join path n) = ss ++ [n] ∧ ss.filter (· ≠ ".") = Path.moves path := by
  obtain ⟨ss, hss, -⟩ := Path.segments_join_name path hn
  have hsteps : steps (Path.join path n) = ss.filter (· ≠ "") ++ [n] := by
    simp [steps, Path.getLast?_join_name path hn, hss, hn.ne_empty]
  refine ⟨_, hsteps, ?_⟩
  have hmoves := filter_steps (Path.join path n)
  rw [hsteps, List.filter_append, Path.moves_join_name path hn] at hmoves
  have hname : [n].filter (· ≠ ".") = [n] := by simp [hn.ne_dot]
  rw [hname] at hmoves
  exact List.append_cancel_right hmoves

theorem of_place_join_name {path : String} (hn : Path.IsName n)
    (h : t.place follow (Path.join path n) = .ok q) : Allowed (Path.join path n) ∧
      ∃ k d, t.Enters linkLimit [] (Path.moves path) k d ∧ t.Leads follow k d [n] q := by
  obtain ⟨hallowed, hleads⟩ := of_place_ok h
  obtain ⟨ss, hss, hmoves⟩ := steps_join_name path hn
  rw [hss] at hleads
  obtain ⟨k, d, henters, hlast⟩ := of_leads_append hleads (List.cons_ne_nil _ _)
  rw [← enters_filter_iff, hmoves] at henters
  exact ⟨hallowed, k, d, henters, hlast⟩

theorem place_join_name {path : String} (hn : Path.IsName n)
    (hallowed : Allowed (Path.join path n)) (h : t.Enters linkLimit [] (Path.moves path) k d)
    (hlast : t.Leads follow k d [n] q) : t.place follow (Path.join path n) = .ok q := by
  obtain ⟨ss, hss, hmoves⟩ := steps_join_name path hn
  rw [← hmoves, enters_filter_iff] at h
  rw [place_of_allowed hallowed, hss]
  exact walk_of_leads (h.leads_append hlast (.inl (List.cons_ne_nil _ _)))

/-- A way to a directory that is no link itself leads there without following links at the end. -/
theorem find_join_name_of_enters {path : String} (hn : Path.IsName n)
    (hallowed : Allowed (Path.join path n))
    (h : t.Enters linkLimit [] (Path.moves (Path.join path n)) k p) (hp : t.get? p = some .dir)
    (hlink : ∀ k d, t.Enters linkLimit [] (Path.moves path) k d →
      ∀ target, t.get? (d ++ [n]) ≠ some (.link target)) :
    t.find false (Path.join path n) = .ok (p, .dir) := by
  rw [Path.moves_join_name path hn] at h
  obtain ⟨k₁, d, hfirst, hlast⟩ := of_enters_append h
  obtain ⟨hleads, -⟩ := hlast.exists_entry ⟨hn.ne_dot, hn.ne_dots⟩
  have hunlinked : t.Unlinked d [n] := by
    intro w hne hw
    rw [List.Sublist.eq_of_length_le hw.sublist (List.length_pos_of_ne_nil hne)]
    exact hlink k₁ d hfirst
  obtain ⟨rfl, -⟩ := hlast.eq_append
    (List.forall_mem_singleton.2 ⟨hn.ne_dot, hn.ne_dots⟩) hunlinked
  exact find_eq_ok_iff.2 ⟨place_join_name hn hallowed hfirst hleads, hp⟩

end Tree
end Files
end RouteScribe
