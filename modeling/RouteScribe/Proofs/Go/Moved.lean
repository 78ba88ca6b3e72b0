import RouteScribe.Proofs.Go.LineEnd

/-!
# RouteScribe.Proofs.Go.Moved

Trees of texts that share some part. The nodes of a part that two texts begin or end with say the
same in both trees, only on other lines, so they declare the same, with the same comments.

* `Cursor.Moved`, `Node.Moved`: places and trees on other lines.
* `Node.Alike`: trees with the same shape.
* `moved_of_front`, `moved_of_back`: what two texts begin and end with.
* `Node.Repeats`: nodes that declare what other nodes do.
* `repeats_moved`: those on other lines do.
-/

namespace RouteScribe
namespace Go

namespace Cursor

variable {us us' vs vs' src src' : List Char} {c : Char} {p p' q q' : Cursor} {r r' : Nat}

/-! ## Places on other lines -/

/-- The row `r` has become the row `r'`, and that of the place has moved with it. -/
structure Moved (r r' : Nat) (p p' : Cursor) : Prop where
  row : p'.row + r = p.row + r'
  blank : p'.blank = p.blank

theorem size_append (us vs : List Char) : size (us ++ vs) = size us + size vs := by
  simp [size]

theorem size_cons (c : Char) (vs : List Char) : size (c :: vs) = c.utf8Size + size vs := by
  simp [size]

theorem eq_nil_of_size (h : size vs = 0) : vs = [] := by
  cases vs with
  | nil => rfl
  | cons c vs =>
    have hpos := Char.utf8Size_pos c
    rw [size_cons] at h
    omega

/-- Where a text is split in two ways, the front that is no longer is the beginning of the other. -/
theorem exists_of_append_eq (h : us ++ vs = us' ++ vs') (hle : size us ≤ size us') :
    ∃ ws, us' = us ++ ws ∧ vs = ws ++ vs' := by
  rcases List.append_eq_append_iff.1 h with ⟨ws, hus', hvs⟩ | ⟨ws, hus, hvs'⟩
  · exact ⟨ws, hus', hvs⟩
  · have hws : ws = [] := eq_nil_of_size (by rw [hus, size_append] at hle; omega)
    subst hws
    exact ⟨[], by simpa using hus.symm, by simpa using hvs'.symm⟩

theorem append_inj_of_size (h : us ++ vs = us' ++ vs') (hsize : size us = size us') :
    us = us' ∧ vs = vs' := by
  obtain ⟨ws, rfl, hvs⟩ := exists_of_append_eq h (Nat.le_of_eq hsize)
  have hws : ws = [] := eq_nil_of_size (by rw [size_append] at hsize; omega)
  subst hws
  exact ⟨(List.append_nil us).symm, hvs⟩

theorem Within.offset_le (h : p.Within src) : p.offset ≤ size src := by
  obtain ⟨before, hsrc, hbehind⟩ := h.exists_before
  rw [hbehind.offset, congrArg size hsrc, size_append]
  exact Nat.le_add_right _ _

/-- Behind a character that is not white space, whether a line is blank does not depend on what
stands before that character. -/
theorem blank_append (hc : Unicode.isSpace c = false) (us us' ws : List Char) :
    (lastLine (us ++ c :: ws)).all Unicode.isSpace
      = (lastLine (us' ++ c :: ws)).all Unicode.isSpace := by
  have hline : c ≠ '\n' := by
    rintro rfl
    exact absurd hc (by decide)
  induction ws using List.reverseRecOn with
  | nil => simp [lastLine_concat, hline, hc]
  | append_singleton ws d ih =>
    rw [← List.cons_append, ← List.append_assoc, ← List.append_assoc, lastLine_concat,
      lastLine_concat]
    split
    · rfl
    · rw [List.all_append, List.all_append, ih]

/-- In texts that begin in the same way, places as many bytes from the beginning are the same, up to
what is to come behind the part that they share. -/
theorem Within.of_front (hp : p.Within (us ++ vs)) (hp' : p'.Within (us ++ vs'))
    (hoffset : p'.offset = p.offset) (hle : p.offset ≤ size us) :
    p.Moved 0 0 p' ∧ ∃ ws, p.rest = ws ++ vs ∧ p'.rest = ws ++ vs' := by
  obtain ⟨before, hsrc, hbehind⟩ := hp.exists_before
  obtain ⟨before', hsrc', hbehind'⟩ := hp'.exists_before
  obtain ⟨ws, hus, hrest⟩ := exists_of_append_eq hsrc.symm (hbehind.offset ▸ hle)
  obtain ⟨ws', hus', hrest'⟩ :=
    exists_of_append_eq hsrc'.symm (hbehind'.offset ▸ hoffset ▸ hle)
  obtain ⟨rfl, rfl⟩ := append_inj_of_size (hus.symm.trans hus')
    (by rw [← hbehind.offset, ← hbehind'.offset, hoffset])
  refine ⟨⟨?_, hbehind'.blank.trans hbehind.blank.symm⟩, ws, hrest, hrest'⟩
  rw [hbehind.row, hbehind'.row]

/-- In texts that end in the same way, behind a character that is not white space, places as many
bytes behind it differ in their lines only. -/
theorem Within.of_back (hc : Unicode.isSpace c = false) (hp : p.Within (us ++ c :: vs))
    (hp' : p'.Within (us' ++ c :: vs))
    (hoffset : p'.offset + size (us ++ [c]) = p.offset + size (us' ++ [c]))
    (hle : size (us ++ [c]) ≤ p.offset) :
    p.Moved (us.count '\n') (us'.count '\n') p' ∧ p'.rest = p.rest := by
  rw [List.append_cons] at hp hp'
  obtain ⟨before, hsrc, hbehind⟩ := hp.exists_before
  obtain ⟨before', hsrc', hbehind'⟩ := hp'.exists_before
  obtain ⟨ws, rfl, hrest⟩ := exists_of_append_eq hsrc (hbehind.offset ▸ hle)
  have hle' : size (us' ++ [c]) ≤ size before' := by rw [← hbehind'.offset]; omega
  obtain ⟨ws', rfl, hrest'⟩ := exists_of_append_eq hsrc' hle'
  have hsize : size ws = size ws' := by
    have h := hbehind.offset
    have h' := hbehind'.offset
    rw [size_append] at h h'
    omega
  obtain ⟨rfl, hrests⟩ := append_inj_of_size (hrest.symm.trans hrest') hsize
  refine ⟨⟨?_, ?_⟩, hrests.symm⟩
  · rw [hbehind.row, hbehind'.row]
    simp only [List.count_append]
    omega
  · rw [hbehind.blank, hbehind'.blank, ← List.append_cons, ← List.append_cons]
    exact blank_append hc us' us ws

instance : DecidableEq Cursor := fun p q =>
  decidable_of_iff (p.rest = q.rest ∧ p.offset = q.offset ∧ p.row = q.row ∧ p.blank = q.blank) (by
    cases p
    cases q
    simp)

end Cursor

namespace Node

open Cursor (size)

variable {n n' m m' : Node} {ns ns' seen seen' : List Node} {src src' us us' vs vs' : List Char}
  {c : Char} {r r' a b : Nat} {g : Tables}

/-! ## The order of nodes -/

/-- The nodes stand one behind the other between the bytes `a` and `b`. -/
structure InOrder (a b : Nat) (ns : List Node) : Prop where
  bounds : ∀ n ∈ ns, a ≤ n.start.offset ∧ n.stop.offset ≤ b
  pairwise : ns.Pairwise fun m n => m.stop.offset ≤ n.start.offset

theorem inOrder_nil : InOrder a b [] := ⟨nofun, .nil⟩

theorem InOrder.append {d : Nat} (h : InOrder a b ns) (h' : InOrder b d ns') (hab : a ≤ b)
    (hbd : b ≤ d) : InOrder a d (ns ++ ns') := by
  refine ⟨List.forall_mem_append.2 ⟨fun n hn => ?_, fun n hn => ?_⟩,
    List.pairwise_append.2 ⟨h.pairwise, h'.pairwise, fun m hm n hn => ?_⟩⟩
  · exact ⟨(h.bounds n hn).1, Nat.le_trans (h.bounds n hn).2 hbd⟩
  · exact ⟨Nat.le_trans hab (h'.bounds n hn).1, (h'.bounds n hn).2⟩
  · exact Nat.le_trans (h.bounds m hm).2 (h'.bounds n hn).1

theorem InOrder.mono {a' b' : Nat} (h : InOrder a b ns) (ha : a' ≤ a) (hb : b ≤ b') :
    InOrder a' b' ns :=
  ⟨fun n hn => ⟨Nat.le_trans ha (h.bounds n hn).1, Nat.le_trans (h.bounds n hn).2 hb⟩, h.pairwise⟩

theorem inOrder_ofPieces {ps : List Piece} (hps : ∀ p ∈ ps, ∀ renamed field,
    InOrder p.start.offset p.stop.offset (ofPiece g renamed field p)) : ∀ {a : Nat}
    (outer : Option Field) (ss : List Step), Piece.Ordered a ps b →
    InOrder a b (ofPieces g outer ss ps) := by
  induction ps with
  | nil =>
    intro a outer ss _
    rw [ofPieces]
    exact inOrder_nil
  | cons p ps ih =>
    intro a outer ss h
    obtain ⟨hp, hrest⟩ := List.forall_mem_cons.1 hps
    have htail := fun ss => ih hrest outer ss h.2.2
    have hjoin : ∀ renamed field ss,
        InOrder a b (ofPiece g renamed field p ++ ofPieces g outer ss ps) := fun renamed field ss =>
      ((hp renamed field).append (htail ss) h.2.1 h.2.2.le).mono h.1 (Nat.le_refl b)
    unfold ofPieces
    split
    · exact hjoin _ _ _
    · split
      · exact hjoin _ _ _
      · exact hjoin _ _ _

theorem inOrder_ofPiece {p : Piece} (hs : p.Sound g src) : ∀ (renamed : Option Kind)
    (field : Option Field), InOrder p.start.offset p.stop.offset (ofPiece g renamed field p) := by
  have hone : ∀ (k f m b) (start stop : Cursor) (cs : List Node),
      InOrder start.offset stop.offset [mk k f m b start stop cs] := fun k f m b start stop cs =>
    ⟨List.forall_mem_singleton.2 ⟨Nat.le_refl _, Nat.le_refl _⟩, List.pairwise_singleton _ _⟩
  induction hs with
  | leaf hl =>
    intro renamed field
    simp only [ofPiece]
    split
    · exact hone _ _ _ _ _ _ _
    · exact inOrder_nil
  | node h _ ih =>
    intro renamed field
    simp only [ofPiece]
    split
    · exact hone _ _ _ _ _ _ _
    · exact inOrder_ofPieces ih _ _ h.ordered

/-- The children of a node stand in it, one behind the other. -/
theorem Derived.inOrder (h : n.Derived g src) :
    InOrder n.start.offset n.stop.offset n.children := by
  cases h with
  | token _ _ _ _ hchildren _ =>
    rw [hchildren]
    exact inOrder_nil
  | phrase made _ _ =>
    rw [made.children]
    exact inOrder_ofPieces (fun p hp => inOrder_ofPiece (made.pieces p hp).1) _ _ made.ordered

/-- What stands in front of a child ends where that begins, and what stands behind it begins where
that ends. -/
theorem InOrder.of_append (h : InOrder a b (ns ++ n :: ns')) :
    (∀ m ∈ ns, m.stop.offset ≤ n.start.offset) ∧ ∀ m ∈ ns', n.stop.offset ≤ m.start.offset := by
  obtain ⟨-, hbehind, hfront⟩ := List.pairwise_append.1 h.pairwise
  exact ⟨fun m hm => hfront m hm n List.mem_cons_self, (List.pairwise_cons.1 hbehind).1⟩

theorem InOrder.filter (h : InOrder a b ns) (p : Node → Bool) : InOrder a b (ns.filter p) :=
  ⟨fun n hn => h.bounds n (List.mem_of_mem_filter hn), h.pairwise.filter p⟩

/-! ## Trees with the same shape -/

/-- Two trees have the same nodes, in places that `same` tells of, but what is below nodes that are
`apart` may be anything. -/
inductive Alike (same apart : Node → Node → Prop) : Node → Node → Prop where
  | apart {n n' : Node} (h : apart n n') : Alike same apart n n'
  | mk {n n' : Node} (here : same n n') (length : n.children.length = n'.children.length)
      (children : ∀ x ∈ n.children.zip n'.children, Alike same apart x.1 x.2) :
      Alike same apart n n'

theorem Alike.imp {same same₁ apart apart₁ : Node → Node → Prop} {P : Node → Node → Prop}
    (hbelow : ∀ {n n'}, P n n' → ∀ x ∈ n.children.zip n'.children, P x.1 x.2)
    (hsame : ∀ {n n'}, P n n' → same n n' → same₁ n n')
    (hapart : ∀ {n n'}, P n n' → apart n n' → apart₁ n n') (h : Alike same apart n n')
    (hP : P n n') : Alike same₁ apart₁ n n' := by
  induction h with
  | apart h => exact .apart (hapart hP h)
  | mk here length _ ih => exact .mk (hsame hP here) length fun x hx => ih x hx (hbelow hP x hx)

theorem Alike.forall₂ {same apart : Node → Node → Prop}
    (length : n.children.length = n'.children.length)
    (children : ∀ x ∈ n.children.zip n'.children, Alike same apart x.1 x.2) :
    List.Forall₂ (Alike same apart) n.children n'.children :=
  List.forall₂_iff_zip.2 ⟨length, fun hab => children _ hab⟩

mutual

/-- `Alike` as a computation. -/
def alike (same apart : Node → Node → Prop) [DecidableRel same] [DecidableRel apart] :
    Node → Node → Bool
  | .mk k f m b s e cs, n' =>
    apart (.mk k f m b s e cs) n' ||
      same (.mk k f m b s e cs) n' && alikeAll same apart cs n'.children

/-- `alike` of all nodes of two lists. -/
def alikeAll (same apart : Node → Node → Prop) [DecidableRel same] [DecidableRel apart] :
    List Node → List Node → Bool
  | [], [] => true
  | n :: ns, n' :: ns' => alike same apart n n' && alikeAll same apart ns ns'
  | _, _ => false

end

mutual

theorem alike_of_eq_true {same apart : Node → Node → Prop} [DecidableRel same]
    [DecidableRel apart] : ∀ n n' : Node, alike same apart n n' = true → Alike same apart n n'
  | .mk k f m b s e cs, n', h => by
    simp only [alike, Bool.or_eq_true, Bool.and_eq_true, decide_eq_true_eq] at h
    rcases h with h | ⟨hsame, hall⟩
    · exact .apart h
    · obtain ⟨hlength, hzip⟩ := List.forall₂_iff_zip.1 (forall₂_alike cs n'.children hall)
      exact .mk hsame hlength fun x hx => hzip (a := x.1) (b := x.2) hx

theorem forall₂_alike {same apart : Node → Node → Prop} [DecidableRel same]
    [DecidableRel apart] : ∀ ns ns' : List Node, alikeAll same apart ns ns' = true →
      List.Forall₂ (Alike same apart) ns ns'
  | [], [], _ => .nil
  | n :: ns, n' :: ns', h => by
    simp only [alikeAll, Bool.and_eq_true] at h
    exact .cons (alike_of_eq_true n n' h.1) (forall₂_alike ns ns' h.2)

end

/-- The nodes are the same but for their place, where `places` relates the bytes before them. -/
structure Placed (places : Nat → Nat → Prop) (n n' : Node) : Prop where
  kind : n'.kind = n.kind
  field : n'.field = n.field
  start : places n.start.offset n'.start.offset
  stop : places n.stop.offset n'.stop.offset

instance {places : Nat → Nat → Prop} [DecidableRel places] : DecidableRel (Placed places) :=
  fun n n' => decidable_of_iff (n'.kind = n.kind ∧ n'.field = n.field ∧
    places n.start.offset n'.start.offset ∧ places n.stop.offset n'.stop.offset)
    ⟨fun ⟨h₁, h₂, h₃, h₄⟩ => ⟨h₁, h₂, h₃, h₄⟩, fun ⟨h₁, h₂, h₃, h₄⟩ => ⟨h₁, h₂, h₃, h₄⟩⟩

/-- The nodes agree in all but their children. -/
def Equal (n n' : Node) : Prop :=
  n.kind = n'.kind ∧ n.field = n'.field ∧ n.missing = n'.missing ∧ n.broken = n'.broken ∧
    n.start = n'.start ∧ n.stop = n'.stop

instance : DecidableRel Equal := fun n n' =>
  inferInstanceAs (Decidable (n.kind = n'.kind ∧ n.field = n'.field ∧ n.missing = n'.missing ∧
    n.broken = n'.broken ∧ n.start = n'.start ∧ n.stop = n'.stop))

theorem eq_of_alike (h : n.Alike Equal (fun _ _ => False) n') : n = n' := by
  induction h with
  | apart h => exact h.elim
  | @mk n n' here length _ ih =>
    obtain ⟨k, f, m, b, start, stop, cs⟩ := n
    obtain ⟨k', f', m', b', start', stop', cs'⟩ := n'
    obtain ⟨hk, hf, hm, hb, hstart, hstop⟩ := here
    have hcs : List.Forall₂ (· = ·) cs cs' := List.forall₂_iff_zip.2 ⟨length, fun hab => ih _ hab⟩
    rw [List.forall₂_eq_eq_eq] at hcs
    cases hk
    cases hf
    cases hm
    cases hb
    cases hstart
    cases hstop
    cases hcs
    rfl

/-- The nodes are the same on other lines. -/
structure Keeps (r r' : Nat) (n n' : Node) : Prop where
  kind : n'.kind = n.kind
  field : n'.field = n.field
  text : n'.text = n.text
  start : n.start.Moved r r' n'.start
  stop : n.stop.Moved r r' n'.stop

/-- The trees are the same on other lines. -/
def Moved (r r' : Nat) : Node → Node → Prop := Alike (Keeps r r') fun _ _ => False

theorem text_eq_of_rest (hn : n.Derived g src) (hn' : n'.Derived g src') {ws xs : List Char}
    (hstart : n.start.rest = ws ++ vs ∧ n'.start.rest = ws ++ vs')
    (hstop : n.stop.rest = xs ++ vs ∧ n'.stop.rest = xs ++ vs') : n'.text = n.text := by
  have hleft := hn.rest_eq
  have hright := hn'.rest_eq
  rw [hstart.1, hstop.1, ← List.append_assoc] at hleft
  rw [hstart.2, hstop.2, ← List.append_assoc] at hright
  have htext := (List.append_cancel_right hleft).symm.trans (List.append_cancel_right hright)
  exact String.toList_inj.1 (List.append_cancel_right htext).symm

/-- Nodes of two trees. -/
structure Both (g : Tables) (src src' : List Char) (n n' : Node) : Prop where
  left : n.Derived g src
  right : n'.Derived g src'

theorem Both.below (h : Both g src src' n n') {x : Node × Node}
    (hx : x ∈ n.children.zip n'.children) : Both g src src' x.1 x.2 :=
  ⟨h.left.child (List.of_mem_zip hx).1, h.right.child (List.of_mem_zip hx).2⟩

theorem Both.forall₂ {R : Node → Node → Prop} (h : Both g src src' n n') (hns : ns ⊆ n.children)
    (hns' : ns' ⊆ n'.children) (hR : List.Forall₂ R ns ns') :
    List.Forall₂ (fun m m' => R m m' ∧ Both g src src' m m') ns ns' := by
  obtain ⟨hlength, hzip⟩ := List.forall₂_iff_zip.1 hR
  refine List.forall₂_iff_zip.2 ⟨hlength, fun hab => ⟨hzip hab, ?_⟩⟩
  obtain ⟨ha, hb⟩ := List.of_mem_zip hab
  exact ⟨h.left.child (hns ha), h.right.child (hns' hb)⟩

theorem parts_subset (n : Node) : n.parts ⊆ n.children := fun _ => List.mem_of_mem_filter

section Places

variable {places : Nat → Nat → Prop} {apart : Node → Node → Prop}

/-- What stands in the part that two texts begin with stays. -/
theorem moved_of_front (hplaces : ∀ {i j}, places i j → i ≤ size us → j = i)
    (hapart : ∀ {m m'}, apart m m' → size us < m.stop.offset)
    (h : Alike (Placed places) apart n n') (hboth : Both g (us ++ vs) (us ++ vs') n n')
    (hstop : n.stop.offset ≤ size us) : n.Moved 0 0 n' := by
  refine h.imp (P := fun n n' => Both g (us ++ vs) (us ++ vs') n n' ∧ n.stop.offset ≤ size us)
    ?_ ?_ ?_ ⟨hboth, hstop⟩
  · rintro n n' ⟨hboth, hstop⟩ x hx
    have hbounds := hboth.left.inOrder.bounds x.1 (List.of_mem_zip hx).1
    exact ⟨hboth.below hx, Nat.le_trans hbounds.2 hstop⟩
  · rintro n n' ⟨⟨hn, hn'⟩, hstop⟩ ⟨hkind, hfield, hplace, hplace'⟩
    have hstart := Nat.le_trans hn.le hstop
    obtain ⟨hmoved, ws, hrest⟩ := hn.start.of_front hn'.start (hplaces hplace hstart) hstart
    obtain ⟨hmoved', xs, hrest'⟩ := hn.stop.of_front hn'.stop (hplaces hplace' hstop) hstop
    exact ⟨hkind, hfield, text_eq_of_rest hn hn' hrest hrest', hmoved, hmoved'⟩
  · rintro n n' ⟨-, hstop⟩ h
    exact absurd hstop (Nat.not_le_of_lt (hapart h))

/-- What stands in the part that two texts end with moves with the line that it begins on. -/
theorem moved_of_back (hc : Unicode.isSpace c = false)
    (hplaces : ∀ {i j}, places i j → size (us ++ [c]) ≤ i →
      j + size (us ++ [c]) = i + size (us' ++ [c]))
    (hapart : ∀ {m m'}, apart m m' → m.start.offset < size (us ++ [c]))
    (h : Alike (Placed places) apart n n') (hboth : Both g (us ++ c :: vs) (us' ++ c :: vs) n n')
    (hstart : size (us ++ [c]) ≤ n.start.offset) :
    n.Moved (us.count '\n') (us'.count '\n') n' := by
  refine h.imp (P := fun n n' => Both g (us ++ c :: vs) (us' ++ c :: vs) n n' ∧
    size (us ++ [c]) ≤ n.start.offset) ?_ ?_ ?_ ⟨hboth, hstart⟩
  · rintro n n' ⟨hboth, hstart⟩ x hx
    have hbounds := hboth.left.inOrder.bounds x.1 (List.of_mem_zip hx).1
    exact ⟨hboth.below hx, Nat.le_trans hstart hbounds.1⟩
  · rintro n n' ⟨⟨hn, hn'⟩, hstart⟩ ⟨hkind, hfield, hplace, hplace'⟩
    have hstop := Nat.le_trans hstart hn.le
    obtain ⟨hmoved, hrest⟩ := hn.start.of_back hc hn'.start (hplaces hplace hstart) hstart
    obtain ⟨hmoved', hrest'⟩ := hn.stop.of_back hc hn'.stop (hplaces hplace' hstop) hstop
    -- Nothing is left out: what is to come is the same.
    have hstart' : n.start.rest = n.start.rest ++ [] ∧ n'.start.rest = n.start.rest ++ [] := by
      simp [hrest]
    have hstop' : n.stop.rest = n.stop.rest ++ [] ∧ n'.stop.rest = n.stop.rest ++ [] := by
      simp [hrest']
    exact ⟨hkind, hfield, text_eq_of_rest hn hn' hstart' hstop', hmoved, hmoved'⟩
  · rintro n n' ⟨-, hstart⟩ h
    exact absurd hstart (Nat.not_le_of_lt (hapart h))

end Places

/-! ## What moved nodes declare -/

theorem Moved.keeps (h : n.Moved r r' n') : Keeps r r' n n' := by
  cases h with
  | apart h => exact h.elim
  | mk here _ _ => exact here

theorem Moved.children (h : n.Moved r r' n') :
    List.Forall₂ (Moved r r') n.children n'.children := by
  cases h with
  | apart h => exact h.elim
  | mk _ length children => exact Alike.forall₂ length children

theorem Moved.parts (h : n.Moved r r' n') : List.Forall₂ (Moved r r') n.parts n'.parts :=
  List.rel_filter (fun _ _ hm => by dsimp only; rw [hm.keeps.kind]) h.children

theorem Moved.part? (h : n.Moved r r' n') (f : Field) :
    Option.Rel (Moved r r') (n.part? f) (n'.part? f) :=
  rel_find? (fun _ _ hm => by rw [hm.keeps.field]) h.children

theorem map_text_eq {o o' : Option Node} (h : Option.Rel (Moved r r') o o') :
    o'.map text = o.map text := by
  cases h with
  | none => rfl
  | some hm => exact congrArg some hm.keeps.text

/-- Types reduce to the same name on other lines. By recursion over the type. -/
theorem Moved.baseType? (n : Node) : ∀ {n' : Node}, n.Moved r r' n' →
    n'.baseType? = n.baseType? := by
  intro n' h
  have hinner : ∀ {o o' : Option Node}, Option.Rel (Moved r r') o o' →
      (∀ m ∈ o, m ∈ n.children) → o'.bind Node.baseType? = o.bind Node.baseType? := by
    intro o o' ho hmem
    cases ho with
    | none => rfl
    | @some m m' hm =>
      have hlt := sizeOf_lt_of_mem_children (hmem m rfl)
      exact Moved.baseType? m hm
  rw [baseType?_eq n', baseType?_eq n, h.keeps.kind, h.keeps.text,
    hinner (rel_head? h.parts) fun m hm => List.mem_of_mem_filter (List.mem_of_head? hm),
    hinner (h.part? .type) fun m hm => List.mem_of_find?_eq_some hm]
termination_by sizeOf n

theorem Moved.params (h : n.Moved r r' n') : List.Forall₂ (Moved r r') n.params n'.params :=
  List.rel_filter (fun _ _ hm => by dsimp only; rw [hm.keeps.kind]) h.parts

theorem Moved.length_names (h : n.Moved r r' n') : n'.names.length = n.names.length :=
  (List.rel_filter (R := Moved r r') (fun _ _ hm => by dsimp only; rw [hm.keeps.field])
    h.children).length_eq.symm

theorem Moved.receiver? (h : n.Moved r r' n') : n'.receiver? = n.receiver? := by
  have hparams := h.params
  rw [Node.receiver?, Node.receiver?]
  generalize n.params = ps, n'.params = ps' at hparams
  cases hparams with
  | nil => rfl
  | @cons param param' ps ps' hp hps =>
    cases hps with
    | cons _ _ => rfl
    | nil =>
      dsimp only
      rw [hp.length_names]
      have hpart := hp.part? .type
      generalize param.part? .type = o, param'.part? .type = o' at hpart
      cases hpart with
      | none => rfl
      | some hm => rw [Option.bind_some, Option.bind_some, Moved.baseType? _ hm]

theorem receiver_eq_ok_iff {list : Node} {t : String} :
    list.receiver = .ok t ↔ list.receiver? = some t := by
  rw [← receives_iff]
  refine ⟨fun h => ?_, fun h => h.receiver_eq⟩
  rcases list.receives_or_misreceives with ⟨u, hu⟩ | ⟨f, hf⟩
  · rw [hu.receiver_eq] at h
    exact Except.ok.inj h ▸ hu
  · rw [hf.receiver_eq] at h
    cases h

/-- The nodes are in one field, and say the same if it is for a name or a receiver. -/
structure SaysSame (n n' : Node) : Prop where
  field : n'.field = n.field
  text : n.field ≠ none → n'.text = n.text
  receiver : n.field ≠ none → n'.receiver? = n.receiver?

theorem Moved.saysSame (h : n.Moved r r' n') : SaysSame n n' :=
  ⟨h.keeps.field, fun _ => h.keeps.text, fun _ => h.receiver?⟩

/-- A function whose children say the same is the same function. -/
theorem funcDecl_of_saysSame (h : List.Forall₂ SaysSame n.children n'.children) {doc : Option Doc}
    {f : FuncDecl} (hf : n.funcDecl doc = .ok f) : n'.funcDecl doc = .ok f := by
  have hpart : ∀ field, Option.Rel SaysSame (n.part? field) (n'.part? field) := fun field =>
    rel_find? (fun _ _ hm => by rw [hm.field]) h
  have hfield : ∀ {field m}, n.part? field = some m → m.field ≠ none := fun hm hnone => by
    have hsome := List.find?_some hm
    rw [hnone] at hsome
    cases hsome
  have hname := hpart .name
  have hreceiver := hpart .receiver
  unfold funcDecl at hf ⊢
  split at hf
  · cases hf
  next name hn =>
    rw [hn] at hname
    generalize n'.part? .name = o at hname ⊢
    cases hname with
    | some hname =>
      dsimp only
      rw [hname.text (hfield hn)]
      split at hf
      next hnone =>
        rw [hnone] at hreceiver
        generalize n'.part? .receiver = o at hreceiver ⊢
        cases hreceiver with
        | none => exact hf
      next list hlist =>
        rw [hlist] at hreceiver
        generalize n'.part? .receiver = o at hreceiver ⊢
        cases hreceiver with
        | some hsays =>
          split at hf
          next t ht =>
            rw [receiver_eq_ok_iff, ← hsays.receiver (hfield hlist), ← receiver_eq_ok_iff] at ht
            dsimp only
            rw [ht]
            exact hf
          · cases hf

/-! ## Comments -/

/-- The nodes that stand before some place, last first, hold the same comments for it when it moves
from the row `r` to the row `r'`. -/
def SameAbove (r r' : Nat) (seen seen' : List Node) : Prop :=
  ∀ row row', row' + r = row + r' →
    (attached row' seen').map text = (attached row seen).map text

theorem sameAbove_nil : SameAbove r r' [] [] := fun _ _ _ => rfl

theorem SameAbove.cons (hseen : SameAbove r r' seen seen') (h : n.Moved r r' n') :
    SameAbove r r' (n :: seen) (n' :: seen') := by
  intro row row' hrow
  obtain ⟨hkind, -, htext, hstart, hstop⟩ := h.keeps
  have hbelow : (n'.stop.row + 1 == row') = (n.stop.row + 1 == row) := by
    have hmoved := hstop.row
    rw [Bool.eq_iff_iff, beq_iff_eq, beq_iff_eq]
    omega
  rw [attached, attached, hkind, hbelow, hstart.blank]
  split
  · rw [List.map_cons, List.map_cons, htext, hseen _ _ hstart.row]
  · rfl

/-- Nothing is attached through a node that is no comment. -/
theorem sameAbove_of_kind (h : n.kind ≠ .token .comment) (h' : n'.kind ≠ .token .comment) :
    SameAbove r r' (n :: seen) (n' :: seen') := by
  intro row row' _
  rw [attached, attached, decide_eq_false h, decide_eq_false h']
  rfl

theorem SameAbove.doc?_eq (hseen : SameAbove r r' seen seen') (h : n.start.Moved r r' n'.start) :
    doc? seen'.reverse n' = doc? seen.reverse n := by
  rw [doc?_eq_docOf, doc?_eq_docOf, hseen _ _ h.row]

/-! ## Declarations -/

theorem typeDecls_of_moved (outer : Option Doc) (h : List.Forall₂ (Moved r r') ns ns') :
    ∀ {seen seen' : List Node}, SameAbove r r' seen seen' →
      typeDecls outer seen' ns' = typeDecls outer seen ns := by
  induction h with
  | nil => exact fun _ => rfl
  | @cons n n' ns ns' hn _ ih =>
    intro seen seen' hseen
    rw [typeDecls, typeDecls, hn.keeps.kind, ih (hseen.cons hn), hseen.doc?_eq hn.keeps.start]
    have hname := map_text_eq (hn.part? .name)
    generalize n.part? .name = o, n'.part? .name = o' at hname
    cases o <;> cases o' <;> simp_all

/-- The node `n'` behind the nodes `seen'` declares what the node `n` behind `seen` does. -/
structure Retells (seen seen' : List Node) (n n' : Node) : Prop where
  kind : n'.kind = n.kind
  package : n.kind = .phrase .packageClause →
    (n'.parts.find? (·.kind = .alternate .packageIdentifier)).map text
      = (n.parts.find? (·.kind = .alternate .packageIdentifier)).map text
  types : n.kind = .phrase .typeDeclaration → typeDecls (doc? seen'.reverse n') [] n'.parts
    = typeDecls (doc? seen.reverse n) [] n.parts
  func : ∀ f, n.funcDecl (doc? seen.reverse n) = .ok f →
    n'.funcDecl (doc? seen'.reverse n') = .ok f

theorem SameAbove.retells (hseen : SameAbove r r' seen seen') (h : n.Moved r r' n') :
    Retells seen seen' n n' := by
  have hdoc := hseen.doc?_eq h.keeps.start
  refine ⟨h.keeps.kind, fun _ => ?_, fun _ => ?_, fun f hf => ?_⟩
  · exact map_text_eq (rel_find? (fun _ _ hm => by rw [hm.keeps.kind]) h.parts)
  · rw [hdoc]
    exact typeDecls_of_moved _ h.parts sameAbove_nil
  · rw [hdoc]
    exact funcDecl_of_saysSame (h.children.imp fun _ _ hm => hm.saysSame) hf

/-- Whatever the nodes `ns` behind `seen` declare, the nodes `ns'` behind `seen'` declare. -/
def Repeats (seen seen' ns ns' : List Node) : Prop :=
  ∀ ⦃package last types funcs⦄, collect seen package ns = .ok (last, types, funcs) →
    Adds seen' package ns' last types funcs

theorem repeats_nil : Repeats seen seen' [] [] := fun _ _ _ _ h => by
  cases h
  exact adds_nil

theorem Retells.cons (h : Retells seen seen' n n')
    (hrest : Repeats (n :: seen) (n' :: seen') ns ns') :
    Repeats seen seen' (n :: ns) (n' :: ns') := by
  intro package last types funcs hcollect
  have hkind := h.kind
  unfold collect at hcollect
  split at hcollect
  next hk =>
    exact (adds_clause (hkind.trans hk)).cons (hrest ((h.package hk).symm ▸ hcollect))
  next hk =>
    split at hcollect
    next hok =>
      cases hcollect
      exact h.types hk ▸ (adds_types (hkind.trans hk)).cons (hrest hok)
    · cases hcollect
  iterate 2
    next hk =>
      split at hcollect
      · cases hcollect
      next f hf =>
        split at hcollect
        next hok =>
          cases hcollect
          exact (adds_func (by rw [hkind, hk]; rfl) (h.func f hf)).cons (hrest hok)
        · cases hcollect
  iterate 4
    next hk => exact (adds_nothing (by rw [hkind, hk]; rfl)).cons (hrest hcollect)
  · cases hcollect

/-- Moved nodes repeat what is declared, and nodes behind them that do so in their turn. -/
theorem repeats_append {ms ms' : List Node} (h : List.Forall₂ (Moved r r') ns ns')
    (hrest : ∀ {seen seen'}, SameAbove r r' seen seen' → Repeats seen seen' ms ms') :
    ∀ {seen seen' : List Node}, SameAbove r r' seen seen' →
      Repeats seen seen' (ns ++ ms) (ns' ++ ms') := by
  induction h with
  | nil => exact fun hseen => hrest hseen
  | cons hn _ ih => exact fun hseen => (hseen.retells hn).cons (ih (hseen.cons hn))

theorem repeats_moved (h : List.Forall₂ (Moved r r') ns ns') (hseen : SameAbove r r' seen seen') :
    Repeats seen seen' ns ns' := by
  have hall := repeats_append h (fun _ => repeats_nil) hseen
  rwa [List.append_nil, List.append_nil] at hall

end Node

theorem collect_of_parse {source : String} {root : Node} {file : SourceFile}
    (hroot : Node.ofSource? source.toList = some root) (h : SourceFile.parse source = .ok file) :
    Node.collect [] none root.parts = .ok (some file.package, file.types, file.funcs) := by
  rw [Node.parse_of_ofSource? hroot (broken_of_parse hroot h), Node.sourceFile] at h
  split at h
  · cases h
  · cases h
  next hcollect =>
    cases h
    exact hcollect

end Go
end RouteScribe
