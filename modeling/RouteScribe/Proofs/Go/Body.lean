import RouteScribe.Proofs.Go.Moved

/-!
# RouteScribe.Proofs.Go.Body

The bodies of functions. What stands between the braces of a body declares nothing: with anything
else there a source file says the same, if the tree around the body stays as it is. Declarations
behind the body may be on other lines then, but they have their comments with them.

The tree around a body does not always stay. The grammar leaves some declarations open at the end
of a line, and which of two readings is taken may depend on a body further on.

* `withBody`: texts that differ in a body.
* `Node.SameOutside`: trees that differ in a body.
* `parse_of_body`: they declare the same.
-/

namespace RouteScribe
namespace Go

/-- A text with a body, of which `inner` stands between the braces. -/
def withBody (front inner back : String) : String :=
  front ++ "\x7b" ++ inner ++ "\x7d" ++ back

/-- What the text has up to the brace that closes the body. -/
def bodyFront (front inner : String) : List Char := front.toList ++ '\x7b' :: inner.toList

theorem toList_withBody (front inner back : String) :
    (withBody front inner back).toList = bodyFront front inner ++ '\x7d' :: back.toList := by
  simp [withBody, bodyFront]

/-- Bytes before the body. -/
def bodyStart (front : String) : Nat := Cursor.size front.toList

/-- Bytes up to the end of the body. -/
def bodyStop (front inner : String) : Nat := Cursor.size (bodyFront front inner ++ ['\x7d'])

theorem bodyStart_lt (front inner : String) : bodyStart front < bodyStop front inner := by
  have hpos := Char.utf8Size_pos '\x7b'
  rw [bodyStop, bodyFront, Cursor.size_append, Cursor.size_append, Cursor.size_cons, bodyStart]
  omega

/-- The row on which the body ends. -/
def bodyRows (front inner : String) : Nat := (bodyFront front inner).count '\n'

/-- As many bytes from the beginning of one text as from that of the other, or from the end of its
body. -/
def OutsideBody (front inner inner' : String) (i j : Nat) : Prop :=
  i ≤ bodyStart front ∧ j = i ∨
    bodyStop front inner ≤ i ∧ j + bodyStop front inner = i + bodyStop front inner'

namespace Node

variable {front inner inner' back : String} {n n' f f' block : Node} {ns : List Node}

/-- The node is the body, and neither a name nor a type. -/
structure IsBody (front inner : String) (n : Node) : Prop where
  kind : n.kind = .phrase .block
  field : n.field = none
  start : n.start.offset = bodyStart front
  stop : n.stop.offset = bodyStop front inner

/-- The trees are the same but for what is in the body. -/
def SameOutside (front inner inner' : String) : Node → Node → Prop :=
  Alike (Placed (OutsideBody front inner inner')) fun n n' =>
    IsBody front inner n ∧ IsBody front inner' n'

/-- The nodes are of the texts with the two bodies. -/
def OfBodies (front inner inner' back : String) : Node → Node → Prop :=
  Both goTables (withBody front inner back).toList (withBody front inner' back).toList

theorem SameOutside.moved_front (h : SameOutside front inner inner' n n')
    (hboth : OfBodies front inner inner' back n n') (hstop : n.stop.offset ≤ bodyStart front) :
    n.Moved 0 0 n' := by
  rw [OfBodies, toList_withBody, toList_withBody, bodyFront, bodyFront, List.append_assoc,
    List.append_assoc] at hboth
  refine moved_of_front (fun {i j} hij hle => ?_) (fun {m m'} hm => ?_) h hboth hstop
  · rcases hij with ⟨-, heq⟩ | ⟨hbehind, -⟩
    · exact heq
    · exact absurd (Nat.le_trans hbehind hle) (Nat.not_le_of_lt (bodyStart_lt front inner))
  · rw [hm.1.stop]
    exact bodyStart_lt front inner

theorem SameOutside.moved_back (h : SameOutside front inner inner' n n')
    (hboth : OfBodies front inner inner' back n n')
    (hstart : bodyStop front inner ≤ n.start.offset) :
    n.Moved (bodyRows front inner) (bodyRows front inner') n' := by
  rw [OfBodies, toList_withBody, toList_withBody] at hboth
  refine moved_of_back (by decide) (fun {i j} hij hle => ?_) (fun {m m'} hm => ?_) h hboth hstart
  · rcases hij with ⟨hfront, -⟩ | ⟨-, heq⟩
    · exact absurd (Nat.le_trans hle hfront) (Nat.not_le_of_lt (bodyStart_lt front inner))
    · exact heq
  · rw [hm.1.start]
    exact bodyStart_lt front inner

/-- Only bodies are no longer the same. -/
theorem SameOutside.placed (h : SameOutside front inner inner' n n')
    (hn : n.kind ≠ .phrase .block) : Placed (OutsideBody front inner inner') n n' ∧
      List.Forall₂ (SameOutside front inner inner') n.children n'.children := by
  cases h with
  | apart h => exact absurd h.1.kind hn
  | mk here length children => exact ⟨here, Alike.forall₂ length children⟩

theorem SameOutside.saysSame_body (h : SameOutside front inner inner' n n')
    (hn : IsBody front inner n) : SaysSame n n' := by
  have hfield : n'.field = n.field := by
    cases h with
    | apart h => rw [h.1.field, h.2.field]
    | mk here _ _ => exact here.field
  exact ⟨hfield, fun h => absurd hn.field h, fun h => absurd hn.field h⟩

theorem forall₂_append_cons {R : Node → Node → Prop} {ms : List Node} :
    ∀ {ns ns' : List Node}, List.Forall₂ R (ns ++ n :: ms) ns' → ∃ as n' bs,
      ns' = as ++ n' :: bs ∧ List.Forall₂ R ns as ∧ R n n' ∧ List.Forall₂ R ms bs := by
  intro ns
  induction ns with
  | nil =>
    intro ns' h
    cases h with
    | @cons _ n' _ bs hn hms => exact ⟨[], n', bs, rfl, .nil, hn, hms⟩
  | cons m ns ih =>
    intro ns' h
    cases h with
    | @cons _ m' _ ms' hm hrest =>
      obtain ⟨as, n', bs, rfl, has, hn, hbs⟩ := ih hrest
      exact ⟨m' :: as, n', bs, rfl, .cons hm has, hn, hbs⟩

/-- Nodes in order of which one holds the body: those in front of it stay, and those behind it move
with the line on which the body ends. -/
theorem exists_around {i j : Nat} {ns' : List Node} (horder : InOrder i j ns) (hn : n ∈ ns)
    (hstart : n.start.offset ≤ bodyStart front) (hstop : bodyStop front inner ≤ n.stop.offset)
    (h : List.Forall₂ (fun m m' => SameOutside front inner inner' m m' ∧
      OfBodies front inner inner' back m m') ns ns') : ∃ as ms as' n' ms',
      ns = as ++ n :: ms ∧ ns' = as' ++ n' :: ms' ∧ List.Forall₂ (Moved 0 0) as as' ∧
      (SameOutside front inner inner' n n' ∧ OfBodies front inner inner' back n n') ∧
      List.Forall₂ (Moved (bodyRows front inner) (bodyRows front inner')) ms ms' := by
  obtain ⟨as, ms, rfl⟩ := List.append_of_mem hn
  obtain ⟨hfront, hback⟩ := horder.of_append
  obtain ⟨as', n', ms', rfl, has, hmiddle, hms⟩ := forall₂_append_cons h
  refine ⟨as, ms, as', n', ms', rfl, rfl, ?_, hmiddle, ?_⟩
  · refine ((List.forall₂_and_left _ _).2 ⟨hfront, has⟩).imp fun m m' hm => ?_
    exact hm.2.1.moved_front hm.2.2 (Nat.le_trans hm.1 hstart)
  · refine ((List.forall₂_and_left _ _).2 ⟨hback, hms⟩).imp fun m m' hm => ?_
    exact hm.2.1.moved_back hm.2.2 (Nat.le_trans hstop hm.1)

/-- What the children of the function say stays, as none of it is in the body. -/
theorem SameOutside.children_saysSame (h : SameOutside front inner inner' n n')
    (hboth : OfBodies front inner inner' back n n') (hn : n.kind ≠ .phrase .block)
    (hblock : block ∈ n.children) (hbody : IsBody front inner block) :
    List.Forall₂ SaysSame n.children n'.children := by
  have hall := Both.forall₂ hboth (List.Subset.refl _) (List.Subset.refl _) (h.placed hn).2
  obtain ⟨as, ms, as', block', ms', hsplit, hsplit', has, hmiddle, hms⟩ :=
    exists_around hboth.left.inOrder hblock (Nat.le_of_eq hbody.start)
      (Nat.le_of_eq hbody.stop.symm) hall
  rw [hsplit, hsplit']
  exact List.rel_append (has.imp fun _ _ hm => hm.saysSame)
    (.cons (hmiddle.1.saysSame_body hbody) (hms.imp fun _ _ hm => hm.saysSame))

/-- The function with the body is the same function behind the same nodes. -/
theorem SameOutside.retells (h : SameOutside front inner inner' n n')
    (hboth : OfBodies front inner inner' back n n') (hn : n.kind.isFunc = true)
    (hblock : block ∈ n.children) (hbody : IsBody front inner block) {seen seen' : List Node}
    (hseen : SameAbove 0 0 seen seen') : Retells seen seen' n n' := by
  have hne : ∀ {k : Kind}, k.isFunc = false → n.kind ≠ k := fun hk heq => by
    rw [heq, hk] at hn
    cases hn
  have hnot : n.kind ≠ .phrase .block := hne rfl
  have hplaced := (h.placed hnot).1
  have hle : n.start.offset ≤ bodyStart front :=
    hbody.start ▸ (hboth.left.inOrder.bounds block hblock).1
  have hstart : n.start.Moved 0 0 n'.start := by
    rcases hplaced.start with ⟨-, heq⟩ | ⟨hbehind, -⟩
    · have hleft := hboth.left.start
      have hright := hboth.right.start
      rw [toList_withBody, bodyFront, List.append_assoc] at hleft hright
      exact (hleft.of_front hright heq hle).1
    · exact absurd (Nat.le_trans hbehind hle) (Nat.not_le_of_lt (bodyStart_lt front inner))
  refine ⟨hplaced.kind, fun hk => absurd hk (hne rfl), fun hk => absurd hk (hne rfl),
    fun f hf => ?_⟩
  rw [hseen.doc?_eq hstart]
  exact funcDecl_of_saysSame (h.children_saysSame hboth hnot hblock hbody) hf

end Node

open Node

variable {front inner inner' back : String} {root root' f block : Node} {file : SourceFile}

/-- Another body leaves a source file as it is, if it leaves the tree around it as it is. -/
theorem parse_of_body
    (hroot : ofSource? (withBody front inner back).toList = some root)
    (hroot' : ofSource? (withBody front inner' back).toList = some root')
    (hbroken : root'.broken = false)
    (hsame : List.Forall₂ (SameOutside front inner inner') root.parts root'.parts)
    (hf : f ∈ root.parts) (hfunc : f.kind.isFunc = true) (hblock : block ∈ f.children)
    (hbody : IsBody front inner block)
    (hfile : SourceFile.parse (withBody front inner back) = .ok file) :
    SourceFile.parse (withBody front inner' back) = .ok file := by
  have hboth : OfBodies front inner inner' back root root' :=
    ⟨derived_of_ofSource? hroot (broken_of_parse hroot hfile),
      derived_of_ofSource? hroot' hbroken⟩
  have hall := Both.forall₂ hboth root.parts_subset root'.parts_subset hsame
  have horder : InOrder _ _ root.parts := hboth.left.inOrder.filter _
  have hderived : f.Derived goTables _ := hboth.left.child (List.mem_of_mem_filter hf)
  have hbounds := hderived.inOrder.bounds block hblock
  obtain ⟨as, ms, as', f', ms', hsplit, hsplit', has, hmiddle, hms⟩ :=
    exists_around horder hf (hbody.start ▸ hbounds.1)
      (hbody.stop ▸ hbounds.2) hall
  have hcomment : f.kind ≠ .token .comment := fun hk => by
    rw [hk] at hfunc
    cases hfunc
  have hrepeats : Repeats [] [] root.parts root'.parts := by
    rw [hsplit, hsplit']
    refine repeats_append has (fun hseen => ?_) sameAbove_nil
    have hretells := hmiddle.1.retells hmiddle.2 hfunc hblock hbody hseen
    exact hretells.cons
      (repeats_moved hms (sameAbove_of_kind hcomment (hretells.kind.symm ▸ hcomment)))
  rw [parse_of_ofSource? hroot' hbroken]
  exact (hrepeats (collect_of_parse hroot hfile)).sourceFile

namespace Node

instance : DecidableRel (OutsideBody front inner inner') := fun i j =>
  inferInstanceAs (Decidable (i ≤ bodyStart front ∧ j = i ∨
    bodyStop front inner ≤ i ∧ j + bodyStop front inner = i + bodyStop front inner'))

instance (n : Node) : Decidable (IsBody front inner n) :=
  decidable_of_iff (n.kind = .phrase .block ∧ n.field = none ∧ n.start.offset = bodyStart front ∧
    n.stop.offset = bodyStop front inner)
    ⟨fun ⟨h₁, h₂, h₃, h₄⟩ => ⟨h₁, h₂, h₃, h₄⟩, fun ⟨h₁, h₂, h₃, h₄⟩ => ⟨h₁, h₂, h₃, h₄⟩⟩

/-- Some function has the body, as a computation. -/
def holdsBody (front inner : String) (root : Node) : Bool :=
  root.parts.any fun f => f.kind.isFunc && f.children.any fun n => IsBody front inner n

/-- The trees are the same but for the body, as a computation. -/
def sameOutside (front inner inner' : String) (root root' : Node) : Bool :=
  alikeAll (Placed (OutsideBody front inner inner'))
    (fun n n' => IsBody front inner n ∧ IsBody front inner' n') root.parts root'.parts

end Node

/-- A method, up to its body. -/
def crowdedFront : String := "package p\n// M runs\nfunc (t *T) M() "

/-- A body with what looks like the end of a body in a string, and like a method in a comment. -/
def crowdedBody : String := "\n_ = \"\x7d\"\n// N runs\n/* func (t T) O() \x7b */\n"

/-- What stands behind the body, the first comment on the line of its last brace. -/
def crowdedBack : String := " // N is\n// N runs\nfunc N() \x7b\x7d\n"

theorem parse_of_crowded : SourceFile.parse (withBody crowdedFront "" crowdedBack)
    = .ok ⟨"p", [],
      [⟨"M", some "T", some ⟨[" M runs"]⟩⟩, ⟨"N", none, some ⟨[" N runs"]⟩⟩]⟩ := by
  have h : (Node.ofSource? (withBody crowdedFront crowdedBody crowdedBack).toList).any (fun root =>
      (Node.ofSource? (withBody crowdedFront "" crowdedBack).toList).any fun root' =>
        !root.broken && root.sourceFile = .ok ⟨"p", [], [⟨"M", some "T", some ⟨[" M runs"]⟩⟩,
          ⟨"N", none, some ⟨[" N runs"]⟩⟩]⟩ && !root'.broken &&
          Node.sameOutside crowdedFront crowdedBody "" root root' &&
          Node.holdsBody crowdedFront crowdedBody root) = true := by
    decide +kernel
  obtain ⟨root, hroot, h⟩ := (Option.any_eq_true _ _).1 h
  obtain ⟨root', hroot', h⟩ := (Option.any_eq_true _ _).1 h
  simp only [Bool.and_eq_true, Bool.not_eq_true', decide_eq_true_eq] at h
  obtain ⟨⟨⟨⟨hwhole, hfile⟩, hbroken⟩, hsame⟩, hholds⟩ := h
  obtain ⟨f, hf, hholds⟩ := List.any_eq_true.1 hholds
  obtain ⟨hfunc, hblock⟩ := Bool.and_eq_true_iff.1 hholds
  obtain ⟨block, hblock, hbody⟩ := List.any_eq_true.1 hblock
  exact parse_of_body hroot hroot' hbroken (Node.forall₂_alike _ _ hsame) hf hfunc hblock
    (of_decide_eq_true hbody) ((parse_of_ofSource? hroot hwhole).trans hfile)

end Go
end RouteScribe
