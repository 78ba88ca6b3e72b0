import Mathlib.Data.List.Chain
import RouteScribe.Proofs.Go.Collection

/-!
# RouteScribe.Proofs.Go.Comment

Which comments are attached to a declaration, and what lines they give. Attached is the longest run
of comments in front of it in which each begins its line and ends on the line above the next. What
stands in front of a node are its siblings, punctuation and keywords left out.

* `Doc.HasLines`: the lines of a comment.
* `Node.IsRunBefore`: the longest run in front of a node.
* `isRunBefore_attached`: what is attached is that run.
* `Node.IsTypeRun`: the run that counts for a type.
* `docs_of_parse`: the comments of all declarations of a source file.
-/

namespace RouteScribe
namespace Go

/-! ## The lines of a comment -/

namespace Doc

/-- A line without the star in front. -/
def starless : List Char → List Char
  | '*' :: cs => cs
  | cs => cs

/-- The lines of a block comment that holds `inner`: those of the text that are not blank, trimmed
and without the star in front. -/
def blockLines (inner : List Char) : List String :=
  (((Text.linesChars inner).map fun l => starless (Unicode.trimChars l)).filter
    fun l => !l.all Unicode.isSpace).map String.ofList

/-- The lines of a comment: what is behind the mark of a line comment, or the lines between the marks
of a block comment. -/
inductive HasLines : String → List String → Prop where
  | line (inner : List Char) (h : '\n' ∉ inner) :
      HasLines (String.ofList ('/' :: '/' :: inner)) [String.ofList inner]
  | block (inner : List Char) :
      HasLines (String.ofList ('/' :: '*' :: (inner ++ ['*', '/']))) (blockLines inner)

theorem linesOf_line (inner : List Char) :
    linesOf (String.ofList ('/' :: '/' :: inner)) = [String.ofList inner] := by
  have hdrop : Text.dropFront? "//" (String.ofList ('/' :: '/' :: inner))
      = some (String.ofList inner) := by
    simp [Text.dropFront?]
  rw [linesOf, hdrop]

theorem dropFront?_star (cs : List Char) :
    (Text.dropFront? "*" (String.ofList cs)).getD (String.ofList cs)
      = String.ofList (starless cs) := by
  cases cs with
  | nil => rfl
  | cons c cs =>
    by_cases hc : c = '*'
    · subst hc
      simp [Text.dropFront?, starless]
    · have hstar : starless (c :: cs) = c :: cs := by
        rw [starless]
        exact fun cs' h => hc (List.cons.inj h).1
      simp [Text.dropFront?, hstar, Ne.symm hc]

theorem linesOf_block (inner : List Char) :
    linesOf (String.ofList ('/' :: '*' :: (inner ++ ['*', '/']))) = blockLines inner := by
  have hline : Text.dropFront? "//" (String.ofList ('/' :: '*' :: (inner ++ ['*', '/'])))
      = none := by
    simp [Text.dropFront?]
  have hfront : Text.dropFront? "/*" (String.ofList ('/' :: '*' :: (inner ++ ['*', '/'])))
      = some (String.ofList (inner ++ ['*', '/'])) := by
    simp [Text.dropFront?]
  have hback : Text.dropBack? "*/" (String.ofList (inner ++ ['*', '/']))
      = some (String.ofList inner) := by
    simp [Text.dropBack?]
  rw [linesOf, hline]
  dsimp only
  rw [hfront, Option.bind_some, hback, Option.getD_some, blockLines, Text.lines,
    String.toList_ofList, List.map_map, List.filter_map, List.filter_map, List.map_map]
  have hlines : ∀ l : List Char, ((fun l => (Text.dropFront? "*" (Unicode.trim l)).getD
      (Unicode.trim l)) ∘ String.ofList) l = String.ofList (starless (Unicode.trimChars l)) := by
    intro l
    simp only [Function.comp_apply, Unicode.trim, String.toList_ofList, dropFront?_star]
  simp only [funext hlines]
  simp only [Unicode.isBlank, Function.comp_def, String.toList_ofList]

theorem hasLines_of_isComment {comment : String} (h : IsComment comment.toList) :
    HasLines comment (linesOf comment) := by
  rw [← String.ofList_toList (s := comment)]
  rcases h with ⟨inner, hinner, hline⟩ | ⟨inner, hinner⟩
  · rw [hinner, linesOf_line]
    exact .line inner hline
  · rw [hinner, linesOf_block]
    exact .block inner

end Doc

/-! ## Runs of comments -/

namespace Node

variable {src : List Char} {c : Node} {cs ns : List Node} {row : Nat}

/-- The comment begins its line and ends on the line above row `row`. -/
structure Attaches (src : List Char) (c : Node) (row : Nat) : Prop where
  comment : c.kind = .token .comment
  opens : c.start.OpensLine src
  above : c.stop.rowIn src + 1 = row

/-- Comments each of which is on the lines directly above the next, and the last directly above row
`row`. -/
structure IsRun (src : List Char) (row : Nat) (cs : List Node) : Prop where
  chain : cs.IsChain fun c d => Attaches src c (d.start.rowIn src)
  last : ∀ c ∈ cs.getLast?, Attaches src c row

/-- The longest run at the end of `preceding` that ends above the node `n`. -/
structure IsRunBefore (src : List Char) (preceding : List Node) (n : Node) (cs : List Node) :
    Prop where
  suffix : cs <:+ preceding
  run : IsRun src (n.start.rowIn src) cs
  longest : ∀ cs', cs' <:+ preceding → IsRun src (n.start.rowIn src) cs' → cs' <:+ cs

theorem isRun_nil : IsRun src row [] := ⟨.nil, nofun⟩

theorem isRun_concat :
    IsRun src row (cs ++ [c]) ↔ IsRun src (c.start.rowIn src) cs ∧ Attaches src c row := by
  constructor
  · intro h
    obtain ⟨hchain, -, hlast⟩ := List.isChain_append.1 h.chain
    exact ⟨⟨hchain, fun d hd => hlast d hd c rfl⟩, h.last c List.getLast?_concat⟩
  · rintro ⟨h, hc⟩
    refine ⟨List.isChain_append.2 ⟨h.chain, .singleton c, fun d hd c' hc' => ?_⟩, fun d hd => ?_⟩
    · cases hc'
      exact h.last d hd
    · rw [List.getLast?_concat] at hd
      cases hd
      exact hc

theorem attaches_iff (hstart : c.start.Within src) (hstop : c.stop.Within src) :
    Attaches src c row ↔
      (c.kind = .token .comment && c.stop.row + 1 == row && c.start.blank) = true := by
  rw [Bool.and_eq_true, Bool.and_eq_true, decide_eq_true_eq, beq_iff_eq, hstart.blank_iff,
    hstop.row_eq]
  exact ⟨fun h => ⟨⟨h.comment, h.above⟩, h.opens⟩, fun h => ⟨h.1.1, h.2, h.1.2⟩⟩

/-- What is attached is a run, and no run at this place is longer. By the nodes in front, the last of
them first. -/
theorem isRun_attached (hns : ∀ n ∈ ns, n.start.Within src ∧ n.stop.Within src) : ∀ row,
    (attached row ns.reverse).reverse <:+ ns ∧
      IsRun src row (attached row ns.reverse).reverse ∧
      ∀ cs', cs' <:+ ns → IsRun src row cs' → cs' <:+ (attached row ns.reverse).reverse := by
  induction ns using List.reverseRecOn with
  | nil =>
    intro row
    exact ⟨List.suffix_refl _, isRun_nil, fun cs' h _ => h⟩
  | append_singleton ns c ih =>
    intro row
    obtain ⟨hns, hc⟩ := List.forall_mem_append.1 hns
    obtain ⟨hstart, hstop⟩ := hc c (List.mem_singleton_self c)
    obtain ⟨hsuffix, hrun, hlongest⟩ := ih hns c.start.row
    rw [List.reverse_append, List.reverse_singleton, List.singleton_append, attached]
    by_cases hattach : Attaches src c row
    · rw [if_pos ((attaches_iff hstart hstop).1 hattach), List.reverse_cons]
      refine ⟨?_, isRun_concat.2 ⟨hstart.row_eq ▸ hrun, hattach⟩, fun cs' hcs' hrun' => ?_⟩
      · obtain ⟨us, hus⟩ := hsuffix
        exact ⟨us, by rw [← List.append_assoc, hus]⟩
      · rcases List.suffix_concat_iff.1 hcs' with rfl | ⟨ds, rfl, hds⟩
        · exact List.nil_suffix
        · obtain ⟨us, hus⟩ := hlongest ds hds (hstart.row_eq ▸ (isRun_concat.1 hrun').1)
          exact ⟨us, by rw [← List.append_assoc, hus]⟩
    · rw [if_neg (mt (attaches_iff hstart hstop).2 hattach)]
      refine ⟨List.nil_suffix, isRun_nil, fun cs' hcs' hrun' => ?_⟩
      rcases List.suffix_concat_iff.1 hcs' with rfl | ⟨ds, rfl, -⟩
      · exact List.suffix_refl _
      · exact absurd (isRun_concat.1 hrun').2 hattach

theorem isRunBefore_attached {n : Node} (hn : n.start.Within src)
    (hns : ∀ m ∈ ns, m.start.Within src ∧ m.stop.Within src) :
    IsRunBefore src ns n (attached n.start.row ns.reverse).reverse := by
  obtain ⟨hsuffix, hrun, hlongest⟩ := isRun_attached hns n.start.row
  rw [hn.row_eq] at hsuffix hrun hlongest ⊢
  exact ⟨hsuffix, hrun, hlongest⟩

theorem IsRunBefore.unique {n : Node} {cs' : List Node} (h : IsRunBefore src ns n cs)
    (h' : IsRunBefore src ns n cs') : cs = cs' :=
  (h'.longest cs h.suffix h.run).eq_of_length_le (h.longest cs' h'.suffix h'.run).length_le

theorem IsRun.comment (h : IsRun src row cs) : ∀ c ∈ cs, c.kind = .token .comment := by
  induction cs using List.reverseRecOn generalizing row with
  | nil => exact nofun
  | append_singleton cs c ih =>
    obtain ⟨hrest, hc⟩ := isRun_concat.1 h
    exact List.forall_mem_append.2 ⟨ih hrest, List.forall_mem_singleton.2 hc.comment⟩

/-! ## The comment of a declaration -/

/-- The comment `doc` holds the lines of the comments `cs`; there is none if there are none. -/
structure HasDoc (cs : List Node) (doc : Option Doc) : Prop where
  absent : doc = none ↔ cs = []
  lines : ∀ d, doc = some d →
    ∃ ls, List.Forall₂ (fun c l => Doc.HasLines c.text l) cs ls ∧ d.lines = ls.flatten

theorem doc?_eq (preceding : List Node) (n : Node) :
    doc? preceding n = match (attached n.start.row preceding.reverse).reverse with
      | [] => none
      | cs => some ⟨cs.flatMap fun c => Doc.linesOf c.text⟩ := rfl

theorem hasDoc_doc? {n : Node} (hn : n.Derived goTables src)
    (hns : ∀ m ∈ ns, m.Derived goTables src) :
    ∃ cs, IsRunBefore src ns n cs ∧ HasDoc cs (doc? ns n) := by
  have hrun := isRunBefore_attached hn.start fun m hm => ⟨(hns m hm).start, (hns m hm).stop⟩
  refine ⟨_, hrun, ?_⟩
  rw [doc?_eq]
  generalize (attached n.start.row ns.reverse).reverse = cs at hrun ⊢
  have hlines : List.Forall₂ (fun c l => Doc.HasLines c.text l) cs
      (cs.map fun c => Doc.linesOf c.text) := by
    rw [List.forall₂_map_right_iff, List.forall₂_same]
    intro c hc
    refine Doc.hasLines_of_isComment ((hns c (hrun.suffix.subset hc)).isComment
      (hrun.run.comment c hc) (not_renames (by decide)))
  cases cs with
  | nil => exact ⟨by simp, nofun⟩
  | cons c cs =>
    refine ⟨by simp, fun d hd => ⟨_, hlines, ?_⟩⟩
    cases hd
    rw [List.flatMap_def]

/-- The run of comments that counts for a type: the one in front of it in its declaration or, if that
is empty, the one in front of the declaration. -/
inductive IsTypeRun (src : List Char) (z : (List Node × Node) × (List Node × Node))
    (cs : List Node) : Prop where
  | own (h : IsRunBefore src z.2.1 z.2.2 cs) (hne : cs ≠ [])
  | outer (hown : IsRunBefore src z.2.1 z.2.2 []) (h : IsRunBefore src z.1.1 z.1.2 cs)

/-- The node declares the function, and the comment of the function is that of the run in front. -/
def FuncDoc (src : List Char) (x : List Node × Node) (f : FuncDecl) : Prop :=
  x.2.DeclaresFunc f ∧ ∃ cs, IsRunBefore src x.1 x.2 cs ∧ HasDoc cs f.doc

/-- The node declares the type, and the comment of the type is that of the run that counts. -/
def TypeDoc (src : List Char) (z : (List Node × Node) × (List Node × Node)) (t : TypeDecl) : Prop :=
  z.2.2.DeclaresType t ∧ ∃ cs, IsTypeRun src z cs ∧ HasDoc cs t.doc

theorem derived_of_mem_inPlace {root : Node} (hroot : root.Derived goTables src)
    {x : List Node × Node} (h : x ∈ inPlace root.parts) :
    x.2.Derived goTables src ∧ ∀ m ∈ x.1, m.Derived goTables src := by
  obtain ⟨after, hparts⟩ := mem_inPlace.1 h
  have hall : ∀ m ∈ x.1 ++ x.2 :: after, m.Derived goTables src := by
    rw [← hparts]
    exact fun m hm => hroot.child (List.mem_of_mem_filter hm)
  obtain ⟨hbefore, hrest⟩ := List.forall_mem_append.1 hall
  exact ⟨hrest x.2 List.mem_cons_self, hbefore⟩

end Node

/-- The comments of a source file: of its functions and methods, in their order, and of its types,
alone or in groups. -/
theorem docs_of_parse {source : String} {f : SourceFile} (h : SourceFile.parse source = .ok f) :
    ∃ root, Node.ofSource? source.toList = some root ∧ root.broken = false ∧
      List.Forall₂ (Node.FuncDoc source.toList) root.functionsInPlace f.funcs ∧
      List.Forall₂ (Node.TypeDoc source.toList) root.specsInPlace f.types := by
  obtain ⟨root, hroot, hbroken⟩ := exists_ofSource?_of_parse h
  have hderived := Node.derived_of_ofSource? hroot hbroken
  have hcollects := collects_of_parse hroot h
  refine ⟨root, hroot, hbroken, ?_, ?_⟩
  · have hmem : ∀ x ∈ root.functionsInPlace, x ∈ root.functionsInPlace := fun _ hx => hx
    refine ((List.forall₂_and_left _ _).2
      ⟨hmem, Node.forall₂_funcs hderived hcollects⟩).imp ?_
    rintro x g ⟨hx, hdeclares, hdoc⟩
    obtain ⟨hn, hns⟩ := Node.derived_of_mem_inPlace hderived (List.mem_of_mem_filter hx)
    exact ⟨hdeclares, hdoc ▸ Node.hasDoc_doc? hn hns⟩
  · have hmem : ∀ z ∈ root.specsInPlace, z ∈ root.specsInPlace := fun _ hz => hz
    refine ((List.forall₂_and_left _ _).2
      ⟨hmem, Node.forall₂_types hderived hcollects⟩).imp ?_
    rintro z t ⟨hz, hdeclares, hdoc⟩
    obtain ⟨x, hx, hz⟩ := List.mem_flatMap.1 hz
    obtain ⟨y, hy, rfl⟩ := List.mem_map.1 hz
    obtain ⟨hn, hns⟩ := Node.derived_of_mem_inPlace hderived (List.mem_of_mem_filter hx)
    obtain ⟨hm, hms⟩ := Node.derived_of_mem_inPlace hn (List.mem_of_mem_filter hy)
    obtain ⟨outer, houter, hdocOuter⟩ := Node.hasDoc_doc? hn hns
    obtain ⟨own, hown, hdocOwn⟩ := Node.hasDoc_doc? hm hms
    by_cases hnil : own = []
    · refine ⟨hdeclares, outer, .outer (hnil ▸ hown) houter, ?_⟩
      rw [hdoc, hdocOwn.absent.2 hnil, Option.none_or]
      exact hdocOuter
    · refine ⟨hdeclares, own, .own hown hnil, ?_⟩
      obtain ⟨d, hd⟩ := Option.ne_none_iff_exists'.1 (mt hdocOwn.absent.1 hnil)
      rw [hdoc, hd, Option.some_or, ← hd]
      exact hdocOwn

/-- A group of types, of which one has a comment of its own, and a function behind two comments. -/
def commented : String :=
  "package p\n// g\ntype (\n// a\nA int\nB int\n)\n/* b\n * c\n */\n// d\nfunc F() \x7b\x7d\n"

theorem docs_of_commented : ∃ root, Node.ofSource? commented.toList = some root ∧
    root.broken = false ∧
    List.Forall₂ (Node.FuncDoc commented.toList) root.functionsInPlace
      [⟨"F", none, some ⟨["b", " c", " d"]⟩⟩] ∧
    List.Forall₂ (Node.TypeDoc commented.toList) root.specsInPlace
      [⟨"A", some ⟨[" a"]⟩⟩, ⟨"B", some ⟨[" g"]⟩⟩] := by
  have h : SourceFile.parse commented = .ok ⟨"p", [⟨"A", some ⟨[" a"]⟩⟩, ⟨"B", some ⟨[" g"]⟩⟩],
      [⟨"F", none, some ⟨["b", " c", " d"]⟩⟩]⟩ := by
    decide +kernel
  exact docs_of_parse h

end Go
end RouteScribe
