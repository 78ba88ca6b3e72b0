import RouteScribe.Proofs.Go.LineEnd
import RouteScribe.Proofs.Routing.CommentStyle

/-!
# RouteScribe.Proofs.Routing.LineEnd

Line ends do not change routes. A carriage return at the end of a line is white space to directives,
and comments are attached by the rows and the blank lines that both texts have. So where the tree of
a text with carriage returns matches that of the text without, both say the same.

* `bare_linesOf_twins`: what a comment says.
* `Agrees`: what two source files have in common.
* `agrees_of_matches`: matching trees give source files that agree.
-/

namespace RouteScribe
namespace Routing

open Unicode
open Go (Node SourceFile FuncDecl TypeDecl)
open Go.Node (Twins TwinsInPlace)
open Text (returnChars returnLines withReturns)

/-! ## Comments -/

theorem essence_append_return (row : List Char) : essence (row ++ ['\r']) = essence row := by
  have hblank : Blank ['\r'] := List.forall_mem_singleton.2 rfl
  rw [essence, essence, trimChars_append_blank hblank]

theorem map_essence_returnLines : ∀ rows : List (List Char),
    (returnLines rows).map essence = rows.map essence
  | [] => rfl
  | [_] => rfl
  | row :: row' :: rows => by
    rw [returnLines, List.map_cons, List.map_cons, essence_append_return,
      map_essence_returnLines (row' :: rows)]

theorem bare_blockLines_returnChars (inner : List Char) :
    bare (Go.Doc.blockLines (returnChars inner)) = bare (Go.Doc.blockLines inner) := by
  rw [bare_blockLines, bare_blockLines, Text.splitChars_returnChars, map_essence_returnLines]

theorem bare_line_append {inner sp : List Char} (h : Blank sp) :
    bare [String.ofList (inner ++ sp)] = bare [String.ofList inner] := by
  have hbare := bare_map_ofList [inner ++ sp]
  rw [List.map_singleton, List.map_singleton, trimChars_append_blank h] at hbare
  exact hbare.trans (bare_map_ofList [inner]).symm

variable {src src' : List Char} {c c' : Node}

theorem bare_linesOf_twins (h : Twins src src' c c') (hk : c.kind = .token .comment) :
    bare (Go.Doc.linesOf c'.text) = bare (Go.Doc.linesOf c.text) := by
  have hrenames := Go.not_renames (k := .token .comment) (by decide)
  have hcomment := h.left.isComment hk hrenames
  have hcomment' := h.right.isComment (h.same.kind.trans hk) hrenames
  obtain ⟨us, vs, hus, hvs, heq⟩ := h.same.text h.left h.right
  have hblank : Blank vs := by
    rcases hvs with rfl | rfl
    · exact nofun
    · exact List.forall_mem_singleton.2 rfl
  rw [← String.ofList_toList (s := c.text), ← String.ofList_toList (s := c'.text)]
  generalize c.text.toList = text, c'.text.toList = text' at hcomment hcomment' heq
  -- A comment begins with a slash, so no carriage return is lost in front of it.
  have hslash : ∃ rest, text = '/' :: rest := by
    rcases hcomment with ⟨inner, rfl, -⟩ | ⟨inner, rfl⟩
    · exact ⟨_, rfl⟩
    · exact ⟨_, rfl⟩
  obtain rfl : us = [] := by
    rcases hus with rfl | rfl
    · rfl
    · obtain ⟨rest, rfl⟩ := hslash
      rw [Text.returnChars_cons_of_ne (by decide)] at heq
      cases (List.cons.inj heq).1
  rw [List.nil_append] at heq
  rcases hcomment with ⟨inner, rfl, hfeed⟩ | ⟨inner, rfl⟩
  · have hself : '\n' ∉ '/' :: '/' :: inner := by simp [hfeed]
    rw [Text.returnChars_eq_self hself] at heq
    rw [← heq, List.cons_append, List.cons_append, Go.Doc.linesOf_line, Go.Doc.linesOf_line,
      bare_line_append hblank]
  · rw [Text.returnChars_cons_of_ne (by decide), Text.returnChars_cons_of_ne (by decide),
      Text.returnChars_append, Text.returnChars_eq_self (show '\n' ∉ ['*', '/'] by decide)] at heq
    obtain rfl : vs = [] := by
      rcases hvs with rfl | rfl
      · rfl
      · rcases hcomment' with ⟨inner', rfl, -⟩ | ⟨inner', rfl⟩
        · simp at heq
        · have hlast := congrArg List.getLast? heq
          simp [List.getLast?_append, List.getLast?_cons] at hlast
    rw [List.append_nil] at heq
    rw [← heq, Go.Doc.linesOf_block, Go.Doc.linesOf_block, bare_blockLines_returnChars]

/-- Comments of declarations are both there or not, and say the same. -/
structure SaysSame (d d' : Option Go.Doc) : Prop where
  present : d'.isSome = d.isSome
  lines : bare (docLines d') = bare (docLines d)

theorem SaysSame.or {d d' e e' : Option Go.Doc} (h : SaysSame d d') (h' : SaysSame e e') :
    SaysSame (d.or e) (d'.or e') := by
  have hpresent := h.present
  cases d with
  | none =>
    cases d' with
    | none => exact h'
    | some _ => cases hpresent
  | some _ =>
    cases d' with
    | none => cases hpresent
    | some _ => exact h

theorem saysSame_doc? {x x' : List Node × Node} (h : TwinsInPlace src src' x x') :
    SaysSame (Node.doc? x.1 x.2) (Node.doc? x'.1 x'.2) := by
  have hcomments := h.attached
  have hbare : ∀ cs cs' : List Node, List.Forall₂ (Twins src src') cs cs' →
      (∀ c ∈ cs, c.kind = .token .comment) →
      bare ((cs'.map Node.text).flatMap Go.Doc.linesOf)
        = bare ((cs.map Node.text).flatMap Go.Doc.linesOf) := by
    intro cs cs' hcs
    induction hcs with
    | nil => exact fun _ => rfl
    | cons hc _ ih =>
      intro hall
      obtain ⟨hk, hrest⟩ := List.forall_mem_cons.1 hall
      have happend : ∀ ls ms : List String, bare (ls ++ ms) = bare ls ++ bare ms := fun ls ms => by
        rw [bare, List.map_append, List.filter_append, bare, bare]
      rw [List.map_cons, List.map_cons, List.flatMap_cons, List.flatMap_cons, happend, happend,
        bare_linesOf_twins hc hk, ih hrest]
  have hkind : ∀ c ∈ (Node.attached x.2.start.row x.1.reverse).reverse,
      c.kind = .token .comment := by
    intro c hc
    rw [List.mem_reverse] at hc
    generalize x.1.reverse = ns, x.2.start.row = row at hc
    induction ns generalizing row with
    | nil => simp [Node.attached] at hc
    | cons n ns ih =>
      rw [Node.attached] at hc
      split at hc
      next hn =>
        rcases List.mem_cons.1 hc with rfl | hc
        · simp only [Bool.and_eq_true, decide_eq_true_eq] at hn
          exact hn.1.1
        · exact ih _ hc
      · cases hc
  refine ⟨?_, ?_⟩
  · have hnil : attachedTexts x' = [] ↔ attachedTexts x = [] := by
      rw [attachedTexts, attachedTexts, List.map_eq_nil_iff, List.map_eq_nil_iff,
        ← List.length_eq_zero_iff, ← List.length_eq_zero_iff, hcomments.length_eq]
    rw [← doc?_eq_none_iff, ← doc?_eq_none_iff] at hnil
    rw [Bool.eq_iff_iff, Option.isSome_iff_ne_none, Option.isSome_iff_ne_none, not_iff_not, hnil]
  · rw [docLines_doc?, docLines_doc?]
    exact hbare _ _ hcomments hkind

/-! ## Source files -/

/-- Two declarations of a type agree. -/
structure TypeAgrees (t t' : TypeDecl) : Prop where
  name : t'.name = t.name
  documented : t'.doc.isSome = t.doc.isSome
  marked : Matcher.accepts t' .marker = Matcher.accepts t .marker

/-- Two functions agree. -/
structure FuncAgrees (f f' : FuncDecl) : Prop where
  name : f'.name = f.name
  documented : f'.doc.isSome = f.doc.isSome
  annotations : Annotations.ofDoc f'.doc = Annotations.ofDoc f.doc

/-- Two source files have the same package, the same types and functions in the same order, and for
each type the same methods; and they agree on all of these. -/
structure Agrees (file file' : SourceFile) : Prop where
  package : file'.package = file.package
  types : List.Forall₂ TypeAgrees file.types file'.types
  funcs : List.Forall₂ FuncAgrees file.funcs file'.funcs
  methods : ∀ t ∈ file.types,
    List.Forall₂ FuncAgrees (file.methodsOf t.name) (file'.methodsOf t.name)

theorem typeAgrees_of_saysSame {t t' : TypeDecl} (hname : t'.name = t.name)
    (hdoc : SaysSame t.doc t'.doc) : TypeAgrees t t' := by
  refine ⟨hname, hdoc.present, ?_⟩
  rw [accepts_marker, accepts_marker, ← any_isMarker_bare, hdoc.lines, any_isMarker_bare]

theorem funcAgrees_of_saysSame {f f' : FuncDecl} (hname : f'.name = f.name)
    (hdoc : SaysSame f.doc f'.doc) : FuncAgrees f f' := by
  refine ⟨hname, hdoc.present, ?_⟩
  rw [ofDoc_eq, ofDoc_eq, ← ofLines_bare, hdoc.lines, ofLines_bare]

variable {root root' : Node} {file file' : SourceFile}

theorem name_eq_of_twins {n n' m m' : Node} (h : Twins src src' n n') (hk : n.kind.declares = true)
    (hm : n.part? .name = some m) (hm' : n'.part? .name = some m') : m'.text = m.text := by
  have hpart := h.part? .name
  rw [hm, hm'] at hpart
  cases hpart with
  | some htwins =>
    exact htwins.text_eq (h.left.isName hk hm) (h.right.isName (h.same.kind ▸ hk) hm')

theorem sameReceiver_of_twins {n n' : Node} (h : Twins src src' n n') {f f' : FuncDecl}
    (hf : n.DeclaresFunc f) (hf' : n'.DeclaresFunc f') :
    Option.Rel Node.SameType f.receiver f'.receiver := by
  rcases hf.receiver with ⟨hk, hnone⟩ | ⟨hk, list, t, hlist, ht, hsome⟩
  · have hnone' := hf'.receiver_eq_none_iff.2 (h.same.kind.trans hk)
    rw [hnone, hnone']
    exact .none
  · rcases hf'.receiver with ⟨hk', -⟩ | ⟨-, list', t', hlist', ht', hsome'⟩
    · rw [h.same.kind, hk] at hk'
      cases hk'
    · have hpart := h.part? .receiver
      rw [hlist, hlist'] at hpart
      cases hpart with
      | some htwins =>
        have hreceiver := htwins.receiver?
        rw [Node.receives_iff.1 ht, Node.receives_iff.1 ht'] at hreceiver
        rw [hsome, hsome']
        exact hreceiver

theorem forall₂_of_square {α α' β β' : Type} {r : α → β → Prop} {r' : α' → β' → Prop}
    {s : α → α' → Prop} {t : β → β' → Prop} {as : List α} {as' : List α'}
    (hs : List.Forall₂ s as as')
    (ht : ∀ a ∈ as, ∀ a' b b', r a b → s a a' → r' a' b' → t b b') : ∀ {bs : List β} {bs' : List β'},
    List.Forall₂ r as bs → List.Forall₂ r' as' bs' → List.Forall₂ t bs bs' := by
  induction hs with
  | nil =>
    intro bs bs' h h'
    cases h
    cases h'
    exact .nil
  | cons hab _ ih =>
    intro bs bs' h h'
    obtain ⟨ha, hrest⟩ := List.forall_mem_cons.1 ht
    cases h with
    | cons hb hbs =>
      cases h' with
      | cons hb' hbs' => exact .cons (ha _ _ _ hb hab hb') (ih hrest hbs hbs')

theorem declares_of_mem_specsInPlace {z : (List Node × Node) × (List Node × Node)}
    (h : z ∈ root.specsInPlace) : z.2.2.kind.declares = true := by
  obtain ⟨x, -, hz⟩ := List.mem_flatMap.1 h
  obtain ⟨y, hy, rfl⟩ := List.mem_map.1 hz
  have hk := (List.mem_filter.1 hy).2
  simp only [Go.Kind.isSpec, Bool.or_eq_true, decide_eq_true_eq] at hk
  rcases hk with hk | hk <;> rw [hk] <;> rfl

section Agrees

variable {source source' : String} (hroot : Node.ofSource? source.toList = some root)
  (hroot' : Node.ofSource? source'.toList = some root')
  (h : Twins source.toList source'.toList root root') (hfile : SourceFile.parse source = .ok file)
  (hfile' : SourceFile.parse source' = .ok file')

include hroot hroot' h hfile hfile'

theorem forall₂_typeAgrees : List.Forall₂ TypeAgrees file.types file'.types := by
  have hleft := Node.forall₂_types h.left (Go.collects_of_parse hroot hfile)
  have hright := Node.forall₂_types h.right (Go.collects_of_parse hroot' hfile')
  refine forall₂_of_square h.specsInPlace (fun z hz z' t t' ht hzz ht' => ?_) hleft hright
  obtain ⟨⟨m, hm, hname⟩, hdoc⟩ := ht
  obtain ⟨⟨m', hm', hname'⟩, hdoc'⟩ := ht'
  have hk := declares_of_mem_specsInPlace hz
  refine typeAgrees_of_saysSame ?_ ?_
  · rw [hname, hname', name_eq_of_twins hzz.2.2 hk hm hm']
  · rw [hdoc, hdoc']
    exact (saysSame_doc? hzz.2).or (saysSame_doc? hzz.1)

theorem forall₂_funcAgrees : List.Forall₂
    (fun f f' => FuncAgrees f f' ∧ Option.Rel Node.SameType f.receiver f'.receiver)
    file.funcs file'.funcs := by
  have hleft := Node.forall₂_funcs h.left (Go.collects_of_parse hroot hfile)
  have hright := Node.forall₂_funcs h.right (Go.collects_of_parse hroot' hfile')
  refine forall₂_of_square h.functionsInPlace (fun x _ x' f f' hf hxx hf' => ?_) hleft hright
  obtain ⟨hdeclares, hdoc⟩ := hf
  obtain ⟨hdeclares', hdoc'⟩ := hf'
  obtain ⟨m, hm, hname⟩ := hdeclares.name
  obtain ⟨m', hm', hname'⟩ := hdeclares'.name
  refine ⟨funcAgrees_of_saysSame ?_ ?_, sameReceiver_of_twins hxx.2 hdeclares hdeclares'⟩
  · rw [hname, hname', name_eq_of_twins hxx.2 hdeclares.declares hm hm']
  · rw [hdoc, hdoc']
    exact saysSame_doc? hxx

theorem agrees_of_twins : Agrees file file' := by
  have hfuncs := forall₂_funcAgrees hroot hroot' h hfile hfile'
  refine ⟨?_, forall₂_typeAgrees hroot hroot' h hfile hfile', hfuncs.imp fun _ _ hf => hf.1,
    fun t ht => ?_⟩
  · have hpackage := Go.package_of_parse hroot hfile
    have hpackage' := Go.package_of_parse hroot' hfile'
    rw [Node.rel_lastPackage h.parts, ← hpackage] at hpackage'
    exact Option.some.inj hpackage'
  · have hdot := ((Go.isName_of_parse hfile).1 t ht).not_mem_dot
    have hmethods : List.Forall₂
        (fun f f' => FuncAgrees f f' ∧ Option.Rel Node.SameType f.receiver f'.receiver)
        (file.methodsOf t.name) (file'.methodsOf t.name) := by
      refine List.rel_filter (fun f f' hf => ?_) hfuncs
      have hreceiver := hf.2
      dsimp only
      rw [beq_iff_eq, beq_iff_eq]
      generalize f.receiver = r, f'.receiver = r' at hreceiver
      cases hreceiver with
      | none => simp
      | some hsame =>
        rw [Option.some.injEq, Option.some.injEq]
        rcases hsame with rfl | ⟨hl, hr⟩
        · rfl
        · exact ⟨fun h => absurd (h ▸ hl) hdot, fun h => absurd (h ▸ hr) hdot⟩
    exact hmethods.imp fun _ _ hf => hf.1

end Agrees

/-- Texts with matching trees are source files together, and agree if they are. -/
theorem agrees_of_matches {source source' : String} (hroot : Node.ofSource? source.toList = some root)
    (hroot' : Node.ofSource? source'.toList = some root') (h : root.Matches root') :
    ((∃ file, SourceFile.parse source = .ok file) ↔ ∃ file', SourceFile.parse source' = .ok file') ∧
      ∀ file file', SourceFile.parse source = .ok file → SourceFile.parse source' = .ok file' →
        Agrees file file' := by
  cases hbroken : root.broken with
  | true =>
    have hrefused : ∀ file, SourceFile.parse source ≠ .ok file := fun file hfile => by
      rw [Go.broken_of_parse hroot hfile] at hbroken
      cases hbroken
    have hrefused' : ∀ file, SourceFile.parse source' ≠ .ok file := fun file hfile => by
      rw [← h.broken, Go.broken_of_parse hroot' hfile] at hbroken
      cases hbroken
    exact ⟨⟨fun ⟨file, hfile⟩ => absurd hfile (hrefused file),
      fun ⟨file, hfile⟩ => absurd hfile (hrefused' file)⟩, fun file _ hfile => absurd hfile (hrefused file)⟩
  | false =>
    have htwins : Twins source.toList source'.toList root root' :=
      ⟨h, Node.derived_of_ofSource? hroot hbroken,
        Node.derived_of_ofSource? hroot' (h.broken.trans hbroken)⟩
    refine ⟨?_, fun file file' hfile hfile' => agrees_of_twins hroot hroot' htwins hfile hfile'⟩
    rw [(Go.parse_of_tree hroot hbroken).1, (Go.parse_of_tree hroot' (h.broken.trans hbroken)).1]
    exact htwins.isFile_iff

/-- A text with a carriage return in front of each line feed is a source file if the text itself is,
and says the same, wherever its tree matches that of the text. -/
theorem agrees_of_returns {source : String} {root root' : Node}
    (hroot : Node.ofSource? source.toList = some root)
    (hroot' : Node.ofSource? (withReturns source).toList = some root') (h : root.Matches root') :
    ((∃ file, SourceFile.parse source = .ok file) ↔
      ∃ file', SourceFile.parse (withReturns source) = .ok file') ∧
    ∀ file file', SourceFile.parse source = .ok file →
      SourceFile.parse (withReturns source) = .ok file' → Agrees file file' :=
  agrees_of_matches hroot hroot' h

mutual

/-- Two trees match, as a computation. -/
def matching : Node → Node → Bool
  | .mk k f m b start stop cs, n' =>
    n'.kind = k && n'.field = f && n'.missing = m && n'.broken = b &&
      n'.start.row = start.row && n'.start.blank = start.blank &&
      (returnChars start.rest = n'.start.rest || returnChars start.rest = '\r' :: n'.start.rest) &&
      n'.stop.row = stop.row && n'.stop.blank = stop.blank &&
      (returnChars stop.rest = n'.stop.rest || returnChars stop.rest = '\r' :: n'.stop.rest) &&
      matchingAll cs n'.children

/-- `matching` of all nodes of two lists. -/
def matchingAll : List Node → List Node → Bool
  | [], [] => true
  | n :: ns, n' :: ns' => matching n n' && matchingAll ns ns'
  | _, _ => false

end

mutual

theorem matches_of_matching : ∀ n n' : Node, matching n n' = true → n.Matches n'
  | .mk k f m b start stop cs, n', h => by
    simp only [matching, Bool.and_eq_true, decide_eq_true_eq, Bool.or_eq_true] at h
    obtain ⟨⟨⟨⟨⟨⟨⟨⟨⟨⟨hk, hf⟩, -⟩, hb⟩, hrow⟩, hblank⟩, hrest⟩, hrow'⟩, hblank'⟩, hrest'⟩, hall⟩ := h
    obtain ⟨hlength, hzip⟩ := List.forall₂_iff_zip.1 (matches_of_matchingAll cs n'.children hall)
    exact .mk hk hf hb ⟨hrow, hblank, hrest⟩ ⟨hrow', hblank', hrest'⟩ hlength
      fun x hx => hzip (a := x.1) (b := x.2) hx

theorem matches_of_matchingAll : ∀ ns ns' : List Node, matchingAll ns ns' = true →
    List.Forall₂ Node.Matches ns ns'
  | [], [], _ => .nil
  | n :: ns, n' :: ns', h => by
    simp only [matchingAll, Bool.and_eq_true] at h
    exact .cons (matches_of_matching n n' h.1) (matches_of_matchingAll ns ns' h.2)

end

/-- A marked type and its method, each behind line comments. -/
def returning : String :=
  "package p\n// @controller\ntype A int\n// @http_method get\nfunc (a A) M() \x7b\x7d\n"

theorem agrees_of_returning : ∃ root root', Node.ofSource? returning.toList = some root ∧
    Node.ofSource? (withReturns returning).toList = some root' ∧ root.Matches root' ∧
    ((∃ file, SourceFile.parse returning = .ok file) ↔
      ∃ file', SourceFile.parse (withReturns returning) = .ok file') ∧
    ∀ file file', SourceFile.parse returning = .ok file →
      SourceFile.parse (withReturns returning) = .ok file' → Agrees file file' := by
  have h : (Node.ofSource? returning.toList).any (fun root =>
      (Node.ofSource? (withReturns returning).toList).any (matching root)) = true := by
    decide +kernel
  obtain ⟨root, hroot, h⟩ := (Option.any_eq_true _ _).1 h
  obtain ⟨root', hroot', h⟩ := (Option.any_eq_true _ _).1 h
  have hmatches := matches_of_matching root root' h
  exact ⟨root, root', hroot, hroot', hmatches, agrees_of_returns hroot hroot' hmatches⟩

end Routing
end RouteScribe
