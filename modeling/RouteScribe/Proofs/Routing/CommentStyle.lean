import RouteScribe.Proofs.Go.Comment
import RouteScribe.Proofs.Go.Word
import RouteScribe.Proofs.Routing.Directive
import RouteScribe.Proofs.Routing.Marker
import RouteScribe.Proofs.Text.Path

/-!
# RouteScribe.Proofs.Routing.CommentStyle

How a comment is written does not matter. Directives are read from trimmed lines, and blank lines say
nothing; so line comments say the same as a block comment that holds the same lines, with stars in
front of them or without.

* `bare`: what of some lines matters to directives.
* `Writes`: the ways to write lines as comments.
* `bare_of_writes`: all ways keep what matters.
* `same_of_writes`: so they give the same annotations, and mark the same types.
-/

namespace RouteScribe
namespace Routing

open Unicode

/-! ## What matters of a line -/

/-- The lines without the white space around them, blank ones left out. -/
def bare (lines : List String) : List String := (lines.map trim).filter (· ≠ "")

theorem filterMap_bare {α : Type} {f : String → Option α} (htrim : ∀ l, f (trim l) = f l)
    (hnil : f "" = none) (lines : List String) : (bare lines).filterMap f = lines.filterMap f := by
  rw [bare, List.filterMap_filter, List.filterMap_map]
  refine congrArg (List.filterMap · lines) (funext fun l => ?_)
  by_cases hl : trim l = ""
  · rw [Function.comp_apply, if_neg (by simp [hl]), ← htrim, hl, hnil]
  · rw [Function.comp_apply, if_pos (by simp [hl]), htrim]

theorem any_bare {p : String → Bool} (htrim : ∀ l, p (trim l) = p l) (hnil : p "" = false)
    (lines : List String) : (bare lines).any p = lines.any p := by
  rw [bare, List.any_filter, List.any_map]
  refine congrArg (List.any lines) (funext fun l => ?_)
  by_cases hl : trim l = ""
  · have hp : p l = false := by rw [← htrim, hl, hnil]
    simp [hl, hp]
  · simp [hl, htrim]

theorem Directive.read_trim (line : String) : read (trim line) = read line := by
  refine Option.ext fun x => ?_
  rw [read_eq_some_iff, read_eq_some_iff, Gives, Gives, trim_trim]

theorem ofLines_bare (lines : List String) :
    Annotations.ofLines (bare lines) = Annotations.ofLines lines := by
  rw [Annotations.ofLines, filterMap_bare Directive.read_trim (by decide)]
  rfl

theorem isMarker_trim (line : String) : Matcher.isMarker (trim line) = Matcher.isMarker line := by
  obtain ⟨sp, hsp, hline⟩ := exists_blank_append (trimStartChars line.toList)
  have htrim : trimStartChars (trim line).toList = trimChars line.toList := by
    rw [trim, String.toList_ofList]
    cases hcs : trimChars line.toList with
    | nil => rfl
    | cons c cs =>
      have hself : trimChars (c :: cs) = c :: cs := by rw [← hcs, trimChars_trimChars]
      exact trimStartChars_cons_of_not (head?_of_trimChars_eq hself rfl) cs
  have hdirective : trimEndChars Matcher.directive.toList = Matcher.directive.toList := by decide
  rw [Bool.eq_iff_iff, isMarker_iff, isMarker_iff, htrim]
  constructor
  · rintro ⟨rest, hrest, hbreak⟩
    refine ⟨rest ++ sp, ?_, fun c hc => ?_⟩
    · rw [hline, ← List.append_assoc, ← hrest]
      rfl
    · cases rest with
      | nil => exact hsp c (List.mem_of_head? hc)
      | cons d ds => exact hbreak c hc
  · rintro ⟨rest, hrest, hbreak⟩
    refine ⟨trimEndChars rest, ?_, fun c hc => hbreak c ?_⟩
    · rw [trimChars, hrest]
      by_cases hnil : trimEndChars rest = []
      · rw [trimEndChars_append_blank (trimEndChars_eq_nil_iff.1 hnil), hnil, hdirective,
          List.append_nil]
      · exact trimEndChars_append _ hnil
    · obtain ⟨sp', -, heq⟩ := exists_blank_append rest
      rw [heq]
      cases htail : trimEndChars rest with
      | nil =>
        rw [htail] at hc
        cases hc
      | cons d ds =>
        rw [htail] at hc
        exact hc

theorem any_isMarker_bare (lines : List String) :
    (bare lines).any Matcher.isMarker = lines.any Matcher.isMarker :=
  any_bare isMarker_trim (by decide) lines

/-! ## Lines in comments -/

/-- A line that may stand in a comment of any kind. -/
structure IsLine (line : String) : Prop where
  feed : '\n' ∉ line.toList
  nul : '\x00' ∉ line.toList
  closing : ¬ ['*', '/'] <:+: line.toList

instance : DecidablePred IsLine := fun line =>
  decidable_of_iff ('\n' ∉ line.toList ∧ '\x00' ∉ line.toList ∧ ¬ ['*', '/'] <:+: line.toList)
    ⟨fun h => ⟨h.1, h.2.1, h.2.2⟩, fun h => ⟨h.feed, h.nul, h.closing⟩⟩

/-- White space within a line. -/
def Pad (cs : List Char) : Prop := Blank cs ∧ '\n' ∉ cs

/-- Rows that hold the lines in their order, each behind `mark`. White space may stand around them,
and blank rows between them. -/
inductive Rows (mark : List Char) : List String → List (List Char) → Prop where
  | nil : Rows mark [] []
  | blank {lines : List String} {rows : List (List Char)} {row : List Char} (hrow : Pad row)
      (h : Rows mark lines rows) : Rows mark lines (row :: rows)
  | line {l : String} {lines : List String} {rows : List (List Char)} {front back : List Char}
      (hfront : Pad front) (hback : Pad back) (h : Rows mark lines rows) :
      Rows mark (l :: lines) ((front ++ mark ++ l.toList ++ back) :: rows)

/-- What stands between the marks of a block comment of some rows. -/
def inner (rows : List (List Char)) : List Char := ['\n'].intercalate rows

/-- The block comment of some rows. -/
def blockOf (rows : List (List Char)) : String :=
  String.ofList ('/' :: '*' :: (inner rows ++ ['*', '/']))

/-- The comments hold the lines: each a line comment of its own, or all of them in a block comment,
behind stars or, if none of them begins with one, as they are. -/
inductive Writes (lines : List String) : List String → Prop where
  | run : Writes lines (lines.map fun l => String.ofList ('/' :: '/' :: l.toList))
  | decorated {rows : List (List Char)} (h : Rows [' ', '*', ' '] lines rows) :
      Writes lines [blockOf rows]
  | plain {rows : List (List Char)} (h : Rows [] lines rows)
      (hstar : ∀ l ∈ lines, (trimStartChars l.toList).head? ≠ some '*') :
      Writes lines [blockOf rows]

/-- What is left of a row in the end. -/
def essence (row : List Char) : List Char := trimChars (Go.Doc.starless (trimChars row))

theorem bare_map_ofList (ls : List (List Char)) :
    bare (ls.map String.ofList) = ((ls.map trimChars).filter (· ≠ [])).map String.ofList := by
  rw [bare, List.map_map, List.filter_map, List.filter_map, List.map_map]
  have htrim : trim ∘ String.ofList = String.ofList ∘ trimChars :=
    funext fun l => by rw [Function.comp_apply, trim, String.toList_ofList]; rfl
  simp only [htrim]
  congr 2
  funext l
  simp

theorem essence_nil : essence [] = [] := rfl

theorem essence_dropReturn (row : List Char) : essence (Text.dropReturn row) = essence row := by
  rw [Text.dropReturn]
  split
  next h =>
    obtain ⟨front, rfl⟩ := List.getLast?_eq_some_iff.1 h
    have hblank : Blank ['\r'] := List.forall_mem_singleton.2 rfl
    rw [List.dropLast_concat, essence, essence, trimChars_append_blank hblank]
  · rfl

theorem essence_linesChars (cs : List Char) :
    ((Text.linesChars cs).map essence).filter (· ≠ [])
      = ((Text.splitChars (· == '\n') cs).map essence).filter (· ≠ []) := by
  rw [Text.linesChars, List.map_map]
  simp only [Function.comp_def, essence_dropReturn]
  split
  next h =>
    obtain ⟨front, hfront⟩ := List.getLast?_eq_some_iff.1 h
    rw [hfront, List.dropLast_concat, List.map_append, List.filter_append]
    simp [essence_nil]
  · rfl

theorem map_trimChars_filter (ls : List (List Char)) :
    ((ls.filter fun l => !l.all isSpace).map trimChars).filter (· ≠ [])
      = (ls.map trimChars).filter (· ≠ []) := by
  rw [List.filter_map, List.filter_map, List.filter_filter]
  refine congrArg _ (List.filter_congr fun l _ => ?_)
  by_cases hl : trimChars l = []
  · simp [hl]
  · have hall : l.all isSpace = false := by
      rw [← Bool.not_eq_true, List.all_eq_true]
      exact mt trimChars_eq_nil_iff.2 hl
    simp [hl, hall]

theorem bare_blockLines (cs : List Char) : bare (Go.Doc.blockLines cs)
    = (((Text.splitChars (· == '\n') cs).map essence).filter (· ≠ [])).map String.ofList := by
  rw [Go.Doc.blockLines, bare_map_ofList, map_trimChars_filter, List.map_map, ← essence_linesChars]
  rfl

theorem map_essence_rows {mark : List Char} {lines : List String} {rows : List (List Char)}
    (h : Rows mark lines rows)
    (hmark : ∀ l ∈ lines, ∀ front back : List Char, Blank front → Blank back →
      essence (front ++ mark ++ l.toList ++ back) = trimChars l.toList) :
    ((rows.map essence).filter (· ≠ [])).map String.ofList = bare lines := by
  induction h with
  | nil => rfl
  | @blank lines rows row hrow _ ih =>
    have hnil : essence row = [] := by
      rw [essence, trimChars_eq_nil_iff.2 hrow.1]
      rfl
    rw [List.map_cons, hnil]
    exact ih hmark
  | @line l lines rows front back hfront hback _ ih =>
    obtain ⟨hl, hlines⟩ := List.forall_mem_cons.1 hmark
    rw [List.map_cons, hl front back hfront.1 hback.1]
    have htrim : (trim l = "") = (trimChars l.toList = []) := by
      rw [← String.toList_eq_nil_iff, trim, String.toList_ofList]
    rw [bare, List.map_cons, List.filter_cons, List.filter_cons]
    simp only [decide_eq_true_eq, ne_eq, htrim]
    split
    · rw [List.map_cons, ih hlines]
      rfl
    · exact ih hlines

theorem essence_decorated {front back : List Char} (hfront : Blank front) (hback : Blank back)
    (l : List Char) : essence (front ++ [' ', '*', ' '] ++ l ++ back) = trimChars l := by
  have hspace : Blank [' '] := List.forall_mem_singleton.2 rfl
  have hsplit : front ++ [' ', '*', ' '] ++ l ++ back
      = (front ++ [' ']) ++ '*' :: ([' '] ++ l ++ back) := by
    simp only [List.append_assoc, List.cons_append, List.nil_append]
  rw [hsplit, essence, trimChars_blank_append (List.forall_mem_append.2 ⟨hfront, hspace⟩),
    trimChars_cons_of_not (by decide), Go.Doc.starless, trimChars_trimEndChars,
    trimChars_append_blank hback, trimChars_blank_append hspace]

theorem essence_plain {front back l : List Char} (hfront : Blank front) (hback : Blank back)
    (hstar : (trimStartChars l).head? ≠ some '*') :
    essence (front ++ [] ++ l ++ back) = trimChars l := by
  rw [List.append_nil, List.append_assoc, essence, trimChars_blank_append hfront,
    trimChars_append_blank hback]
  have hstarless : Go.Doc.starless (trimChars l) = trimChars l := by
    obtain ⟨sp, -, heq⟩ := exists_blank_append (trimStartChars l)
    cases hcs : trimChars l with
    | nil => rfl
    | cons c cs =>
      rw [heq, show trimEndChars (trimStartChars l) = trimChars l from rfl, hcs] at hstar
      rw [Go.Doc.starless]
      rintro cs' h
      exact hstar (congrArg some (List.cons.inj h).1)
  rw [hstarless, trimChars_trimChars]

theorem Rows.feed {mark : List Char} {lines : List String} {rows : List (List Char)}
    (h : Rows mark lines rows) (hmark : '\n' ∉ mark) (hlines : ∀ l ∈ lines, IsLine l) :
    ∀ row ∈ rows, '\n' ∉ row := by
  induction h with
  | nil => exact nofun
  | blank hrow _ ih => exact List.forall_mem_cons.2 ⟨hrow.2, ih hlines⟩
  | line hfront hback _ ih =>
    obtain ⟨hl, hlines⟩ := List.forall_mem_cons.1 hlines
    refine List.forall_mem_cons.2 ⟨?_, ih hlines⟩
    simp only [List.mem_append, not_or]
    exact ⟨⟨⟨hfront.2, hmark⟩, hl.feed⟩, hback.2⟩

theorem bare_linesOf_blockOf {rows : List (List Char)} (h : ∀ row ∈ rows, '\n' ∉ row) :
    bare (Go.Doc.linesOf (blockOf rows))
      = ((rows.map essence).filter (· ≠ [])).map String.ofList := by
  rw [blockOf, Go.Doc.linesOf_block, bare_blockLines, inner]
  cases rows with
  | nil => rfl
  | cons row rows => rw [Text.splitChars_intercalate (List.cons_ne_nil _ _) h]

/-- All ways to write lines keep what matters of them. -/
theorem bare_of_writes {lines texts : List String} (hlines : ∀ l ∈ lines, IsLine l)
    (h : Writes lines texts) : bare (texts.flatMap Go.Doc.linesOf) = bare lines := by
  cases h with
  | run =>
    rw [List.flatMap_map]
    simp only [Go.Doc.linesOf_line, String.ofList_toList]
    rw [List.flatMap_singleton']
  | decorated h =>
    rw [List.flatMap_singleton, bare_linesOf_blockOf (h.feed (by decide) hlines)]
    exact map_essence_rows h fun l _ front back hfront hback =>
      essence_decorated hfront hback l.toList
  | plain h hstar =>
    rw [List.flatMap_singleton, bare_linesOf_blockOf (h.feed (by decide) hlines)]
    exact map_essence_rows h fun l hl front back hfront hback =>
      essence_plain hfront hback (hstar l hl)

/-! ## Comments as tokens -/

open Go.Lexeme (StaysOpen)

/-- No row ends the comment it stands in. -/
theorem staysOpen_row (mark : List Char) {front back : List Char} {l : String} (hfront : Pad front)
    (hback : Pad back) (hl : IsLine l) (hmark : ∀ c ∈ mark, c ≠ '\x00' ∧ c ≠ '/')
    (hlast : mark.foldl (fun _ c => c == '*') false = false) :
    StaysOpen false (front ++ mark ++ l.toList ++ back) := by
  have hpad : ∀ {cs : List Char}, Pad cs → ∀ c ∈ cs, c ≠ '\x00' ∧ c ≠ '/' ∧ c ≠ '*' := by
    intro cs hcs c hc
    have hspace := hcs.1 c hc
    refine ⟨?_, ?_, ?_⟩ <;>
    · rintro rfl
      revert hspace
      decide
  have hopen : ∀ {cs : List Char} (star : Bool), Pad cs → StaysOpen star cs := fun star hcs =>
    Go.Lexeme.staysOpen_of_forall (fun c hc => ⟨(hpad hcs c hc).1, (hpad hcs c hc).2.1⟩) star
  -- White space leaves no star behind.
  have hfold : front.foldl (fun _ c => c == '*') false = false := by
    rcases List.eq_nil_or_concat front with rfl | ⟨cs, c, rfl⟩
    · rfl
    · rw [List.concat_eq_append] at hfront ⊢
      rw [List.foldl_append]
      exact beq_false_of_ne (hpad hfront c (List.mem_append_right _ List.mem_cons_self)).2.2
  rw [Go.Lexeme.staysOpen_append, Go.Lexeme.staysOpen_append, Go.Lexeme.staysOpen_append,
    List.foldl_append, hfold, hlast]
  exact ⟨⟨⟨hopen false hfront, Go.Lexeme.staysOpen_of_forall hmark false⟩,
    Go.Lexeme.staysOpen_of_not_infix hl.nul hl.closing⟩, hopen _ hback⟩

theorem staysOpen_inner {mark : List Char} {lines : List String} {rows : List (List Char)}
    (h : Rows mark lines rows) (hlines : ∀ l ∈ lines, IsLine l)
    (hmark : ∀ c ∈ mark, c ≠ '\x00' ∧ c ≠ '/')
    (hlast : mark.foldl (fun _ c => c == '*') false = false) : StaysOpen false (inner rows) := by
  have hcons : ∀ {row : List Char} {rows : List (List Char)}, StaysOpen false row →
      StaysOpen false (inner rows) → StaysOpen false (inner (row :: rows)) := by
    intro row rows hrow hrows
    cases rows with
    | nil => rwa [inner, List.intercalate_singleton]
    | cons row' rows =>
      rw [inner, List.intercalate_cons_cons, Go.Lexeme.staysOpen_append,
        Go.Lexeme.staysOpen_append]
      have hfeed : ∀ c ∈ ['\n'], c ≠ '\x00' ∧ c ≠ '/' := List.forall_mem_singleton.2 (by decide)
      refine ⟨⟨hrow, Go.Lexeme.staysOpen_of_forall hfeed _⟩, ?_⟩
      rwa [List.foldl_append]
  induction h with
  | nil => trivial
  | blank hrow _ ih =>
    have hpad : Pad [] := ⟨nofun, List.not_mem_nil⟩
    have hempty : IsLine "" := ⟨by decide, by decide, by decide⟩
    have hopen := staysOpen_row [] hrow hpad hempty nofun rfl
    simp only [String.toList_empty, List.append_nil] at hopen
    exact hcons hopen (ih hlines)
  | line hfront hback _ ih =>
    obtain ⟨hl, hlines⟩ := List.forall_mem_cons.1 hlines
    exact hcons (staysOpen_row _ hfront hback hl hmark hlast) (ih hlines)

theorem best?_of_writes {lines texts : List String} (hlines : ∀ l ∈ lines, IsLine l)
    (h : Writes lines texts) : ∀ text ∈ texts, ∀ (admitted : Go.TokenSet) (rest : List Char),
    admitted.has .comment = true →
      Go.Lexeme.best? admitted (text.toList ++ '\n' :: rest) = some (.comment, text.length) := by
  intro text htext admitted rest hadmitted
  have hblock : ∀ {rows : List (List Char)}, StaysOpen false (inner rows) → text = blockOf rows →
      Go.Lexeme.best? admitted (text.toList ++ '\n' :: rest) = some (.comment, text.length) := by
    rintro rows hopen rfl
    rw [← String.length_toList, blockOf, String.toList_ofList]
    simpa using Go.Lexeme.best?_block hadmitted hopen ('\n' :: rest)
  cases h with
  | run =>
    obtain ⟨l, hl, rfl⟩ := List.mem_map.1 htext
    have hline := hlines l hl
    rw [← String.length_toList, String.toList_ofList]
    refine Go.Lexeme.best?_comment hadmitted (fun c hc => ⟨?_, ?_⟩) rest
    · exact fun heq => hline.feed (heq ▸ hc)
    · exact fun heq => hline.nul (heq ▸ hc)
  | decorated h =>
    have hmark : ∀ c ∈ [' ', '*', ' '], c ≠ '\x00' ∧ c ≠ '/' := by simp
    exact hblock (staysOpen_inner h hlines hmark rfl) (List.mem_singleton.1 htext)
  | plain h _ => exact hblock (staysOpen_inner h hlines nofun rfl) (List.mem_singleton.1 htext)

/-! ## Declarations behind comments -/

open Go (Node SourceFile FuncDecl TypeDecl)

/-- The texts of the comments that are attached to a node, with those nodes before it. -/
def attachedTexts (x : List Node × Node) : List String :=
  (Node.attached x.2.start.row x.1.reverse).reverse.map Node.text

/-- The source file declares the function, and the comments attached to it have these texts. -/
inductive FuncBehind (source : String) (texts : List String) (f : FuncDecl) : Prop where
  | mk {file : SourceFile} {root : Node} {x : List Node × Node}
      (parse : SourceFile.parse source = .ok file)
      (tree : Node.ofSource? source.toList = some root)
      (decl : (x, f) ∈ root.functionsInPlace.zip file.funcs)
      (comments : attachedTexts x = texts) : FuncBehind source texts f

/-- The source file declares the type, and the comments attached to it, or to its declaration if
there are none, have these texts. -/
inductive TypeBehind (source : String) (texts : List String) (t : TypeDecl) : Prop where
  | mk {file : SourceFile} {root : Node} {z : (List Node × Node) × (List Node × Node)}
      (parse : SourceFile.parse source = .ok file)
      (tree : Node.ofSource? source.toList = some root)
      (decl : (z, t) ∈ root.specsInPlace.zip file.types)
      (comments : attachedTexts z.2 = texts ∧ texts ≠ [] ∨
        attachedTexts z.2 = [] ∧ attachedTexts z.1 = texts) : TypeBehind source texts t

/-- The lines of a comment; of no comment, none. -/
def docLines (doc : Option Go.Doc) : List String := (doc.map (·.lines)).getD []

theorem ofDoc_eq (doc : Option Go.Doc) : Annotations.ofDoc doc = Annotations.ofLines (docLines doc) := by
  cases doc <;> rfl

theorem doc?_eq_none_iff {x : List Node × Node} :
    Node.doc? x.1 x.2 = none ↔ attachedTexts x = [] := by
  rw [Node.doc?_eq, attachedTexts, List.map_eq_nil_iff]
  cases (Node.attached x.2.start.row x.1.reverse).reverse <;> simp

theorem docLines_doc? (x : List Node × Node) :
    docLines (Node.doc? x.1 x.2) = (attachedTexts x).flatMap Go.Doc.linesOf := by
  rw [Node.doc?_eq, attachedTexts, List.flatMap_map]
  cases (Node.attached x.2.start.row x.1.reverse).reverse <;> rfl

theorem FuncBehind.docLines_eq {source : String} {texts : List String} {f : FuncDecl}
    (h : FuncBehind source texts f) : docLines f.doc = texts.flatMap Go.Doc.linesOf := by
  obtain ⟨hparse, htree, hdecl, rfl⟩ := h
  have hderived := Node.derived_of_ofSource? htree (Go.broken_of_parse htree hparse)
  have hall := Node.forall₂_funcs hderived (Go.collects_of_parse htree hparse)
  rw [(List.forall₂_zip hall hdecl).2, docLines_doc?]

theorem TypeBehind.docLines_eq {source : String} {texts : List String} {t : TypeDecl}
    (h : TypeBehind source texts t) : docLines t.doc = texts.flatMap Go.Doc.linesOf := by
  obtain ⟨hparse, htree, hdecl, hcomments⟩ := h
  have hderived := Node.derived_of_ofSource? htree (Go.broken_of_parse htree hparse)
  have hall := Node.forall₂_types hderived (Go.collects_of_parse htree hparse)
  rw [(List.forall₂_zip hall hdecl).2]
  rcases hcomments with ⟨rfl, hne⟩ | ⟨hnil, rfl⟩
  · obtain ⟨doc, hdoc⟩ := Option.ne_none_iff_exists'.1 (mt doc?_eq_none_iff.1 hne)
    rw [hdoc, Option.some_or, ← hdoc, docLines_doc?]
  · rw [doc?_eq_none_iff.2 hnil, Option.none_or, docLines_doc?]

theorem accepts_marker (t : TypeDecl) :
    Matcher.accepts t .marker = (docLines t.doc).any Matcher.isMarker := rfl

/-- However the lines are written as comments, each of these is one token, a method behind them has
the same annotations, and a type behind them is marked or not. -/
theorem same_of_writes {lines texts texts' : List String} (hlines : ∀ l ∈ lines, IsLine l)
    (h : Writes lines texts) (h' : Writes lines texts') :
    (∀ text ∈ texts, ∀ (admitted : Go.TokenSet) (rest : List Char),
      admitted.has .comment = true → Go.Lexeme.best? admitted (text.toList ++ '\n' :: rest)
        = some (.comment, text.length)) ∧
    (∀ source source' f f', FuncBehind source texts f → FuncBehind source' texts' f' →
      Annotations.ofDoc f.doc = Annotations.ofDoc f'.doc) ∧
    ∀ source source' t t', TypeBehind source texts t → TypeBehind source' texts' t' →
      Matcher.accepts t .marker = Matcher.accepts t' .marker := by
  have hsame : bare (texts.flatMap Go.Doc.linesOf) = bare (texts'.flatMap Go.Doc.linesOf) :=
    (bare_of_writes hlines h).trans (bare_of_writes hlines h').symm
  refine ⟨best?_of_writes hlines h, fun source source' f f' hf hf' => ?_,
    fun source source' t t' ht ht' => ?_⟩
  · rw [ofDoc_eq, ofDoc_eq, hf.docLines_eq, hf'.docLines_eq, ← ofLines_bare, hsame, ofLines_bare]
  · rw [accepts_marker, accepts_marker, ht.docLines_eq, ht'.docLines_eq, ← any_isMarker_bare,
      hsame, any_isMarker_bare]

/-- A type and its method, each behind the comments `c`. -/
def behindBoth (c : String) : String :=
  "package p\n" ++ c ++ "\ntype A int\n" ++ c ++ "\nfunc (a A) M() \x7b\x7d\n"

/-- The tree of the source file has one type and one function, both behind comments with these
texts. -/
def shows (source : String) (texts : List String) (t : TypeDecl) (f : FuncDecl) : Bool :=
  (Node.ofSource? source.toList).any fun root =>
    !root.broken && decide (root.sourceFile = .ok ⟨"p", [t], [f]⟩)
      && decide (root.functionsInPlace.map attachedTexts = [texts])
      && decide (root.specsInPlace.map (fun z => (attachedTexts z.2, attachedTexts z.1))
        = [([], texts)])

theorem behind_of_shows {source : String} {texts : List String} {t : TypeDecl} {f : FuncDecl}
    (h : shows source texts t f = true) : SourceFile.parse source = .ok ⟨"p", [t], [f]⟩ ∧
      FuncBehind source texts f ∧ TypeBehind source texts t := by
  obtain ⟨root, hroot, hfacts⟩ := (Option.any_eq_true _ _).1 h
  simp only [Bool.and_eq_true, Bool.not_eq_true', decide_eq_true_eq] at hfacts
  obtain ⟨⟨⟨hbroken, hfile⟩, hfunc⟩, htype⟩ := hfacts
  have hparse := (Node.parse_of_ofSource? hroot hbroken).trans hfile
  obtain ⟨x, hx, hcomments⟩ := List.map_eq_singleton_iff.1 hfunc
  obtain ⟨z, hz, hcommentsType⟩ := List.map_eq_singleton_iff.1 htype
  obtain ⟨hown, houter⟩ := Prod.mk.inj hcommentsType
  exact ⟨hparse, ⟨hparse, hroot, by simp [hx], hcomments⟩,
    ⟨hparse, hroot, by simp [hz], .inr ⟨hown, houter⟩⟩⟩

/-- Two directives in line comments, and in a block comment with stars. -/
theorem same_of_directives :
    ∃ f f' t t', SourceFile.parse (behindBoth "//@controller\n//@http_method get")
        = .ok ⟨"p", [t], [f]⟩ ∧
      SourceFile.parse (behindBoth "/*\n * @controller\n * @http_method get\n */")
        = .ok ⟨"p", [t'], [f']⟩ ∧
      f.doc ≠ f'.doc ∧ Annotations.ofDoc f.doc = Annotations.ofDoc f'.doc ∧
      Matcher.accepts t .marker = Matcher.accepts t' .marker := by
  have hrun : shows (behindBoth "//@controller\n//@http_method get")
      ["//@controller", "//@http_method get"] ⟨"A", some ⟨["@controller", "@http_method get"]⟩⟩
      ⟨"M", some "A", some ⟨["@controller", "@http_method get"]⟩⟩ = true := by
    decide +kernel
  have hblock : shows (behindBoth "/*\n * @controller\n * @http_method get\n */")
      ["/*\n * @controller\n * @http_method get\n */"]
      ⟨"A", some ⟨[" @controller", " @http_method get"]⟩⟩
      ⟨"M", some "A", some ⟨[" @controller", " @http_method get"]⟩⟩ = true := by
    decide +kernel
  obtain ⟨hparse, hfunc, htype⟩ := behind_of_shows hrun
  obtain ⟨hparse', hfunc', htype'⟩ := behind_of_shows hblock
  have hpad : Pad [] := ⟨nofun, List.not_mem_nil⟩
  have hend : Pad [' '] := ⟨List.forall_mem_singleton.2 rfl, by decide⟩
  have hrows : Rows [' ', '*', ' '] ["@controller", "@http_method get"]
      [[], " * @controller".toList, " * @http_method get".toList, [' ']] :=
    .blank hpad (.line hpad hpad (.line hpad hpad (.blank hend .nil)))
  obtain ⟨-, hannotations, hmarker⟩ := same_of_writes (by decide) .run (.decorated hrows)
  exact ⟨_, _, _, _, hparse, hparse', by decide, hannotations _ _ _ _ hfunc hfunc',
    hmarker _ _ _ _ htype htype'⟩

end Routing
end RouteScribe
