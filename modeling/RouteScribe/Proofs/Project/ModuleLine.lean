import RouteScribe.Proofs.Project.Marker
import RouteScribe.Proofs.Text.Path

/-!
# RouteScribe.Proofs.Project.ModuleLine

Module files, line by line. A directive stands on one line, with one exception: behind `module` the
white space may hold line ends, so a line that ends there takes its name from the line that comes
next, be that another directive.

* `Reads`: what a line names, given the lines behind it.
* `directive_line_append`: a directive at the front of a text, by its first line.
* `firstReading_of_content`: the name that is read is that of the first line that names one.
-/

namespace RouteScribe
namespace Project

variable {cs line row : List Char} {rows : List (List Char)} {name : String} {atStart : Bool}

/-- The row begins with the name: behind white space, a quote or none and the name as far as it
goes. -/
structure Opens (row : List Char) (name : String) : Prop where
  parts : ∃ gap quote after, row = gap ++ (quote ++ name.toList ++ after) ∧ Unicode.Blank gap ∧
    (quote = [] ∨ ∃ q, isQuote q = true ∧ quote = [q]) ∧
    ∀ c, after.head? = some c → isPlain c = false
  ne_empty : name ≠ ""
  plain : ∀ c ∈ name.toList, isPlain c = true

/-- The row has nothing but the word `module`, and white space. -/
def Bare (row : List Char) : Prop :=
  ∃ gap space, row = gap ++ "module".toList ++ space ∧ Unicode.Blank gap ∧ Unicode.Blank space

/-- The first of the rows that is not blank begins with the name. -/
inductive Lends : List (List Char) → String → Prop
  | here {row : List Char} {rows : List (List Char)} {name : String} :
      Opens row name → Lends (row :: rows) name
  | later {row : List Char} {rows : List (List Char)} {name : String} :
      Unicode.Blank row → Lends rows name → Lends (row :: rows) name

/-- The row names a module: it has a directive, or the word `module` alone and the rows behind it
begin with the name. -/
def Reads (row : List Char) (rows : List (List Char)) (name : String) : Prop :=
  Directive row name ∨ Bare row ∧ Lends rows name

/-- The first of the rows that names a module gives it this name. -/
inductive FirstReading : List (List Char) → String → Prop
  | here {row : List Char} {rows : List (List Char)} {name : String} :
      Reads row rows name → FirstReading (row :: rows) name
  | later {row : List Char} {rows : List (List Char)} {name : String} :
      (∀ name', ¬ Reads row rows name') → FirstReading rows name → FirstReading (row :: rows) name

/-! ## Lines -/

theorem splitChars_line (h : '\n' ∉ line) : Text.splitChars (· == '\n') line = [line] :=
  Text.splitChars_eq_singleton fun _ hc => beq_false_of_ne fun heq => h (heq ▸ hc)

theorem splitChars_line_append (h : '\n' ∉ line) (cs : List Char) :
    Text.splitChars (· == '\n') (line ++ '\n' :: cs) =
      line :: Text.splitChars (· == '\n') cs := by
  have hsplit := Text.splitChars_append (f := (· == '\n')) line cs (beq_self_eq_true '\n')
  rw [hsplit, splitChars_line h, List.singleton_append]

/-- A text is a line, or a line and a text behind it. -/
theorem lines_induction {motive : List Char → Prop} (last : ∀ line, '\n' ∉ line → motive line)
    (more : ∀ line cs, '\n' ∉ line → motive cs → motive (line ++ '\n' :: cs)) (cs : List Char) :
    motive cs := by
  generalize hsize : cs.length = size
  induction size using Nat.strong_induction_on generalizing cs with
  | _ size ih =>
    by_cases hmem : '\n' ∈ cs
    · obtain ⟨line, rest, rfl, hline⟩ := List.eq_append_cons_of_mem hmem
      refine more line rest hline (ih rest.length ?_ rest rfl)
      rw [← hsize, List.length_append, List.length_cons]
      omega
    · exact last cs hmem

theorem of_line_append_eq {gap word after : List Char} (hline : '\n' ∉ line) (hword : '\n' ∉ word)
    (h : line ++ '\n' :: cs = gap ++ (word ++ after)) :
    (∃ gap', gap = line ++ '\n' :: gap' ∧ cs = gap' ++ (word ++ after)) ∨
      ∃ after', line = gap ++ (word ++ after') ∧ after = after' ++ '\n' :: cs := by
  rcases List.append_eq_append_iff.1 h with ⟨as, rfl, hrest⟩ | ⟨bs, rfl, hrest⟩
  · cases as with
    | cons a as =>
      obtain ⟨rfl, hcs⟩ := List.cons.inj hrest
      exact .inl ⟨as, rfl, hcs⟩
    | nil =>
      cases word with
      | cons c word =>
        obtain ⟨rfl, -⟩ := List.cons.inj hrest
        exact absurd List.mem_cons_self hword
      | nil => exact .inr ⟨[], by simp, hrest.symm⟩
  · rcases List.append_eq_append_iff.1 hrest with ⟨as, rfl, hafter⟩ | ⟨as, hbs, hafter⟩
    · exact .inr ⟨as, rfl, hafter⟩
    · cases as with
      | cons a as =>
        obtain ⟨rfl, -⟩ := List.cons.inj hafter
        exact absurd (hbs ▸ List.mem_append_right bs List.mem_cons_self) hword
      | nil => exact .inr ⟨[], by simp [hbs], by simpa using hafter.symm⟩

theorem blank_line_append {gap : List Char} (hline : Unicode.Blank line)
    (hgap : Unicode.Blank gap) : Unicode.Blank (line ++ '\n' :: gap) :=
  List.forall_mem_append.2 ⟨hline, List.forall_mem_cons.2 ⟨rfl, hgap⟩⟩

theorem of_blank_line_append {gap : List Char} (h : Unicode.Blank (line ++ '\n' :: gap)) :
    Unicode.Blank line ∧ Unicode.Blank gap := by
  obtain ⟨hline, hgap⟩ := List.forall_mem_append.1 h
  exact ⟨hline, (List.forall_mem_cons.1 hgap).2⟩

/-! ## Names at the front of a row -/

theorem lends_cons_iff : Lends (row :: rows) name ↔
    Opens row name ∨ Unicode.Blank row ∧ Lends rows name := by
  constructor
  · intro h
    cases h with
    | here h => exact .inl h
    | later hblank h => exact .inr ⟨hblank, h⟩
  · rintro (h | ⟨hblank, h⟩)
    · exact .here h
    · exact .later hblank h

/-- A name at the front of a text is on its first line, unless that is blank. -/
theorem opens_line_append (h : '\n' ∉ line) : Opens (line ++ '\n' :: cs) name ↔
    Opens line name ∨ Unicode.Blank line ∧ Opens cs name := by
  constructor
  · rintro ⟨⟨gap, quote, after, heq, hgap, hquote, hafter⟩, hempty, hplain⟩
    have hword : '\n' ∉ quote ++ name.toList := by
      intro hmem
      rcases List.mem_append.1 hmem with hmem | hmem
      · rcases hquote with rfl | ⟨q, hq, rfl⟩
        · cases hmem
        · obtain rfl := List.mem_singleton.1 hmem
          cases hq
      · exact absurd (hplain _ hmem) (by decide)
    rcases of_line_append_eq h hword heq with ⟨gap', rfl, rfl⟩ | ⟨after', rfl, rfl⟩
    · obtain ⟨hline, hgap'⟩ := of_blank_line_append hgap
      exact .inr ⟨hline, ⟨gap', quote, after, rfl, hgap', hquote, hafter⟩, hempty, hplain⟩
    · refine .inl ⟨⟨gap, quote, after', rfl, hgap, hquote, fun c hc => hafter c ?_⟩, hempty, hplain⟩
      rw [List.head?_append, hc]
      rfl
  · rintro (⟨⟨gap, quote, after, rfl, hgap, hquote, hafter⟩, hempty, hplain⟩ |
      ⟨hline, ⟨gap, quote, after, rfl, hgap, hquote, hafter⟩, hempty, hplain⟩)
    · refine ⟨⟨gap, quote, after ++ '\n' :: cs, by simp, hgap, hquote, fun c hc => ?_⟩, hempty,
        hplain⟩
      cases after with
      | nil =>
        cases hc
        decide
      | cons d ds => exact hafter c hc
    · exact ⟨⟨line ++ '\n' :: gap, quote, after, by simp, blank_line_append hline hgap, hquote,
        hafter⟩, hempty, hplain⟩

/-- The name at the front of a text is what its lines lend. -/
theorem opens_iff_lends (cs : List Char) :
    Opens cs name ↔ Lends (Text.splitChars (· == '\n') cs) name := by
  induction cs using lines_induction with
  | last line hline =>
    rw [splitChars_line hline, lends_cons_iff]
    exact ⟨.inl, fun h => h.resolve_right fun h => nomatch h.2⟩
  | more line cs hline ih =>
    rw [splitChars_line_append hline, lends_cons_iff, opens_line_append hline, ih]

/-! ## Directives -/

theorem head?_of_opens {c : Char} (h : Opens cs name) (hc : cs.head? = some c)
    (hspace : Unicode.isSpace c = true) : ∃ space rest, cs = space ++ rest ∧ space ≠ [] ∧
      Unicode.Blank space ∧ ∃ quote after, rest = quote ++ name.toList ++ after ∧
        (quote = [] ∨ ∃ q, isQuote q = true ∧ quote = [q]) ∧
        ∀ d, after.head? = some d → isPlain d = false := by
  obtain ⟨⟨gap, quote, after, rfl, hgap, hquote, hafter⟩, hempty, hplain⟩ := h
  refine ⟨gap, _, rfl, ?_, hgap, quote, after, rfl, hquote, hafter⟩
  rintro rfl
  rcases hquote with rfl | ⟨q, hq, rfl⟩
  · obtain ⟨d, ds, hname⟩ :=
      List.exists_cons_of_ne_nil fun h => hempty (String.toList_eq_nil_iff.1 h)
    rw [hname] at hc hplain
    cases hc
    rw [isSpace_of_isPlain (hplain _ List.mem_cons_self)] at hspace
    cases hspace
  · cases hc
    rw [isSpace_of_isQuote hq] at hspace
    cases hspace

/-- A directive is the word `module`, with white space in front of it and behind it, and a name. -/
theorem directive_iff : Directive cs name ↔ ∃ gap rest, cs = gap ++ ("module".toList ++ rest) ∧
    Unicode.Blank gap ∧ (∃ c, rest.head? = some c ∧ Unicode.isSpace c = true) ∧
    Opens rest name := by
  constructor
  · rintro ⟨⟨gap, space, quote, after, rfl, hgap, hspace, hne, hquote, hafter⟩, hempty, hplain⟩
    obtain ⟨c, cs, rfl⟩ := List.exists_cons_of_ne_nil hne
    exact ⟨gap, c :: cs ++ (quote ++ name.toList ++ after), by simp, hgap,
      ⟨c, rfl, hspace c List.mem_cons_self⟩,
      ⟨c :: cs, quote, after, rfl, hspace, hquote, hafter⟩, hempty, hplain⟩
  · rintro ⟨gap, rest, rfl, hgap, ⟨c, hc, hspace⟩, hopens⟩
    obtain ⟨space, rest', rfl, hne, hblank, quote, after, rfl, hquote, hafter⟩ :=
      head?_of_opens hopens hc hspace
    exact ⟨⟨gap, space, quote, after, by simp, hgap, hblank, hne, hquote, hafter⟩,
      hopens.ne_empty, hopens.plain⟩

theorem Reads.not_blank (h : Reads row rows name) : ¬ Unicode.Blank row := by
  intro hblank
  have hm : 'm' ∈ row := by
    rcases h with h | ⟨⟨gap, space, rfl, -⟩, -⟩
    · obtain ⟨gap, rest, rfl, -⟩ := directive_iff.1 h
      exact List.mem_append_right _ (List.mem_append_left _ List.mem_cons_self)
    · exact List.mem_append_left _ (List.mem_append_right _ List.mem_cons_self)
  exact absurd (hblank 'm' hm) (by decide)

/-- A directive at the front of a text is on its first line, or it begins there and has its name
from the lines behind, unless that line is blank. -/
theorem directive_line_append (h : '\n' ∉ line) : Directive (line ++ '\n' :: cs) name ↔
    Reads line (Text.splitChars (· == '\n') cs) name ∨
      Unicode.Blank line ∧ Directive cs name := by
  have hword : '\n' ∉ "module".toList := by decide
  unfold Reads Bare
  rw [directive_iff, directive_iff, directive_iff]
  constructor
  · rintro ⟨gap, rest, heq, hgap, ⟨c, hc, hspace⟩, hopens⟩
    rcases of_line_append_eq h hword heq with ⟨gap', rfl, rfl⟩ | ⟨rest', rfl, rfl⟩
    · obtain ⟨hline, hgap'⟩ := of_blank_line_append hgap
      exact .inr ⟨hline, gap', rest, rfl, hgap', ⟨c, hc, hspace⟩, hopens⟩
    · have hrest' : '\n' ∉ rest' := fun hmem => h (by simp [hmem])
      refine .inl ?_
      rcases (opens_line_append hrest').1 hopens with hopens | ⟨hblank, hopens⟩
      · refine .inl ⟨gap, rest', rfl, hgap, ⟨c, ?_, hspace⟩, hopens⟩
        cases rest' with
        | cons d ds => exact hc
        | nil =>
          obtain ⟨⟨_, quote, _, hnil, -⟩, hempty, -⟩ := hopens
          simp only [List.nil_eq, List.append_eq_nil_iff] at hnil
          exact absurd (String.toList_eq_nil_iff.1 hnil.2.1.2) hempty
      · exact .inr ⟨⟨gap, rest', by simp, hgap, hblank⟩, (opens_iff_lends cs).1 hopens⟩
  · rintro ((⟨gap, rest, rfl, hgap, ⟨c, hc, hspace⟩, hopens⟩ |
      ⟨⟨gap, space, rfl, hgap, hspace⟩, hlends⟩) |
      ⟨hline, gap, rest, rfl, hgap, hspace, hopens⟩)
    · have hrest : '\n' ∉ rest := fun hmem => h (by simp [hmem])
      refine ⟨gap, rest ++ '\n' :: cs, by simp, hgap, ⟨c, ?_, hspace⟩,
        (opens_line_append hrest).2 (.inl hopens)⟩
      rw [List.head?_append, hc]
      rfl
    · have hspaces : '\n' ∉ space := fun hmem => h (by simp [hmem])
      refine ⟨gap, space ++ '\n' :: cs, by simp, hgap, ?_,
        (opens_line_append hspaces).2 (.inr ⟨hspace, (opens_iff_lends cs).2 hlends⟩)⟩
      cases space with
      | nil => exact ⟨'\n', rfl, by decide⟩
      | cons c cs => exact ⟨c, rfl, hspace c List.mem_cons_self⟩
    · exact ⟨line ++ '\n' :: gap, rest, by simp, blank_line_append hline hgap, hspace, hopens⟩

theorem reads_nil_iff : Reads row [] name ↔ Directive row name := by
  constructor
  · rintro (h | ⟨-, hlends⟩)
    · exact h
    · cases hlends
  · exact .inl

/-! ## The first line that names a module -/

theorem firstReading_cons_iff : FirstReading (row :: rows) name ↔ Reads row rows name ∨
    (∀ name', ¬ Reads row rows name') ∧ FirstReading rows name := by
  constructor
  · intro h
    cases h with
    | here h => exact .inl h
    | later hnot h => exact .inr ⟨hnot, h⟩
  · rintro (h | ⟨hnot, h⟩)
    · exact .here h
    · exact .later hnot h

theorem firstDirective_false_cons {c : Char} :
    FirstDirective false (c :: cs) name ↔ FirstDirective (c = '\n') cs name :=
  firstDirective_cons fun h => by cases h

/-- No directive begins within a line. -/
theorem firstDirective_line_append (h : '\n' ∉ line) :
    FirstDirective false (line ++ cs) name ↔ FirstDirective false cs name := by
  induction line with
  | nil => rfl
  | cons c line ih =>
    rw [List.mem_cons, not_or] at h
    rw [List.cons_append, firstDirective_false_cons, decide_eq_false (Ne.symm h.1), ih h.2]

theorem firstDirective_of_not_directive (h : ∀ name', ¬ Directive cs name') :
    FirstDirective true cs name ↔ FirstDirective false cs name := by
  cases cs with
  | nil => exact iff_of_false not_firstDirective_nil not_firstDirective_nil
  | cons c cs => rw [firstDirective_cons fun _ => h, firstDirective_false_cons]

theorem firstDirective_skip_line (hline : '\n' ∉ line)
    (h : ∀ name', ¬ Directive (line ++ '\n' :: cs) name') :
    FirstDirective true (line ++ '\n' :: cs) name ↔ FirstDirective true cs name := by
  rw [firstDirective_of_not_directive h, firstDirective_line_append hline,
    firstDirective_false_cons, decide_eq_true rfl]

theorem firstDirective_blank_line (hline : '\n' ∉ line) (hblank : Unicode.Blank line) :
    FirstDirective true (line ++ '\n' :: cs) name ↔ FirstDirective true cs name := by
  have hsame : ∀ name', Directive (line ++ '\n' :: cs) name' ↔ Directive cs name' := fun name' => by
    rw [directive_line_append hline, and_iff_right hblank]
    exact or_iff_right fun h => h.not_blank hblank
  by_cases hread : ∃ name', Directive cs name'
  · obtain ⟨name', h⟩ := hread
    rw [firstDirective_of_directive h, firstDirective_of_directive ((hsame name').2 h)]
  · rw [not_exists] at hread
    exact firstDirective_skip_line hline fun name' h => hread name' ((hsame name').1 h)

/-- Only one name is read from a line. -/
theorem firstReading_of_reads {name' : String} (h : Reads row rows name')
    (hunique : ∀ name, Reads row rows name → name = name') :
    FirstReading (row :: rows) name ↔ name = name' := by
  rw [firstReading_cons_iff]
  constructor
  · rintro (hreads | ⟨hnot, -⟩)
    · exact hunique name hreads
    · exact absurd h (hnot name')
  · rintro rfl
    exact .inl h

theorem firstReading_of_not_reads (h : ∀ name', ¬ Reads row rows name') :
    FirstReading (row :: rows) name ↔ FirstReading rows name := by
  rw [firstReading_cons_iff]
  exact ⟨fun hreading => (hreading.resolve_left (h name)).2, fun hreading => .inr ⟨h, hreading⟩⟩

/-- The first directive of a text is what the first line that names a module says. -/
theorem firstDirective_iff_firstReading (cs : List Char) :
    FirstDirective true cs name ↔ FirstReading (Text.splitChars (· == '\n') cs) name := by
  induction cs using lines_induction with
  | last line hline =>
    rw [splitChars_line hline]
    by_cases hread : ∃ name', Directive line name'
    · obtain ⟨name', h⟩ := hread
      rw [firstDirective_of_directive h, firstReading_of_reads (reads_nil_iff.2 h)]
      exact fun name hreads => (reads_nil_iff.1 hreads).unique h
    · rw [not_exists] at hread
      have hend : FirstDirective false (line ++ []) name ↔ FirstDirective false [] name :=
        firstDirective_line_append hline
      rw [List.append_nil] at hend
      rw [firstDirective_of_not_directive hread, hend,
        firstReading_of_not_reads fun name' h => hread name' (reads_nil_iff.1 h)]
      exact iff_of_false not_firstDirective_nil nofun
  | more line cs hline ih =>
    rw [splitChars_line_append hline]
    by_cases hblank : Unicode.Blank line
    · rw [firstDirective_blank_line hline hblank, ih,
        firstReading_of_not_reads fun _ h => h.not_blank hblank]
    · have hsame : ∀ name, Directive (line ++ '\n' :: cs) name ↔
          Reads line (Text.splitChars (· == '\n') cs) name := fun name => by
        rw [directive_line_append hline]
        exact or_iff_left fun h => hblank h.1
      by_cases hread : ∃ name', Reads line (Text.splitChars (· == '\n') cs) name'
      · obtain ⟨name', h⟩ := hread
        have hdirective := (hsame name').2 h
        rw [firstDirective_of_directive hdirective, firstReading_of_reads h]
        exact fun name hreads => ((hsame name).2 hreads).unique hdirective
      · rw [not_exists] at hread
        rw [firstReading_of_not_reads hread, ← ih,
          firstDirective_skip_line hline fun name' h => hread name' ((hsame name').1 h)]

/-- The name that is read from a module file is that of the first line that names a module. -/
theorem firstReading_of_content {content : String} : moduleName? content = some name ↔
    FirstReading (Text.splitChars (· == '\n') content.toList) name :=
  moduleName?_eq_some_iff.trans (firstDirective_iff_firstReading content.toList)

-- The word of another directive is taken for the name.
example : moduleName? "module\n\ngo 1.22\n" = some "go" := by decide +kernel

end Project
end RouteScribe
