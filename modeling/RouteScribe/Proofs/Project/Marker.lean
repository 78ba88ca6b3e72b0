import RouteScribe.Project.ModuleFile
import RouteScribe.Project.Settings
import RouteScribe.Proofs.Unicode.Space

/-!
# RouteScribe.Proofs.Project.Marker

What the files that mark the root of a project say. Settings are a record of two texts, both of
which may be left out; a module file has a directive at the beginning of a line.

* `Settings.Describes`: the settings in a value, and `Settings.ofValue?_eq_some_iff`, that these
  are read.
* `Directive`, `NamesModule`: the directive of a module file, and `moduleName?_eq_some_iff`, that
  the first one is read.
-/

namespace RouteScribe
namespace Project

/-! ## Settings -/

namespace Settings

open Json (Value)

/-- The rows give the field this text once, or never if it is empty. -/
def Gives (rows : List (Option String × Value)) (key text : String) : Prop :=
  (∀ r ∈ rows, r.1 ≠ some key) ∧ text = "" ∨
  ∃ before after, rows = before ++ (some key, .string (some text)) :: after ∧
    ∀ r ∈ before ++ after, r.1 ≠ some key

/-- The list has this text at a place, or ends before it and the text is empty. -/
def GivesAt (vs : List Value) (i : Nat) (text : String) : Prop :=
  vs[i]? = none ∧ text = "" ∨ vs[i]? = some (.string (some text))

/-- The value is a record with these settings. What else a record with names has does not count, as
long as its names are texts; a record without names has nothing else. -/
inductive Describes : Value → Settings → Prop
  | object {rows : List (Option String × Value)} {s : Settings} (hkeys : ∀ r ∈ rows, r.1 ≠ none)
      (hname : Gives rows "project_name" s.projectName)
      (hcommand : Gives rows "default_cmd" s.defaultCommand) : Describes (.object rows) s
  | array {vs : List Value} {s : Settings} (hlength : vs.length ≤ 2)
      (hname : GivesAt vs 0 s.projectName) (hcommand : GivesAt vs 1 s.defaultCommand) :
      Describes (.array vs) s

variable {rows : List (Option String × Value)} {vs : List Value} {key text : String}

theorem text?_some_eq_some_iff {v : Value} :
    text? (some v) = some text ↔ v = .string (some text) := by
  cases v <;> simp [text?]

theorem fields_eq_nil_iff : fields key rows = [] ↔ ∀ r ∈ rows, r.1 ≠ some key := by
  simp [fields, List.filter_eq_nil_iff]

theorem fields_eq_singleton_iff {v : Value} : fields key rows = [v] ↔
    ∃ before after, rows = before ++ (some key, v) :: after ∧
      ∀ r ∈ before ++ after, r.1 ≠ some key := by
  unfold fields
  constructor
  · intro h
    obtain ⟨r, hr, rfl⟩ := List.map_eq_singleton_iff.1 h
    obtain ⟨before, after, rfl, hbefore, hkey, hafter⟩ := List.filter_eq_cons_iff.1 hr
    refine ⟨before, after, by rw [← of_decide_eq_true hkey], fun r' hr' => ?_⟩
    rcases List.mem_append.1 hr' with hr' | hr'
    · simpa using hbefore r' hr'
    · simpa using List.filter_eq_nil_iff.1 hafter r' hr'
  · rintro ⟨before, after, rfl, hothers⟩
    have hnone : ∀ rs : List (Option String × Value), (∀ r ∈ rs, r.1 ≠ some key) →
        rs.filter (·.1 = some key) = [] := fun rs h =>
      List.filter_eq_nil_iff.2 fun r hr => by simpa using h r hr
    rw [List.filter_append, List.filter_cons_of_pos (by simp),
      hnone before fun r hr => hothers r (List.mem_append_left _ hr),
      hnone after fun r hr => hothers r (List.mem_append_right _ hr)]
    rfl

theorem field?_eq_some_iff : field? key rows = some text ↔ Gives rows key text := by
  unfold Gives
  rw [← fields_eq_nil_iff, ← fields_eq_singleton_iff, field?]
  cases fields key rows with
  | nil => simp [eq_comm]
  | cons v vs =>
    cases vs with
    | nil => simp [text?_some_eq_some_iff]
    | cons v' vs => simp

theorem text?_getElem?_eq_some_iff {i : Nat} : text? vs[i]? = some text ↔ GivesAt vs i text := by
  unfold GivesAt
  cases vs[i]? with
  | none => simp [text?, eq_comm]
  | some v => simp [text?_some_eq_some_iff]

theorem ofValue?_eq_some_iff {v : Value} {s : Settings} : ofValue? v = some s ↔ Describes v s := by
  constructor
  · intro h
    cases v with
    | object rows =>
      simp only [ofValue?] at h
      split at h
      · cases h
      next hkeys =>
        split at h
        next name command hname hcommand =>
          cases h
          refine .object (fun r hr hnone => hkeys ?_) (field?_eq_some_iff.1 hname)
            (field?_eq_some_iff.1 hcommand)
          exact List.any_eq_true.2 ⟨r, hr, decide_eq_true hnone⟩
        · cases h
    | array vs =>
      simp only [ofValue?] at h
      split at h
      next name command hname hcommand hrest =>
        cases h
        exact .array (List.drop_eq_nil_iff.1 hrest) (text?_getElem?_eq_some_iff.1 hname)
          (text?_getElem?_eq_some_iff.1 hcommand)
      · cases h
    | null => cases h
    | bool b => cases h
    | number => cases h
    | string s => cases h
  · intro h
    cases h with
    | @object rows s hkeys hname hcommand =>
      have hany : (rows.any fun r => r.1 = none) = false :=
        List.any_eq_false.2 fun r hr => by simpa using hkeys r hr
      simp only [ofValue?, hany, field?_eq_some_iff.2 hname, field?_eq_some_iff.2 hcommand,
        Bool.false_eq_true, if_false]
    | @array vs s hlength hname hcommand =>
      simp only [ofValue?, text?_getElem?_eq_some_iff.2 hname,
        text?_getElem?_eq_some_iff.2 hcommand, List.drop_eq_nil_iff.2 hlength]

theorem read?_eq_some_iff {content : String} {s : Settings} :
    read? content = some s ↔ ∃ v, Json.read? content = some v ∧ Describes v s := by
  simp only [read?, Option.bind_eq_some_iff, ofValue?_eq_some_iff]

end Settings

/-! ## Module files -/

/-- The character can be part of the name of a module. -/
def isPlain (c : Char) : Bool := !Unicode.isSpace c && !isQuote c

/-- The characters begin with a directive that names the module `name`: behind white space the word
`module`, more white space, a quote or none, and the name as far as it goes. -/
structure Directive (cs : List Char) (name : String) : Prop where
  parts : ∃ gap space quote after,
    cs = gap ++ "module".toList ++ space ++ quote ++ name.toList ++ after ∧
    Unicode.Blank gap ∧ Unicode.Blank space ∧ space ≠ [] ∧
    (quote = [] ∨ ∃ q, isQuote q = true ∧ quote = [q]) ∧
    ∀ c, after.head? = some c → isPlain c = false
  ne_empty : name ≠ ""
  plain : ∀ c ∈ name.toList, isPlain c = true

/-- The characters `before` end where a line begins; `atStart` if one begins in front of them. -/
def EndsLine (atStart : Bool) (before : List Char) : Prop :=
  if before = [] then atStart = true else before.getLast? = some '\n'

/-- The first directive at the beginning of a line names the module `name`. -/
def FirstDirective (atStart : Bool) (cs : List Char) (name : String) : Prop :=
  ∃ before rest, cs = before ++ rest ∧ EndsLine atStart before ∧ Directive rest name ∧
    ∀ before' rest', cs = before' ++ rest' → before'.length < before.length →
      EndsLine atStart before' → ∀ name', ¬ Directive rest' name'

/-- The content of a module file names the module `name`. -/
def NamesModule (content name : String) : Prop := FirstDirective true content.toList name

variable {cs : List Char} {name : String}

theorem isSpace_of_isPlain {c : Char} (h : isPlain c = true) : Unicode.isSpace c = false := by
  simp only [isPlain, Bool.and_eq_true, Bool.not_eq_true'] at h
  exact h.1

theorem isQuote_of_isPlain {c : Char} (h : isPlain c = true) : isQuote c = false := by
  simp only [isPlain, Bool.and_eq_true, Bool.not_eq_true'] at h
  exact h.2

theorem isSpace_of_isQuote {c : Char} (h : isQuote c = true) : Unicode.isSpace c = false := by
  simp only [isQuote, Bool.or_eq_true, decide_eq_true_eq] at h
  rcases h with rfl | rfl <;> decide

theorem trimStartChars_blank_append {gap rest : List Char} (hgap : Unicode.Blank gap)
    (hrest : ∀ c, rest.head? = some c → Unicode.isSpace c = false) :
    Unicode.trimStartChars (gap ++ rest) = rest := by
  rw [Unicode.trimStartChars, List.dropWhile_append_of_pos hgap]
  cases rest with
  | nil => rfl
  | cons c cs => exact List.dropWhile_cons_of_neg (by simp [hrest c rfl])

theorem takeWhile_plain_append {as after : List Char} (has : ∀ c ∈ as, isPlain c = true)
    (hafter : ∀ c, after.head? = some c → isPlain c = false) :
    (as ++ after).takeWhile isPlain = as := by
  rw [List.takeWhile_append_of_pos has]
  cases after with
  | nil => rw [List.takeWhile_nil, List.append_nil]
  | cons c cs => rw [List.takeWhile_cons_of_neg (by simp [hafter c rfl]), List.append_nil]

theorem directive?_of_directive (h : Directive cs name) : directive? cs = some name := by
  obtain ⟨⟨gap, space, quote, after, rfl, hgap, hspace, hne, hquote, hafter⟩, hempty, hplain⟩ := h
  obtain ⟨c, ns, hname⟩ := List.exists_cons_of_ne_nil fun h => hempty (String.toList_eq_nil_iff.1 h)
  have hc : isPlain c = true := hplain c (hname ▸ List.mem_cons_self)
  have hword : Unicode.trimStartChars (gap ++ "module".toList ++ space ++ quote ++ name.toList
      ++ after) = "module".toList ++ (space ++ (quote ++ (name.toList ++ after))) := by
    simp only [List.append_assoc]
    exact trimStartChars_blank_append hgap fun c hc => by
      cases hc
      decide
  have hhead : (space ++ (quote ++ (name.toList ++ after))).head?.any Unicode.isSpace = true := by
    obtain ⟨d, ds, rfl⟩ := List.exists_cons_of_ne_nil hne
    exact hspace d List.mem_cons_self
  have htrim : Unicode.trimStartChars (space ++ (quote ++ (name.toList ++ after)))
      = quote ++ (name.toList ++ after) := by
    refine trimStartChars_blank_append hspace fun d hd => ?_
    rcases hquote with rfl | ⟨q, hq, rfl⟩
    · rw [List.nil_append, hname] at hd
      cases hd
      exact isSpace_of_isPlain hc
    · cases hd
      exact isSpace_of_isQuote hq
  have hbare : (if (quote ++ (name.toList ++ after)).head?.any isQuote
      then (quote ++ (name.toList ++ after)).tail else quote ++ (name.toList ++ after))
        = name.toList ++ after := by
    rcases hquote with rfl | ⟨q, hq, rfl⟩
    · rw [List.nil_append, if_neg]
      simp [hname, isQuote_of_isPlain hc]
    · rw [if_pos (by simpa using hq)]
      rfl
  have htake : (name.toList ++ after).takeWhile (fun c => !Unicode.isSpace c && !isQuote c)
      = name.toList := takeWhile_plain_append hplain hafter
  have hprefix : "module".toList.isPrefixOf
      ("module".toList ++ (space ++ (quote ++ (name.toList ++ after)))) = true :=
    List.isPrefixOf_iff_prefix.2 (List.prefix_append _ _)
  have hnil : name.toList ≠ [] := by simp [hname]
  simp only [directive?, hword, hprefix, if_true, List.drop_left, hhead, htrim, hbare, htake, hnil,
    if_false, String.ofList_toList]

theorem directive_of_directive? (h : directive? cs = some name) : Directive cs name := by
  unfold directive? at h
  extract_lets word trimmed rest skipped bare text at h
  split at h
  next hword =>
    split at h
    next hspace =>
      split at h
      · cases h
      next htext =>
        cases h
        obtain ⟨tail, htail⟩ := List.isPrefixOf_iff_prefix.1 hword
        have hrest : rest = tail := by
          show trimmed.drop word.length = tail
          rw [← htail, List.drop_left]
        have hbare : ∃ quote, skipped = quote ++ bare ∧
            (quote = [] ∨ ∃ q, isQuote q = true ∧ quote = [q]) := by
          show ∃ quote, skipped = quote ++ (if skipped.head?.any isQuote then skipped.tail
            else skipped) ∧ _
          split
          next hquote =>
            cases hskipped : skipped with
            | nil => simp [hskipped] at hquote
            | cons q qs =>
              refine ⟨[q], rfl, .inr ⟨q, ?_, rfl⟩⟩
              simpa [hskipped] using hquote
          · exact ⟨[], rfl, .inl rfl⟩
        obtain ⟨quote, hskipped, hquote⟩ := hbare
        refine ⟨⟨cs.takeWhile Unicode.isSpace, rest.takeWhile Unicode.isSpace, quote,
          bare.dropWhile isPlain, ?_, Unicode.blank_takeWhile cs, Unicode.blank_takeWhile rest,
          ?_, hquote, ?_⟩, ?_, ?_⟩
        · have htext : text ++ bare.dropWhile isPlain = bare := List.takeWhile_append_dropWhile
          have hgap : rest.takeWhile Unicode.isSpace ++ skipped = rest :=
            List.takeWhile_append_dropWhile
          have hall : cs.takeWhile Unicode.isSpace ++ trimmed = cs :=
            List.takeWhile_append_dropWhile
          have hname : (String.ofList text).toList = text := String.toList_ofList
          simp only [hname, List.append_assoc]
          rw [htext, ← hskipped, hgap, hrest]
          exact hall.symm.trans (congrArg _ htail.symm)
        · intro hnil
          cases hcs : rest with
          | nil => simp [hcs] at hspace
          | cons c cs =>
            simp only [hcs, List.head?_cons, Option.any_some] at hspace
            rw [hcs, List.takeWhile_cons_of_pos hspace] at hnil
            cases hnil
        · intro c hc
          have hnot := List.head?_dropWhile_not isPlain bare
          rw [hc] at hnot
          simpa using hnot
        · exact fun hempty => htext (String.ofList_eq_empty_iff.1 hempty)
        · intro c hc
          rw [String.toList_ofList] at hc
          exact List.mem_takeWhile_imp hc
    · cases h
  · cases h

theorem Directive.unique {name' : String} (h : Directive cs name) (h' : Directive cs name') :
    name = name' :=
  Option.some.inj ((directive?_of_directive h).symm.trans (directive?_of_directive h'))

theorem not_directive_nil : ¬ Directive [] name := by
  intro h
  have hread := directive?_of_directive h
  cases hread

/-- A line begins behind a character and more if it begins behind the more. -/
theorem endsLine_cons {atStart : Bool} {c : Char} {before : List Char} :
    EndsLine atStart (c :: before) ↔ EndsLine (c = '\n') before := by
  cases before with
  | nil => simp [EndsLine]
  | cons d ds => simp [EndsLine]

theorem firstDirective_of_directive {name' : String} (h : Directive cs name) :
    FirstDirective true cs name' ↔ name' = name := by
  constructor
  · rintro ⟨before, rest, heq, -, hdirective, hfirst⟩
    cases before with
    | nil =>
      rw [List.nil_append] at heq
      exact (heq ▸ hdirective).unique h
    | cons c before => exact absurd h (hfirst [] cs rfl (Nat.succ_pos _) rfl name)
  · rintro rfl
    exact ⟨[], cs, rfl, rfl, h, fun before' _ _ hlt => absurd hlt (Nat.not_lt_zero _)⟩

theorem firstDirective_cons {atStart : Bool} {c : Char}
    (h : atStart = true → ∀ name', ¬ Directive (c :: cs) name') :
    FirstDirective atStart (c :: cs) name ↔ FirstDirective (c = '\n') cs name := by
  have hfront : EndsLine atStart [] → atStart = true := by simp [EndsLine]
  constructor
  · rintro ⟨before, rest, heq, hends, hdirective, hfirst⟩
    cases before with
    | nil =>
      rw [List.nil_append] at heq
      exact absurd (heq ▸ hdirective) (h (hfront hends) name)
    | cons c' before =>
      obtain ⟨rfl, rfl⟩ := List.cons.inj heq
      refine ⟨before, rest, rfl, endsLine_cons.1 hends, hdirective, ?_⟩
      intro before' rest' heq hlt hends'
      exact hfirst (c :: before') rest' (by rw [heq]; rfl) (Nat.succ_lt_succ hlt)
        (endsLine_cons.2 hends')
  · rintro ⟨before, rest, rfl, hends, hdirective, hfirst⟩
    refine ⟨c :: before, rest, rfl, endsLine_cons.2 hends, hdirective, ?_⟩
    intro before' rest' heq hlt hends' name' hdirective'
    cases before' with
    | nil =>
      rw [List.nil_append] at heq
      exact h (hfront hends') name' (heq ▸ hdirective')
    | cons c' before' =>
      obtain ⟨rfl, htail⟩ := List.cons.inj heq
      exact hfirst before' rest' htail (Nat.lt_of_succ_lt_succ hlt) (endsLine_cons.1 hends') name'
        hdirective'

theorem not_firstDirective_nil {atStart : Bool} : ¬ FirstDirective atStart [] name := by
  rintro ⟨before, rest, heq, -, hdirective, -⟩
  obtain ⟨rfl, rfl⟩ := List.append_eq_nil_iff.1 heq.symm
  exact not_directive_nil hdirective

theorem findDirective?_eq_some_iff (atStart : Bool) :
    findDirective? atStart cs = some name ↔ FirstDirective atStart cs name := by
  induction cs generalizing atStart with
  | nil => simp [findDirective?, not_firstDirective_nil]
  | cons c cs ih =>
    rw [findDirective?]
    cases hfront : if atStart then directive? (c :: cs) else none with
    | some name' =>
      obtain ⟨rfl, hread⟩ : atStart = true ∧ directive? (c :: cs) = some name' := by
        cases atStart
        · cases hfront
        · exact ⟨rfl, hfront⟩
      rw [firstDirective_of_directive (directive_of_directive? hread)]
      simp [eq_comm]
    | none =>
      dsimp only
      rw [ih, firstDirective_cons]
      rintro rfl name' hdirective
      rw [if_pos rfl, directive?_of_directive hdirective] at hfront
      cases hfront

theorem moduleName?_eq_some_iff {content : String} :
    moduleName? content = some name ↔ NamesModule content name := findDirective?_eq_some_iff true

end Project
end RouteScribe
