import RouteScribe.Proofs.Text.Regex
import RouteScribe.Proofs.Unicode.Space
import RouteScribe.Routing.Directive

/-!
# RouteScribe.Proofs.Routing.Directive

What the lines of a comment set. A line is a directive if, trimmed, it is the name of the directive,
or that name, white space, and an argument on the same line; the last such line counts.

* `Directive.Gives`: the lines that are directives, without regard to how they are found.
* `Directive.read_eq_some_iff`: the regular expression finds just these.
* `Annotations.setBy_ofDoc`: what the lines of a comment set.
-/

namespace RouteScribe
namespace Routing

open Unicode Text.Regex

namespace Directive

/-- The line is the directive with that argument. -/
def Gives (d : Directive) (line argument : String) : Prop :=
  trim line = d.name ∧ argument = "" ∨
  ∃ gap : String, gap ≠ "" ∧ Blank gap.toList ∧ argument ≠ "" ∧ trim argument = argument ∧
    '\n' ∉ argument.toList ∧ trim line = d.name ++ gap ++ argument

/-! ## The regular expression -/

variable {gs : Groups} {cs t : List Char}

/-- What stands behind the argument. -/
def final (gs : Groups) (cs : List Char) : Option Groups :=
  (chain [many isSpace, stop]).run (fun gs _ => some gs) gs cs

theorem final_of_blank (h : Blank cs) : final gs cs = some gs := by
  have hdrop : cs.dropWhile isSpace = [] := List.dropWhile_eq_nil_iff.2 h
  refine (runMany_eq fun hnone => ?_).trans ?_
  · rw [hdrop] at hnone
    cases hnone
  · rw [hdrop]
    rfl

theorem final_eq_none (h : ¬ Blank cs) : final gs cs = none := by
  have hdrop : cs.dropWhile isSpace ≠ [] := fun heq => h (List.dropWhile_eq_nil_iff.1 heq)
  refine (runMany_eq fun _ us _ _ => ?_).trans ?_
  · exact run_stop_of_ne_nil (List.append_ne_nil_of_right_ne_nil us hdrop)
  · exact run_stop_of_ne_nil hdrop

/-- The argument and what stands behind it. -/
def word (gs : Groups) (cs : List Char) : Option Groups :=
  (group 2 (few (· ≠ '\n'))).run final gs cs

/-- Something other than white space is behind each character of a trimmed text. -/
theorem not_blank_of_suffix {us sp : List Char} (hne : us ≠ []) (h : us <:+ trimEndChars cs) :
    ¬ Blank (us ++ sp) := fun hall => by
  obtain ⟨front, heq⟩ := h
  obtain ⟨us', c, rfl⟩ := (List.eq_nil_or_concat us).resolve_left hne
  have hc := hall c (by simp)
  have hlast := List.rdropWhile_last_not isSpace cs (fun hnil => by
    rw [trimEndChars_eq, hnil] at heq
    simp at heq)
  simp only [← trimEndChars_eq, ← heq] at hlast
  simp [hc] at hlast

/-- An argument on one line is found without the white space behind it. -/
theorem word_of_not_mem (h : '\n' ∉ trimEndChars cs) :
    word gs cs = some ((2, trimEndChars cs) :: gs) := by
  obtain ⟨sp, hsp, heq⟩ := exists_blank_append cs
  rw [word, run_group, run]
  generalize hk : (fun rest => final ((2, cs.take (cs.length - rest.length)) :: gs) rest) = k
  have hcalls (rest : List Char) :
      k rest = final ((2, cs.take (cs.length - rest.length)) :: gs) rest := hk ▸ rfl
  have hfew : runFew (· ≠ '\n') k (trimEndChars cs ++ sp) = k sp := by
    refine runFew_eq (fun u hu => ?_) (fun vs hvs hsuffix => ?_) (.inl ?_)
    · exact decide_eq_true fun hline => h (hline ▸ hu)
    · rw [hcalls]
      exact final_eq_none (not_blank_of_suffix hvs hsuffix)
    · rw [hcalls, final_of_blank hsp]
      exact Option.some_ne_none _
  have htake : cs.take (cs.length - sp.length) = trimEndChars cs := by
    have hlength : cs.length - sp.length = (trimEndChars cs).length := by
      rw [congrArg List.length heq, List.length_append, Nat.add_sub_cancel]
    rw [hlength]
    exact (congrArg (List.take _) heq).trans List.take_left
  rw [← heq] at hfew
  rw [hfew, hcalls, final_of_blank hsp, htake]

/-- An argument is never on several lines. -/
theorem word_of_mem (h : '\n' ∈ trimEndChars cs) : word gs cs = none := by
  obtain ⟨sp, -, heq⟩ := exists_blank_append cs
  obtain ⟨us, ds, hsplit, hus⟩ := List.eq_append_cons_of_mem h
  rw [word, run_group, run]
  generalize hk : (fun rest => final ((2, cs.take (cs.length - rest.length)) :: gs) rest) = k
  have hcalls {vs : List Char} (hne : vs ≠ []) (hsuffix : vs <:+ trimEndChars cs) :
      k (vs ++ sp) = none := by
    rw [← hk]
    exact final_eq_none (not_blank_of_suffix hne hsuffix)
  have hline : '\n' :: ds <:+ trimEndChars cs := ⟨us, hsplit.symm⟩
  have hfew : runFew (· ≠ '\n') k (us ++ ('\n' :: ds ++ sp)) = k ('\n' :: ds ++ sp) := by
    refine runFew_eq (fun u hu => ?_) (fun vs hvs hsuffix => ?_) (.inr ⟨_, _, rfl, by decide⟩)
    · exact decide_eq_true fun heq => hus (heq ▸ hu)
    · obtain ⟨front, rfl⟩ := hsuffix
      rw [← List.append_assoc]
      refine hcalls (List.append_ne_nil_of_left_ne_nil hvs _) ⟨front, ?_⟩
      rw [hsplit, List.append_assoc]
  rw [← List.append_assoc, ← hsplit, ← heq] at hfew
  rw [hfew, hcalls (List.cons_ne_nil _ _) hline]

theorem word_eq_none_iff : word gs cs = none ↔ '\n' ∈ trimEndChars cs := by
  refine ⟨fun h => ?_, word_of_mem⟩
  by_contra hline
  rw [word_of_not_mem hline] at h
  cases h

/-- What stands behind the name. -/
def behind (gs : Groups) (cs : List Char) : Option Groups :=
  (opt (seq (oneOrMore isSpace) (group 2 (few (· ≠ '\n'))))).run final gs cs

/-- The argument is looked for behind all of the white space: with less of it taken, what is left
has the same line ends. -/
theorem runMany_word (t : List Char) : runMany isSpace (word gs) t = word gs (trimStartChars t) := by
  refine runMany_eq fun hnone us _ _ => ?_
  have hline := word_eq_none_iff.1 hnone
  rw [word_eq_none_iff, trimEndChars_append us (List.ne_nil_of_mem hline)]
  exact List.mem_append_right us hline

theorem behind_nil : behind gs [] = some gs := rfl

theorem behind_cons_of_not {c : Char} (h : isSpace c = false) : behind gs (c :: t) = none := by
  rw [behind, run_opt, run, run_oneOrMore_eq_none (by simpa using h)]
  exact final_eq_none fun hall => by simp [hall c List.mem_cons_self] at h

theorem behind_cons {c : Char} (h : isSpace c = true) :
    behind gs (c :: t)
      = if '\n' ∈ trimChars t then none else some ((2, trimChars t) :: gs) := by
  have hword : (seq (oneOrMore isSpace) (group 2 (few (· ≠ '\n')))).run final gs (c :: t)
      = word gs (trimStartChars t) := by
    rw [run, run_oneOrMore_cons h]
    exact runMany_word t
  rw [behind, run_opt, hword]
  split
  next hline =>
    rw [word_of_mem hline]
    refine final_eq_none fun hall => ?_
    have hblank : Blank (trimStartChars t) := fun d hd =>
      hall d (List.mem_cons_of_mem c ((List.dropWhile_suffix _).subset hd))
    rw [trimChars, trimEndChars_eq_nil_iff.2 hblank] at hline
    cases hline
  next hline =>
    rw [word_of_not_mem hline]
    rfl

/-- The names, as the expression looks for them. -/
def names : Text.Regex :=
  group 1 (either (text verb.name.toList) (text middleware.name.toList))

theorem run_names_append (k : Groups → List Char → Option Groups) (d : Directive) :
    names.run k gs (d.name.toList ++ t) = k ((1, d.name.toList) :: gs) t := by
  have htake : (d.name.toList ++ t).take ((d.name.toList ++ t).length - t.length)
      = d.name.toList := by
    rw [List.length_append, Nat.add_sub_cancel, List.take_left]
  rw [names, run_group, run]
  cases d with
  | verb =>
    rw [run_text_append, run_text_eq_none, htake]
    · cases k ((1, verb.name.toList) :: gs) t <;> rfl
    · rintro ⟨rest, hrest⟩
      simp [name] at hrest
  | middleware =>
    rw [run_text_append, run_text_eq_none, htake]
    · rfl
    · rintro ⟨rest, hrest⟩
      simp [name] at hrest

theorem run_names_eq_none {k : Groups → List Char → Option Groups}
    (h : ∀ d : Directive, ¬ d.name.toList <+: cs) : names.run k gs cs = none := by
  rw [names, run_group, run, run_text_eq_none (h .verb), run_text_eq_none (h .middleware)]
  rfl

/-- The names begin with no white space. -/
theorem not_prefix_of_isSpace {c : Char} (h : isSpace c = true) (d : Directive) :
    ¬ d.name.toList <+: c :: t := by
  rintro ⟨rest, hrest⟩
  cases d <;>
  · obtain ⟨rfl, -⟩ : '@' = c ∧ _ := by simpa [name] using hrest
    cases h

theorem groups?_regex (cs : List Char) :
    regex.groups? cs = names.run behind [] (trimStartChars cs) := by
  refine runMany_eq fun _ us hus hsuffix => ?_
  obtain ⟨u, us, rfl⟩ := List.exists_cons_of_ne_nil hus
  exact run_names_eq_none
    (not_prefix_of_isSpace (blank_takeWhile cs u (hsuffix.subset List.mem_cons_self)))

/-! ## The directive in a line -/

theorem ofName?_name (d : Directive) : ofName? d.name.toList = some d := by
  cases d <;> rfl

theorem read_of_append {line : String} {d : Directive}
    (h : trimStartChars line.toList = d.name.toList ++ t) :
    read line = (behind [(1, d.name.toList)] t).bind fun groups =>
      ((groups.lookup 1).bind ofName?).map fun d =>
        (d, String.ofList ((groups.lookup 2).getD [])) := by
  rw [read, groups?_regex, h, run_names_append]

/-- The first word of the line is the name, and what is behind it is blank, or white space and an
argument on one line. -/
def Begins (d : Directive) (line argument : String) : Prop :=
  ∃ tail, trimStartChars line.toList = d.name.toList ++ tail ∧
    (tail = [] ∧ argument = "" ∨
      ∃ c t, tail = c :: t ∧ isSpace c = true ∧ '\n' ∉ trimChars t ∧ argument.toList = trimChars t)

theorem read_eq_some_iff_begins (line : String) (d : Directive) (argument : String) :
    read line = some (d, argument) ↔ d.Begins line argument := by
  constructor
  · intro h
    by_cases hname : ∃ e : Directive, e.name.toList <+: trimStartChars line.toList
    · obtain ⟨e, tail, htail⟩ := hname
      rw [read_of_append htail.symm] at h
      rcases tail with _ | ⟨c, t⟩
      · obtain ⟨rfl, rfl⟩ : e = d ∧ "" = argument := by
          simpa [behind_nil, ofName?_name, List.lookup_cons] using h
        exact ⟨[], htail.symm, .inl ⟨rfl, rfl⟩⟩
      · cases hc : isSpace c with
        | false =>
          rw [behind_cons_of_not hc] at h
          cases h
        | true =>
          rw [behind_cons hc] at h
          split at h
          · cases h
          next hline =>
            obtain ⟨rfl, rfl⟩ : e = d ∧ String.ofList (trimChars t) = argument := by
              simpa [ofName?_name, List.lookup_cons] using h
            exact ⟨c :: t, htail.symm, .inr ⟨c, t, rfl, hc, hline, String.toList_ofList⟩⟩
    · rw [read, groups?_regex, run_names_eq_none fun e he => hname ⟨e, he⟩] at h
      cases h
  · rintro ⟨tail, htail, ⟨rfl, rfl⟩ | ⟨c, t, rfl, hc, hline, harg⟩⟩
    · rw [read_of_append htail, behind_nil]
      simp [ofName?_name, List.lookup_cons]
    · rw [read_of_append htail, behind_cons hc, if_neg hline, ← harg]
      simp [ofName?_name, List.lookup_cons]

theorem trimEndChars_name (d : Directive) : trimEndChars d.name.toList = d.name.toList := by
  cases d <;> decide

theorem trim_toList (s : String) : (trim s).toList = trimChars s.toList := String.toList_ofList

variable {d : Directive} {line argument : String}

/-- White space is between the name and an argument that is not blank. -/
theorem Begins.gives (h : d.Begins line argument) : d.Gives line argument := by
  obtain ⟨tail, htail, ⟨rfl, rfl⟩ | ⟨c, t, rfl, hc, hline, harg⟩⟩ := h
  · refine .inl ⟨?_, rfl⟩
    rw [← String.toList_inj, trim_toList, trimChars, htail, List.append_nil, trimEndChars_name]
  · have hsplit : d.name.toList ++ c :: t
        = d.name.toList ++ (c :: t.takeWhile isSpace) ++ trimStartChars t := by
      rw [List.append_assoc, List.cons_append, trimStartChars, List.takeWhile_append_dropWhile]
    have hgap : Blank (c :: t.takeWhile isSpace) :=
      List.forall_mem_cons.2 ⟨hc, blank_takeWhile t⟩
    by_cases hnil : trimChars t = []
    · refine .inl ⟨?_, by rw [← String.toList_eq_nil_iff, harg, hnil]⟩
      rw [← String.toList_inj, trim_toList, trimChars, htail, hsplit,
        trimEndChars_append_blank (trimEndChars_eq_nil_iff.1 hnil),
        trimEndChars_append_blank hgap, trimEndChars_name]
    · refine .inr ⟨String.ofList (c :: t.takeWhile isSpace), by simp, ?_, ?_, ?_, ?_, ?_⟩
      · rwa [String.toList_ofList]
      · rwa [Ne, ← String.toList_eq_nil_iff, harg]
      · rw [← String.toList_inj, trim_toList, harg, trimChars_trimChars]
      · rwa [harg]
      · rw [← String.toList_inj, trim_toList, trimChars, htail, hsplit,
          trimEndChars_append _ hnil, String.toList_append, String.toList_append,
          String.toList_ofList, harg]
        rfl

theorem begins_of_trim_eq (h : trim line = d.name) : d.Begins line "" := by
  obtain ⟨sp, hsp, hline⟩ := exists_blank_append (trimStartChars line.toList)
  have hname : trimEndChars (trimStartChars line.toList) = d.name.toList := by
    rw [← h, trim_toList, trimChars]
  rw [hname] at hline
  refine ⟨sp, hline, ?_⟩
  rcases sp with _ | ⟨c, t⟩
  · exact .inl ⟨rfl, rfl⟩
  · obtain ⟨hc, ht⟩ := List.forall_mem_cons.1 hsp
    have hblank : trimChars t = [] := by
      rw [trimChars, trimStartChars, List.dropWhile_eq_nil_iff.2 ht]
      rfl
    exact .inr ⟨c, t, rfl, hc, by simp [hblank], by simp [hblank]⟩

theorem begins_of_trim_eq_append {gap : String} (hne : gap ≠ "") (hgap : Blank gap.toList)
    (hnil : argument ≠ "") (htrim : trim argument = argument) (hfeed : '\n' ∉ argument.toList)
    (h : trim line = d.name ++ gap ++ argument) : d.Begins line argument := by
  obtain ⟨sp, hsp, hline⟩ := exists_blank_append (trimStartChars line.toList)
  have hchars : trimEndChars (trimStartChars line.toList)
      = d.name.toList ++ gap.toList ++ argument.toList := by
    rw [← trimChars, ← trim_toList, h, String.toList_append, String.toList_append]
  rw [hchars, List.append_assoc, List.append_assoc] at hline
  have harg : trimChars argument.toList = argument.toList := by rw [← trim_toList, htrim]
  have hstart := trimStartChars_append_of_ne_nil (mt String.toList_eq_nil_iff.1 hnil) harg
  obtain ⟨c, t, hcons⟩ := List.exists_cons_of_ne_nil (mt String.toList_eq_nil_iff.1 hne)
  rw [hcons] at hgap hline
  obtain ⟨hc, ht⟩ := List.forall_mem_cons.1 hgap
  have hrest : trimChars (t ++ (argument.toList ++ sp)) = argument.toList := by
    rw [trimChars, trimStartChars_append_blank ht, hstart sp, trimEndChars_append_blank hsp]
    have hself := hstart []
    rw [List.append_nil] at hself
    rwa [trimChars, hself] at harg
  exact ⟨_, hline, .inr ⟨c, t ++ (argument.toList ++ sp), rfl, hc, by rwa [hrest], hrest.symm⟩⟩

/-- The regular expression finds the directives. -/
theorem read_eq_some_iff : read line = some (d, argument) ↔ d.Gives line argument := by
  rw [read_eq_some_iff_begins]
  refine ⟨Begins.gives, ?_⟩
  rintro (⟨hname, rfl⟩ | ⟨gap, hne, hgap, hnil, htrim, hfeed, heq⟩)
  · exact begins_of_trim_eq hname
  · exact begins_of_trim_eq_append hne hgap hnil htrim hfeed heq

theorem read_eq_none_iff :
    read line = none ↔ ∀ (d : Directive) argument, ¬ d.Gives line argument := by
  rw [Option.eq_none_iff_forall_ne_some]
  refine ⟨fun h d argument hgives => h _ (read_eq_some_iff.2 hgives), fun h x hx => ?_⟩
  exact h x.1 x.2 (read_eq_some_iff.1 hx)

theorem Gives.unique {e : Directive} {other : String} (h : d.Gives line argument)
    (h' : e.Gives line other) : d = e ∧ argument = other := by
  have heq := (read_eq_some_iff.2 h).symm.trans (read_eq_some_iff.2 h')
  exact ⟨congrArg Prod.fst (Option.some.inj heq), congrArg Prod.snd (Option.some.inj heq)⟩

/-! ## The last directive with a name -/

/-- The last of the lines with the directive has that argument. -/
def LastGives (d : Directive) (lines : List String) (argument : String) : Prop :=
  ∃ before line after, lines = before ++ line :: after ∧ d.Gives line argument ∧
    ∀ l ∈ after, ∀ other, ¬ d.Gives l other

variable {lines more : List String}

theorem not_lastGives_nil : ¬ d.LastGives [] argument := by
  rintro ⟨before, line, after, heq, -⟩
  simp at heq

/-- The last directive is in the later lines if there is one. -/
theorem lastGives_append : d.LastGives (lines ++ more) argument ↔
    d.LastGives more argument ∨
      (∀ l ∈ more, ∀ other, ¬ d.Gives l other) ∧ d.LastGives lines argument := by
  constructor
  · rintro ⟨before, line, after, heq, hline, hafter⟩
    rcases List.append_eq_append_iff.1 heq with ⟨front, rfl, hmore⟩ | ⟨back, rfl, hback⟩
    · exact .inl ⟨front, line, after, hmore, hline, hafter⟩
    · rcases back with _ | ⟨l, back⟩
      · exact .inl ⟨[], line, after, hback.symm, hline, hafter⟩
      · obtain ⟨rfl, rfl⟩ := List.cons.inj hback
        exact .inr ⟨fun l hl => hafter l (List.mem_append_right back hl),
          before, line, back, rfl, hline, fun l hl => hafter l (List.mem_append_left more hl)⟩
  · rintro (⟨before, line, after, rfl, hline, hafter⟩ |
      ⟨hmore, before, line, after, rfl, hline, hafter⟩)
    · exact ⟨lines ++ before, line, after, by rw [List.append_assoc], hline, hafter⟩
    · refine ⟨before, line, after ++ more, by simp, hline, fun l hl => ?_⟩
      exact (List.mem_append.1 hl).elim (hafter l) (hmore l)

theorem lastGives_singleton : d.LastGives [line] argument ↔ d.Gives line argument := by
  constructor
  · rintro ⟨before, l, after, heq, hl, -⟩
    rcases before with _ | ⟨b, before⟩
    · obtain ⟨rfl, -⟩ := List.cons.inj heq
      exact hl
    · simp at heq
  · exact fun h => ⟨[], line, [], rfl, h, nofun⟩

theorem exists_lastGives (hline : line ∈ lines) (h : d.Gives line argument) :
    ∃ other, d.LastGives lines other := by
  induction lines using List.reverseRecOn with
  | nil => cases hline
  | append_singleton lines l ih =>
    by_cases hl : ∃ other, d.Gives l other
    · obtain ⟨other, hother⟩ := hl
      exact ⟨other, lastGives_append.2 (.inl (lastGives_singleton.2 hother))⟩
    · have hlines : line ∈ lines := (List.mem_append.1 hline).resolve_right fun hmem =>
        hl ⟨argument, List.mem_singleton.1 hmem ▸ h⟩
      obtain ⟨other, hother⟩ := ih hlines
      refine ⟨other, lastGives_append.2 (.inr ⟨fun k hk o ho => ?_, hother⟩)⟩
      exact hl ⟨o, List.mem_singleton.1 hk ▸ ho⟩

/-- Of lines that are no directives the last directive does not depend. -/
theorem lastGives_append_of_forall_not (h : ∀ l ∈ more, ∀ other, ¬ d.Gives l other) :
    d.LastGives (lines ++ more) argument ↔ d.LastGives lines argument := by
  rw [lastGives_append]
  refine ⟨fun hor => hor.elim (fun hlast => ?_) And.right, fun hlast => .inr ⟨h, hlast⟩⟩
  obtain ⟨before, line, after, rfl, hline, -⟩ := hlast
  exact absurd hline (h line (by simp) argument)

theorem lastGives_concat (h : d.Gives line argument) {other : String} :
    d.LastGives (lines ++ [line]) other ↔ other = argument := by
  rw [lastGives_append, lastGives_singleton]
  constructor
  · rintro (hother | ⟨hnot, -⟩)
    · exact (hother.unique h).2
    · exact absurd h (hnot line (List.mem_singleton_self line) argument)
  · rintro rfl
    exact .inl h

end Directive

namespace Annotations

open Directive (LastGives)

variable {lines more : List String}

/-- The annotations are those of the last directives among the lines, where their arguments are not
blank. -/
structure SetBy (lines : List String) (a : Annotations) : Prop where
  verb (v : String) : a.verb = some v ↔
    ∃ argument, LastGives .verb lines argument ∧ argument ≠ "" ∧ v = uppercase argument
  middlewares (names : List String) : a.middlewares = some names ↔
    ∃ argument, LastGives .middleware lines argument ∧ ¬ Blank argument.toList ∧
      names = words argument

theorem setBy_empty : empty.SetBy [] where
  verb v := by simp [empty, Directive.not_lastGives_nil]
  middlewares names := by simp [empty, Directive.not_lastGives_nil]

theorem ofLines_concat (lines : List String) (line : String) :
    ofLines (lines ++ [line])
      = (Directive.read line).elim (ofLines lines) fun x => (ofLines lines).set x.1 x.2 := by
  rw [ofLines, List.filterMap_append, List.foldl_append, ← ofLines]
  cases h : Directive.read line <;> simp [h]

theorem SetBy.keep {a : Annotations} {line : String} (h : a.SetBy lines)
    (hnot : ∀ (d : Directive) argument, ¬ d.Gives line argument) : a.SetBy (lines ++ [line]) := by
  have hkeep (d : Directive) (argument : String) :
      d.LastGives (lines ++ [line]) argument ↔ d.LastGives lines argument :=
    Directive.lastGives_append_of_forall_not fun l hl => List.mem_singleton.1 hl ▸ hnot d
  exact ⟨fun v => by simpa only [hkeep] using h.verb v,
    fun names => by simpa only [hkeep] using h.middlewares names⟩

/-- A directive sets its own and keeps the other. -/
theorem SetBy.set {a : Annotations} {line argument : String} {d : Directive} (h : a.SetBy lines)
    (hgives : d.Gives line argument) : (a.set d argument).SetBy (lines ++ [line]) := by
  have hkeep {e : Directive} (hne : e ≠ d) (other : String) :
      e.LastGives (lines ++ [line]) other ↔ e.LastGives lines other :=
    Directive.lastGives_append_of_forall_not fun l hl _ he =>
      hne (hgives.unique (List.mem_singleton.1 hl ▸ he)).1.symm
  cases d with
  | verb =>
    refine ⟨fun v => ?_, fun names => ?_⟩
    · simp only [Directive.lastGives_concat hgives, exists_eq_left]
      simp only [Annotations.set, Option.filter_eq_some_iff, Option.some.injEq, decide_eq_true_eq]
      refine ⟨?_, fun ⟨hne, hv⟩ => ⟨hv.symm, ?_⟩⟩
      · rintro ⟨rfl, hne⟩
        exact ⟨mt (uppercase_eq_empty_iff argument).2 hne, rfl⟩
      · rwa [hv, Ne, uppercase_eq_empty_iff]
    · have hne : Directive.middleware ≠ .verb := by decide
      simp only [hkeep hne]
      exact h.middlewares names
  | middleware =>
    refine ⟨fun v => ?_, fun names => ?_⟩
    · have hne : Directive.verb ≠ .middleware := by decide
      simp only [hkeep hne]
      exact h.verb v
    · simp only [Directive.lastGives_concat hgives, exists_eq_left, ← words_eq_nil_iff]
      simp only [Annotations.set, Option.filter_eq_some_iff, Option.some.injEq, decide_eq_true_eq]
      refine ⟨?_, fun ⟨hne, hv⟩ => ⟨hv.symm, hv ▸ hne⟩⟩
      rintro ⟨rfl, hne⟩
      exact ⟨hne, rfl⟩

theorem setBy_ofLines (lines : List String) : (ofLines lines).SetBy lines := by
  induction lines using List.reverseRecOn with
  | nil => exact setBy_empty
  | append_singleton lines line ih =>
    rw [ofLines_concat]
    cases hread : Directive.read line with
    | none => exact ih.keep (Directive.read_eq_none_iff.1 hread)
    | some x => exact ih.set (Directive.read_eq_some_iff.1 hread)

theorem SetBy.verb_congr {a b : Annotations} (ha : a.SetBy lines) (hb : b.SetBy more)
    (h : ∀ argument, LastGives .verb lines argument ↔ LastGives .verb more argument) :
    a.verb = b.verb :=
  Option.ext fun v => by rw [ha.verb, hb.verb]; simp only [h]

theorem SetBy.middlewares_congr {a b : Annotations} (ha : a.SetBy lines) (hb : b.SetBy more)
    (h : ∀ argument, LastGives .middleware lines argument ↔ LastGives .middleware more argument) :
    a.middlewares = b.middlewares :=
  Option.ext fun names => by rw [ha.middlewares, hb.middlewares]; simp only [h]

theorem lastGives_append_of_exists {d : Directive}
    (h : ∃ line ∈ more, ∃ argument, d.Gives line argument) (argument : String) :
    LastGives d (lines ++ more) argument ↔ LastGives d more argument := by
  obtain ⟨line, hline, other, hother⟩ := h
  rw [Directive.lastGives_append]
  exact ⟨fun hor => hor.resolve_right fun hnot => hnot.1 line hline other hother, .inl⟩

/-- What the lines of a comment set. Lines that are no directives make no difference, and later
lines replace what the lines before them set just where they have a directive. -/
theorem setBy_ofDoc (lines more : List String) :
    (ofDoc (some ⟨lines⟩)).SetBy lines ∧
    (∀ line, (∀ (d : Directive) argument, ¬ d.Gives line argument) →
      ofDoc (some ⟨lines ++ line :: more⟩) = ofDoc (some ⟨lines ++ more⟩)) ∧
    ((∃ line ∈ more, ∃ argument, Directive.verb.Gives line argument) →
      (ofDoc (some ⟨lines ++ more⟩)).verb = (ofDoc (some ⟨more⟩)).verb) ∧
    ((∀ line ∈ more, ∀ argument, ¬ Directive.verb.Gives line argument) →
      (ofDoc (some ⟨lines ++ more⟩)).verb = (ofDoc (some ⟨lines⟩)).verb) ∧
    ((∃ line ∈ more, ∃ argument, Directive.middleware.Gives line argument) →
      (ofDoc (some ⟨lines ++ more⟩)).middlewares = (ofDoc (some ⟨more⟩)).middlewares) ∧
    ((∀ line ∈ more, ∀ argument, ¬ Directive.middleware.Gives line argument) →
      (ofDoc (some ⟨lines ++ more⟩)).middlewares = (ofDoc (some ⟨lines⟩)).middlewares) ∧
    (ofDoc (some ⟨lines⟩)).middlewares ≠ some [] := by
  have hall := setBy_ofLines (lines ++ more)
  refine ⟨setBy_ofLines lines, fun line hline => ?_, fun h => ?_, fun h => ?_, fun h => ?_,
    fun h => ?_, fun hnil => ?_⟩
  · show ofLines _ = ofLines _
    rw [ofLines, List.filterMap_append,
      List.filterMap_cons_none (Directive.read_eq_none_iff.2 hline), ← List.filterMap_append,
      ← ofLines]
  · exact hall.verb_congr (setBy_ofLines more) (lastGives_append_of_exists h)
  · exact hall.verb_congr (setBy_ofLines lines)
      fun _ => Directive.lastGives_append_of_forall_not h
  · exact hall.middlewares_congr (setBy_ofLines more) (lastGives_append_of_exists h)
  · exact hall.middlewares_congr (setBy_ofLines lines)
      fun _ => Directive.lastGives_append_of_forall_not h
  · obtain ⟨argument, -, hblank, hwords⟩ := ((setBy_ofLines lines).middlewares []).1 hnil
    exact hblank ((words_eq_nil_iff argument).1 hwords.symm)

/-- A blank directive takes the verb back and keeps the middlewares. -/
theorem setBy_blankVerb :
    (ofDoc (some ⟨["Gets it.", "@http_method get", "@middleware A B"]⟩)).verb = some "GET" ∧
    (ofDoc (some ⟨["Gets it.", "@http_method get", "@middleware A B"] ++ ["@http_method "]⟩)).verb
      = none ∧
    (ofDoc (some ⟨["Gets it.", "@http_method get", "@middleware A B"]
      ++ ["@http_method "]⟩)).middlewares = some ["A", "B"] := by
  obtain ⟨-, -, hverb, -, -, hmiddlewares, -⟩ :=
    setBy_ofDoc ["Gets it.", "@http_method get", "@middleware A B"] ["@http_method "]
  have hblank : Directive.verb.Gives "@http_method " "" := .inl ⟨by decide, rfl⟩
  have hmiddleware (argument : String) : ¬ Directive.middleware.Gives "@http_method " argument :=
    fun h => absurd (hblank.unique h).1 (by decide)
  refine ⟨by decide, ?_, ?_⟩
  · rw [hverb ⟨_, List.mem_singleton_self _, "", hblank⟩]
    decide
  · rw [hmiddlewares fun line hline => List.mem_singleton.1 hline ▸ hmiddleware]
    decide

end Annotations
end Routing
end RouteScribe
