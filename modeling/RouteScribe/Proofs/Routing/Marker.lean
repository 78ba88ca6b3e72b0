import RouteScribe.Proofs.Routing.Generation

/-!
# RouteScribe.Proofs.Routing.Marker

What the directive for controllers changes. A type whose name has the usual end is a controller with
and without it, and the name is part of the key of a route, so what the directive adds never has the
key of a route that was there.

* `contributions_conventional`: the contributions without the directive are those with it whose
  type has the usual name.
* `Adds`: what an analysis has that another has not.
* `adds_of_marked`: the directive adds to every analysis that succeeds, and changes nothing else.
-/

namespace RouteScribe
namespace Routing

/-! ## Lines that mark a controller -/

/-- White space, the directive, and the end of the line or more white space. -/
def MarksController (line : String) : Prop :=
  ∃ front rest, line.toList = front ++ "@controller".toList ++ rest ∧
    (∀ c ∈ front, Unicode.isSpace c = true) ∧ ∀ c ∈ rest.head?, Unicode.isSpace c = true

theorem isMarker_iff {line : String} : Matcher.isMarker line = true ↔
    ∃ rest, Unicode.trimStartChars line.toList = Matcher.directive.toList ++ rest ∧
      ∀ c ∈ rest.head?, Unicode.isSpace c = true := by
  rw [Matcher.isMarker, Bool.and_eq_true, List.isPrefixOf_iff_prefix]
  constructor
  · rintro ⟨⟨rest, hrest⟩, hbreak⟩
    refine ⟨rest, hrest.symm, ?_⟩
    rw [← hrest, show Matcher.directive.length = Matcher.directive.toList.length from rfl,
      List.drop_left, Option.all_eq_true] at hbreak
    exact hbreak
  · rintro ⟨rest, hrest, hbreak⟩
    refine ⟨⟨rest, hrest.symm⟩, ?_⟩
    rw [hrest, show Matcher.directive.length = Matcher.directive.toList.length from rfl,
      List.drop_left, Option.all_eq_true]
    exact hbreak

theorem marksController_of_isMarker {line : String} (h : Matcher.isMarker line = true) :
    MarksController line := by
  obtain ⟨rest, hrest, hbreak⟩ := isMarker_iff.1 h
  refine ⟨line.toList.takeWhile Unicode.isSpace, rest, ?_, fun c hc => ?_, hbreak⟩
  · calc
      line.toList = line.toList.takeWhile Unicode.isSpace ++ Unicode.trimStartChars line.toList :=
        List.takeWhile_append_dropWhile.symm
      _ = _ := by rw [hrest, ← List.append_assoc]; rfl
  · exact List.all_eq_true.1 List.all_takeWhile c hc

/-- The name of the type ends as those of controllers do. -/
def HasControllerName (decl : Go.TypeDecl) : Prop := "Controller".toList <:+ decl.name.toList

instance (decl : Go.TypeDecl) : Decidable (HasControllerName decl) :=
  inferInstanceAs (Decidable (_ <:+ _))

theorem accepts_conventional (decl : Go.TypeDecl) :
    Matcher.accepts decl .conventional = decide (HasControllerName decl) := by
  rw [Bool.eq_iff_iff, decide_eq_true_iff]
  exact Matcher.accepts_suffix_iff

theorem accepts_matcher (decl : Go.TypeDecl) : Matcher.accepts decl (Analysis.matcher true)
    = (decide (HasControllerName decl) || Matcher.accepts decl .marker) := by
  simp [Analysis.matcher, Matcher.accepts, Matcher.anyAccepts, accepts_conventional]

theorem exists_line_of_accepts_marker {decl : Go.TypeDecl}
    (h : Matcher.accepts decl .marker = true) :
    ∃ doc, decl.doc = some doc ∧ ∃ line ∈ doc.lines, MarksController line := by
  rw [Matcher.accepts] at h
  cases hdoc : decl.doc with
  | none => simp [hdoc] at h
  | some doc =>
    simp only [hdoc, Option.map_some, Option.getD_some, List.any_eq_true] at h
    obtain ⟨line, hline, hmarker⟩ := h
    exact ⟨doc, rfl, line, hline, marksController_of_isMarker hmarker⟩

/-! ## What is accepted and contributed -/

variable {project : Project} {t : Files.Tree} {files : List ParsedFile} {key : String}

theorem accepted_conventional (files : List ParsedFile) : accepted .conventional files
    = (accepted (Analysis.matcher true) files).filter fun d => decide (HasControllerName d.type) := by
  simp only [accepted, List.filter_flatMap, List.filter_map, List.filter_filter]
  congr
  funext f
  congr 2
  funext decl
  rw [accepts_conventional, Function.comp_apply, accepts_matcher]
  cases decide (HasControllerName decl) <;> rfl

theorem contributions_conventional (files : List ParsedFile) : contributions .conventional files
    = (contributions (Analysis.matcher true) files).filter
      fun c => decide (HasControllerName c.type.type) := by
  rw [contributions, accepted_conventional, contributions, List.filter_flatMap]
  induction accepted (Analysis.matcher true) files with
  | nil => rfl
  | cons d ds ih =>
    rw [List.filter_cons, List.flatMap_cons, List.filter_map]
    by_cases h : HasControllerName d.type <;> simp [h, ih, Function.comp_def]

theorem mem_contributions {m : Matcher} {c : Contribution} : c ∈ contributions m files ↔
    c.type.file ∈ files ∧ c.type.type ∈ c.type.file.source.types ∧
      Matcher.accepts c.type.type m = true ∧ c.method ∈ c.type.file.source.funcs ∧
      c.method.receiver = some c.type.type.name := by
  simp only [contributions, accepted, List.mem_flatMap, List.mem_map, List.mem_filter,
    decide_eq_true_eq]
  constructor
  · rintro ⟨d, ⟨f, hf, decl, ⟨hdecl, haccepts⟩, rfl⟩, method, ⟨hmethod, hreceiver⟩, rfl⟩
    exact ⟨hf, hdecl, haccepts, hmethod, hreceiver⟩
  · rintro ⟨hf, hdecl, haccepts, hmethod, hreceiver⟩
    exact ⟨c.type, ⟨c.type.file, hf, c.type.type, ⟨hdecl, haccepts⟩, rfl⟩, c.method,
      ⟨hmethod, hreceiver⟩, rfl⟩

theorem mem_of_lastContribution? {cs : List Contribution} {c : Contribution}
    (h : lastContribution? project t cs key = some c) :
    c ∈ cs ∧ (c.key project t).text = key := by
  have hkey := List.find?_some h
  exact ⟨List.mem_reverse.1 (List.mem_of_find?_eq_some h), of_decide_eq_true hkey⟩

/-- If contributions with one key agree on `P`, the last of them with that key is the last of those
that satisfy `P`, or none of them does. -/
theorem lastContribution?_filter {cs : List Contribution} {P : Contribution → Bool}
    {c : Contribution} (hlast : lastContribution? project t cs key = some c)
    (hagree : ∀ d ∈ cs, (d.key project t).text = key → P d = P c) :
    lastContribution? project t (cs.filter P) key = if P c then some c else none := by
  let withKey : Contribution → Bool := fun d => decide ((d.key project t).text = key)
  have hlast' : (cs.reverse.filter withKey).head? = some c := List.head?_filter.trans hlast
  have hall : ∀ d ∈ cs.reverse.filter withKey, P d = P c := by
    intro d hd
    obtain ⟨hd, hkey⟩ := List.mem_filter.1 hd
    exact hagree d (List.mem_reverse.1 hd) (of_decide_eq_true hkey)
  calc
    lastContribution? project t (cs.filter P) key
      = ((cs.reverse.filter P).filter withKey).head? := by
        rw [List.head?_filter, List.filter_reverse]
        rfl
    _ = ((cs.reverse.filter withKey).filter P).head? := by
        simp only [List.filter_filter, Bool.and_comm]
    _ = if P c then some c else none := by
        cases hP : P c with
        | true => rw [List.filter_eq_self.2 fun d hd => (hall d hd).trans hP, hlast', if_pos rfl]
        | false =>
          have hnone : (cs.reverse.filter withKey).filter P = [] :=
            List.filter_eq_nil_iff.2 fun d hd => by simp [hall d hd, hP]
          rw [hnone]
          rfl

namespace Analysis

/-- The analysis `a'` of the same files has all that `a` has; what it has besides comes from types
that are controllers by their comments only. -/
structure Adds (project : Project) (t : Files.Tree) (files : List ParsedFile) (a a' : Analysis) :
    Prop where
  controllers : (a.controllers.map fun c => (c.importPath, c.typeName)).Sublist
    (a'.controllers.map fun c => (c.importPath, c.typeName))
  verbs : ∀ key verb, a.router.verbs.get? key = some verb → a'.router.verbs.get? key = some verb
  middlewares : ∀ key handlers, a.router.middlewares.get? key = some handlers →
    a'.router.middlewares.get? key = some handlers
  added : ∀ key, a.router.verbs.get? key = none ∧ a'.router.verbs.get? key ≠ none ∨
      a.router.middlewares.get? key = none ∧ a'.router.middlewares.get? key ≠ none →
    ∃ f ∈ files, ∃ decl ∈ f.source.types, ∃ method ∈ f.source.methodsOf decl.name,
      key = (RouteKey.mk (Declared.importPath project t ⟨f, decl⟩) decl.name method.name).text ∧
      ¬ HasControllerName decl ∧
      ∃ doc, decl.doc = some doc ∧ ∃ line ∈ doc.lines, MarksController line

variable {a a' : Analysis} {c : Contribution}

/-- The last contribution with a key is the same without the directive, or there is none. -/
theorem lastContribution?_conventional (h : Reads project (matcher true) t files a')
    (hlast : lastContribution? project t (contributions (matcher true) files) key = some c) :
    lastContribution? project t (contributions .conventional files) key
      = if HasControllerName c.type.type then some c else none := by
  obtain ⟨hc, hkey⟩ := mem_of_lastContribution? hlast
  rw [contributions_conventional, lastContribution?_filter hlast]
  · simp
  · intro d hd hdkey
    obtain ⟨-, hname, -⟩ := h.keys d hd c hc (hdkey.trans hkey.symm)
    exact decide_eq_decide.2 (by rw [HasControllerName, HasControllerName, hname])

/-- A key without the directive has the same last contribution with it. -/
theorem lastContribution?_marked (h : Reads project (matcher true) t files a')
    (hlast : lastContribution? project t (contributions .conventional files) key = some c) :
    lastContribution? project t (contributions (matcher true) files) key = some c := by
  obtain ⟨hc, hkey⟩ := mem_of_lastContribution? hlast
  rw [contributions_conventional] at hc
  cases hmarked : lastContribution? project t (contributions (matcher true) files) key with
  | none =>
    have hnot := List.find?_eq_none.1 hmarked c (List.mem_reverse.2 (List.mem_filter.1 hc).1)
    exact absurd (decide_eq_true hkey) hnot
  | some d =>
    rw [lastContribution?_conventional h hmarked] at hlast
    split at hlast
    · exact hlast
    · cases hlast

/-- What is contributed by the directive only comes from a type that has it. -/
theorem of_lastContribution?_none (h : Reads project (matcher true) t files a')
    (hnone : lastContribution? project t (contributions .conventional files) key = none)
    (hlast : lastContribution? project t (contributions (matcher true) files) key = some c) :
    ¬ HasControllerName c.type.type ∧
      ∃ doc, c.type.type.doc = some doc ∧ ∃ line ∈ doc.lines, MarksController line := by
  rw [lastContribution?_conventional h hlast, ite_eq_right_iff] at hnone
  have hname : ¬ HasControllerName c.type.type := fun hname => by cases hnone hname
  obtain ⟨-, -, haccepts, -⟩ := mem_contributions.1 (mem_of_lastContribution? hlast).1
  rw [accepts_matcher, decide_eq_false hname, Bool.false_or] at haccepts
  exact ⟨hname, exists_line_of_accepts_marker haccepts⟩

theorem accepted_sublist (files : List ParsedFile) :
    (accepted .conventional files).Sublist (accepted (matcher true) files) := by
  rw [accepted_conventional]
  exact List.filter_sublist

theorem adds_of_reads (h : Reads project .conventional t files a)
    (h' : Reads project (matcher true) t files a') : Adds project t files a a' where
  controllers := by
    rw [h.controllers, h'.controllers]
    exact (accepted_sublist files).map _
  verbs key verb hverb := by
    rw [h.verbs] at hverb
    obtain ⟨c, hc, rfl⟩ := Option.map_eq_some_iff.1 hverb
    rw [h'.verbs, lastContribution?_marked h' hc]
    rfl
  middlewares key handlers hhandlers := by
    rw [h.middlewares] at hhandlers
    obtain ⟨c, hc, hhandlers⟩ := Option.bind_eq_some_iff.1 hhandlers
    rw [h'.middlewares, lastContribution?_marked h' hc]
    exact hhandlers
  added key hkey := by
    rw [h.verbs, h.middlewares, h'.verbs, h'.middlewares] at hkey
    obtain ⟨hnone, c, hc⟩ : lastContribution? project t (contributions .conventional files) key = none ∧
        ∃ c, lastContribution? project t (contributions (matcher true) files) key = some c := by
      cases hplain : lastContribution? project t (contributions .conventional files) key with
      | none =>
        cases hmarked : lastContribution? project t (contributions (matcher true) files) key with
        | none => simp [hplain, hmarked] at hkey
        | some c => exact ⟨rfl, c, rfl⟩
      | some c =>
        rw [hplain, lastContribution?_marked h' hplain] at hkey
        rcases hkey with ⟨hnone, -⟩ | ⟨hnone, hsome⟩
        · cases hnone
        · exact absurd hnone hsome
    obtain ⟨hmem, hkey⟩ := mem_of_lastContribution? hc
    obtain ⟨hf, hdecl, -, hmethod, hreceiver⟩ := mem_contributions.1 hmem
    obtain ⟨hname, hdoc⟩ := of_lastContribution?_none h' hnone hc
    exact ⟨c.type.file, hf, c.type.type, hdecl, c.method,
      Go.SourceFile.mem_methodsOf.2 ⟨hmethod, hreceiver⟩, hkey.symm, hname, hdoc⟩

/-- If an analysis succeeds without the directive for controllers, it does with it, reads the same
files, and adds. -/
theorem adds_of_marked {dir : String} {s s' : Session} (h : (ofDir project false dir).perform s
      = (.ok a, s')) :
    ∃ files a' s'', ReadFrom s.tree (Scan.run s.tree dir).files files ∧
      (ofDir project true dir).perform s = (.ok a', s'') ∧ s''.tree = s.tree ∧
      a'.fileCount = a.fileCount ∧ Adds project s.tree files a a' := by
  obtain ⟨-, files, hread, rfl⟩ := of_ofDirBy_ok h
  obtain ⟨log, hrun⟩ := perform_ofDirBy_of_readFrom project (matcher true) hread
  exact ⟨files, _, _, hread, hrun, rfl, rfl,
    adds_of_reads (reads_result _ hread) (reads_result _ hread)⟩

/-- A file with a type that has the usual name and one that has the directive. -/
def twoKinds : Files.Tree :=
  ⟨[(["a"], .dir), (["a", "controller"], .dir),
    (["a", "controller", "x.go"],
      .file (some ("package x\n// @controller\ntype A int\ntype BController int\n"
        ++ "func (b BController) Do()\nfunc (a A) Do()\n")) 420)]⟩

theorem adds_twoKinds : ∃ a s' files a' s'',
    (ofDir (.usual "/" "m") false "/a").perform ⟨twoKinds, []⟩ = (.ok a, s') ∧
    a.router.verbs = [("m/a/controller.BController.Do", .post)] ∧
    (ofDir (.usual "/" "m") true "/a").perform ⟨twoKinds, []⟩ = (.ok a', s'') ∧
    Adds (.usual "/" "m") twoKinds files a a' := by
  have h : ((ofDir (.usual "/" "m") false "/a").perform
      ⟨twoKinds, []⟩).1.toOption.map (·.router.verbs)
      = some [("m/a/controller.BController.Do", .post)] := by decide +kernel
  rcases hrun : (ofDir (.usual "/" "m") false "/a").perform ⟨twoKinds, []⟩ with ⟨r, s'⟩
  rw [hrun] at h
  cases r with
  | error e => cases h
  | ok a =>
    obtain ⟨files, a', s'', -, hmarked, -, -, hadds⟩ := adds_of_marked hrun
    exact ⟨a, s', files, a', s'', rfl, Option.some.inj h, hmarked, hadds⟩

end Analysis
end Routing
end RouteScribe
