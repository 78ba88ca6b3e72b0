import Mathlib.Data.List.TakeWhile
import RouteScribe.Proofs.Routing.Addition
import RouteScribe.Proofs.Scaffold.Collection
import RouteScribe.Proofs.Scaffold.Creation
import RouteScribe.Proofs.Scaffold.Declaration
import RouteScribe.Proofs.Scaffold.Identifier

/-!
# RouteScribe.Proofs.Scaffold.Outcome

What a creation that succeeds leaves: one more file, with a controller that has one method for each
action that was asked for.

* `Requests`: what an argument asks for.
* `FirstOfEach`: of actions with one name the first counts.
* `exists_addition`: the file of the controller is one more source file of the command.
-/

namespace RouteScribe
namespace Scaffold

open Files Routing

/-! ## Names -/

/-- The text begins with an ASCII letter. -/
def BeginsWithLetter (s : String) : Prop := s.toList.head?.any Char.isAlpha = true

variable {s : String} {c : Char}

theorem BeginsWithLetter.exists_cons (h : BeginsWithLetter s) :
    ∃ c cs, s.toList = c :: cs ∧ c.isAlpha = true := by
  unfold BeginsWithLetter at h
  cases hs : s.toList with
  | nil =>
    rw [hs] at h
    cases h
  | cons c cs =>
    rw [hs] at h
    exact ⟨c, cs, rfl, h⟩

theorem BeginsWithLetter.start (h : BeginsWithLetter s) :
    s.toList.head?.any Go.isNameStart = true := by
  obtain ⟨c, cs, hcons, hc⟩ := h.exists_cons
  rw [hcons]
  exact isNameStart_of_isAlpha hc

theorem BeginsWithLetter.ne_blank (h : BeginsWithLetter s) : s ≠ "_" := by
  rintro rfl
  cases h

/-! ## Actions -/

/-- The name in an argument, in front of the colon. -/
def requestedName (arg : String) : String := String.ofList (arg.toList.takeWhile (· ≠ ':'))

/-- The argument asks for the action. -/
structure Requests (arg : String) (a : Action) : Prop where
  identifier : isIdentifier (requestedName arg) = true
  name : a.name = capitalize (requestedName arg)
  usual : ':' ∉ arg.toList → a.verb = .post
  verb : ∀ text, arg = requestedName arg ++ ":" ++ text → Verb.ofString? text = some a.verb
  isStandard : a.verb.isStandard = true

variable {arg : String} {args : List String} {a : Action} {actions : List Action}

theorem requests_of_read (h : Action.read arg = .ok a) : Requests arg a := by
  unfold Action.read at h
  extract_lets cs name at h
  have hsplit : cs = cs.takeWhile (· ≠ ':') ++ cs.dropWhile (· ≠ ':') :=
    List.takeWhile_append_dropWhile.symm
  have hbehind : ∀ text, arg = requestedName arg ++ ":" ++ text →
      cs.dropWhile (· ≠ ':') = ':' :: text.toList := by
    intro text harg
    have hcs : cs = name.toList ++ (':' :: text.toList) := by
      have hall := congrArg String.toList harg
      rw [String.toList_append, String.toList_append, List.append_assoc] at hall
      exact hall
    have hname : name.toList = cs.takeWhile (· ≠ ':') := String.toList_ofList
    rw [hname] at hcs
    exact List.append_cancel_left (hsplit.symm.trans hcs)
  split at h
  · cases h
  next hname =>
    have hname : isIdentifier name = true := by simpa using hname
    split at h
    next hnone =>
      cases h
      refine ⟨hname, rfl, fun _ => rfl, fun text harg => ?_, rfl⟩
      rw [hbehind text harg] at hnone
      cases hnone
    next d rest hrest =>
      dsimp only at h
      split at h
      next v hv =>
        cases h
        obtain ⟨hread, hstandard⟩ := Option.filter_eq_some_iff.1 hv
        refine ⟨hname, rfl, fun hcolon => ?_, fun text harg => ?_, hstandard⟩
        · have hall : ∀ c ∈ cs, decide (c ≠ ':') = true := fun c hc =>
            decide_eq_true fun heq => hcolon (heq ▸ hc)
          rw [List.dropWhile_eq_nil_iff.2 hall] at hrest
          cases hrest
        · rw [hbehind text harg] at hrest
          have htext : String.ofList rest = text := by
            rw [← (List.cons.inj hrest).2, String.ofList_toList]
          rw [← htext]
          exact hread
      · cases h

theorem requests_of_readActions (h : readActions args = .ok actions) :
    List.Forall₂ Requests args actions := by
  induction args generalizing actions with
  | nil =>
    cases h
    exact .nil
  | cons arg args ih =>
    unfold readActions at h
    split at h
    · cases h
    next a ha =>
      split at h
      next rest hrest =>
        cases h
        exact .cons (requests_of_read ha) (ih hrest)
      · cases h

theorem exists_request (h : List.Forall₂ Requests args actions) (ha : a ∈ actions) :
    ∃ arg ∈ args, Requests arg a := by
  induction h with
  | nil => cases ha
  | @cons arg b args actions hb _ ih =>
    rcases List.mem_cons.1 ha with rfl | ha
    · exact ⟨arg, List.mem_cons_self, hb⟩
    · obtain ⟨arg', harg', hrequest⟩ := ih ha
      exact ⟨arg', List.mem_cons_of_mem arg harg', hrequest⟩

theorem Requests.isPlain (h : Requests arg a) (hname : IsGoName (requestedName arg)) :
    IsPlain a where
  name := by
    rw [h.name, ← List.append_nil (capitalize _).toList]
    exact hname.isPlainName_capitalize nofun
  verb := by
    have hstandard := h.isStandard
    cases hverb : a.verb with
    | other word =>
      rw [hverb] at hstandard
      cases hstandard
    | _ => exact List.forall_iff_forall_mem.1 (by decide)

/-- These are the actions, of those with one name the first. -/
structure FirstOfEach (actions new : List Action) : Prop where
  nodup : (new.map (·.name)).Nodup
  find?_eq : ∀ name, new.find? (·.name = name) = actions.find? (·.name = name)

variable {source : Go.SourceFile} {typeName : String}

theorem find?_split (source : Go.SourceFile) (typeName name : String) (actions : List Action) :
    ∀ added, (split source typeName added actions).1.find? (·.name = name)
      = if source.hasMethod typeName name || added.contains name then none
        else actions.find? (·.name = name) := by
  induction actions with
  | nil =>
    intro added
    simp [split]
  | cons a actions ih =>
    intro added
    rw [split]
    by_cases hname : a.name = name
    · split
      next hold => rw [ih, ← hname, if_pos hold, if_pos hold]
      next hnew =>
        rw [← hname, if_neg hnew, List.find?_cons_of_pos (by simp),
          List.find?_cons_of_pos (by simp)]
    · have hskip : ∀ as : List Action, (a :: as).find? (·.name = name) = as.find? (·.name = name) :=
        fun as => List.find?_cons_of_neg (by simpa using hname)
      split
      · rw [ih, hskip]
      · have hadded : (added ++ [a.name]).contains name = added.contains name := by
          simp [Ne.symm hname]
        rw [hskip, hskip, ih, hadded]

theorem nodup_split (source : Go.SourceFile) (typeName : String) (actions : List Action) :
    ∀ added, ((split source typeName added actions).1.map (·.name)).Nodup := by
  induction actions with
  | nil => exact fun _ => List.nodup_nil
  | cons a actions ih =>
    intro added
    rw [split]
    split
    · exact ih added
    · refine List.nodup_cons.2 ⟨fun hmem => ?_, ih _⟩
      -- The name counts as added from here on.
      obtain ⟨b, hb, hname⟩ := List.mem_map.1 hmem
      have hnone := find?_split source typeName a.name actions (added ++ [a.name])
      rw [if_pos (by simp)] at hnone
      exact List.find?_eq_none.1 hnone b hb (by simpa using hname)

theorem firstOfEach_split (h : ∀ name, source.hasMethod typeName name = false) :
    FirstOfEach actions (split source typeName [] actions).1 where
  nodup := nodup_split source typeName actions []
  find?_eq name := by
    rw [find?_split, h name]
    rfl

theorem FirstOfEach.mem {new : List Action} (h : FirstOfEach actions new) (ha : a ∈ new) :
    a ∈ actions := by
  have hsome : (new.find? (·.name = a.name)).isSome := List.find?_isSome.2 ⟨a, ha, by simp⟩
  obtain ⟨b, hb⟩ := Option.isSome_iff_exists.1 hsome
  have hname : b.name = a.name := by simpa using List.find?_some hb
  obtain rfl : b = a :=
    List.inj_on_of_nodup_map h.nodup (List.mem_of_find?_eq_some hb) ha hname
  rw [h.find?_eq] at hb
  exact List.mem_of_find?_eq_some hb

/-! ## Files -/

variable {project : Project} {command route name path text : String} {dirs : List String}
  {l : Location} {u u' : Session} {t t' : Tree}

/-- Actions that were added: the methods of those that are new are behind the text of the file. -/
theorem of_writeActions_ok {names : List String}
    (h : (writeActions path typeName actions).perform u = (.ok names, u')) :
    ∃ text source, u.tree.readText path = .ok text ∧ Go.SourceFile.parse text = .ok source ∧
      ((split source typeName [] actions).1 = [] ∧ u'.tree = u.tree ∨
        u.tree.write path ((split source typeName [] actions).1.foldl
          (fun text a => text ++ stub typeName a) text) = (u'.tree, none)) := by
  unfold writeActions at h
  obtain ⟨text, u₁, hread, h⟩ := Work.of_perform_bind_ok h
  rw [Work.perform_readText] at hread
  cases htext : u.tree.readText path with
  | error e =>
    rw [htext] at hread
    cases hread
  | ok old =>
    rw [htext] at hread
    cases hread
    cases hparse : Go.SourceFile.parse text with
    | error e =>
      rw [hparse] at h
      cases h
    | ok source =>
      rw [hparse] at h
      dsimp only at h
      refine ⟨text, source, rfl, hparse, ?_⟩
      generalize (split source typeName [] actions).1 = new at h ⊢
      obtain ⟨_, u₂, hreport, h⟩ := Work.of_perform_bind_ok h
      cases hreport
      cases new with
      | nil =>
        cases h
        exact .inl ⟨rfl, rfl⟩
      | cons a new =>
        rw [if_neg (by simp)] at h
        obtain ⟨_, u₃, hwrite, h⟩ := Work.of_perform_bind_ok h
        cases h
        rw [Work.perform_write] at hwrite
        split at hwrite
        next t hok =>
          cases hwrite
          exact .inr hok
        · cases hwrite

theorem linkless_of_keeps (hkeeps : Tree.Keeps t t')
    (hlinks : ∀ p target, t.get? p ≠ some (.link target)) (p : Place) (target : String) :
    t'.get? p ≠ some (.link target) := fun hlink => hlinks p target (hkeeps.of_get?_link hlink)

theorem linkFree_of_linkless (hlinks : ∀ p target, t.get? p ≠ some (.link target)) (path : String) :
    Analysis.LinkFree t path := fun _ _ _ target _ => hlinks _ target

/-- A controller is written, and then its methods: in the end one file is new. -/
theorem exists_puts_of_create (hw : u.tree.WellFormed)
    (hlinks : ∀ p target, u.tree.get? p ≠ some (.link target))
    (hl : locate project command route = .ok l) (htype : Go.Word.IsPlainName l.typeName.toList)
    (h : (create l actions (controllerText l.typeName)).perform u = (.ok l, u')) :
    ∃ q new, FirstOfEach actions new ∧ u'.tree.place false (Tree.dropSlashes l.path) = .ok q ∧
      Tree.Puts u.tree u'.tree q (controllerWith l.typeName new) ∧
      u'.tree.readText l.path = .ok (controllerWith l.typeName new) := by
  rcases create_cases h with ⟨p, e, -, hr⟩ | ⟨t, hwrite, hactions⟩
  · cases hr
  obtain ⟨q, hplace, hputs⟩ := Tree.exists_puts_of_write hw hlinks hwrite
  obtain ⟨hread, -⟩ := of_write_controller (linkFree_of_linkless hlinks "/") hl hwrite
  rcases hactions with ⟨rfl, -, rfl⟩ | ⟨-, r, log, hactions, hr⟩
  · exact ⟨q, [], ⟨List.nodup_nil, fun _ => rfl⟩, hplace, hputs, hread⟩
  obtain ⟨names, rfl⟩ : ∃ names, r = .ok names := by
    cases r with
    | ok names => exact ⟨names, rfl⟩
    | error f => cases hr
  obtain ⟨text, source, htext, hparse, hnew⟩ := of_writeActions_ok hactions
  obtain rfl := Except.ok.inj (hread.symm.trans htext)
  have hempty : Go.SourceFile.parse (controllerWith l.typeName []) = .ok
      ⟨"controller", [⟨l.typeName, none⟩], [⟨"New" ++ l.typeName, none, none⟩]⟩ :=
    parse_controller htype nofun
  obtain rfl := Except.ok.inj (hempty.symm.trans hparse)
  -- The constructor is no method.
  have hfirst : FirstOfEach actions (split ⟨"controller", [⟨l.typeName, none⟩],
      [⟨"New" ++ l.typeName, none, none⟩]⟩ l.typeName [] actions).1 :=
    firstOfEach_split fun _ => rfl
  refine ⟨q, _, hfirst, ?_⟩
  rcases hnew with ⟨hnil, htree⟩ | hwrite'
  · have hnil : (split ⟨"controller", [⟨l.typeName, none⟩], [⟨"New" ++ l.typeName, none, none⟩]⟩
        l.typeName [] actions).1 = [] := hnil
    rw [hnil, htree]
    exact ⟨hplace, hputs, hread⟩
  · have hlinks' := linkless_of_keeps hputs.keeps hlinks
    obtain ⟨q', hplace', hputs'⟩ := Tree.exists_puts_of_write hputs.wellFormed hlinks' hwrite'
    obtain ⟨hread', -⟩ := of_write_controller (linkFree_of_linkless hlinks' "/") hl hwrite'
    obtain rfl := Except.ok.inj ((Tree.place_mono hputs'.keeps hplace).symm.trans hplace')
    exact ⟨hplace', hputs.trans hputs', hread'⟩

/-- The segment of a route has ASCII letters and digits, with a letter in front. -/
structure IsWord (s : String) : Prop where
  letter : BeginsWithLetter s
  alphanum : ∀ c ∈ s.toList, c.isAlphanum = true

theorem IsWord.isName (h : IsWord s) : Path.IsName s := by
  obtain ⟨c, cs, hcons, hc⟩ := h.letter.exists_cons
  have hdot : s.toList.head? ≠ some '.' := by
    rw [hcons]
    rintro heq
    cases heq
    cases hc
  refine ⟨?_, ?_, ?_, fun hslash => ?_, fun hnul => ?_⟩
  · rintro rfl
    cases hcons
  · rintro rfl
    exact hdot rfl
  · rintro rfl
    exact hdot rfl
  · exact absurd (h.alphanum _ hslash) (by decide)
  · exact absurd (h.alphanum _ hnul) (by decide)

theorem IsWord.isHidden_eq (h : IsWord s) : Scan.isHidden s = false := by
  obtain ⟨c, cs, hcons, hc⟩ := h.letter.exists_cons
  rw [Scan.isHidden, hcons, List.head?_cons, decide_eq_false_iff_not]
  rintro heq
  cases heq
  cases hc

theorem IsWord.isGoName (h : IsWord s) : IsGoName s :=
  ⟨h.letter.start, fun c hc => isNameChar_of_isAlphanum (h.alphanum c hc), h.letter.ne_blank⟩

theorem IsWord.isPlainName (h : IsWord s) :
    Go.Word.IsPlainName (capitalize s ++ "Controller").toList := by
  rw [String.toList_append]
  exact h.isGoName.isPlainName_capitalize (List.forall_iff_forall_mem.1 (by decide))

namespace Located

variable (h : Located project command route l dirs name) (hwords : ∀ s ∈ dirs ++ [name], IsWord s)

include h hwords in
theorem isName_of_mem_words : ∀ n ∈ dirs ++ ["controller", name ++ ".go"], Path.IsName n := by
  obtain ⟨hdirs, hname⟩ := List.forall_mem_append.1 hwords
  have hfile := h.isName_file (List.forall_mem_singleton.1 hname).isName.nul_notMem
  exact List.forall_mem_append.2 ⟨fun n hn => (hdirs n hn).isName,
    List.forall_mem_cons.2 ⟨isName_controller, List.forall_mem_singleton.2 hfile⟩⟩

include h hwords in
theorem collected : Analysis.Collected (dirs ++ ["controller", name ++ ".go"]) where
  extension := by
    have hgo := nameExtension?_go (h.ne_empty name (by simp))
    simpa using hgo
  visible := by
    have hvisible : ∀ s ∈ dirs ++ ["controller"], Scan.isHidden s = false := by
      refine List.forall_mem_append.2 ⟨fun s hs => ?_,
        List.forall_mem_singleton.2 Scan.not_isHidden_dirName⟩
      exact (hwords s (List.mem_append_left _ hs)).isHidden_eq
    rw [Scan.inHidden, List.append_cons, List.dropLast_concat, List.any_eq_false]
    exact fun s hs => by simp [hvisible s hs]
  inside := by simp [Scan.dirName]

include h hwords in
theorem path_eq_pathOf_root (hcommand : Path.IsName command) : l.path
    = Scan.pathOf project.root
      (Project.apiNames [command] ++ (dirs ++ ["controller", name ++ ".go"])) := by
  rw [h.path_eq_pathOf fun n hn => (hwords n (List.mem_append_left _ hn)).isName,
    project.apiDir_eq_pathOf hcommand, Scan.pathOf_append project.root]
  rfl

end Located

theorem of_newController_ok
    (h : (newController project command route args).perform u = (.ok l, u')) :
    ∃ actions, u.tree.isDir (project.commandDir command) = true ∧
      locate project command route = .ok l ∧ readActions args = .ok actions ∧
      u.tree.exists l.path = false ∧
      (create l actions (controllerText l.typeName)).perform u = (.ok l, u') := by
  rcases newController_cases h with ⟨-, f, hf⟩ | ⟨l', actions, hdir, hl, hactions, hnone, h⟩
  · cases hf
  obtain rfl : l' = l := by
    rcases create_cases h with ⟨p, e, -, hr⟩ | ⟨t, -, ⟨-, hr, -⟩ | ⟨-, r, log, -, hr⟩⟩
    · cases hr
    · exact (Except.ok.inj hr).symm
    · cases r with
      | ok names => exact (Except.ok.inj hr).symm
      | error f => cases hr
  exact ⟨actions, hdir, hl, hactions, hnone, h⟩

theorem find_ne_of_exists_eq_false (h : t.exists path = false) (p : Place) (e : Entry) :
    t.find true path ≠ .ok (p, e) := by
  intro hfind
  rw [Tree.exists, Tree.entry?, hfind] at h
  cases h

theorem exists_root (hcommand : Path.IsName command)
    (hdir : t.isDir (project.commandDir command) = true) :
    ∃ k d, t.Enters linkLimit [] (Path.moves project.root) k d := by
  obtain ⟨p, hfind⟩ := Tree.of_isDir hdir
  obtain ⟨-, -, k, henters⟩ := Tree.of_find_dir hfind
  rw [project.moves_commandDir hcommand.isAbsolute_eq] at henters
  obtain ⟨k', d, hroot, -⟩ := Tree.of_enters_append henters
  exact ⟨k', d, hroot⟩

/-- A creation that succeeds adds one source file to those of the command. -/
theorem exists_addition (hw : u.tree.WellFormed) (hlinks : Analysis.LinkFree u.tree "/")
    (hcommand : Path.IsName command) (hlocated : Located project command route l dirs name)
    (hwords : ∀ s ∈ dirs ++ [name], IsWord s)
    (h : (newController project command route args).perform u = (.ok l, u')) :
    ∃ actions new d, readActions args = .ok actions ∧ FirstOfEach actions new ∧
      Analysis.Addition project command u.tree u'.tree d (dirs ++ ["controller", name ++ ".go"])
        (controllerWith l.typeName new) := by
  obtain ⟨actions, hdir, hl, hactions, hnone, h⟩ := of_newController_ok h
  have hlinkless : ∀ p target, u.tree.get? p ≠ some (.link target) :=
    fun _ => Analysis.linkless_of_linkFree hlinks
  have hname := hwords name (List.mem_append_right _ List.mem_cons_self)
  obtain ⟨q, new, hnew, hplace, hputs, hread⟩ :=
    exists_puts_of_create hw hlinkless hl (hlocated.typeName ▸ hname.isPlainName) h
  -- The names lead from the root to the file.
  obtain ⟨k, d, henters⟩ := exists_root hcommand hdir
  have hnames : ∀ n ∈ Project.apiNames [command] ++ (dirs ++ ["controller", name ++ ".go"]),
      Path.IsName n := List.forall_mem_append.2
    ⟨Project.isName_of_mem_apiNames (List.forall_mem_singleton.2 hcommand),
      hlocated.isName_of_mem_words hwords⟩
  have hne : Project.apiNames [command] ++ (dirs ++ ["controller", name ++ ".go"]) ≠ [] := by simp
  have hpath := hlocated.path_eq_pathOf_root hwords hcommand
  have hfile : Path.IsName (name ++ ".go") := hnames _ (by simp)
  rw [hlocated.path, Tree.dropSlashes_eq_self (Path.getLast?_join_name _ hfile), ← hlocated.path,
    hpath] at hplace
  have hlinkless' := linkless_of_keeps hputs.keeps hlinkless
  obtain ⟨hallowed, hnamed, rfl, -⟩ := Scan.of_find_pathOf (henters.mono hputs.keeps)
    (fun _ _ _ => hlinkless' _) hnames hne (Tree.find_eq_ok_iff.2 ⟨hplace, hputs.file⟩)
  refine ⟨actions, new, d, hactions, hnew, hw, hcommand, linkFree_of_linkless hlinkless _,
    ⟨k, henters⟩, hputs, ?_, hlocated.collected hwords, hpath ▸ hread⟩
  · cases hget : u.tree.get? (d ++ (Project.apiNames [command]
        ++ (dirs ++ ["controller", name ++ ".go"]))) with
    | none => rfl
    | some e =>
      obtain ⟨p, hfind⟩ : ∃ p, u.tree.find true l.path = .ok (p, e) := by
        rw [hpath]
        exact ⟨_, Scan.find_pathOf hw henters (fun _ _ _ => hlinkless _) hnames hne hallowed hnamed
          hget⟩
      exact absurd hfind (find_ne_of_exists_eq_false hnone p e)

/-- A creation succeeds if all checks hold and the file can be written. -/
theorem exists_perform_newController (hlinks : Analysis.LinkFree u.tree "/")
    (hdir : u.tree.isDir (project.commandDir command) = true)
    (hl : locate project command route = .ok l) (hactions : readActions args = .ok actions)
    (hnone : u.tree.exists l.path = false) (htype : Go.Word.IsPlainName l.typeName.toList)
    (hfree : (u.tree.write l.path "").2 = none) :
    ∃ u', (newController project command route args).perform u = (.ok l, u') := by
  obtain ⟨t₁, q, -, -, hwrites⟩ := Tree.write_other hfree
  have hwritten := hwrites (controllerText l.typeName)
  obtain ⟨hread, hagain⟩ := of_write_controller hlinks hl hwritten
  rw [perform_newController hdir hl hactions hnone]
  rcases hres : (create l actions (controllerText l.typeName)).perform u with ⟨r, u'⟩
  refine ⟨u', ?_⟩
  rcases create_cases hres with ⟨p, e, hrefused, -⟩ | ⟨t, hwrite, ⟨-, rfl, -⟩ | ⟨-, r', log, h, hr⟩⟩
  · cases (congrArg Prod.snd hwritten).symm.trans (congrArg Prod.snd hrefused)
  · rfl
  obtain rfl : _ = t := congrArg Prod.fst (hwritten.symm.trans hwrite)
  rcases writeActions_cases h with ⟨e, hrefused, -⟩ | ⟨text, htext, hparse⟩
  · rw [hread] at hrefused
    cases hrefused
  obtain rfl := Except.ok.inj (hread.symm.trans htext)
  have hempty : Go.SourceFile.parse (controllerWith l.typeName []) = .ok _ :=
    parse_controller htype nofun
  rcases hparse with ⟨e, hrefused, -⟩ |
    ⟨source, -, ⟨names, rfl, -⟩ | ⟨more, ⟨p, e, hrefused, -⟩ | ⟨-, names, rfl⟩⟩⟩
  · cases hempty.symm.trans hrefused
  · rw [hr]
    rfl
  · cases (hagain more).symm.trans (congrArg Prod.snd hrefused)
  · rw [hr]
    rfl

end Scaffold
end RouteScribe
