import RouteScribe.Proofs.Go.Comment
import RouteScribe.Proofs.Scaffold.Grammar

/-!
# RouteScribe.Proofs.Scaffold.Declaration

What the file of a new controller declares, for all names of types and methods: the package, the
type, its constructor, and one method for each action with the verb of the action in its comment.

* `parse_controller`: the declarations in the file of a new controller.
-/

namespace RouteScribe
namespace Go

/-! ## Places -/

namespace Cursor

variable {p : Cursor} {cs rest : List Char}

theorem row_skip (h : p.rest = cs ++ rest) :
    (p.skip cs.length).row = p.row + cs.count '\n' := by
  induction cs generalizing p with
  | nil => rfl
  | cons c cs ih =>
    rw [List.cons_append] at h
    rw [List.length_cons, skip, h]
    dsimp only
    rw [ih rfl, past, List.count_cons]
    dsimp only
    by_cases hc : c = '\n'
    · simp only [hc, if_true, beq_self_eq_true]
      omega
    · simp [hc]

end Cursor

namespace Word

variable {w : Word} {ws : List Word} {p : Cursor} {rest : List Char} {j : Nat}

theorem row_start (hp : p.rest = w.gap ++ (w.text ++ rest)) :
    (w.start p).row = p.row + w.gap.count '\n' :=
  Cursor.row_skip hp

theorem blank_start (hp : p.rest = '\n' :: rest) (hgap : w.gap = ['\n']) :
    (w.start p).blank = true := by
  rw [start, hgap, List.length_singleton, Cursor.skip, hp]
  rfl

theorem exists_rest_take (h : p.rest = textOf ws ++ rest) (hw : ws[j]? = some w) : ∃ rest',
    (stopOf p (ws.take j)).rest = w.gap ++ (w.text ++ rest') := by
  obtain ⟨hj, hget⟩ := List.getElem?_eq_some_iff.1 hw
  refine ⟨textOf (ws.drop (j + 1)) ++ rest, rest_stopOf ?_⟩
  rw [h, ← List.append_assoc w.text, ← List.append_assoc w.gap, ← List.append_assoc (textOf _),
    ← textOf_cons, ← hget, ← List.drop_eq_getElem_cons hj, ← textOf_append, List.take_append_drop]

end Word

namespace Stock

variable {es : Track Piece} {p : Cursor} {ws : List Word} {rest : List Char} {j k : Nat} {w : Word}

/-- The text of an atom. -/
def text (stock : Stock) (t : Token) (i : Nat) : String :=
  (stock.start (some (some t, i))).textTo (stock.stop (some (some t, i)))

theorem text_at_word (hk : es.length = k) (hp : p.rest = Word.textOf ws ++ rest)
    (hw : ws[j]? = some w) : (Stock.at es p ws).text w.token (k + j) = String.ofList w.text := by
  rw [text]
  obtain ⟨rest', hrest⟩ := Word.exists_rest_take hp hw
  rw [start_at_word hk hw, stop_at_word hk hw, Word.textTo_stop hrest]

end Stock

end Go

namespace Scaffold

open Go

/-- The method for an action, as it is declared. -/
def methodDecl (type : String) (a : Action) : FuncDecl :=
  ⟨a.name, some type, some ⟨[" @http_method " ++ a.verb.text, " @middleware"]⟩⟩

/-- Two comments and a method, each directly below the other. -/
structure IsStub (f : FuncDecl) (c₁ c₂ m : Node) : Prop where
  first : c₁.kind = .token .comment
  second : c₂.kind = .token .comment
  method : m.kind = .phrase .methodDeclaration
  blank₁ : c₁.start.blank = true
  blank₂ : c₂.start.blank = true
  below₁ : c₁.stop.row + 1 = c₂.start.row
  below₂ : c₂.stop.row + 1 = m.start.row
  decl : m.funcDecl (some ⟨Doc.linesOf c₁.text ++ Doc.linesOf c₂.text⟩) = .ok f

theorem funcDecl_other {n : Node} {doc : Option Doc} {f : FuncDecl} (h : n.funcDecl doc = .ok f)
    (other : Option Doc) : f.doc = doc ∧ n.funcDecl other = .ok { f with doc := other } := by
  unfold Node.funcDecl at h ⊢
  split at h
  · cases h
  · split at h
    · cases h
      exact ⟨rfl, rfl⟩
    · split at h
      · cases h
        exact ⟨rfl, rfl⟩
      · cases h

/-- The lines of the comments at the end of `seen`, given last first, that are attached to what
begins on row `row`. -/
def linesAbove (row : Nat) (seen : List Node) : List String :=
  ((Node.attached row seen).map Node.text).reverse.flatMap Doc.linesOf

/-- A method and its comments add the method. Comments directly above belong to it too. -/
theorem IsStub.adds_behind {name : String} {receiver : Option String} {lines : List String}
    {c₁ c₂ m : Node} (h : IsStub ⟨name, receiver, some ⟨lines⟩⟩ c₁ c₂ m) (seen : List Node)
    (package : Option String) : Node.Adds seen package [c₁, c₂, m] package []
      [⟨name, receiver, some ⟨linesAbove c₁.start.row seen ++ lines⟩⟩] := by
  have hattached : Node.attached m.start.row (c₂ :: c₁ :: seen)
      = c₂ :: c₁ :: Node.attached c₁.start.row seen := by
    simp [Node.attached, h.first, h.second, h.below₁, h.below₂, h.blank₁, h.blank₂]
  obtain ⟨hlines, hdecl⟩ :=
    funcDecl_other h.decl (some ⟨linesAbove c₁.start.row seen ++ lines⟩)
  have hdoc : Node.doc? (c₂ :: c₁ :: seen).reverse m
      = some ⟨linesAbove c₁.start.row seen ++ lines⟩ := by
    rw [Node.doc?_eq_docOf, hattached, Node.docOf, linesAbove, Doc.mk.inj (Option.some.inj hlines)]
    simp
  exact (Node.adds_nothing (by rw [h.first]; rfl)).cons
    ((Node.adds_nothing (by rw [h.second]; rfl)).cons
      (Node.adds_func (by rw [h.method]; rfl) ((congrArg m.funcDecl hdoc).trans hdecl)))

/-- What stands before a method and its comments is no comment, which might belong to it. -/
theorem IsStub.adds {name : String} {receiver : Option String} {lines : List String}
    {c₁ c₂ m : Node} (h : IsStub ⟨name, receiver, some ⟨lines⟩⟩ c₁ c₂ m) {seen : List Node}
    (hseen : ∀ n, seen.head? = some n → n.kind ≠ .token .comment) (package : Option String) :
    Node.Adds seen package [c₁, c₂, m] package [] [⟨name, receiver, some ⟨lines⟩⟩] := by
  have hnone : linesAbove c₁.start.row seen = [] := by
    cases seen with
    | nil => rfl
    | cons n seen =>
      rw [linesAbove, Node.attached, decide_eq_false (hseen n rfl)]
      rfl
  have hadds := h.adds_behind seen package
  rwa [hnone] at hadds

variable {es : Track Piece} {p : Cursor} {type method verb rest : List Char} {g : Tables} {k : Nat}

theorem isStub_stubOutlines (hk : es.length = k)
    (hp : p.rest = Word.textOf (stubWords type method verb) ++ rest) : ∃ c₁ c₂ m,
      Outline.allNodes g (Stock.at es p (stubWords type method verb)) (stubOutlines k) = [c₁, c₂, m] ∧
        IsStub ⟨String.ofList method, some (String.ofList type),
          some ⟨[String.ofList (" @http_method ".toList ++ verb),
            String.ofList " @middleware".toList]⟩⟩ c₁ c₂ m := by
  have hstart := fun j w (h : (stubWords type method verb)[j]? = some w) =>
    Stock.start_at_word (p := p) hk h
  have hstop := fun j w (h : (stubWords type method verb)[j]? = some w) =>
    Stock.stop_at_word (p := p) hk h
  have htext := fun j w h => Stock.text_at_word (j := j) (w := w) hk hp h
  have hrest := fun j w h => Word.exists_rest_take (j := j) (w := w) hp h
  obtain ⟨rest₀, hrest₀⟩ := hrest 0 _ rfl
  obtain ⟨rest₁, hrest₁⟩ := hrest 1 _ rfl
  obtain ⟨rest₂, hrest₂⟩ := hrest 2 _ rfl
  refine ⟨_, _, _, rfl, rfl, rfl, rfl, ?_, ?_, ?_, ?_, ?_⟩
  · exact (congrArg Cursor.blank (hstart 0 _ rfl)).trans (Word.blank_start hrest₀ rfl)
  · exact (congrArg Cursor.blank (hstart 1 _ rfl)).trans (Word.blank_start hrest₁ rfl)
  · refine (congrArg (·.row + 1) (hstop 0 _ rfl)).trans (Eq.trans ?_
      (congrArg Cursor.row (hstart 1 _ rfl)).symm)
    exact (Word.row_start hrest₁).symm
  · refine (congrArg (·.row + 1) (hstop 1 _ rfl)).trans (Eq.trans ?_
      (congrArg Cursor.row (hstart 2 _ rfl)).symm)
    exact (Word.row_start hrest₂).symm
  · generalize Stock.at es p (stubWords type method verb) = stock at htext ⊢
    have hverb : stock.text .comment (k + 0)
        = String.ofList ('/' :: '/' :: (" @http_method ".toList ++ verb)) := htext 0 _ rfl
    have hmiddleware : stock.text .comment (k + 1)
        = String.ofList ('/' :: '/' :: " @middleware".toList) := htext 1 _ rfl
    have htype : stock.text .identifier (k + 6) = String.ofList type := htext 6 _ rfl
    have hmethod : stock.text .identifier (k + 8) = String.ofList method := htext 8 _ rfl
    refine Eq.trans (b := .ok ⟨stock.text .identifier (k + 8),
      some (stock.text .identifier (k + 6)), some ⟨Doc.linesOf (stock.text .comment (k + 0))
        ++ Doc.linesOf (stock.text .comment (k + 1))⟩⟩) rfl ?_
    rw [hverb, hmiddleware, htype, hmethod, Doc.linesOf_line, Doc.linesOf_line]
    rfl

/-! ## The controller -/

theorem adds_controllerOutlines (hp : p.rest = Word.textOf (controllerWords type) ++ rest) :
    Node.Adds [] none (Outline.allNodes g (Stock.at [] p (controllerWords type)) controllerOutlines)
      (some "controller") [⟨String.ofList type, none⟩]
      [⟨String.ofList ("New".toList ++ type), none, none⟩] := by
  have hnil : ([] : Track Piece).length = 0 := List.length_nil
  have htext := fun j w (h : (controllerWords type)[j]? = some w) => Stock.text_at_word hnil hp h
  generalize Stock.at [] p (controllerWords type) = stock at htext ⊢
  have hpackage : stock.text .identifier 1 = "controller" := htext 1 _ rfl
  have htype : stock.text .identifier 9 = String.ofList type := htext 9 _ rfl
  have hnew : stock.text .identifier 15 = String.ofList ("New".toList ++ type) := htext 15 _ rfl
  rw [← hpackage, ← htype, ← hnew]
  exact (Node.adds_package rfl rfl).cons ((Node.adds_nothing rfl).cons
    ((Node.adds_types rfl).cons ((Node.adds_func rfl rfl).cons
      (Node.adds_nothing rfl))))

theorem getLast?_controllerOutlines (stock : Stock) {n : Node}
    (h : (Outline.allNodes g stock controllerOutlines).getLast? = some n) :
    n.kind = .phrase .varDeclaration := by
  obtain rfl := Option.some.inj (h.symm.trans rfl)
  rfl

theorem isNamed_controllerOutlines (stock : Stock) :
    ∀ n ∈ Outline.allNodes g stock controllerOutlines, n.kind.isNamed = true :=
  List.all_eq_true.1 rfl

/-! ## The file -/

/-- The words of the methods for actions. -/
def methodWords (type : List Char) (actions : List Action) : List Word :=
  actions.flatMap fun a => stubWords type a.name.toList a.verb.text.toList

/-- The source text of a controller with the methods for actions. -/
def controllerWith (type : String) (actions : List Action) : String :=
  actions.foldl (fun text a => text ++ stub type a) (controllerText type)

theorem toList_foldl_stub (type : String) (actions : List Action) (text : String) :
    (actions.foldl (fun text a => text ++ stub type a) text).toList
      = text.toList ++ Word.textOf (methodWords type.toList actions) := by
  induction actions generalizing text with
  | nil => exact (List.append_nil _).symm
  | cons a actions ih =>
    rw [List.foldl_cons, ih, String.toList_append, toList_stub, List.append_assoc,
      ← Word.textOf_append]
    rfl

theorem toList_controllerWith (type : String) (actions : List Action) :
    (controllerWith type actions).toList
      = Word.textOf (controllerWords type.toList ++ methodWords type.toList actions) := by
  rw [controllerWith, toList_foldl_stub, toList_controllerText, Word.textOf_append]

theorem follows_methodWords (type : List Char) (actions : List Action) :
    Follows (Word.textOf (methodWords type actions) ++ []) := by
  intro d hd
  cases actions with
  | nil => cases hd
  | cons a actions =>
    obtain rfl := Option.some.inj (hd.symm.trans rfl)
    rfl

/-- The action can be written as a method: its name is no keyword, and its verb is on one line. -/
structure IsPlain (a : Action) : Prop where
  name : Word.IsPlainName a.name.toList
  verb : ∀ c ∈ a.verb.text.toList, c ≠ '\n' ∧ c ≠ '\x00'

variable {actions : List Action} {x y : Shape} {types : List TypeDecl} {funcs : List FuncDecl}

theorem allSpelled_methodWords (htype : Word.IsPlainName type) (h : ∀ a ∈ actions, IsPlain a) :
    Word.AllSpelled [] (methodWords type actions) := by
  induction actions with
  | nil => trivial
  | cons a actions ih =>
    obtain ⟨ha, hall⟩ := List.forall_mem_cons.1 h
    exact Word.allSpelled_append
      (allSpelled_stubWords htype ha.name ha.verb (follows_methodWords type actions)) (ih hall)

/-- A track behind declarations, of which the last is no comment, that might belong to a method
behind it. -/
structure Holds (x : Shape) (es : Track Piece) (package : Option String) (types : List TypeDecl)
    (funcs : List FuncDecl) : Prop where
  fits : x.Fits es
  named : ∀ n ∈ Track.nodes goTables es, n.kind.isNamed = true
  adds : Node.Adds [] none (Track.nodes goTables es) package types funcs
  last : ∀ n, (Track.nodes goTables es).getLast? = some n → n.kind ≠ .token .comment

variable {package : Option String}

theorem Holds.stub (h : Holds x es package types funcs)
    (hreads : x.Reads goTables stubSigns y (stubOutlines x.entries.length))
    (hp : p.rest = Word.textOf (stubWords type method verb) ++ rest) : ∃ es',
      Track.readAll? Piece.maker goTables es (Word.piecesAt p (stubWords type method verb))
        = some es' ∧
        Holds y es' package types (funcs ++ [⟨String.ofList method, some (String.ofList type),
          some ⟨[String.ofList (" @http_method ".toList ++ verb),
            String.ofList " @middleware".toList]⟩⟩]) := by
  have hsigns := map_sign_stubWords type method verb
  obtain ⟨es', hread, hfits, hnodes⟩ := (hsigns ▸ hreads).exists_readAll? h.fits p
  obtain ⟨c₁, c₂, m, hall, hstub⟩ := isStub_stubOutlines (g := goTables) h.fits.length hp
  rw [hall] at hnodes
  refine ⟨es', hread, hfits, ?_, ?_, ?_⟩
  · rw [hnodes]
    refine List.forall_mem_append.2 ⟨h.named, List.forall_mem_cons.2 ⟨?_, List.forall_mem_cons.2
      ⟨?_, List.forall_mem_singleton.2 ?_⟩⟩⟩
    · rw [hstub.first]
      rfl
    · rw [hstub.second]
      rfl
    · rw [hstub.method]
      rfl
  · have hadds := h.adds.append (hstub.adds (fun n hn => h.last n ?_) package)
    · rwa [List.append_nil, ← hnodes] at hadds
    · rwa [List.append_nil, List.head?_reverse] at hn
  · intro n hn
    rw [hnodes, List.getLast?_append_cons] at hn
    obtain rfl := Option.some.inj (hn.symm.trans rfl)
    rw [hstub.method]
    exact Kind.noConfusion

theorem methodDecl_eq (type : String) (a : Action) :
    (⟨String.ofList a.name.toList, some type,
      some ⟨[String.ofList (" @http_method ".toList ++ a.verb.text.toList),
        String.ofList " @middleware".toList]⟩⟩ : FuncDecl) = methodDecl type a := by
  rw [methodDecl, String.ofList_append]
  simp only [String.ofList_toList]

/-- Methods are read one after the other. All methods but the first are read from the shape that a
method leaves. -/
theorem Holds.methods (hcloses : y.Closes goTables)
    (hagain : y.Reads goTables stubSigns y (stubOutlines y.entries.length)) :
    ∀ {x : Shape} {es : Track Piece} {funcs : List FuncDecl} {p : Cursor},
      Holds x es package types funcs → x.Closes goTables →
      x.Reads goTables stubSigns y (stubOutlines x.entries.length) →
      p.rest = Word.textOf (methodWords type actions) ++ rest → ∃ z es',
        Track.readAll? Piece.maker goTables es (Word.piecesAt p (methodWords type actions))
          = some es' ∧ z.Closes goTables ∧
        Holds z es' package types (funcs ++ actions.map (methodDecl (String.ofList type))) := by
  induction actions with
  | nil =>
    intro x es funcs p h hx _ _
    refine ⟨x, es, rfl, hx, ?_⟩
    rwa [List.map_nil, List.append_nil]
  | cons a actions ih =>
    intro x es funcs p h _ hreads hp
    have hwords : methodWords type (a :: actions)
        = stubWords type a.name.toList a.verb.text.toList ++ methodWords type actions := rfl
    rw [hwords, Word.textOf_append, List.append_assoc] at hp
    obtain ⟨es₁, hfirst, h₁⟩ := h.stub hreads hp
    obtain ⟨z, es', hrest, hz, hall⟩ := ih h₁ hcloses hagain (Word.rest_stopOf hp)
    refine ⟨z, es', ?_, hz, ?_⟩
    · rw [hwords, Word.piecesAt_append, Track.readAll?_append, hfirst, Option.bind_some, hrest]
    · rw [List.append_assoc, List.singleton_append] at hall
      rw [List.map_cons]
      rwa [methodDecl_eq] at hall

theorem parse_controller {type : String} (htype : Word.IsPlainName type.toList)
    (hactions : ∀ a ∈ actions, IsPlain a) : SourceFile.parse (controllerWith type actions)
      = .ok ⟨"controller", [⟨type, none⟩],
          ⟨"New" ++ type, none, none⟩ :: actions.map (methodDecl type)⟩ := by
  obtain ⟨x, y, hfirst, hx, hstub, hy, hagain⟩ := exists_shapes
  have hspelled :
      Word.AllSpelled [] (controllerWords type.toList ++ methodWords type.toList actions) :=
    Word.allSpelled_append
      (allSpelled_controllerWords htype (follows_methodWords type.toList actions))
      (allSpelled_methodWords htype hactions)
  have hp : (Cursor.ofChars (controllerWith type actions).toList).rest
      = Word.textOf (controllerWords type.toList)
        ++ Word.textOf (methodWords type.toList actions) := by
    rw [← Word.textOf_append, ← toList_controllerWith]
    rfl
  have hnone : Shape.Fits ⟨[]⟩ [] := ⟨rfl, by simp⟩
  have hsigns := map_sign_controllerWords type.toList
  obtain ⟨es, hread, hfits, hnodes⟩ := (hsigns ▸ hfirst).exists_readAll? hnone
    (.ofChars (controllerWith type actions).toList)
  have hempty : Track.nodes goTables [] = [] := rfl
  rw [hempty, List.nil_append] at hnodes
  have hholds : Holds x es (some "controller") [⟨type, none⟩] [⟨"New" ++ type, none, none⟩] := by
    refine ⟨hfits, hnodes ▸ isNamed_controllerOutlines _, ?_, ?_⟩
    · rw [hnodes]
      have hadds := adds_controllerOutlines (g := goTables) hp
      rwa [String.ofList_toList, ← String.toList_append, String.ofList_toList] at hadds
    · intro n hn
      rw [hnodes] at hn
      rw [getLast?_controllerOutlines _ hn]
      exact Kind.noConfusion
  obtain ⟨z, es', hmethods, hz, hall⟩ := hholds.methods hy hagain hx hstub
    (by rw [List.append_nil]; exact Word.rest_stopOf hp)
  have hwhole : Track.readAll? Piece.maker goTables [] (Word.piecesAt
      (.ofChars (Word.textOf (controllerWords type.toList ++ methodWords type.toList actions)))
      (controllerWords type.toList ++ methodWords type.toList actions)) = some es' := by
    rw [← toList_controllerWith, Word.piecesAt_append, Track.readAll?_append, hread,
      Option.bind_some, hmethods]
  obtain ⟨start, stop, htree⟩ := ofSource?_of_words hspelled hwhole hall.fits hz
  rw [← toList_controllerWith] at htree
  rw [String.ofList_toList] at hall
  obtain ⟨-, hnamed, hadds, -⟩ := hall
  generalize Track.nodes goTables es' = nodes at htree hnamed hadds
  refine (Node.parse_of_ofSource? htree rfl).trans (Node.Adds.sourceFile ?_)
  rwa [Node.parts, Node.children, List.filter_eq_self.2 hnamed]

end Scaffold
end RouteScribe
