import RouteScribe.Proofs.Go.Stretch
import RouteScribe.Proofs.Scaffold.Source
import RouteScribe.Scaffold.Generate

/-!
# RouteScribe.Proofs.Scaffold.Grammar

The texts of new controllers and of the methods that are added to them, as the grammar sees them.
-/

namespace RouteScribe
namespace Scaffold

open Go

/-! ## Words -/

/-- The words of a new controller. -/
def controllerWords (type : List Char) : List Word :=
  [.keyword "" .packageKw, .name " " "controller".toList, .newline,
    .keyword "\n" .importKw, .mark " " .quote, .quoted "github.com/gin-gonic/gin".toList,
    .mark "" .closingQuote, .newline,
    .keyword "\n" .typeKw, .name " " type, .keyword " " .structKw, .mark "" .lbrace,
    .mark "" .rbrace, .newline,
    .keyword "\n" .funcKw, .name " " ("New".toList ++ type), .mark "" .lparen, .mark "" .rparen,
    .mark " " .star, .name "" type, .mark " " .lbrace,
    .keyword "\n\t" .returnKw, .mark " " .amp, .name "" type, .mark "" .lbrace, .mark "" .rbrace,
    .newline, .mark "" .rbrace, .newline,
    .keyword "\n" .varKw, .reservedName " " .underscore, .name " " "gin".toList,
    .mark "" .period, .name "" "HandlerFunc".toList, .newline]

/-- The words of a method. -/
def stubWords (type method verb : List Char) : List Word :=
  [.comment "\n" (" @http_method ".toList ++ verb), .comment "\n" " @middleware".toList,
    .keyword "\n" .funcKw, .mark " " .lparen, .name "" "ctrl".toList, .mark " " .star,
    .name "" type, .mark "" .rparen, .name " " method, .mark "" .lparen, .name "" "c".toList,
    .mark " " .star, .name "" "gin".toList, .mark "" .period, .name "" "Context".toList,
    .mark "" .rparen, .mark " " .lbrace, .mark "\n" .rbrace, .newline]

theorem toList_controllerText (type : String) :
    (controllerText type).toList = Word.textOf (controllerWords type.toList) := by
  simp only [controllerText, String.join_cons, String.join_nil, String.toList_append]
  rfl

theorem toList_stub (type : String) (a : Action) : (stub type a).toList
    = Word.textOf (stubWords type.toList a.name.toList a.verb.text.toList) := by
  simp only [stub, String.toList_append, List.append_assoc]
  rfl

/-- What may follow a new controller: nothing, or a line that begins with its end. -/
def Follows (rest : List Char) : Prop := ∀ d, rest.head? = some d → d = '\n'

variable {type method verb rest : List Char}

theorem Follows.isMarkEnd (h : Follows rest) :
    ∀ d, rest.head? = some d → Lexeme.isMarkEnd d = false := by
  intro d hd
  rw [h d hd]
  decide

/-- A name that does not begin with a lower-case letter is no keyword, unless it is blank. -/
theorem isPlainName_of_isLower {c : Char} {us : List Char} (hc : c.isLower = false)
    (hstart : isNameStart c = true) (hus : ∀ u ∈ us, isNameChar u = true)
    (hblank : c :: us ≠ ['_']) : Word.IsPlainName (c :: us) where
  start := hstart
  chars := by
    rw [List.all_cons, isNameChar_of_isNameStart hstart, List.all_eq_true.2 hus]
    rfl
  keyword := by
    refine List.find?_eq_none.2 fun t ht heq => ?_
    have hall : ∀ t ∈ Token.keywords,
        t.spelling = ['_'] ∨ t.spelling.head?.any Char.isLower = true := by decide
    rcases hall t ht with hspelling | hlower
    · exact hblank ((beq_iff_eq.1 heq).symm.trans hspelling)
    · rw [beq_iff_eq.1 heq, List.head?_cons, Option.any_some, hc] at hlower
      cases hlower

theorem isPlainName_new (h : Word.IsPlainName type) :
    Word.IsPlainName ("New".toList ++ type) :=
  isPlainName_of_isLower (c := 'N') (by decide) (by decide)
    (List.forall_mem_cons.2 ⟨by decide, List.forall_mem_cons.2
      ⟨by decide, List.all_eq_true.1 h.chars⟩⟩) (by simp)

open Word in
theorem exists_head?_textOf (htype : IsPlainName type) : ∃ c, Lexeme.isMarkEnd c = false ∧
    ∀ ws rest, (textOf (name "" type :: ws) ++ rest).head? = some c := by
  obtain ⟨c, us, rfl, hc, -⟩ := htype.exists_cons
  exact ⟨c, isMarkEnd_eq_false_of_isNameStart hc, fun _ _ => rfl⟩

open Word in
theorem allSpelled_controllerWords (htype : IsPlainName type) (hrest : Follows rest) :
    AllSpelled rest (controllerWords type) := by
  obtain ⟨c, hmark, hhead⟩ := exists_head?_textOf htype
  exact ⟨spells_keyword rfl (by decide) rfl (by decide),
    spells_name rfl (by decide) rfl (by decide), spells_newline rfl (by decide),
    spells_keyword rfl (by decide) rfl (by decide), spells_mark rfl (by decide) rfl (by decide),
    spells_quoted (by decide) (by decide) (by decide) rfl, spells_closing,
    spells_newline rfl (by decide), spells_keyword rfl (by decide) rfl (by decide),
    spells_name rfl htype rfl (by decide), spells_keyword rfl (by decide) rfl (by decide),
    spells_mark rfl (by decide) rfl (by decide), spells_mark rfl (by decide) rfl (by decide),
    spells_newline rfl (by decide), spells_keyword rfl (by decide) rfl (by decide),
    spells_name rfl (isPlainName_new htype) rfl (by decide),
    spells_mark rfl (by decide) rfl (by decide), spells_mark rfl (by decide) rfl (by decide),
    spells_mark rfl (by decide) (hhead _ _) hmark, spells_name rfl htype rfl (by decide),
    spells_mark rfl (by decide) rfl (by decide), spells_keyword rfl (by decide) rfl (by decide),
    spells_mark rfl (by decide) (hhead _ _) hmark, spells_name rfl htype rfl (by decide),
    spells_mark rfl (by decide) rfl (by decide), spells_mark rfl (by decide) rfl (by decide),
    spells_newline rfl (by decide), spells_mark rfl (by decide) rfl (by decide),
    spells_newline rfl (by decide), spells_keyword rfl (by decide) rfl (by decide),
    spells_reservedName rfl (by decide) rfl (by decide),
    spells_name rfl (by decide) rfl (by decide), spells_period rfl rfl (by decide) (by decide),
    spells_name rfl (by decide) rfl (by decide), .newline nofun hrest.isMarkEnd, trivial⟩

open Word in
theorem allSpelled_stubWords (htype : IsPlainName type) (hmethod : IsPlainName method)
    (hverb : ∀ c ∈ verb, c ≠ '\n' ∧ c ≠ '\x00') (hrest : Follows rest) :
    AllSpelled rest (stubWords type method verb) := by
  obtain ⟨c, hmark, hhead⟩ := exists_head?_textOf htype
  have hcomment : ∀ c ∈ " @http_method ".toList ++ verb, c ≠ '\n' ∧ c ≠ '\x00' :=
    List.forall_mem_append.2 ⟨by simp, hverb⟩
  exact ⟨spells_comment rfl hcomment rfl, spells_comment rfl (by simp) rfl,
    spells_keyword rfl (by decide) rfl (by decide), spells_mark rfl (by decide) rfl (by decide),
    spells_name rfl (by decide) rfl (by decide), spells_mark rfl (by decide) (hhead _ _) hmark,
    spells_name rfl htype rfl (by decide), spells_mark rfl (by decide) rfl (by decide),
    spells_name rfl hmethod rfl (by decide), spells_mark rfl (by decide) rfl (by decide),
    spells_name rfl (by decide) rfl (by decide), spells_mark rfl (by decide) rfl (by decide),
    spells_name rfl (by decide) rfl (by decide), spells_period rfl rfl (by decide) (by decide),
    spells_name rfl (by decide) rfl (by decide), spells_mark rfl (by decide) rfl (by decide),
    spells_mark rfl (by decide) rfl (by decide), spells_mark rfl (by decide) rfl (by decide),
    .newline nofun hrest.isMarkEnd, trivial⟩

/-! ## Trees -/

open Outline in
/-- The tree of a new controller, whose words are numbered from 0 on. -/
def controllerOutlines : List Outline :=
  [phrase .packageClause (.packageKw, 0) (.identifier, 1)
      [token .packageKw 0, named .packageIdentifier .identifier 1],
    phrase .importDeclaration (.importKw, 3) (.closingQuote, 6)
      [token .importKw 3,
        phrase .importSpec (.quote, 4) (.closingQuote, 6)
          [bracketed .interpretedStringLiteral (.quote, 4) (.closingQuote, 6)
            [named .quotedText .quotedText 5]]],
    phrase .typeDeclaration (.typeKw, 8) (.rbrace, 12)
      [token .typeKw 8,
        phrase .typeSpec (.identifier, 9) (.rbrace, 12)
          [named .typeIdentifier .identifier 9 (some .name),
            phrase .structType (.structKw, 10) (.rbrace, 12)
              [token .structKw 10, bracketed .fieldDeclarationList (.lbrace, 11) (.rbrace, 12) []]
              (some .type)]],
    phrase .functionDeclaration (.funcKw, 14) (.rbrace, 27)
      [token .funcKw 14, token .identifier 15 (some .name),
        bracketed .parameterList (.lparen, 16) (.rparen, 17) [],
        phrase .pointerType (.star, 18) (.identifier, 19)
          [token .star 18, named .typeIdentifier .identifier 19],
        bracketed .block (.lbrace, 20) (.rbrace, 27)
          [phrase .returnStatement (.returnKw, 21) (.rbrace, 25)
            [token .returnKw 21,
              phrase .expressionList (.amp, 22) (.rbrace, 25)
                [phrase .unaryExpression (.amp, 22) (.rbrace, 25)
                  [token .amp 22,
                    phrase .compositeLiteral (.identifier, 23) (.rbrace, 25)
                      [named .typeIdentifier .identifier 23 (some .type),
                        bracketed .literalValue (.lbrace, 24) (.rbrace, 25) []]]]]]],
    phrase .varDeclaration (.varKw, 29) (.identifier, 33)
      [token .varKw 29,
        phrase .varSpec (.identifier, 30) (.identifier, 33)
          [token .identifier 30 (some .name),
            phrase .qualifiedType (.identifier, 31) (.identifier, 33)
              [named .packageIdentifier .identifier 31, token .period 32,
                named .typeIdentifier .identifier 33 (some .name)]
              (some .type)]]]

open Outline in
/-- What a method adds to the tree, whose words are numbered from `k` on. -/
def stubOutlines (k : Nat) : List Outline :=
  [token .comment k, token .comment (k + 1),
    phrase .methodDeclaration (.funcKw, k + 2) (.rbrace, k + 17)
      [token .funcKw (k + 2),
        bracketed .parameterList (.lparen, k + 3) (.rparen, k + 7)
          [phrase .parameterDeclaration (.identifier, k + 4) (.identifier, k + 6)
            [token .identifier (k + 4) (some .name),
              phrase .pointerType (.star, k + 5) (.identifier, k + 6)
                [token .star (k + 5), named .typeIdentifier .identifier (k + 6)] (some .type)]]
          (some .receiver),
        named .fieldIdentifier .identifier (k + 8) (some .name),
        bracketed .parameterList (.lparen, k + 9) (.rparen, k + 15)
          [phrase .parameterDeclaration (.identifier, k + 10) (.identifier, k + 14)
            [token .identifier (k + 10) (some .name),
              phrase .pointerType (.star, k + 11) (.identifier, k + 14)
                [token .star (k + 11),
                  phrase .qualifiedType (.identifier, k + 12) (.identifier, k + 14)
                    [named .packageIdentifier .identifier (k + 12), token .period (k + 13),
                      named .typeIdentifier .identifier (k + 14) (some .name)]]
                (some .type)]],
        bracketed .block (.lbrace, k + 16) (.rbrace, k + 17) []]]

/-- What is read of a controller. -/
def controllerSigns : List Sign := (controllerWords []).map Word.sign

/-- What is read of a method. -/
def stubSigns : List Sign := (stubWords [] [] []).map Word.sign

theorem map_sign_controllerWords (type : List Char) :
    (controllerWords type).map Word.sign = controllerSigns := rfl

theorem map_sign_stubWords (type method verb : List Char) :
    (stubWords type method verb).map Word.sign = stubSigns := rfl

/-- The grammar reads a controller and methods behind it. The shape of the track is the same behind
all methods. -/
def readsControllers : Bool :=
  (Shape.next? goTables ⟨[]⟩ controllerSigns controllerOutlines).any fun x =>
    x.closes goTables &&
      (x.next? goTables stubSigns (stubOutlines x.entries.length)).any fun y =>
        y.closes goTables && y.next? goTables stubSigns (stubOutlines y.entries.length) = some y

theorem readsControllers_eq : readsControllers = true := by decide +kernel

theorem exists_shapes : ∃ x y : Shape,
    Shape.Reads goTables ⟨[]⟩ controllerSigns x controllerOutlines ∧ x.Closes goTables ∧
      x.Reads goTables stubSigns y (stubOutlines x.entries.length) ∧ y.Closes goTables ∧
      y.Reads goTables stubSigns y (stubOutlines y.entries.length) := by
  have hall := readsControllers_eq
  unfold readsControllers at hall
  obtain ⟨x, hx, hall⟩ := Option.any_eq_true _ _ |>.1 hall
  rw [Bool.and_eq_true] at hall
  obtain ⟨y, hy, hagain⟩ := Option.any_eq_true _ _ |>.1 hall.2
  rw [Bool.and_eq_true, decide_eq_true_iff] at hagain
  exact ⟨x, y, Shape.reads_of_next? hx, Shape.closes_iff.1 hall.1, Shape.reads_of_next? hy,
    Shape.closes_iff.1 hagain.1, Shape.reads_of_next? hagain.2⟩

end Scaffold
end RouteScribe
