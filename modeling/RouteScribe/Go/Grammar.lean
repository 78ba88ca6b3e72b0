import RouteScribe.Go.Phrase

/-!
# RouteScribe.Go.Grammar

The grammar of Go source files as data. It is laxer than the language in places (clauses and
imports may stand anywhere, a statement is admitted where a declaration is) and stricter in one:
most declarations need a terminator even at the end of the file.

Ambiguities are settled by the annotations `left`, `right` and `level` where the grammar decides
alone, and by `favour` between whole parses.
-/

namespace RouteScribe
namespace Go

inductive Side where
  | left | right
  deriving DecidableEq, Repr

inductive Rule where
  | token (t : Token)
  | phrase (p : Phrase)
  | seq (rs : List Rule)
  | choice (rs : List Rule)
  /-- One or more times. -/
  | many1 (r : Rule)
  | field (f : Field) (r : Rule)
  /-- The symbols of `r` appear in the tree as nodes of kind `k`. -/
  | renamed (k : Kind) (r : Rule)
  /-- Binding strength, and grouping if any. -/
  | bound (n : Int) (s : Option Side) (r : Rule)
  /-- Weight in the choice between parses. -/
  | favour (d : Int) (r : Rule)

namespace Rule

instance : Coe Token Rule := ⟨token⟩
instance : Coe Phrase Rule := ⟨phrase⟩

def opt (r : Rule) : Rule := choice [r, seq []]

def many (r : Rule) : Rule := opt (many1 r)

/-- One or more times, with commas between. -/
def commaSeparated (r : Rule) : Rule := seq [r, many (seq [token .comma, r])]

def level (n : Int) (r : Rule) : Rule := bound n none r

def left (n : Int) (r : Rule) : Rule := bound n (some .left) r

def right (n : Int) (r : Rule) : Rule := bound n (some .right) r

end Rule

open Rule Token Phrase

/-- End of a declaration or statement. -/
def terminator : Rule := choice [newline, semicolon, nul]

def typeIdentifier : Rule := renamed (.alternate .typeIdentifier) identifier

def fieldIdentifier : Rule := renamed (.alternate .fieldIdentifier) identifier

def packageIdentifier : Rule := renamed (.alternate .packageIdentifier) identifier

def anyType : Rule := choice [simpleType, parenthesizedType]

/-- What needs no terminator at the end of the file. -/
def topLevelDeclaration : Rule :=
  choice [packageClause, functionDeclaration, methodDeclaration, importDeclaration]

def stringLiteral : Rule := choice [rawStringLiteral, interpretedStringLiteral]

def interfaceElem : Rule := choice [methodElem, typeElem]

/-- The definition of each phrase. -/
def Phrase.definition : Phrase → Rule
  | .sourceFile =>
    seq
      [many (choice [seq [statement, terminator], seq [topLevelDeclaration, terminator]]),
       opt topLevelDeclaration]
  | .packageClause => seq [packageKw, packageIdentifier]
  | .importDeclaration => seq [importKw, choice [importSpec, importSpecList]]
  | .importSpec =>
    seq [opt (field .name (choice [dot, underscore, packageIdentifier])), stringLiteral]
  | .dot => period
  | .importSpecList =>
    seq
      [lparen, opt (seq [importSpec, many (seq [terminator, importSpec]), opt terminator]),
       rparen]
  | .declaration => choice [constDeclaration, typeDeclaration, varDeclaration]
  | .constDeclaration =>
    seq [constKw, choice [constSpec, seq [lparen, many (seq [constSpec, terminator]), rparen]]]
  | .constSpec =>
    left 0
      (seq
         [field .name (commaSeparated identifier),
          opt (seq [opt (field .type anyType), assign, expressionList])])
  | .varDeclaration => seq [varKw, choice [varSpec, varSpecList]]
  | .varSpec =>
    seq
      [commaSeparated (field .name identifier),
       choice
         [seq [field .type anyType, opt (seq [assign, expressionList])],
          seq [assign, expressionList]]]
  | .varSpecList => seq [lparen, many (seq [varSpec, terminator]), rparen]
  | .functionDeclaration =>
    right 1
      (seq
         [funcKw, field .name identifier, opt typeParameterList, parameterList,
          opt (choice [parameterList, simpleType]), opt block])
  | .methodDeclaration =>
    right 1
      (seq
         [funcKw, field .receiver parameterList, field .name fieldIdentifier, parameterList,
          opt (choice [parameterList, simpleType]), opt block])
  | .typeParameterList => seq [lbrack, commaSeparated typeParameterDeclaration, opt comma, rbrack]
  | .typeParameterDeclaration =>
    seq
      [commaSeparated (field .name identifier),
       field .type (renamed (.alternate .typeConstraint) typeElem)]
  | .parameterList =>
    seq
      [lparen,
       opt
         (seq
            [opt (commaSeparated (choice [parameterDeclaration, variadicParameterDeclaration])),
             opt comma]),
       rparen]
  | .parameterDeclaration =>
    seq [opt (commaSeparated (field .name identifier)), field .type anyType]
  | .variadicParameterDeclaration =>
    seq [field .name (opt identifier), ellipsis, field .type anyType]
  | .typeAlias => seq [field .name typeIdentifier, assign, field .type anyType]
  | .typeDeclaration =>
    seq
      [typeKw,
       choice
         [typeSpec, typeAlias,
          seq [lparen, many (seq [choice [typeSpec, typeAlias], terminator]), rparen]]]
  | .typeSpec => seq [field .name typeIdentifier, opt typeParameterList, field .type anyType]
  | .expressionList => commaSeparated expression
  | .parenthesizedType => seq [lparen, anyType, rparen]
  | .simpleType =>
    choice
      [favour (-1) typeIdentifier, genericType, qualifiedType, pointerType, structType,
       interfaceType, arrayType, sliceType, mapType, channelType, functionType, negatedType]
  | .genericType =>
    favour 1
      (seq [field .type (choice [typeIdentifier, qualifiedType, negatedType]), typeArguments])
  | .typeArguments => favour 2 (seq [lbrack, commaSeparated typeElem, opt comma, rbrack])
  | .pointerType => level 6 (seq [star, anyType])
  | .arrayType => right 0 (seq [lbrack, expression, rbrack, anyType])
  | .implicitLengthArrayType => seq [lbrack, ellipsis, rbrack, anyType]
  | .sliceType => right 0 (seq [lbrack, rbrack, anyType])
  | .structType => seq [structKw, fieldDeclarationList]
  | .negatedType => left 0 (seq [tilde, anyType])
  | .fieldDeclarationList =>
    seq
      [lbrace,
       opt (seq [fieldDeclaration, many (seq [terminator, fieldDeclaration]), opt terminator]),
       rbrace]
  | .fieldDeclaration =>
    seq
      [choice
         [seq [commaSeparated (field .name fieldIdentifier), field .type anyType],
          seq [opt star, field .type (choice [typeIdentifier, qualifiedType, genericType])]],
       opt stringLiteral]
  | .interfaceType =>
    seq
      [interfaceKw, lbrace,
       opt (seq [interfaceElem, many (seq [terminator, interfaceElem]), opt terminator]), rbrace]
  | .methodElem =>
    seq [field .name fieldIdentifier, parameterList, opt (choice [parameterList, simpleType])]
  | .typeElem => seq [anyType, many (seq [bar, anyType])]
  | .mapType => right 0 (seq [mapKw, lbrack, anyType, rbrack, anyType])
  | .channelType =>
    left 0
      (choice
         [seq [chanKw, anyType], seq [chanKw, arrow, anyType],
          level 6 (seq [arrow, chanKw, anyType])])
  | .functionType =>
    right 0 (seq [funcKw, parameterList, opt (choice [parameterList, simpleType])])
  | .block => seq [lbrace, opt statementList, rbrace]
  | .statementList =>
    choice
      [seq
         [statement, many (seq [terminator, statement]),
          opt
            (seq [terminator, opt (renamed (.phrase .labeledStatement) emptyLabeledStatement)])],
       renamed (.phrase .labeledStatement) emptyLabeledStatement]
  | .statement =>
    choice
      [declaration, simpleStatement, returnStatement, goStatement, deferStatement, ifStatement,
       forStatement, expressionSwitchStatement, typeSwitchStatement, selectStatement,
       labeledStatement, fallthroughStatement, breakStatement, continueStatement, gotoStatement,
       block, emptyStatement]
  | .emptyStatement => semicolon
  | .simpleStatement =>
    choice
      [expressionStatement, sendStatement, incStatement, decStatement, assignmentStatement,
       shortVarDeclaration]
  | .expressionStatement => expression
  | .sendStatement => seq [expression, arrow, expression]
  | .receiveStatement => seq [opt (seq [expressionList, choice [assign, define]]), expression]
  | .incStatement => seq [expression, increment]
  | .decStatement => seq [expression, decrement]
  | .assignmentStatement =>
    seq
      [expressionList,
       choice
         [starAssign, slashAssign, percentAssign, shlAssign, shrAssign, ampAssign,
          ampCaretAssign, plusAssign, minusAssign, barAssign, caretAssign, assign],
       expressionList]
  | .shortVarDeclaration => seq [expressionList, define, expressionList]
  | .labeledStatement => seq [renamed (.alternate .labelName) identifier, colon, statement]
  | .emptyLabeledStatement => seq [renamed (.alternate .labelName) identifier, colon]
  | .fallthroughStatement => left 0 fallthroughKw
  | .breakStatement => seq [breakKw, opt (renamed (.alternate .labelName) identifier)]
  | .continueStatement => seq [continueKw, opt (renamed (.alternate .labelName) identifier)]
  | .gotoStatement => seq [gotoKw, renamed (.alternate .labelName) identifier]
  | .returnStatement => seq [returnKw, opt expressionList]
  | .goStatement => seq [goKw, expression]
  | .deferStatement => seq [deferKw, expression]
  | .ifStatement =>
    seq
      [ifKw, opt (seq [simpleStatement, semicolon]), expression, block,
       opt (seq [elseKw, choice [block, ifStatement]])]
  | .forStatement => seq [forKw, opt (choice [expression, forClause, rangeClause]), block]
  | .forClause =>
    seq [opt simpleStatement, semicolon, opt expression, semicolon, opt simpleStatement]
  | .rangeClause => seq [opt (seq [expressionList, choice [assign, define]]), rangeKw, expression]
  | .expressionSwitchStatement =>
    seq
      [switchKw, opt (seq [simpleStatement, semicolon]), opt expression, lbrace,
       many (choice [expressionCase, defaultCase]), rbrace]
  | .expressionCase => seq [caseKw, expressionList, colon, opt statementList]
  | .defaultCase => seq [defaultKw, colon, opt statementList]
  | .typeSwitchStatement =>
    seq [switchKw, typeSwitchHeader, lbrace, many (choice [typeCase, defaultCase]), rbrace]
  | .typeSwitchHeader =>
    seq
      [opt (seq [simpleStatement, semicolon]), opt (seq [expressionList, define]), expression,
       period, lparen, typeKw, rparen]
  | .typeCase => seq [caseKw, field .type (commaSeparated anyType), colon, opt statementList]
  | .selectStatement =>
    seq [selectKw, lbrace, many (choice [communicationCase, defaultCase]), rbrace]
  | .communicationCase =>
    seq [caseKw, choice [sendStatement, receiveStatement], colon, opt statementList]
  | .expression =>
    choice
      [unaryExpression, binaryExpression, selectorExpression, indexExpression, sliceExpression,
       callExpression, typeAssertionExpression, typeConversionExpression,
       typeInstantiationExpression, identifier,
       renamed (.token .identifier) (choice [newKw, makeKw]), compositeLiteral, funcLiteral,
       stringLiteral, int, float, imaginary, rune, nilKw, trueKw, falseKw, iotaKw,
       parenthesizedExpression]
  | .parenthesizedExpression => seq [lparen, expression, rparen]
  | .callExpression =>
    level 7
      (choice
         [seq
            [renamed (.token .identifier) (choice [newKw, makeKw]),
             renamed (.phrase .argumentList) specialArgumentList],
          seq [expression, opt typeArguments, argumentList]])
  | .variadicArgument => right 0 (seq [expression, ellipsis])
  | .specialArgumentList =>
    seq [lparen, opt (seq [anyType, many (seq [comma, expression]), opt comma]), rparen]
  | .argumentList =>
    seq
      [lparen,
       opt
         (seq
            [choice [expression, variadicArgument],
             many (seq [comma, choice [expression, variadicArgument]]), opt comma]),
       rparen]
  | .selectorExpression => level 7 (seq [expression, period, fieldIdentifier])
  | .indexExpression => level 7 (seq [expression, lbrack, expression, rbrack])
  | .sliceExpression =>
    level 7
      (seq
         [expression, lbrack,
          choice
            [seq [opt expression, colon, opt expression],
             seq [opt expression, colon, expression, colon, expression]],
          rbrack])
  | .typeAssertionExpression =>
    level 7 (seq [expression, period, lparen, field .type anyType, rparen])
  | .typeConversionExpression =>
    favour (-1) (seq [field .type anyType, lparen, expression, opt comma, rparen])
  | .typeInstantiationExpression =>
    favour (-1) (seq [field .type anyType, lbrack, commaSeparated anyType, opt comma, rbrack])
  | .compositeLiteral =>
    level (-1)
      (seq
         [field .type
            (choice
               [mapType, sliceType, arrayType, implicitLengthArrayType, structType,
                typeIdentifier, genericType, qualifiedType]),
          literalValue])
  | .literalValue =>
    seq
      [lbrace,
       opt (seq [opt (commaSeparated (choice [literalElement, keyedElement])), opt comma]),
       rbrace]
  | .literalElement => choice [expression, literalValue]
  | .keyedElement => seq [literalElement, colon, literalElement]
  | .funcLiteral => seq [funcKw, parameterList, opt (choice [parameterList, simpleType]), block]
  | .unaryExpression =>
    level 6 (seq [choice [plus, minus, bang, caret, star, amp, arrow], expression])
  | .binaryExpression =>
    choice
      [left 5
         (seq [expression, choice [star, slash, percent, shl, shr, amp, ampCaret], expression]),
       left 4 (seq [expression, choice [plus, minus, bar, caret], expression]),
       left 3
         (seq
            [expression, choice [equal, notEqual, less, lessEqual, greater, greaterEqual],
             expression]),
       left 2 (seq [expression, choice [andAnd], expression]),
       left 1 (seq [expression, choice [orOr], expression])]
  | .qualifiedType => seq [packageIdentifier, period, field .name typeIdentifier]
  | .rawStringLiteral => seq [backquote, renamed (.alternate .rawText) rawText, backquote]
  | .interpretedStringLiteral =>
    seq [quote, many (choice [renamed (.alternate .quotedText) quotedText, escape]), closingQuote]

end Go
end RouteScribe
