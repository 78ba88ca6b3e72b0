import RouteScribe.Go.Token

/-!
# RouteScribe.Go.Phrase

The phrases (nonterminal symbols) of the Go grammar and the kinds of the nodes of its syntax
trees.
-/

namespace RouteScribe
namespace Go

inductive Phrase where
  | sourceFile | packageClause | importDeclaration | importSpec | dot | importSpecList
  | declaration | constDeclaration | constSpec | varDeclaration | varSpec | varSpecList
  | functionDeclaration | methodDeclaration | typeParameterList | typeParameterDeclaration
  | parameterList | parameterDeclaration | variadicParameterDeclaration | typeAlias
  | typeDeclaration | typeSpec | expressionList | parenthesizedType | simpleType | genericType
  | typeArguments | pointerType | arrayType | implicitLengthArrayType | sliceType | structType
  | negatedType | fieldDeclarationList | fieldDeclaration | interfaceType | methodElem
  | typeElem | mapType | channelType | functionType | block | statementList | statement
  | emptyStatement | simpleStatement | expressionStatement | sendStatement | receiveStatement
  | incStatement | decStatement | assignmentStatement | shortVarDeclaration | labeledStatement
  | emptyLabeledStatement | fallthroughStatement | breakStatement | continueStatement
  | gotoStatement | returnStatement | goStatement | deferStatement | ifStatement | forStatement
  | forClause | rangeClause | expressionSwitchStatement | expressionCase | defaultCase
  | typeSwitchStatement | typeSwitchHeader | typeCase | selectStatement | communicationCase
  | expression | parenthesizedExpression | callExpression | variadicArgument
  | specialArgumentList | argumentList | selectorExpression | indexExpression | sliceExpression
  | typeAssertionExpression | typeConversionExpression | typeInstantiationExpression
  | compositeLiteral | literalValue | literalElement | keyedElement | funcLiteral
  | unaryExpression | binaryExpression | qualifiedType | rawStringLiteral
  | interpretedStringLiteral
  deriving DecidableEq, Repr, Inhabited

namespace Phrase

/-- Number of the phrase in the order above. -/
def index (p : Phrase) : Nat := p.ctorIdx

def label : Phrase → String
  | .sourceFile => "source_file"
  | .packageClause => "package_clause"
  | .importDeclaration => "import_declaration"
  | .importSpec => "import_spec"
  | .dot => "dot"
  | .importSpecList => "import_spec_list"
  | .declaration => "declaration"
  | .constDeclaration => "const_declaration"
  | .constSpec => "const_spec"
  | .varDeclaration => "var_declaration"
  | .varSpec => "var_spec"
  | .varSpecList => "var_spec_list"
  | .functionDeclaration => "function_declaration"
  | .methodDeclaration => "method_declaration"
  | .typeParameterList => "type_parameter_list"
  | .typeParameterDeclaration => "type_parameter_declaration"
  | .parameterList => "parameter_list"
  | .parameterDeclaration => "parameter_declaration"
  | .variadicParameterDeclaration => "variadic_parameter_declaration"
  | .typeAlias => "type_alias"
  | .typeDeclaration => "type_declaration"
  | .typeSpec => "type_spec"
  | .expressionList => "expression_list"
  | .parenthesizedType => "parenthesized_type"
  | .simpleType => "simple_type"
  | .genericType => "generic_type"
  | .typeArguments => "type_arguments"
  | .pointerType => "pointer_type"
  | .arrayType => "array_type"
  | .implicitLengthArrayType => "implicit_length_array_type"
  | .sliceType => "slice_type"
  | .structType => "struct_type"
  | .negatedType => "negated_type"
  | .fieldDeclarationList => "field_declaration_list"
  | .fieldDeclaration => "field_declaration"
  | .interfaceType => "interface_type"
  | .methodElem => "method_elem"
  | .typeElem => "type_elem"
  | .mapType => "map_type"
  | .channelType => "channel_type"
  | .functionType => "function_type"
  | .block => "block"
  | .statementList => "statement_list"
  | .statement => "statement"
  | .emptyStatement => "empty_statement"
  | .simpleStatement => "simple_statement"
  | .expressionStatement => "expression_statement"
  | .sendStatement => "send_statement"
  | .receiveStatement => "receive_statement"
  | .incStatement => "inc_statement"
  | .decStatement => "dec_statement"
  | .assignmentStatement => "assignment_statement"
  | .shortVarDeclaration => "short_var_declaration"
  | .labeledStatement => "labeled_statement"
  | .emptyLabeledStatement => "empty_labeled_statement"
  | .fallthroughStatement => "fallthrough_statement"
  | .breakStatement => "break_statement"
  | .continueStatement => "continue_statement"
  | .gotoStatement => "goto_statement"
  | .returnStatement => "return_statement"
  | .goStatement => "go_statement"
  | .deferStatement => "defer_statement"
  | .ifStatement => "if_statement"
  | .forStatement => "for_statement"
  | .forClause => "for_clause"
  | .rangeClause => "range_clause"
  | .expressionSwitchStatement => "expression_switch_statement"
  | .expressionCase => "expression_case"
  | .defaultCase => "default_case"
  | .typeSwitchStatement => "type_switch_statement"
  | .typeSwitchHeader => "type_switch_header"
  | .typeCase => "type_case"
  | .selectStatement => "select_statement"
  | .communicationCase => "communication_case"
  | .expression => "expression"
  | .parenthesizedExpression => "parenthesized_expression"
  | .callExpression => "call_expression"
  | .variadicArgument => "variadic_argument"
  | .specialArgumentList => "special_argument_list"
  | .argumentList => "argument_list"
  | .selectorExpression => "selector_expression"
  | .indexExpression => "index_expression"
  | .sliceExpression => "slice_expression"
  | .typeAssertionExpression => "type_assertion_expression"
  | .typeConversionExpression => "type_conversion_expression"
  | .typeInstantiationExpression => "type_instantiation_expression"
  | .compositeLiteral => "composite_literal"
  | .literalValue => "literal_value"
  | .literalElement => "literal_element"
  | .keyedElement => "keyed_element"
  | .funcLiteral => "func_literal"
  | .unaryExpression => "unary_expression"
  | .binaryExpression => "binary_expression"
  | .qualifiedType => "qualified_type"
  | .rawStringLiteral => "raw_string_literal"
  | .interpretedStringLiteral => "interpreted_string_literal"

def all : List Phrase :=
  [.sourceFile, .packageClause, .importDeclaration, .importSpec, .dot, .importSpecList,
   .declaration, .constDeclaration, .constSpec, .varDeclaration, .varSpec, .varSpecList,
   .functionDeclaration, .methodDeclaration, .typeParameterList, .typeParameterDeclaration,
   .parameterList, .parameterDeclaration, .variadicParameterDeclaration, .typeAlias,
   .typeDeclaration, .typeSpec, .expressionList, .parenthesizedType, .simpleType, .genericType,
   .typeArguments, .pointerType, .arrayType, .implicitLengthArrayType, .sliceType, .structType,
   .negatedType, .fieldDeclarationList, .fieldDeclaration, .interfaceType, .methodElem,
   .typeElem, .mapType, .channelType, .functionType, .block, .statementList, .statement,
   .emptyStatement, .simpleStatement, .expressionStatement, .sendStatement, .receiveStatement,
   .incStatement, .decStatement, .assignmentStatement, .shortVarDeclaration, .labeledStatement,
   .emptyLabeledStatement, .fallthroughStatement, .breakStatement, .continueStatement,
   .gotoStatement, .returnStatement, .goStatement, .deferStatement, .ifStatement,
   .forStatement, .forClause, .rangeClause, .expressionSwitchStatement, .expressionCase,
   .defaultCase, .typeSwitchStatement, .typeSwitchHeader, .typeCase, .selectStatement,
   .communicationCase, .expression, .parenthesizedExpression, .callExpression,
   .variadicArgument, .specialArgumentList, .argumentList, .selectorExpression,
   .indexExpression, .sliceExpression, .typeAssertionExpression, .typeConversionExpression,
   .typeInstantiationExpression, .compositeLiteral, .literalValue, .literalElement,
   .keyedElement, .funcLiteral, .unaryExpression, .binaryExpression, .qualifiedType,
   .rawStringLiteral, .interpretedStringLiteral]

/-- Phrases that only group others: a tree has their parts in their place. -/
def isHidden : Phrase → Bool
  | .declaration | .simpleType | .statementList | .statement | .simpleStatement | .typeSwitchHeader | .expression => true
  | _ => false

end Phrase

/-- Names that a symbol has only in certain places of the grammar. -/
inductive Alias where
  | typeIdentifier | fieldIdentifier | packageIdentifier | labelName | typeConstraint
  | rawText | quotedText
  deriving DecidableEq, Repr

def Alias.label : Alias → String
  | .typeIdentifier => "type_identifier"
  | .fieldIdentifier => "field_identifier"
  | .packageIdentifier => "package_identifier"
  | .labelName => "label_name"
  | .typeConstraint => "type_constraint"
  | .rawText => "raw_string_literal_content"
  | .quotedText => "interpreted_string_literal_content"

inductive Kind where
  | token (t : Token)
  | phrase (p : Phrase)
  | alternate (a : Alias)
  | error
  deriving DecidableEq, Repr

namespace Kind

def label : Kind → String
  | token t => t.label
  | phrase p => p.label
  | alternate a => a.label
  | error => "ERROR"

/-- Nodes of this kind count as parts of their parent, not as mere punctuation or keywords. -/
def isNamed : Kind → Bool
  | token t => t.isNamed
  | _ => true

end Kind

/-- The parts of a phrase that are asked for by name. -/
inductive Field where
  | name | receiver | type
  deriving DecidableEq, Repr

end Go
end RouteScribe
