import CoercionTrace.Text.Visible

/-!
# Node kinds

The kinds of syntax nodes that instrumentation tells apart; every other kind keeps the name that
the grammar gives it.
-/

namespace CoercionTrace

inductive Kind
  | program
  | hashBangLine
  | comment
  | expressionStatement
  | variableDeclaration
  | lexicalDeclaration
  | variableDeclarator
  | returnStatement
  | statementBlock
  | catchClause
  | forInStatement
  | functionDeclaration
  | functionExpression
  | generatorFunction
  | generatorFunctionDeclaration
  | arrowFunction
  | methodDefinition
  | classExpression
  | classDeclaration
  | formalParameters
  | assignmentPattern
  | restPattern
  | objectPattern
  | arrayPattern
  | pairPattern
  | binaryExpression
  | assignmentExpression
  | augmentedAssignmentExpression
  | callExpression
  | arguments
  | memberExpression
  | subscriptExpression
  | parenthesizedExpression
  | sequenceExpression
  | spreadElement
  | identifier
  | shorthandPropertyIdentifier
  | shorthandPropertyIdentifierPattern
  | propertyIdentifier
  | stringLiteral
  | superKeyword
  | other (grammarName : String)
  deriving DecidableEq, Inhabited

namespace Kind

def ofGrammar : String → Kind
  | "program" => .program
  | "hash_bang_line" => .hashBangLine
  | "comment" => .comment
  | "expression_statement" => .expressionStatement
  | "variable_declaration" => .variableDeclaration
  | "lexical_declaration" => .lexicalDeclaration
  | "variable_declarator" => .variableDeclarator
  | "return_statement" => .returnStatement
  | "statement_block" => .statementBlock
  | "catch_clause" => .catchClause
  | "for_in_statement" => .forInStatement
  | "function_declaration" => .functionDeclaration
  | "function_expression" => .functionExpression
  | "function" => .functionExpression
  | "generator_function" => .generatorFunction
  | "generator_function_declaration" => .generatorFunctionDeclaration
  | "arrow_function" => .arrowFunction
  | "method_definition" => .methodDefinition
  | "class" => .classExpression
  | "class_declaration" => .classDeclaration
  | "formal_parameters" => .formalParameters
  | "assignment_pattern" => .assignmentPattern
  | "rest_pattern" => .restPattern
  | "object_pattern" => .objectPattern
  | "array_pattern" => .arrayPattern
  | "pair_pattern" => .pairPattern
  | "binary_expression" => .binaryExpression
  | "assignment_expression" => .assignmentExpression
  | "augmented_assignment_expression" => .augmentedAssignmentExpression
  | "call_expression" => .callExpression
  | "arguments" => .arguments
  | "member_expression" => .memberExpression
  | "subscript_expression" => .subscriptExpression
  | "parenthesized_expression" => .parenthesizedExpression
  | "sequence_expression" => .sequenceExpression
  | "spread_element" => .spreadElement
  | "identifier" => .identifier
  | "shorthand_property_identifier" => .shorthandPropertyIdentifier
  | "shorthand_property_identifier_pattern" => .shorthandPropertyIdentifierPattern
  | "property_identifier" => .propertyIdentifier
  | "string" => .stringLiteral
  | "super" => .superKeyword
  | name => .other name

def label : Kind → String
  | .program => "Program"
  | .hashBangLine => "HashBangLine"
  | .comment => "Comment"
  | .expressionStatement => "ExpressionStatement"
  | .variableDeclaration => "VariableDeclaration"
  | .lexicalDeclaration => "LexicalDeclaration"
  | .variableDeclarator => "VariableDeclarator"
  | .returnStatement => "ReturnStatement"
  | .statementBlock => "StatementBlock"
  | .catchClause => "CatchClause"
  | .forInStatement => "ForInStatement"
  | .functionDeclaration => "FunctionDeclaration"
  | .functionExpression => "FunctionExpression"
  | .generatorFunction => "GeneratorFunction"
  | .generatorFunctionDeclaration => "GeneratorFunctionDeclaration"
  | .arrowFunction => "ArrowFunction"
  | .methodDefinition => "MethodDefinition"
  | .classExpression => "Class"
  | .classDeclaration => "ClassDeclaration"
  | .formalParameters => "FormalParameters"
  | .assignmentPattern => "AssignmentPattern"
  | .restPattern => "RestPattern"
  | .objectPattern => "ObjectPattern"
  | .arrayPattern => "ArrayPattern"
  | .pairPattern => "PairPattern"
  | .binaryExpression => "BinaryExpression"
  | .assignmentExpression => "AssignmentExpression"
  | .augmentedAssignmentExpression => "AugmentedAssignmentExpression"
  | .callExpression => "CallExpression"
  | .arguments => "Arguments"
  | .memberExpression => "MemberExpression"
  | .subscriptExpression => "SubscriptExpression"
  | .parenthesizedExpression => "ParenthesizedExpression"
  | .sequenceExpression => "SequenceExpression"
  | .spreadElement => "SpreadElement"
  | .identifier => "Identifier"
  | .shorthandPropertyIdentifier => "ShorthandPropertyIdentifier"
  | .shorthandPropertyIdentifierPattern => "ShorthandPropertyIdentifierPattern"
  | .propertyIdentifier => "PropertyIdentifier"
  | .stringLiteral => "String"
  | .superKeyword => "Super"
  | .other name => "Other(" ++ Text.visible name ++ ")"

def isFunctionLike : Kind → Bool
  | functionDeclaration | functionExpression | generatorFunction | generatorFunctionDeclaration
  | arrowFunction | methodDefinition => true
  | _ => false

def isDeclaration : Kind → Bool
  | functionDeclaration | generatorFunctionDeclaration | classDeclaration => true
  | _ => false

end Kind

end CoercionTrace
