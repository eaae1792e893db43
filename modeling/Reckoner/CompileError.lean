import Reckoner.Token.Basic

/-!
# Errors of compilation

A text is refused because it is empty or because of a fault at one of its positions. The wording of
every fault is `Fault.message`.
-/

namespace Reckoner

/-- What is wrong with a text, a lexeme or a token sequence that does not come from a checked source
text. -/
inductive Malformation where
  /-- No pattern matches this text. -/
  | unclassifiable (text : String)
  /-- A lexeme has no character. -/
  | emptyLexeme
  /-- A lexeme is white space. -/
  | blankLexeme
  /-- This character is in the category of operators and stands for none. -/
  | unknownOperator (symbol : Char)
  /-- No opening parenthesis stands before this token. -/
  | unopened (kind : Token.Kind)
  /-- This token has no arguments but stands inside a group that ends. -/
  | unappliedInGroup (kind : Token.Kind)
  /-- This token is still waiting at the end. -/
  | unfinished (kind : Token.Kind)
  deriving DecidableEq

/-- The wording of a malformation. -/
def Malformation.message : Malformation → String
  | unclassifiable text => "unclassifiable input '" ++ text ++ "'"
  | emptyLexeme => "empty raw token"
  | blankLexeme => "whitespace reached the tokenizer"
  | unknownOperator symbol => "'" ++ symbol.toString ++ "' is not an operator"
  | unopened kind => "no '(' before '" ++ kind.text ++ "'"
  | unappliedInGroup kind => "unexpected '" ++ kind.text ++ "' inside parentheses"
  | unfinished kind => "unexpected '" ++ kind.text ++ "' left on the operator stack"

/-- What is wrong at a position of a source text. -/
inductive Fault where
  | unbalancedParentheses
  | invalidNumeral (text : String)
  | unknownFunction (name : String)
  /-- An operator is followed by something that cannot start an operand. -/
  | danglingOperator
  | emptyParentheses
  | misplacedComma
  /-- A call has another number of arguments than its function takes. -/
  | argumentCount (function : Builtin) (expected found : Nat)
  /-- The name of a function is not followed by its arguments. -/
  | missingArguments (function : Builtin)
  | missingOperand
  | missingOperator
  | malformed (reason : Malformation)
  deriving DecidableEq

/-- The wording of a fault. -/
def Fault.message : Fault → String
  | unbalancedParentheses => "Mismatched parentheses."
  | invalidNumeral text => "Invalid numeric literal '" ++ text ++ "'."
  | unknownFunction name => "Unknown function '" ++ name ++ "'."
  | danglingOperator => "Expected an operand after the operator."
  | emptyParentheses => "Empty parentheses."
  | misplacedComma => "Comma outside of a function's argument list."
  | argumentCount function expected found =>
    "Function " ++ function.name ++ " takes " ++ toString expected ++
      " argument(s), but " ++ toString found ++ " were supplied."
  | missingArguments function => "Expected '(' after function " ++ function.name ++ "."
  | missingOperand => "Operator is missing an operand."
  | missingOperator => "Expected an operator between operands."
  | malformed reason => "Malformed program: " ++ reason.message ++ "."

/-- Why a source text does not compile. -/
inductive CompileError where
  | emptyExpression
  | fault (cause : Fault) (position : Position)
  deriving DecidableEq

namespace CompileError

/-- The position of an error, which only an empty expression lacks. -/
def position? : CompileError → Option Position
  | emptyExpression => none
  | fault _ position => some position

/-- The wording of an error. -/
def message : CompileError → String
  | emptyExpression => "Error: Expression is empty."
  | fault cause position => "Error at " ++ position.text ++ ": " ++ cause.message

end CompileError

end Reckoner
