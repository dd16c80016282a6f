import Lox.Grammar.Program
import Lox.Lexeme.Scan
import Lox.Semantics.Evaluation
import Lox.Semantics.Sink

namespace Lox

inductive Location
  | unspecified
  | atEnd
  | atText (text : String)
  deriving DecidableEq

namespace Location

def of (l : Lexeme) : Location :=
  if l.token = .eof then atEnd else atText l.content

def text : Location → String
  | unspecified => ""
  | atEnd       => " at end"
  | atText text => " at '" ++ text ++ "'"

end Location

-- What is written about an error: the line of the source, the place on it, and what is wrong there.
-- The place is the text of a lexeme as it stands in the source, so this is one line unless the
-- lexeme is a string over several lines.
structure Message where
  line     : Nat
  location : Location
  content  : String
  deriving DecidableEq

def Message.text (m : Message) : String :=
  "[line " ++ String.ofList (Nat.toDigits 10 m.line) ++ "] Error" ++ m.location.text ++ ": " ++
  m.content

def ScanErrorKind.text : ScanErrorKind → String
  | unexpectedCharacter => "Unexpected character."
  | unterminatedString  => "Unterminated string."

def ScanError.message (e : ScanError) : Message where
  line     := e.line
  location := .unspecified
  content  := e.kind.text

def ParseErrorKind.text : ParseErrorKind → String
  | expectedRightParenAfterExpr          => "Expect ')' after expression."
  | expectedExpression                   => "Expect expression."
  | expectedSemicolonAfterValue          => "Expect ';' after value."
  | expectedSemicolonAfterExpr           => "Expect ';' after expression."
  | expectedVariableName                 => "Expect variable name."
  | expectedSemicolonAfterVarDeclaration => "Expect ';' after variable declaration."
  | expectedLeftParenAfterIf             => "Expect '(' after 'if'."
  | expectedRightParenAfterIfCondition   => "Expect ')' after if condition."
  | expectedLeftParenAfterWhile          => "Expect '(' after 'while'."
  | expectedRightParenAfterCondition     => "Expect ')' after condition."
  | expectedRightBraceAfterBlock         => "Expect '\x7d' after block."
  | invalidAssignmentTarget              => "Invalid assignment target."

def ParseError.message (e : ParseError) : Message where
  line     := e.lexeme.line
  location := .of e.lexeme
  content  := e.kind.text

def RuntimeError.text (e : RuntimeError) : String :=
  match e.kind with
  | .operandMustBeNumber            => "Operand must be a number."
  | .operandsMustBeNumbers          => "Operands must be numbers."
  | .operandsMustBeNumbersOrStrings => "Operands must be two numbers or two strings."
  | .undefinedVariable              => "Undefined variable '" ++ e.lexeme.content ++ "'."

def RuntimeError.message (e : RuntimeError) : Message where
  line     := e.lexeme.line
  location := .of e.lexeme
  content  := e.text

def Sink.report (s : Sink) : List Message → Bool × Sink
  | []      => (true, s)
  | m :: ms =>
    match s.writeLine m.text with
    | (true, s)  => s.report ms
    | (false, s) => (false, s)

end Lox
