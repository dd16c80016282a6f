import Lox.Text.Quoted
import Lox.Tree.Basic

namespace Lox

-- The parts of the object notation RON that trees need. A variant holds one value, and a record
-- holds its fields in order. Each item and each field has a line of its own, with a comma behind
-- it.
inductive Ron
  | bare (text : String)
  | variant (name : String) (payload : Ron)
  | list (items : List Ron)
  | record (fields : List (String × Ron))

namespace Ron

def indent (level : Nat) : String :=
  "".pushn ' ' (4 * level)

mutual

def pretty (level : Nat) : Ron → String
  | bare text            => text
  | variant name payload => name ++ "(" ++ payload.pretty level ++ ")"
  | list []              => "[]"
  | list (item :: items) =>
    "[\n" ++ prettyItems (level + 1) (item :: items) ++ indent level ++ "]"
  | record fields => "(\n" ++ prettyFields (level + 1) fields ++ indent level ++ ")"

def prettyItems (level : Nat) : List Ron → String
  | []            => ""
  | item :: items => indent level ++ item.pretty level ++ ",\n" ++ prettyItems level items

def prettyFields (level : Nat) : List (String × Ron) → String
  | []                      => ""
  | (name, value) :: fields =>
    indent level ++ name ++ ": " ++ value.pretty level ++ ",\n" ++ prettyFields level fields

end

def string (text : String) : Ron :=
  bare (Text.quoted text)

def number (x : Float) : Ron :=
  let text := Numeral.write x
  bare <| if x.isFinite && !text.contains '.' then text ++ ".0" else text

def option : Option Ron → Ron
  | none       => bare "None"
  | some value => variant "Some" value

end Ron

def Value.ron : Value → Ron
  | nil           => .bare "Nil"
  | boolean true  => .variant "Boolean" (.bare "true")
  | boolean false => .variant "Boolean" (.bare "false")
  | number x      => .variant "Number" (.number x)
  | string text   => .variant "String" (.string text)

def Keyword.ronName : Keyword → String
  | andWord    => "And"
  | classWord  => "Class"
  | elseWord   => "Else"
  | funWord    => "Fun"
  | forWord    => "For"
  | ifWord     => "If"
  | orWord     => "Or"
  | printWord  => "Print"
  | returnWord => "Return"
  | superWord  => "Super"
  | thisWord   => "This"
  | varWord    => "Var"
  | whileWord  => "While"

def Token.ron : Token → Ron
  | leftParen                => .bare "LeftParen"
  | rightParen               => .bare "RightParen"
  | leftBrace                => .bare "LeftBrace"
  | rightBrace               => .bare "RightBrace"
  | comma                    => .bare "Comma"
  | dot                      => .bare "Dot"
  | minus                    => .bare "Minus"
  | plus                     => .bare "Plus"
  | semicolon                => .bare "Semicolon"
  | slash                    => .bare "Slash"
  | star                     => .bare "Star"
  | bang                     => .bare "Bang"
  | bangEqual                => .bare "BangEqual"
  | equal                    => .bare "Equal"
  | equalEqual               => .bare "EqualEqual"
  | greater                  => .bare "Greater"
  | greaterEqual             => .bare "GreaterEqual"
  | less                     => .bare "Less"
  | lessEqual                => .bare "LessEqual"
  | literal .nil             => .bare "Nil"
  | literal (.boolean true)  => .bare "True"
  | literal (.boolean false) => .bare "False"
  | literal (.number x)      => .variant "Number" (.number x)
  | literal (.string text)   => .variant "String" (.string text)
  | identifier name          => .variant "Identifier" (.string name)
  | keyword word             => .variant "Keyword" (.bare word.ronName)
  | eof                      => .bare "Eof"

def Lexeme.ron (l : Lexeme) : Ron :=
  .record [
    ("token", l.token.ron),
    ("content", .string l.content),
    ("line", .bare (String.ofList (Nat.toDigits 10 l.line)))]

def Expr.ron : Expr → Ron
  | .literal value          => .variant "Literal" value.ron
  | .variable name          => .variant "Variable" name.ron
  | .grouping inner         => .variant "Grouping" inner.ron
  | .unary operator operand =>
    .variant "Unary" <| .record [("operator", operator.ron), ("right", operand.ron)]
  | .binary left operator right =>
    .variant "Binary" <|
      .record [("left", left.ron), ("operator", operator.ron), ("right", right.ron)]
  | .logical left operator right =>
    .variant "Logical" <|
      .record [("left", left.ron), ("operator", operator.ron), ("right", right.ron)]
  | .assign name value =>
    .variant "Assign" <| .record [("name", name.ron), ("value", value.ron)]

def Expr.conditionalRon (condition : Expr) (branch : Ron) (otherwise : Option Ron) : Ron :=
  .variant "If" <|
    .record [
      ("condition", condition.ron),
      ("then_branch", branch),
      ("else_branch", .option otherwise)]

namespace Stmt

mutual

def ron : Stmt → Ron
  | .print value                       => .variant "Print" value.ron
  | .expression value                  => .variant "Expression" value.ron
  | .declare name initial              =>
    .variant "VarDeclaration" <|
      .record [("name", name.ron), ("initializer", .option (initial.map Expr.ron))]
  | .block body                        => .variant "Block" (.list (rons body))
  | .ifThen condition branch           => condition.conditionalRon branch.ron none
  | .ifElse condition branch otherwise => condition.conditionalRon branch.ron otherwise.ron
  | .loop condition body               =>
    .variant "While" <| .record [("condition", condition.ron), ("body", body.ron)]

def rons : List Stmt → List Ron
  | []            => []
  | stmt :: stmts => stmt.ron :: rons stmts

end

def programRon (program : List Stmt) : String :=
  (Ron.list (rons program)).pretty 0

end Stmt
end Lox
