import Lox.Semantics.Value

namespace Lox

inductive Keyword
  | andWord | classWord | elseWord | funWord | forWord | ifWord | orWord | printWord | returnWord
  | superWord | thisWord | varWord | whileWord
  deriving DecidableEq

-- The words before which recovery stops. Among them are those of statements that the grammar does
-- not know, so that such a statement is an error of its own, but nothing of it is read.
def Keyword.startsStatement : Keyword → Bool
  | classWord | funWord | varWord | forWord | ifWord | whileWord | printWord | returnWord => true
  | _ => false

inductive Token
  | leftParen | rightParen | leftBrace | rightBrace
  | comma | dot | minus | plus | semicolon | slash | star
  | bang | bangEqual | equal | equalEqual | greater | greaterEqual | less | lessEqual
  | literal (value : Value)
  | identifier (name : String)
  | keyword (word : Keyword)
  | eof
  deriving DecidableEq

namespace Token

def ofWord : String → Token
  | "and"    => keyword .andWord
  | "class"  => keyword .classWord
  | "else"   => keyword .elseWord
  | "false"  => literal (.boolean false)
  | "for"    => keyword .forWord
  | "fun"    => keyword .funWord
  | "if"     => keyword .ifWord
  | "nil"    => literal .nil
  | "or"     => keyword .orWord
  | "print"  => keyword .printWord
  | "return" => keyword .returnWord
  | "super"  => keyword .superWord
  | "this"   => keyword .thisWord
  | "true"   => literal (.boolean true)
  | "var"    => keyword .varWord
  | "while"  => keyword .whileWord
  | word     => identifier word

def startsStatement : Token → Bool
  | keyword word => word.startsStatement
  | _            => false

end Token

structure Lexeme where
  token   : Token
  content : String
  line    : Nat
  deriving DecidableEq

end Lox
