import Lox.Semantics.Execution
import Lox.Session.Message

namespace Lox

inductive Outcome
  | success
  | staticError
  | runtimeError
  deriving DecidableEq

-- Why there is no outcome. Fuel is the only failure that a session brings about by itself: a crash
-- would take a tree that was not read from lexemes, and all others come from a sink, a file or the
-- input.
inductive Failure
  | sinkFull
  | invalidText
  | notFound
  | isDirectory
  | crashed
  | unfinished
  deriving DecidableEq

def Failure.text : Failure → String
  | sinkFull    => "sink full"
  | invalidText => "stream did not contain valid UTF-8"
  | notFound    => "No such file or directory (os error 2)"
  | isDirectory => "Is a directory (os error 21)"
  | crashed     => "unreachable code"
  | unfinished  => "out of fuel"

def Parsed.ofLexemes (lexemes : List Lexeme) : Parsed :=
  (parse? lexemes).getD { statements := [], errors := [] }

structure Session where
  machine : Machine := {}
  errors  : Sink := {}

namespace Session

def report (s : Session) (messages : List Message) : Bool × Session :=
  match s with
  | ⟨machine, errors⟩ =>
    let (fits, errors) := errors.report messages
    (fits, ⟨machine, errors⟩)

-- Reports all errors that can be found without running, those of scanning first. Errors of scanning
-- do not keep the lexemes from being parsed, but only a source without any error is a program.
def check (s : Session) (source : String) : Except Failure (Option (List Stmt)) × Session :=
  let scan := Scan.ofSource source
  match s.report (scan.errors.map ScanError.message) with
  | (false, s) => (.error .sinkFull, s)
  | (true, s)  =>
    let parsed := Parsed.ofLexemes scan.lexemes
    match s.report (parsed.errors.map ParseError.message) with
    | (false, s) => (.error .sinkFull, s)
    | (true, s)  =>
      if scan.errors.isEmpty && parsed.errors.isEmpty then (.ok (some parsed.statements), s)
      else (.ok none, s)

def conclude (errors : Sink) : Run → Except Failure Outcome × Session
  | .done machine                       => (.ok .success, ⟨machine, errors⟩)
  | .stopped (.fault (.error e)) machine =>
    match errors.writeLine e.message.text with
    | (true, errors)  => (.ok .runtimeError, ⟨machine, errors⟩)
    | (false, errors) => (.error .sinkFull, ⟨machine, errors⟩)
  | .stopped .sinkFull machine          => (.error .sinkFull, ⟨machine, errors⟩)
  | .stopped _ machine                  => (.error .crashed, ⟨machine, errors⟩)
  | .unfinished                         => (.error .unfinished, ⟨{}, errors⟩)

def run (fuel : Nat) (s : Session) (source : String) : Except Failure Outcome × Session :=
  match s.check source with
  | (.error failure, s)                    => (.error failure, s)
  | (.ok none, s)                          => (.ok .staticError, s)
  | (.ok (some program), ⟨machine, errors⟩) => conclude errors (Stmt.interpret fuel program machine)

def runFile (fuel : Nat) (s : Session) (file : Except Failure (List UInt8)) :
    Except Failure Outcome × Session :=
  match file with
  | .ok bytes      => s.run fuel (Utf8.lossyText bytes)
  | .error failure => (.error failure, s)

end Session
end Lox
