import Lox.Command.Arguments
import Lox.Session.Prompt
import Lox.Tree.Ron
import Lox.Tree.Sexp

namespace Lox.Command

def helpText : String :=
  "Run a script, or start an interactive prompt when no script is given\n\n" ++
  "Usage: lox [OPTIONS] [SCRIPT]\n\n" ++
  "Arguments:\n" ++
  "  [SCRIPT]  The script to run\n\n" ++
  "Options:\n" ++
  "      --dump-ast   Print the parsed program as RON instead of running it\n" ++
  "      --print-ast  Print the parsed program in parenthesized form instead of running it\n" ++
  "  -h, --help       Print help\n" ++
  "  -V, --version    Print version\n"

def versionText : String :=
  "lox 0.1.0\n"

-- The rounds that a loop is given when the command runs a program. No run gets that far in any time
-- that could be waited for, so a loop that does not end is just not seen to end.
def fuel : Nat := Nat.pow 2 62

structure Report where
  code   : Nat
  output : List UInt8 := []
  errors : List UInt8 := []

def outcomeCode : Outcome → Nat
  | .success      => 0
  | .staticError  => 65
  | .runtimeError => 70

def failureCode : Nat := 74

def misuseCode : Nat := 64

def conclude (result : Except Failure Outcome) (s : Session) : Report :=
  match result with
  | .ok outcome     => ⟨outcomeCode outcome, s.machine.output.taken.toList, s.errors.taken.toList⟩
  | .error failure =>
    ⟨failureCode, s.machine.output.taken.toList,
      s.errors.taken.toList ++ Utf8.encode ("error: " ++ failure.text ++ "\n").toList⟩

def render (i : Invocation) (program : List Stmt) : String :=
  if i.dump then Stmt.programRon program else Stmt.programSexp program

def printFile (i : Invocation) (s : Session) (file : Except Failure (List UInt8)) :
    Except Failure Outcome × Session :=
  match file with
  | .error failure => (.error failure, s)
  | .ok bytes      =>
    match s.check (Utf8.lossyText bytes) with
    | (.error failure, s)                            => (.error failure, s)
    | (.ok none, s)                                  => (.ok .staticError, s)
    | (.ok (some program), ⟨⟨env, output⟩, errors⟩) =>
      match output.writeLine (render i program) with
      | (true, output)  => (.ok .success, ⟨⟨env, output⟩, errors⟩)
      | (false, output) => (.error .sinkFull, ⟨⟨env, output⟩, errors⟩)

-- All that a call does is told by its arguments, by the files that can be read and by the standard
-- input. With one of the printed forms the script is checked and shown, and nothing of it is run.
def perform (i : Invocation) (read : String → Except Failure (List UInt8)) (input : List UInt8) :
    Report :=
  match i.script with
  | some name =>
    let (result, s) :=
      if i.dump || i.print then printFile i {} (read name) else Session.runFile fuel {} (read name)
    conclude result s
  | none =>
    let (result, c) := Console.converse fuel {} (Lines.ofBytes input)
    conclude (result.map fun () => .success) c.session

def respond (r : Request) (read : String → Except Failure (List UInt8)) (input : List UInt8) :
    Report :=
  match r with
  | .help      => { code := 0, output := Utf8.encode helpText.toList }
  | .version   => { code := 0, output := Utf8.encode versionText.toList }
  | .misuse    => { code := misuseCode }
  | .perform i => perform i read input

end Lox.Command
