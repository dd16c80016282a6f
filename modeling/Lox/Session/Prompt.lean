import Lox.Session.Basic
import Lox.Text.Lines

namespace Lox

-- A session that reads its source line by line. Prompts go to a sink of their own, or without one
-- to the output of the program, where they stand between the lines that it prints.
structure Console where
  session : Session := {}
  prompts : Option Sink := none

namespace Console

def write : Console → String → Bool × Console
  | ⟨session, some prompts⟩, text =>
    let (fits, prompts) := prompts.write text
    (fits, ⟨session, some prompts⟩)
  | ⟨⟨⟨env, output⟩, errors⟩, none⟩, text =>
    let (fits, output) := output.write text
    (fits, ⟨⟨⟨env, output⟩, errors⟩, none⟩)

def run (fuel : Nat) : Console → String → Except Failure Outcome × Console
  | ⟨session, prompts⟩, source =>
    let (result, session) := session.run fuel source
    (result, ⟨session, prompts⟩)

def ask (c : Console) : Bool × Console :=
  c.write "> "

def answer (fuel : Nat) (c : Console) (line : List UInt8) : Except Failure Outcome × Console :=
  match Utf8.text? line with
  | none        => (.error .invalidText, c)
  | some source => c.run fuel source

-- Every line is asked for, also the one that then turns out to be missing. An outcome is no reason
-- to stop, whichever it is, so the lines affect each other through the globals only.
def converse (fuel : Nat) (c : Console) (lines : List (List UInt8)) :
    Except Failure Unit × Console :=
  match c.ask with
  | (false, c) => (.error .sinkFull, c)
  | (true, c)  =>
    match lines with
    | [] =>
      match c.write "\n" with
      | (false, c) => (.error .sinkFull, c)
      | (true, c)  => (.ok (), c)
    | line :: lines =>
      match c.answer fuel line with
      | (.error failure, c) => (.error failure, c)
      | (.ok _, c)          => converse fuel c lines

end Console
end Lox
