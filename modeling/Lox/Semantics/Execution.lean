import Lox.Semantics.Evaluation
import Lox.Semantics.Sink

namespace Lox

structure Machine where
  env    : Environment := {}
  output : Sink := {}

inductive Stop
  | fault (f : Fault)
  | sinkFull
  | unbalanced
  deriving DecidableEq

inductive Run
  | done (m : Machine)
  | stopped (why : Stop) (m : Machine)
  | unfinished

namespace Machine

def eval (m : Machine) (e : Expr) : Except Fault Value × Machine :=
  let (result, env) := e.eval m.env
  (result, { m with env })

def enter (m : Machine) : Machine :=
  { m with env := m.env.enter }

def define (m : Machine) (name : String) (value : Value) : Machine :=
  { m with env := m.env.define name value }

def writeValue : Machine → Value → Run
  | ⟨env, output⟩, value =>
    match output.writeLine value.text with
    | (true, output)  => .done ⟨env, output⟩
    | (false, output) => .stopped .sinkFull ⟨env, output⟩

end Machine

namespace Run

-- Leaves a scope, however the run in it has ended, so that an error within a block does not leave
-- the block open. There is always a scope to leave, as no run leaves the globals.
def leave : Run → Run
  | done ⟨env, output⟩        =>
    match env.leave? with
    | some env => done ⟨env, output⟩
    | none     => stopped .unbalanced ⟨env, output⟩
  | stopped why ⟨env, output⟩ =>
    match env.leave? with
    | some env => stopped why ⟨env, output⟩
    | none     => stopped .unbalanced ⟨env, output⟩
  | unfinished => unfinished

end Run

-- A program may run for ever, so execution is given fuel, which bounds the rounds of each loop. A
-- run that does not run out of it is a run of the program, and no other fuel gives a different one,
-- see `Stmt.interpret_eq_of_le`.
def repeatWhile (condition : Expr) (body : Machine → Run) : Nat → Machine → Run
  | 0,        _ => .unfinished
  | fuel + 1, m =>
    match m.eval condition with
    | (.error fault, m) => .stopped (.fault fault) m
    | (.ok value, m)    =>
      if value.truthy then
        match body m with
        | .done m         => repeatWhile condition body fuel m
        | .stopped why m  => .stopped why m
        | .unfinished     => .unfinished
      else .done m

namespace Stmt

mutual

def exec (fuel : Nat) : Stmt → Machine → Run
  | .print value, m =>
    match m.eval value with
    | (.ok value, m)    => m.writeValue value
    | (.error fault, m) => .stopped (.fault fault) m
  | .expression value, m =>
    match m.eval value with
    | (.ok _, m)        => .done m
    | (.error fault, m) => .stopped (.fault fault) m
  | .declare name none, m => .done (m.define name.content .nil)
  | .declare name (some initial), m =>
    match m.eval initial with
    | (.ok value, m)    => .done (m.define name.content value)
    | (.error fault, m) => .stopped (.fault fault) m
  | .block body, m => (execAll fuel body m.enter).leave
  | .ifThen condition branch, m =>
    match m.eval condition with
    | (.ok value, m)    => if value.truthy then branch.exec fuel m else .done m
    | (.error fault, m) => .stopped (.fault fault) m
  | .ifElse condition branch otherwise, m =>
    match m.eval condition with
    | (.ok value, m)    => if value.truthy then branch.exec fuel m else otherwise.exec fuel m
    | (.error fault, m) => .stopped (.fault fault) m
  | .loop condition body, m => repeatWhile condition (body.exec fuel) fuel m

def execAll (fuel : Nat) : List Stmt → Machine → Run
  | [],            m => .done m
  | stmt :: stmts, m =>
    match stmt.exec fuel m with
    | .done m        => execAll fuel stmts m
    | .stopped why m => .stopped why m
    | .unfinished    => .unfinished

end

-- At the top of a program an expression shows its value, which is what makes a prompt of use.
-- Within a block or behind a condition it is only evaluated.
def execTop (fuel : Nat) : Stmt → Machine → Run
  | .expression value, m => (Stmt.print value).exec fuel m
  | stmt,              m => stmt.exec fuel m

def interpret (fuel : Nat) : List Stmt → Machine → Run
  | [],            m => .done m
  | stmt :: stmts, m =>
    match stmt.execTop fuel m with
    | .done m        => interpret fuel stmts m
    | .stopped why m => .stopped why m
    | .unfinished    => .unfinished

end Stmt
end Lox
