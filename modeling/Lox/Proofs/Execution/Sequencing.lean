import Lox.Semantics.Execution

namespace Lox

def Run.andThen (r : Run) (next : Machine → Run) : Run :=
  match r with
  | done m        => next m
  | stopped why m => stopped why m
  | unfinished    => unfinished

namespace Machine

def evaluate (m : Machine) (e : Expr) (next : Value → Machine → Run) : Run :=
  match m.eval e with
  | (.ok value, m)    => next value m
  | (.error fault, m) => .stopped (.fault fault) m

end Machine

theorem repeatWhile_succ (condition : Expr) (body : Machine → Run) (fuel : Nat) (m : Machine) :
    repeatWhile condition body (fuel + 1) m = m.evaluate condition fun value m =>
      if value.truthy then (body m).andThen (repeatWhile condition body fuel) else .done m := by
  rw [repeatWhile, Machine.evaluate]
  rcases m.eval condition with ⟨_ | value, m⟩
  case error => rfl
  case ok => cases h : body m <;> simp only [h, Run.andThen]

namespace Stmt

variable (fuel : Nat) (m : Machine)

theorem exec_print (value : Expr) :
    (print value).exec fuel m = m.evaluate value fun v m => m.writeValue v :=
  rfl

theorem exec_expression (value : Expr) :
    (expression value).exec fuel m = m.evaluate value fun _ m => .done m :=
  rfl

theorem exec_declare_none (name : Lexeme) :
    (declare name none).exec fuel m = .done (m.define name.content .nil) :=
  rfl

theorem exec_declare_some (name : Lexeme) (initial : Expr) :
    (declare name (some initial)).exec fuel m =
      m.evaluate initial fun v m => .done (m.define name.content v) :=
  rfl

theorem exec_block (body : List Stmt) :
    (block body).exec fuel m = (execAll fuel body m.enter).leave :=
  rfl

theorem exec_ifThen (condition : Expr) (branch : Stmt) :
    (ifThen condition branch).exec fuel m = m.evaluate condition fun v m =>
      if v.truthy then branch.exec fuel m else .done m :=
  rfl

theorem exec_ifElse (condition : Expr) (branch otherwise : Stmt) :
    (ifElse condition branch otherwise).exec fuel m = m.evaluate condition fun v m =>
      if v.truthy then branch.exec fuel m else otherwise.exec fuel m :=
  rfl

theorem exec_loop (condition : Expr) (body : Stmt) :
    (loop condition body).exec fuel m = repeatWhile condition (body.exec fuel) fuel m :=
  rfl

theorem execAll_nil : execAll fuel [] m = .done m :=
  rfl

theorem execAll_cons (stmt : Stmt) (stmts : List Stmt) :
    execAll fuel (stmt :: stmts) m = (stmt.exec fuel m).andThen (execAll fuel stmts) := by
  rw [execAll]
  cases stmt.exec fuel m <;> rfl

def atTop : Stmt → Stmt
  | expression value => print value
  | stmt             => stmt

theorem execTop_eq (stmt : Stmt) : stmt.execTop fuel m = stmt.atTop.exec fuel m := by
  cases stmt <;> rfl

theorem interpret_cons (stmt : Stmt) (stmts : List Stmt) :
    interpret fuel (stmt :: stmts) m = (stmt.atTop.exec fuel m).andThen (interpret fuel stmts) := by
  rw [interpret, execTop_eq]
  cases stmt.atTop.exec fuel m <;> rfl

-- A program is executed as the list of its statements is, with a print for each expression at its
-- top. So what is shown of lists of statements need not be shown of programs again.
theorem interpret_eq_execAll (program : List Stmt) :
    interpret fuel program m = execAll fuel (program.map atTop) m := by
  induction program generalizing m
  case nil => rw [List.map_nil, execAll_nil, interpret]
  case cons stmt stmts hi =>
    rw [interpret_cons, List.map_cons, execAll_cons]
    exact congrArg _ (funext hi)

theorem execAll_append (stmts stmts' : List Stmt) :
    execAll fuel (stmts ++ stmts') m = (execAll fuel stmts m).andThen (execAll fuel stmts') := by
  induction stmts generalizing m
  case nil => rw [List.nil_append, execAll_nil, Run.andThen]
  case cons stmt stmts hi =>
    rw [List.cons_append, execAll_cons, execAll_cons]
    cases stmt.exec fuel m
    case done m => exact hi m
    all_goals rfl

theorem interpret_append (program program' : List Stmt) :
    interpret fuel (program ++ program') m =
      (interpret fuel program m).andThen (interpret fuel program') := by
  simp only [interpret_eq_execAll, List.map_append, execAll_append]
  exact congrArg _ (funext fun m => (interpret_eq_execAll fuel m program').symm)

end Stmt
end Lox
