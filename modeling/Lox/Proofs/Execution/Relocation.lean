import Lox.Proofs.Execution.Simulation
import Lox.Proofs.Syntax.Mapping

namespace Lox

-- All that a run can see of a lexeme is kept. So programs that differ in nothing but where they are
-- in a source do the same, and find an error at the same lexeme, but for its place.
structure Lexeme.Relocates (f : Lexeme → Lexeme) : Prop where
  token   : ∀ l, (f l).token = l.token
  content : ∀ l, (f l).content = l.content

def RuntimeError.map (f : Lexeme → Lexeme) (e : RuntimeError) : RuntimeError where
  kind   := e.kind
  lexeme := f e.lexeme

def Fault.map (f : Lexeme → Lexeme) : Fault → Fault
  | error e         => error (e.map f)
  | misfit operator => misfit (f operator)

def Stop.map (f : Lexeme → Lexeme) : Stop → Stop
  | fault e    => fault (e.map f)
  | sinkFull   => sinkFull
  | unbalanced => unbalanced

def Run.map (f : Lexeme → Lexeme) : Run → Run
  | done m        => done m
  | stopped why m => stopped (why.map f) m
  | unfinished    => unfinished

variable {f : Lexeme → Lexeme}

namespace Lexeme

theorem applyUnary_map (hf : Relocates f) (operator : Lexeme) (v : Value) :
    (f operator).applyUnary v = (operator.applyUnary v).mapError (Fault.map f) := by
  simp only [applyUnary, hf.token]
  cases operator.token <;> cases v <;> rfl

theorem add_map (operator : Lexeme) (v v' : Value) :
    (f operator).add v v' = (operator.add v v').mapError (Fault.map f) := by
  cases v <;> cases v' <;> rfl

theorem onNumbers_map (operator : Lexeme) (g : Float → Float → Value) (v v' : Value) :
    (f operator).onNumbers g v v' = (operator.onNumbers g v v').mapError (Fault.map f) := by
  cases v <;> cases v' <;> rfl

theorem applyBinary_map (hf : Relocates f) (operator : Lexeme) (v v' : Value) :
    (f operator).applyBinary v v' = (operator.applyBinary v v').mapError (Fault.map f) := by
  simp only [applyBinary, hf.token, add_map, onNumbers_map]
  cases operator.token <;> rfl

theorem decides_map (hf : Relocates f) (operator : Lexeme) (v : Value) :
    (f operator).decides v = (operator.decides v).mapError (Fault.map f) := by
  simp only [decides, hf.token]
  split <;> rfl

end Lexeme

theorem Expr.map_eq_mapParts (f : Lexeme → Lexeme) (e : Expr) : e.map f = e.mapParts f f := by
  induction e <;> simp only [map, mapParts, *]

def Correspondence.relocated (hf : Lexeme.Relocates f) : Correspondence where
  names n n'     := n' = f n
  operators o o' := o' = f o
  envs           := Eq
  fault          := Fault.map f
  get? hn h := by rw [hn, h, hf.content]
  assign? {_ _ env _} hn h value := by
    rw [hn, ← h, hf.content]
    cases env.assign? _ value
    case none => exact .none
    case some => exact .some rfl
  undefined hn := hn ▸ rfl
  applyUnary ho v := ho ▸ Lexeme.applyUnary_map hf _ v
  applyBinary ho v v' := ho ▸ Lexeme.applyBinary_map hf _ v v'
  decides ho v := ho ▸ Lexeme.decides_map hf _ v

namespace Run

theorem andThen_map (r : Run) {next next' : Machine → Run} (hn : ∀ m, next' m = (next m).map f) :
    (r.map f).andThen next' = (r.andThen next).map f := by
  cases r
  case done m => exact hn m
  all_goals rfl

theorem leave_map (r : Run) : (r.map f).leave = r.leave.map f := by
  cases r
  case unfinished => rfl
  all_goals
    simp only [map, leave]
    split <;> rfl

theorem writeValue_map (m : Machine) (value : Value) :
    (m.writeValue value).map f = m.writeValue value := by
  simp only [Machine.writeValue]
  split <;> rfl

end Run

theorem Machine.evaluations_map (hf : Lexeme.Relocates f) (m : Machine) (e : Expr) :
    Evaluations Eq (fun r r' => r' = r.map f) (m.eval e) (m.eval (e.map f)) :=
  (Correspondence.relocated hf).evaluations (e.map_eq_mapParts f ▸ e.like_mapParts f f) rfl
    (fun h => h ▸ rfl) fun h => h ▸ rfl

def Simulation.relocated (hf : Lexeme.Relocates f) : Simulation where
  exprs e e' := e' = e.map f
  names n n' := n' = f n
  machines   := Eq
  runs r r'  := r' = r.map f
  done h     := h ▸ rfl
  unfinished := rfl
  andThen h _ hn := h ▸ Run.andThen_map _ fun _ => hn rfl
  eval he h  := he ▸ h ▸ Machine.evaluations_map hf ..
  writeValue h value := h ▸ (Run.writeValue_map ..).symm
  define hn h value := by rw [hn, h, hf.content]
  enter h := congrArg Machine.enter h
  leave h _ _ := h ▸ Run.leave_map _

namespace Stmt

mutual

theorem map_eq_mapParts (f : Lexeme → Lexeme) (stmt : Stmt) :
    stmt.map f = stmt.mapParts (Expr.map f) f := by
  cases stmt
  case declare name initial => cases initial <;> simp only [map, mapParts]
  case block body => simp only [map, mapParts, mapAll_eq_mapPartsAll f body]
  case ifThen condition branch => simp only [map, mapParts, map_eq_mapParts f branch]
  case ifElse condition branch otherwise =>
    simp only [map, mapParts, map_eq_mapParts f branch, map_eq_mapParts f otherwise]
  case loop condition body => simp only [map, mapParts, map_eq_mapParts f body]
  all_goals simp only [map, mapParts]

theorem mapAll_eq_mapPartsAll (f : Lexeme → Lexeme) (stmts : List Stmt) :
    mapAll f stmts = mapPartsAll (Expr.map f) f stmts := by
  cases stmts
  case nil => rfl
  case cons stmt stmts =>
    simp only [mapAll, mapPartsAll, map_eq_mapParts f stmt, mapAll_eq_mapPartsAll f stmts]

end

theorem interpret_map (hf : Lexeme.Relocates f) (fuel : Nat) (program : List Stmt) (m : Machine) :
    interpret fuel (program.map (map f)) m = (interpret fuel program m).map f := by
  have hp := forall₂_like_mapPartsAll (Expr.map f) f program
  rw [← mapAll_eq_mapPartsAll, mapAll_eq_map] at hp
  exact (Simulation.relocated hf).interpret fuel hp rfl

end Stmt
end Lox
