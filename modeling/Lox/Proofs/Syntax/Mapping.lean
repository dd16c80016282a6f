import Lox.Proofs.Syntax.Parts

namespace Lox

open List (Forall₂)

-- The tree with other lexemes in the same places. Where these have the same tokens the trees are of
-- the same grammar, as nothing else of a lexeme is looked at.
def Expr.map (f : Lexeme → Lexeme) : Expr → Expr
  | literal value               => .literal value
  | .variable name              => .variable (f name)
  | grouping inner              => .grouping (inner.map f)
  | unary operator operand      => .unary (f operator) (operand.map f)
  | binary left operator right  => .binary (left.map f) (f operator) (right.map f)
  | logical left operator right => .logical (left.map f) (f operator) (right.map f)
  | assign name value           => .assign (f name) (value.map f)

namespace Stmt

mutual

def map (f : Lexeme → Lexeme) : Stmt → Stmt
  | print value                       => .print (value.map f)
  | expression value                  => .expression (value.map f)
  | declare name none                 => .declare (f name) none
  | declare name (some initial)       => .declare (f name) (some (initial.map f))
  | block body                        => .block (mapAll f body)
  | ifThen condition branch           => .ifThen (condition.map f) (branch.map f)
  | ifElse condition branch otherwise =>
    .ifElse (condition.map f) (branch.map f) (otherwise.map f)
  | loop condition body               => .loop (condition.map f) (body.map f)

def mapAll (f : Lexeme → Lexeme) : List Stmt → List Stmt
  | []            => []
  | stmt :: stmts => stmt.map f :: mapAll f stmts

end

theorem mapAll_eq_map (f : Lexeme → Lexeme) (stmts : List Stmt) : mapAll f stmts = stmts.map (map f) := by
  induction stmts
  case nil => rfl
  case cons stmt stmts hi => simp only [mapAll, hi, List.map_cons]

end Stmt

def Terminal.map (f : Lexeme → Lexeme) : Terminal → Terminal
  | held l => held (f l)
  | free t => free t

variable {f : Lexeme → Lexeme}

theorem Expr.yield_map (f : Lexeme → Lexeme) (e : Expr) :
    (e.map f).yield = e.yield.map (Terminal.map f) := by
  induction e <;> simp [map, yield, Terminal.map, *]

namespace Stmt

mutual

theorem yield_map (f : Lexeme → Lexeme) (stmt : Stmt) :
    (stmt.map f).yield = stmt.yield.map (Terminal.map f) := by
  cases stmt
  case declare name initial => cases initial <;> simp [map, yield, Terminal.map, Expr.yield_map]
  case block body => simp [map, yield, Terminal.map, yields_mapAll f body]
  case ifThen condition branch =>
    simp [map, yield, Terminal.map, Expr.yield_map, yield_map f branch]
  case ifElse condition branch otherwise =>
    simp [map, yield, Terminal.map, Expr.yield_map, yield_map f branch, yield_map f otherwise]
  case loop condition body => simp [map, yield, Terminal.map, Expr.yield_map, yield_map f body]
  all_goals simp [map, yield, Terminal.map, Expr.yield_map]

theorem yields_mapAll (f : Lexeme → Lexeme) (stmts : List Stmt) :
    yields (mapAll f stmts) = (yields stmts).map (Terminal.map f) := by
  cases stmts
  case nil => rfl
  case cons stmt stmts =>
    simp only [mapAll, yields, yield_map f stmt, yields_mapAll f stmts, List.map_append]

end

end Stmt

variable (hf : ∀ l, (f l).token = l.token)

include hf

theorem Terminal.forall₂_fits_map {ts : List Terminal} {ls : List Lexeme}
    (h : Forall₂ Fits ts ls) : Forall₂ Fits (ts.map (map f)) (ls.map f) := by
  refine List.forall₂_map_left_iff.mpr <| List.forall₂_map_right_iff.mpr <| h.imp ?_
  intro t l h
  cases t
  case held => exact congrArg f h
  case free => exact (hf l).trans h

theorem Lexeme.IsName.map {l : Lexeme} (h : l.IsName) : (f l).IsName := by
  have ⟨name, h⟩ := h
  exact ⟨name, (hf l).trans h⟩

theorem Expr.Derives.map {e : Expr} {c : Category} (h : e.Derives c) : (e.map f).Derives c := by
  induction h
  case assign hn _ hi => exact .assign (hn.map hf) hi
  case loose hi => exact .loose hi
  case logical ho _ _ hl hr => exact .logical (by rwa [hf]) hl hr
  case binary ho _ _ hl hr => exact .binary (by rwa [hf]) hl hr
  case tight hi => exact .tight hi
  case unary ho _ hi => exact .unary (by rwa [hf]) hi
  case single hi => exact .single hi
  case literal value => exact .literal value
  case named hn => exact .named (hn.map hf)
  case grouping hi => exact .grouping hi

namespace Stmt

omit hf in
theorem isDeclaration_map (stmt : Stmt) : (stmt.map f).isDeclaration = stmt.isDeclaration := by
  cases stmt
  case declare name initial => cases initial <;> simp [map, isDeclaration]
  all_goals simp [map, isDeclaration]

omit hf in
theorem endsOpen_map (stmt : Stmt) : (stmt.map f).endsOpen = stmt.endsOpen := by
  fun_induction endsOpen stmt
  case case2 hi | case3 hi => simpa [map, endsOpen] using hi
  case case1 => simp [map, endsOpen]
  case case4 stmt h₁ h₂ h₃ =>
    cases stmt
    case declare name initial => cases initial <;> simp [map, endsOpen]
    all_goals simp_all [map, endsOpen]

theorem WellFormed.map {stmt : Stmt} (h : stmt.WellFormed) : (stmt.map f).WellFormed := by
  induction h
  case print hv => simpa only [Stmt.map] using WellFormed.print (hv.map hf)
  case expression hv => simpa only [Stmt.map] using WellFormed.expression (hv.map hf)
  case declare name initial hn hi =>
    cases initial <;> simp only [Stmt.map]
    case none => exact .declare (hn.map hf) nofun
    case some e =>
      refine .declare (hn.map hf) fun e' he => ?_
      cases he
      exact (hi e rfl).map hf
  case block body _ hi =>
    simp only [Stmt.map, mapAll_eq_map]
    exact .block <| List.forall_mem_map.mpr hi
  case ifThen hc _ hd hi =>
    simp only [Stmt.map]
    exact .ifThen (hc.map hf) hi ((isDeclaration_map _).trans hd)
  case ifElse hc _ hd ho _ hd' hi hi' =>
    simp only [Stmt.map]
    exact .ifElse (hc.map hf) hi ((isDeclaration_map _).trans hd) ((endsOpen_map _).trans ho) hi'
      ((isDeclaration_map _).trans hd')
  case loop hc _ hd hi =>
    simp only [Stmt.map]
    exact .loop (hc.map hf) hi ((isDeclaration_map _).trans hd)

end Stmt
end Lox
