import Lox.Proofs.Decimal.Sign
import Lox.Proofs.Printing.Unambiguous

namespace Lox

namespace Lexeme

def dash : Lexeme where
  token   := .minus
  content := "-"
  line    := 0

def semicolon : Lexeme where
  token   := .semicolon
  content := ";"
  line    := 0

def printWord : Lexeme where
  token   := .keyword .printWord
  content := "print"
  line    := 0

def endOfFile : Lexeme where
  token   := .eof
  content := ""
  line    := 0

def literal (v : Value) : Lexeme where
  token   := .literal v
  content := v.sexp
  line    := 0

end Lexeme

open Lexeme (dash semicolon printWord endOfFile)

namespace Value

-- The expression that is written for a value. There are no negative literals, so a negative number,
-- of which negative zero is one, is written as the opposite of what stands behind its dash.
def expr : Value → Expr
  | number x =>
    if Double.isNegative x then .unary dash (.literal (.number (-x))) else .literal (.number x)
  | value    => .literal value

def lexemes : Value → List Lexeme
  | number x =>
    if Double.isNegative x then [dash, .literal (.number (-x))] else [.literal (.number x)]
  | value    => [.literal value]

theorem sign_cases (v : Value) :
    (∃ x, v = .number x ∧ Double.isNegative x ∧ v.expr = .unary dash (.literal (.number (-x))) ∧
      v.lexemes = [dash, .literal (.number (-x))]) ∨
    (∀ x, v = .number x → Double.isNegative x = false) ∧ v.expr = .literal v ∧
      v.lexemes = [.literal v] := by
  cases v
  case number x =>
    cases hn : Double.isNegative x
    case true => exact .inl ⟨x, rfl, hn, if_pos hn, if_pos hn⟩
    case false =>
      have hn' : ¬Double.isNegative x = true := ne_true_of_eq_false hn
      exact .inr ⟨fun _ he => number.inj he ▸ hn, if_neg hn', if_neg hn'⟩
  all_goals exact .inr ⟨nofun, rfl, rfl⟩

theorem parse?_expression (v : Value) :
    parse? (v.lexemes ++ [semicolon, endOfFile]) = some ⟨[.expression v.expr], []⟩ := by
  rcases v.sign_cases with ⟨_, _, _, he, hl⟩ | ⟨_, he, hl⟩
  all_goals
    rw [he, hl]
    rfl

theorem parse?_print (v : Value) :
    parse? ((printWord :: v.lexemes) ++ [semicolon, endOfFile]) = some ⟨[.print v.expr], []⟩ := by
  rcases v.sign_cases with ⟨_, _, _, he, hl⟩ | ⟨_, he, hl⟩
  all_goals
    rw [he, hl]
    rfl

variable {v : Value} (hv : v.IsWritable)

include hv

theorem eval_expr (env : Environment) : v.expr.eval env = (.ok v, env) := by
  rcases v.sign_cases with ⟨x, rfl, _, he, _⟩ | ⟨_, he, _⟩
  case inl =>
    have hx : (Expr.unary dash (.literal (.number (-x)))).eval env = (.ok (.number (- -x)), env) :=
      rfl
    rw [he, hx, Double.neg_neg_of_isFinite hv]
  case inr =>
    rw [he]
    rfl

theorem scans_sexp {rest : List Char} {ls : List Lexeme} (hr : Scans rest ls)
    (hc : ∀ c ∈ rest.head?, c ∈ stops) : Scans (v.sexp.toList ++ rest) (v.lexemes ++ ls) := by
  rcases v.sign_cases with ⟨x, rfl, hn, _, hl⟩ | ⟨hn, _, hl⟩
  case inl =>
    have hx : (number (-x)).IsWritable := Double.isFinite_neg hv
    have hp : ∀ y, number (-x) = .number y → Double.isNegative y = false := fun y he => by
      rw [← number.inj he, Double.isNegative_neg hv, hn, Bool.not_true]
    have hs : (Lexeme.literal (.number (-x))).IsSpelled := spells_of_isWritable hx hp
    have ht : (number x).sexp.toList = '-' :: (number (-x)).sexp.toList :=
      Numeral.write_of_isNegative hv hn
    have hr := hr.lexeme hs hc
    rw [hl, ht]
    exact hr.symbol rfl rfl (by decide)
  case inr =>
    have hs : (Lexeme.literal v).IsSpelled := spells_of_isWritable hv hn
    have hr := hr.lexeme hs hc
    rw [hl]
    exact hr

theorem scans_statement : Scans (v.sexp ++ ";").toList (v.lexemes ++ [semicolon]) := by
  have hr : Scans [';'] [semicolon] := Scans.nil.symbol rfl rfl (by decide)
  have ht : (v.sexp ++ ";").toList = v.sexp.toList ++ [';'] := by simp
  rw [ht]
  exact scans_sexp hv hr (stops_cons (by decide) [])

theorem scans_print :
    Scans ("print " ++ (v.sexp ++ ";")).toList ((printWord :: v.lexemes) ++ [semicolon]) := by
  have hs : printWord.IsSpelled := (Form.isLabel_word "print" (by decide)).spelled
  have hr := (scans_statement hv).blank (c := ' ') (by decide)
  have ht : ("print " ++ (v.sexp ++ ";")).toList =
      printWord.content.toList ++ ' ' :: (v.sexp ++ ";").toList := by simp [printWord]
  rw [ht]
  exact hr.lexeme hs (stops_cons (by decide) _)

end Value

theorem Expr.eval_of_lineless {e e' : Expr} {env : Environment} {v : Value}
    (h : e.map Lexeme.lineless = e') (he : e'.eval env = (.ok v, env)) :
    e.eval env = (.ok v, env) := by
  have hl := e.map_eq_mapParts Lexeme.lineless ▸ e.like_mapParts Lexeme.lineless Lexeme.lineless
  have hr := (Correspondence.relocated Lexeme.relocates_lineless).eval hl (rfl : env = env)
  rw [h, he] at hr
  generalize e.eval env = r at hr
  cases hr
  case ok henv =>
    have henv : _ = env := henv
    rw [henv]

namespace Stmt

variable {f : Lexeme → Lexeme} {stmt : Stmt} {e' : Expr}

theorem exists_of_map_expression (h : stmt.map f = .expression e') :
    ∃ e, stmt = .expression e ∧ e.map f = e' := by
  cases stmt
  case expression e => exact ⟨e, rfl, by simpa [map] using h⟩
  case declare name initial => cases initial <;> simp [map] at h
  all_goals simp [map] at h

theorem exists_of_map_print (h : stmt.map f = .print e') :
    ∃ e, stmt = .print e ∧ e.map f = e' := by
  cases stmt
  case print e => exact ⟨e, rfl, by simpa [map] using h⟩
  case declare name initial => cases initial <;> simp [map] at h
  all_goals simp [map] at h

end Stmt

namespace Session

variable {source : String} {ls : List Lexeme} {stmt : Stmt} {v : Value}

theorem exists_parsed (h : Scans source.toList (ls ++ [semicolon]))
    (hp : parse? (ls ++ [semicolon, endOfFile]) = some ⟨[stmt], []⟩) :
    (Scan.ofSource source).errors = [] ∧ ∃ stmt', stmt'.map Lexeme.lineless = stmt ∧
      parse? (Scan.ofSource source).lexemes = some ⟨[stmt'], []⟩ := by
  obtain ⟨he, hl⟩ := h.ofSource
  have hm := parse?_map Lexeme.relocates_lineless.token (Scan.ofSource source).lexemes
  rw [hl, List.append_assoc] at hm
  obtain ⟨parsed, hq, hm⟩ := Option.map_eq_some_iff.mp <| hm.symm.trans hp
  rw [Parsed.map, Parsed.mk.injEq, List.map_eq_nil_iff, List.map_eq_singleton_iff] at hm
  obtain ⟨⟨stmt', hs, hm⟩, hn⟩ := hm
  exact ⟨he, stmt', hm, by rw [hq, ← hs, ← hn]⟩

theorem exists_expression (hv : v.IsWritable) :
    (Scan.ofSource (v.sexp ++ ";")).errors = [] ∧
      ∃ e, parse? (Scan.ofSource (v.sexp ++ ";")).lexemes = some ⟨[.expression e], []⟩ ∧
        ∀ env, e.eval env = (.ok v, env) := by
  have ⟨hs, stmt, hm, hp⟩ := exists_parsed (Value.scans_statement hv) v.parse?_expression
  obtain ⟨e, rfl, he⟩ := Stmt.exists_of_map_expression hm
  exact ⟨hs, e, hp, fun env => Expr.eval_of_lineless he <| Value.eval_expr hv env⟩

theorem exists_print (hv : v.IsWritable) :
    (Scan.ofSource ("print " ++ (v.sexp ++ ";"))).errors = [] ∧
      ∃ e, parse? (Scan.ofSource ("print " ++ (v.sexp ++ ";"))).lexemes = some ⟨[.print e], []⟩ ∧
        ∀ env, e.eval env = (.ok v, env) := by
  have ⟨hs, stmt, hm, hp⟩ := exists_parsed (Value.scans_print hv) v.parse?_print
  obtain ⟨e, rfl, he⟩ := Stmt.exists_of_map_print hm
  exact ⟨hs, e, hp, fun env => Expr.eval_of_lineless he <| Value.eval_expr hv env⟩

theorem runs_print {s : Session} {e : Expr} {fits : Bool} {after : Sink}
    (hs : (Scan.ofSource source).errors = [])
    (hp : parse? (Scan.ofSource source).lexemes = some ⟨[.print e], []⟩)
    (he : e.eval s.machine.env = (.ok v, s.machine.env))
    (hw : s.machine.output.writeLine v.text = (fits, after)) :
    s.Runs source (reported fits .success) ⟨⟨s.machine.env, after⟩, s.errors⟩ := by
  have hm : staticMessages source = [] := by
    rw [staticMessages, hs, Parsed.ofLexemes, hp]
    rfl
  have hr : Stmt.interpret 0 (program source) s.machine =
      if fits then .done ⟨s.machine.env, after⟩ else .stopped .sinkFull ⟨s.machine.env, after⟩ := by
    rw [program, Parsed.ofLexemes, hp, Option.getD_some, Stmt.interpret]
    simp only [Stmt.execTop, Stmt.exec, Machine.eval, he, Machine.writeValue, hw]
    cases fits <;> rfl
  cases fits
  case false => exact runs_iff.mpr <| .cut hm hr
  case true => exact runs_iff.mpr <| .done hm hr

end Session

namespace Value

-- Whatever can be written is read as one expression, which comes to the value in any environment.
-- Printing this expression writes the text of the value on a line of its own.
theorem read_back (v : Value) (hv : v.IsWritable) :
    let source := v.sexp ++ ";"
    (Scan.ofSource source).errors = [] ∧
    (∃ e, parse? (Scan.ofSource source).lexemes = some ⟨[.expression e], []⟩ ∧
      ∀ env, e.eval env = (.ok v, env)) ∧
    ∀ (s : Session) (fits : Bool) (after : Sink),
      s.machine.output.write (v.text ++ "\n") = (fits, after) → ∀ result s',
        s.Runs ("print " ++ source) result s' ↔
          result = (if fits then .ok .success else .error .sinkFull) ∧
            s' = ⟨⟨s.machine.env, after⟩, s.errors⟩ := by
  have ⟨hs, he⟩ := Session.exists_expression hv
  refine ⟨hs, he, fun s fits after hw result s' => ?_⟩
  have ⟨hs, e, hp, he⟩ := Session.exists_print hv
  have hr := Session.runs_print hs hp (he s.machine.env) hw
  constructor
  case mp => exact fun h => hr.unique h
  case mpr =>
    intro ⟨hresult, hs'⟩
    rw [hresult, hs']
    exact hr

theorem read_back_of_dash_and_lines :
    let v := number (-0.0)
    let v' := string "é // \n;"
    v.sexp = "-0" ∧ v'.sexp = "\"é // \n;\"" ∧ v.IsWritable ∧ v'.IsWritable ∧
      (∃ e, parse? (Scan.ofSource "-0;").lexemes = some ⟨[.expression e], []⟩ ∧
        ∀ env, e.eval env = (.ok v, env)) ∧
      ∃ s, ({} : Session).Runs "print \"é // \n;\";" (.ok .success) s ∧
        s.machine.output.text = "é // \n;\n" := by
  intro v v'
  have hv : v.IsWritable := by decide +kernel
  have hv' : v'.IsWritable := by decide +kernel
  have hs : v.sexp ++ ";" = "-0;" := by decide +kernel
  have hs' : "print " ++ (v'.sexp ++ ";") = "print \"é // \n;\";" := by decide +kernel
  have he := (read_back v hv).right.left
  have hr := ((read_back v' hv').right.right {} true _ rfl _ _).mpr ⟨rfl, rfl⟩
  rw [hs] at he
  rw [hs'] at hr
  exact ⟨by decide +kernel, by decide +kernel, hv, hv', he, _, hr, by decide +kernel⟩

end Value
end Lox
