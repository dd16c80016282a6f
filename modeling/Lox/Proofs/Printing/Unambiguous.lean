import Lox.Proofs.Decimal.Writing
import Lox.Proofs.Printing.Form
import Lox.Proofs.Session.Layout

namespace Lox

def Form.head (token : Token) (content : String) : Lexeme where
  token   := token
  content := content
  line    := 0

open Form (head)

namespace Expr

def form : Expr → Form
  | literal value               => .atom (head (.literal value) value.sexp)
  | .variable name              => .atom name.lineless
  | grouping inner              => .node (head (.identifier "group") "group") [inner.form]
  | unary operator operand      => .node operator.lineless [operand.form]
  | binary left operator right  => .node operator.lineless [left.form, right.form]
  | logical left operator right => .node operator.lineless [left.form, right.form]
  | assign name value           => .node (head .equal "=") [.atom name.lineless, value.form]

theorem sexp_form (e : Expr) : e.form.sexp = e.sexp := by
  induction e <;> simp [form, sexp, Form.sexp, Form.sexps, head, Lexeme.lineless, *]

end Expr

namespace Stmt

mutual

def form : Stmt → Form
  | print value                       => .node (head (.keyword .printWord) "print") [value.form]
  | expression value                  => .node (head .semicolon ";") [value.form]
  | declare name none                 => .node (head (.keyword .varWord) "var") [.atom name.lineless]
  | declare name (some initial)       =>
    .node (head (.keyword .varWord) "var") [.atom name.lineless, initial.form]
  | block body                        => .node (head (.identifier "block") "block") (formsOf body)
  | ifThen condition branch           =>
    .node (head (.keyword .ifWord) "if") [condition.form, branch.form]
  | ifElse condition branch otherwise =>
    .node (head (.keyword .ifWord) "if") [condition.form, branch.form, otherwise.form]
  | loop condition body               =>
    .node (head (.keyword .whileWord) "while") [condition.form, body.form]

def formsOf : List Stmt → List Form
  | []            => []
  | stmt :: stmts => stmt.form :: formsOf stmts

end

mutual

theorem sexp_form (stmt : Stmt) : stmt.form.sexp = stmt.sexp := by
  cases stmt
  case declare name initial =>
    cases initial <;>
      simp [form, sexp, Form.sexp, Form.sexps, head, Lexeme.lineless, Expr.sexp_form]
  case block body => simp [form, sexp, Form.sexp, head, sexps_formsOf body]
  case ifThen condition branch =>
    simp [form, sexp, Form.sexp, Form.sexps, head, Expr.sexp_form, sexp_form branch]
  case ifElse condition branch otherwise =>
    simp [form, sexp, Form.sexp, Form.sexps, head, Expr.sexp_form, sexp_form branch,
      sexp_form otherwise]
  case loop condition body =>
    simp [form, sexp, Form.sexp, Form.sexps, head, Expr.sexp_form, sexp_form body]
  all_goals simp [form, sexp, Form.sexp, Form.sexps, head, Expr.sexp_form]

theorem sexps_formsOf (stmts : List Stmt) : Form.sexps (formsOf stmts) = sexps stmts := by
  cases stmts
  case nil => rfl
  case cons stmt stmts => simp only [formsOf, Form.sexps, sexps, sexp_form stmt, sexps_formsOf stmts]

end

end Stmt

def Expr.joined (left : Expr) (operator : Lexeme) (right : Expr) : Expr :=
  match operator.token with
  | .keyword _ => .logical left operator right
  | _          => .binary left operator right

namespace Form

-- The expression that a form is that of, if it is that of any. Operators of two operands are told
-- from their tokens, and a group and an assignment from their heads, which no operator has.
def expr? : Form → Option Expr
  | atom ⟨.literal value, _, _⟩        => some (.literal value)
  | atom name                          => some (.variable name)
  | node ⟨.identifier _, _, _⟩ [f]     => f.expr?.map .grouping
  | node operator [f]                  => f.expr?.map (.unary operator)
  | node ⟨.equal, _, _⟩ [atom name, f] => f.expr?.map (.assign name)
  | node operator [f, g]               =>
    f.expr?.bind fun left => g.expr?.map fun right => left.joined operator right
  | _ => none

mutual

def stmt? : Form → Option Stmt
  | node ⟨.keyword .printWord, _, _⟩ [f]            => f.expr?.map .print
  | node ⟨.semicolon, _, _⟩ [f]                     => f.expr?.map .expression
  | node ⟨.keyword .varWord, _, _⟩ [atom name]      => some (.declare name none)
  | node ⟨.keyword .varWord, _, _⟩ [atom name, f]   => f.expr?.map fun e => .declare name (some e)
  | node ⟨.identifier _, _, _⟩ fs                   => (stmts? fs).map .block
  | node ⟨.keyword .ifWord, _, _⟩ [f, g]            => do
    some (.ifThen (← f.expr?) (← g.stmt?))
  | node ⟨.keyword .ifWord, _, _⟩ [f, g, h]         => do
    some (.ifElse (← f.expr?) (← g.stmt?) (← h.stmt?))
  | node ⟨.keyword .whileWord, _, _⟩ [f, g]         => do
    some (.loop (← f.expr?) (← g.stmt?))
  | _ => none

def stmts? : List Form → Option (List Stmt)
  | []      => some []
  | f :: fs => do some ((← f.stmt?) :: (← stmts? fs))

end

theorem expr?_single {operator : Lexeme} (h : ∀ name, operator.token ≠ .identifier name) (f : Form) :
    (node operator [f]).expr? = f.expr?.map (.unary operator) := by
  rw [expr?]
  exact fun name _ _ he => h name <| congrArg Lexeme.token he

theorem expr?_pair {operator : Lexeme} (h : operator.token ≠ .equal) (f g : Form) :
    (node operator [f, g]).expr? =
      f.expr?.bind fun left => g.expr?.map fun right => left.joined operator right := by
  rw [expr?]
  exact fun _ _ _ he => absurd (congrArg Lexeme.token he) h

theorem expr?_atom {name : Lexeme} (h : ∀ value, name.token ≠ .literal value) :
    (atom name).expr? = some (.variable name) := by
  rw [expr?]
  exact fun value _ _ he => h value <| congrArg Lexeme.token he

end Form

namespace Expr

theorem joined_of_logical {operator : Lexeme}
    (h : operator.token ∈ [Token.keyword .orWord, .keyword .andWord]) :
    operator.token ≠ .equal ∧
      ∀ left right : Expr, left.joined operator right = .logical left operator right := by
  simp only [List.mem_cons, List.not_mem_nil, or_false] at h
  rcases h with h | h <;> simp [joined, h]

theorem joined_of_binary {operator : Lexeme} (h : operator.token ∈ [Token.bangEqual, .equalEqual,
      .greater, .greaterEqual, .less, .lessEqual, .minus, .plus, .slash, .star]) :
    operator.token ≠ .equal ∧
      ∀ left right : Expr, left.joined operator right = .binary left operator right := by
  simp only [List.mem_cons, List.not_mem_nil, or_false] at h
  rcases h with h | h | h | h | h | h | h | h | h | h <;> simp [joined, h]

theorem Derives.expr?_form {e : Expr} {c : Category} (h : e.Derives c) :
    e.form.expr? = some (e.map Lexeme.lineless) := by
  induction h
  case loose hi | tight hi | single hi => exact hi
  case literal => rfl
  case named name hn =>
    have ⟨_, hn⟩ := hn
    exact Form.expr?_atom (fun _ he => Token.noConfusion (hn.symm.trans he))
  case grouping hi => rw [form, head, Form.expr?, hi, Option.map_some, Expr.map]
  case assign hi => rw [form, head, Form.expr?, hi, Option.map_some, Expr.map]
  case unary operator operand ho hv hi =>
    have hn : ∀ name, operator.lineless.token ≠ .identifier name := fun name he => by
      rw [show operator.token = _ from he] at ho
      simp at ho
    rw [form, Form.expr?_single hn, hi, Option.map_some, Expr.map]
  case logical left right operator ho hl hr hi hi' =>
    have ho : operator.lineless.token ∈ _ := (Derives.logical ho hl hr).operatorFits
    rw [form, Form.expr?_pair (joined_of_logical ho).left, hi, hi']
    exact congrArg some <| (joined_of_logical ho).right _ _
  case binary left right operator ho hl hr hi hi' =>
    have ho : operator.lineless.token ∈ _ := (Derives.binary ho hl hr).operatorFits
    rw [form, Form.expr?_pair (joined_of_binary ho).left, hi, hi']
    exact congrArg some <| (joined_of_binary ho).right _ _

end Expr

namespace Stmt

theorem stmts?_formsOf {stmts : List Stmt}
    (h : ∀ stmt ∈ stmts, stmt.form.stmt? = some (stmt.map Lexeme.lineless)) :
    Form.stmts? (formsOf stmts) = some (stmts.map (map Lexeme.lineless)) := by
  induction stmts
  case nil => rfl
  case cons stmt stmts hi =>
    have ⟨hs, h⟩ := List.forall_mem_cons.mp h
    simp [formsOf, Form.stmts?, hs, hi h]

theorem WellFormed.stmt?_form {stmt : Stmt} (h : stmt.WellFormed) :
    stmt.form.stmt? = some (stmt.map Lexeme.lineless) := by
  induction h
  case print hv => simp [form, head, Form.stmt?, hv.expr?_form, Stmt.map]
  case expression hv => simp [form, head, Form.stmt?, hv.expr?_form, Stmt.map]
  case declare initial _ hi =>
    cases initial
    case none => simp [form, head, Form.stmt?, Stmt.map]
    case some e => simp [form, head, Form.stmt?, (hi e rfl).expr?_form, Stmt.map]
  case block hi =>
    simp [form, head, Form.stmt?, stmts?_formsOf hi, Stmt.map, mapAll_eq_map]
  case ifThen hc _ _ hi => simp [form, head, Form.stmt?, hc.expr?_form, hi, Stmt.map]
  case ifElse hc _ _ _ _ _ hi hi' => simp [form, head, Form.stmt?, hc.expr?_form, hi, hi', Stmt.map]
  case loop hc _ _ hi => simp [form, head, Form.stmt?, hc.expr?_form, hi, Stmt.map]

end Stmt

def Terminal.IsSpelled : Terminal → Prop
  | held l                 => l.IsSpelled
  | free (.literal value)  => Spells value.sexp.toList (.literal value)
  | free _                 => True

namespace Form

theorem isLabel_head {token : Token} {content : String} (h : Spells content.toList token) :
    (head token content).IsLabel where
  spelled := h
  line    := rfl

theorem isLabel_word (content : String) (hw : IsWord content.toList) :
    (head (.ofWord content) content).IsLabel := by
  have hs := hw.spells
  rw [String.ofList_toList] at hs
  exact isLabel_head hs

theorem legible_name {name : Lexeme} (hn : name.IsName) (hs : name.IsSpelled) :
    (atom name.lineless).Legible := by
  have ⟨_, hn⟩ := hn
  have hn : name.lineless.token = _ := hn
  exact .atom hs.isLabel_lineless (by simp [hn])

end Form

theorem Expr.Derives.legible_form {e : Expr} {c : Category} (h : e.Derives c)
    (hs : ∀ t ∈ e.yield, t.IsSpelled) : e.form.Legible := by
  induction h
  case loose hi | tight hi | single hi => exact hi hs
  case literal value => exact .atom (Form.isLabel_head <| hs _ List.mem_cons_self) nofun
  all_goals simp only [yield, List.cons_append, List.forall_mem_cons, List.forall_mem_append] at hs
  case named hn => exact Form.legible_name hn hs.left
  case grouping hi =>
    exact .single (Form.isLabel_word "group" (by decide)) (hi hs.right.left)
  case assign hn _ hi =>
    have he : Spells "=".toList .equal := .symbol rfl
    exact .pair (Form.isLabel_head he) (Form.legible_name hn hs.left) (hi hs.right.right)
  case unary hi =>
    have ho : Lexeme.IsSpelled _ := hs.left
    exact .single ho.isLabel_lineless (hi hs.right)
  case logical hi hi' | binary hi hi' =>
    have ho : Lexeme.IsSpelled _ := hs.right.left
    exact .pair ho.isLabel_lineless (hi hs.left) (hi' hs.right.right)

namespace Stmt

theorem legible_formsOf {stmts : List Stmt}
    (h : ∀ stmt ∈ stmts, (∀ t ∈ stmt.yield, t.IsSpelled) → stmt.form.Legible)
    (hs : ∀ t ∈ yields stmts, t.IsSpelled) : ∀ f ∈ formsOf stmts, f.Legible := by
  induction stmts
  case nil => nofun
  case cons stmt stmts hi =>
    have ⟨hf, h⟩ := List.forall_mem_cons.mp h
    have ⟨hs, hs'⟩ := List.forall_mem_append.mp hs
    exact List.forall_mem_cons.mpr ⟨hf hs, hi h hs'⟩

theorem WellFormed.legible_form {stmt : Stmt} (h : stmt.WellFormed)
    (hs : ∀ t ∈ stmt.yield, t.IsSpelled) : stmt.form.Legible := by
  induction h
  case declare name initial hn hi =>
    have hv := Form.isLabel_word "var" (by decide)
    cases initial
    all_goals
      simp only [yield, List.cons_append, List.forall_mem_cons, List.forall_mem_append] at hs
      have hf := Form.legible_name hn hs.right.left
    case none => exact .single hv hf
    case some e => exact .pair hv hf <| (hi e rfl).legible_form hs.right.right.right.left
  all_goals simp only [yield, List.cons_append, List.forall_mem_cons, List.forall_mem_append] at hs
  case print hv =>
    exact .single (Form.isLabel_word "print" (by decide)) (hv.legible_form hs.right.left)
  case expression hv =>
    have he : Spells ";".toList .semicolon := .symbol rfl
    exact .single (Form.isLabel_head he) (hv.legible_form hs.left)
  case block hi =>
    exact .node (Form.isLabel_word "block" (by decide)) <| legible_formsOf hi hs.right.left
  case ifThen hc _ _ hi =>
    have ⟨_, _, hs, _, hb⟩ := hs
    exact .pair (Form.isLabel_word "if" (by decide)) (hc.legible_form hs) (hi hb)
  case loop hc _ _ hi =>
    have ⟨_, _, hs, _, hb⟩ := hs
    exact .pair (Form.isLabel_word "while" (by decide)) (hc.legible_form hs) (hi hb)
  case ifElse hc _ _ _ _ _ hi hi' =>
    have ⟨_, _, hs, _, hb, _, hb'⟩ := hs
    exact .node (Form.isLabel_word "if" (by decide)) <| List.forall_mem_cons.mpr
      ⟨hc.legible_form hs, List.forall_mem_cons.mpr ⟨hi hb, List.forall_mem_singleton.mpr (hi' hb')⟩⟩

theorem scans_programSexp {program : List Stmt} (hw : ∀ stmt ∈ program, stmt.WellFormed)
    (hs : ∀ t ∈ yields program, t.IsSpelled) :
    Scans (programSexp program).toList (Form.lexemesOf <| formsOf program) := by
  have h := Form.scans_lines <| legible_formsOf (fun stmt hm => (hw stmt hm).legible_form) hs
  rwa [sexps_formsOf] at h

theorem map_lineless_eq {program program' : List Stmt}
    (hw : ∀ stmt ∈ program, stmt.WellFormed) (hw' : ∀ stmt ∈ program', stmt.WellFormed)
    (hs : ∀ t ∈ yields program, t.IsSpelled) (hs' : ∀ t ∈ yields program', t.IsSpelled)
    (h : programSexp program = programSexp program') :
    program.map (map Lexeme.lineless) = program'.map (map Lexeme.lineless) := by
  have hl := (scans_programSexp hw hs).ofSource.right
  rw [h, (scans_programSexp hw' hs').ofSource.right] at hl
  have hf := Form.eq_of_lexemesOf
    (legible_formsOf (fun stmt hm => (hw stmt hm).legible_form) hs)
    (legible_formsOf (fun stmt hm => (hw' stmt hm).legible_form) hs')
    (List.append_cancel_right hl).symm
  have hp := stmts?_formsOf fun stmt hm => (hw stmt hm).stmt?_form
  rw [hf, stmts?_formsOf fun stmt hm => (hw' stmt hm).stmt?_form] at hp
  exact (Option.some.inj hp).symm

end Stmt

namespace Value

-- What can be written as a literal: neither infinity nor NaN, which are written as words, and no
-- string that holds a quote.
def IsWritable : Value → Prop
  | number x => x.isFinite
  | string s => '"' ∉ s.toList
  | _        => True

instance : (value : Value) → Decidable value.IsWritable
  | number x  => inferInstanceAs <| Decidable (x.isFinite = true)
  | string s  => inferInstanceAs <| Decidable ('"' ∉ s.toList)
  | nil       => isTrue trivial
  | boolean _ => isTrue trivial

theorem spells_of_isWritable {value : Value} (hv : value.IsWritable)
    (hn : ∀ x, value = .number x → Double.isNegative x = false) :
    Spells value.sexp.toList (.literal value) := by
  cases value
  case nil => exact (Form.isLabel_word "nil" (by decide)).spelled
  case boolean b =>
    cases b
    case false => exact (Form.isLabel_word "false" (by decide)).spelled
    case true => exact (Form.isLabel_word "true" (by decide)).spelled
  case number x =>
    have hn := hn x rfl
    exact .number (Numeral.isNumeral_write hv hn) (Numeral.read?_write hv hn)
  case string s =>
    have hs := Spells.string hv
    rw [String.ofList_toList] at hs
    have he : (string s).sexp.toList = '"' :: (s.toList ++ ['"']) := by simp [sexp]
    rwa [he]

theorem spells_sexp {text : List Char} {value : Value} (h : Spells text (.literal value))
    (hx : ∀ x, value = .number x → x.isFinite) : Spells value.sexp.toList (.literal value) := by
  rcases h.literal_cases with hw | ⟨s, rfl, hs⟩ | ⟨x, rfl, hn, hr⟩
  case inl =>
    simp only [List.mem_cons, List.not_mem_nil, or_false] at hw
    rcases hw with rfl | rfl | rfl <;> exact spells_of_isWritable trivial nofun
  case inr.inl => exact spells_of_isWritable hs nofun
  case inr.inr =>
    refine spells_of_isWritable (hx x rfl) fun x' he => ?_
    rw [← number.inj he]
    exact Numeral.isNegative_of_read? hn hr

end Value

def Terminal.isFinite : Terminal → Bool
  | free (.literal (.number x)) => x.isFinite
  | _                           => true

theorem Terminal.isSpelled_of_fits {t : Terminal} {l : Lexeme} (hf : t.Fits l) (hl : l.IsSpelled)
    (hx : t.isFinite) : t.IsSpelled := by
  cases t
  case held l' =>
    have he : l = l' := hf
    exact he ▸ hl
  case free token =>
    have he : l.token = token := hf
    cases token
    case literal value =>
      rw [Lexeme.IsSpelled, he] at hl
      exact Value.spells_sexp hl fun x hv => by rwa [hv] at hx
    all_goals trivial

namespace Session

variable {a b : String} {p q : Parsed}

theorem program_eq_of_parse? (h : parse? (Scan.ofSource a).lexemes = some p) :
    p.statements = program a := by
  cases h.symm.trans (parse?_lexemes a)
  rfl

theorem isSpelled_of_mem_yields (hx : ∀ t ∈ Stmt.yields (program a), t.isFinite) :
    ∀ t ∈ Stmt.yields (program a), t.IsSpelled := by
  intro t ht
  have ⟨l, hl, hf⟩ := exists_fits ht
  exact Terminal.isSpelled_of_fits hf (Scan.isSpelled_of_mem_lexemesBefore hl) (hx t ht)

-- The printed form of a program leaves nothing open: programs of finite numbers are printed alike
-- only if they are alike, but for the lines of their lexemes.
theorem programSexp_eq_iff (hp : parse? (Scan.ofSource a).lexemes = some p)
    (hq : parse? (Scan.ofSource b).lexemes = some q)
    (hx : ∀ t ∈ Stmt.yields p.statements, t.isFinite)
    (hy : ∀ t ∈ Stmt.yields q.statements, t.isFinite) :
    Stmt.programSexp p.statements = Stmt.programSexp q.statements ↔
      p.statements.map (Stmt.map Lexeme.lineless) = q.statements.map (Stmt.map Lexeme.lineless) := by
  rw [program_eq_of_parse? hp] at hx ⊢
  rw [program_eq_of_parse? hq] at hy ⊢
  constructor
  case mp =>
    exact Stmt.map_lineless_eq (wellFormed_program a) (wellFormed_program b)
      (isSpelled_of_mem_yields hx) (isSpelled_of_mem_yields hy)
  case mpr =>
    intro h
    have hs := congrArg Stmt.programSexp h
    simpa only [Stmt.programSexp_map Lexeme.relocates_lineless] using hs

theorem programSexp_eq_iff_of_layout :
    let a := "print 1.50 - -x; if (x) \x7b \"(- x)\"; \x7d"
    let b := "print 1.5 -\n-x;\nif (x) // then\n\x7b\"(- x)\";\x7d"
    ∃ p q, parse? (Scan.ofSource a).lexemes = some p ∧ parse? (Scan.ofSource b).lexemes = some q ∧
      Stmt.programSexp p.statements = "(print (- 1.5 (- x)))\n(if x (block (; \"(- x)\")))" ∧
      p.statements.map (Stmt.map Lexeme.lineless) = q.statements.map (Stmt.map Lexeme.lineless) := by
  intro a b
  have hx : ∀ t ∈ Stmt.yields (program a), t.isFinite := by decide +kernel
  have hy : ∀ t ∈ Stmt.yields (program b), t.isFinite := by decide +kernel
  have hs : Stmt.programSexp (program a) = Stmt.programSexp (program b) := by decide +kernel
  exact ⟨_, _, parse?_lexemes a, parse?_lexemes b, by decide +kernel,
    (programSexp_eq_iff (parse?_lexemes a) (parse?_lexemes b) hx hy).mp hs⟩

end Session
end Lox
