import Lox.Proofs.Syntax.Grammar

namespace Lox

namespace Expr

-- All expressions in an expression, which is one of them itself. In a tree of the grammar each has
-- an operator that is one of its kind, and its text is in the text of the tree.
def parts : Expr → List Expr
  | literal value               => [literal value]
  | .variable name              => [.variable name]
  | grouping inner              => grouping inner :: inner.parts
  | unary operator operand      => unary operator operand :: operand.parts
  | binary left operator right  => binary left operator right :: (left.parts ++ right.parts)
  | logical left operator right => logical left operator right :: (left.parts ++ right.parts)
  | assign name value           => assign name value :: value.parts

theorem mem_parts_self (e : Expr) : e ∈ e.parts := by
  cases e <;> exact List.mem_cons_self

def OperatorFits : Expr → Prop
  | unary operator _     => operator.token ∈ [Token.bang, .minus]
  | logical _ operator _ => operator.token ∈ [Token.keyword .orWord, .keyword .andWord]
  | binary _ operator _  => operator.token ∈ [Token.bangEqual, .equalEqual, .greater, .greaterEqual,
      .less, .lessEqual, .minus, .plus, .slash, .star]
  | _                    => True

def NameFits : Expr → Prop
  | .variable name => name.IsName
  | assign name _  => name.IsName
  | _              => True

theorem Derives.of_mem_parts {e part : Expr} {c : Category} (h : e.Derives c)
    (hm : part ∈ e.parts) : ∃ c', part.Derives c' := by
  induction h
  case loose hi | tight hi | single hi => exact hi hm
  case assign hn hv hi =>
    cases List.mem_cons.mp hm
    case inl he => exact he ▸ ⟨_, Derives.assign hn hv⟩
    case inr hm => exact hi hm
  case unary ho hv hi =>
    cases List.mem_cons.mp hm
    case inl he => exact he ▸ ⟨_, Derives.unary ho hv⟩
    case inr hm => exact hi hm
  case grouping hv hi =>
    cases List.mem_cons.mp hm
    case inl he => exact he ▸ ⟨_, Derives.grouping hv⟩
    case inr hm => exact hi hm
  case logical ho hl hr hi hi' =>
    cases List.mem_cons.mp hm
    case inl he => exact he ▸ ⟨_, Derives.logical ho hl hr⟩
    case inr hm => exact (List.mem_append.mp hm).elim hi hi'
  case binary ho hl hr hi hi' =>
    cases List.mem_cons.mp hm
    case inl he => exact he ▸ ⟨_, Derives.binary ho hl hr⟩
    case inr hm => exact (List.mem_append.mp hm).elim hi hi'
  case literal value => exact List.mem_singleton.mp hm ▸ ⟨_, Derives.literal value⟩
  case named hn => exact List.mem_singleton.mp hm ▸ ⟨_, Derives.named hn⟩

theorem Derives.nameFits {e : Expr} {c : Category} (h : e.Derives c) : e.NameFits := by
  induction h
  case loose hi | tight hi | single hi => exact hi
  case assign hn _ _ | named hn => exact hn
  all_goals trivial

theorem Derives.operatorFits {e : Expr} {c : Category} (h : e.Derives c) : e.OperatorFits := by
  induction h
  case loose hi | tight hi | single hi => exact hi
  case unary ho _ _ => exact ho
  case logical l _ _ operator ho _ _ _ _ =>
    cases l <;> simp_all [Level.logicalOperators, OperatorFits]
  case binary l _ _ operator ho _ _ _ _ =>
    cases l <;> simp [Level.binaryOperators] at ho <;> simp [OperatorFits, ho]
    case comparison => rcases ho with ho | ho | ho | ho <;> simp [ho]
    all_goals rcases ho with ho | ho <;> simp [ho]
  all_goals trivial

theorem yield_subset_of_mem_parts {e part : Expr} (h : part ∈ e.parts) : part.yield ⊆ e.yield := by
  induction e
  case literal | «variable» =>
    cases List.mem_singleton.mp h
    exact List.Subset.refl _
  case grouping hi | unary hi | assign hi =>
    cases List.mem_cons.mp h
    case inl he => exact he ▸ List.Subset.refl _
    case inr hm => exact fun t ht => by simp [yield, hi hm ht]
  case binary left operator right hi hi' | logical left operator right hi hi' =>
    cases List.mem_cons.mp h
    case inl he => exact he ▸ List.Subset.refl _
    case inr hm =>
      intro t ht
      cases List.mem_append.mp hm
      case inl hm => simp [yield, hi hm ht]
      case inr hm => simp [yield, hi' hm ht]

end Expr

namespace Stmt

mutual

def parts : Stmt → List Expr
  | print value                       => value.parts
  | expression value                  => value.parts
  | declare _ none                    => []
  | declare _ (some initial)          => initial.parts
  | block body                        => partsOf body
  | ifThen condition branch           => condition.parts ++ branch.parts
  | ifElse condition branch otherwise => condition.parts ++ (branch.parts ++ otherwise.parts)
  | loop condition body               => condition.parts ++ body.parts

def partsOf : List Stmt → List Expr
  | []            => []
  | stmt :: stmts => stmt.parts ++ partsOf stmts

end

theorem partsOf_eq_flatMap (stmts : List Stmt) : partsOf stmts = stmts.flatMap parts := by
  induction stmts
  case nil => rfl
  case cons stmt stmts hi => rw [partsOf, hi, List.flatMap_cons]

theorem mem_partsOf {stmts : List Stmt} {part : Expr} :
    part ∈ partsOf stmts ↔ ∃ stmt ∈ stmts, part ∈ stmt.parts := by
  rw [partsOf_eq_flatMap, List.mem_flatMap]

theorem WellFormed.derives_of_mem_parts {stmt : Stmt} {part : Expr} (h : stmt.WellFormed)
    (hm : part ∈ stmt.parts) : ∃ c, part.Derives c := by
  induction h
  case print hv | expression hv => exact hv.of_mem_parts hm
  case declare initial _ hi =>
    cases initial
    case none => contradiction
    case some e => exact (hi e rfl).of_mem_parts hm
  case block hi =>
    have ⟨stmt, hs, hm⟩ := mem_partsOf.mp hm
    exact hi stmt hs hm
  case ifThen hc _ _ hi | loop hc _ _ hi => exact (List.mem_append.mp hm).elim hc.of_mem_parts hi
  case ifElse hc _ _ _ _ _ hi hi' =>
    cases List.mem_append.mp hm
    case inl hm => exact hc.of_mem_parts hm
    case inr hm => exact (List.mem_append.mp hm).elim hi hi'

theorem derives_of_mem_partsOf {stmts : List Stmt} (h : ∀ stmt ∈ stmts, stmt.WellFormed)
    {part : Expr} (hm : part ∈ partsOf stmts) : ∃ c, part.Derives c := by
  have ⟨stmt, hs, hm⟩ := mem_partsOf.mp hm
  exact (h stmt hs).derives_of_mem_parts hm

theorem operatorFits_of_wellFormed {stmts : List Stmt} (h : ∀ stmt ∈ stmts, stmt.WellFormed) :
    ∀ part ∈ partsOf stmts, part.OperatorFits := by
  intro part hm
  have ⟨_, hd⟩ := derives_of_mem_partsOf h hm
  exact hd.operatorFits

mutual

theorem yield_subset_of_mem_parts (stmt : Stmt) {part : Expr} (hm : part ∈ stmt.parts) :
    part.yield ⊆ stmt.yield := by
  cases stmt
  case print | expression =>
    exact fun t ht => by simp [yield, Expr.yield_subset_of_mem_parts hm ht]
  case declare initial =>
    cases initial
    case none => contradiction
    case some => exact fun t ht => by simp [yield, Expr.yield_subset_of_mem_parts hm ht]
  case block body => exact fun t ht => by simp [yield, yields_subset_of_mem_partsOf body hm ht]
  case ifThen condition branch =>
    cases List.mem_append.mp hm
    case inl hm => exact fun t ht => by simp [yield, Expr.yield_subset_of_mem_parts hm ht]
    case inr hm => exact fun t ht => by simp [yield, yield_subset_of_mem_parts branch hm ht]
  case ifElse condition branch otherwise =>
    rcases List.mem_append.mp hm with hm | hm
    case inl => exact fun t ht => by simp [yield, Expr.yield_subset_of_mem_parts hm ht]
    case inr =>
      cases List.mem_append.mp hm
      case inl hm => exact fun t ht => by simp [yield, yield_subset_of_mem_parts branch hm ht]
      case inr hm => exact fun t ht => by simp [yield, yield_subset_of_mem_parts otherwise hm ht]
  case loop condition body =>
    cases List.mem_append.mp hm
    case inl hm => exact fun t ht => by simp [yield, Expr.yield_subset_of_mem_parts hm ht]
    case inr hm => exact fun t ht => by simp [yield, yield_subset_of_mem_parts body hm ht]

theorem yields_subset_of_mem_partsOf (stmts : List Stmt) {part : Expr} (hm : part ∈ partsOf stmts) :
    part.yield ⊆ yields stmts := by
  cases stmts
  case nil => contradiction
  case cons stmt stmts =>
    cases List.mem_append.mp hm
    case inl hm => exact fun t ht => by simp [yields, yield_subset_of_mem_parts stmt hm ht]
    case inr hm => exact fun t ht => by simp [yields, yields_subset_of_mem_partsOf stmts hm ht]

end

mutual

def nested : Stmt → List Stmt
  | block body                        => block body :: nestedIn body
  | ifThen condition branch           => ifThen condition branch :: branch.nested
  | ifElse condition branch otherwise =>
    ifElse condition branch otherwise :: (branch.nested ++ otherwise.nested)
  | loop condition body               => loop condition body :: body.nested
  | stmt                              => [stmt]

def nestedIn : List Stmt → List Stmt
  | []            => []
  | stmt :: stmts => stmt.nested ++ nestedIn stmts

end

theorem mem_nestedIn {stmts : List Stmt} {part : Stmt} :
    part ∈ nestedIn stmts ↔ ∃ stmt ∈ stmts, part ∈ stmt.nested := by
  induction stmts
  case nil => simp [nestedIn]
  case cons hi => simp [nestedIn, hi]

theorem WellFormed.of_mem_nested {stmt part : Stmt} (h : stmt.WellFormed)
    (hm : part ∈ stmt.nested) : part.WellFormed := by
  induction h
  case print hv => exact List.mem_singleton.mp hm ▸ .print hv
  case expression hv => exact List.mem_singleton.mp hm ▸ .expression hv
  case declare hn he => exact List.mem_singleton.mp hm ▸ .declare hn he
  case block hb hi =>
    cases List.mem_cons.mp hm
    case inl he => exact he ▸ .block hb
    case inr hm =>
      have ⟨stmt, hs, hm⟩ := mem_nestedIn.mp hm
      exact hi stmt hs hm
  case ifThen hc hb hd hi =>
    cases List.mem_cons.mp hm
    case inl he => exact he ▸ .ifThen hc hb hd
    case inr hm => exact hi hm
  case ifElse hc hb hd ho hb' hd' hi hi' =>
    cases List.mem_cons.mp hm
    case inl he => exact he ▸ .ifElse hc hb hd ho hb' hd'
    case inr hm => exact (List.mem_append.mp hm).elim hi hi'
  case loop hc hb hd hi =>
    cases List.mem_cons.mp hm
    case inl he => exact he ▸ .loop hc hb hd
    case inr hm => exact hi hm

theorem wellFormed_of_mem_nestedIn {stmts : List Stmt} (h : ∀ stmt ∈ stmts, stmt.WellFormed)
    {part : Stmt} (hm : part ∈ nestedIn stmts) : part.WellFormed := by
  have ⟨stmt, hs, hm⟩ := mem_nestedIn.mp hm
  exact (h stmt hs).of_mem_nested hm

end Stmt
end Lox
