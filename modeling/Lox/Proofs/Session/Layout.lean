import Lox.Proofs.Execution.Relocation
import Lox.Proofs.Session.Provenance
import Lox.Proofs.Syntax.Naturality
import Lox.Tree.Sexp

namespace Lox

theorem Lexeme.relocates_lineless : Relocates lineless where
  token   := fun _ => rfl
  content := fun _ => rfl

def Message.lineless (m : Message) : Message :=
  { m with line := 0 }

theorem ParseError.message_map_lineless (e : ParseError) :
    (e.map Lexeme.lineless).message = e.message.lineless :=
  rfl

theorem RuntimeError.message_map_lineless (e : RuntimeError) :
    (e.map Lexeme.lineless).message = e.message.lineless :=
  rfl

variable {f : Lexeme → Lexeme}

theorem Expr.sexp_map (hf : Lexeme.Relocates f) (e : Expr) : (e.map f).sexp = e.sexp := by
  induction e <;> simp [map, sexp, hf.content, *]

namespace Stmt

mutual

theorem sexp_map (hf : Lexeme.Relocates f) (stmt : Stmt) : (stmt.map f).sexp = stmt.sexp := by
  cases stmt
  case declare name initial => cases initial <;> simp [map, sexp, hf.content, Expr.sexp_map hf]
  case block body => simp [map, sexp, sexps_mapAll hf body]
  case ifThen condition branch => simp [map, sexp, Expr.sexp_map hf, sexp_map hf branch]
  case ifElse condition branch otherwise =>
    simp [map, sexp, Expr.sexp_map hf, sexp_map hf branch, sexp_map hf otherwise]
  case loop condition body => simp [map, sexp, Expr.sexp_map hf, sexp_map hf body]
  all_goals simp [map, sexp, Expr.sexp_map hf]

theorem sexps_mapAll (hf : Lexeme.Relocates f) (stmts : List Stmt) :
    sexps (mapAll f stmts) = sexps stmts := by
  cases stmts
  case nil => rfl
  case cons stmt stmts => simp only [mapAll, sexps, sexp_map hf stmt, sexps_mapAll hf stmts]

end

theorem programSexp_map (hf : Lexeme.Relocates f) (program : List Stmt) :
    programSexp (program.map (map f)) = programSexp program := by
  rw [programSexp, programSexp, ← mapAll_eq_map, sexps_mapAll hf]

end Stmt

namespace Run

variable {r r' : Run} {m : Machine}

theorem eq_done_of_map (h : r'.map f = r.map f) (hr : r = .done m) : r' = .done m := by
  subst hr
  cases r' <;> cases h
  rfl

theorem eq_stopped_of_map {why : Stop} (h : r'.map f = r.map f) (hr : r = .stopped why m) :
    ∃ why', r' = .stopped why' m ∧ why'.map f = why.map f := by
  subst hr
  cases r' <;> simp only [map, stopped.injEq, reduceCtorEq] at h
  exact ⟨_, by rw [h.right], h.left⟩

end Run

theorem Stop.eq_sinkFull_of_map {why : Stop} (h : why.map f = Stop.sinkFull.map f) :
    why = .sinkFull := by
  cases why <;> cases h
  rfl

theorem Stop.exists_error_of_map {why : Stop} {e : RuntimeError}
    (h : why.map f = (Stop.fault <| .error e).map f) :
    ∃ e' : RuntimeError, why = .fault (.error e') ∧ e'.map f = e.map f := by
  cases why
  case fault fault =>
    cases fault <;> simp only [map, Fault.map, fault.injEq, Fault.error.injEq, reduceCtorEq] at h
    exact ⟨_, rfl, h⟩
  all_goals contradiction

namespace Session

variable {s t t' : Session} {a b : String} {result result' : Except Failure Outcome}

-- Sources without errors of their bytes, whose lexemes agree in all but their lines. They are one
-- program, and only the lines in messages tell which of the two was run.
structure Relaid (a b : String) : Prop where
  errors_left  : (Scan.ofSource a).errors = []
  errors_right : (Scan.ofSource b).errors = []
  lexemes      : (Scan.ofSource b).lexemes.map Lexeme.lineless =
    (Scan.ofSource a).lexemes.map Lexeme.lineless

namespace Relaid

theorem symm (h : Relaid a b) : Relaid b a where
  errors_left  := h.errors_right
  errors_right := h.errors_left
  lexemes      := h.lexemes.symm

theorem parsed (h : Relaid a b) :
    (Parsed.ofLexemes (Scan.ofSource b).lexemes).map Lexeme.lineless =
      (Parsed.ofLexemes (Scan.ofSource a).lexemes).map Lexeme.lineless := by
  have hp := parse?_map Lexeme.relocates_lineless.token (Scan.ofSource a).lexemes
  have hp' := parse?_map Lexeme.relocates_lineless.token (Scan.ofSource b).lexemes
  rw [← h.lexemes, hp', parse?_lexemes, parse?_lexemes] at hp
  exact Option.some.inj hp

theorem staticMessages (h : Relaid a b) :
    (staticMessages b).map Message.lineless = (staticMessages a).map Message.lineless := by
  have he := congrArg (fun p => p.errors.map ParseError.message) h.parsed
  simpa [Session.staticMessages, h.errors_left, h.errors_right, Parsed.map, Function.comp_def,
    ParseError.message_map_lineless] using he

theorem interpret (h : Relaid a b) (fuel : Nat) (m : Machine) :
    (Stmt.interpret fuel (program b) m).map Lexeme.lineless =
      (Stmt.interpret fuel (program a) m).map Lexeme.lineless := by
  have hp := congrArg Parsed.statements h.parsed
  simp only [← Stmt.interpret_map Lexeme.relocates_lineless]
  exact congrArg (Stmt.interpret fuel · m) hp

theorem ends (h : Relaid a b) (he : s.Ends a result t) :
    ∃ result' t' r ms ms' fits fits', s.Ends b result' t' ∧ t'.machine = t.machine ∧
      ms'.map Message.lineless = ms.map Message.lineless ∧
      s.errors.report ms = (fits, t.errors) ∧ s.errors.report ms' = (fits', t'.errors) ∧
      result = (if fits then r else .error .sinkFull) ∧
      result' = (if fits' then r else .error .sinkFull) := by
  have hs := h.staticMessages
  have hn : Session.staticMessages b = [] ↔ Session.staticMessages a = [] := by
    rw [← List.map_eq_nil_iff (f := Message.lineless), hs, List.map_eq_nil_iff]
  cases he
  case static hm hr =>
    exact ⟨_, _, .ok .staticError, _, _, _, _, .static (mt hn.mp hm) rfl, rfl, hs, hr, rfl, rfl, rfl⟩
  case done fuel m hm hr =>
    have hr' := Run.eq_done_of_map (h.interpret fuel s.machine) hr
    exact ⟨_, _, .ok .success, [], [], true, true, .done (hn.mpr hm) hr', rfl, rfl, rfl, rfl,
      rfl, rfl⟩
  case fault fuel e m fits errors hm hr hw =>
    have ⟨why, hr', hw'⟩ := Run.eq_stopped_of_map (h.interpret fuel s.machine) hr
    have ⟨e', hf, he⟩ := Stop.exists_error_of_map hw'
    subst hf
    have hl : [e'.message].map Message.lineless = [e.message].map Message.lineless := by
      simp only [List.map_cons, ← RuntimeError.message_map_lineless, he]
    have hw := (s.errors.report_singleton e.message).trans hw
    exact ⟨_, _, .ok .runtimeError, [e.message], [e'.message], _, _, .fault (hn.mpr hm) hr' rfl,
      rfl, hl, hw, s.errors.report_singleton e'.message, rfl, rfl⟩
  case cut fuel m hm hr =>
    have ⟨why, hr', hw'⟩ := Run.eq_stopped_of_map (h.interpret fuel s.machine) hr
    have hw' := Stop.eq_sinkFull_of_map hw'
    subst hw'
    exact ⟨_, _, .error .sinkFull, [], [], true, true, .cut (hn.mpr hm) hr', rfl, rfl, rfl, rfl,
      rfl, rfl⟩

-- How a source is laid out changes nothing of what is read from it and of what a session does with
-- it, and of its messages only the lines. A longer number makes a longer message, so if there is
-- not room for the messages of both, one call may fail where the other has an outcome.
theorem does_same (h : Relaid a b) :
    (∃ p p', parse? (Scan.ofSource a).lexemes = some p ∧ parse? (Scan.ofSource b).lexemes = some p' ∧
      p'.map Lexeme.lineless = p.map Lexeme.lineless ∧
      (p'.errors.map fun e => (e.kind, Location.of e.lexeme)) =
        (p.errors.map fun e => (e.kind, Location.of e.lexeme)) ∧
      Stmt.programSexp p'.statements = Stmt.programSexp p.statements) ∧
    ∀ s : Session, ((∃ result t, s.Runs a result t) ↔ ∃ result t, s.Runs b result t) ∧
      ∀ result t result' t', s.Runs a result t → s.Runs b result' t' →
        t'.machine = t.machine ∧
        ∃ r ms ms' fits fits', ms'.map Message.lineless = ms.map Message.lineless ∧
          s.errors.report ms = (fits, t.errors) ∧ s.errors.report ms' = (fits', t'.errors) ∧
          result = (if fits then r else .error .sinkFull) ∧
          result' = (if fits' then r else .error .sinkFull) ∧
          (s.errors.HasRoom (ms.flatMap Message.bytes).length →
            s.errors.HasRoom (ms'.flatMap Message.bytes).length → result' = result) := by
  have hp := h.parsed
  refine ⟨⟨_, _, parse?_lexemes a, parse?_lexemes b, hp, ?errors, ?printed⟩, fun s => ⟨?ends, ?same⟩⟩
  case errors =>
    have he := congrArg (fun p => p.errors.map fun e => (e.kind, Location.of e.lexeme)) hp
    simp only [Parsed.map, List.map_map] at he
    exact he
  case printed =>
    have hs := congrArg (fun p => Stmt.programSexp p.statements) hp
    simpa only [Parsed.map, Stmt.programSexp_map Lexeme.relocates_lineless] using hs
  case ends =>
    have hr {a b result t} (h : Relaid a b) (hr : s.Runs a result t) :
        ∃ result t, s.Runs b result t := by
      have ⟨result', t', _, _, _, _, _, he, _⟩ := h.ends (runs_iff.mp hr)
      exact ⟨result', t', runs_iff.mpr he⟩
    exact ⟨fun ⟨_, _, hs⟩ => hr h hs, fun ⟨_, _, hs⟩ => hr h.symm hs⟩
  case same =>
    intro result t result' t' hr hr'
    have ⟨_, _, r, ms, ms', fits, fits', he, hm, hl, hw, hw', hr₁, hr₂⟩ := h.ends (runs_iff.mp hr)
    -- A source runs in one way, so this run of the other source is the one that was given.
    obtain ⟨rfl, rfl⟩ := hr'.unique (runs_iff.mpr he)
    refine ⟨hm, r, ms, ms', fits, fits', hl, hw, hw', hr₁, hr₂, fun hf hf' => ?_⟩
    rw [hr₁, hr₂, hf.fits hw, hf'.fits hw']

theorem does_same_of_comments :
    let a := "var go = true; while (go) \x7b print \"a\"; go = false; \x7d print -go;"
    let b := "var go = true;\nwhile (go) // once\n\x7b print \"a\";\n\tgo = false; \x7d\n\nprint -go;"
    let s : Session := {}
    Relaid a b ∧ ∃ t t', s.Runs a (.ok .runtimeError) t ∧ s.Runs b (.ok .runtimeError) t' ∧
      t'.machine = t.machine := by
  intro a b s
  have h : Relaid a b := ⟨by decide +kernel, by decide +kernel, by decide +kernel⟩
  have ha : (s.run 2 a).1 = .ok .runtimeError := by decide +kernel
  have hb : (s.run 2 b).1 = .ok .runtimeError := by decide +kernel
  have hr : s.Runs a (.ok .runtimeError) _ := ⟨2, Prod.ext ha rfl, by simp⟩
  have hr' : s.Runs b (.ok .runtimeError) _ := ⟨2, Prod.ext hb rfl, by simp⟩
  exact ⟨h, _, _, hr, hr', ((h.does_same.right s).right _ _ _ _ hr hr').left⟩

-- The line of the error has one digit in the first source and two in the second, and the sink has
-- room for exactly the message of the first. So the same program ends in two ways.
theorem outcome_without_room :
    let a := "print -nil;"
    let b := "\n\n\n\n\n\n\n\n\nprint -nil;"
    let s : Session := ⟨{}, ⟨#[], some 49⟩⟩
    Relaid a b ∧ ∃ t t', s.Runs a (.ok .runtimeError) t ∧ s.Runs b (.error .sinkFull) t' := by
  intro a b s
  have h : Relaid a b := ⟨by decide +kernel, by decide +kernel, by decide +kernel⟩
  have hr : s.Runs a (.ok .runtimeError) _ := ⟨1, Prod.ext (by decide +kernel) rfl, by simp⟩
  have hr' : s.Runs b (.error .sinkFull) _ := ⟨1, Prod.ext (by decide +kernel) rfl, by simp⟩
  exact ⟨h, _, _, hr, hr'⟩

end Relaid

end Session
end Lox
