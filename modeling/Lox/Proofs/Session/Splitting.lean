import Lox.Proofs.Execution.Relocation
import Lox.Proofs.Lexing.Joining
import Lox.Proofs.Session.Provenance
import Lox.Proofs.Syntax.Joining

namespace Lox

theorem Lexeme.relocates_down (lines : Nat) : Relocates (down lines) where
  token   := fun _ => rfl
  content := fun _ => rfl

def Message.down (lines : Nat) (m : Message) : Message :=
  { m with line := m.line + lines }

theorem RuntimeError.message_map_down (e : RuntimeError) (lines : Nat) :
    (e.map (Lexeme.down lines)).message = e.message.down lines :=
  rfl

namespace Stmt

variable {fuel fuel' : Nat} {program program' : List Stmt} {m m₁ : Machine} {r : Run}

theorem exists_interpret_append {f : Lexeme → Lexeme} (hf : Lexeme.Relocates f)
    (h : interpret fuel program m = .done m₁) (h' : interpret fuel' program' m₁ = r)
    (hr : r ≠ .unfinished) :
    interpret (max fuel fuel') (program ++ program'.map (map f)) m = r.map f := by
  have he := interpret_eq_of_le (Nat.le_max_left fuel fuel') program m (by rw [h]; nofun)
  have he' := interpret_eq_of_le (Nat.le_max_right fuel fuel') program' m₁ (by rwa [h'])
  simp only [interpret_append, he, h, Run.andThen, interpret_map hf, he', h']

theorem interpret_append_of_stopped {why : Stop} (h : interpret fuel program m = .stopped why m₁)
    (program' : List Stmt) : interpret fuel (program ++ program') m = .stopped why m₁ := by
  simp only [interpret_append, h, Run.andThen]

end Stmt

namespace Session

theorem staticMessages_eq_nil_iff {source : String} :
    staticMessages source = [] ↔ (Scan.ofSource source).errors = [] ∧
      (Parsed.ofLexemes (Scan.ofSource source).lexemes).errors = [] := by
  simp [staticMessages]

variable {s s₁ s₂ : Session} {a b : String} {result result' : Except Failure Outcome}

theorem program_join (ha : staticMessages a = []) (hb : staticMessages b = []) :
    staticMessages (a ++ "\n" ++ b) = [] ∧ program (a ++ "\n" ++ b) =
      program a ++ (program b).map (Stmt.map <| Lexeme.down (1 + lineBreaks a)) := by
  have ⟨hsa, hpa⟩ := staticMessages_eq_nil_iff.mp ha
  have ⟨hsb, hpb⟩ := staticMessages_eq_nil_iff.mp hb
  have hc : Closed a := Scan.closed_of_errors <| hsa ▸ nofun
  have hf (source : String) : parse? (Scan.lexemesBefore source ++
      [⟨.eof, "", 1 + lineBreaks source⟩]) = some (Parsed.ofLexemes (Scan.ofSource source).lexemes) :=
    Scan.lexemes_ofSource source ▸ parse?_lexemes source
  have hj := parse?_join (hf a) (fun _ => Scan.not_isEnd_of_mem_lexemesBefore) rfl hpa (hf b)
    (fun _ => Scan.not_isEnd_of_mem_lexemesBefore) rfl hpb
    (Lexeme.relocates_down (1 + lineBreaks a)).token
  have hl := parse?_lexemes (a ++ "\n" ++ b)
  simp only [← Scan.lexemes_ofSource, ← Scan.lexemes_join hc, hl, Option.some.injEq] at hj
  simp only [staticMessages_eq_nil_iff, program, hj, Scan.errors_join hc, hsa, hsb]
  simp

-- After an error in the first part the second is not run. It makes no difference otherwise where
-- the second part is, and the line that is reported tells it.
theorem runs_join (ho : s.machine.output.room = none) (he : s.errors.room = none)
    (ha : staticMessages a = []) (hb : staticMessages b = []) (h : s.Runs a result s₁) :
    (result = .ok .runtimeError ∧ s.Runs (a ++ "\n" ++ b) (.ok .runtimeError) s₁) ∨
      (result = .ok .success ∧ ∀ result' s₂, s₁.Runs b result' s₂ →
        ∃ t, s.Runs (a ++ "\n" ++ b) result' t ∧ t.machine = s₂.machine ∧
          (result' = .ok .success ∧ s₂.errors = s.errors ∧ t.errors = s.errors ∨
            result' = .ok .runtimeError ∧ ∃ message : Message,
              s₂.errors = s.errors.append message.bytes ∧
              t.errors = s.errors.append (message.down (1 + lineBreaks a)).bytes)) := by
  have ⟨hj, hp⟩ := program_join ha hb
  have hf := Lexeme.relocates_down (1 + lineBreaks a)
  cases runs_iff.mp h
  case static hm _ => exact absurd ha hm
  case cut hr => exact absurd hr <| Stmt.interpret_ne_sinkFull ho _ _ _
  case fault fuel e m fits errors _ hr hw =>
    have hr' := Stmt.interpret_append_of_stopped hr <|
      (program b).map (Stmt.map <| Lexeme.down (1 + lineBreaks a))
    have hw' := Sink.writeLine_of_unlimited he e.message
    cases hw.symm.trans hw'
    exact .inl ⟨rfl, runs_iff.mpr <| .fault hj (hp ▸ hr') hw'⟩
  case done fuel m _ hr =>
    refine .inr ⟨rfl, fun result' s₂ h' => ?_⟩
    have hg := Stmt.growsTo_interpret fuel (program a) s.machine
    simp only [hr] at hg
    cases runs_iff.mp h'
    case static hm _ => exact absurd hb hm
    case cut hr' => exact absurd hr' <| Stmt.interpret_ne_sinkFull (hg.output.room_eq_none ho) _ _ _
    case done fuel' m' _ hr' =>
      have hr' := Stmt.exists_interpret_append hf hr hr' nofun
      exact ⟨⟨m', s.errors⟩, runs_iff.mpr <| .done hj (hp ▸ hr'), rfl, .inl ⟨rfl, rfl, rfl⟩⟩
    case fault fuel' e m' fits errors _ hr' hw =>
      have hw' := Sink.writeLine_of_unlimited he e.message
      cases hw.symm.trans hw'
      -- In the join the lexeme of the error stands further down, by the lines of the first source.
      have hr'' : Stmt.interpret (max fuel fuel') (program (a ++ "\n" ++ b)) s.machine =
          .stopped (.fault <| .error <| e.map <| Lexeme.down (1 + lineBreaks a)) m' :=
        hp ▸ Stmt.exists_interpret_append hf hr hr' nofun
      have hw'' := Sink.writeLine_of_unlimited he (e.map <| Lexeme.down (1 + lineBreaks a)).message
      have ht := runs_iff.mpr <| .fault hj hr'' hw''
      exact ⟨_, ht, rfl, .inr ⟨rfl, e.message, rfl, by simp only [e.message_map_down]⟩⟩

theorem runs_join_behind_comment :
    let s : Session := {}
    let a := "if (true) print \"a\"; // else"
    let b := "print -nil;"
    s.machine.output.room = none ∧ s.errors.room = none ∧ staticMessages a = [] ∧
      staticMessages b = [] ∧ ∃ s₁ s₂ t, s.Runs a (.ok .success) s₁ ∧
        s₁.Runs b (.ok .runtimeError) s₂ ∧ s.Runs (a ++ "\n" ++ b) (.ok .runtimeError) t ∧
        t.machine = s₂.machine := by
  intro s a b
  have ha : staticMessages a = [] := by decide +kernel
  have hb : staticMessages b = [] := by decide +kernel
  have ho : (s.run 1 a).1 = .ok .success := by decide +kernel
  have ho' : ((s.run 1 a).2.run 1 b).1 = .ok .runtimeError := by decide +kernel
  have h : s.Runs a (.ok .success) _ := ⟨1, Prod.ext ho rfl, by simp⟩
  have h' : (s.run 1 a).2.Runs b (.ok .runtimeError) _ := ⟨1, Prod.ext ho' rfl, by simp⟩
  cases runs_join rfl rfl ha hb h
  case inl hj => simp at hj
  case inr hj =>
    obtain ⟨t, ht, hm, _⟩ := hj.right _ _ h'
    exact ⟨rfl, rfl, ha, hb, _, _, t, h, h', ht, hm⟩

end Session
end Lox
