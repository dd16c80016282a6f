import Lox.Proofs.Execution.Limits
import Lox.Proofs.Session.History

namespace Lox

namespace Session

inductive RunsAll : Session → List String → Session → Prop
  | nil (s : Session) : RunsAll s [] s
  | cons {s s₁ s' : Session} {source : String} {o : Outcome} {sources : List String}
    (h : s.Runs source (.ok o) s₁) (hs : RunsAll s₁ sources s') : RunsAll s (source :: sources) s'

-- The session with a sink for messages that has no limit. What such a sink is given tells how much
-- room it takes for no message to be cut off.
def unlimited (s : Session) : Session :=
  { s with errors := { s.errors with room := none } }

variable {s s' t : Session} {source : String} {result : Except Failure Outcome} {n : Nat}

theorem Ends.exists_of_hasRoom (h : s.Ends source result s') (hu : s.errors.room = none)
    (hm : t.machine = s.machine)
    (ht : t.errors.HasRoom (s'.errors.taken.size - s.errors.taken.size + n)) :
    ∃ t', t.Ends source result t' ∧ t'.machine = s'.machine ∧ t'.errors.HasRoom n := by
  cases h
  case static fits after hs hr =>
    rw [Sink.report_of_unlimited hu] at hr
    cases hr
    rw [Sink.size_append, Nat.add_sub_cancel_left] at ht
    have ⟨errors, hr, he⟩ := ht.exists_report
    exact ⟨⟨t.machine, errors⟩, .static hs hr, hm, he⟩
  case done m hs hr =>
    rw [← hm] at hr
    exact ⟨⟨m, t.errors⟩, .done hs hr, rfl, ht.of_le <| Nat.le_add_left ..⟩
  case fault e m fits after hs hr hw =>
    rw [← hm] at hr
    rw [Sink.writeLine_of_unlimited hu] at hw
    cases hw
    rw [Sink.size_append, Nat.add_sub_cancel_left] at ht
    have ⟨errors, hw, he⟩ := ht.exists_write _
    exact ⟨⟨m, errors⟩, .fault hs hr hw, rfl, he⟩
  case cut m hs hr =>
    rw [← hm] at hr
    exact ⟨⟨m, t.errors⟩, .cut hs hr, rfl, ht.of_le <| Nat.le_add_left ..⟩

theorem exists_runs_static (hm : staticMessages source ≠ []) (hu : s.errors.room = none) :
    ∃ s', s.Runs source (.ok .staticError) s' ∧ s'.machine = s.machine :=
  ⟨_, runs_iff.mpr <| .static hm <| Sink.report_of_unlimited hu _, rfl⟩

end Session

namespace Console

variable {fuel fuel' : Nat} {c c' c'' : Console} {s s₁ s' t : Session} {p p' q : Sink}
  {source : String} {line : List UInt8} {lines : List (List UInt8)}
  {result result' : Except Failure Unit} {failure : Failure} {o : Outcome}

theorem answer_eq_of_le (hf : fuel ≤ fuel') (h : (c.answer fuel line).1 ≠ .error .unfinished) :
    c.answer fuel' line = c.answer fuel line := by
  unfold answer at h ⊢
  cases ht : Utf8.text? line
  case none => rfl
  case some source =>
    rw [ht] at h
    have hr : c.session.run fuel' source = c.session.run fuel source := Session.run_eq_of_le hf h
    simp only [run, hr]

theorem converse_nil (h : c.ask = (true, c')) :
    c.converse fuel [] = match c'.write "\n" with
      | (false, c) => (.error .sinkFull, c)
      | (true, c)  => (.ok (), c) := by
  rw [converse]
  exact h ▸ rfl

theorem converse_cons (h : c.ask = (true, c')) (line : List UInt8) (lines : List (List UInt8)) :
    c.converse fuel (line :: lines) = match c'.answer fuel line with
      | (.error failure, c) => (.error failure, c)
      | (.ok _, c)          => c.converse fuel lines := by
  rw [converse]
  exact h ▸ rfl

theorem converse_eq_of_le (hf : fuel ≤ fuel') (h : (c.converse fuel lines).1 ≠ .error .unfinished) :
    c.converse fuel' lines = c.converse fuel lines := by
  fun_induction converse fuel c lines
  case case1 hc => rw [converse, hc]
  case case2 hc _ hw | case3 hc _ hw => rw [converse_nil hc, hw]
  case case4 hc _ _ _ _ ha =>
    have he := answer_eq_of_le hf <| by
      rw [ha]
      exact fun e => h <| by cases e; rfl
    rw [converse_cons hc, he, ha]
  case case5 hc _ _ _ _ ha hi =>
    have he := answer_eq_of_le hf <| by
      rw [ha]
      exact fun e => by cases e
    rw [converse_cons hc, he, ha]
    exact hi h

def Converses (c : Console) (lines : List (List UInt8)) (result : Except Failure Unit)
    (c' : Console) : Prop :=
  ∃ fuel, c.converse fuel lines = (result, c') ∧ result ≠ .error .unfinished

theorem Converses.unique (h : c.Converses lines result c') (h' : c.Converses lines result' c'') :
    result' = result ∧ c'' = c' := by
  have ⟨fuel, hc, hu⟩ := h
  have ⟨fuel', hc', hu'⟩ := h'
  have he := converse_eq_of_le (Nat.le_max_left fuel fuel') (by rwa [hc])
  have he' := converse_eq_of_le (Nat.le_max_right fuel fuel') (by rwa [hc'])
  rw [hc] at he
  rw [hc'] at he'
  exact Prod.mk.inj <| he'.symm.trans he

theorem Converses.grows (h : c.Converses lines result c') : c.session.Grows c'.session := by
  have ⟨fuel, hc, hu⟩ := h
  have hg : c.session.Grows (c.converse fuel lines).2.session := grows_converse <| by rwa [hc]
  rwa [hc] at hg

section First

variable (hw : p.write "> " = (true, p'))
include hw

theorem ask_eq (s : Session) : ask ⟨s, some p⟩ = (true, ⟨s, some p'⟩) := by
  simp only [ask, write, hw]

theorem converses_nil (hn : p'.write "\n" = (true, q)) :
    Converses ⟨s, some p⟩ [] (.ok ()) ⟨s, some q⟩ := by
  refine ⟨0, ?_, nofun⟩
  rw [converse_nil (ask_eq hw s)]
  simp only [write, hn]

theorem converses_invalid (ht : ∀ text : String, line ≠ Utf8.encode text.toList) :
    Converses ⟨s, some p⟩ (line :: lines) (.error .invalidText) ⟨s, some p'⟩ := by
  have hn : Utf8.text? line = none :=
    Option.eq_none_iff_forall_ne_some.mpr fun text h => ht text <| Utf8.text?_eq_some_iff.mp h
  refine ⟨0, ?_, nofun⟩
  rw [converse_cons (ask_eq hw s)]
  simp only [answer, hn]

theorem converses_failing (hr : s.Runs source (.error failure) s') :
    Converses ⟨s, some p⟩ (Utf8.encode source.toList :: lines) (.error failure) ⟨s', some p'⟩ := by
  have ⟨fuel, hr, hu⟩ := hr
  refine ⟨fuel, ?_, fun he => hu <| by cases he; rfl⟩
  rw [converse_cons (ask_eq hw s)]
  simp only [answer, Utf8.text?_eq_some_iff.mpr rfl, run, hr]

theorem converses_cons (hr : s.Runs source (.ok o) s₁)
    (hc : Converses ⟨s₁, some p'⟩ lines result c) :
    Converses ⟨s, some p⟩ (Utf8.encode source.toList :: lines) result c := by
  have ⟨fuel, hr, hu⟩ := hr
  have ⟨fuel', hc, hu'⟩ := hc
  have hr' := Session.run_eq_of_le (Nat.le_max_left fuel fuel') (by rwa [hr])
  have hc' := converse_eq_of_le (Nat.le_max_right fuel fuel') (by rwa [hc])
  refine ⟨max fuel fuel', ?_, hu'⟩
  rw [converse_cons (ask_eq hw s)]
  simp only [answer, Utf8.text?_eq_some_iff.mpr rfl, run, hr', hr, hc', hc]

theorem converses_cases (hc : Converses ⟨s, some p⟩ (line :: lines) result c) :
    ((∀ text : String, line ≠ Utf8.encode text.toList) ∧
      result = .error .invalidText ∧ c = ⟨s, some p'⟩) ∨
    ∃ source : String, line = Utf8.encode source.toList ∧
      ((∃ failure s', s.Runs source (.error failure) s' ∧ result = .error failure ∧
        c = ⟨s', some p'⟩) ∨
      ∃ o s₁, s.Runs source (.ok o) s₁ ∧ Converses ⟨s₁, some p'⟩ lines result c) := by
  obtain ⟨fuel, hc, hu⟩ := hc
  rw [converse_cons (ask_eq hw s)] at hc
  cases ht : Utf8.text? line
  case none =>
    refine .inl ⟨fun text he => ?_, ?_⟩
    case refine_1 =>
      rw [Utf8.text?_eq_some_iff.mpr he] at ht
      contradiction
    case refine_2 =>
      simp only [answer, ht] at hc
      cases hc
      exact ⟨rfl, rfl⟩
  case some source =>
    refine .inr ⟨source, Utf8.text?_eq_some_iff.mp ht, ?_⟩
    simp only [answer, ht, run] at hc
    generalize hr : s.run fuel source = r at hc
    rcases r with ⟨failure | o, s'⟩
    case error =>
      cases hc
      exact .inl ⟨failure, s', ⟨fuel, hr, fun he => hu <| by cases he; rfl⟩, rfl, rfl⟩
    case ok => exact .inr ⟨o, s', ⟨fuel, hr, fun he => by cases he⟩, fuel, hc, hu⟩

end First

theorem exists_converses_nil (s : Session) (hp : p.HasRoom 3) :
    ∃ q, Converses ⟨s, some p⟩ [] (.ok ()) ⟨s, some q⟩ ∧
      q.taken.toList =
        p.taken.toList ++ Utf8.encode "> ".toList ++ Utf8.encode "\n".toList := by
  have ⟨p', hw, hp'⟩ := Sink.HasRoom.exists_write (n := 1) "> " hp
  have ⟨q, hn, _⟩ := Sink.HasRoom.exists_write (n := 0) "\n" hp'
  exact ⟨q, converses_nil hw hn, by rw [Sink.toList_of_write hn, Sink.toList_of_write hw]⟩

def asked (n : Nat) : List UInt8 :=
  (List.replicate n <| Utf8.encode "> ".toList).flatten

theorem asked_succ (n : Nat) : asked (n + 1) = Utf8.encode "> ".toList ++ asked n :=
  rfl

theorem asked_succ' (n : Nat) : asked (n + 1) = asked n ++ Utf8.encode "> ".toList := by
  rw [asked, List.replicate_succ', List.flatten_append, List.flatten_singleton, asked]

theorem exists_of_runsAll {sources : List String} (h : s.RunsAll sources s') {n : Nat}
    (hp : p.HasRoom (2 * sources.length + n)) : ∃ q, q.HasRoom n ∧
      q.taken.toList = p.taken.toList ++ asked sources.length ∧
      ∀ lines result c, Converses ⟨s', some q⟩ lines result c →
        Converses ⟨s, some p⟩ (sources.map (Utf8.encode ·.toList) ++ lines) result c := by
  induction h generalizing p
  case nil s => exact ⟨p, hp.of_le <| Nat.le_add_left .., by simp [asked], fun _ _ _ h => h⟩
  case cons s s₁ s' source o sources hr _ hi =>
    have hl : 2 * (source :: sources).length + n = 2 + (2 * sources.length + n) := by
      rw [List.length_cons]
      omega
    have ⟨p', hw, hp'⟩ := Sink.HasRoom.exists_write "> " (hl ▸ hp)
    have ⟨q, hq, ht, hc⟩ := hi hp'
    refine ⟨q, hq, ?_, fun lines result c h => converses_cons hw hr <| hc lines result c h⟩
    rw [ht, Sink.toList_of_write hw, List.append_assoc, ← asked_succ, List.length_cons]

-- Lines without some of those that have errors which can be found without running. All of these are
-- dropped by one induction, in which the console with fewer lines may have other sinks.
inductive Thins : List (List UInt8) → List (List UInt8) → Prop
  | nil : Thins [] []
  | keep {lines lines' : List (List UInt8)} (line : List UInt8) (h : Thins lines lines') :
    Thins (line :: lines) (line :: lines')
  | drop {lines lines' : List (List UInt8)} {source : String}
    (hs : Session.staticMessages source ≠ []) (h : Thins lines lines') :
    Thins (Utf8.encode source.toList :: lines) lines'

theorem Thins.refl (lines : List (List UInt8)) : Thins lines lines := by
  induction lines
  case nil => exact .nil
  case cons line lines hi => exact .keep line hi

theorem Thins.append (before : List (List UInt8)) {after after' : List (List UInt8)}
    (h : Thins after after') : Thins (before ++ after) (before ++ after') := by
  induction before
  case nil => exact h
  case cons line lines hi => exact .keep line hi

theorem Thins.length_le {lines lines' : List (List UInt8)} (h : Thins lines lines') :
    lines'.length ≤ lines.length := by
  induction h
  case nil => exact Nat.le_refl _
  case keep hi => exact Nat.succ_le_succ hi
  case drop hi => exact Nat.le_succ_of_le hi

theorem Converses.exists_of_thins {lines' : List (List UInt8)} (hl : Thins lines lines')
    (h : Converses ⟨s, some p⟩ lines result c) (hp : p.HasRoom (2 * (lines.length + 1) + 1))
    (hq : q.HasRoom (2 * (lines'.length + 1) + 1)) (hu : s.errors.room = none)
    (hm : t.machine = s.machine)
    (ht : t.errors.HasRoom (c.session.errors.taken.size - s.errors.taken.size)) :
    ∃ c', Converses ⟨t, some q⟩ lines' result c' ∧ c'.session.machine = c.session.machine := by
  have room {n : Nat} {r : Sink} (h : r.HasRoom (2 * (n + 1 + 1) + 1)) :
      ∃ r', r.write "> " = (true, r') ∧ r'.HasRoom (2 * (n + 1) + 1) :=
    Sink.HasRoom.exists_write "> " <| h.of_le <| Nat.le_of_eq <| by
      rw [show (Utf8.encode "> ".toList).length = 2 from rfl]
      omega
  induction hl generalizing s t p q
  case nil =>
    have ⟨_, hc₁, _⟩ := exists_converses_nil s hp
    have ⟨_, hc₂, _⟩ := exists_converses_nil t hq
    have ⟨hr, hc⟩ := hc₁.unique h
    subst hr hc
    exact ⟨_, hc₂, hm⟩
  case keep line _ hi =>
    have ⟨p', hw, hp'⟩ := room hp
    have ⟨q', hw', hq'⟩ := room hq
    rcases converses_cases hw h with
      ⟨hn, hr, hc⟩ | ⟨source, hs, ⟨failure, s', hr, hf, hc⟩ | ⟨o, s₁, hr, hc⟩⟩
    case inl =>
      subst hr hc
      exact ⟨_, converses_invalid hw' hn, hm⟩
    case inr.inl =>
      subst hs hf hc
      have ⟨t', hr', hm', _⟩ := (Session.runs_iff.mp hr).exists_of_hasRoom hu hm (n := 0) ht
      exact ⟨_, converses_failing hw' <| Session.runs_iff.mpr hr', hm'⟩
    case inr.inr =>
      subst hs
      have hg := (Session.runs_iff.mp hr).grows.errors
      have hs := hg.size_le
      have hs' : s₁.errors.taken.size ≤ c.session.errors.taken.size := hc.grows.errors.size_le
      have ⟨t₁, hr', hm', ht₁⟩ := (Session.runs_iff.mp hr).exists_of_hasRoom hu hm
        (n := c.session.errors.taken.size - s₁.errors.taken.size) (ht.of_le <| by omega)
      have ⟨c', hc', hm'⟩ := hi hc hp' hq' (hg.room_eq_none hu) hm' ht₁
      exact ⟨c', converses_cons hw' (Session.runs_iff.mpr hr') hc', hm'⟩
  case drop source hs _ hi =>
    have ⟨p', hw, hp'⟩ := room hp
    rcases converses_cases hw h with ⟨hn, _⟩ | ⟨source', he, hr⟩
    case inl => exact absurd rfl (hn source)
    case inr =>
      obtain rfl : source = source' := String.toList_inj.mp <| Utf8.encode_injective he
      have ⟨s', hs, hm'⟩ := Session.exists_runs_static hs hu
      rcases hr with ⟨failure, _, hr, _⟩ | ⟨o, s₁, hr, hc⟩
      case inl => cases (hs.unique hr).left
      case inr =>
        have ⟨_, he⟩ := hs.unique hr
        subst he
        -- The dropped line has written its errors, so what the rest writes is less than the room.
        have hg := (Session.runs_iff.mp hr).grows.errors
        exact hi hc hp' hq (hg.room_eq_none hu) (hm.trans hm'.symm) <|
          ht.of_le <| Nat.sub_le_sub_left hg.size_le _

def Reads (c : Console) (input : List UInt8) (result : Except Failure Unit) (c' : Console) : Prop :=
  c.Converses (Lines.ofBytes input) result c'

-- Prompting runs the lines one after another, whatever their outcomes, with one prompt for each of
-- them and one for the end. The first line that is no text or does not come to an outcome ends it.
-- A line with errors that can be found without running leaves no trace in the machine, as long as
-- the sink for messages has room for all that a sink without a limit would take.
theorem reads_in_turn {input : List UInt8} (h : Lines.Separates input lines) (s : Session) :
    (∀ p sources s', lines = sources.map (Utf8.encode ·.toList) → s.RunsAll sources s' →
      p.HasRoom (2 * (lines.length + 1) + 1) →
      ∃ q, Reads ⟨s, some p⟩ input (.ok ()) ⟨s', some q⟩ ∧
        q.taken.toList = p.taken.toList ++ asked (lines.length + 1) ++ Utf8.encode "\n".toList) ∧
    (∀ p sources line later s', lines = sources.map (Utf8.encode ·.toList) ++ line :: later →
      (∀ text : String, line ≠ Utf8.encode text.toList) → s.RunsAll sources s' →
      p.HasRoom (2 * (sources.length + 1)) →
      ∃ q, Reads ⟨s, some p⟩ input (.error .invalidText) ⟨s', some q⟩ ∧
        q.taken.toList = p.taken.toList ++ asked (sources.length + 1)) ∧
    (∀ p sources source later s₁ failure s',
      lines = sources.map (Utf8.encode ·.toList) ++ Utf8.encode source.toList :: later →
      s.RunsAll sources s₁ → s₁.Runs source (.error failure) s' →
      p.HasRoom (2 * (sources.length + 1)) →
      ∃ q, Reads ⟨s, some p⟩ input (.error failure) ⟨s', some q⟩ ∧
        q.taken.toList = p.taken.toList ++ asked (sources.length + 1)) ∧
    (∀ p before source after input' result c,
      lines = before ++ Utf8.encode source.toList :: after → Session.staticMessages source ≠ [] →
      Lines.Separates input' (before ++ after) → p.HasRoom (2 * (lines.length + 1) + 1) →
      Reads ⟨s.unlimited, some p⟩ input result c →
      s.errors.HasRoom (c.session.errors.taken.size - s.errors.taken.size) →
      ∃ c₁ c₂, Reads ⟨s, some p⟩ input result c₁ ∧ Reads ⟨s, some p⟩ input' result c₂ ∧
        c₁.session.machine = c.session.machine ∧ c₂.session.machine = c.session.machine) := by
  simp only [Reads, ← h.eq_ofBytes]
  refine ⟨?all, ?invalid, ?failing, ?removal⟩
  case all =>
    intro p sources s' hl hr hp
    have ⟨p₁, h₁, ht₁, hc⟩ := exists_of_runsAll hr (n := 3) <| hp.of_le <| by
      rw [hl, List.length_map]
      omega
    have ⟨q, hq, ht⟩ := exists_converses_nil s' h₁
    refine ⟨q, ?_, ?_⟩
    case refine_1 =>
      have hr := hc _ _ _ hq
      rwa [List.append_nil, ← hl] at hr
    case refine_2 =>
      rw [ht, ht₁, asked_succ', hl, List.length_map, List.append_assoc p.taken.toList]
  case invalid =>
    intro p sources line later s' hl hn hr hp
    have ⟨p₁, h₁, ht₁, hc⟩ := exists_of_runsAll hr (n := 2) <| hp.of_le <| by omega
    have ⟨q, hw, _⟩ := Sink.HasRoom.exists_write (n := 0) "> " h₁
    refine ⟨q, hl ▸ hc _ _ _ (converses_invalid hw hn), ?_⟩
    rw [Sink.toList_of_write hw, ht₁, asked_succ', List.append_assoc]
  case failing =>
    intro p sources source later s₁ failure s' hl hr hf hp
    have ⟨p₁, h₁, ht₁, hc⟩ := exists_of_runsAll hr (n := 2) <| hp.of_le <| by omega
    have ⟨q, hw, _⟩ := Sink.HasRoom.exists_write (n := 0) "> " h₁
    refine ⟨q, hl ▸ hc _ _ _ (converses_failing hw hf), ?_⟩
    rw [Sink.toList_of_write hw, ht₁, asked_succ', List.append_assoc]
  case removal =>
    intro p before source after input' result c hl hs h' hp hr ht
    have hd : Thins lines (before ++ after) := hl ▸ (Thins.drop hs (.refl after)).append before
    have hd' := hd.length_le
    have ⟨c₁, hc₁, hm₁⟩ := hr.exists_of_thins (.refl lines) hp hp rfl (t := s) rfl ht
    have ⟨c₂, hc₂, hm₂⟩ := hr.exists_of_thins hd hp (hp.of_le <| by omega) rfl (t := s) rfl ht
    rw [← h'.eq_ofBytes]
    exact ⟨c₁, c₂, hc₁, hc₂, hm₁, hm₂⟩

theorem reads_in_turn_of_removal :
    let sources := ["var a = 1;", "1 +;", "print a;"]
    let input := Utf8.encode "var a = 1;\r\n1 +;\nprint a;".toList
    let input' := Utf8.encode "var a = 1;\nprint a;\n".toList
    Lines.Separates input (sources.map (Utf8.encode ·.toList)) ∧
      Session.staticMessages "1 +;" ≠ [] ∧
      ∃ s q c, Reads ⟨{}, some {}⟩ input (.ok ()) ⟨s, some q⟩ ∧
        q.taken.toList = Utf8.encode "> > > > \n".toList ∧
        Reads ⟨{}, some {}⟩ input' (.ok ()) c ∧ c.session.machine = s.machine := by
  intro sources input input'
  have hl : Lines.ofBytes input = sources.map (Utf8.encode ·.toList) := by decide +kernel
  have hl' : Lines.ofBytes input' = ["var a = 1;", "print a;"].map (Utf8.encode ·.toList) := by
    decide +kernel
  have h := hl ▸ Lines.separates_ofBytes input
  have h' := hl' ▸ Lines.separates_ofBytes input'
  have hs : Session.staticMessages "1 +;" ≠ [] := by decide +kernel
  have hr : Session.RunsAll {} sources _ :=
    .cons (o := .success) ⟨1, Prod.ext (by decide +kernel) rfl, nofun⟩ <|
    .cons (o := .staticError) ⟨1, Prod.ext (by decide +kernel) rfl, nofun⟩ <|
    .cons (o := .success) ⟨1, Prod.ext (by decide +kernel) rfl, nofun⟩ (.nil _)
  have hp (n : Nat) : Sink.HasRoom {} n := Sink.hasRoom_of_unlimited rfl n
  have ⟨hall, _, _, hrem⟩ := reads_in_turn h {}
  have ⟨q, hq, ht⟩ := hall {} sources _ rfl hr (hp _)
  have ⟨_, c, _, hc, _, hm⟩ := hrem {} [Utf8.encode "var a = 1;".toList] "1 +;"
    [Utf8.encode "print a;".toList] input' _ _ rfl hs h' (hp _) hq (hp _)
  exact ⟨h, hs, _, q, c, hq, ht, hc, hm⟩

-- A sink for messages that has no room ends the prompt at the first message. So a line with such an
-- error can keep the lines behind it from being run.
theorem output_without_room :
    let s : Session := ⟨{}, ⟨#[], some 0⟩⟩
    let input := Utf8.encode "1 +;\nprint 1;\n".toList
    let input' := Utf8.encode "print 1;\n".toList
    Lines.Separates input (["1 +;", "print 1;"].map (Utf8.encode ·.toList)) ∧
      Lines.Separates input' (["print 1;"].map (Utf8.encode ·.toList)) ∧
      Session.staticMessages "1 +;" ≠ [] ∧
      ∃ result c c', Reads ⟨s, some {}⟩ input result c ∧ Reads ⟨s, some {}⟩ input' (.ok ()) c' ∧
        c.session.machine.output.taken.toList = [] ∧
        c'.session.machine.output.taken.toList = Utf8.encode "1\n".toList := by
  intro s input input'
  have hl : Lines.ofBytes input = ["1 +;", "print 1;"].map (Utf8.encode ·.toList) := by
    decide +kernel
  have hl' : Lines.ofBytes input' = ["print 1;"].map (Utf8.encode ·.toList) := by decide +kernel
  have hs : Session.staticMessages "1 +;" ≠ [] := by decide +kernel
  have hc : Reads ⟨s, some {}⟩ input (.error .sinkFull) _ :=
    ⟨1, Prod.ext (by decide +kernel) rfl, by simp⟩
  have hc' : Reads ⟨s, some {}⟩ input' (.ok ()) _ := ⟨1, Prod.ext (by decide +kernel) rfl, nofun⟩
  exact ⟨hl ▸ Lines.separates_ofBytes input, hl' ▸ Lines.separates_ofBytes input', hs, _, _, _,
    hc, hc', by decide +kernel, by decide +kernel⟩

end Console
end Lox
