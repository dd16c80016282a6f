import Lox.Proofs.Lexing.Items

namespace Lox

open Utf8 (encode)

namespace Segment

variable {p : UInt8 → Bool} {b : UInt8} {more : List UInt8}

theorem takeWhile_append_newline (hp : p newline = false) (bytes : List UInt8) :
    (bytes ++ newline :: more).takeWhile p = bytes.takeWhile p := by
  induction bytes
  case nil => simp [hp]
  case cons b bytes hi => simp [List.takeWhile_cons, hi]

theorem dropWhile_append_newline (hp : p newline = false) (bytes : List UInt8) :
    (bytes ++ newline :: more).dropWhile p = bytes.dropWhile p ++ newline :: more := by
  induction bytes
  case nil => simp [hp]
  case cons b bytes hi =>
    simp only [List.cons_append, List.dropWhile_cons, hi]
    split <;> rfl

theorem takeWhile_append_of_dropWhile {bytes : List UInt8} (h : bytes.dropWhile p ≠ []) :
    (bytes ++ more).takeWhile p = bytes.takeWhile p := by
  induction bytes
  case nil => contradiction
  case cons b bytes hi =>
    cases hb : p b
    case false => simp [hb]
    case true =>
      simp only [List.dropWhile_cons, hb, if_true] at h
      simp [hb, hi h]

theorem cutQuoted_append (bytes : List UInt8) (h : (cutQuoted b bytes).1.kind ≠ .unclosed) :
    cutQuoted b (bytes ++ more) = ((cutQuoted b bytes).1, (cutQuoted b bytes).2 ++ more) := by
  cases hd : bytes.dropWhile (· != quote)
  case nil => simp [cutQuoted, hd] at h
  case cons q rest =>
    have ht : (bytes ++ more).takeWhile (· != quote) = bytes.takeWhile (· != quote) :=
      takeWhile_append_of_dropWhile <| hd ▸ List.cons_ne_nil q rest
    have hd' : (bytes ++ more).dropWhile (· != quote) = q :: rest ++ more := by
      simp [List.dropWhile_append, hd]
    simp [cutQuoted, hd, hd', ht]

theorem cutNumber_append (bytes : List UInt8) :
    cutNumber b (bytes ++ newline :: more) =
      ((cutNumber b bytes).1, (cutNumber b bytes).2 ++ newline :: more) := by
  have hn : isDigit newline = false := rfl
  simp only [cutNumber, takeWhile_append_newline hn, dropWhile_append_newline hn]
  generalize bytes.dropWhile isDigit = rest
  rcases rest with _ | ⟨point, _ | ⟨digit, rest⟩⟩
  case nil => cases more <;> rfl
  case cons.nil => simp [hn]
  case cons.cons =>
    simp only [List.cons_append, takeWhile_append_newline hn, dropWhile_append_newline hn]
    split <;> rfl

theorem cutWord_append (bytes : List UInt8) :
    cutWord b (bytes ++ newline :: more) =
      ((cutWord b bytes).1, (cutWord b bytes).2 ++ newline :: more) := by
  have hn : isWordPart newline = false := rfl
  simp only [cutWord, takeWhile_append_newline hn, dropWhile_append_newline hn]

theorem cutComment_append (bytes : List UInt8) :
    cutComment b (bytes ++ newline :: more) =
      ((cutComment b bytes).1, (cutComment b bytes).2 ++ newline :: more) := by
  have hn : (newline != newline) = false := rfl
  simp only [cutComment, takeWhile_append_newline (p := (· != newline)) hn,
    dropWhile_append_newline (p := (· != newline)) hn]

theorem cutSymbol_append (bytes : List UInt8) :
    cutSymbol b (bytes ++ newline :: more) =
      ((cutSymbol b bytes).1, (cutSymbol b bytes).2 ++ newline :: more) := by
  have hn : (char newline == '=') = false := rfl
  simp only [cutSymbol]
  cases symbol? (char b)
  case none => rfl
  case some =>
    cases symbolEqual? (char b)
    case none => rfl
    case some =>
      cases bytes
      case nil => rfl
      case cons e rest =>
        simp only [List.cons_append]
        split <;> rfl

theorem startsComment_append (bytes : List UInt8) :
    startsComment b (bytes ++ newline :: more) = startsComment b bytes := by
  have hn : (char newline == '/') = false := rfl
  cases bytes
  case nil => simp [startsComment, hn]
  case cons => rfl

theorem cut_append (bytes : List UInt8) (h : (cut b bytes).1.kind ≠ .unclosed) :
    cut b (bytes ++ newline :: more) = ((cut b bytes).1, (cut b bytes).2 ++ newline :: more) := by
  simp only [cut, startsComment_append, cutNumber_append, cutWord_append, cutComment_append,
    cutSymbol_append] at h ⊢
  split
  case isTrue => rfl
  case isFalse hb =>
  split
  case isTrue hq =>
    simp only [hb, hq] at h
    exact cutQuoted_append bytes h
  case isFalse => (repeat' split) <;> rfl

theorem ofBytes_append_newline (bytes : List UInt8) (h : ∀ s ∈ ofBytes bytes, s.kind ≠ .unclosed) :
    ofBytes (bytes ++ newline :: more) = ofBytes bytes ++ ⟨.blank, [newline]⟩ :: ofBytes more := by
  fun_induction ofBytes bytes
  case case1 => exact ofBytes_cons newline more
  case case2 b bytes hi =>
    have h := List.forall_mem_cons.mp h
    simp only [List.cons_append, ofBytes_cons, cut_append bytes h.left, hi h.right]

end Segment

def Lexeme.down (lines : Nat) (l : Lexeme) : Lexeme :=
  { l with line := l.line + lines }

def ScanError.down (lines : Nat) (e : ScanError) : ScanError :=
  { e with line := e.line + lines }

def Item.down (lines : Nat) : Item → Item
  | lexeme l => lexeme (l.down lines)
  | error e  => error (e.down lines)

theorem Segment.item?_add (s : Segment) (line lines : Nat) :
    s.item? (line + lines) = (s.item? line).map (Item.down lines) := by
  simp only [item?]
  cases s.kind <;> rfl

-- Nothing in the source runs on behind its end. A newline ends all other kinds of segments, so an
-- open string is the only thing that could.
def Closed (source : String) : Prop :=
  ∀ s ∈ Segment.ofBytes (encode source.toList), s.kind ≠ .unclosed

namespace Cursor

theorem items_go_add (line lines : Nat) (ss : List Segment) :
    items.go (line + lines) ss = (items.go line ss).map (Item.down lines) := by
  induction ss generalizing line
  case nil => rfl
  case cons s ss hi =>
    have hl : line + lines + s.newlines = line + s.newlines + lines := Nat.add_right_comm ..
    simp only [items.go, hl, hi, (Segment.item?_add s _ lines), Option.toList_map, List.map_append]

theorem items_join {a : String} (ha : Closed a) (b : String) :
    (ofSource (a ++ "\n" ++ b)).items =
      itemsBefore a ++ (ofSource b).items.map (Item.down (1 + lineBreaks a)) := by
  have he : encode (a ++ "\n" ++ b).toList =
      encode a.toList ++ Segment.newline :: encode b.toList := by
    simp only [String.toList_append, Utf8.encode_append, List.append_assoc]
    rfl
  have hs : Segment.ofBytes (encode a.toList ++ Segment.newline :: encode b.toList) = _ :=
    Segment.ofBytes_append_newline _ ha
  have hg := items_go_append 1 (Segment.ofBytes <| encode a.toList)
    (⟨.blank, [Segment.newline]⟩ :: Segment.ofBytes (encode b.toList))
  have hl : 1 + lineBreaks a + 1 = 1 + (1 + lineBreaks a) := by omega
  calc (ofSource (a ++ "\n" ++ b)).items
    _ = items.go 1 (Segment.ofBytes <| encode (a ++ "\n" ++ b).toList) := rfl
    _ = itemsBefore a ++ items.go (1 + lineBreaks a)
          (⟨.blank, [Segment.newline]⟩ :: Segment.ofBytes (encode b.toList)) := by
      simp only [he, hs, hg, Segment.flatMap_bytes_ofBytes, count_newline_encode]
      rfl
    _ = itemsBefore a ++ items.go (1 + lineBreaks a + 1) (Segment.ofBytes <| encode b.toList) := rfl
    _ = itemsBefore a ++ (items.go 1 (Segment.ofBytes <| encode b.toList)).map
          (Item.down (1 + lineBreaks a)) := by
      simp only [hl, items_go_add]

end Cursor

theorem Item.lexeme?_down (lines : Nat) (item : Item) :
    (item.down lines).lexeme? = item.lexeme?.map (Lexeme.down lines) := by
  cases item <;> rfl

theorem Item.error?_down (lines : Nat) (item : Item) :
    (item.down lines).error? = item.error?.map (ScanError.down lines) := by
  cases item <;> rfl

namespace Scan

variable {a : String}

theorem closed_of_errors (h : ∀ e ∈ (ofSource a).errors, e.kind ≠ .unterminatedString) :
    Closed a := by
  simp only [errors_ofSource, Cursor.itemsBefore] at h
  simp only [Closed]
  generalize Segment.ofBytes (encode a.toList) = ss at h ⊢
  generalize 1 = line at h
  induction ss generalizing line
  case nil => nofun
  case cons s ss hi =>
    simp only [Segment.items, List.filterMap_append] at h
    have h := List.forall_mem_append.mp h
    refine List.forall_mem_cons.mpr ⟨fun hk => ?_, hi _ h.right⟩
    have hs := h.left
    simp [Segment.item?, hk, Item.error?] at hs

theorem lexemes_join (ha : Closed a) (b : String) :
    (ofSource (a ++ "\n" ++ b)).lexemes =
      lexemesBefore a ++ (ofSource b).lexemes.map (Lexeme.down (1 + lineBreaks a)) := by
  simp only [lexemes_eq, Cursor.items_join ha, List.filterMap_append, List.filterMap_map,
    List.map_filterMap, Function.comp_def, Item.lexeme?_down]
  rfl

theorem errors_join (ha : Closed a) (b : String) :
    (ofSource (a ++ "\n" ++ b)).errors =
      (ofSource a).errors ++ (ofSource b).errors.map (ScanError.down (1 + lineBreaks a)) := by
  simp only [errors_ofSource a, errors_eq, Cursor.items_join ha, List.filterMap_append,
    List.filterMap_map, List.map_filterMap, Function.comp_def, Item.error?_down]

-- A line break is where two sources can be put together, unless a string is open in the first: the
-- newline ends there whatever the end of the source does. So neither source shows in what is
-- scanned of the other, but for the lines that come before the second.
theorem ofSource_join (h : ∀ e ∈ (ofSource a).errors, e.kind ≠ .unterminatedString) (b : String) :
    let lines := 1 + lineBreaks a
    (ofSource a).lexemes = (ofSource a).visible ++ [⟨.eof, "", lines⟩] ∧
      ofSource (a ++ "\n" ++ b) = {
        lexemes := (ofSource a).visible ++ (ofSource b).lexemes.map (Lexeme.down lines)
        errors  := (ofSource a).errors ++ (ofSource b).errors.map (ScanError.down lines)
      } ∧
      (Cursor.ofSource (a ++ "\n" ++ b)).items =
        (Cursor.ofSource a).items.dropLast ++ (Cursor.ofSource b).items.map (Item.down lines) := by
  intro lines
  have hc := closed_of_errors h
  refine ⟨?lexemes, ?scan, ?items⟩
  case lexemes => rw [visible_ofSource, lexemes_ofSource]
  case scan =>
    have hl := lexemes_join hc b
    rw [← visible_ofSource] at hl
    exact congrArg₂ Scan.mk hl (errors_join hc b)
  case items =>
    rw [Cursor.items_join hc, Cursor.items_ofSource a, List.dropLast_concat]

theorem ofSource_join_of_halves :
    let a := "\"\n\"é\n1.="
    let b := "=2\n#"
    let lines := 1 + lineBreaks a
    (ofSource a).errors.length = 2 ∧ lines = 3 ∧
      (ofSource (a ++ "\n" ++ b)).lexemes.map (fun l => (l.content, l.line)) =
        [("\"\n\"", 2), ("1", 3), (".", 3), ("=", 3), ("=", 4), ("2", 4), ("", 5)] ∧
      ofSource (a ++ "\n" ++ b) = {
        lexemes := (ofSource a).visible ++ (ofSource b).lexemes.map (Lexeme.down lines)
        errors  := (ofSource a).errors ++ (ofSource b).errors.map (ScanError.down lines)
      } := by
  intro a b lines
  have h : ∀ e ∈ (ofSource a).errors, e.kind ≠ .unterminatedString := by decide +kernel
  exact ⟨by decide +kernel, by decide +kernel, by decide +kernel, (ofSource_join h b).right.left⟩

end Scan
end Lox
