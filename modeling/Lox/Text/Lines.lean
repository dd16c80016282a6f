namespace Lox.Lines

variable {α : Type} [BEq α]

def grow (a : α) : List (List α) → List (List α)
  | []            => [[a]]
  | line :: lines => (a :: line) :: lines

-- A line ends at a line feed, one carriage return before it belongs to the ending, and what follows
-- the last line feed is a line only if it is not empty. Texts and bytes have lines alike.
def split (feed ret : α) : List α → List (List α)
  | []           => []
  | [a]          => if a == feed then [[]] else [[a]]
  | a :: b :: as =>
    if a == feed then [] :: split feed ret (b :: as)
    else if a == ret && b == feed then [] :: split feed ret as
    else grow a (split feed ret (b :: as))

def ofBytes (bytes : List UInt8) : List (List UInt8) :=
  split '\n'.toUInt8 '\r'.toUInt8 bytes

def ofText (text : String) : List String :=
  (split '\n' '\r' text.toList).map String.ofList

def trim (ret : α) (line : List α) : List α :=
  if line.getLast? == some ret then line.dropLast else line

variable [LawfulBEq α] {feed ret : α} {line tail : List α}

theorem split_feed (feed ret : α) (as : List α) :
    split feed ret (feed :: as) = [] :: split feed ret as := by
  cases as <;> simp [split]

theorem split_of_notMem (h : feed ∉ tail) (hn : tail ≠ []) : split feed ret tail = [tail] := by
  induction tail
  case nil => contradiction
  case cons a as hi =>
    have ha := (List.ne_of_not_mem_cons h).symm
    have has := List.not_mem_of_not_mem_cons h
    cases as
    case nil => simp [split, ha]
    case cons b bs =>
      have hb := (List.ne_of_not_mem_cons has).symm
      simp [split, ha, hb, hi has (by simp), grow]

theorem split_append (ret : α) (h : feed ∉ line) (as : List α) :
    split feed ret (line ++ feed :: as) = trim ret line :: split feed ret as := by
  induction line
  case nil => exact split_feed feed ret as
  case cons a line hi =>
    have ha := (List.ne_of_not_mem_cons h).symm
    have hl := List.not_mem_of_not_mem_cons h
    cases line
    case nil =>
      by_cases hr : a = ret
      case pos =>
        have ha := hr ▸ ha
        simp [split, ha, hr, trim]
      case neg => simp [split, ha, hr, trim, split_feed, grow]
    case cons b line =>
      have hb := (List.ne_of_not_mem_cons hl).symm
      have ht : trim ret (a :: b :: line) = a :: trim ret (b :: line) := by
        simp only [trim, List.getLast?_cons_cons]
        split <;> simp
      have hs : split feed ret (a :: b :: (line ++ feed :: as)) =
          grow a (split feed ret (b :: (line ++ feed :: as))) := by
        simp [split, ha, hb]
      exact hs.trans <| (congrArg (grow a) (hi hl)).trans <| by rw [grow, ht]

def Separates (bytes : List UInt8) (lines : List (List UInt8)) : Prop :=
  ∃ (ended : List (List UInt8)) (tail : List UInt8),
    (∀ line ∈ tail :: ended, '\n'.toUInt8 ∉ line) ∧
    bytes = ended.flatMap (· ++ ['\n'.toUInt8]) ++ tail ∧
    lines = ended.map (trim '\r'.toUInt8) ++ if tail = [] then [] else [tail]

theorem Separates.eq_ofBytes {bytes : List UInt8} {lines : List (List UInt8)}
    (h : Separates bytes lines) : lines = ofBytes bytes := by
  have ⟨ended, tail, hn, hb, hl⟩ := h
  subst hb hl
  have ⟨ht, he⟩ := List.forall_mem_cons.mp hn
  clear hn h
  induction ended
  case nil =>
    rw [List.map_nil, List.flatMap_nil, List.nil_append, List.nil_append]
    split
    case isTrue h =>
      rw [h]
      rfl
    case isFalse h => exact (split_of_notMem ht h).symm
  case cons line ended hi =>
    have ⟨hl, he⟩ := List.forall_mem_cons.mp he
    have hs := split_append '\r'.toUInt8 hl (ended.flatMap (· ++ ['\n'.toUInt8]) ++ tail)
    rw [List.map_cons, List.flatMap_cons, List.append_assoc, List.append_assoc, ofBytes,
      List.singleton_append, hs, List.cons_append, hi he, ofBytes]

theorem exists_ended (bytes : List UInt8) : ∃ (ended : List (List UInt8)) (tail : List UInt8),
    (∀ line ∈ tail :: ended, '\n'.toUInt8 ∉ line) ∧
      bytes = ended.flatMap (· ++ ['\n'.toUInt8]) ++ tail := by
  induction bytes
  case nil => exact ⟨[], [], by simp, rfl⟩
  case cons byte bytes hi =>
    have ⟨ended, tail, hn, hb⟩ := hi
    by_cases hf : byte = '\n'.toUInt8
    case pos => exact ⟨[] :: ended, tail, by simpa using hn, by simp [hb, hf]⟩
    case neg =>
      cases ended
      case nil => exact ⟨[], byte :: tail, by simpa [Ne.symm hf] using hn, by simp [hb]⟩
      case cons line ended =>
        exact ⟨(byte :: line) :: ended, tail, by simpa [Ne.symm hf] using hn, by simp [hb]⟩

theorem separates_ofBytes (bytes : List UInt8) : Separates bytes (ofBytes bytes) := by
  have ⟨ended, tail, hn, hb⟩ := exists_ended bytes
  have h : Separates bytes _ := ⟨ended, tail, hn, hb, rfl⟩
  exact h.eq_ofBytes ▸ h

end Lox.Lines
