import Mathlib.Data.List.Range
import TextGrammar.Proofs.Token.Stream

/-!
# Rows, columns and lines

A cursor writes down where the lines begin that it enters, and this table is exact however the
scanner has been asked: nobody but the cursor that passes a line break writes to it. So the row of a
token is the number of line breaks in front of it, its column is how far it is behind the last of
them, and on this line of the source, between its two columns, stands what it has on its first line.
-/
namespace TextGrammar

/-! ## The lines of a text -/

namespace Text

/-- The lines without their line breaks. There is always one more line than there are breaks. -/
def lines (text : List Char) : List (List Char) := text.splitOn '\n'

/-- Where the lines begin that one has entered when so many characters have been read: at the start,
and behind every line break among them. -/
def lineStarts (text : List Char) (offset : Nat) : List Nat :=
  0 :: ((List.range offset).filter fun index => text[index]? = some '\n').map (· + 1)

theorem lineStarts_ne_nil (text : List Char) (offset : Nat) : lineStarts text offset ≠ [] :=
  List.cons_ne_nil _ _

/-- The start of the line that an offset is on. -/
def lineStart (text : List Char) (offset : Nat) : Nat :=
  (lineStarts text offset).getLast (lineStarts_ne_nil text offset)

/-- What a line has from an offset on. -/
def lineFrom (text : List Char) (start : Nat) : List Char :=
  (text.drop start).takeWhile (· ≠ '\n')

variable {text rest : List Char} {char : Char} {offset offset' start row : Nat}

theorem lineStarts_succ (text : List Char) (offset : Nat) :
    lineStarts text (offset + 1) =
      lineStarts text offset ++ if text[offset]? = some '\n' then [offset + 1] else [] := by
  unfold lineStarts
  rw [List.range_succ, List.filter_append, List.map_append, List.cons_append]
  split
  next broken => simp [broken]
  next whole => simp [whole]

theorem lineStarts_cons (char : Char) (rest : List Char) (offset : Nat) :
    lineStarts (char :: rest) (offset + 1) =
      0 :: (if char = '\n' then lineStarts rest offset else (lineStarts rest offset).tail).map
        (· + 1) := by
  unfold lineStarts
  rw [List.range_succ_eq_map, List.filter_cons, List.filter_map]
  split
  next broken =>
    have isBreak : char = '\n' := by simpa using broken
    simp [isBreak, Function.comp_def]
  next whole =>
    have noBreak : char ≠ '\n' := by simpa using whole
    simp [noBreak, Function.comp_def]

theorem pairwise_lineStarts (text : List Char) (offset : Nat) :
    (lineStarts text offset).Pairwise (· < ·) := by
  refine List.pairwise_cons.mpr ⟨?_, ?_⟩
  · intro start member
    obtain ⟨index, _, rfl⟩ := List.mem_map.mp member
    exact Nat.succ_pos index
  · exact List.Pairwise.map _ (fun _ _ => Nat.succ_lt_succ) (List.pairwise_lt_range.filter _)

theorem length_lineStarts (text : List Char) (offset : Nat) :
    (lineStarts text offset).length = (text.take offset).count '\n' + 1 := by
  induction offset with
  | zero => simp [lineStarts]
  | succ offset ih =>
    rw [lineStarts_succ, List.length_append, ih, List.take_add_one, List.count_append]
    cases here : text[offset]? with
    | none => simp
    | some char => by_cases isBreak : char = '\n' <;> simp [isBreak]

theorem lineStarts_prefix (text : List Char) (within : offset ≤ offset') :
    lineStarts text offset <+: lineStarts text offset' := by
  induction within with
  | refl => exact List.prefix_rfl
  | step _ ih =>
    rw [lineStarts_succ]
    exact ih.trans (List.prefix_append _ _)

/-- Every line begins at one of the starts and goes on up to the next line break. -/
theorem lines_eq (text : List Char) :
    lines text = (lineStarts text text.length).map (lineFrom text) := by
  induction text with
  | nil => rfl
  | cons char rest ih =>
    have shifted (starts : List Nat) : (starts.map (· + 1)).map (lineFrom (char :: rest)) =
        starts.map (lineFrom rest) := by
      simp [lineFrom, Function.comp_def]
    unfold lines at ih ⊢
    rw [List.splitOn_cons_eq_if_modifyHead, ih, List.length_cons, lineStarts_cons, List.map_cons,
      shifted]
    by_cases isBreak : char = '\n'
    · simp [isBreak, lineFrom]
    · simp [isBreak, lineFrom, lineStarts]

theorem getElem?_lines (listed : (lineStarts text offset)[row]? = some start)
    (within : offset ≤ text.length) : (lines text)[row]? = some (lineFrom text start) := by
  obtain ⟨later, split⟩ := lineStarts_prefix text within
  have bound : row < (lineStarts text offset).length := (List.getElem?_eq_some_iff.mp listed).1
  rw [lines_eq, List.getElem?_map, ← split, List.getElem?_append_left bound, listed,
    Option.map_some]

theorem lineStart_succ (text : List Char) (offset : Nat) :
    lineStart text (offset + 1) =
      if text[offset]? = some '\n' then offset + 1 else lineStart text offset := by
  simp only [lineStart, lineStarts_succ]
  split <;> simp

/-- The line that an offset is on is as many lines down as there are breaks in front of it. -/
theorem getElem?_lineStart (text : List Char) (offset : Nat) :
    (lineStarts text offset)[(text.take offset).count '\n']? = some (lineStart text offset) := by
  have last := List.getLast?_eq_getElem? (l := lineStarts text offset)
  rw [length_lineStarts, Nat.add_sub_cancel] at last
  rw [← last, lineStart, List.getLast?_eq_some_getLast]

/-- There is no break between the start of a line and an offset on it. -/
theorem lineStart_split (within : offset ≤ text.length) :
    ∃ front, text.drop (lineStart text offset) = front ++ text.drop offset ∧
      lineStart text offset + front.length = offset ∧ ∀ char ∈ front, char ≠ '\n' := by
  induction offset with
  | zero => exact ⟨[], rfl, rfl, nofun⟩
  | succ offset ih =>
    have here : text[offset]? = some text[offset] := List.getElem?_eq_getElem within
    have next : text.drop offset = text[offset] :: text.drop (offset + 1) :=
      List.drop_eq_getElem_cons within
    rw [lineStart_succ]
    split
    next broken => exact ⟨[], rfl, rfl, nofun⟩
    next whole =>
      -- the line goes on, so the offset moves on along it
      obtain ⟨front, split, length, unbroken⟩ := ih (Nat.le_of_succ_le within)
      refine ⟨front ++ [text[offset]], ?_, ?_, ?_⟩
      · rw [split, next, List.append_assoc, List.singleton_append]
      · rw [List.length_append, List.length_singleton]
        omega
      · rw [here, Option.some.injEq] at whole
        exact List.forall_mem_append.mpr ⟨unbroken, List.forall_mem_singleton.mpr whole⟩

end Text

/-! ## The table of a cursor -/

/-- The cursor is in the text, and its table is that of what it has read. -/
structure Cursor.Charted (text : List Char) (cursor : Cursor) : Prop where
  source : cursor.source = text
  rest : text.drop cursor.offset = cursor.rest
  within : cursor.offset ≤ text.length
  starts : cursor.lineStarts.reverse = Text.lineStarts text cursor.offset

namespace Cursor.Charted

variable {text : List Char} {cursor : Cursor}

theorem ofSource (text : List Char) : (Cursor.ofSource text).Charted text :=
  ⟨rfl, rfl, Nat.zero_le _, rfl⟩

/-- The character behind a front is found in the text behind as many characters. -/
theorem getElem?_behind {front later : List Char} (charted : cursor.Charted text)
    (ahead : cursor.rest = front ++ later) :
    text[cursor.offset + front.length]? = later.head? := by
  rw [← List.getElem?_drop, charted.rest, ahead, List.getElem?_append_right (Nat.le_refl _),
    Nat.sub_self, List.head?_eq_getElem?]

theorem getElem?_here {char : Char} {later : List Char} (charted : cursor.Charted text)
    (ahead : cursor.rest = char :: later) : text[cursor.offset]? = some char := by
  rw [← List.head?_drop, charted.rest, ahead, List.head?_cons]

theorem step {char : Char} {later : List Char} (charted : cursor.Charted text)
    (ahead : cursor.rest = char :: later) : (cursor.step char later).Charted text := by
  have dropped := charted.rest.trans ahead
  have here := charted.getElem?_here ahead
  refine ⟨charted.source, ?_, ?_, ?_⟩
  · rw [Cursor.step, ← List.drop_drop, dropped]
    rfl
  · exact (List.getElem?_eq_some_iff.mp here).1
  · rw [Cursor.step, Text.lineStarts_succ, here, ← charted.starts]
    by_cases isBreak : char = '\n' <;> simp [isBreak]

theorem pass (charted : cursor.Charted text) (count : Nat) : (cursor.pass count).Charted text := by
  induction count generalizing cursor with
  | zero => exact charted
  | succ count ih =>
    unfold Cursor.pass
    split
    next => exact charted
    next char rest ahead => exact ih (charted.step ahead)

theorem row_eq (charted : cursor.Charted text) :
    cursor.row = (text.take cursor.offset).count '\n' := by
  rw [Cursor.row, ← List.length_reverse, charted.starts, Text.length_lineStarts,
    Nat.add_sub_cancel]

theorem lineStart_eq (charted : cursor.Charted text) :
    cursor.lineStart = Text.lineStart text cursor.offset := by
  have last := congrArg List.getLast? charted.starts
  rw [List.getLast?_reverse, List.getLast?_eq_some_getLast (Text.lineStarts_ne_nil _ _)] at last
  rw [Cursor.lineStart, List.headD_eq_head?_getD, last]
  rfl

/-- The line of every row up to the one that the cursor is on, and no other, can be looked up. -/
theorem line?_eq (charted : cursor.Charted text) (row : Nat) :
    cursor.line? row =
      if row ≤ (text.take cursor.offset).count '\n' then
        (Text.lines text)[row]?.map String.ofList
      else none := by
  unfold Cursor.line?
  rw [charted.starts]
  split
  next reached =>
    have bound : row < (Text.lineStarts text cursor.offset).length := by
      rw [Text.length_lineStarts]
      omega
    have listed := List.getElem?_eq_getElem bound
    rw [Text.getElem?_lines listed charted.within, listed, Option.map_some, Option.map_some,
      Cursor.lineFrom, charted.source]
    rfl
  next beyond =>
    rw [List.getElem?_eq_none (by rw [Text.length_lineStarts]; omega), Option.map_none]

theorem offset_pass (charted : cursor.Charted text) {count : Nat}
    (enough : count ≤ cursor.rest.length) :
    (cursor.pass count).offset = cursor.offset + count := by
  have passed := charted.pass count
  have left := congrArg List.length charted.rest
  have left' := congrArg List.length passed.rest
  rw [Cursor.rest_pass, List.length_drop, List.length_drop] at left'
  rw [List.length_drop] at left
  have within := charted.within
  have within' := passed.within
  omega

end Cursor.Charted

/-! ## Tokens -/

/-- The token is the piece of the text that begins at this offset, and its place is right. -/
structure Token.PlacedAt (text : List Char) (start : Nat) (token : Token) : Prop where
  lexeme : (text.drop start).take token.lexeme.length = token.lexeme.toList
  row : token.span.row = (text.take start).count '\n'
  col : token.span.col = (start : Int) - Text.lineStart text start
  shown : ∃ line, (Text.lines text)[token.span.row.toNat]? = some line ∧
    0 ≤ token.span.col ∧ token.span.col ≤ token.span.stop ∧ token.span.stop ≤ line.length ∧
    (line.take token.span.stop.toNat).drop token.span.col.toNat =
      token.lexeme.toList.takeWhile (· ≠ '\n')

/-- The span begins at this offset of the text. -/
structure Span.StartsAt (text : List Char) (start : Nat) (span : Span) : Prop where
  row : span.row = (text.take start).count '\n'
  col : span.col = (start : Int) - Text.lineStart text start

theorem Token.PlacedAt.startsAt {text : List Char} {start : Nat} {token : Token}
    (placed : token.PlacedAt text start) : token.span.StartsAt text start :=
  ⟨placed.row, placed.col⟩

theorem takeWhile_prefix_append (p : Char → Bool) (front back : List Char) :
    front.takeWhile p <+: (front ++ back).takeWhile p := by
  rw [List.takeWhile_append]
  split
  next whole =>
    rw [(List.takeWhile_prefix p).eq_of_length whole]
    exact List.prefix_append _ _
  next => exact List.prefix_rfl

/-- What stands at a cursor is placed where the cursor is. -/
theorem Cursor.Charted.placedAt {text word later : List Char} {cursor : Cursor}
    (charted : cursor.Charted text) (ahead : cursor.rest = word ++ later) (kind : Kind)
    (file : String) :
    Token.PlacedAt text cursor.offset ⟨kind, String.ofList word, cursor.locate file word⟩ := by
  have here : text.drop cursor.offset = word ++ later := charted.rest.trans ahead
  obtain ⟨front, split, length, unbroken⟩ := Text.lineStart_split charted.within
  have col : cursor.col = front.length := by
    rw [Cursor.col, charted.lineStart_eq]
    omega
  -- the line is what it has in front of the cursor and what the word and the rest begin with
  have line : Text.lineFrom text (Text.lineStart text cursor.offset) =
      front ++ (word ++ later).takeWhile (· ≠ '\n') := by
    rw [Text.lineFrom, split, here, List.takeWhile_append_of_pos (by simpa using unbroken)]
  obtain ⟨after, onLine⟩ := takeWhile_prefix_append (· ≠ '\n') word later
  have stop : (cursor.locate file word).stop =
      ((front ++ word.takeWhile (· ≠ '\n')).length : Nat) := by
    simp [Cursor.locate, col]
  refine ⟨?_, ?_, ?_, front ++ (word.takeWhile (· ≠ '\n') ++ after), ?_, ?_, ?_, ?_, ?_⟩
  · rw [here, String.length_ofList, List.take_left, String.toList_ofList]
  · exact congrArg Nat.cast charted.row_eq
  · show (cursor.col : Int) = _
    omega
  · rw [onLine, ← line]
    have row : (cursor.locate file word).row.toNat = (text.take cursor.offset).count '\n' :=
      charted.row_eq
    exact Text.getElem?_lines (row ▸ Text.getElem?_lineStart text cursor.offset) charted.within
  · exact Int.natCast_nonneg _
  · exact Int.le_add_of_nonneg_right (Int.natCast_nonneg _)
  · rw [stop, ← List.append_assoc]
    exact Int.ofNat_le.mpr (List.prefix_append _ after).length_le
  · rw [String.toList_ofList, stop, Int.toNat_natCast, ← List.append_assoc, List.take_left]
    simp [Cursor.locate, col]

namespace Scanner

theorem charted_next {text : List Char} {scanner : Scanner}
    (charted : scanner.cursor.Charted text) : scanner.next.2.cursor.Charted text :=
  (charted.pass _).pass _

/-- A token stands right behind its gap, and the scanner is left right behind the token. -/
theorem Cuts.placedAt {text gap word later : List Char} {scanner after : Scanner} {token : Token}
    (charted : scanner.cursor.Charted text) (cuts : scanner.Cuts gap word later token after) :
    token.PlacedAt text (scanner.cursor.offset + gap.length) ∧
      after.cursor.offset = scanner.cursor.offset + gap.length + token.lexeme.length := by
  have skipped := charted.pass gap.length
  have ahead : (scanner.cursor.pass gap.length).rest = word ++ later :=
    Cursor.rest_behind cuts.rest
  have start : (scanner.cursor.pass gap.length).offset = scanner.cursor.offset + gap.length :=
    charted.offset_pass (by simp [cuts.rest])
  constructor
  · have placed := skipped.placedAt ahead token.kind scanner.file
    rwa [← cuts.lexeme, ← cuts.place, start] at placed
  · rw [cuts.cursor, skipped.offset_pass (by simp [ahead]), cuts.lexeme, String.length_ofList,
      start]

theorem placedAt_of_next {text : List Char} {scanner after : Scanner} {token : Token}
    (charted : scanner.cursor.Charted text) (found : scanner.next = (.ok token, after)) :
    ∃ start, scanner.cursor.offset ≤ start ∧ start + token.lexeme.length = after.cursor.offset ∧
      token.PlacedAt text start := by
  obtain ⟨gap, word, later, cuts⟩ := next_ok_iff.mp found
  obtain ⟨placed, offset⟩ := cuts.placedAt charted
  exact ⟨_, Nat.le_add_right _ _, offset.symm, placed⟩

/-- Asked once, the scanner has nothing but a fault of this cause to report, at this offset. -/
def FailsAt (text : List Char) (scanner : Scanner) (start : Nat) (cause : Cause) : Prop :=
  ∃ fault after, scanner.next = (.error fault, after) ∧ fault.cause = cause ∧
    fault.span.StartsAt text start

section Faults

variable {text gap word later : List Char} {scanner : Scanner} {modes' : List Mode} {char : Char}
  {context : String}

theorem failsAt_of_bad (charted : scanner.cursor.Charted text)
    (rest : scanner.cursor.rest = gap ++ char :: later)
    (finds : Finds scanner.cursor.onBlankLine scanner.modes gap (.badCharacter char) (char :: later)
      modes') :
    scanner.FailsAt text (scanner.cursor.offset + gap.length)
      (.badCharacter char.toString (some .name)) := by
  have ahead : (scanner.cursor.pass gap.length).rest = [char] ++ later := Cursor.rest_behind rest
  have located := ((charted.pass gap.length).placedAt ahead .name scanner.file).startsAt
  rw [charted.offset_pass (by simp [rest])] at located
  have missed := next_error_iff.mpr ⟨gap, .badCharacter char, char :: later,
    (⟨rest, finds, rfl, rfl, rfl⟩ : scanner.Misses _ _ _ _ ⟨scanner.file, _, modes'⟩)⟩
  exact ⟨_, _, missed, rfl, located⟩

theorem failsAt_of_unfinished (charted : scanner.cursor.Charted text)
    (rest : scanner.cursor.rest = gap ++ word)
    (finds : Finds scanner.cursor.onBlankLine scanner.modes gap (.unfinished context word) []
      modes') :
    scanner.FailsAt text (scanner.cursor.offset + gap.length)
      (.endOfInput (some context) (some .finish)) := by
  have ahead : (scanner.cursor.pass gap.length).rest = word ++ [] := by
    rw [List.append_nil]
    exact Cursor.rest_behind rest
  have located := ((charted.pass gap.length).placedAt ahead .text scanner.file).startsAt
  rw [charted.offset_pass (by simp [rest])] at located
  have whole : scanner.cursor.rest = gap ++ ((Found.unfinished context word).taken ++ []) := by
    rw [List.append_nil]
    exact rest
  have missed := next_error_iff.mpr ⟨gap, .unfinished context word, [],
    (⟨whole, finds, rfl, rfl, rfl⟩ : scanner.Misses _ _ _ _ ⟨scanner.file, _, modes'⟩)⟩
  exact ⟨_, _, missed, rfl, located⟩

end Faults

/-- The scanner when it has been called so often, whatever each of the calls came to. -/
def called : Nat → Scanner → Scanner
  | 0, scanner => scanner
  | calls + 1, scanner => scanner.next.2.called calls

theorem charted_called {text : List Char} {scanner : Scanner}
    (charted : scanner.cursor.Charted text) (calls : Nat) :
    (scanner.called calls).cursor.Charted text := by
  induction calls generalizing scanner with
  | zero => exact charted
  | succ calls ih => exact ih (charted_next charted)

theorem line_eq {text : List Char} {scanner : Scanner} (charted : scanner.cursor.Charted text) :
    (∀ row ≤ (text.take scanner.cursor.offset).count '\n',
      ∃ line, (Text.lines text)[row]? = some line ∧
        scanner.line row = .ok (String.ofList line)) ∧
    ∀ row : Int, row < 0 ∨ (text.take scanner.cursor.offset).count '\n' < row →
      scanner.line row = .error ⟨row, (text.take scanner.cursor.offset).count '\n'⟩ := by
  constructor
  · intro row reached
    have bound : row < (Text.lineStarts text scanner.cursor.offset).length := by
      rw [Text.length_lineStarts]
      omega
    have listed := Text.getElem?_lines (List.getElem?_eq_getElem bound) charted.within
    refine ⟨_, listed, ?_⟩
    simp [line, charted.line?_eq, reached, listed]
  · intro row beyond
    unfold line
    rw [charted.row_eq, charted.line?_eq]
    split
    next => rfl
    next nonnegative =>
      rw [if_neg (by omega)]

/-- The table of line starts is that of what has been read, the next token is placed by it, and the
lines that can be looked up are those of the text, up to the one that has been reached. -/
structure Positioned (text : List Char) (scanner : Scanner) : Prop where
  starts : scanner.cursor.lineStarts.reverse = Text.lineStarts text scanner.cursor.offset
  ordered : scanner.cursor.lineStarts.reverse.Pairwise (· < ·)
  placed : ∀ token after, scanner.next = (.ok token, after) →
    ∃ start, scanner.cursor.offset ≤ start ∧ start + token.lexeme.length = after.cursor.offset ∧
      token.PlacedAt text start
  known : ∀ row ≤ (text.take scanner.cursor.offset).count '\n',
    ∃ line, (Text.lines text)[row]? = some line ∧ scanner.line row = .ok (String.ofList line)
  unknown : ∀ row : Int, row < 0 ∨ (text.take scanner.cursor.offset).count '\n' < row →
    scanner.line row = .error ⟨row, (text.take scanner.cursor.offset).count '\n'⟩

/-- Positions are right after any number of calls, whatever they came to. -/
theorem positions_exact (file source : String) (calls : Nat) :
    ((ofSource file source).called calls).Positioned source.toList := by
  have charted : ((ofSource file source).called calls).cursor.Charted source.toList :=
    charted_called (Cursor.Charted.ofSource source.toList) calls
  obtain ⟨known, unknown⟩ := line_eq charted
  refine ⟨charted.starts, ?_, fun token after found => placedAt_of_next charted found, known,
    unknown⟩
  rw [charted.starts]
  exact Text.pairwise_lineStarts _ _

/-- The text behind the name begins with the dash that the name has given back, and goes on over a
line break. Later on the source ends too early, more than once. -/
theorem positions_exact_template :
    (∃ token after,
      ((ofSource "" "\"#a-\nb\"\n[c,\n\nd").called 3).next = (.ok token, after) ∧
      token.lexeme = "-\nb" ∧ after.cursor.offset = 6 ∧
      token.PlacedAt "\"#a-\nb\"\n[c,\n\nd".toList 3) ∧
    ((ofSource "" "\"#a-\nb\"\n[c,\n\nd").called 11).cursor.offset = 14 ∧
    ((ofSource "" "\"#a-\nb\"\n[c,\n\nd").called 11).cursor.lineStarts = [13, 12, 8, 5, 0] ∧
    (∃ line, (Text.lines "\"#a-\nb\"\n[c,\n\nd".toList)[4]? = some line ∧
      ((ofSource "" "\"#a-\nb\"\n[c,\n\nd").called 11).line 4 = .ok (String.ofList line)) ∧
    ((ofSource "" "\"#a-\nb\"\n[c,\n\nd").called 11).line 5 = .error ⟨5, 4⟩ := by
  obtain ⟨token, after, found, lexeme, offset⟩ : ∃ token after,
      ((ofSource "" "\"#a-\nb\"\n[c,\n\nd").called 3).next = (.ok token, after) ∧
        token.lexeme = "-\nb" ∧ after.cursor.offset = 6 := by
    refine ⟨_, _, rfl, ?_, ?_⟩
    · decide
    · decide
  have early := positions_exact "" "\"#a-\nb\"\n[c,\n\nd" 3
  have late := positions_exact "" "\"#a-\nb\"\n[c,\n\nd" 11
  obtain ⟨start, _, ends, placed⟩ := early.placed token after found
  obtain rfl : start = 3 := by
    rw [lexeme, offset] at ends
    exact Nat.add_right_cancel ends
  refine ⟨⟨token, after, found, lexeme, offset, placed⟩, by decide, by decide, ?_, ?_⟩
  · exact late.known 4 (by decide)
  · exact late.unknown 5 (.inr (by decide))

end Scanner
end TextGrammar
