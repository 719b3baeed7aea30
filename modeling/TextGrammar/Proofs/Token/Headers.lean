import TextGrammar.Proofs.Token.Delimiters
import TextGrammar.Proofs.Token.Positions
import TextGrammar.Proofs.Token.Splicing

/-!
# Headers

A star is a header when there is nothing but space in front of it on its line, and no other star is
one. The scanner does not look back at the line: the cursor keeps a bit for it, and right behind a
line break even the bit is not asked for. Both come to the same as looking at the text, in every
state that there can be at the top level, whatever has been read before.
-/
namespace TextGrammar

/-! ## Blank lines of a text -/

namespace Text

/-- There is nothing but space between the last line break in front of an offset, or the start of
the text, and the offset. -/
def BlankBefore (text : List Char) (offset : Nat) : Prop :=
  Every isSpace ((text.take offset).drop (lineStart text offset))

/-- Where the first character stands, from an offset on, that is no space. -/
def behindSpace (text : List Char) (offset : Nat) : Nat :=
  offset + ((text.drop offset).takeWhile isSpace).length

variable {text : List Char} {offset : Nat} {char : Char}

theorem lineStart_le (within : offset ≤ text.length) : lineStart text offset ≤ offset := by
  obtain ⟨front, _, length, _⟩ := lineStart_split within
  omega

theorem blankBefore_zero (text : List Char) : BlankBefore text 0 := by
  simp [BlankBefore, Every]

theorem blankBefore_succ (here : text[offset]? = some char) :
    BlankBefore text (offset + 1) ↔
      char = '\n' ∨ (BlankBefore text offset ∧ isSpace char = true) := by
  have within : offset < text.length := (List.getElem?_eq_some_iff.mp here).1
  unfold BlankBefore
  simp only [lineStart_succ, List.take_add_one, here, Option.some.injEq]
  split
  next isBreak =>
    -- behind a line break nothing has been read of the line yet
    have empty : (text.take offset ++ (some char).toList).drop (offset + 1) = [] := by
      apply List.drop_eq_nil_of_le
      rw [List.length_append, List.length_take_of_le (Nat.le_of_lt within)]
      exact Nat.le_refl _
    rw [empty]
    exact iff_of_true (List.forall_mem_nil _) (.inl isBreak)
  next inLine =>
    have before : lineStart text offset ≤ (text.take offset).length := by
      rw [List.length_take_of_le (Nat.le_of_lt within)]
      exact lineStart_le (Nat.le_of_lt within)
    rw [List.drop_append_of_le_length before]
    simp [Every, inLine, or_imp, forall_and]

end Text

/-! ## The bit of a cursor -/

/-- The bit says of the text what it should. -/
def Cursor.Marks (text : List Char) (cursor : Cursor) : Prop :=
  cursor.onBlankLine = true ↔ Text.BlankBefore text cursor.offset

namespace Cursor.Marks

variable {text : List Char} {cursor : Cursor}

theorem ofSource (text : List Char) : (Cursor.ofSource text).Marks text :=
  iff_of_true rfl (Text.blankBefore_zero text)

theorem step {char : Char} {later : List Char} (marks : cursor.Marks text)
    (charted : cursor.Charted text) (ahead : cursor.rest = char :: later) :
    (cursor.step char later).Marks text := by
  have here := charted.getElem?_here ahead
  have blank : (cursor.step char later).onBlankLine = true ↔
      char = '\n' ∨ (cursor.onBlankLine = true ∧ isSpace char = true) := by
    simp [Cursor.step]
  unfold Marks at marks ⊢
  rw [blank, show (cursor.step char later).offset = cursor.offset + 1 from rfl,
    Text.blankBefore_succ here, marks]

theorem pass (marks : cursor.Marks text) (charted : cursor.Charted text) (count : Nat) :
    (cursor.pass count).Marks text := by
  induction count generalizing cursor with
  | zero => exact marks
  | succ count ih =>
    unfold Cursor.pass
    split
    next => exact marks
    next char rest ahead => exact ih (marks.step charted ahead) (charted.step ahead)

end Cursor.Marks

/-! ## What a scan finds at the top level -/

section Scans

variable {blankLine : Bool} {modes base gap text later modes' : List _} {found : Found}

/-- On a line that is not blank a star is a character that no name begins with. -/
theorem finds_stray (base : List Mode) (skipped : Every isSpace gap) (later : List Char) :
    FindsTop false base gap (.badCharacter '*') ('*' :: later) (.name :: base) :=
  .named skipped (show _ = '*' :: later from rfl) rfl (.bad rfl)

theorem FindsTop.of_head (finds : FindsTop blankLine base gap (.token .head text) later modes') :
    Every isSpace gap ∧ text = ['*'] := by
  cases finds with
  | head skipped => exact ⟨skipped, rfl⟩
  | named _ _ _ finds => cases finds.is_name.1

/-- A fault leaves no line start behind. -/
theorem Finds.stalls_elsewhere (finds : Finds blankLine modes gap found later modes')
    (fault : ∀ kind text, found ≠ .token kind text) : modes'.head? ≠ some .lineStart := by
  intro starts
  obtain ⟨below, rfl⟩ := List.head?_eq_some_iff.mp starts
  cases finds.stalls fault with
  | stay =>
    -- the line start would have been there before, and a name has used it up
    cases finds with
    | lineStart other finds =>
      cases finds with
      | lineBreak => exact absurd rfl (fault _ _)
      | named _ _ _ finds => cases finds.stalls fault

theorem Moves.of_lineStart_orderly {kind : Kind} (moves : Moves modes kind modes')
    (orderly : Orderly modes) (starts : modes'.head? = some .lineStart) : kind = .lineBreak := by
  cases orderly with
  | stacked stacked =>
    refine moves.of_lineStart stacked ?_
    rw [List.headD_eq_head?_getD, starts, Option.getD_some]
  | title =>
    rw [moves.of_name.2] at starts
    cases starts
  | finished =>
    cases moves with
    | finished => cases starts
    | finish top | lineBreak top | openTemplate top | openList top | head top | title top =>
      cases top

end Scans

/-! ## Any number of calls -/

namespace Scanner

variable {text : List Char} {scanner after : Scanner}

/-- What holds of a scanner of the text whatever it has been asked: its table and its bit are right,
its modes are in order, and a line start is only there on a fresh line. -/
structure Kept (text : List Char) (scanner : Scanner) : Prop where
  charted : scanner.cursor.Charted text
  marks : scanner.cursor.Marks text
  orderly : Orderly scanner.modes
  fresh : Fresh scanner.modes scanner.cursor.onBlankLine

theorem Kept.ofSource (file source : String) : (ofSource file source).Kept source.toList :=
  ⟨.ofSource _, .ofSource _, .stacked (.nested .top), nofun⟩

theorem Kept.next (kept : scanner.Kept text) : scanner.next.2.Kept text := by
  have skipped := kept.charted.pass (scan scanner.cursor.onBlankLine scanner.modes
    scanner.cursor.rest).gap.length
  refine ⟨charted_next kept.charted, (kept.marks.pass kept.charted _).pass skipped _, ?_, ?_⟩
  · cases found : scanner.next with
    | mk answer after =>
      cases answer with
      | ok token => exact (moves_of_next found).orderly kept.orderly
      | error fault => exact (stalls_of_next found).orderly kept.orderly
  · intro starts
    cases found : scanner.next with
    | mk answer after =>
      rw [found] at starts
      cases answer with
      | ok token =>
        -- only a line break leads to a line start, and behind it the line is fresh
        have isBreak := (moves_of_next found).of_lineStart_orderly kept.orderly starts
        obtain ⟨gap, word, later, cuts⟩ := next_ok_iff.mp found
        have finds := cuts.finds
        rw [isBreak] at finds
        obtain rfl := finds.text_of_sign rfl
        rw [cuts.blank, blankAfter_append]
        rfl
      | error fault =>
        obtain ⟨gap, found, later, misses⟩ := next_error_iff.mp found
        exact absurd starts (misses.finds.stalls_elsewhere misses.no_token)

theorem Kept.called (kept : scanner.Kept text) (calls : Nat) :
    (scanner.called calls).Kept text := by
  induction calls generalizing scanner with
  | zero => exact kept
  | succ calls ih => exact ih kept.next

/-! ## Stars -/

/-- The input is cut behind the space that it begins with. -/
theorem Kept.exists_gap (kept : scanner.Kept text) :
    ∃ gap rest, scanner.cursor.rest = gap ++ rest ∧ Every isSpace gap ∧
      (∀ first ∈ rest.head?, isSpace first = false) ∧
      Text.behindSpace text scanner.cursor.offset = scanner.cursor.offset + gap.length := by
  refine ⟨scanner.cursor.rest.takeWhile isSpace, scanner.cursor.rest.dropWhile isSpace, ?_,
    every_takeWhile _ _, fun first isFirst => ?_, ?_⟩
  · rw [List.takeWhile_append_dropWhile]
  · have stopped := List.head?_dropWhile_not isSpace scanner.cursor.rest
    rwa [Option.mem_def.mp isFirst] at stopped
  · rw [Text.behindSpace, kept.charted.rest]

theorem Kept.blank_iff {gap later : List Char} (kept : scanner.Kept text)
    (ahead : scanner.cursor.rest = gap ++ later) (skipped : Every isSpace gap) :
    scanner.cursor.onBlankLine = true ↔
      Text.BlankBefore text (scanner.cursor.offset + gap.length) := by
  have marks := kept.marks.pass kept.charted gap.length
  rwa [Cursor.Marks, Cursor.blank_pass ahead, blankAfter_spaces skipped,
    kept.charted.offset_pass (by simp [ahead])] at marks

section Stars

variable {base : List Mode} {gap later : List Char}

theorem Kept.header (kept : scanner.Kept text) (top : AtTop scanner.modes base)
    (ahead : scanner.cursor.rest = gap ++ '*' :: later) (skipped : Every isSpace gap)
    (blank : Text.BlankBefore text (scanner.cursor.offset + gap.length)) :
    ∃ token after, scanner.next = (.ok token, after) ∧ token.kind = .head ∧
      token.PlacedAt text (scanner.cursor.offset + gap.length) := by
  have fresh := (kept.blank_iff ahead skipped).mpr blank
  have finds : Finds scanner.cursor.onBlankLine scanner.modes gap (.token .head ['*']) later base :=
    (top.finds_iff kept.fresh).mpr (.head skipped fresh)
  obtain ⟨token, after, cuts, isHead, _⟩ := exists_cuts ahead finds
  exact ⟨token, after, next_ok_iff.mpr ⟨_, _, _, cuts⟩, isHead, (cuts.placedAt kept.charted).1⟩

theorem Kept.stray (kept : scanner.Kept text) (top : AtTop scanner.modes base)
    (ahead : scanner.cursor.rest = gap ++ '*' :: later) (skipped : Every isSpace gap)
    (inked : ¬Text.BlankBefore text (scanner.cursor.offset + gap.length)) :
    scanner.FailsAt text (scanner.cursor.offset + gap.length)
      (.badCharacter "*" (some .name)) := by
  have inked := mt (kept.blank_iff ahead skipped).mp inked
  have finds := (top.finds_iff kept.fresh).mpr
    ((Bool.eq_false_iff.mpr inked) ▸ finds_stray base skipped later)
  exact failsAt_of_bad kept.charted ahead finds

end Stars

theorem Kept.star_of_head {base : List Mode} {token : Token} (kept : scanner.Kept text)
    (top : AtTop scanner.modes base) (found : scanner.next = (.ok token, after))
    (isHead : token.kind = .head) :
    text[Text.behindSpace text scanner.cursor.offset]? = some '*' := by
  obtain ⟨gap, word, later, cuts⟩ := next_ok_iff.mp found
  have finds := (top.finds_iff kept.fresh).mp cuts.finds
  rw [isHead] at finds
  obtain ⟨skipped, rfl⟩ := finds.of_head
  have stops : Stops isSpace (['*'] ++ later) := .of_head rfl
  rw [Text.behindSpace, kept.charted.rest, cuts.rest, takeWhile_run skipped stops,
    kept.charted.getElem?_behind cuts.rest]
  rfl

theorem Kept.next_lineStart {below : List Mode} (kept : scanner.Kept text)
    (modes : scanner.modes = .lineStart :: .top :: below) :
    scanner.next = { scanner with modes := .top :: below }.next := by
  have fresh : scanner.cursor.onBlankLine = true := kept.fresh (by rw [modes]; rfl)
  have same : scan true (.lineStart :: .top :: below) scanner.cursor.rest =
      scan true (.top :: below) scanner.cursor.rest := scanLineStart_fresh _ _
  simp only [Scanner.next, modes, fresh, same]

/-- What the scanner makes of stars at the top level is told by the text alone, and there it makes
no difference whether a line break has just been read. -/
structure ReadsStars (text : List Char) (scanner : Scanner) (start : Nat) : Prop where
  header : text[start]? = some '*' → Text.BlankBefore text start →
    ∃ token after, scanner.next = (.ok token, after) ∧ token.kind = .head ∧
      token.PlacedAt text start
  stray : text[start]? = some '*' → ¬Text.BlankBefore text start →
    scanner.FailsAt text start (.badCharacter "*" (some .name))
  other : text[start]? ≠ some '*' → ∀ token after, scanner.next = (.ok token, after) →
    token.kind ≠ .head
  lineStart : scanner.modes = [.lineStart, .top] →
    scanner.next = { scanner with modes := [.top] }.next

/-- In any state at the top level, a star that comes next is a header if its line is blank in front
of it, and a bad character if not; nothing else is a header. -/
theorem reads_stars (file source : String) (calls : Nat)
    (top : ((ofSource file source).called calls).modes = [.top] ∨
      ((ofSource file source).called calls).modes = [.lineStart, .top]) :
    ((ofSource file source).called calls).ReadsStars source.toList
      (Text.behindSpace source.toList ((ofSource file source).called calls).cursor.offset) := by
  have kept := (Kept.ofSource file source).called calls
  generalize (ofSource file source).called calls = scanner at top kept ⊢
  have atTop : AtTop scanner.modes [.top] := by
    rcases top with modes | modes <;> rw [modes]
    · exact .top []
    · exact .lineStart [.top]
  obtain ⟨gap, rest, ahead, skipped, _, start⟩ := kept.exists_gap
  have here := kept.charted.getElem?_behind ahead
  have starred (star : source.toList[scanner.cursor.offset + gap.length]? = some '*') :
      ∃ later, scanner.cursor.rest = gap ++ '*' :: later := by
    rw [here] at star
    obtain ⟨later, rfl⟩ := List.head?_eq_some_iff.mp star
    exact ⟨later, ahead⟩
  refine ⟨?_, ?_, ?_, fun modes => kept.next_lineStart modes⟩
  · rw [start]
    intro star blank
    obtain ⟨later, ahead⟩ := starred star
    exact kept.header atTop ahead skipped blank
  · rw [start]
    intro star inked
    obtain ⟨later, ahead⟩ := starred star
    exact kept.stray atTop ahead skipped inked
  · intro other token after found isHead
    exact other (kept.star_of_head atTop found isHead)

/-- A star behind some space on a new line, and one behind a text that goes on over a line break. -/
theorem reads_stars_template :
    (∃ token after, ((ofSource "" "\n *a\n\"b\nc\" *").called 1).next = (.ok token, after) ∧
      token.kind = .head ∧ token.PlacedAt "\n *a\n\"b\nc\" *".toList 2) ∧
    ((ofSource "" "\n *a\n\"b\nc\" *").called 7).FailsAt "\n *a\n\"b\nc\" *".toList 11
      (.badCharacter "*" (some .name)) := by
  have early := reads_stars "" "\n *a\n\"b\nc\" *" 1 (.inr rfl)
  have late := reads_stars "" "\n *a\n\"b\nc\" *" 7 (.inl rfl)
  exact ⟨early.header rfl (List.all_eq_true.mp rfl),
    late.stray rfl (mt List.all_eq_true.mpr (by decide))⟩

end Scanner
end TextGrammar
