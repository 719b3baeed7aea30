import TextGrammar.Proofs.Token.Positions
import TextGrammar.Proofs.Tree.Calls

/-!
# Where faults point

A fault is shown with the line that it is on and a row of tildes below. The tildes stay within the
line whatever the fault is. More is true of the faults that are reported for a source, in whichever
order its scanner and any number of windows on it are asked, and also after other faults: their line
is that line of the source, and their columns are within it. The scanner has always come as far as
that line, so it can be looked up.
-/
namespace TextGrammar

theorem error_of_map {ε α β : Type} {change : α → β} {answer : Except ε α} {fault : ε}
    (mapped : answer.map change = .error fault) : answer = .error fault := by
  cases answer with
  | ok value => cases mapped
  | error fault' => simpa [Except.map] using mapped

/-! ## Faults that are shown -/

namespace Diagnostic

variable {fault : Diagnostic} {text : List Char}

/-- There is at least one tilde, and no tilde is behind the end of the line, unless it is the only
one. -/
theorem width_bounds (fault : Diagnostic) :
    1 ≤ fault.width ∧
      fault.span.col + fault.width ≤ max (fault.line.length : Int) (fault.span.col + 1) := by
  simp only [width]
  omega

/-- A fault with so many tildes under it. -/
def drawn (fault : Diagnostic) (color : Bool) (count : Nat) : String :=
  let marks := String.ofList (List.replicate count '~')
  fault.message ++ "\n" ++ fault.line ++ "\n" ++
    String.ofList (List.replicate fault.span.col.toNat ' ') ++
    if color then "\x1b[31m" ++ marks ++ "\x1b[0m" else marks

theorem describe_eq (fault : Diagnostic) (color : Bool) :
    fault.describe color = fault.drawn color fault.width := rfl

/-- The line of the fault is that line of the text, and its columns are on the line. -/
structure PointsInto (text : List Char) (fault : Diagnostic) : Prop where
  numbered : 1 ≤ fault.span.lineNumber
  line : (Text.lines text)[(fault.span.lineNumber - 1).toNat]? = some fault.line.toList
  col : 0 ≤ fault.span.col
  stop : fault.span.col ≤ fault.span.stop
  within : fault.span.stop ≤ fault.line.length

theorem PointsInto.width_eq (points : fault.PointsInto text) :
    fault.width = (max (fault.span.stop - fault.span.col) 1).toNat := by
  have ordered := points.stop
  have within := points.within
  simp only [width]
  omega

end Diagnostic

/-! ## Lines that have been reached -/

theorem Text.count_take_le (text : List Char) {offset offset' : Nat} (before : offset ≤ offset') :
    (text.take offset).count '\n' ≤ (text.take offset').count '\n' := by
  have shorter := (Text.lineStarts_prefix text before).length_le
  rw [Text.length_lineStarts, Text.length_lineStarts] at shorter
  exact Nat.le_of_succ_le_succ shorter

theorem Cursor.offset_le_pass (count : Nat) (cursor : Cursor) :
    cursor.offset ≤ (cursor.pass count).offset := by
  induction count generalizing cursor with
  | zero => exact Nat.le_refl _
  | succ count ih =>
    unfold pass
    split
    · exact Nat.le_refl _
    next char rest ahead =>
      have stepped : cursor.offset ≤ (cursor.step char rest).offset := Nat.le_succ _
      exact Nat.le_trans stepped (ih _)

/-- The token stands in the text, in front of this offset. -/
def Token.Behind (text : List Char) (offset : Nat) (token : Token) : Prop :=
  ∃ start ≤ offset, token.PlacedAt text start

theorem Token.Behind.mono {text : List Char} {offset offset' : Nat} {token : Token}
    (behind : token.Behind text offset) (before : offset ≤ offset') :
    token.Behind text offset' := by
  obtain ⟨start, reached, placed⟩ := behind
  exact ⟨start, Nat.le_trans reached before, placed⟩

/-- What a cursor blames stands on the line that the cursor is on. -/
theorem Cursor.Charted.points {text word later : List Char} {cursor : Cursor}
    (charted : cursor.Charted text) (ahead : cursor.rest = word ++ later) (cause : Cause)
    (file : String) :
    Diagnostic.PointsInto text
      ⟨cause, cursor.locate file word, cursor.lineFrom cursor.lineStart⟩ := by
  obtain ⟨line, listed, col, stop, within, _⟩ := (charted.placedAt ahead .text file).shown
  have row : (cursor.locate file word).row.toNat = (text.take cursor.offset).count '\n' :=
    charted.row_eq
  -- the line of the cursor is the one that its row counts to
  have here := Text.getElem?_lines (Text.getElem?_lineStart text cursor.offset) charted.within
  rw [← row, listed, Option.some.injEq] at here
  have same : cursor.lineFrom cursor.lineStart = String.ofList line := by
    rw [here, charted.lineStart_eq, Cursor.lineFrom, charted.source, Text.lineFrom]
  have number : (cursor.locate file word).lineNumber - 1 = (cursor.locate file word).row := by
    rw [Span.lineNumber]
    omega
  refine ⟨?_, ?_, col, stop, ?_⟩
  · have counted : 0 ≤ (cursor.locate file word).row := Int.natCast_nonneg _
    simp only [Span.lineNumber]
    omega
  · rw [number, same, String.toList_ofList]
    exact listed
  · rw [same, String.length_ofList]
    exact within

/-! ## Faults of the scanner -/

namespace Scanner

variable {text : List Char} {scanner after : Scanner} {fault : Diagnostic}

/-- The fault points into the text, and its line can be looked up. -/
structure Locates (text : List Char) (scanner : Scanner) (fault : Diagnostic) : Prop where
  points : fault.PointsInto text
  known : scanner.line fault.span.row = .ok fault.line

theorem locates_of_reached (charted : scanner.cursor.Charted text)
    (points : fault.PointsInto text)
    (reached : fault.span.row ≤ (text.take scanner.cursor.offset).count '\n') :
    scanner.Locates text fault := by
  refine ⟨points, ?_⟩
  obtain ⟨numbered, listed, _⟩ := points
  simp only [Span.lineNumber] at numbered listed
  -- rows are counted from zero, and the numbers of lines from one
  obtain ⟨row, isRow⟩ := Int.eq_ofNat_of_zero_le (show 0 ≤ fault.span.row by omega)
  have index : (fault.span.row + 1 - 1).toNat = row := by omega
  obtain ⟨line, listed', known⟩ := (line_eq charted).1 row (by omega)
  rw [index, listed', Option.some.injEq] at listed
  rw [isRow, known, listed, String.ofList_toList]

/-- From one scanner to the other the text has been read on. -/
structure Proceeds (text : List Char) (scanner after : Scanner) : Prop where
  charted : after.cursor.Charted text
  further : scanner.cursor.offset ≤ after.cursor.offset

theorem Proceeds.refl (charted : scanner.cursor.Charted text) : scanner.Proceeds text scanner :=
  ⟨charted, Nat.le_refl _⟩

theorem Proceeds.trans {middle : Scanner} (first : scanner.Proceeds text middle)
    (rest : middle.Proceeds text after) : scanner.Proceeds text after :=
  ⟨rest.charted, Nat.le_trans first.further rest.further⟩

theorem proceeds_next (charted : scanner.cursor.Charted text) :
    scanner.Proceeds text scanner.next.2 :=
  ⟨charted_next charted, Nat.le_trans (Cursor.offset_le_pass _ _) (Cursor.offset_le_pass _ _)⟩

theorem proceeds_of_next {answer : Except Diagnostic Token} (charted : scanner.cursor.Charted text)
    (found : scanner.next = (answer, after)) : scanner.Proceeds text after := by
  have proceeds := proceeds_next charted
  rwa [found] at proceeds

theorem Gives.proceeds {tokens : List Token} (gives : scanner.Gives tokens after)
    (charted : scanner.cursor.Charted text) : scanner.Proceeds text after := by
  induction gives with
  | nil scanner => exact .refl charted
  | cons found rest ih =>
    have first := proceeds_of_next charted found
    exact first.trans (ih first.charted)

theorem behind_of_next {token : Token} (charted : scanner.cursor.Charted text)
    (found : scanner.next = (.ok token, after)) : token.Behind text after.cursor.offset := by
  obtain ⟨start, _, ends, placed⟩ := placedAt_of_next charted found
  exact ⟨start, by omega, placed⟩

/-- A fault of the scanner points into the text, at a line that the scanner has reached by then. -/
theorem locates_of_next (charted : scanner.cursor.Charted text)
    (faulty : scanner.next = (.error fault, after)) : after.Locates text fault := by
  obtain ⟨gap, found, later, misses⟩ := next_error_iff.mp faulty
  have start := charted.pass gap.length
  have rest : (scanner.cursor.pass gap.length).rest = found.taken ++ later :=
    Cursor.rest_behind misses.rest
  have moved := (proceeds_of_next charted faulty).charted
  have further : (scanner.cursor.pass gap.length).offset ≤ after.cursor.offset := by
    rw [misses.cursor]
    exact Cursor.offset_le_pass _ _
  have row : (scanner.cursor.pass gap.length).row ≤ (text.take after.cursor.offset).count '\n' := by
    rw [start.row_eq]
    exact Text.count_take_le text further
  have reported := misses.reported
  have finds := misses.finds
  cases found with
  | token kind word => cases reported
  | badCharacter char =>
    -- the character that is blamed has not been read, but it is there
    obtain ⟨rest', rfl⟩ := finds.leaves
    have ahead : (scanner.cursor.pass gap.length).rest = [char] ++ rest' := rest
    cases reported
    exact locates_of_reached moved (start.points ahead _ _) (Int.ofNat_le.mpr row)
  | unfinished context word =>
    cases reported
    exact locates_of_reached moved (start.points rest _ _) (Int.ofNat_le.mpr row)

theorem proceeds_tokens (charted : scanner.cursor.Charted text) :
    scanner.Proceeds text scanner.tokens.2 := by
  rcases scanner.tokens_cases with ⟨front, stop, after, all, _, _, gives⟩ |
    ⟨tokens, middle, fault, after, all, _, gives, faulty⟩
  · rw [all]
    exact gives.proceeds charted
  · rw [all]
    have before := gives.proceeds charted
    exact before.trans (proceeds_of_next before.charted faulty)

theorem locates_of_tokens (charted : scanner.cursor.Charted text)
    (failed : scanner.tokens = (.error fault, after)) : after.Locates text fault := by
  rcases scanner.tokens_cases with ⟨_, _, _, all, _⟩ |
    ⟨tokens, middle, fault', after', all, _, gives, faulty⟩
  · rw [failed] at all
    cases all
  · rw [failed] at all
    cases all
    exact locates_of_next (gives.proceeds charted).charted faulty

/-- Where opening a window leaves the scanner, whether or not there is one. -/
def opened (scanner : Scanner) : Scanner :=
  match scanner.next with
  | (.error _, after) => after
  | (.ok _, after) => after.next.2

theorem opened_of_fault (faulty : scanner.next = (.error fault, after)) :
    scanner.opened = after ∧ Window.ofScanner scanner = .error fault := by
  simp [opened, Window.ofScanner, faulty]

theorem opened_of_token {token : Token} (found : scanner.next = (.ok token, after)) :
    scanner.opened = after.next.2 := by
  simp [opened, found]

theorem proceeds_opened (charted : scanner.cursor.Charted text) :
    scanner.Proceeds text scanner.opened := by
  cases found : scanner.next with
  | mk answer after =>
    have first := proceeds_of_next charted found
    cases answer with
    | error fault =>
      rw [(opened_of_fault found).1]
      exact first
    | ok token =>
      rw [opened_of_token found]
      exact first.trans (proceeds_next first.charted)

theorem locates_of_ofScanner (charted : scanner.cursor.Charted text)
    (failed : Window.ofScanner scanner = .error fault) : scanner.opened.Locates text fault := by
  cases found : scanner.next with
  | mk answer middle =>
    cases answer with
    | error fault' =>
      obtain ⟨stays, reported⟩ := opened_of_fault found
      obtain rfl : fault' = fault := Except.error.inj (reported.symm.trans failed)
      rw [stays]
      exact locates_of_next charted found
    | ok current =>
      have first := proceeds_of_next charted found
      rw [opened_of_token found]
      cases found' : middle.next with
      | mk answer after =>
        cases answer with
        | error fault' =>
          simp only [Window.ofScanner, found, found', Except.error.injEq] at failed
          rw [← failed]
          exact locates_of_next first.charted found'
        | ok ahead =>
          simp only [Window.ofScanner, found, found'] at failed
          cases failed

end Scanner

/-! ## Faults of a window -/

namespace Window

variable {text : List Char} {window moved : Window} {fault : Diagnostic}

/-- The window stands on tokens that its scanner has passed. -/
structure Charted (text : List Char) (window : Window) : Prop where
  scanner : window.scanner.cursor.Charted text
  current : window.current.Behind text window.scanner.cursor.offset
  ahead : window.ahead.Behind text window.scanner.cursor.offset

theorem charted_of_ofScanner {scanner : Scanner} (charted : scanner.cursor.Charted text)
    (opened : ofScanner scanner = .ok window) :
    window.Charted text ∧ scanner.Proceeds text window.scanner := by
  unfold ofScanner at opened
  split at opened
  · cases opened
  next current middle found =>
    have first := Scanner.proceeds_of_next charted found
    split at opened
    · cases opened
    next ahead after found' =>
      cases opened
      have second := Scanner.proceeds_of_next first.charted found'
      have behind := (Scanner.behind_of_next charted found).mono second.further
      exact ⟨⟨second.charted, behind, Scanner.behind_of_next first.charted found'⟩,
        first.trans second⟩

/-- The current token can be pointed at. -/
theorem Charted.locates (charted : window.Charted text) (cause : Cause) :
    window.scanner.Locates text ⟨cause, window.current.span, window.line⟩ := by
  obtain ⟨start, reached, placed⟩ := charted.current
  have before := Text.count_take_le text reached
  obtain ⟨line, listed, col, stop, within, _⟩ := placed.shown
  have row := placed.row
  have index : window.current.span.row.toNat = (text.take start).count '\n' := by
    rw [row, Int.toNat_natCast]
  -- the line that is looked up is the one that the token has been placed on
  have shown : window.line = String.ofList line := by
    rw [Window.line, charted.scanner.line?_eq, index, if_pos before, ← index, listed]
    rfl
  have number : (window.current.span.lineNumber - 1).toNat = window.current.span.row.toNat := by
    rw [Span.lineNumber]
    omega
  refine Scanner.locates_of_reached charted.scanner ⟨?_, ?_, col, stop, ?_⟩ ?_
  · simp only [Span.lineNumber]
    omega
  · rw [number, shown, String.toList_ofList]
    exact listed
  · rw [shown, String.length_ofList]
    exact within
  · rw [row]
    exact Int.ofNat_le.mpr before

/-- A window that moves stays on tokens that have been passed, also when there is none ahead. -/
theorem Charted.advance (charted : window.Charted text) :
    window.advance.2.Charted text ∧ window.scanner.Proceeds text window.advance.2.scanner := by
  cases found : window.scanner.next with
  | mk answer scanner =>
    have proceeds := Scanner.proceeds_of_next charted.scanner found
    have ahead := charted.ahead.mono proceeds.further
    cases answer with
    | ok token =>
      rw [advance_of_token found]
      exact ⟨⟨proceeds.charted, ahead, Scanner.behind_of_next charted.scanner found⟩, proceeds⟩
    | error fault =>
      rw [advance_of_fault found]
      exact ⟨⟨proceeds.charted, ahead, ahead⟩, proceeds⟩

theorem Charted.after (charted : window.Charted text) (count : Nat) :
    (window.after count).Charted text ∧
      window.scanner.Proceeds text (window.after count).scanner := by
  induction count generalizing window with
  | zero => exact ⟨charted, .refl charted.scanner⟩
  | succ count ih =>
    obtain ⟨moved, first⟩ := charted.advance
    obtain ⟨last, rest⟩ := ih moved
    exact ⟨last, first.trans rest⟩

theorem Charted.locates_of_advance (charted : window.Charted text)
    (blocked : window.advance = (.error fault, moved)) : moved.scanner.Locates text fault := by
  cases found : window.scanner.next with
  | mk answer scanner =>
    cases answer with
    | ok token =>
      rw [advance_of_token found] at blocked
      cases blocked
    | error fault =>
      rw [advance_of_fault found] at blocked
      cases blocked
      exact Scanner.locates_of_next charted.scanner found

end Window

/-- Whatever a reader is refused points into the text. -/
theorem Reader.Course.locates {σ α : Type} {reader : Reader σ α} {state : σ} {text : List Char}
    {window : Window} {judged : List (σ × Token)} {count : Nat} {result : Except Diagnostic α}
    (course : reader.Course state window judged count result) (charted : window.Charted text)
    {fault : Diagnostic} (failed : result = .error fault) :
    (window.after count).scanner.Locates text fault := by
  -- a reader blames the current token, unless the scanner has been at fault first
  induction course with
  | complete => cases failed
  | exhausted | refused =>
    cases failed
    exact charted.locates _
  | done _ _ moves =>
    rw [error_of_map failed] at moves
    rw [Window.after, Window.after, moves]
    exact charted.locates_of_advance moves
  | blocked _ _ moves =>
    cases failed
    rw [Window.after, Window.after, moves]
    exact charted.locates_of_advance moves
  | more _ _ moves rest ih =>
    have moved := charted.advance.1
    rw [moves] at moved
    rw [Window.after, moves]
    exact ih moved failed

theorem Construct.locates_of_read {construct : Construct} {text : List Char}
    {window moved : Window} (charted : window.Charted text) {fault : Diagnostic}
    (failed : construct.read window = (.error fault, moved)) :
    moved.scanner.Locates text fault := by
  obtain ⟨judged, count, result, course⟩ :=
    construct.task.reader.exists_course construct.task.start window
  simp only [read, course.run, Prod.mk.injEq] at failed
  obtain ⟨mapped, rfl⟩ := failed
  exact course.locates charted (error_of_map mapped)

theorem Construct.charted_read (construct : Construct) {text : List Char} {window : Window}
    (charted : window.Charted text) :
    (construct.read window).2.Charted text ∧
      window.scanner.Proceeds text (construct.read window).2.scanner := by
  obtain ⟨judged, count, result, told⟩ := construct.exists_told window
  rw [told.read]
  exact charted.after count

theorem points_of_parse {file source : String} {fault : Diagnostic}
    (failed : parse file source = .error fault) : fault.PointsInto source.toList := by
  have charted : (Scanner.ofSource file source).cursor.Charted source.toList :=
    .ofSource source.toList
  unfold parse at failed
  split at failed
  next window opened =>
    have fresh := (Window.charted_of_ofScanner charted opened).1
    obtain ⟨judged, count, result, course⟩ := documentReader.exists_course (.between []) window
    rw [course.run] at failed
    exact (course.locates fresh failed).points
  next fault' faulty =>
    cases failed
    exact (Scanner.locates_of_ofScanner charted faulty).points

/-! ## Any calls in any order -/

/-- A call that can report a fault. Windows are counted from the one that was opened last; a call to
one that there is not does nothing. -/
inductive Call where
  | token
  | tokens
  | window
  | read (index : Nat) (construct : Construct)
  deriving DecidableEq, Repr

/-- A scanner, and the tokens that the windows stand on which were opened on it. All of them share
the scanner, so what one of them reads is missing from the others. -/
structure Desk where
  scanner : Scanner
  windows : List (Token × Token)
  deriving DecidableEq, Repr

namespace Desk

def ofSource (file source : String) : Desk := ⟨Scanner.ofSource file source, []⟩

def answer (desk : Desk) : Call → Except Diagnostic Unit × Desk
  | .token =>
    let (answer, scanner) := desk.scanner.next
    (answer.map fun _ => (), { desk with scanner := scanner })
  | .tokens =>
    let (answer, scanner) := desk.scanner.tokens
    (answer.map fun _ => (), { desk with scanner := scanner })
  | .window =>
    match Window.ofScanner desk.scanner with
    | .ok window => (.ok (), ⟨window.scanner, (window.current, window.ahead) :: desk.windows⟩)
    | .error fault => (.error fault, { desk with scanner := desk.scanner.opened })
  | .read index construct =>
    match desk.windows[index]? with
    | none => (.ok (), desk)
    | some (current, ahead) =>
      let (answer, window) := construct.read ⟨current, ahead, desk.scanner⟩
      (answer.map fun _ => (),
        ⟨window.scanner, desk.windows.set index (window.current, window.ahead)⟩)

/-- What comes of each of the calls, and how things stand after it. -/
def answers : List Call → Desk → List (Except Diagnostic Unit × Desk)
  | [], _ => []
  | call :: calls, desk => desk.answer call :: answers calls (desk.answer call).2

structure Charted (text : List Char) (desk : Desk) : Prop where
  scanner : desk.scanner.cursor.Charted text
  windows : ∀ window ∈ desk.windows, window.1.Behind text desk.scanner.cursor.offset ∧
    window.2.Behind text desk.scanner.cursor.offset

variable {text : List Char} {desk after : Desk} {call : Call} {fault : Diagnostic}

theorem Charted.proceed (charted : desk.Charted text) {scanner : Scanner}
    (proceeds : desk.scanner.Proceeds text scanner) : Charted text ⟨scanner, desk.windows⟩ := by
  refine ⟨proceeds.charted, fun window member => ?_⟩
  obtain ⟨current, ahead⟩ := charted.windows window member
  exact ⟨current.mono proceeds.further, ahead.mono proceeds.further⟩

theorem Charted.window (charted : desk.Charted text) {index : Nat} {current ahead : Token}
    (found : desk.windows[index]? = some (current, ahead)) :
    Window.Charted text ⟨current, ahead, desk.scanner⟩ := by
  obtain ⟨isCurrent, isAhead⟩ := charted.windows _ (List.mem_of_getElem? found)
  exact ⟨charted.scanner, isCurrent, isAhead⟩

theorem Charted.answer (charted : desk.Charted text) (call : Call) :
    (desk.answer call).2.Charted text := by
  cases call with
  | token => exact charted.proceed (Scanner.proceeds_next charted.scanner)
  | tokens => exact charted.proceed (Scanner.proceeds_tokens charted.scanner)
  | window =>
    unfold Desk.answer
    dsimp only
    split
    next window opened =>
      obtain ⟨fresh, proceeds⟩ := Window.charted_of_ofScanner charted.scanner opened
      have others := (charted.proceed proceeds).windows
      exact ⟨fresh.scanner, List.forall_mem_cons.mpr ⟨⟨fresh.current, fresh.ahead⟩, others⟩⟩
    next fault failed => exact charted.proceed (Scanner.proceeds_opened charted.scanner)
  | read index construct =>
    unfold Desk.answer
    dsimp only
    split
    next missing => exact charted
    next current ahead found =>
      obtain ⟨moved, proceeds⟩ := construct.charted_read (charted.window found)
      refine ⟨moved.scanner, fun window member => ?_⟩
      -- only this window has moved, but the scanner has moved for all of them
      rcases List.mem_or_eq_of_mem_set member with other | rfl
      · exact (charted.proceed proceeds).windows window other
      · exact ⟨moved.current, moved.ahead⟩

theorem Charted.locates (charted : desk.Charted text)
    (failed : desk.answer call = (.error fault, after)) : after.scanner.Locates text fault := by
  cases call with
  | token =>
    simp only [Desk.answer, Prod.mk.injEq] at failed
    obtain ⟨mapped, rfl⟩ := failed
    have faulty : desk.scanner.next = (.error fault, desk.scanner.next.2) :=
      Prod.ext (error_of_map mapped) rfl
    exact Scanner.locates_of_next charted.scanner faulty
  | tokens =>
    simp only [Desk.answer, Prod.mk.injEq] at failed
    obtain ⟨mapped, rfl⟩ := failed
    have faulty : desk.scanner.tokens = (.error fault, desk.scanner.tokens.2) :=
      Prod.ext (error_of_map mapped) rfl
    exact Scanner.locates_of_tokens charted.scanner faulty
  | window =>
    unfold Desk.answer at failed
    dsimp only at failed
    split at failed
    next => cases failed
    next fault' faulty =>
      cases failed
      exact Scanner.locates_of_ofScanner charted.scanner faulty
  | read index construct =>
    unfold Desk.answer at failed
    dsimp only at failed
    split at failed
    next => cases failed
    next current ahead found =>
      rw [Prod.mk.injEq] at failed
      obtain ⟨mapped, rfl⟩ := failed
      apply construct.locates_of_read (charted.window found)
      exact Prod.ext (error_of_map mapped) rfl

/-- By induction on the calls: each of them leaves everything behind what has been read. -/
theorem Charted.answers (charted : desk.Charted text) (calls : List Call) :
    ∀ fault after, (.error fault, after) ∈ desk.answers calls →
      after.scanner.Locates text fault := by
  induction calls generalizing desk with
  | nil => exact fun _ _ => nofun
  | cons call calls ih =>
    intro fault after member
    rcases List.mem_cons.mp member with first | later
    · exact charted.locates first.symm
    · exact ih (charted.answer call) fault after later

/-- Whatever is asked of a source, and in whichever order, every fault that is reported points into
it: the line is that line of the source and can be looked up by then, the columns are on the line,
and it is shown with as many tildes as there are columns, or with one. Of any fault whatsoever, also
one that is made up, there is at least one tilde, and a second one only within the line. -/
theorem answers_point (file source : String) :
    (∀ calls fault after, (.error fault, after) ∈ (ofSource file source).answers calls →
      fault.PointsInto source.toList ∧ after.scanner.line fault.span.row = .ok fault.line ∧
        ∀ color, fault.describe color =
          fault.drawn color (max (fault.span.stop - fault.span.col) 1).toNat) ∧
    ∀ fault : Diagnostic, ∃ count, (∀ color, fault.describe color = fault.drawn color count) ∧
      1 ≤ count ∧ fault.span.col + count ≤ max (fault.line.length : Int) (fault.span.col + 1) := by
  constructor
  · intro calls fault after member
    have charted : (ofSource file source).Charted source.toList :=
      ⟨.ofSource source.toList, List.forall_mem_nil _⟩
    obtain ⟨points, known⟩ := charted.answers calls fault after member
    refine ⟨points, known, fun color => ?_⟩
    rw [Diagnostic.describe_eq, points.width_eq]
  · intro fault
    exact ⟨fault.width, fault.describe_eq, fault.width_bounds⟩

/-- A list in a list is refused, and then the source ends inside of the first. -/
theorem answers_point_list :
    ∃ fault middle fault' after,
      (.error fault, middle) ∈ (ofSource "" "[[]").answers [.window, .read 0 .list, .token] ∧
      (.error fault', after) ∈ (ofSource "" "[[]").answers [.window, .read 0 .list, .token] ∧
      fault.PointsInto "[[]".toList ∧ middle.scanner.line fault.span.row = .ok fault.line ∧
      fault.describe false = "[ @ 1:1] Error: Got unexpected token BRACKET_L.\n[[]\n ~" ∧
      fault'.PointsInto "[[]".toList ∧ after.scanner.line fault'.span.row = .ok fault'.line ∧
      fault'.describe false =
        "[ @ 1:3] Error: Unexpected end of input inside a list.\n[[]\n   ~" := by
  obtain ⟨window, judged, fault, fault', scanner, opened, told, shown, ended, shown'⟩ :
      ∃ window judged fault fault' scanner,
        Window.ofScanner (Scanner.ofSource "" "[[]") = .ok window ∧
        Construct.list.Told window judged 1 (.error fault) ∧
        fault.describe false = "[ @ 1:1] Error: Got unexpected token BRACKET_L.\n[[]\n ~" ∧
        (window.after 1).scanner.next = (.error fault', scanner) ∧
        fault'.describe false =
          "[ @ 1:3] Error: Unexpected end of input inside a list.\n[[]\n   ~" := by
    refine ⟨_, _, _, _, _, rfl, .intro (.more ?_ rfl rfl (.refused ?_ rfl)), ?_, rfl, ?_⟩
    · decide
    · decide
    · rfl
    · rfl
  -- what the three calls come to, with the window that has been opened
  obtain ⟨first, middle, after, all⟩ : ∃ first middle after,
      (ofSource "" "[[]").answers [.window, .read 0 .list, .token] =
        [(.ok (), first), (.error fault, middle), (.error fault', after)] := by
    simp [answers, answer, ofSource, opened, told.read, ended, Except.map]
  obtain ⟨faults, _⟩ := answers_point "" "[[]"
  have early : (.error fault, middle) ∈
      (ofSource "" "[[]").answers [.window, .read 0 .list, .token] := by simp [all]
  have late : (.error fault', after) ∈
      (ofSource "" "[[]").answers [.window, .read 0 .list, .token] := by simp [all]
  obtain ⟨points, known, _⟩ := faults _ fault middle early
  obtain ⟨points', known', _⟩ := faults _ fault' after late
  exact ⟨fault, middle, fault', after, early, late, points, known, shown, points', known', shown'⟩

end Desk

end TextGrammar
