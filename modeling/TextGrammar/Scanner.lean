import TextGrammar.Cursor
import TextGrammar.Diagnostic
import TextGrammar.Token.Split

/-!
# Scanners

A scanner reads the tokens of a file one by one. It keeps a cursor and the stack of modes. A fault
leaves both as they were when it was noticed, so asking again reports a fault again; at the end of
the input it gives the last token for ever.

Every token but the last uses up characters (`next_shrinks`), so reading all tokens ends.
-/
namespace TextGrammar

structure Scanner where
  file : String
  cursor : Cursor
  modes : List Mode
  deriving DecidableEq, Repr

/-- A line that the scanner has not reached. -/
structure MissingLine where
  row : Int
  last : Nat
  deriving DecidableEq, Repr

def MissingLine.message (missing : MissingLine) : String :=
  "Line " ++ toString missing.row ++ " is out of range (max: " ++ toString missing.last ++ ")"

namespace Scanner

def ofSource (file source : String) : Scanner := ⟨file, Cursor.ofSource source.toList, [.top]⟩

def mode (scanner : Scanner) : Mode := scanner.modes.headD .finished

def line (scanner : Scanner) (row : Int) : Except MissingLine String :=
  let missing := ⟨row, scanner.cursor.row⟩
  if row < 0 then .error missing
  else match scanner.cursor.line? row.toNat with
    | some line => .ok line
    | none => .error missing

/-- The token or fault that has been found at the cursor. -/
def report (file : String) (cursor : Cursor) (found : Found) : Except Diagnostic Token :=
  match found with
  | .token kind text => .ok ⟨kind, String.ofList text, cursor.locate file text⟩
  | .badCharacter char =>
    .error ⟨.badCharacter char.toString (some .name), cursor.locate file [char],
      cursor.lineFrom cursor.lineStart⟩
  | .unfinished context text =>
    .error ⟨.endOfInput (some context) (some .finish), cursor.locate file text,
      cursor.lineFrom cursor.lineStart⟩

def next (scanner : Scanner) : Except Diagnostic Token × Scanner :=
  let scan := scan scanner.cursor.onBlankLine scanner.modes scanner.cursor.rest
  let start := scanner.cursor.pass scan.gap.length
  -- a fault moves the cursor as well: past the gap, and past a piece that is unfinished
  (report scanner.file start scan.found,
    { scanner with cursor := start.pass scan.found.taken.length, modes := scan.modes })

theorem found_of_report {file : String} {cursor : Cursor} {found : Found} {token : Token}
    (reported : report file cursor found = .ok token) :
    ∃ text, found = .token token.kind text ∧ token.lexeme = String.ofList text := by
  unfold report at reported
  split at reported
  next kind text => cases reported; exact ⟨text, rfl, rfl⟩
  all_goals cases reported

theorem next_rest_le (scanner : Scanner) {after : Scanner} {result : Except Diagnostic Token}
    (found : scanner.next = (result, after)) :
    after.cursor.rest.length ≤ scanner.cursor.rest.length := by
  simp only [next, Prod.mk.injEq] at found
  obtain ⟨_, rfl⟩ := found
  simp only [Cursor.rest_pass, List.length_drop]
  omega

theorem next_shrinks {scanner after : Scanner} {token : Token}
    (found : scanner.next = (.ok token, after)) (real : token.kind ≠ .finish) :
    after.cursor.rest.length < scanner.cursor.rest.length := by
  generalize result : scan scanner.cursor.onBlankLine scanner.modes scanner.cursor.rest = scan
  have splits := scan_splits scanner.cursor.onBlankLine scanner.modes scanner.cursor.rest
  have advances := scan_advances scanner.cursor.onBlankLine scanner.modes scanner.cursor.rest
  rw [result] at splits advances
  simp only [next, result, Prod.mk.injEq] at found
  obtain ⟨reported, rfl⟩ := found
  obtain ⟨text, is_token, _⟩ := found_of_report reported
  -- the token has characters, and all of them come off the rest
  have enough := splits.length_le
  have positive : 0 < text.length := List.length_pos_iff.mpr (advances _ _ is_token real)
  simp only [is_token, Found.taken, List.length_append] at enough
  simp only [is_token, Found.taken, Cursor.rest_pass, List.length_drop]
  omega

/-- All tokens up to the end of the input, which is the last of them. -/
def tokens (scanner : Scanner) : Except Diagnostic (List Token) × Scanner :=
  match _ : scanner.next with
  | (.error fault, after) => (.error fault, after)
  | (.ok token, after) =>
    if _ : token.kind = .finish then (.ok [token], after)
    else
      let (others, last) := after.tokens
      (others.map (token :: ·), last)
termination_by scanner.cursor.rest.length
decreasing_by exact next_shrinks ‹_› ‹_›

end Scanner

/-- The tokens of a whole source. -/
def tokensOf (file source : String) : Except Diagnostic (List Token) :=
  (Scanner.ofSource file source).tokens.1

end TextGrammar
