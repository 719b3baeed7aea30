import TextGrammar.Token.Scan
import TextGrammar.Span

/-!
# Cursors

A cursor stands in a text. It knows what has not been read yet, where the lines that it has entered
start, latest first, and whether only space has been read of the line it is on. Rows and columns are
read off the table of line starts, and a line can be looked up as soon as the cursor has passed the
line break before it.
-/
namespace TextGrammar

structure Cursor where
  source : List Char
  rest : List Char
  offset : Nat
  lineStarts : List Nat
  onBlankLine : Bool
  deriving DecidableEq, Repr

namespace Cursor

def ofSource (source : List Char) : Cursor := ⟨source, source, 0, [0], true⟩

def lineStart (cursor : Cursor) : Nat := cursor.lineStarts.headD 0

def row (cursor : Cursor) : Nat := cursor.lineStarts.length - 1

def col (cursor : Cursor) : Nat := cursor.offset - cursor.lineStart

/-- The cursor after reading `char`, when `rest` is what follows it. -/
def step (cursor : Cursor) (char : Char) (rest : List Char) : Cursor :=
  { cursor with
    rest := rest
    offset := cursor.offset + 1
    lineStarts :=
      if char = '\n' then (cursor.offset + 1) :: cursor.lineStarts else cursor.lineStarts
    onBlankLine := char = '\n' || (cursor.onBlankLine && isSpace char) }

/-- Reads `count` characters, or as many as there are. -/
def pass : Nat → Cursor → Cursor
  | 0, cursor => cursor
  | count + 1, cursor =>
    match cursor.rest with
    | [] => cursor
    | char :: rest => (cursor.step char rest).pass count

/-- The line that starts at an offset, without its line break. -/
def lineFrom (cursor : Cursor) (start : Nat) : String :=
  String.ofList ((cursor.source.drop start).takeWhile (· ≠ '\n'))

def line? (cursor : Cursor) (row : Nat) : Option String :=
  (cursor.lineStarts.reverse[row]?).map cursor.lineFrom

/-- The place of `text`, which stands at the cursor. Text that goes on over a line break is cut at
the end of its first line. -/
def locate (cursor : Cursor) (file : String) (text : List Char) : Span :=
  ⟨file, cursor.row, cursor.col, cursor.col + (text.takeWhile (· ≠ '\n')).length⟩

theorem rest_pass (count : Nat) (cursor : Cursor) :
    (cursor.pass count).rest = cursor.rest.drop count := by
  induction count generalizing cursor with
  | zero => simp [pass]
  | succ count ih =>
    unfold pass
    split
    next empty => simp [empty]
    next char rest nonempty => simp [ih, nonempty, step]

end Cursor
end TextGrammar
