/-!
# Spans

A span points at a piece of one line of a grammar file. Rows and columns count from zero and
columns count characters; `stop` is the column after the last character. Readers of messages count
lines from one. The numbers are integers because a span may be made up by a caller, and every
operation on one has to make sense of whatever it is given.
-/
namespace TextGrammar

structure Span where
  file : String
  row : Int
  col : Int
  stop : Int
  deriving DecidableEq, Repr

namespace Span

def lineNumber (span : Span) : Int := span.row + 1

def render (span : Span) : String :=
  "[" ++ span.file ++ " @ " ++ toString span.lineNumber ++ ":" ++ toString span.col ++ "]"

end Span
end TextGrammar
