import TextGrammar.Token

/-!
# Diagnostics

A diagnostic is a fault of the grammar text that can be pointed at: what is wrong, where, and the
line it stands on. It is shown as a message, the line, and a row of tildes under the faulty piece.
The tildes never reach past the end of the line, except that there is always at least one.
-/
namespace TextGrammar

/-- What is wrong, with the kind of token that it is about, if any. The scanner blames one character
for a bad name, but the text that is blamed may be any. -/
inductive Cause where
  | stated (message : String) (kind : Option Kind)
  | badCharacter (text : String) (kind : Option Kind)
  | endOfInput (context : Option String) (kind : Option Kind)
  | unexpected (kind : Kind) (lexeme : String) (expected : Option Kind)
  deriving DecidableEq, Repr

namespace Cause

def kind? : Cause → Option Kind
  | stated _ kind | badCharacter _ kind | endOfInput _ kind => kind
  | unexpected kind _ _ => some kind

def category : Cause → String
  | stated .. => "error"
  | badCharacter .. => "lexical-error"
  | endOfInput .. => "unexpected-eof"
  | unexpected .. => "syntax-error"

def message : Cause → String
  | stated message _ => message
  | badCharacter text _ => "Invalid identifier character " ++ Text.quoted text ++ "."
  | endOfInput context _ =>
    match context with
    | none | some "" => "Unexpected end of input."
    | some context => "Unexpected end of input " ++ context ++ "."
  | unexpected kind lexeme expected =>
    match expected with
    | none => "Got unexpected token " ++ kind.mention lexeme ++ "."
    | some expected =>
      "Expected " ++ expected.label ++ " but got " ++ kind.mention lexeme ++ " instead."

end Cause

structure Diagnostic where
  cause : Cause
  span : Span
  line : String
  deriving DecidableEq, Repr

namespace Diagnostic

def message (diagnostic : Diagnostic) : String :=
  diagnostic.span.render ++ " Error: " ++ diagnostic.cause.message

/-- How many tildes are drawn under the faulty piece. -/
def width (diagnostic : Diagnostic) : Nat :=
  let col := diagnostic.span.col
  let stop := min diagnostic.span.stop (max (diagnostic.line.length : Int) (col + 1))
  (max (stop - col) 1).toNat

def tildes (diagnostic : Diagnostic) : String :=
  String.ofList (List.replicate diagnostic.width '~')

def indent (diagnostic : Diagnostic) : String :=
  String.ofList (List.replicate diagnostic.span.col.toNat ' ')

/-- The message, the line and the row of tildes; a terminal can show the tildes in red. -/
def describe (diagnostic : Diagnostic) (color : Bool) : String :=
  let marks :=
    if color then "\x1b[31m" ++ diagnostic.tildes ++ "\x1b[0m" else diagnostic.tildes
  diagnostic.message ++ "\n" ++ diagnostic.line ++ "\n" ++ diagnostic.indent ++ marks

end Diagnostic
end TextGrammar
