/-!
# Text files

A grammar file is UTF-8. Its line breaks may be written as carriage return and line feed or as a
lone carriage return; both are read as a line feed. A byte order mark is an ordinary character.
-/
namespace TextGrammar.Text

def unifyLineBreaks : List Char → List Char
  | [] => []
  | '\r' :: '\n' :: rest => '\n' :: unifyLineBreaks rest
  | char :: rest => (if char = '\r' then '\n' else char) :: unifyLineBreaks rest

/-- The text of a file, or `none` if its bytes are not UTF-8. -/
def decode? (bytes : ByteArray) : Option String :=
  (String.fromUTF8? bytes).map fun text => String.ofList (unifyLineBreaks text.toList)

end TextGrammar.Text
