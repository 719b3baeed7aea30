import TextGrammar.Text.Printable

/-!
# Quoted text

Messages and listings show text between quotes on one line. Single quotes are used unless the text
holds a single quote and no double quote. The quote in use and the backslash are escaped with a
backslash, tab and line breaks by name, and any other unprintable character by its code point in
lower-case hexadecimal, with two, four or eight digits.
-/
namespace TextGrammar.Text

/-- The last `width` hexadecimal digits of a number, most significant first. -/
def hexDigits : Nat → Nat → List Char
  | 0, _ => []
  | width + 1, number => hexDigits width (number / 16) ++ [Nat.digitChar (number % 16)]

def codeEscape (code : Nat) : List Char :=
  if code < 0x100 then '\\' :: 'x' :: hexDigits 2 code
  else if code < 0x10000 then '\\' :: 'u' :: hexDigits 4 code
  else '\\' :: 'U' :: hexDigits 8 code

def escape (quote char : Char) : List Char :=
  if char = quote || char = '\\' then ['\\', char]
  else if char = '\t' then ['\\', 't']
  else if char = '\n' then ['\\', 'n']
  else if char = '\r' then ['\\', 'r']
  else if isPrintable char then [char]
  else codeEscape char.toNat

def quoteFor (text : List Char) : Char :=
  if text.contains '\x27' && !text.contains '"' then '"' else '\x27'

def quotedChars (text : List Char) : List Char :=
  let quote := quoteFor text
  quote :: (text.flatMap (escape quote) ++ [quote])

def quoted (text : String) : String :=
  String.ofList (quotedChars text.toList)

end TextGrammar.Text
