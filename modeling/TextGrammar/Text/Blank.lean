/-!
# Blank characters

Text between the commas of a list is trimmed at both ends. What counts as blank there is the wide
class of white space: the ASCII controls that move the cursor or separate records, and the Unicode
spaces and line separators. Zero-width characters are not blank.
-/
namespace TextGrammar.Text

def blankRanges : List (Nat × Nat) :=
  [(0x9, 0xd), (0x1c, 0x20), (0x85, 0x85), (0xa0, 0xa0), (0x1680, 0x1680), (0x2000, 0x200a),
   (0x2028, 0x2029), (0x202f, 0x202f), (0x205f, 0x205f), (0x3000, 0x3000)]

def isBlank (char : Char) : Bool :=
  blankRanges.any fun range => range.1 ≤ char.toNat && char.toNat ≤ range.2

/-- The text without the longest run at its end whose characters all satisfy `drop`. -/
def trimEnd (drop : Char → Bool) (text : List Char) : List Char :=
  (text.reverse.dropWhile drop).reverse

/-- The text without the longest such runs at both ends. -/
def trim (drop : Char → Bool) (text : List Char) : List Char :=
  trimEnd drop (text.dropWhile drop)

def strip (text : String) : String :=
  String.ofList (trim isBlank text.toList)

end TextGrammar.Text
