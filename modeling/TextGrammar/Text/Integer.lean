import TextGrammar.Text.Blank

/-!
# Reading integers

An integer is an optional sign and decimal digits of any script, with single underscores allowed
between digits and blanks allowed around the whole. Numbers of more than 4300 digits are refused,
so that reading one never takes long.
-/
namespace TextGrammar.Text

/-- The code points of the zeros; each starts a run of ten digits in order. -/
def decimalZeros : List Nat :=
  [0x30, 0x660, 0x6f0, 0x7c0, 0x966, 0x9e6, 0xa66, 0xae6, 0xb66, 0xbe6, 0xc66, 0xce6, 0xd66, 0xde6,
   0xe50, 0xed0, 0xf20, 0x1040, 0x1090, 0x17e0, 0x1810, 0x1946, 0x19d0, 0x1a80, 0x1a90, 0x1b50,
   0x1bb0, 0x1c40, 0x1c50, 0xa620, 0xa8d0, 0xa900, 0xa9d0, 0xa9f0, 0xaa50, 0xabf0, 0xff10, 0x104a0,
   0x10d30, 0x11066, 0x110f0, 0x11136, 0x111d0, 0x112f0, 0x11450, 0x114d0, 0x11650, 0x116c0,
   0x11730, 0x118e0, 0x11950, 0x11c50, 0x11d50, 0x11da0, 0x16a60, 0x16ac0, 0x16b50, 0x1d7ce,
   0x1d7d8, 0x1d7e2, 0x1d7ec, 0x1d7f6, 0x1e140, 0x1e2f0, 0x1e950, 0x1fbf0]

def digitValue? (char : Char) : Option Nat :=
  let code := char.toNat
  (decimalZeros.find? fun first => first ≤ code && code < first + 10).map (code - ·)

def isDigit (char : Char) : Bool := (digitValue? char).isSome

/-- The values of a run of digits in which single underscores may separate neighbours. -/
def digitValues? : List Char → Option (List Nat)
  | [] => none
  | [char] => (digitValue? char).map ([·])
  | char :: '_' :: rest => do
    let value ← digitValue? char
    let values ← digitValues? rest
    return value :: values
  | char :: rest => do
    let value ← digitValue? char
    let values ← digitValues? rest
    return value :: values

def maxDigits : Nat := 4300

def natural? (text : List Char) : Option Nat :=
  match digitValues? text with
  | some values =>
    if values.length ≤ maxDigits then some (values.foldl (fun total value => 10 * total + value) 0)
    else none
  | none => none

/-- The information separators are blank in a list but not around a number. -/
def isIntegerBlank (char : Char) : Bool :=
  isBlank char && !(0x1c ≤ char.toNat && char.toNat ≤ 0x1f)

def integer? (text : String) : Option Int :=
  match trim isIntegerBlank text.toList with
  | '-' :: digits => (natural? digits).map fun value => -(value : Int)
  | '+' :: digits => (natural? digits).map Int.ofNat
  | digits => (natural? digits).map Int.ofNat

end TextGrammar.Text
