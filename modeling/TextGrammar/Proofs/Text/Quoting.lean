import Mathlib.Algebra.Group.Nat.Defs
import TextGrammar.Text.Quoted

/-!
# Reading quoted text

Quoted text can be read back. Every character is written so that it can be told where it ends: what
begins with a backslash says by its second character how it goes on, and everything else stands for
itself. The quote in use is only written as itself at the end. There are no line breaks in quoted
text, so a line that ends with some can be cut off from the next one.
-/
namespace TextGrammar.Text

/-! ## Code points -/

def hexValue (digit : Char) : Nat :=
  if digit.toNat < 'a'.toNat then digit.toNat - '0'.toNat else digit.toNat - 'a'.toNat + 10

/-- The number that is written with these digits. -/
def codeOf (digits : List Char) : Nat :=
  digits.foldl (fun code digit => 16 * code + hexValue digit) 0

theorem hexValue_digitChar (digit : Fin 16) : hexValue (Nat.digitChar digit) = digit := by
  revert digit
  decide

theorem length_hexDigits (width number : Nat) : (hexDigits width number).length = width := by
  induction width generalizing number with
  | zero => rfl
  | succ width ih => simp [hexDigits, ih]

theorem codeOf_hexDigits {width number : Nat} (enough : number < 16 ^ width) :
    codeOf (hexDigits width number) = number := by
  induction width generalizing number with
  | zero =>
    have zero : number = 0 := by simpa using enough
    rw [zero]
    rfl
  | succ width ih =>
    have front : codeOf (hexDigits width (number / 16)) = number / 16 := by
      apply ih
      rw [Nat.pow_succ] at enough
      omega
    have last : hexValue (Nat.digitChar (number % 16)) = number % 16 :=
      hexValue_digitChar ⟨number % 16, Nat.mod_lt _ (by decide)⟩
    rw [hexDigits, codeOf, List.foldl_append, ← codeOf, front, List.foldl_cons, List.foldl_nil,
      last]
    omega

/-! ## Characters -/

/-- Reads a character that is written as a code point of so many digits. -/
def readCode (width : Nat) (text : List Char) : Char × List Char :=
  (Char.ofNat (codeOf (text.take width)), text.drop width)

/-- Reads the first character that is written in a text, and says what is left of the text. -/
def readChar : List Char → Option (Char × List Char)
  | [] => none
  | '\\' :: 'x' :: text => some (readCode 2 text)
  | '\\' :: 'u' :: text => some (readCode 4 text)
  | '\\' :: 'U' :: text => some (readCode 8 text)
  | '\\' :: 't' :: text => some ('\t', text)
  | '\\' :: 'n' :: text => some ('\n', text)
  | '\\' :: 'r' :: text => some ('\r', text)
  | '\\' :: char :: text => some (char, text)
  | char :: text => some (char, text)

theorem length_lt_of_readChar {text rest : List Char} {char : Char}
    (read : readChar text = some (char, rest)) : rest.length < text.length := by
  unfold readChar at read
  split at read
  all_goals simp [readCode] at read
  all_goals obtain ⟨_, rfl⟩ := read
  all_goals simp
  all_goals omega

theorem readCode_hexDigits {width : Nat} {char : Char} (enough : char.toNat < 16 ^ width)
    (rest : List Char) : readCode width (hexDigits width char.toNat ++ rest) = (char, rest) := by
  have length := length_hexDigits width char.toNat
  rw [readCode, List.take_left' length, List.drop_left' length, codeOf_hexDigits enough,
    Char.ofNat_toNat]

/-- The two quotes that are in use. -/
def IsQuote (char : Char) : Prop := char = '\x27' ∨ char = '"'

theorem isQuote_quoteFor (text : List Char) : IsQuote (quoteFor text) := by
  unfold quoteFor
  split
  · exact .inr rfl
  · exact .inl rfl

/-- The ways in which a character is written between quotes. -/
inductive Escapes (quote char : Char) : List Char → Prop where
  | marked (special : char = quote ∨ char = '\\') : Escapes quote char ['\\', char]
  | named {letter : Char} (name : (char, letter) ∈ [('\t', 't'), ('\n', 'n'), ('\r', 'r')]) :
      Escapes quote char ['\\', letter]
  | plain (notQuote : char ≠ quote) (notBackslash : char ≠ '\\') (notBreak : char ≠ '\n') :
      Escapes quote char [char]
  | code {letter : Char} {width : Nat} (form : (letter, width) ∈ [('x', 2), ('u', 4), ('U', 8)])
      (enough : char.toNat < 16 ^ width) :
      Escapes quote char ('\\' :: letter :: hexDigits width char.toNat)

theorem escapes_codeEscape (quote char : Char) :
    Escapes quote char (codeEscape char.toNat) := by
  unfold codeEscape
  split
  next small => exact .code (by simp) small
  next =>
    split
    next middle => exact .code (by simp) middle
    next =>
      have valid : char.toNat < 0x110000 := by
        have isValid := char.valid
        simp only [UInt32.isValidChar, Nat.isValidChar] at isValid
        simp only [Char.toNat]
        omega
      exact .code (by simp) (Nat.lt_trans valid (by decide))

theorem escapes_escape (quote char : Char) : Escapes quote char (escape quote char) := by
  unfold escape
  split
  next special => exact .marked (by simpa using special)
  next ordinary =>
    obtain ⟨notQuote, notBackslash⟩ : char ≠ quote ∧ char ≠ '\\' := by simpa using ordinary
    repeat' split
    next isTab => exact .named (by simp [isTab])
    next isBreak => exact .named (by simp [isBreak])
    next isReturn => exact .named (by simp [isReturn])
    next notBreak _ _ => exact .plain notQuote notBackslash notBreak
    next => exact escapes_codeEscape quote char

section Escapes

variable {quote char : Char} {written : List Char}

theorem Escapes.readChar (escapes : Escapes quote char written) (isQuote : IsQuote quote)
    (rest : List Char) : readChar (written ++ rest) = some (char, rest) := by
  cases escapes with
  | marked special =>
    -- neither a quote nor a backslash is a letter that says how to go on
    have known : char = '\x27' ∨ char = '"' ∨ char = '\\' := by
      rcases special with rfl | rfl
      · exact isQuote.imp_right .inl
      · exact .inr (.inr rfl)
    rcases known with rfl | rfl | rfl <;> rfl
  | named name =>
    simp only [List.mem_cons, Prod.mk.injEq, List.not_mem_nil, or_false] at name
    rcases name with ⟨rfl, rfl⟩ | ⟨rfl, rfl⟩ | ⟨rfl, rfl⟩ <;> rfl
  | plain _ notBackslash _ => simp [Text.readChar, notBackslash]
  | code form enough =>
    have read := readCode_hexDigits enough rest
    simp only [List.mem_cons, Prod.mk.injEq, List.not_mem_nil, or_false] at form
    rcases form with ⟨rfl, rfl⟩ | ⟨rfl, rfl⟩ | ⟨rfl, rfl⟩ <;> exact congrArg some read

/-- No character is written with the quote in front. -/
theorem Escapes.exists_head (escapes : Escapes quote char written) (isQuote : IsQuote quote) :
    ∃ first more, written = first :: more ∧ first ≠ quote := by
  have notBackslash : '\\' ≠ quote := by
    rcases isQuote with rfl | rfl <;> decide
  cases escapes with
  | plain notQuote _ _ => exact ⟨_, _, rfl, notQuote⟩
  | marked | named | code => exact ⟨_, _, rfl, notBackslash⟩

theorem unbroken_hexDigits (width number : Nat) : '\n' ∉ hexDigits width number := by
  induction width generalizing number with
  | zero => exact List.not_mem_nil
  | succ width ih =>
    have last : ∀ digit : Fin 16, '\n' ≠ Nat.digitChar digit := by decide
    rw [hexDigits, List.mem_append, List.mem_singleton, not_or]
    exact ⟨ih _, last ⟨number % 16, Nat.mod_lt _ (by decide)⟩⟩

theorem Escapes.unbroken (escapes : Escapes quote char written) (isQuote : IsQuote quote) :
    '\n' ∉ written := by
  cases escapes with
  | marked special =>
    rcases special with rfl | rfl
    · rcases isQuote with rfl | rfl <;> decide
    · decide
  | named name =>
    simp only [List.mem_cons, Prod.mk.injEq, List.not_mem_nil, or_false] at name
    rcases name with ⟨_, rfl⟩ | ⟨_, rfl⟩ | ⟨_, rfl⟩ <;> decide
  | plain _ _ notBreak => simpa using notBreak.symm
  | code form enough =>
    simp only [List.mem_cons, Prod.mk.injEq, List.not_mem_nil, or_false] at form
    rcases form with ⟨rfl, _⟩ | ⟨rfl, _⟩ | ⟨rfl, _⟩ <;> simp [unbroken_hexDigits]

end Escapes

/-! ## Texts -/

/-- Reads characters up to the quote, behind which nothing may be left. -/
def readUpTo (quote : Char) (text : List Char) : Option (List Char) :=
  if text = [quote] then some []
  else
    match _ : readChar text with
    | none => none
    | some (char, rest) => (readUpTo quote rest).map (char :: ·)
termination_by text.length
decreasing_by exact length_lt_of_readChar ‹_›

/-- The text that has been quoted. -/
def unquote : List Char → Option (List Char)
  | [] => none
  | quote :: text => readUpTo quote text

theorem readUpTo_escape {quote : Char} (isQuote : IsQuote quote) (text : List Char) :
    readUpTo quote (text.flatMap (escape quote) ++ [quote]) = some text := by
  induction text with
  | nil =>
    unfold readUpTo
    exact if_pos rfl
  | cons char text ih =>
    have escapes := escapes_escape quote char
    obtain ⟨first, more, head, differs⟩ := escapes.exists_head isQuote
    have read := escapes.readChar isQuote (text.flatMap (escape quote) ++ [quote])
    rw [List.flatMap_cons, List.append_assoc]
    unfold readUpTo
    rw [if_neg (by simp [head, differs])]
    split
    next nothing =>
      rw [read] at nothing
      cases nothing
    next char' rest found =>
      rw [read] at found
      cases found
      rw [ih]
      rfl

theorem unquote_quotedChars (text : List Char) : unquote (quotedChars text) = some text :=
  readUpTo_escape (isQuote_quoteFor text) text

theorem unbroken_quotedChars (text : List Char) : '\n' ∉ quotedChars text := by
  have isQuote := isQuote_quoteFor text
  have notBreak : '\n' ≠ quoteFor text := by
    rcases isQuote with same | same <;> rw [same] <;> decide
  have inside : '\n' ∉ text.flatMap (escape (quoteFor text)) := by
    intro member
    obtain ⟨char, _, member⟩ := List.mem_flatMap.mp member
    exact (escapes_escape _ char).unbroken isQuote member
  simp [quotedChars, notBreak, inside]

end TextGrammar.Text
