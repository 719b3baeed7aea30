import TextGrammar.Scanner

/-!
# Windows on the tokens

Reading a tree looks at the current token while the one after it has already been scanned. So a
fault of the text two tokens ahead comes to light before the current token is judged. Moving the
window makes the token ahead the current one before the next is asked for, and when that fails both
are the same token.
-/
namespace TextGrammar

structure Window where
  current : Token
  ahead : Token
  scanner : Scanner
  deriving DecidableEq, Repr

namespace Window

def ofScanner (scanner : Scanner) : Except Diagnostic Window :=
  match scanner.next with
  | (.error fault, _) => .error fault
  | (.ok current, scanner) =>
    match scanner.next with
    | (.error fault, _) => .error fault
    | (.ok ahead, scanner) => .ok ⟨current, ahead, scanner⟩

def advance (window : Window) : Except Diagnostic Unit × Window :=
  match window.scanner.next with
  | (.ok token, scanner) => (.ok (), ⟨window.ahead, token, scanner⟩)
  | (.error fault, scanner) => (.error fault, ⟨window.ahead, window.ahead, scanner⟩)

/-- The line that the current token starts on. -/
def line (window : Window) : String :=
  (window.scanner.cursor.line? window.current.span.row.toNat).getD ""

/-- The fault of finding the current token where it does not belong. -/
def unexpected (window : Window) (expected : Option Kind) : Diagnostic :=
  let token := window.current
  ⟨.unexpected token.kind token.lexeme expected, token.span, window.line⟩

/-- The fault of finding no more tokens. -/
def exhausted (window : Window) (context : Option String) : Diagnostic :=
  ⟨.endOfInput context (some .finish), window.current.span, window.line⟩

def weight (token : Token) : Nat := if token.kind = .finish then 0 else 1

/-- A bound on how often the window can move before it reaches the end of the input. -/
def size (window : Window) : Nat :=
  weight window.current + weight window.ahead + window.scanner.cursor.rest.length

theorem weight_of_real {token : Token} (real : token.kind ≠ .finish) : weight token = 1 := by
  simp [weight, real]

theorem advance_shrinks {window moved : Window} (done : window.advance = (.ok (), moved))
    (real : window.current.kind ≠ .finish) : moved.size < window.size := by
  unfold advance at done
  split at done
  next token scanner found =>
    cases done
    -- the token that comes ahead has used up a character, unless it is the last one
    have lighter : weight token + scanner.cursor.rest.length ≤
        window.scanner.cursor.rest.length := by
      by_cases last : token.kind = .finish
      · simpa [weight, last] using window.scanner.next_rest_le found
      · have shrinks := Scanner.next_shrinks found last
        rw [weight_of_real last]
        omega
    simp only [size, weight_of_real real]
    omega
  · cases done

end Window
end TextGrammar
