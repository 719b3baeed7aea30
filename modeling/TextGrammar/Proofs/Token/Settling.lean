import TextGrammar.Proofs.Token.Positions

/-!
# Scanners come to rest

A scanner that is asked again and again moves on for a while and then answers the same for ever.
Every token but the last takes it further into the text, so there are no more of them than the text
has characters. After that come either the last token over and over, or faults: a bad character is
blamed over and over, and where the text has ended too early, this is said of its end from the
second time on. So all tokens can be read in finitely many calls.
-/
namespace TextGrammar

/-- The place behind the last character of a text. -/
def Span.endOf (file : String) (text : List Char) : Span :=
  let col : Int := text.length - Text.lineStart text text.length
  ⟨file, text.count '\n', col, col⟩

/-- The second fault is what the first one is reported as from the next call on. -/
inductive Diagnostic.Recurs (file : String) (text : List Char) :
    Diagnostic → Diagnostic → Prop where
  | badCharacter {char : String} {kind : Option Kind} {span : Span} {line : String} :
      Diagnostic.Recurs file text ⟨.badCharacter char kind, span, line⟩
        ⟨.badCharacter char kind, span, line⟩
  | endOfInput {context : Option String} {kind : Option Kind} {span : Span} {line : String} :
      Diagnostic.Recurs file text ⟨.endOfInput context kind, span, line⟩
        ⟨.endOfInput context kind, .endOf file text,
          String.ofList (Text.lineFrom text (Text.lineStart text text.length))⟩

/-! ## One call -/

namespace Cursor.Charted

variable {text : List Char} {cursor : Cursor}

theorem offset_of_end (charted : cursor.Charted text) (ended : cursor.rest = []) :
    cursor.offset = text.length := by
  have left := congrArg List.length charted.rest
  rw [ended, List.length_drop, List.length_nil] at left
  have within := charted.within
  omega

theorem locate_of_end (charted : cursor.Charted text) (ended : cursor.rest = []) (file : String) :
    cursor.locate file [] = .endOf file text := by
  have offset := charted.offset_of_end ended
  have row := charted.row_eq
  have lineStart := charted.lineStart_eq
  obtain ⟨front, _, length, _⟩ := Text.lineStart_split charted.within
  rw [offset] at row lineStart length
  rw [List.take_length] at row
  have col : (cursor.col : Int) = text.length - Text.lineStart text text.length := by
    rw [Cursor.col, offset, lineStart]
    omega
  simp [Cursor.locate, Span.endOf, row, col]

end Cursor.Charted

namespace Scanner

variable {scanner after stuck : Scanner} {text : List Char}

theorem offset_lt_of_next {token : Token} (charted : scanner.cursor.Charted text)
    (found : scanner.next = (.ok token, after)) (real : token.kind ≠ .finish) :
    scanner.cursor.offset < after.cursor.offset := by
  have shrinks := next_shrinks found real
  have charted' : after.cursor.Charted text := by
    have passed := charted_next charted
    rwa [found] at passed
  rw [← charted.rest, ← charted'.rest, List.length_drop, List.length_drop] at shrinks
  omega

/-- After a fault nothing moves any more, and what recurs is the bad character or the end. -/
theorem exists_recurs_of_next {fault : Diagnostic} (charted : scanner.cursor.Charted text)
    (faulty : scanner.next = (.error fault, stuck)) :
    ∃ fault', fault.Recurs scanner.file text fault' ∧ stuck.next = (.error fault', stuck) := by
  obtain ⟨gap, found, later, misses⟩ := next_error_iff.mp faulty
  obtain ⟨fault', missed⟩ := misses.again
  refine ⟨fault', ?_, next_error_iff.mpr ⟨_, _, _, missed⟩⟩
  have reported := misses.reported
  have reported' := missed.reported
  cases found with
  | token kind text => exact absurd rfl (misses.no_token kind text)
  | badCharacter char =>
    -- the character has not been passed, so it is found at the same place again
    rw [Found.again, misses.file, List.length_nil, Cursor.pass, misses.cursor, Found.taken,
      List.length_nil, Cursor.pass, reported] at reported'
    cases reported
    cases reported'
    exact .badCharacter
  | unfinished context taken =>
    have charted' : stuck.cursor.Charted text := by
      have passed := charted_next charted
      rwa [faulty] at passed
    -- the second time there is nothing left, so it is the end that is reported
    have ended : stuck.cursor.rest = [] := by
      rw [misses.left]
      exact misses.finds.leaves
    have line : stuck.cursor.lineFrom stuck.cursor.lineStart =
        String.ofList (Text.lineFrom text (Text.lineStart text text.length)) := by
      rw [charted'.lineStart_eq, charted'.offset_of_end ended, Cursor.lineFrom, charted'.source]
      rfl
    cases reported
    cases reported'
    rw [List.length_nil, Cursor.pass, charted'.locate_of_end ended, misses.file, line]
    exact .endOfInput

/-! ## Many calls -/

/-- What the scanner answers when it has been called so often before. -/
def answer (scanner : Scanner) (calls : Nat) : Except Diagnostic Token :=
  (scanner.called calls).next.1

theorem called_add (scanner : Scanner) (calls more : Nat) :
    scanner.called (calls + more) = (scanner.called calls).called more := by
  induction calls generalizing scanner with
  | zero => rw [Nat.zero_add, called]
  | succ calls ih => rw [Nat.succ_add, called, ih, called]

theorem called_of_still (still : scanner.next.2 = scanner) (calls : Nat) :
    scanner.called calls = scanner := by
  induction calls with
  | zero => rfl
  | succ calls ih => rw [called, still, ih]

theorem file_called (scanner : Scanner) (calls : Nat) :
    (scanner.called calls).file = scanner.file := by
  induction calls generalizing scanner with
  | zero => rfl
  | succ calls ih => rw [called, ih, next]

theorem Gives.called_length {tokens : List Token} (gives : scanner.Gives tokens after) :
    scanner.called tokens.length = after := by
  induction gives with
  | nil scanner => rfl
  | cons first rest ih => rw [List.length_cons, called, first, ih]

theorem next_called {calls : Nat} {result : Except Diagnostic Token}
    (answered : scanner.answer calls = result) :
    (scanner.called calls).next = (result, scanner.called (calls + 1)) := by
  rw [called_add, called, called, ← answered, answer]

/-- A call that leaves all as it is says what all later calls do. -/
theorem called_of_settled {calls later : Nat} {result : Except Diagnostic Token}
    (settled : (scanner.called calls).next = (result, scanner.called calls))
    (behind : calls ≤ later) :
    scanner.answer later = result ∧ scanner.called later = scanner.called calls := by
  obtain ⟨more, rfl⟩ := Nat.exists_eq_add_of_le behind
  have still : (scanner.called calls).next.2 = scanner.called calls := by rw [settled]
  have same : scanner.called (calls + more) = scanner.called calls := by
    rw [called_add, called_of_still still]
  exact ⟨by rw [answer, same, settled], same⟩

/-- Each of the tokens takes up a character at least. -/
theorem Gives.length_le {tokens : List Token} (gives : scanner.Gives tokens after)
    (unended : Unended tokens) : tokens.length + after.cursor.rest.length ≤
      scanner.cursor.rest.length := by
  induction gives with
  | nil scanner => exact Nat.le_of_eq (Nat.zero_add _)
  | cons first rest ih =>
    obtain ⟨real, others⟩ := List.forall_mem_cons.mp unended
    have shorter := next_shrinks first real
    have within := ih others
    rw [List.length_cons]
    omega

/-- All tokens are read in one call more than there are tokens before the last one or before the
first fault, and of these there are no more than the bound says. -/
inductive Reads (scanner : Scanner) (bound : Nat) : Prop where
  | ends (front : List Token) (stop : Token) (short : front.length ≤ bound)
      (unended : Unended front) (finished : stop.kind = .finish)
      (gives : scanner.Gives (front ++ [stop]) (scanner.called (front.length + 1)))
      (all : scanner.tokens = (.ok (front ++ [stop]), scanner.called (front.length + 1))) :
      Reads scanner bound
  | breaks (front : List Token) (fault : Diagnostic) (short : front.length ≤ bound)
      (unended : Unended front) (gives : scanner.Gives front (scanner.called front.length))
      (faulty : scanner.answer front.length = .error fault)
      (all : scanner.tokens = (.error fault, scanner.called (front.length + 1))) :
      Reads scanner bound

theorem reads {bound : Nat} (within : scanner.cursor.rest.length ≤ bound) :
    scanner.Reads bound := by
  rcases scanner.tokens_cases with ⟨front, stop, after, all, unended, finished, gives⟩ |
    ⟨front, middle, fault, after, all, unended, gives, faulty⟩
  · -- the last token takes up nothing, so only those in front of it are counted
    have short : front.length ≤ bound := by
      obtain ⟨middle, before, _⟩ := gives_append_iff.mp gives
      have taken := before.length_le unended
      omega
    have calls := gives.called_length
    rw [List.length_append, List.length_singleton] at calls
    subst calls
    exact .ends front stop short unended finished gives all
  · have short : front.length ≤ bound := by
      have taken := gives.length_le unended
      omega
    have calls := gives.called_length
    subst calls
    have last : scanner.called (front.length + 1) = after := by
      rw [called_add, called, called, faulty]
    subst last
    exact .breaks front fault short unended gives (by rw [answer, faulty]) all

/-- Asked any number of times, a scanner goes forward until it has given the last token, which it
then gives again, or until there is a fault, which then recurs; and then it stays where it is. -/
theorem answers_settle (file source : String) :
    (∀ calls token, (ofSource file source).answer calls = .ok token → token.kind ≠ .finish →
      ((ofSource file source).called calls).cursor.offset <
        ((ofSource file source).called (calls + 1)).cursor.offset) ∧
    (∀ calls stop, (ofSource file source).answer calls = .ok stop → stop.kind = .finish →
      ∀ later > calls, (ofSource file source).answer later = .ok stop ∧
        (ofSource file source).called later = (ofSource file source).called (calls + 1)) ∧
    (∀ calls fault, (ofSource file source).answer calls = .error fault →
      ∃ fault', fault.Recurs file source.toList fault' ∧
        ∀ later > calls, (ofSource file source).answer later = .error fault' ∧
          (ofSource file source).called later = (ofSource file source).called (calls + 1)) ∧
    ∀ calls, ((ofSource file source).called calls).Reads source.length := by
  have charted (calls : Nat) : ((ofSource file source).called calls).cursor.Charted source.toList :=
    charted_called (Cursor.Charted.ofSource source.toList) calls
  refine ⟨?_, ?_, ?_, ?_⟩
  · intro calls token answered real
    exact offset_lt_of_next (charted calls) (next_called answered) real
  · intro calls stop answered finished later behind
    exact called_of_settled (next_of_finish (next_called answered) finished) behind
  · intro calls fault answered
    obtain ⟨fault', recurs, settled⟩ := exists_recurs_of_next (charted calls) (next_called answered)
    rw [file_called] at recurs
    exact ⟨fault', recurs, fun later behind => called_of_settled settled behind⟩
  · intro calls
    apply reads
    rw [← (charted calls).rest, List.length_drop, String.length_toList]
    exact Nat.sub_le _ _

/-- The name gives back two joiners, the text that begins with them never ends, and from the second
time on this is said of the line below. A source of one space ends at once. -/
theorem answers_settle_template :
    let scanner := ofSource "" "\"#a--\nb"
    (∃ token, scanner.answer 2 = .ok token ∧ token.lexeme = "a" ∧
      (scanner.called 2).cursor.offset < (scanner.called 3).cursor.offset) ∧
    (∃ fault fault', scanner.answer 3 = .error fault ∧ fault.span = ⟨"", 0, 3, 5⟩ ∧
      fault'.span = ⟨"", 1, 1, 1⟩ ∧ fault'.cause = fault.cause ∧
      ∀ later > 3, scanner.answer later = .error fault') ∧
    ∃ stop, (ofSource "" " ").answer 0 = .ok stop ∧ stop.kind = .finish ∧
      ∀ later > 0, (ofSource "" " ").answer later = .ok stop := by
  obtain ⟨advances, _, settles, _⟩ := answers_settle "" "\"#a--\nb"
  obtain ⟨_, stays, _, _⟩ := answers_settle "" " "
  refine ⟨?_, ?_, ?_⟩
  · obtain ⟨token, answered, real, lexeme⟩ : ∃ token,
        (ofSource "" "\"#a--\nb").answer 2 = .ok token ∧ token.kind ≠ .finish ∧
          token.lexeme = "a" := ⟨_, rfl, by decide, by decide⟩
    exact ⟨token, answered, lexeme, advances 2 token answered real⟩
  · obtain ⟨fault, answered, context, kind, cause, span⟩ : ∃ fault,
        (ofSource "" "\"#a--\nb").answer 3 = .error fault ∧ ∃ context kind,
          fault.cause = .endOfInput context kind ∧ fault.span = ⟨"", 0, 3, 5⟩ :=
      ⟨_, rfl, _, _, rfl, by decide⟩
    obtain ⟨fault', recurs, later⟩ := settles 3 fault answered
    refine ⟨fault, fault', answered, span, ?_, ?_, fun call behind => (later call behind).1⟩
    · cases recurs with
      | badCharacter => cases cause
      | endOfInput => exact (by decide : Span.endOf "" "\"#a--\nb".toList = ⟨"", 1, 1, 1⟩)
    · cases recurs <;> rfl
  · obtain ⟨stop, answered, finished⟩ : ∃ stop,
        (ofSource "" " ").answer 0 = .ok stop ∧ stop.kind = .finish := ⟨_, rfl, rfl⟩
    exact ⟨stop, answered, finished,
      fun call behind => (stays 0 stop answered finished call behind).1⟩

end Scanner
end TextGrammar
