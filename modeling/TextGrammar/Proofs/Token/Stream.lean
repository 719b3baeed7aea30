import TextGrammar.Proofs.Token.Modes
import TextGrammar.Scanner

/-!
# The tokens that a scanner gives

Asked again and again, a scanner gives token after token, until there is a fault or the last token
has been given. The last token is then given for ever.
-/
namespace TextGrammar

/-- None of these is the last token. -/
def Unended (tokens : List Token) : Prop := ∀ token ∈ tokens, token.kind ≠ .finish

instance (tokens : List Token) : Decidable (Unended tokens) :=
  inferInstanceAs (Decidable (∀ token ∈ tokens, token.kind ≠ .finish))

/-- What is left when the front of the text has been passed. -/
theorem Cursor.rest_behind {cursor : Cursor} {front behind : List Char}
    (rest : cursor.rest = front ++ behind) : (cursor.pass front.length).rest = behind := by
  rw [rest_pass, rest, List.drop_left]

namespace Scanner

/-- Asked once, the scanner skips this gap and makes this token of the text behind it. -/
structure Cuts (scanner : Scanner) (gap text later : List Char) (token : Token) (after : Scanner) :
    Prop where
  rest : scanner.cursor.rest = gap ++ (text ++ later)
  finds : Finds scanner.cursor.onBlankLine scanner.modes gap (.token token.kind text) later
    after.modes
  lexeme : token.lexeme = String.ofList text
  place : token.span = (scanner.cursor.pass gap.length).locate scanner.file text
  file : after.file = scanner.file
  cursor : after.cursor = (scanner.cursor.pass gap.length).pass text.length

theorem next_ok_iff {scanner after : Scanner} {token : Token} :
    scanner.next = (.ok token, after) ↔
      ∃ gap text later, scanner.Cuts gap text later token after := by
  constructor
  · intro found
    obtain ⟨later, cut, finds⟩ :=
      scan_meets scanner.cursor.onBlankLine scanner.modes scanner.cursor.rest
    simp only [next, Prod.mk.injEq] at found
    obtain ⟨reported, rfl⟩ := found
    obtain ⟨text, isToken, lexeme⟩ := found_of_report reported
    rw [isToken] at cut finds reported
    have place := congrArg Token.span (Except.ok.inj reported)
    exact ⟨_, text, later, cut, finds, lexeme, place.symm, rfl, by rw [isToken, Found.taken]⟩
  · rintro ⟨gap, text, later, cuts⟩
    have scanned := cuts.finds.scan
    rw [Found.taken, ← cuts.rest] at scanned
    simp only [next, scanned, report, Found.taken, Prod.mk.injEq, Except.ok.injEq]
    refine ⟨?_, ?_⟩
    · rw [← cuts.lexeme, ← cuts.place]
    · rw [← cuts.cursor, ← cuts.file]

theorem Cuts.left {scanner after : Scanner} {gap text later : List Char} {token : Token}
    (cuts : scanner.Cuts gap text later token after) : after.cursor.rest = later := by
  rw [cuts.cursor]
  exact Cursor.rest_behind (Cursor.rest_behind cuts.rest)

/-- Asked once, the scanner skips this gap, and what it finds behind it is no token but a fault. -/
structure Misses (scanner : Scanner) (gap : List Char) (found : Found) (later : List Char)
    (fault : Diagnostic) (after : Scanner) : Prop where
  rest : scanner.cursor.rest = gap ++ (found.taken ++ later)
  finds : Finds scanner.cursor.onBlankLine scanner.modes gap found later after.modes
  reported : report scanner.file (scanner.cursor.pass gap.length) found = .error fault
  file : after.file = scanner.file
  cursor : after.cursor = (scanner.cursor.pass gap.length).pass found.taken.length

theorem next_error_iff {scanner after : Scanner} {fault : Diagnostic} :
    scanner.next = (.error fault, after) ↔
      ∃ gap found later, scanner.Misses gap found later fault after := by
  constructor
  · intro missed
    obtain ⟨later, cut, finds⟩ :=
      scan_meets scanner.cursor.onBlankLine scanner.modes scanner.cursor.rest
    simp only [next, Prod.mk.injEq] at missed
    obtain ⟨reported, rfl⟩ := missed
    exact ⟨_, _, later, cut, finds, reported, rfl, rfl⟩
  · rintro ⟨gap, found, later, misses⟩
    have scanned := misses.finds.scan
    rw [← misses.rest] at scanned
    simp only [next, scanned, misses.reported, Prod.mk.injEq, true_and]
    rw [← misses.cursor, ← misses.file]

theorem Misses.no_token {scanner after : Scanner} {gap later : List Char} {found : Found}
    {fault : Diagnostic} (misses : scanner.Misses gap found later fault after) (kind : Kind)
    (text : List Char) : found ≠ .token kind text := by
  rintro rfl
  cases misses.reported

/-- What is next is decided by the modes of the scanner and by the text in front of it. -/
structure Stands (scanner : Scanner) (modes : List Mode) (rest : List Char) : Prop where
  modes : scanner.modes = modes
  rest : scanner.cursor.rest = rest

/-- Whatever there is to be found, the scanner has a token for it. -/
theorem exists_cuts {scanner : Scanner} {gap text later modes' : List _} {kind : Kind}
    (rest : scanner.cursor.rest = gap ++ (text ++ later))
    (finds : Finds scanner.cursor.onBlankLine scanner.modes gap (.token kind text) later modes') :
    ∃ token after, scanner.Cuts gap text later token after ∧ token.kind = kind ∧
      after.modes = modes' :=
  ⟨⟨kind, String.ofList text, (scanner.cursor.pass gap.length).locate scanner.file text⟩,
    ⟨scanner.file, (scanner.cursor.pass gap.length).pass text.length, modes'⟩,
    ⟨rest, finds, rfl, rfl, rfl, rfl⟩, rfl, rfl⟩

theorem next_of_finds {scanner : Scanner} {gap text later modes' : List _} {kind : Kind}
    (rest : scanner.cursor.rest = gap ++ (text ++ later))
    (finds : Finds scanner.cursor.onBlankLine scanner.modes gap (.token kind text) later modes') :
    ∃ token after, scanner.next = (.ok token, after) ∧ token.kind = kind ∧
      token.lexeme = String.ofList text ∧ after.Stands modes' later := by
  obtain ⟨token, after, cuts, isKind, modes⟩ := exists_cuts rest finds
  exact ⟨token, after, next_ok_iff.mpr ⟨_, _, _, cuts⟩, isKind, cuts.lexeme, modes, cuts.left⟩

theorem Stands.next {scanner : Scanner} {modes text later modes' : List _} {kind : Kind}
    (stands : scanner.Stands modes (text ++ later))
    (finds : ∀ blankLine, Finds blankLine modes [] (.token kind text) later modes') :
    ∃ token after, scanner.next = (.ok token, after) ∧ token.kind = kind ∧
      token.lexeme = String.ofList text ∧ after.Stands modes' later := by
  obtain ⟨rfl, rest⟩ := stands
  exact next_of_finds rest (finds _)

/-- Asked as often as there are tokens, the scanner gives just these and is left as `after`. -/
inductive Gives : Scanner → List Token → Scanner → Prop where
  | nil (scanner : Scanner) : Gives scanner [] scanner
  | cons {scanner middle after : Scanner} {token : Token} {tokens : List Token}
      (first : scanner.next = (.ok token, middle)) (rest : Gives middle tokens after) :
      Gives scanner (token :: tokens) after

@[simp] theorem gives_nil_iff {scanner after : Scanner} :
    scanner.Gives [] after ↔ after = scanner := by
  constructor
  · intro gives
    cases gives
    rfl
  · rintro rfl
    exact .nil after

theorem gives_cons_iff {scanner after : Scanner} {token : Token} {tokens : List Token} :
    scanner.Gives (token :: tokens) after ↔
      ∃ middle, scanner.next = (.ok token, middle) ∧ middle.Gives tokens after := by
  constructor
  · intro gives
    cases gives with
    | cons first rest => exact ⟨_, first, rest⟩
  · rintro ⟨middle, first, rest⟩
    exact .cons first rest

theorem gives_append_iff {scanner after : Scanner} {front back : List Token} :
    scanner.Gives (front ++ back) after ↔
      ∃ middle, scanner.Gives front middle ∧ middle.Gives back after := by
  induction front generalizing scanner with
  | nil => simp
  | cons token front ih =>
    rw [List.cons_append, gives_cons_iff]
    constructor
    · rintro ⟨next, first, rest⟩
      obtain ⟨middle, front, back⟩ := ih.mp rest
      exact ⟨middle, .cons first front, back⟩
    · rintro ⟨middle, front, back⟩
      obtain ⟨next, first, rest⟩ := gives_cons_iff.mp front
      exact ⟨next, first, ih.mpr ⟨middle, rest, back⟩⟩

theorem gives_singleton_iff {scanner after : Scanner} {token : Token} :
    scanner.Gives [token] after ↔ scanner.next = (.ok token, after) := by
  simp [gives_cons_iff]

theorem Gives.snoc {scanner middle after : Scanner} {tokens : List Token} {token : Token}
    (gives : scanner.Gives tokens middle) (last : middle.next = (.ok token, after)) :
    scanner.Gives (tokens ++ [token]) after :=
  gives_append_iff.mpr ⟨middle, gives, gives_singleton_iff.mpr last⟩

/-- The first so many tokens and the scanner behind them, unless there is a fault before. -/
def firsts : Nat → Scanner → Option (List Token × Scanner)
  | 0, scanner => some ([], scanner)
  | count + 1, scanner =>
    match scanner.next with
    | (.ok token, middle) =>
      (middle.firsts count).map fun (tokens, after) => (token :: tokens, after)
    | (.error _, _) => none

theorem gives_of_firsts {scanner after : Scanner} {tokens : List Token} (count : Nat)
    (read : scanner.firsts count = some (tokens, after)) : scanner.Gives tokens after := by
  induction count generalizing scanner tokens with
  | zero =>
    cases read
    exact .nil _
  | succ count ih =>
    unfold firsts at read
    split at read
    next token middle first =>
      obtain ⟨⟨others, last⟩, rest, same⟩ := Option.map_eq_some_iff.mp read
      cases same
      exact .cons first (ih rest)
    next => cases read

/-- What is given does not depend on when one stops asking. -/
theorem Gives.comparable {scanner after after' : Scanner} {tokens tokens' : List Token}
    (gives : scanner.Gives tokens after) (gives' : scanner.Gives tokens' after') :
    (∃ more, tokens' = tokens ++ more ∧ after.Gives more after') ∨
      ∃ more, tokens = tokens' ++ more ∧ after'.Gives more after := by
  induction gives generalizing tokens' with
  | nil scanner => exact .inl ⟨tokens', rfl, gives'⟩
  | cons first rest ih =>
    cases gives' with
    | nil => exact .inr ⟨_, rfl, .cons first rest⟩
    | cons first' rest' =>
      obtain ⟨same, rfl⟩ := Prod.mk.inj (first.symm.trans first')
      obtain rfl := Except.ok.inj same
      rcases ih rest' with ⟨more, rfl, later⟩ | ⟨more, rfl, later⟩
      · exact .inl ⟨more, rfl, later⟩
      · exact .inr ⟨more, rfl, later⟩

theorem moves_of_next {scanner after : Scanner} {token : Token}
    (found : scanner.next = (.ok token, after)) : Moves scanner.modes token.kind after.modes := by
  obtain ⟨gap, text, later, cuts⟩ := next_ok_iff.mp found
  exact cuts.finds.moves.1

/-- The modes around a token, when its kind and the modes before are known. -/
theorem Gives.moves {scanner after : Scanner} {token : Token} {kind : Kind} {modes : List Mode}
    (gives : scanner.Gives [token] after) (isKind : token.kind = kind)
    (before : scanner.modes = modes) : Moves modes kind after.modes := by
  rw [← isKind, ← before]
  exact moves_of_next (gives_singleton_iff.mp gives)

section Enclosed

variable {scanner after : Scanner} {start stop : Token} {tokens : List Token}

theorem Gives.enclosed (gives : scanner.Gives (start :: (tokens ++ [stop])) after) :
    ∃ opening closing, scanner.next = (.ok start, opening) ∧ opening.Gives tokens closing ∧
      closing.Gives [stop] after := by
  obtain ⟨opening, first, rest⟩ := gives_cons_iff.mp gives
  obtain ⟨closing, between, last⟩ := gives_append_iff.mp rest
  exact ⟨opening, closing, first, between, last⟩

/-- What follows an open quote is given inside a template. -/
theorem Gives.quoted (gives : scanner.Gives (start :: (tokens ++ [stop])) after)
    (opened : start.kind = .openQuote) :
    ∃ opening closing below, scanner.next = (.ok start, opening) ∧
      opening.modes = .template :: below ∧ opening.Gives tokens closing ∧
      closing.Gives [stop] after := by
  obtain ⟨opening, closing, first, between, last⟩ := gives.enclosed
  have opens := (gives_singleton_iff.mpr first).moves opened rfl
  obtain ⟨below, inside⟩ := opens.of_openQuote
  exact ⟨opening, closing, below, first, inside, between, last⟩

/-- What follows an open bracket is given inside a list. -/
theorem Gives.bracketed (gives : scanner.Gives (start :: (tokens ++ [stop])) after)
    (opened : start.kind = .openBracket) :
    ∃ opening closing below, scanner.next = (.ok start, opening) ∧
      opening.modes = .list :: below ∧ opening.Gives tokens closing ∧
      closing.Gives [stop] after := by
  obtain ⟨opening, closing, first, between, last⟩ := gives.enclosed
  have opens := (gives_singleton_iff.mpr first).moves opened rfl
  obtain ⟨below, inside⟩ := opens.of_openBracket
  exact ⟨opening, closing, below, first, inside, between, last⟩

end Enclosed

theorem Gives.stacked {file source : String} {tokens : List Token} {after : Scanner}
    (gives : (ofSource file source).Gives tokens after) (unended : Unended tokens) :
    Stacked after.modes := by
  have start : Stacked (ofSource file source).modes := .nested .top
  generalize ofSource file source = scanner at gives start
  induction gives with
  | nil scanner => exact start
  | cons found rest ih =>
    obtain ⟨real, others⟩ := List.forall_mem_cons.mp unended
    exact ih others ((moves_of_next found).stacked start real)

/-- The last token is given again, and nothing changes any more. -/
theorem next_of_finish {scanner after : Scanner} {token : Token}
    (found : scanner.next = (.ok token, after)) (last : token.kind = .finish) :
    after.next = (.ok token, after) := by
  obtain ⟨gap, text, later, cuts⟩ := next_ok_iff.mp found
  obtain ⟨moves, empty⟩ := cuts.finds.moves
  obtain rfl := empty last
  rw [last] at moves
  have finds := moves.finds_again after.cursor.onBlankLine after.cursor.rest
  rw [← last] at finds
  -- the scanner has not moved, so the place of the token is the same again
  have place : token.span = after.cursor.locate after.file [] := by
    rw [cuts.place, cuts.cursor, cuts.file]
    rfl
  exact next_ok_iff.mpr ⟨[], [], after.cursor.rest, rfl, finds, cuts.lexeme, place, rfl, rfl⟩

theorem report_of_fault {found : Found} (fault : ∀ kind text, found ≠ .token kind text)
    (file : String) (cursor : Cursor) :
    ∃ diagnostic, report file cursor found = .error diagnostic := by
  cases found with
  | token kind text => exact absurd rfl (fault kind text)
  | badCharacter | unfinished => exact ⟨_, rfl⟩

theorem Misses.left {scanner after : Scanner} {gap later : List Char} {found : Found}
    {fault : Diagnostic} (misses : scanner.Misses gap found later fault after) :
    after.cursor.rest = later := by
  rw [misses.cursor]
  exact Cursor.rest_behind (Cursor.rest_behind misses.rest)

/-- After a fault the same is missed again, and nothing changes any more. -/
theorem Misses.again {scanner stuck : Scanner} {gap later : List Char} {found : Found}
    {fault : Diagnostic} (misses : scanner.Misses gap found later fault stuck) :
    ∃ fault', stuck.Misses [] found.again later fault' stuck := by
  have finds := misses.finds.again misses.no_token stuck.cursor.onBlankLine
  obtain ⟨missing, empty⟩ : (∀ kind text, found.again ≠ .token kind text) ∧
      found.again.taken = [] := by
    cases found with
    | token kind text => exact absurd rfl (misses.no_token kind text)
    | badCharacter | unfinished => exact ⟨by simp [Found.again], rfl⟩
  obtain ⟨fault', reported⟩ := report_of_fault missing stuck.file stuck.cursor
  refine ⟨fault', ⟨?_, finds, reported, rfl, ?_⟩⟩
  · rw [empty, misses.left]
    rfl
  · rw [empty]
    rfl

theorem next_of_error {scanner stuck : Scanner} {fault : Diagnostic}
    (faulty : scanner.next = (.error fault, stuck)) :
    ∃ fault', stuck.next = (.error fault', stuck) := by
  obtain ⟨gap, found, later, misses⟩ := next_error_iff.mp faulty
  obtain ⟨fault', missed⟩ := misses.again
  exact ⟨fault', next_error_iff.mpr ⟨_, _, _, missed⟩⟩

theorem Gives.again {scanner after : Scanner} {front : List Token} {stop : Token}
    (gives : scanner.Gives (front ++ [stop]) after) (finished : stop.kind = .finish) :
    scanner.Gives (front ++ [stop, stop]) after := by
  obtain ⟨middle, before, last⟩ := gives_append_iff.mp gives
  have found := gives_singleton_iff.mp last
  exact gives_append_iff.mpr
    ⟨middle, before, .cons found (gives_singleton_iff.mpr (next_of_finish found finished))⟩

theorem Gives.still {scanner after : Scanner} {token : Token} {tokens : List Token}
    (gives : scanner.Gives tokens after) (again : scanner.next = (.ok token, scanner)) :
    after = scanner := by
  induction tokens with
  | nil => exact gives_nil_iff.mp gives
  | cons second tokens ih =>
    obtain ⟨next, first, rest⟩ := gives_cons_iff.mp gives
    obtain ⟨_, rfl⟩ := Prod.mk.inj (again.symm.trans first)
    exact ih rest

/-- Behind the end of the input nothing else comes any more. -/
theorem Gives.unended {scanner after : Scanner} {tokens : List Token}
    (gives : scanner.Gives tokens after) (more : after.mode ≠ .finished) : Unended tokens := by
  induction gives with
  | nil scanner => exact nofun
  | cons found rest ih =>
    refine List.forall_mem_cons.mpr ⟨fun last => ?_, ih more⟩
    rw [rest.still (next_of_finish found last)] at more
    have moves := moves_of_next found
    rw [last] at moves
    exact more moves.headD_of_finish

theorem Gives.stuck {scanner after stuck : Scanner} {tokens : List Token} {fault : Diagnostic}
    (gives : scanner.Gives tokens after) (faulty : scanner.next = (.error fault, stuck)) :
    after = scanner := by
  cases gives with
  | nil => rfl
  | cons first rest =>
    rw [faulty] at first
    cases first

/-- The first fault of the text is this one, if it is asked for its tokens long enough. -/
def Faults (scanner : Scanner) (fault : Diagnostic) : Prop :=
  ∃ tokens after stuck, scanner.Gives tokens after ∧ after.next = (.error fault, stuck)

theorem not_faults_of_finish {scanner after : Scanner} {front : List Token} {stop : Token}
    (gives : scanner.Gives (front ++ [stop]) after) (finished : stop.kind = .finish)
    (fault : Diagnostic) : ¬scanner.Faults fault := by
  rintro ⟨tokens, last, stuck, gives', faulty⟩
  obtain ⟨middle, _, found⟩ := gives_append_iff.mp gives
  have again := next_of_finish (gives_singleton_iff.mp found) finished
  -- whichever of the two runs is longer does not get any further than the other
  have same : last = after := by
    rcases gives.comparable gives' with ⟨more, _, later⟩ | ⟨more, _, later⟩
    · exact later.still again
    · exact (later.stuck faulty).symm
  rw [same, again] at faulty
  cases faulty

theorem Faults.unique {scanner : Scanner} {fault fault' : Diagnostic}
    (faults : scanner.Faults fault) (faults' : scanner.Faults fault') : fault = fault' := by
  obtain ⟨tokens, after, stuck, gives, faulty⟩ := faults
  obtain ⟨tokens', after', stuck', gives', faulty'⟩ := faults'
  have same : after' = after := by
    rcases gives.comparable gives' with ⟨more, _, later⟩ | ⟨more, _, later⟩
    · exact later.stuck faulty
    · exact (later.stuck faulty').symm
  rw [same, faulty] at faulty'
  cases faulty'
  rfl

/-! ## All tokens -/

theorem tokens_of_error {scanner after : Scanner} {fault : Diagnostic}
    (found : scanner.next = (.error fault, after)) : scanner.tokens = (.error fault, after) := by
  unfold tokens
  split
  next fault' after' found' =>
    rw [found] at found'
    cases found'
    rfl
  next token after' found' =>
    rw [found] at found'
    cases found'

theorem tokens_of_ok {scanner after : Scanner} {token : Token}
    (found : scanner.next = (.ok token, after)) :
    scanner.tokens = if token.kind = .finish then (.ok [token], after)
      else (after.tokens.1.map (token :: ·), after.tokens.2) := by
  conv => lhs; unfold tokens
  split
  next fault' after' found' =>
    rw [found] at found'
    cases found'
  next token' after' found' =>
    rw [found] at found'
    cases found'
    simp

/-- Reading all tokens ends with the last one or with the first fault. -/
theorem tokens_cases (scanner : Scanner) :
    (∃ front stop after, scanner.tokens = (.ok (front ++ [stop]), after) ∧ Unended front ∧
      stop.kind = .finish ∧ scanner.Gives (front ++ [stop]) after) ∨
    (∃ tokens middle fault after, scanner.tokens = (.error fault, after) ∧ Unended tokens ∧
      scanner.Gives tokens middle ∧ middle.next = (.error fault, after)) := by
  cases found : scanner.next with
  | mk result after =>
    cases result with
    | error fault =>
      exact .inr ⟨[], scanner, fault, after, tokens_of_error found, nofun, .nil scanner, found⟩
    | ok token =>
      -- a token before the last makes the rest shorter, and what follows it decides
      rw [tokens_of_ok found]
      by_cases last : token.kind = .finish
      · exact .inl ⟨[], token, after, by simp [last], nofun, last, gives_singleton_iff.mpr found⟩
      · simp only [last, if_false]
        rcases after.tokens_cases with ⟨front, stop, after', all, unended, stopped, gives⟩ |
          ⟨tokens, middle, fault, after', all, unended, gives, faulty⟩
        · refine .inl ⟨token :: front, stop, after', ?_, ?_, stopped, .cons found gives⟩
          · rw [all]
            rfl
          · exact List.forall_mem_cons.mpr ⟨last, unended⟩
        · refine .inr ⟨token :: tokens, middle, fault, after', ?_, ?_, .cons found gives, faulty⟩
          · rw [all]
            rfl
          · exact List.forall_mem_cons.mpr ⟨last, unended⟩
termination_by scanner.cursor.rest.length
decreasing_by exact next_shrinks found last

/-- All tokens are tokens that are given one by one, and the last one is the only last one. -/
theorem gives_of_tokens {scanner after : Scanner} {tokens : List Token}
    (all : scanner.tokens = (.ok tokens, after)) :
    ∃ front stop, tokens = front ++ [stop] ∧ Unended front ∧ stop.kind = .finish ∧
      scanner.Gives (front ++ [stop]) after := by
  rcases scanner.tokens_cases with ⟨front, stop, after', all', unended, finished, gives⟩ |
    ⟨_, _, fault, after', all', _⟩
  · rw [all] at all'
    cases all'
    exact ⟨front, stop, rfl, unended, finished, gives⟩
  · rw [all] at all'
    cases all'

theorem tokens_of_gives {scanner after : Scanner} {front : List Token} {stop : Token}
    (gives : scanner.Gives (front ++ [stop]) after) (unended : Unended front)
    (finished : stop.kind = .finish) : scanner.tokens = (.ok (front ++ [stop]), after) := by
  induction front generalizing scanner with
  | nil =>
    rw [tokens_of_ok (gives_singleton_iff.mp gives)]
    simp [finished]
  | cons token front ih =>
    obtain ⟨real, others⟩ := List.forall_mem_cons.mp unended
    obtain ⟨middle, first, rest⟩ := gives_cons_iff.mp gives
    rw [tokens_of_ok first, ih rest others]
    simp [real, Except.map]

/-- The tokens of a fixed source are read off by computing them. -/
theorem tokens_of_firsts {scanner middle after : Scanner} {front : List Token} {stop : Token}
    (count : Nat) (read : scanner.firsts count = some (front, middle))
    (ended : middle.next = (.ok stop, after)) (unended : Unended front)
    (finished : stop.kind = .finish) : scanner.tokens = (.ok (front ++ [stop]), after) :=
  tokens_of_gives ((gives_of_firsts count read).snoc ended) unended finished

theorem tokens_of_faulty {scanner middle after : Scanner} {front : List Token}
    {fault : Diagnostic} (gives : scanner.Gives front middle) (unended : Unended front)
    (faulty : middle.next = (.error fault, after)) : scanner.tokens = (.error fault, after) := by
  induction gives with
  | nil scanner => exact tokens_of_error faulty
  | cons first rest ih =>
    obtain ⟨real, others⟩ := List.forall_mem_cons.mp unended
    rw [tokens_of_ok first, ih others faulty]
    simp [real, Except.map]

theorem tokens_ok_iff {scanner : Scanner} {tokens : List Token} :
    scanner.tokens.1 = .ok tokens ↔ ∃ front stop after, tokens = front ++ [stop] ∧
      Unended front ∧ stop.kind = .finish ∧ scanner.Gives (front ++ [stop]) after := by
  constructor
  · intro all
    obtain ⟨front, stop, split, unended, finished, gives⟩ :=
      gives_of_tokens (Prod.ext all (Eq.refl scanner.tokens.2))
    exact ⟨front, stop, _, split, unended, finished, gives⟩
  · rintro ⟨front, stop, after, rfl, unended, finished, gives⟩
    rw [tokens_of_gives gives unended finished]

end Scanner
end TextGrammar
