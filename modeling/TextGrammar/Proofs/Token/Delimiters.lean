import TextGrammar.Proofs.Token.Stream

/-!
# Open delimiters

Whatever a scanner is asked, and also when it is asked again after a fault, its modes stay in order,
and the templates and lists among them are the opening delimiters that it has given and that are not
closed yet. So the delimiters of a source that can be read to its end match, and a hash, a comma, a
header or a line break is only there where its mode is.
-/
namespace TextGrammar

/-! ## The order of modes -/

/-- What a mode says about the modes above it and below it. -/
def Mode.Fits (above : List Mode) (mode : Mode) (below : List Mode) : Prop :=
  match mode with
  | .top => below = []
  | .lineStart | .finished => above = [] ∧ below.head? = some .top
  | .name => above = [] ∧ (below.head? = some .top ∨ below.head? = some .template)
  | .template => below.head? ≠ some .template
  | .list => True

structure InOrder (modes : List Mode) : Prop where
  bottom : modes.getLast? = some .top
  each : ∀ above mode below, modes = above ++ mode :: below → mode.Fits above below

/-- The modes of a nested stack fit whatever is put on the stack. -/
theorem Nested.fits {modes above below : List Mode} {mode : Mode} (nested : Nested modes)
    (split : modes = above ++ mode :: below) (higher : List Mode) : mode.Fits higher below := by
  -- the mode is the highest one, about which the rule speaks, or it is one of the stack below
  induction nested generalizing above with
  | top =>
    cases above with
    | nil =>
      cases split
      rfl
    | cons first above => cases above <;> cases split
  | template inner apart ih =>
    cases above with
    | nil =>
      cases split
      exact apart
    | cons first above => exact ih (List.cons.inj split).2
  | list inner ih =>
    cases above with
    | nil =>
      cases split
      trivial
    | cons first above => exact ih (List.cons.inj split).2

theorem Nested.bottom {modes : List Mode} (nested : Nested modes) :
    modes.getLast? = some .top := by
  induction nested with
  | top => rfl
  | template inner apart ih | list inner ih => rw [List.getLast?_cons, ih]; rfl

theorem Nested.inOrder {modes : List Mode} (nested : Nested modes) : InOrder modes :=
  ⟨nested.bottom, fun above _ _ split => nested.fits split above⟩

/-- One more mode fits on a nested stack if it fits there as the highest one. -/
theorem Nested.inOrder_cons {mode : Mode} {below : List Mode} (nested : Nested below)
    (fits : mode.Fits [] below) : InOrder (mode :: below) := by
  refine ⟨by rw [List.getLast?_cons, nested.bottom]; rfl, ?_⟩
  intro above mode' below' split
  cases above with
  | nil =>
    cases split
    exact fits
  | cons first above => exact nested.fits (List.cons.inj split).2 _

/-- All stacks that there are: those before the end, a name at the top level that is not there yet,
and the end. -/
inductive Orderly : List Mode → Prop where
  | stacked {modes : List Mode} (stacked : Stacked modes) : Orderly modes
  | title : Orderly [.name, .top]
  | finished : Orderly [.finished, .top]

theorem Orderly.inOrder {modes : List Mode} (orderly : Orderly modes) : InOrder modes := by
  cases orderly with
  | stacked stacked =>
    cases stacked with
    | nested inner => exact inner.inOrder
    | lineStart => exact Nested.top.inOrder_cons ⟨rfl, rfl⟩
    | name inner => exact inner.inOrder_cons ⟨rfl, .inr rfl⟩
  | title => exact Nested.top.inOrder_cons ⟨rfl, .inl rfl⟩
  | finished => exact Nested.top.inOrder_cons ⟨rfl, rfl⟩

theorem AtTop.of_orderly {modes base : List Mode} (top : AtTop modes base)
    (orderly : Orderly modes) : base = [.top] := by
  cases orderly with
  | stacked stacked => exact top.eq_top stacked
  | title | finished => cases top

theorem Moves.of_finish {modes modes' : List Mode} (moves : Moves modes .finish modes')
    (orderly : Orderly modes) : modes' = [.finished, .top] := by
  cases moves with
  | finish top => rw [top.of_orderly orderly]
  | finished below =>
    cases orderly with
    | stacked stacked =>
      cases stacked with
      | nested inner => cases inner
    | finished => rfl
  | none =>
    cases orderly with
    | stacked stacked =>
      cases stacked with
      | nested inner => cases inner

theorem Moves.orderly {modes modes' : List Mode} {kind : Kind} (moves : Moves modes kind modes')
    (orderly : Orderly modes) : Orderly modes' := by
  -- the last token leaves one stack only, whichever it is given in
  by_cases last : kind = .finish
  · rw [last] at moves
    rw [moves.of_finish orderly]
    exact .finished
  · cases orderly with
    | stacked stacked => exact .stacked (moves.stacked stacked last)
    | title =>
      obtain ⟨_, rfl⟩ := moves.of_name
      exact .stacked (.nested .top)
    | finished =>
      cases moves with
      | finished => exact .finished
      | finish top | lineBreak top | openTemplate top | openList top | head top | title top =>
        cases top

theorem Stalls.orderly {modes modes' : List Mode} (stalls : Stalls modes modes')
    (orderly : Orderly modes) : Orderly modes' := by
  cases stalls with
  | stay => exact orderly
  | title top =>
    rw [top.of_orderly orderly]
    exact .title

/-! ## What is open -/

def Mode.opener? : Mode → Option Kind
  | .template => some .openQuote
  | .list => some .openBracket
  | .top | .lineStart | .name | .finished => none

/-- The opening delimiters that these modes stand for, innermost first. -/
def openers (modes : List Mode) : List Kind := modes.filterMap Mode.opener?

/-- What is open after a token of this kind. A closing delimiter needs its opening one to be the
innermost. -/
def settle (opened : List Kind) (kind : Kind) : Option (List Kind) :=
  match kind, opened with
  | .openQuote, _ | .openBracket, _ => some (kind :: opened)
  | .closeQuote, .openQuote :: outer | .closeBracket, .openBracket :: outer => some outer
  | .closeQuote, _ | .closeBracket, _ => none
  | _, _ => some opened

/-- The opening delimiters that are not closed, innermost first, if every closing one matches. -/
def unmatched? (tokens : List Token) : Option (List Kind) :=
  (tokens.map Token.kind).foldlM settle []

theorem unmatched?_append (front back : List Token) :
    unmatched? (front ++ back) =
      (unmatched? front).bind fun opened => (back.map Token.kind).foldlM settle opened := by
  rw [unmatched?, List.map_append, List.foldlM_append]
  rfl

theorem AtTop.openers_eq {modes base : List Mode} (top : AtTop modes base) :
    openers base = openers modes := by
  cases top <;> rfl

/-- What is open changes as the modes do. -/
theorem Moves.settle {modes modes' : List Mode} {kind : Kind} (moves : Moves modes kind modes') :
    settle (openers modes) kind = some (openers modes') := by
  cases moves with
  | finish top | lineBreak top | openTemplate top | openList top | head top | title top =>
    -- what is used up at the top level is no delimiter
    rw [← top.openers_eq]
    rfl
  | text | closeTemplate | hash | listInTemplate | name | item | comma | closeList
  | templateInList | listInList | finished | none => rfl

theorem Stalls.openers_eq {modes modes' : List Mode} (stalls : Stalls modes modes') :
    openers modes' = openers modes := by
  cases stalls with
  | stay => rfl
  | title top => exact top.openers_eq

/-! ## Runs -/

/-- The modes are in order, and what is open in them is what is open in the tokens given. -/
structure Balanced (modes : List Mode) (tokens : List Token) : Prop where
  orderly : Orderly modes
  unmatched : unmatched? tokens = some (openers modes)

theorem Balanced.start : Balanced [.top] [] := ⟨.stacked (.nested .top), rfl⟩

namespace Scanner

theorem stalls_of_next {scanner after : Scanner} {fault : Diagnostic}
    (faulty : scanner.next = (.error fault, after)) : Stalls scanner.modes after.modes := by
  obtain ⟨gap, found, later, misses⟩ := next_error_iff.mp faulty
  exact misses.finds.stalls misses.no_token

theorem balanced_of_token {scanner after : Scanner} {tokens : List Token} {token : Token}
    (found : scanner.next = (.ok token, after)) (balanced : Balanced scanner.modes tokens) :
    Balanced after.modes (tokens ++ [token]) := by
  have moves := moves_of_next found
  refine ⟨moves.orderly balanced.orderly, ?_⟩
  rw [unmatched?_append, balanced.unmatched]
  simpa using moves.settle

theorem balanced_of_fault {scanner after : Scanner} {tokens : List Token} {fault : Diagnostic}
    (faulty : scanner.next = (.error fault, after)) (balanced : Balanced scanner.modes tokens) :
    Balanced after.modes tokens := by
  have stalls := stalls_of_next faulty
  refine ⟨stalls.orderly balanced.orderly, ?_⟩
  rw [stalls.openers_eq, balanced.unmatched]

theorem Gives.balanced {scanner after : Scanner} {given tokens : List Token}
    (gives : scanner.Gives tokens after) (start : Balanced scanner.modes given) :
    Balanced after.modes (given ++ tokens) := by
  induction gives generalizing given with
  | nil scanner => simpa using start
  | cons first rest ih =>
    rw [List.append_cons]
    exact ih (balanced_of_token first start)

/-- A scanner is asked for the next token or for all of them. -/
inductive Call where
  | next
  | all
  deriving DecidableEq, Repr

/-- Asked this, one after the other and also after a fault, the scanner gives these tokens and is
left as `after`. The tokens in front of a fault are given as well. -/
inductive Answers : Scanner → List Call → List Token → Scanner → Prop where
  | nil (scanner : Scanner) : Answers scanner [] [] scanner
  | token {scanner middle after : Scanner} {token : Token} {calls : List Call}
      {tokens : List Token} (first : scanner.next = (.ok token, middle))
      (rest : Answers middle calls tokens after) :
      Answers scanner (.next :: calls) (token :: tokens) after
  | fault {scanner middle after : Scanner} {fault : Diagnostic} {calls : List Call}
      {tokens : List Token} (first : scanner.next = (.error fault, middle))
      (rest : Answers middle calls tokens after) :
      Answers scanner (.next :: calls) tokens after
  | all {scanner middle after : Scanner} {calls : List Call} {front tokens : List Token}
      (first : scanner.tokens = (.ok front, middle)) (rest : Answers middle calls tokens after) :
      Answers scanner (.all :: calls) (front ++ tokens) after
  | broken {scanner last middle after : Scanner} {fault : Diagnostic} {calls : List Call}
      {front tokens : List Token} (first : scanner.tokens = (.error fault, middle))
      (gives : scanner.Gives front last) (faulty : last.next = (.error fault, middle))
      (rest : Answers middle calls tokens after) :
      Answers scanner (.all :: calls) (front ++ tokens) after

theorem exists_answers (calls : List Call) (scanner : Scanner) :
    ∃ tokens after, scanner.Answers calls tokens after := by
  induction calls generalizing scanner with
  | nil => exact ⟨[], scanner, .nil scanner⟩
  | cons call calls ih =>
    cases call with
    | next =>
      cases first : scanner.next with
      | mk result middle =>
        obtain ⟨tokens, after, rest⟩ := ih middle
        cases result with
        | ok token => exact ⟨token :: tokens, after, .token first rest⟩
        | error fault => exact ⟨tokens, after, .fault first rest⟩
    | all =>
      rcases scanner.tokens_cases with ⟨front, stop, middle, first, _⟩ |
        ⟨front, last, fault, middle, first, _, gives, faulty⟩
      · obtain ⟨tokens, after, rest⟩ := ih middle
        exact ⟨_, after, .all first rest⟩
      · obtain ⟨tokens, after, rest⟩ := ih middle
        exact ⟨_, after, .broken first gives faulty rest⟩

theorem Answers.balanced {scanner after : Scanner} {calls : List Call} {given tokens : List Token}
    (answers : scanner.Answers calls tokens after) (start : Balanced scanner.modes given) :
    Balanced after.modes (given ++ tokens) := by
  -- to be asked for all tokens is to be asked for one after the other, up to the end or a fault
  induction answers generalizing given with
  | nil scanner => simpa using start
  | token first rest ih =>
    rw [List.append_cons]
    exact ih (balanced_of_token first start)
  | fault first rest ih => exact ih (balanced_of_fault first start)
  | all first rest ih =>
    obtain ⟨_, _, rfl, _, _, gives⟩ := gives_of_tokens first
    rw [← List.append_assoc]
    exact ih (gives.balanced start)
  | broken first gives faulty rest ih =>
    rw [← List.append_assoc]
    exact ih (balanced_of_fault faulty (gives.balanced start))

end Scanner

/-! ## A whole source -/

/-- Where a token may stand: what is open in front of it, and what comes behind it. -/
def Token.InPlace (opened : List Kind) (token : Token) (later : List Token) : Prop :=
  match token.kind with
  | .hash => opened.head? = some .openQuote ∧ later.head?.map Token.kind = some .name
  | .comma => opened.head? = some .openBracket
  | .head | .lineBreak => opened = []
  | _ => True

/-- A token is in its place if only the last one has nothing behind it. -/
theorem Scanner.inPlace {scanner middle after : Scanner} {token : Token} {back : List Token}
    (orderly : Orderly scanner.modes) (found : scanner.next = (.ok token, middle))
    (gives : middle.Gives back after) (last : back = [] → token.kind = .finish) :
    token.InPlace (openers scanner.modes) back := by
  have moves := moves_of_next found
  have outer (header : token.kind = .head ∨ token.kind = .lineBreak) :
      openers scanner.modes = [] := by
    obtain ⟨base, top⟩ := moves.at_top header
    rw [← top.openers_eq, top.of_orderly orderly]
    rfl
  unfold Token.InPlace
  split
  next isHash =>
    rw [isHash] at moves
    obtain ⟨below, before, behind⟩ := moves.of_hash
    refine ⟨by rw [before]; rfl, ?_⟩
    -- a hash is not the last token, and the one behind it is read in the mode of names
    cases gives with
    | nil => cases isHash.symm.trans (last rfl)
    | cons first rest =>
      have named := moves_of_next first
      rw [behind] at named
      simp [named.of_name.1]
  next isComma =>
    rw [isComma] at moves
    obtain ⟨below, before⟩ := moves.of_comma
    rw [before]
    rfl
  next isHead => exact outer (.inl isHead)
  next isBreak => exact outer (.inr isBreak)
  next => trivial

/-- The tokens of a source that can be read to its end. -/
structure Delimited (tokens : List Token) : Prop where
  matched : unmatched? tokens = some []
  each : ∀ front token back, tokens = front ++ token :: back →
    ∃ opened, unmatched? front = some opened ∧ token.InPlace opened back

theorem delimited_of_tokensOf {file source : String} {tokens : List Token}
    (read : tokensOf file source = .ok tokens) : Delimited tokens := by
  obtain ⟨body, stop, after, rfl, _, finished, gives⟩ := Scanner.tokens_ok_iff.mp read
  have start : Balanced (Scanner.ofSource file source).modes [] := .start
  constructor
  · have balanced : Balanced after.modes (body ++ [stop]) := gives.balanced start
    obtain ⟨middle, before, last⟩ := Scanner.gives_append_iff.mp gives
    have moves := Scanner.moves_of_next (Scanner.gives_singleton_iff.mp last)
    rw [finished] at moves
    rw [balanced.unmatched, moves.of_finish (before.balanced start).orderly]
    rfl
  · intro front token back split
    -- with nothing behind it the token is the one that ends the source
    have ending : back = [] → token.kind = .finish := by
      rintro rfl
      rwa [← List.singleton_inj.mp (List.append_inj_right' split rfl)]
    rw [split] at gives
    obtain ⟨here, before, rest⟩ := Scanner.gives_append_iff.mp gives
    obtain ⟨behind, found, later⟩ := Scanner.gives_cons_iff.mp rest
    have balanced : Balanced here.modes front := before.balanced start
    exact ⟨_, balanced.unmatched, Scanner.inPlace balanced.orderly found later ending⟩

/-- Whatever a scanner has been asked, its modes are in order and stand for the delimiters that are
open in the tokens that it has given; at the end of a source nothing is open. -/
theorem answers_balanced (file source : String) :
    (∀ calls, ∃ tokens after, (Scanner.ofSource file source).Answers calls tokens after) ∧
    (∀ calls tokens after, (Scanner.ofSource file source).Answers calls tokens after →
      InOrder after.modes ∧ unmatched? tokens = some (openers after.modes)) ∧
    ∀ tokens, tokensOf file source = .ok tokens → Delimited tokens := by
  refine ⟨fun calls => Scanner.exists_answers calls _, ?_, fun _ => delimited_of_tokensOf⟩
  intro calls tokens after answers
  have balanced := answers.balanced Balanced.start
  exact ⟨balanced.orderly.inOrder, balanced.unmatched⟩

/-- A reference in a template in a list, where the source ends too early and where it does not. -/
theorem answers_balanced_nested :
    (∃ tokens after, (Scanner.ofSource "" "[\"#b-").Answers [.all, .next] tokens after ∧
      tokens.map Token.lexeme = ["[", "\"", "#"] ∧
      after.modes = [.name, .template, .list, .top] ∧ InOrder after.modes ∧
      unmatched? tokens = some [.openQuote, .openBracket]) ∧
    ∃ tokens, tokensOf "" "[\"#b-\"]" = .ok tokens ∧
      tokens.map Token.lexeme = ["[", "\"", "#", "b", "-", "\"", "]", ""] ∧ Delimited tokens := by
  constructor
  · obtain ⟨front, last, fault, middle, again, after, gives, unended, faulty, stuck, lexemes,
        modes⟩ : ∃ front last fault middle again after,
          (Scanner.ofSource "" "[\"#b-").Gives front last ∧ Unended front ∧
          last.next = (.error fault, middle) ∧ middle.next = (.error again, after) ∧
          front.map Token.lexeme = ["[", "\"", "#"] ∧
          after.modes = [.name, .template, .list, .top] :=
      ⟨_, _, _, _, _, _, Scanner.gives_of_firsts 3 rfl, by decide, rfl, rfl, by decide, rfl⟩
    have answers := Scanner.Answers.broken (Scanner.tokens_of_faulty gives unended faulty) gives
      faulty (.fault stuck (.nil after))
    obtain ⟨ordered, unmatched⟩ := (answers_balanced "" "[\"#b-").2.1 _ _ _ answers
    rw [List.append_nil] at answers unmatched
    rw [modes] at unmatched
    exact ⟨front, after, answers, lexemes, modes, ordered, unmatched⟩
  · obtain ⟨tokens, read, lexemes⟩ : ∃ tokens, tokensOf "" "[\"#b-\"]" = .ok tokens ∧
        tokens.map Token.lexeme = ["[", "\"", "#", "b", "-", "\"", "]", ""] :=
      ⟨_, congrArg Prod.fst (Scanner.tokens_of_firsts 7 rfl rfl (by decide) rfl), by decide⟩
    exact ⟨tokens, read, lexemes, (answers_balanced "" "[\"#b-\"]").2.2 _ read⟩

end TextGrammar
