import Mathlib.Data.List.Basic
import TextGrammar.Proofs.Tree.Lines
import TextGrammar.Proofs.Tree.Reached

/-!
# Parsing reads the tokens of the source

A window that moves over the tokens runs a reader through them, so long as the token after next is
no fault. With the whole of the tokens at hand, a source is parsed just when its tokens are a
sentence of the grammar, and the result is the tree of that sentence.
-/
namespace TextGrammar

namespace Reader

variable {σ α : Type} {reader : Reader σ α} {state next : σ} {window moved : Window}

theorem run_more (real : window.current.kind ≠ .finish)
    (taken : reader.step state window.current = .more next)
    (moves : window.advance = (.ok (), moved)) :
    reader.run state window = reader.run next moved := by
  conv => lhs; unfold run
  simp only [real, dite_false, taken]
  split
  next window' moves' =>
    rw [moves] at moves'
    cases moves'
    rfl
  next fault window' moves' =>
    rw [moves] at moves'
    cases moves'

theorem run_blocked {fault : Diagnostic} (real : window.current.kind ≠ .finish)
    (taken : reader.step state window.current = .more next)
    (blocked : window.advance = (.error fault, moved)) :
    reader.run state window = (.error fault, moved) := by
  unfold run
  simp only [real, dite_false, taken]
  split
  next window' moves' =>
    rw [blocked] at moves'
    cases moves'
  next fault' window' moves' =>
    rw [blocked] at moves'
    cases moves'
    rfl

theorem run_refuse {expected : Option Kind} (real : window.current.kind ≠ .finish)
    (refused : reader.step state window.current = .refuse expected) :
    reader.run state window = (.error (window.unexpected expected), window) := by
  unfold run
  simp only [real, dite_false, refused]

theorem run_done {result : α} {answer : Except Diagnostic Unit}
    (real : window.current.kind ≠ .finish)
    (done : reader.step state window.current = .done result)
    (moves : window.advance = (answer, moved)) :
    reader.run state window = (answer.map fun _ => result, moved) := by
  unfold run
  simp only [real, dite_false, done, moves]

theorem run_complete {result : α} (last : window.current.kind = .finish)
    (complete : reader.atEnd state = .ok result) :
    reader.run state window = (.ok result, window) := by
  unfold run
  simp only [last, dite_true, complete]

theorem run_exhausted {context : Option String} (last : window.current.kind = .finish)
    (incomplete : reader.atEnd state = .error context) :
    reader.run state window = (.error (window.exhausted context), window) := by
  unfold run
  simp only [last, dite_true, incomplete]

end Reader

namespace Window

/-- The window stands on the first of these tokens, and the scanner has those behind the second
still to give. -/
inductive Shows : Window → List Token → Scanner → Prop where
  | intro {current ahead : Token} {scanner after : Scanner} {tokens : List Token}
      (gives : scanner.Gives tokens after) :
      Shows ⟨current, ahead, scanner⟩ (current :: ahead :: tokens) after

theorem shows_ofScanner {scanner after : Scanner} {first second : Token} {tokens : List Token}
    (gives : scanner.Gives (first :: second :: tokens) after) :
    ∃ window, ofScanner scanner = .ok window ∧
      window.Shows (first :: second :: tokens) after := by
  obtain ⟨middle, found, rest⟩ := Scanner.gives_cons_iff.mp gives
  obtain ⟨scanner', found', rest⟩ := Scanner.gives_cons_iff.mp rest
  refine ⟨⟨first, second, scanner'⟩, ?_, .intro rest⟩
  simp [ofScanner, found, found']

theorem Shows.advance {window : Window} {first second third : Token} {tokens : List Token}
    {after : Scanner} (shows : window.Shows (first :: second :: third :: tokens) after) :
    window.current = first ∧ ∃ moved, window.advance = (.ok (), moved) ∧
      moved.Shows (second :: third :: tokens) after := by
  cases shows with
  | intro gives =>
    obtain ⟨scanner', found, rest⟩ := Scanner.gives_cons_iff.mp gives
    exact ⟨rfl, ⟨second, third, scanner'⟩, by simp [Window.advance, found], .intro rest⟩

end Window

theorem exists_first_two {α : Type} (front : List α) (last last' : α) :
    ∃ first second rest, front ++ [last, last'] = first :: second :: rest := by
  match front with
  | [] => exact ⟨_, _, _, rfl⟩
  | [_] => exact ⟨_, _, _, rfl⟩
  | _ :: _ :: _ => exact ⟨_, _, _, rfl⟩

/-- A reader goes through the tokens of a window up to the last two of them. -/
theorem Reader.run_steps {σ α : Type} {reader : Reader σ α} {state next : σ} {tokens : List Token}
    (taken : reader.steps state tokens = .more next) (unended : Unended tokens) {window : Window}
    {current ahead : Token} {after : Scanner}
    (shows : window.Shows (tokens ++ [current, ahead]) after) :
    reader.run state window = reader.run next ⟨current, ahead, after⟩ := by
  induction tokens generalizing state window with
  | nil =>
    cases taken
    cases shows with
    | intro gives => rw [Scanner.gives_nil_iff.mp gives]
  | cons token tokens ih =>
    obtain ⟨real, others⟩ := List.forall_mem_cons.mp unended
    obtain ⟨middle, first, rest⟩ := Reader.steps_cons_iff.mp taken
    -- there are two tokens more at the least, so that the window can move
    obtain ⟨second, third, later, split⟩ := exists_first_two tokens current ahead
    rw [List.cons_append, split] at shows
    obtain ⟨rfl, moved, moves, shows⟩ := shows.advance
    rw [← split] at shows
    rw [run_more real first moves]
    exact ih rest others shows

/-- Parsing gets to any token that nothing in front of it prevents it from getting to, when the
token after it can be had. -/
theorem parse_eq_run {file source : String} {tokens : List Token} {state : DocumentState}
    {current ahead : Token} {after : Scanner}
    (gives : (Scanner.ofSource file source).Gives (tokens ++ [current, ahead]) after)
    (taken : documentReader.steps (.between []) tokens = .more state) (unended : Unended tokens) :
    parse file source = (documentReader.run state ⟨current, ahead, after⟩).1 := by
  obtain ⟨first, second, rest, split⟩ := exists_first_two tokens current ahead
  rw [split] at gives
  obtain ⟨window, opened, shows⟩ := Window.shows_ofScanner gives
  rw [← split] at shows
  rw [← Reader.run_steps taken unended shows]
  simp only [parse, opened]

/-! ## How parsing ends -/

/-- How reading a document from fresh tokens ends. It is `refused` or `exhausted` at a token that
does not fit in, once the token after that is there; it is `blocked` by a fault of the text when the
tokens before that could be used up, except perhaps the last of them, which has not been judged by
then; or it is `complete`. -/
inductive Concludes (scanner : Scanner) : Except Diagnostic Document → Prop where
  | refused {tokens : List Token} {current ahead : Token} {after : Scanner} {state : DocumentState}
      {expected : Option Kind} (gives : scanner.Gives (tokens ++ [current, ahead]) after)
      (unended : Unended (tokens ++ [current]))
      (taken : documentReader.steps (.between []) tokens = .more state)
      (refused : documentReader.step state current = .refuse expected) :
      Concludes scanner (.error (Window.unexpected ⟨current, ahead, after⟩ expected))
  | exhausted {tokens : List Token} {stop ahead : Token} {after : Scanner} {state : DocumentState}
      {context : Option String} (gives : scanner.Gives (tokens ++ [stop, ahead]) after)
      (unended : Unended tokens) (finished : stop.kind = .finish)
      (taken : documentReader.steps (.between []) tokens = .more state)
      (incomplete : state.atEnd = .error context) :
      Concludes scanner (.error (Window.exhausted ⟨stop, ahead, after⟩ context))
  | blocked {tokens : List Token} {after stuck : Scanner} {state : DocumentState}
      {fault : Diagnostic} (gives : scanner.Gives tokens after) (unended : Unended tokens)
      (taken : documentReader.steps (.between []) tokens.dropLast = .more state)
      (faulty : after.next = (.error fault, stuck)) : Concludes scanner (.error fault)
  | complete {tokens : List Token} {stop ahead : Token} {after : Scanner} {state : DocumentState}
      {document : Document} (gives : scanner.Gives (tokens ++ [stop, ahead]) after)
      (unended : Unended tokens) (finished : stop.kind = .finish)
      (taken : documentReader.steps (.between []) tokens = .more state)
      (complete : state.atEnd = .ok document) : Concludes scanner (.ok document)

theorem parse_blocked {file source : String} {tokens : List Token} {after stuck : Scanner}
    {state : DocumentState} {fault : Diagnostic}
    (gives : (Scanner.ofSource file source).Gives tokens after) (unended : Unended tokens)
    (taken : documentReader.steps (.between []) tokens.dropLast = .more state)
    (faulty : after.next = (.error fault, stuck)) : parse file source = .error fault := by
  -- a window takes two tokens to open, so the first two faults come before any run
  rcases tokens.eq_nil_or_concat' with rfl | ⟨front, ahead, rfl⟩
  · obtain rfl := Scanner.gives_nil_iff.mp gives
    simp [parse, Window.ofScanner, faulty]
  rcases front.eq_nil_or_concat' with rfl | ⟨front, current, rfl⟩
  · have found := Scanner.gives_singleton_iff.mp gives
    simp [parse, Window.ofScanner, found, faulty]
  · rw [List.dropLast_concat, Reader.steps_append_iff] at taken
    obtain ⟨before, taken, last⟩ := taken
    rw [Reader.steps_singleton] at last
    rw [List.append_assoc] at gives unended
    obtain ⟨front_unended, last_unended⟩ := List.forall_mem_append.mp unended
    have real : current.kind ≠ .finish := last_unended current (by simp)
    have blocked : Window.advance ⟨current, ahead, after⟩ =
        (.error fault, ⟨ahead, ahead, stuck⟩) := by
      simp [Window.advance, faulty]
    rw [parse_eq_run gives taken front_unended, Reader.run_blocked real last blocked]

theorem Concludes.parse {file source : String} {result : Except Diagnostic Document}
    (concludes : Concludes (Scanner.ofSource file source) result) :
    parse file source = result := by
  cases concludes with
  | refused gives unended taken refused =>
    obtain ⟨unended, last⟩ := List.forall_mem_append.mp unended
    rw [parse_eq_run gives taken unended, Reader.run_refuse (last _ (by simp)) refused]
  | exhausted gives unended finished taken incomplete =>
    rw [parse_eq_run gives taken unended, Reader.run_exhausted finished incomplete]
  | blocked gives unended taken faulty => exact parse_blocked gives unended taken faulty
  | complete gives unended finished taken complete =>
    rw [parse_eq_run gives taken unended, Reader.run_complete finished complete]

/-- Reading a document only ends at the end of the input. -/
theorem documentReader_step_ne_done (state : DocumentState) (token : Token) (document : Document) :
    documentReader.step state token ≠ .done document := by
  have passed : ∀ blocks state, DocumentState.stepBlock blocks state token ≠ .done document := by
    intro blocks state
    unfold DocumentState.stepBlock
    cases state.step token <;> simp [Step.map]
  cases state with
  | between blocks =>
    simp only [documentReader, DocumentState.step]
    split
    · simp
    · exact passed _ _
  | block blocks state => exact passed _ _
  | after blocks =>
    simp only [documentReader, DocumentState.step]
    split <;> simp

/-- Some tokens can all be used up, or one of them is the first to be refused. -/
theorem documentReader_steps_cases (state : DocumentState) (tokens : List Token) :
    (∃ next, documentReader.steps state tokens = .more next) ∨
      ∃ front token later next expected, tokens = front ++ token :: later ∧
        documentReader.steps state front = .more next ∧
        documentReader.step next token = .refuse expected := by
  induction tokens generalizing state with
  | nil => exact .inl ⟨state, rfl⟩
  | cons token tokens ih =>
    cases step : documentReader.step state token with
    | done document => exact absurd step (documentReader_step_ne_done state token document)
    | refuse expected => exact .inr ⟨[], token, tokens, state, expected, rfl, rfl, step⟩
    | more next =>
      rcases ih next with ⟨last, taken⟩ | ⟨front, bad, later, last, expected, rfl, taken, refused⟩
      · exact .inl ⟨last, by rw [Reader.steps_cons step, taken]⟩
      · exact .inr ⟨token :: front, bad, later, last, expected, rfl,
          by rw [Reader.steps_cons step, taken], refused⟩

/-- When one more token is there, the tokens are used up or parsing ends at one of them. -/
theorem taken_or_concludes {scanner after : Scanner} {tokens : List Token} {last : Token}
    (gives : scanner.Gives (tokens ++ [last]) after) (unended : Unended tokens) :
    (∃ state, documentReader.steps (.between []) tokens = .more state) ∨
      ∃ result, Concludes scanner result := by
  rcases documentReader_steps_cases (.between []) tokens with
    taken | ⟨front, token, later, state, expected, rfl, taken, refused⟩
  · exact .inl taken
  · -- whichever token is refused, there is one after it
    obtain ⟨ahead, rest, split⟩ := List.exists_cons_of_ne_nil (List.concat_ne_nil last later)
    have ordered : front ++ token :: later ++ [last] = (front ++ [token, ahead]) ++ rest := by
      simp [split]
    rw [ordered] at gives
    obtain ⟨middle, gives, _⟩ := Scanner.gives_append_iff.mp gives
    rw [List.append_cons] at unended
    exact .inr ⟨_, .refused gives (List.forall_mem_append.mp unended).1 taken refused⟩

theorem exists_concludes (scanner : Scanner) : ∃ result, Concludes scanner result := by
  rcases scanner.tokens_cases with ⟨front, stop, after, _, unended, finished, gives⟩ |
    ⟨tokens, after, fault, stuck, _, unended, gives, faulty⟩
  · rcases taken_or_concludes gives unended with ⟨state, taken⟩ | concludes
    · have again := gives.again finished
      -- the last token comes twice, so that it can be judged
      cases ended : state.atEnd with
      | ok document => exact ⟨_, .complete again unended finished taken ended⟩
      | error context => exact ⟨_, .exhausted again unended finished taken ended⟩
    · exact concludes
  · rcases tokens.eq_nil_or_concat' with rfl | ⟨front, last, rfl⟩
    · exact ⟨_, .blocked gives unended rfl faulty⟩
    · rcases taken_or_concludes gives (List.forall_mem_append.mp unended).1 with
        ⟨state, taken⟩ | concludes
      · exact ⟨_, .blocked gives unended (by rwa [List.dropLast_concat]) faulty⟩
      · exact concludes

theorem parse_eq_iff_concludes {file source : String} {result : Except Diagnostic Document} :
    parse file source = result ↔ Concludes (Scanner.ofSource file source) result := by
  constructor
  · rintro rfl
    obtain ⟨result, concludes⟩ := exists_concludes (Scanner.ofSource file source)
    rwa [concludes.parse]
  · exact Concludes.parse

/-! ## Sentences -/

/-- The grammar is unambiguous: the same tokens spell one document at most. -/
theorem SpellsDocument.unique {breaks breaks' : Bool} {tokens : List Token}
    {document document' : Document} (spelt : SpellsDocument breaks tokens document)
    (spelt' : SpellsDocument breaks' tokens document') : document = document' := by
  obtain ⟨front, stop, state, split, _, taken, complete⟩ := spelt.taken
  obtain ⟨front', stop', state', split', _, taken', complete'⟩ := spelt'.taken
  obtain ⟨rfl, _⟩ := List.append_inj' (split.symm.trans split') rfl
  obtain rfl := Step.more.inj (taken.symm.trans taken')
  exact Except.ok.inj (complete.symm.trans complete')

theorem parse_of_gives {file source : String} {front : List Token} {stop : Token} {after : Scanner}
    {state : DocumentState} {document : Document}
    (gives : (Scanner.ofSource file source).Gives (front ++ [stop]) after) (unended : Unended front)
    (finished : stop.kind = .finish)
    (taken : documentReader.steps (.between []) front = .more state)
    (complete : state.atEnd = .ok document) : parse file source = .ok document :=
  Concludes.parse (.complete (gives.again finished) unended finished taken complete)

/-- The tree of a fixed source is read off by computing its tokens and what the reader makes of
them. -/
theorem parse_of_firsts {file source : String} {front : List Token} {stop : Token}
    {middle after : Scanner} {state : DocumentState} {document : Document} (count : Nat)
    (read : (Scanner.ofSource file source).firsts count = some (front, middle))
    (ended : middle.next = (.ok stop, after)) (unended : Unended front)
    (finished : stop.kind = .finish)
    (taken : documentReader.steps (.between []) front = .more state)
    (complete : state.atEnd = .ok document) : parse file source = .ok document :=
  parse_of_gives ((Scanner.gives_of_firsts count read).snoc ended) unended finished taken complete

theorem parse_of_spells {file source : String} {breaks : Bool} {tokens : List Token}
    {document : Document} (all : tokensOf file source = .ok tokens)
    (spelt : SpellsDocument breaks tokens document) : parse file source = .ok document := by
  obtain ⟨front, stop, after, rfl, unended, finished, gives⟩ := Scanner.tokens_ok_iff.mp all
  obtain ⟨front', stop', state, split, _, taken, complete⟩ := spelt.taken
  obtain ⟨rfl, _⟩ := List.append_inj' split rfl
  exact parse_of_gives gives unended finished taken complete

theorem spells_of_parse {file source : String} {document : Document}
    (parsed : parse file source = .ok document) :
    ∃ tokens, tokensOf file source = .ok tokens ∧ SpellsDocument false tokens document := by
  cases parse_eq_iff_concludes.mp parsed with
  | @complete tokens stop ahead after state _ gives unended finished taken complete =>
    rw [List.append_cons] at gives
    obtain ⟨middle, gives, _⟩ := Scanner.gives_append_iff.mp gives
    have all := Scanner.tokens_ok_iff.mpr ⟨tokens, stop, middle, rfl, unended, finished, gives⟩
    exact ⟨tokens ++ [stop], all, (spells_of_steps taken complete finished).strict gives⟩

/-- A source is parsed just when its tokens are a sentence of the grammar, without line breaks in
lists. The sentence has one tree, and this is what parsing comes to. -/
theorem parse_ok_iff_spells (file source : String) :
    ((∃ document, parse file source = .ok document) ↔
      ∃ tokens document, tokensOf file source = .ok tokens ∧
        SpellsDocument false tokens document) ∧
    ∀ tokens document, tokensOf file source = .ok tokens →
      SpellsDocument false tokens document →
        parse file source = .ok document ∧
          ∀ other, SpellsDocument false tokens other ↔ other = document := by
  refine ⟨⟨?_, ?_⟩, ?_⟩
  · rintro ⟨document, parsed⟩
    obtain ⟨tokens, all, spelt⟩ := spells_of_parse parsed
    exact ⟨tokens, document, all, spelt⟩
  · rintro ⟨tokens, document, all, spelt⟩
    exact ⟨document, parse_of_spells all spelt⟩
  · intro tokens document all spelt
    refine ⟨parse_of_spells all spelt, fun other => ⟨fun spelt' => spelt'.unique spelt, ?_⟩⟩
    rintro rfl
    exact spelt

theorem parse_ok_of_list :
    ∃ tokens document, tokensOf "" "*a\n[b]" = .ok tokens ∧ SpellsDocument false tokens document ∧
      parse "" "*a\n[b]" = .ok document := by
  obtain ⟨front, stop, after, state, document, gives, unended, finished, taken, complete⟩ :
      ∃ front stop after state document,
        (Scanner.ofSource "" "*a\n[b]").Gives (front ++ [stop]) after ∧ Unended front ∧
          stop.kind = .finish ∧ documentReader.steps (.between []) front = .more state ∧
          state.atEnd = .ok document :=
    ⟨[_, _, _, _, _, _], _, _, _, _, Scanner.gives_of_firsts 7 rfl, by decide, rfl, rfl, rfl⟩
  have all := Scanner.tokens_ok_iff.mpr ⟨front, stop, after, rfl, unended, finished, gives⟩
  have spelt := (spells_of_steps taken complete finished).strict gives
  exact ⟨_, document, all, spelt, ((parse_ok_iff_spells "" "*a\n[b]").2 _ _ all spelt).1⟩

end TextGrammar
