import TextGrammar.Proofs.Tree.Parsing

/-!
# The first error is reported

Parsing stops at the first token that no sentence goes on with, or at the end of the input where a
sentence cannot end. The token after it has been scanned by then, so a fault of the text is reported
instead when it comes in place of that token or before.
-/
namespace TextGrammar

/-- The tokens are the beginning of a sentence. -/
def Viable (tokens : List Token) : Prop :=
  ∃ later document, SpellsDocument true (tokens ++ later) document

theorem BodyState.step_finish {token : Token} (finished : token.kind = .finish)
    (state : BodyState) : ∃ expected, state.step token = .refuse expected := by
  cases state with
  | inside frame outer => cases frame <;> exact ⟨_, by simp [step, finished]; rfl⟩
  | _ => exact ⟨_, by simp [step, finished]; rfl⟩

theorem BlockState.step_finish {token : Token} (finished : token.kind = .finish)
    (state : BlockState) : ∃ expected, state.step token = .refuse expected := by
  have inside : ∀ place name state, ∃ expected,
      stepBody place name state token = .refuse expected := by
    intro place name state
    obtain ⟨expected, refused⟩ := BodyState.step_finish finished state
    exact ⟨expected, by simp [stepBody, refused, Step.map]⟩
  cases state with
  | gap place name =>
    obtain ⟨expected, refused⟩ := inside place name .body
    exact ⟨expected, by simp [step, finished, refused]⟩
  | body place name state => exact inside place name state
  | _ => exact ⟨_, by simp [step, finished]; rfl⟩

theorem documentReader_step_finish {token : Token} (finished : token.kind = .finish)
    (state : DocumentState) : ∃ expected, documentReader.step state token = .refuse expected := by
  have inside : ∀ blocks state, ∃ expected,
      DocumentState.stepBlock blocks state token = .refuse expected := by
    intro blocks state
    obtain ⟨expected, refused⟩ := BlockState.step_finish finished state
    exact ⟨expected, by simp [DocumentState.stepBlock, refused, Step.map]⟩
  cases state with
  | between blocks =>
    obtain ⟨expected, refused⟩ := inside blocks .head
    exact ⟨expected, by simp [documentReader, DocumentState.step, finished, refused]⟩
  | block blocks state => exact inside blocks state
  | after blocks => exact ⟨_, by simp [documentReader, DocumentState.step, finished]; rfl⟩

/-- The last token is never used up. -/
theorem unended_of_steps {state next : DocumentState} {tokens : List Token}
    (taken : documentReader.steps state tokens = .more next) : Unended tokens := by
  induction tokens generalizing state with
  | nil => exact nofun
  | cons token tokens ih =>
    obtain ⟨middle, first, rest⟩ := Reader.steps_cons_iff.mp taken
    refine List.forall_mem_cons.mpr ⟨fun finished => ?_, ih rest⟩
    obtain ⟨expected, refused⟩ := documentReader_step_finish finished state
    rw [refused] at first
    cases first

/-- Before the end, what begins a sentence is what can be used up. -/
theorem viable_iff_taken {tokens : List Token} (unended : Unended tokens) :
    Viable tokens ↔ ∃ state, documentReader.steps (.between []) tokens = .more state := by
  constructor
  · rintro ⟨later, document, spelt⟩
    obtain ⟨front, stop, state, split, finished, taken, _⟩ := spelt.taken
    -- a sentence ends with the last token, which is not among these
    rcases later.eq_nil_or_concat' with rfl | ⟨later, last, rfl⟩
    · rw [List.append_nil] at split
      exact absurd finished (unended stop (by simp [split]))
    · rw [← List.append_assoc] at split
      obtain ⟨rfl, _⟩ := List.append_inj' split rfl
      obtain ⟨middle, before, _⟩ := Reader.steps_append_iff.mp taken
      exact ⟨middle, before⟩
  · rintro ⟨state, taken⟩
    obtain ⟨later, last, document, rest, complete⟩ := documentReader_completes state
    have whole : documentReader.steps (.between []) (tokens ++ later) = .more last := by
      rw [Reader.steps_append taken, rest]
    have spelt := spells_of_steps whole complete (rfl : (Token.ofKind .finish).kind = .finish)
    rw [List.append_assoc] at spelt
    exact ⟨_, document, spelt⟩

/-- At the end, it is what makes a document. -/
theorem viable_finish_iff {tokens : List Token} {stop : Token} (finished : stop.kind = .finish) :
    Viable (tokens ++ [stop]) ↔ ∃ state document,
      documentReader.steps (.between []) tokens = .more state ∧ state.atEnd = .ok document := by
  constructor
  · rintro ⟨later, document, spelt⟩
    obtain ⟨front, stop', state, split, _, taken, complete⟩ := spelt.taken
    rcases later.eq_nil_or_concat' with rfl | ⟨later, last, rfl⟩
    · rw [List.append_nil] at split
      obtain ⟨rfl, _⟩ := List.append_inj' split rfl
      exact ⟨state, document, taken, complete⟩
    · -- nothing comes after the last token
      rw [← List.append_assoc] at split
      obtain ⟨rfl, _⟩ := List.append_inj' split rfl
      exact absurd finished (unended_of_steps taken stop (by simp))
  · rintro ⟨state, document, taken, complete⟩
    exact ⟨[], document, by simpa using spells_of_steps taken complete finished⟩

/-! ## The first misfit -/

/-- `token` is the first token that no sentence goes on with, and not yet past the end. -/
structure Misfit (scanner : Scanner) (tokens : List Token) (token : Token) (after : Scanner) :
    Prop where
  gives : scanner.Gives (tokens ++ [token]) after
  unended : Unended tokens
  viable : Viable tokens
  unviable : ¬Viable (tokens ++ [token])

/-- There is a first misfit, and the scanner gives a token after it. -/
def Caught (scanner : Scanner) (token : Token) : Prop :=
  ∃ tokens after ahead later, Misfit scanner tokens token after ∧ after.next = (.ok ahead, later)

/-- The fault is that of finding this token where it does not belong, or, at the end of the input,
that of finding no more tokens. -/
def Diagnostic.Blames (fault : Diagnostic) (token : Token) : Prop :=
  fault.span = token.span ∧
    if token.kind = .finish then ∃ context, fault.cause = .endOfInput context (some .finish)
    else ∃ expected, fault.cause = .unexpected token.kind token.lexeme expected

theorem unviable_of_refused {tokens : List Token} {token : Token} {state : DocumentState}
    {expected : Option Kind} (unended : Unended (tokens ++ [token]))
    (taken : documentReader.steps (.between []) tokens = .more state)
    (refused : documentReader.step state token = .refuse expected) :
    ¬Viable (tokens ++ [token]) := by
  rw [viable_iff_taken unended, Reader.steps_snoc taken, refused]
  rintro ⟨next, impossible⟩
  cases impossible

theorem unviable_of_incomplete {tokens : List Token} {stop : Token} {state : DocumentState}
    {context : Option String} (finished : stop.kind = .finish)
    (taken : documentReader.steps (.between []) tokens = .more state)
    (incomplete : state.atEnd = .error context) : ¬Viable (tokens ++ [stop]) := by
  rw [viable_finish_iff finished]
  rintro ⟨state', document, taken', complete⟩
  obtain rfl := Step.more.inj (taken.symm.trans taken')
  rw [incomplete] at complete
  cases complete

theorem caught_of_unviable {scanner after : Scanner} {tokens : List Token} {token ahead : Token}
    {state : DocumentState} (gives : scanner.Gives (tokens ++ [token, ahead]) after)
    (taken : documentReader.steps (.between []) tokens = .more state)
    (unviable : ¬Viable (tokens ++ [token])) : Caught scanner token := by
  rw [List.append_cons] at gives
  obtain ⟨middle, front, last⟩ := Scanner.gives_append_iff.mp gives
  have unended := unended_of_steps taken
  have viable := (viable_iff_taken unended).mpr ⟨state, taken⟩
  exact ⟨tokens, middle, ahead, after, ⟨front, unended, viable, unviable⟩,
    Scanner.gives_singleton_iff.mp last⟩

/-- A misfit is reported, be it a token or the end of the input. -/
theorem Caught.blamed {file source : String} {token : Token}
    (caught : Caught (Scanner.ofSource file source) token) :
    ∃ fault, parse file source = .error fault ∧ fault.Blames token := by
  obtain ⟨tokens, after, ahead, later, misfit, found⟩ := caught
  have gives : (Scanner.ofSource file source).Gives (tokens ++ [token, ahead]) later := by
    rw [List.append_cons]
    exact misfit.gives.snoc found
  obtain ⟨state, taken⟩ := (viable_iff_taken misfit.unended).mp misfit.viable
  by_cases finished : token.kind = .finish
  · cases ended : state.atEnd with
    | ok document =>
      exact absurd ((viable_finish_iff finished).mpr ⟨state, document, taken, ended⟩)
        misfit.unviable
    | error context =>
      have concludes := Concludes.exhausted gives misfit.unended finished taken ended
      exact ⟨_, concludes.parse, rfl, by simp [finished, Window.exhausted]⟩
  · have unended : Unended (tokens ++ [token]) :=
      List.forall_mem_append.mpr ⟨misfit.unended, by simpa using finished⟩
    -- it can only be refused: with it used up the tokens would still begin a sentence
    cases step : documentReader.step state token with
    | more next =>
      have taken' : documentReader.steps (.between []) (tokens ++ [token]) = .more next := by
        rw [Reader.steps_snoc taken, step]
      exact absurd ((viable_iff_taken unended).mpr ⟨next, taken'⟩) misfit.unviable
    | done document => exact absurd step (documentReader_step_ne_done state token document)
    | refuse expected =>
      have concludes := Concludes.refused gives unended taken step
      exact ⟨_, concludes.parse, rfl, by simp [finished, Window.unexpected]⟩

/-- When no misfit is caught, parsing comes to the first fault of the text or to a document. -/
theorem Concludes.uncaught {scanner : Scanner} {result : Except Diagnostic Document}
    (concludes : Concludes scanner result) (uncaught : ¬∃ token, Caught scanner token) :
    (∃ fault, scanner.Faults fault ∧ result = .error fault) ∨
      ∃ document, (∀ fault, ¬scanner.Faults fault) ∧ result = .ok document := by
  cases concludes with
  | refused gives unended taken refused =>
    have unviable := unviable_of_refused unended taken refused
    exact absurd ⟨_, caught_of_unviable gives taken unviable⟩ uncaught
  | exhausted gives unended finished taken incomplete =>
    have unviable := unviable_of_incomplete finished taken incomplete
    exact absurd ⟨_, caught_of_unviable gives taken unviable⟩ uncaught
  | blocked gives unended taken faulty => exact .inl ⟨_, ⟨_, _, _, gives, faulty⟩, rfl⟩
  | complete gives unended finished taken complete =>
    rw [List.append_cons] at gives
    obtain ⟨middle, front, _⟩ := Scanner.gives_append_iff.mp gives
    exact .inr ⟨_, Scanner.not_faults_of_finish front finished, rfl⟩

/-- A first misfit with a token after it is what parsing reports, at its place. Otherwise it reports
the first fault of the text, and otherwise there is a document. -/
theorem parse_reports_first_misfit (file source : String) :
    (∀ token, Caught (Scanner.ofSource file source) token →
      ∃ fault, parse file source = .error fault ∧ fault.Blames token) ∧
    (∀ fault, (¬∃ token, Caught (Scanner.ofSource file source) token) →
      (Scanner.ofSource file source).Faults fault → parse file source = .error fault) ∧
    ((¬∃ token, Caught (Scanner.ofSource file source) token) →
      (¬∃ fault, (Scanner.ofSource file source).Faults fault) →
        ∃ document, parse file source = .ok document) := by
  obtain ⟨result, concludes⟩ := exists_concludes (Scanner.ofSource file source)
  have parsed := concludes.parse
  refine ⟨fun token caught => caught.blamed, fun fault uncaught faults => ?_,
    fun uncaught faultless => ?_⟩
  · rcases concludes.uncaught uncaught with ⟨fault', faults', rfl⟩ | ⟨document, faultless, rfl⟩
    · rw [parsed, faults'.unique faults]
    · exact absurd faults (faultless fault)
  · rcases concludes.uncaught uncaught with ⟨fault, faults, rfl⟩ | ⟨document, _, rfl⟩
    · exact absurd ⟨fault, faults⟩ faultless
    · exact ⟨document, parsed⟩

theorem parse_blames_list :
    ∃ token, Caught (Scanner.ofSource "" "[a]") token ∧
      ∃ fault, parse "" "[a]" = .error fault ∧ fault.Blames token := by
  obtain ⟨token, ahead, after, expected, gives, real, refused⟩ : ∃ token ahead after expected,
      (Scanner.ofSource "" "[a]").Gives ([] ++ [token, ahead]) after ∧ token.kind ≠ .finish ∧
        documentReader.step (.between []) token = .refuse expected :=
    ⟨_, _, _, _, Scanner.gives_of_firsts 2 rfl, by decide, rfl⟩
  have unended : Unended ([] ++ [token]) := by
    simpa [Unended] using real
  have unviable := unviable_of_refused unended rfl refused
  have caught : Caught (Scanner.ofSource "" "[a]") token := caught_of_unviable gives rfl unviable
  exact ⟨token, caught, (parse_reports_first_misfit "" "[a]").1 token caught⟩

/-- The last token given a second time goes on with no sentence, but it is no misfit: parsing is
over by then. -/
theorem not_reported_past_end :
    (∃ tokens token after ahead later, (Scanner.ofSource "" "").Gives (tokens ++ [token]) after ∧
      Viable tokens ∧ ¬Viable (tokens ++ [token]) ∧ after.next = (.ok ahead, later)) ∧
    ¬∃ fault, parse "" "" = .error fault := by
  obtain ⟨stop, after, found, again, finished⟩ : ∃ stop after,
      (Scanner.ofSource "" "").next = (.ok stop, after) ∧ after.next = (.ok stop, after) ∧
        stop.kind = .finish :=
    ⟨_, _, rfl, rfl, rfl⟩
  constructor
  · refine ⟨[stop], stop, after, stop, after, .cons found (.cons again (.nil after)), ?_, ?_, again⟩
    · have viable : Viable ([] ++ [stop]) := (viable_finish_iff finished).mpr ⟨_, _, rfl, rfl⟩
      exact viable
    · rw [viable_finish_iff finished]
      rintro ⟨state, document, taken, _⟩
      exact unended_of_steps taken stop (by simp) finished
  · rintro ⟨fault, failed⟩
    have gives : (Scanner.ofSource "" "").Gives ([] ++ [stop, stop]) after :=
      .cons found (.cons again (.nil after))
    have concludes := Concludes.complete gives nofun finished rfl rfl
    rw [concludes.parse] at failed
    cases failed

end TextGrammar
