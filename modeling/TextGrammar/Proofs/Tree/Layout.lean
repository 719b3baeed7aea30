import TextGrammar.Proofs.Token.Tiling
import TextGrammar.Proofs.Tree.Nesting
import TextGrammar.Proofs.Tree.Padding

/-!
# Layout

Space may be put in between two tokens, wherever that is outside templates, without a change to the
tree. Two things have to be made up for by the readers: line breaks that come on a fresh line go
wherever a line break has just been, and the space that an item takes in is stripped from it again.
-/
namespace TextGrammar

/-! ## Line breaks after line breaks -/

section Breaks

variable {σ α : Type} {line line' : Token}

/-- A line break is refused, or it leads to where another line break makes no difference. -/
def Reader.TakesBreaks (reader : Reader σ α) : Prop :=
  ∀ (state : σ) {line line' : Token}, line.kind = .lineBreak → line'.kind = .lineBreak →
    (∃ expected, reader.step state line = .refuse expected) ∨
      ∃ next, reader.step state line = .more next ∧ reader.step next line' = .more next

theorem bodyReader_takesBreaks : bodyReader.TakesBreaks := by
  intro state line line' broken broken'
  cases state with
  | body | template | list | reference => exact .inl (by simp [bodyReader, BodyState.step, broken])
  | inside frame outer =>
    cases frame with
    | template place parts => exact .inl (by simp [bodyReader, BodyState.step, broken])
    | list place items =>
      exact .inr ⟨.inside (.list place items) outer, by simp [bodyReader, BodyState.step, broken],
        by simp [bodyReader, BodyState.step, broken']⟩

theorem blockReader_takesBreaks : blockReader.TakesBreaks := by
  intro state line line' broken broken'
  cases state with
  | head | title => exact .inl (by simp [blockReader, BlockState.step, broken])
  | titleEnd place name | gap place name =>
    exact .inr ⟨.gap place name, by simp [blockReader, BlockState.step, broken],
      by simp [blockReader, BlockState.step, broken']⟩
  | body place name state =>
    rw [blockReader_body]
    rcases bodyReader_takesBreaks state broken broken' with ⟨expected, refused⟩ |
      ⟨next, taken, again⟩
    · exact .inl ⟨expected, by rw [refused, Step.map]⟩
    · exact .inr ⟨.body place name next, by rw [taken, Step.map],
        by rw [blockReader_body, again, Step.map]⟩

theorem documentReader_takesBreaks : documentReader.TakesBreaks := by
  intro state line line' broken broken'
  cases state with
  | between blocks | after blocks =>
    exact .inr ⟨.between blocks, by simp [documentReader, DocumentState.step, broken],
      by simp [documentReader, DocumentState.step, broken']⟩
  | block blocks state =>
    rw [documentReader_block]
    rcases blockReader_takesBreaks state broken broken' with ⟨expected, refused⟩ |
      ⟨next, taken, again⟩
    · exact .inl ⟨expected, by rw [refused, Step.map]⟩
    · exact .inr ⟨.block blocks next, by rw [taken, Step.map],
        by rw [documentReader_block, again, Step.map]⟩

/-- Line breaks may be added at the beginning or behind a line break. -/
theorem steps_breaks {tokens breaks : List Token} {state : DocumentState}
    (broken : ∀ last ∈ tokens.getLast?, last.kind = .lineBreak) (blank : AllBreaks breaks)
    (taken : documentReader.steps (.between []) tokens = .more state) :
    documentReader.steps (.between []) (tokens ++ breaks) = .more state := by
  rw [Reader.steps_append taken]
  rcases tokens.eq_nil_or_concat' with rfl | ⟨front, last, rfl⟩
  · cases taken
    exact breaks_taken blank []
  · obtain ⟨before, _, given⟩ := Reader.steps_append_iff.mp taken
    rw [Reader.steps_singleton] at given
    induction breaks with
    | nil => rfl
    | cons line breaks ih =>
      obtain ⟨first, others⟩ := List.forall_mem_cons.mp blank
      rcases documentReader_takesBreaks before (broken last (by simp)) first with ⟨_, refused⟩ |
        ⟨next, given', again⟩
      · rw [given] at refused
        cases refused
      · obtain rfl := Step.more.inj (given.symm.trans given')
        rw [Reader.steps_cons again]
        exact ih others

end Breaks

/-! ## Items with space behind them -/

theorem Text.trim_append {drop : Char → Bool} {text dropped : List Char}
    (every : Every drop dropped) : trim drop (text ++ dropped) = trim drop text := by
  have backwards : Every drop dropped.reverse := fun char member =>
    every char (List.mem_reverse.mp member)
  rw [trim, trim, List.dropWhile_append]
  split
  next gone =>
    rw [dropWhile_all every, List.isEmpty_iff.mp gone]
  next => rw [trimEnd, trimEnd, List.reverse_append, List.dropWhile_append_of_pos backwards]

theorem Text.strip_append {text padding : String} (spaces : Every isListSpace padding.toList) :
    strip (text ++ padding) = strip text := by
  rw [strip, strip, String.toList_append, trim_append (spaces.imp fun _ => isBlank_of_isListSpace)]

section Items

variable {item item' : Token} {below : List Mode}

/-- Inside a list it is the stripped text that counts, and elsewhere there are no items. -/
theorem BodyState.step_item {state : BodyState} (fits : state.Fits (.list :: below))
    (kind : item.kind = .text) (kind' : item'.kind = .text) (place : item'.span = item.span)
    (stripped : Text.strip item'.lexeme = Text.strip item.lexeme) :
    state.step item' = state.step item := by
  cases state with
  | body | template | list | reference => simp only [step, kind, kind']
  | inside frame outer =>
    obtain ⟨base, modes⟩ := fits
    cases frame with
    | template => cases modes
    | list => simp only [step, kind, kind', stripped, place]

theorem documentReader_item {state : DocumentState}
    (fits : ∀ inner ∈ state.body?, inner.Fits (.list :: below)) (kind : item.kind = .text)
    (kind' : item'.kind = .text) (place : item'.span = item.span)
    (stripped : Text.strip item'.lexeme = Text.strip item.lexeme) :
    documentReader.step state item' = documentReader.step state item := by
  have body : ∀ {inner : BodyState}, inner.Fits (.list :: below) →
      inner.step item' = inner.step item :=
    fun fits => BodyState.step_item fits kind kind' place stripped
  cases state with
  | between | after =>
    simp only [documentReader, DocumentState.step, DocumentState.stepBlock, BlockState.step, kind,
      kind']
  | block blocks state =>
    rw [documentReader_block, documentReader_block]
    cases state with
    | head | title | titleEnd => simp only [blockReader, BlockState.step, kind, kind']
    | gap =>
      simp only [blockReader, BlockState.step, BlockState.stepBody, BodyState.step, kind, kind']
    | body place name inner =>
      rw [blockReader_body, blockReader_body]
      simp only [bodyReader, body (fits inner rfl)]

/-- Tokens that have been taken leave a body that fits the modes behind them. -/
theorem Reader.Nests.steps {σ α : Type} {reader : Reader σ α} {body? : σ → Option BodyState}
    (nests : reader.Nests body?) {scanner after : Scanner} {tokens : List Token} {state next : σ}
    (gives : scanner.Gives tokens after) (taken : reader.steps state tokens = .more next)
    (fits : ∀ inner ∈ body? state, inner.Fits scanner.modes) :
    ∀ inner ∈ body? next, inner.Fits after.modes := by
  induction gives generalizing state with
  | nil scanner =>
    cases taken
    exact fits
  | cons found rest ih =>
    obtain ⟨middle, first, later⟩ := Reader.steps_cons_iff.mp taken
    exact ih later (nests fits (Scanner.moves_of_next found) first)

end Items

/-! ## Padded sources -/

/-- What may be put in where this mode is on top, behind these tokens: space, and line breaks where
they are just space or where the line has just begun. -/
def Pads (mode : Mode) (tokens : List Token) (padding : List Char) : Prop :=
  match mode with
  | .top | .lineStart =>
    Every isSpace padding ∨
      (∀ last ∈ tokens.getLast?, last.kind = .lineBreak) ∧ Every isListSpace padding
  | .list => Every isListSpace padding
  | .template | .name | .finished => False

theorem Pads.every {mode : Mode} {tokens : List Token} {padding : List Char}
    (pads : Pads mode tokens padding) : Every isListSpace padding := by
  cases mode with
  | top | lineStart =>
    rcases pads with spaces | ⟨_, spaces⟩
    · exact spaces.imp fun _ => isListSpace_of_isSpace
    · exact spaces
  | list => exact pads
  | template | name | finished => exact pads.elim

theorem Pads.started {mode : Mode} {tokens : List Token} {padding : List Char}
    (pads : Pads mode tokens padding) : mode ≠ .finished := by
  rintro rfl
  exact pads

namespace Scanner

/-- The tokens that are `heard` instead of some others are taken as if they were `told`, which have
the words of those others, and then come the same tokens. -/
structure Retakes (scanner : Scanner) (tokens : List Token) (next : Token) (after : Scanner)
    (told heard : List Token) (middle : Scanner) : Prop where
  words : SameWords tokens told
  gives : scanner.Gives heard middle
  unended : Unended heard
  taken : ∀ {state}, documentReader.steps (.between []) told = .more state →
    documentReader.steps (.between []) heard = .more state
  resumes : middle.Resumes next after

/-- What is heard is taken where the others were, and so there is an alike tree. -/
theorem Retakes.parse {file source : String} {tokens more told heard front : List Token}
    {next stop : Token} {after last middle : Scanner} {document : Document}
    (retakes : (ofSource file source).Retakes tokens next after told heard middle)
    (behind : after.Gives more last) (whole : tokens ++ next :: more = front ++ [stop])
    (unended : Unended front) (spelt : SpellsDocument false (front ++ [stop]) document) :
    ∃ document', parse file source = .ok document' ∧ document'.alike document = true := by
  obtain ⟨next', after', found, kind, lexeme, agrees⟩ := retakes.resumes
  obtain ⟨more', last', behind', words⟩ := agrees.gives behind
  have all : SameWords (tokens ++ next :: more) (told ++ next' :: more') :=
    sameWords_append_iff.mpr ⟨told, _, rfl, retakes.words,
      sameWords_cons_iff.mpr ⟨next', more', rfl, kind, lexeme, words⟩⟩
  rw [whole] at all
  obtain ⟨document', spelt', alike⟩ := spelt.retold all
  obtain ⟨front', stop', state, split, finished, taken, complete⟩ := spelt'.taken
  obtain ⟨back, stop'', ends⟩ :=
    (next' :: more').eq_nil_or_concat'.resolve_left (List.cons_ne_nil _ _)
  rw [split] at all
  rw [ends, ← List.append_assoc] at split
  obtain ⟨rfl, ⟨⟩⟩ := List.append_inj' split rfl
  -- the last token is the only last one here too
  obtain ⟨early, late, split', words, words'⟩ := sameWords_append_iff.mp all
  obtain ⟨_, rfl, _⟩ := sameWords_singleton_iff.mp words'
  obtain ⟨rfl, _⟩ := List.append_inj' split' rfl
  have others := (List.forall_mem_append.mp (words.forall_kind (· ≠ .finish) unended)).2
  obtain ⟨reached, first, second⟩ := Reader.steps_append_iff.mp taken
  have taken' := Reader.steps_append_iff.mpr ⟨reached, retakes.taken first, second⟩
  have given : (ofSource file source).Gives (heard ++ back ++ [stop']) last' := by
    rw [List.append_assoc, ← ends]
    exact gives_append_iff.mpr ⟨middle, retakes.gives, .cons found behind'⟩
  exact ⟨document', parse_of_gives given (List.forall_mem_append.mpr ⟨retakes.unended, others⟩)
    finished taken' complete, alike⟩

section Source

variable {file source source' : String} {tokens : List Token} {next : Token}
  {middle after : Scanner} {read padding : List Char}

/-- An item that takes the padding in is read as it was read without. -/
theorem exists_retakes_item {below : List Mode} {last : Token}
    (inserts : Inserts file source source' (tokens ++ [last]) middle padding)
    (found : middle.next = (.ok next, after)) (inside : middle.modes = .list :: below)
    (text : last.kind = .text) :
    ∃ told heard middle',
      (ofSource file source').Retakes (tokens ++ [last]) next after told heard middle' := by
  obtain ⟨told, before, item, middle', blankLine, gives, words, modes, found', kind, longer,
    faces⟩ := inserts.told_item inside text
  have unended := (List.forall_mem_append.mp inserts.unended).1
  -- the item as it would be without the padding, where the item is now
  let bare : Token := ⟨.text, last.lexeme, item.span⟩
  have bare_kind : bare.kind = .text := rfl
  have place : item.span = bare.span := rfl
  have stripped : Text.strip item.lexeme = Text.strip bare.lexeme := by
    rw [longer, Text.strip_append (by simpa using inserts.spaces)]
  refine ⟨told ++ [bare], told ++ [item], middle', ?_, gives.snoc found', ?_, ?_, ?_⟩
  · exact sameWords_append_iff.mpr ⟨told, _, rfl, words,
      sameWords_singleton_iff.mpr ⟨bare, rfl, text.symm, rfl⟩⟩
  · have real : item.kind ≠ .finish := by simp [kind]
    exact List.forall_mem_append.mpr ⟨words.forall_kind (· ≠ .finish) unended,
      List.forall_mem_singleton.mpr real⟩
  · intro state taken
    obtain ⟨reached, front, back⟩ := Reader.steps_append_iff.mp taken
    have fits := documentReader_nests.steps gives front nofun
    rw [modes] at fits
    rw [Reader.steps_singleton] at back
    rw [Reader.steps_snoc front, documentReader_item fits bare_kind kind place stripped, back]
  · rw [← List.nil_append middle.cursor.rest] at faces
    exact resumes_in_list ⟨inside, rfl, rfl⟩ faces nofun found

theorem exists_below {scanner : Scanner} {mode : Mode} (onTop : scanner.mode = mode)
    (started : mode ≠ .finished) : ∃ below, scanner.modes = mode :: below := by
  unfold Scanner.mode at onTop
  cases modes : scanner.modes with
  | nil =>
    rw [modes] at onTop
    exact absurd onTop.symm started
  | cons first below =>
    rw [modes] at onTop
    exact ⟨below, by rw [← onTop, List.headD_cons]⟩

/-- On a fresh line what is heard has the line breaks that have been put in. -/
theorem exists_retakes_fresh (inserts : Inserts file source source' tokens middle padding)
    (found : middle.next = (.ok next, after))
    (broken : ∀ last ∈ tokens.getLast?, last.kind = .lineBreak) :
    ∃ told heard middle', (ofSource file source').Retakes tokens next after told heard middle' := by
  have closed : ∀ last ∈ tokens.getLast?, last.kind ≠ .text := by
    intro last ends
    simp [broken last ends]
  obtain ⟨told, middle', gives, words, faces⟩ := inserts.told closed
  obtain ⟨top, fresh⟩ := inserts.gives.fresh inserts.unended broken
  rw [fresh, ← List.nil_append (padding ++ _)] at faces
  obtain ⟨breaks, last, given, blank, resumes⟩ :=
    gives_breaks top top ⟨rfl, fresh, rfl⟩ faces nofun inserts.spaces found
  refine ⟨told, told ++ breaks, last, words, gives_append_iff.mpr ⟨middle', gives, given⟩, ?_, ?_,
    resumes⟩
  · have real : Unended breaks := fun token member => by simp [blank token member]
    have others := words.forall_kind (· ≠ .finish) inserts.unended
    exact List.forall_mem_append.mpr ⟨others, real⟩
  · exact steps_breaks (words.getLast_kind (· = .lineBreak) broken) blank

/-- Wherever padding may be put in, what is told by the source is heard from the padded one. -/
theorem exists_retakes (inserts : Inserts file source source' tokens middle padding)
    (found : middle.next = (.ok next, after)) (pads : Pads middle.mode tokens padding) :
    ∃ told heard middle', (ofSource file source').Retakes tokens next after told heard middle' := by
  by_cases closed : ∀ last ∈ tokens.getLast?, last.kind ≠ .text
  · obtain ⟨told, middle', gives, words, faces⟩ := inserts.told closed
    have others := words.forall_kind (· ≠ .finish) inserts.unended
    have as_told (resumes : middle'.Resumes next after) : ∃ told heard middle',
        (ofSource file source').Retakes tokens next after told heard middle' :=
      ⟨told, told, middle', words, gives, others, id, resumes⟩
    generalize onTop : middle.mode = mode at pads
    cases mode with
    | top =>
      rcases pads with plain | ⟨broken, _⟩
      · obtain ⟨below, modes⟩ := exists_below onTop nofun
        rw [modes] at faces
        exact as_told (resumes_at_top ⟨modes, rfl, rfl⟩ faces plain found)
      · exact exists_retakes_fresh inserts found broken
    | lineStart =>
      exact exists_retakes_fresh inserts found (inserts.gives.broken inserts.unended onTop)
    | list =>
      obtain ⟨below, modes⟩ := exists_below onTop nofun
      rw [modes] at faces
      exact as_told (resumes_in_list ⟨modes, rfl, rfl⟩ faces inserts.spaces found)
    | template | name | finished => exact pads.elim
  · -- behind a text the mode is that of a template, where nothing is put in, or that of a list
    simp only [not_forall, Decidable.not_not] at closed
    obtain ⟨last, ends, text⟩ := closed
    obtain ⟨front, rfl⟩ := List.getLast?_eq_some_iff.mp ends
    obtain ⟨before, _, given⟩ := gives_append_iff.mp inserts.gives
    have moves := moves_of_next (gives_singleton_iff.mp given)
    rw [text] at moves
    rcases moves.of_text with ⟨below, modes⟩ | ⟨below, modes⟩
    · rw [mode, modes] at pads
      exact pads.elim
    · exact exists_retakes_item inserts found modes text

end Source
end Scanner

/-- A text with some more put in at an offset. -/
def Text.insert (offset : Nat) (padding text : String) : String :=
  String.ofList (text.toList.take offset ++ (padding.toList ++ text.toList.drop offset))

/-- Space that is put in outside templates, wherever the scanner of a source that is parsed stands
between two tokens, makes no difference to the tree. -/
theorem parse_insert {file source padding : String} {document : Document} {tokens : List Token}
    {middle : Scanner} (parsed : parse file source = .ok document)
    (gives : (Scanner.ofSource file source).Gives tokens middle)
    (pads : Pads middle.mode tokens padding.toList) :
    ∃ document', parse file (Text.insert middle.cursor.offset padding source) = .ok document' ∧
      document'.alike document = true := by
  obtain ⟨_, _, _, past⟩ := gives.tiles (Cursor.Past.ofSource source.toList)
  by_cases empty : padding.toList = []
  · have same : Text.insert middle.cursor.offset padding source = source := by
      rw [Text.insert, empty, List.nil_append, List.take_append_drop, String.ofList_toList]
    rw [same]
    exact ⟨document, parsed, (Document.alike_iff_bare _ _).mpr rfl⟩
  · obtain ⟨all, given, spelt⟩ := spells_of_parse parsed
    obtain ⟨front, stop, last, rfl, unended, finished, all⟩ := Scanner.tokens_ok_iff.mp given
    have open_end := gives.unended pads.started
    have early : stop ∉ tokens := fun member => open_end stop member finished
    -- the end of the input is still to come, so there is a token behind the padding
    obtain ⟨next, more, split, behind⟩ : ∃ next more, tokens ++ next :: more = front ++ [stop] ∧
        middle.Gives (next :: more) last := by
      rcases gives.comparable all with ⟨_ | ⟨next, more⟩, split, behind⟩ | ⟨more, split, _⟩
      · rw [List.append_nil] at split
        exact absurd (split ▸ by simp) early
      · exact ⟨next, more, split.symm, behind⟩
      · exact absurd (split ▸ by simp) early
    obtain ⟨after, found, later⟩ := Scanner.gives_cons_iff.mp behind
    have around : ∃ read, source.toList = read ++ middle.cursor.rest ∧
        (Text.insert middle.cursor.offset padding source).toList =
          read ++ (padding.toList ++ middle.cursor.rest) := by
      refine ⟨source.toList.take middle.cursor.offset, ?_, ?_⟩
      · rw [← past.drop_offset, List.take_append_drop]
      · rw [Text.insert, String.toList_ofList, past.drop_offset]
    obtain ⟨told, heard, middle', retakes⟩ :=
      Scanner.exists_retakes ⟨gives, open_end, pads.every, empty, around⟩ found pads
    exact retakes.parse later split unended spelt

/-- Space behind an item, and line breaks in front of the first header. -/
theorem parse_insert_list :
    ∃ document tokens middle, parse "" "*a\n[b]" = .ok document ∧
      (Scanner.ofSource "" "*a\n[b]").Gives tokens middle ∧
      tokens.map (·.lexeme) = ["*", "a", "\n", "[", "b"] ∧
      Pads middle.mode tokens " \n".toList ∧
      (∃ document', parse "" "*a\n[b \n]" = .ok document' ∧ document'.alike document = true) ∧
      Pads (Scanner.ofSource "" "*a\n[b]").mode [] "\n ".toList ∧
      ∃ document', parse "" "\n *a\n[b]" = .ok document' ∧ document'.alike document = true := by
  obtain ⟨document, parsed⟩ : ∃ document, parse "" "*a\n[b]" = .ok document :=
    ⟨_, parse_of_firsts 6 rfl rfl (by decide) rfl rfl rfl⟩
  obtain ⟨tokens, middle, early, lexemes, inList, offset⟩ : ∃ tokens middle,
      (Scanner.ofSource "" "*a\n[b]").Gives tokens middle ∧
        tokens.map (·.lexeme) = ["*", "a", "\n", "[", "b"] ∧ middle.mode = .list ∧
        middle.cursor.offset = 5 :=
    ⟨_, _, Scanner.gives_of_firsts 5 rfl, by decide, rfl, rfl⟩
  have spaces : Every isListSpace [' ', '\n'] := by simp [Every, isListSpace, isSpace]
  have breaks : Every isListSpace ['\n', ' '] := by simp [Every, isListSpace, isSpace]
  have pads : Pads middle.mode tokens " \n".toList := inList ▸ spaces
  have pads' : Pads (Scanner.ofSource "" "*a\n[b]").mode [] "\n ".toList :=
    .inr ⟨by simp, breaks⟩
  have behind := parse_insert parsed early pads
  have before := parse_insert parsed (.nil _) pads'
  rw [offset] at behind
  exact ⟨document, tokens, middle, parsed, early, lexemes, pads, behind, pads', before⟩

end TextGrammar
