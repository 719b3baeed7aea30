import TextGrammar.Proofs.Tree.Reading

/-!
# What has been read so far

Every state that a reader reaches says what the tokens behind it spell. For the states inside a body
this goes frame by frame: each frame holds what the tokens after its opening spell, and the frames
alternate between templates and lists. From every state there is also a way on to the end, so that
what has been taken is the beginning of some sentence.
-/
namespace TextGrammar

section Invariants

variable {σ α σ' α' : Type}

/-- The states that a step can lead to satisfy `more`, and its results `done`. -/
def Step.All (more : σ → Prop) (done : α → Prop) : Step σ α → Prop
  | .more state => more state
  | .done result => done result
  | .refuse _ => True

theorem Step.All.map {more : σ → Prop} {done : α → Prop} {more' : σ' → Prop} {done' : α' → Prop}
    {wrap : σ → σ'} {finish : α → Step σ' α'} {step : Step σ α} (all : step.All more done)
    (wraps : ∀ state, more state → more' (wrap state))
    (finishes : ∀ result, done result → (finish result).All more' done') :
    (step.map wrap finish).All more' done' := by
  cases step with
  | more state => exact wraps state all
  | done result => exact finishes result all
  | refuse expected => trivial

/-- The tokens that led to a state are `behind` it, and those that led to a result spell it. -/
def Reader.Tracks (reader : Reader σ α) (behind : σ → List Token → Prop)
    (spells : List Token → α → Prop) : Prop :=
  ∀ {state : σ} {tokens : List Token} (token : Token), behind state tokens →
    (reader.step state token).All (behind · (tokens ++ [token])) (spells (tokens ++ [token]))

theorem Reader.Tracks.steps {reader : Reader σ α} {behind : σ → List Token → Prop}
    {spells : List Token → α → Prop} (tracks : reader.Tracks behind spells) {state next : σ}
    {tokens : List Token} (reached : behind state tokens) {later : List Token}
    (taken : reader.steps state later = .more next) : behind next (tokens ++ later) := by
  induction later generalizing state tokens with
  | nil =>
    cases taken
    simpa using reached
  | cons token later ih =>
    obtain ⟨middle, first, rest⟩ := Reader.steps_cons_iff.mp taken
    have tracked := tracks token reached
    rw [first] at tracked
    have whole := ih tracked rest
    rwa [List.append_assoc] at whole

end Invariants

/-! ## Bodies -/

/-- The tokens open these frames, innermost first, and spell what the frames hold. -/
inductive Opens : List Frame → List Token → Prop where
  | template {start : Token} {tokens : List Token} {parts : List Node}
      (opened : start.kind = .openQuote) (inner : SpellsParts true tokens parts) :
      Opens [.template start.span parts.reverse] (start :: tokens)
  | list {start : Token} {tokens : List Token} {items : List Node}
      (opened : start.kind = .openBracket) (inner : SpellsItems true tokens items) :
      Opens [.list start.span items.reverse] (start :: tokens)
  | templateInList {place : Span} {items : List Node} {outer : List Frame} {before : List Token}
      {start : Token} {tokens : List Token} {parts : List Node}
      (around : Opens (.list place items :: outer) before) (opened : start.kind = .openQuote)
      (inner : SpellsParts true tokens parts) :
      Opens (.template start.span parts.reverse :: .list place items :: outer)
        (before ++ start :: tokens)
  | listInTemplate {place : Span} {parts : List Node} {outer : List Frame} {before : List Token}
      {start : Token} {tokens : List Token} {items : List Node}
      (around : Opens (.template place parts :: outer) before) (opened : start.kind = .openBracket)
      (inner : SpellsItems true tokens items) :
      Opens (.list start.span items.reverse :: .template place parts :: outer)
        (before ++ start :: tokens)

theorem Opens.extend_template {place : Span} {parts nodes : List Node} {outer : List Frame}
    {before later : List Token} (opens : Opens (.template place parts :: outer) before)
    (grow : ∀ {tokens parts}, SpellsParts true tokens parts →
      SpellsParts true (tokens ++ later) (parts ++ nodes)) :
    Opens (.template place (nodes.reverse ++ parts) :: outer) (before ++ later) := by
  cases opens with
  | template opened inner =>
    have grown := Opens.template opened (grow inner)
    rwa [List.reverse_append] at grown
  | templateInList around opened inner =>
    have grown := Opens.templateInList around opened (grow inner)
    rw [List.reverse_append] at grown
    rwa [List.append_assoc, List.cons_append]

theorem Opens.extend_list {place : Span} {items nodes : List Node} {outer : List Frame}
    {before later : List Token} (opens : Opens (.list place items :: outer) before)
    (grow : ∀ {tokens items}, SpellsItems true tokens items →
      SpellsItems true (tokens ++ later) (items ++ nodes)) :
    Opens (.list place (nodes.reverse ++ items) :: outer) (before ++ later) := by
  cases opens with
  | list opened inner =>
    have grown := Opens.list opened (grow inner)
    rwa [List.reverse_append] at grown
  | listInTemplate around opened inner =>
    have grown := Opens.listInTemplate around opened (grow inner)
    rw [List.reverse_append] at grown
    rwa [List.append_assoc, List.cons_append]

namespace BodyState

/-- What the tokens behind a state spell. -/
def Behind : BodyState → List Token → Prop
  | body, tokens | template, tokens | list, tokens => tokens = []
  | inside frame outer, tokens => Opens (frame :: outer) tokens
  | reference mark place parts outer, tokens => ∃ before token, token.kind = .hash ∧
      token.span = mark ∧ tokens = before ++ [token] ∧ Opens (.template place parts :: outer) before

theorem close_template {place : Span} {parts : List Node} {outer : List Frame}
    {before : List Token} {stop : Token} (opens : Opens (.template place parts :: outer) before)
    (closed : stop.kind = .closeQuote) :
    (close (.template parts.reverse (some place)) outer).All (·.Behind (before ++ [stop]))
      (SpellsBody true (before ++ [stop])) := by
  cases opens with
  | template opened inner =>
    rw [List.reverse_reverse]
    exact .template (.intro opened inner closed)
  | templateInList around opened inner =>
    rw [List.reverse_reverse, List.append_assoc]
    -- the template is complete now and is an item of the list around it
    exact around.extend_list fun before => .template before (.intro opened inner closed)

theorem close_list {place : Span} {items : List Node} {outer : List Frame}
    {before : List Token} {stop : Token} (opens : Opens (.list place items :: outer) before)
    (closed : stop.kind = .closeBracket) :
    (close (.list items.reverse (some place)) outer).All (·.Behind (before ++ [stop]))
      (SpellsBody true (before ++ [stop])) := by
  cases opens with
  | list opened inner =>
    rw [List.reverse_reverse]
    exact .list (.intro opened inner closed)
  | listInTemplate around opened inner =>
    rw [List.reverse_reverse, List.append_assoc]
    -- the list is complete now and is a part of the template around it
    exact around.extend_template fun before => .list before (.intro opened inner closed)

end BodyState

open BodyState in
theorem bodyReader_tracks : bodyReader.Tracks Behind (SpellsBody true) := by
  intro state tokens token reached
  cases state with
  | body =>
    cases reached
    simp only [bodyReader, step]
    split
    next kind => exact .template kind .nil
    next kind => exact .list kind .nil
    next => trivial
  | template =>
    cases reached
    simp only [bodyReader, step]
    split
    next kind => exact .template kind .nil
    next => trivial
  | list =>
    cases reached
    simp only [bodyReader, step]
    split
    next kind => exact .list kind .nil
    next => trivial
  | inside frame outer =>
    cases frame with
    | template place parts =>
      simp only [bodyReader, step]
      split
      next kind => exact close_template reached kind
      next kind => exact Opens.extend_template reached fun before => .text before kind
      next kind => exact ⟨tokens, token, kind, rfl, rfl, reached⟩
      next kind => exact .listInTemplate reached kind .nil
      next => trivial
    | list place items =>
      simp only [bodyReader, step]
      split
      next kind => exact close_list reached kind
      next kind =>
        have grown : ∀ {inner nodes}, SpellsItems true inner nodes →
            SpellsItems true (inner ++ [token]) (nodes ++ []) := fun before => by
          simpa using before.comma kind
        exact Opens.extend_list reached grown
      next kind =>
        have grown : ∀ {inner nodes}, SpellsItems true inner nodes →
            SpellsItems true (inner ++ [token]) (nodes ++ []) := fun before => by
          simpa using before.lineBreak rfl kind
        exact Opens.extend_list reached grown
      next kind => exact Opens.extend_list reached fun before => .text before kind
      next kind => exact .templateInList reached kind .nil
      next => trivial
  | reference mark place parts outer =>
    obtain ⟨before, start, marked, rfl, rfl, opens⟩ := reached
    simp only [bodyReader, step]
    split
    next kind =>
      rw [List.append_assoc]
      exact opens.extend_template fun before => .reference before marked kind
    next => trivial

/-! ## Blocks -/

/-- A header mark, a name, and at least one line break. -/
inductive Titled : Span → String → List Token → Prop where
  | intro {mark title first : Token} {gap : List Token} (marked : mark.kind = .head)
      (named : title.kind = .name) (broken : first.kind = .lineBreak) (blank : AllBreaks gap) :
      Titled mark.span title.lexeme (mark :: title :: first :: gap)

theorem AllBreaks.nil : AllBreaks [] := nofun

theorem AllBreaks.snoc {gap : List Token} {token : Token} (blank : AllBreaks gap)
    (kind : token.kind = .lineBreak) : AllBreaks (gap ++ [token]) := by
  intro other member
  rcases List.mem_append.mp member with earlier | last
  · exact blank other earlier
  · rwa [List.mem_singleton.mp last]

theorem Titled.snoc {place : Span} {name : String} {tokens : List Token} {token : Token}
    (titled : Titled place name tokens) (kind : token.kind = .lineBreak) :
    Titled place name (tokens ++ [token]) := by
  cases titled with
  | intro marked named broken blank => exact .intro marked named broken (blank.snoc kind)

theorem Titled.spells {place : Span} {name : String} {tokens tokens' : List Token} {body : Node}
    (titled : Titled place name tokens) (spelt : SpellsBody true tokens' body) :
    SpellsBlock true (tokens ++ tokens') ⟨name, body, some place⟩ := by
  cases titled with
  | intro marked named broken blank => exact .intro marked named broken blank spelt

def BlockState.Behind : BlockState → List Token → Prop
  | head, tokens => tokens = []
  | title place, tokens => ∃ mark, mark.kind = .head ∧ mark.span = place ∧ tokens = [mark]
  | titleEnd place name, tokens => ∃ mark title, mark.kind = .head ∧ title.kind = .name ∧
      mark.span = place ∧ title.lexeme = name ∧ tokens = [mark, title]
  | gap place name, tokens => Titled place name tokens
  | body place name state, tokens => ∃ before inner, Titled place name before ∧
      state.Behind inner ∧ tokens = before ++ inner

open BlockState in
theorem BlockState.stepBody_all {place : Span} {name : String} {state : BodyState}
    {before inner : List Token} (titled : Titled place name before) (reached : state.Behind inner)
    (token : Token) :
    (stepBody place name state token).All (·.Behind (before ++ (inner ++ [token])))
      (SpellsBlock true (before ++ (inner ++ [token]))) := by
  refine (bodyReader_tracks token reached).map ?_ ?_
  · intro next reached
    exact ⟨before, inner ++ [token], titled, reached, rfl⟩
  · intro node spelt
    exact titled.spells spelt

open BlockState in
theorem blockReader_tracks : blockReader.Tracks Behind (SpellsBlock true) := by
  intro state tokens token reached
  cases state with
  | head =>
    cases reached
    simp only [blockReader, step]
    split
    next kind => exact ⟨token, kind, rfl, rfl⟩
    next => trivial
  | title place =>
    obtain ⟨mark, marked, rfl, rfl⟩ := reached
    simp only [blockReader, step]
    split
    next kind => exact ⟨mark, token, marked, kind, rfl, rfl, rfl⟩
    next => trivial
  | titleEnd place name =>
    obtain ⟨mark, title, marked, named, rfl, rfl, rfl⟩ := reached
    simp only [blockReader, step]
    split
    next kind => exact .intro marked named kind .nil
    next => trivial
  | gap place name =>
    simp only [blockReader, step]
    split
    next kind => exact reached.snoc kind
    next =>
      have start : BodyState.body.Behind [] := rfl
      simpa using stepBody_all reached start token
  | body place name state =>
    obtain ⟨before, inner, titled, reached, rfl⟩ := reached
    rw [List.append_assoc]
    exact stepBody_all titled reached token

/-! ## Documents -/

/-- Any number of blocks, the latest first, each with a line break behind it. -/
inductive Parted : List Block → List Token → Prop where
  | none {leading : List Token} (blank : AllBreaks leading) : Parted [] leading
  | some {leading tokens gap : List Token} {first : Token} {blocks : List Block}
      (blank : AllBreaks leading) (inner : SpellsBlocks true tokens blocks.reverse)
      (broken : first.kind = .lineBreak) (blank' : AllBreaks gap) :
      Parted blocks (leading ++ (tokens ++ first :: gap))

theorem Parted.snoc {blocks : List Block} {tokens : List Token} {token : Token}
    (parted : Parted blocks tokens) (kind : token.kind = .lineBreak) :
    Parted blocks (tokens ++ [token]) := by
  cases parted with
  | none blank => exact .none (blank.snoc kind)
  | some blank inner broken blank' =>
    have longer := Parted.some blank inner broken (blank'.snoc kind)
    simpa using longer

def DocumentState.Behind : DocumentState → List Token → Prop
  | between blocks, tokens => Parted blocks tokens
  | block blocks state, tokens => ∃ before inner, Parted blocks before ∧ state.Behind inner ∧
      tokens = before ++ inner
  | after blocks, tokens => ∃ leading inner, AllBreaks leading ∧
      SpellsBlocks true inner blocks.reverse ∧ tokens = leading ++ inner

theorem Parted.block {blocks : List Block} {block : Block} {tokens tokens' : List Token}
    (parted : Parted blocks tokens) (spelt : SpellsBlock true tokens' block) :
    (DocumentState.after (block :: blocks)).Behind (tokens ++ tokens') := by
  cases parted with
  | none blank => exact ⟨tokens, tokens', blank, .single spelt, rfl⟩
  | @some leading inner gap first _ blank spelt' broken blank' =>
    refine ⟨leading, inner ++ first :: (gap ++ tokens'), blank, ?_, by simp⟩
    rw [List.reverse_cons]
    exact .snoc spelt' broken blank' spelt

theorem DocumentState.stepBlock_all {blocks : List Block} {state : BlockState}
    {before inner : List Token} (parted : Parted blocks before) (reached : state.Behind inner)
    (token : Token) (spells : List Token → Document → Prop) :
    (stepBlock blocks state token).All (·.Behind (before ++ (inner ++ [token])))
      (spells (before ++ (inner ++ [token]))) := by
  refine (blockReader_tracks token reached).map ?_ ?_
  · intro next reached
    exact ⟨before, inner ++ [token], parted, reached, rfl⟩
  · intro block spelt
    exact parted.block spelt

open DocumentState in
theorem documentReader_tracks : documentReader.Tracks Behind (SpellsDocument true) := by
  intro state tokens token reached
  cases state with
  | between blocks =>
    simp only [documentReader, step]
    split
    next kind => exact reached.snoc kind
    next =>
      have start : BlockState.head.Behind [] := rfl
      simpa using stepBlock_all reached start token _
  | block blocks state =>
    obtain ⟨before, inner, parted, reached, rfl⟩ := reached
    rw [List.append_assoc]
    exact stepBlock_all parted reached token _
  | after blocks =>
    obtain ⟨leading, inner, blank, spelt, rfl⟩ := reached
    simp only [documentReader, step]
    split
    next kind =>
      rw [List.append_assoc]
      exact .some blank spelt kind .nil
    next => trivial

theorem DocumentState.spells_of_atEnd {state : DocumentState} {tokens : List Token}
    {document : Document} {stop : Token} (reached : state.Behind tokens)
    (complete : state.atEnd = .ok document) (finished : stop.kind = .finish) :
    SpellsDocument true (tokens ++ [stop]) document := by
  cases state with
  | between blocks =>
    cases complete
    cases reached with
    | none blank => exact .empty blank .nil finished
    | some blank inner broken blank' =>
      have spelt := SpellsDocument.blocks blank inner
        (List.forall_mem_cons.mpr ⟨broken, blank'⟩) finished
      simpa using spelt
  | block blocks state => cases complete
  | after blocks =>
    cases complete
    obtain ⟨leading, inner, blank, spelt, rfl⟩ := reached
    rw [List.append_assoc]
    exact .blocks blank spelt .nil finished

/-- What has been read up to the last token is a sentence, and the result is its tree. -/
theorem spells_of_steps {tokens : List Token} {stop : Token} {state : DocumentState}
    {document : Document} (taken : documentReader.steps (.between []) tokens = .more state)
    (complete : state.atEnd = .ok document) (finished : stop.kind = .finish) :
    SpellsDocument true (tokens ++ [stop]) document := by
  have start : (DocumentState.between []).Behind [] := .none .nil
  exact DocumentState.spells_of_atEnd (documentReader_tracks.steps start taken) complete finished

/-! ## Ways on -/

/-- A token of this kind; nothing else about it matters. -/
def Token.ofKind (kind : Kind) : Token := ⟨kind, "", ⟨"", 0, 0, 0⟩⟩

/-- Some tokens lead from the state to a result. -/
def Reader.Completes {σ α : Type} (reader : Reader σ α) (state : σ) : Prop :=
  ∃ later result, reader.steps state later = .done result

theorem Reader.Completes.of_step {σ α : Type} {reader : Reader σ α} {state next : σ} {token : Token}
    (completes : reader.Completes next) (taken : reader.step state token = .more next) :
    reader.Completes state := by
  obtain ⟨later, result, done⟩ := completes
  exact ⟨token :: later, result, by rw [steps_cons taken, done]⟩

theorem BodyState.closes (frame : Frame) (outer : List Frame) :
    ∃ stop node, bodyReader.step (.inside frame outer) stop = close node outer := by
  cases frame with
  | template place parts => exact ⟨Token.ofKind .closeQuote, _, rfl⟩
  | list place items => exact ⟨Token.ofKind .closeBracket, _, rfl⟩

theorem BodyState.inside_completes (frame : Frame) (outer : List Frame) :
    bodyReader.Completes (.inside frame outer) := by
  -- one closing token for each open frame
  induction outer generalizing frame with
  | nil =>
    obtain ⟨stop, node, closes⟩ := closes frame []
    exact ⟨[stop], node, by rw [Reader.steps_singleton, closes, close]⟩
  | cons around outer ih =>
    obtain ⟨stop, node, closes⟩ := closes frame (around :: outer)
    exact (ih (around.add node)).of_step closes

theorem bodyReader_completes (state : BodyState) : bodyReader.Completes state := by
  have quoted : ∀ state, bodyReader.step state (Token.ofKind .openQuote) =
      BodyState.openTemplate (Token.ofKind .openQuote) [] → bodyReader.Completes state :=
    fun _ opens => (BodyState.inside_completes _ []).of_step opens
  cases state with
  | body => exact quoted _ rfl
  | template => exact quoted _ rfl
  | list =>
    exact (BodyState.inside_completes _ []).of_step
      (rfl : bodyReader.step .list (Token.ofKind .openBracket) = _)
  | inside frame outer => exact BodyState.inside_completes frame outer
  | reference mark place parts outer =>
    exact (BodyState.inside_completes _ outer).of_step
      (rfl : bodyReader.step (.reference mark place parts outer) (Token.ofKind .name) = _)

theorem blockReader_completes (state : BlockState) : blockReader.Completes state := by
  -- backwards from the body, each state is one token away from the next
  have body : ∀ place name state, blockReader.Completes (.body place name state) := by
    intro place name state
    obtain ⟨later, node, done⟩ := bodyReader_completes state
    exact ⟨later, _, Reader.steps_map (blockReader_body place name) done⟩
  have gap : ∀ place name, blockReader.Completes (.gap place name) := fun place name =>
    (body place name _).of_step
      (rfl : blockReader.step (.gap place name) (Token.ofKind .openQuote) = _)
  have titleEnd : ∀ place name, blockReader.Completes (.titleEnd place name) := fun place name =>
    (gap place name).of_step
      (rfl : blockReader.step (.titleEnd place name) (Token.ofKind .lineBreak) = _)
  have title : ∀ place, blockReader.Completes (.title place) := fun place =>
    (titleEnd place _).of_step (rfl : blockReader.step (.title place) (Token.ofKind .name) = _)
  cases state with
  | head => exact (title _).of_step (rfl : blockReader.step .head (Token.ofKind .head) = _)
  | title place => exact title place
  | titleEnd place name => exact titleEnd place name
  | gap place name => exact gap place name
  | body place name state => exact body place name state

/-- From every state some tokens lead to one where the input may end. -/
theorem documentReader_completes (state : DocumentState) :
    ∃ later next document, documentReader.steps state later = .more next ∧
      next.atEnd = .ok document := by
  cases state with
  | between blocks => exact ⟨[], _, _, rfl, rfl⟩
  | after blocks => exact ⟨[], _, _, rfl, rfl⟩
  | block blocks state =>
    obtain ⟨later, block, done⟩ := blockReader_completes state
    exact ⟨later, _, _, Reader.steps_map (documentReader_block blocks) done, rfl⟩

end TextGrammar
