import TextGrammar.Proofs.Tree.Grammar
import TextGrammar.Tree.Document

/-!
# Readers read their grammar

Apart from windows and faults, a reader is a machine that takes one token after the other. The
machine takes every spelling that the grammar has (`SpellsBlocks.taken` and what leads up to it),
and what it has taken so far always fits the grammar (`Reader.Tracks`): a state says what the tokens
behind it spell, and one step keeps that up.
-/
namespace TextGrammar
namespace Reader

variable {σ α σ' α' : Type}

/-- Where taking some tokens leads to. A result that is complete leaves no room for more. -/
def steps (reader : Reader σ α) (state : σ) : List Token → Step σ α
  | [] => .more state
  | token :: tokens =>
    match reader.step state token with
    | .more next => reader.steps next tokens
    | .done result => if tokens.isEmpty then .done result else .refuse none
    | .refuse expected => .refuse expected

theorem steps_cons {reader : Reader σ α} {state next : σ} {token : Token}
    (taken : reader.step state token = .more next) (tokens : List Token) :
    reader.steps state (token :: tokens) = reader.steps next tokens := by
  rw [steps, taken]

theorem steps_congr {reader : Reader σ α} {state state' : σ} {token : Token}
    (same : reader.step state token = reader.step state' token) (tokens : List Token) :
    reader.steps state (token :: tokens) = reader.steps state' (token :: tokens) := by
  rw [steps, steps, same]

theorem steps_singleton (reader : Reader σ α) (state : σ) (token : Token) :
    reader.steps state [token] = reader.step state token := by
  rw [steps]
  cases reader.step state token <;> rfl

theorem steps_cons_iff {reader : Reader σ α} {state next : σ} {token : Token}
    {tokens : List Token} :
    reader.steps state (token :: tokens) = .more next ↔
      ∃ middle, reader.step state token = .more middle ∧
        reader.steps middle tokens = .more next := by
  rw [steps]
  cases reader.step state token with
  | more middle => simp
  | done result =>
    dsimp only
    split <;> simp
  | refuse expected => simp

theorem steps_append {reader : Reader σ α} {state next : σ} {front : List Token}
    (taken : reader.steps state front = .more next) (back : List Token) :
    reader.steps state (front ++ back) = reader.steps next back := by
  induction front generalizing state with
  | nil =>
    cases taken
    rfl
  | cons token front ih =>
    obtain ⟨middle, first, rest⟩ := steps_cons_iff.mp taken
    rw [List.cons_append, steps_cons first]
    exact ih rest

theorem steps_append_iff {reader : Reader σ α} {state next : σ} {front back : List Token} :
    reader.steps state (front ++ back) = .more next ↔
      ∃ middle, reader.steps state front = .more middle ∧
        reader.steps middle back = .more next := by
  induction front generalizing state with
  | nil => simp [steps]
  | cons token front ih =>
    rw [List.cons_append, steps_cons_iff]
    constructor
    · rintro ⟨first, taken, rest⟩
      obtain ⟨middle, front, back⟩ := ih.mp rest
      exact ⟨middle, steps_cons_iff.mpr ⟨first, taken, front⟩, back⟩
    · rintro ⟨middle, front, back⟩
      obtain ⟨first, taken, rest⟩ := steps_cons_iff.mp front
      exact ⟨first, taken, ih.mpr ⟨middle, rest, back⟩⟩

theorem steps_snoc {reader : Reader σ α} {state next : σ} {front : List Token}
    (taken : reader.steps state front = .more next) (token : Token) :
    reader.steps state (front ++ [token]) = reader.step next token := by
  rw [steps_append taken, steps_singleton]

/-- A reader that passes its tokens on to another one goes on with what that one comes to. -/
theorem steps_map {reader : Reader σ α} {reader' : Reader σ' α'} {wrap : σ → σ'}
    {finish : α → Step σ' α'}
    (passes : ∀ state token, reader'.step (wrap state) token =
      (reader.step state token).map wrap finish) {state : σ} {tokens : List Token} {result : α}
    (done : reader.steps state tokens = .done result) :
    reader'.steps (wrap state) tokens = finish result := by
  induction tokens generalizing state with
  | nil => cases done
  | cons token tokens ih =>
    cases step : reader.step state token with
    | more next =>
      have taken : reader'.step (wrap state) token = .more (wrap next) := by
        rw [passes, step, Step.map]
      rw [steps_cons step] at done
      rw [steps_cons taken]
      exact ih done
    | done result' =>
      -- the result is there, so this was the last token
      rw [steps, step] at done
      cases tokens with
      | nil =>
        cases done
        rw [steps_singleton, passes, step, Step.map]
      | cons second tokens => cases done
    | refuse expected =>
      rw [steps, step] at done
      cases done

end Reader

/-! ## Every spelling is taken -/

section Taken

open BodyState

variable {breaks : Bool}

theorem BodyState.step_openBracket {token : Token} (kind : token.kind = .openBracket) (place : Span)
    (parts : List Node) (outer : List Frame) :
    (inside (.template place parts) outer).step token =
      openList token (.template place parts :: outer) := by
  simp [step, kind]

theorem BodyState.step_openQuote {token : Token} (kind : token.kind = .openQuote) (place : Span)
    (items : List Node) (outer : List Frame) :
    (inside (.list place items) outer).step token =
      openTemplate token (.list place items :: outer) := by
  simp [step, kind]

-- By induction on the derivation, in whatever frames the construct stands. A template or a list
-- that is closed is handed to the frame around it, or is the result when there is none.
mutual

theorem SpellsTemplate.taken {tokens : List Token} {node : Node}
    (spelt : SpellsTemplate breaks tokens node) {state : BodyState} {outer : List Frame}
    (opens : ∀ token, token.kind = .openQuote → state.step token = openTemplate token outer) :
    bodyReader.steps state tokens = close node outer := by
  match spelt with
  | .intro opened inner closed =>
    rw [Reader.steps_cons (opens _ opened), Reader.steps_snoc (inner.taken _ outer)]
    simp [bodyReader, step, closed]

theorem SpellsParts.taken {tokens : List Token} {parts : List Node}
    (spelt : SpellsParts breaks tokens parts) (place : Span) (outer : List Frame) :
    bodyReader.steps (.inside (.template place []) outer) tokens =
      .more (.inside (.template place parts.reverse) outer) := by
  match spelt with
  | .nil => rfl
  | .text before kind =>
    rw [Reader.steps_snoc (before.taken place outer)]
    simp [bodyReader, step, kind]
  | .reference before marked named =>
    rw [Reader.steps_append (before.taken place outer)]
    simp [Reader.steps, bodyReader, step, marked, named]
  | .list before last =>
    rw [Reader.steps_append (before.taken place outer)]
    rw [last.taken fun token kind => step_openBracket kind place _ outer]
    simp [close, Frame.add]

theorem SpellsList.taken {tokens : List Token} {node : Node}
    (spelt : SpellsList breaks tokens node) {state : BodyState} {outer : List Frame}
    (opens : ∀ token, token.kind = .openBracket → state.step token = openList token outer) :
    bodyReader.steps state tokens = close node outer := by
  match spelt with
  | .intro opened inner closed =>
    rw [Reader.steps_cons (opens _ opened), Reader.steps_snoc (inner.taken _ outer)]
    simp [bodyReader, step, closed]

theorem SpellsItems.taken {tokens : List Token} {items : List Node}
    (spelt : SpellsItems breaks tokens items) (place : Span) (outer : List Frame) :
    bodyReader.steps (.inside (.list place []) outer) tokens =
      .more (.inside (.list place items.reverse) outer) := by
  match spelt with
  | .nil => rfl
  | .text before kind =>
    rw [Reader.steps_snoc (before.taken place outer)]
    simp [bodyReader, step, kind]
  | .comma before kind =>
    rw [Reader.steps_snoc (before.taken place outer)]
    simp [bodyReader, step, kind]
  | .lineBreak before allowed kind =>
    rw [Reader.steps_snoc (before.taken place outer)]
    simp [bodyReader, step, kind]
  | .template before last =>
    rw [Reader.steps_append (before.taken place outer)]
    rw [last.taken fun token kind => step_openQuote kind place _ outer]
    simp [close, Frame.add]

end

theorem SpellsBody.taken {tokens : List Token} {node : Node}
    (spelt : SpellsBody breaks tokens node) :
    bodyReader.steps .body tokens = .done node := by
  have taken : bodyReader.steps .body tokens = close node [] := by
    cases spelt with
    | template spelt => exact spelt.taken fun token kind => by simp [step, kind]
    | list spelt => exact spelt.taken fun token kind => by simp [step, kind]
  exact taken

theorem SpellsBody.starts {tokens : List Token} {node : Node}
    (spelt : SpellsBody breaks tokens node) :
    ∃ token rest, tokens = token :: rest ∧ token.kind ≠ .lineBreak := by
  cases spelt with
  | template spelt =>
    cases spelt with
    | intro opened inner closed => exact ⟨_, _, rfl, by simp [opened]⟩
  | list spelt =>
    cases spelt with
    | intro opened inner closed => exact ⟨_, _, rfl, by simp [opened]⟩

theorem gap_taken {gap : List Token} (blank : AllBreaks gap) (place : Span) (name : String) :
    blockReader.steps (.gap place name) gap = .more (.gap place name) := by
  induction gap with
  | nil => rfl
  | cons token gap ih =>
    obtain ⟨kind, rest⟩ := List.forall_mem_cons.mp blank
    have taken : blockReader.step (.gap place name) token = .more (.gap place name) := by
      simp [blockReader, BlockState.step, kind]
    rw [Reader.steps_cons taken]
    exact ih rest

/-- The first token that is no line break is taken for the body. -/
theorem steps_gap {token : Token} (kind : token.kind ≠ .lineBreak) (tokens : List Token)
    (place : Span) (name : String) :
    blockReader.steps (.gap place name) (token :: tokens) =
      blockReader.steps (.body place name .body) (token :: tokens) := by
  have same : blockReader.step (.gap place name) token =
      blockReader.step (.body place name .body) token := by
    simp [blockReader, BlockState.step]
  exact Reader.steps_congr same tokens

theorem blockReader_body (place : Span) (name : String) (state : BodyState) (token : Token) :
    blockReader.step (.body place name state) token =
      (bodyReader.step state token).map (.body place name) fun body =>
        .done ⟨name, body, some place⟩ := rfl

theorem documentReader_block (blocks : List Block) (state : BlockState) (token : Token) :
    documentReader.step (.block blocks state) token =
      (blockReader.step state token).map (.block blocks) fun block =>
        .more (.after (block :: blocks)) := rfl

theorem SpellsBlock.taken {tokens : List Token} {block : Block}
    (spelt : SpellsBlock breaks tokens block) : blockReader.steps .head tokens = .done block := by
  cases spelt with
  | @intro mark name first gap tokens body marked named broken blank inner =>
    have head : blockReader.step .head mark = .more (.title mark.span) := by
      simp [blockReader, BlockState.step, marked]
    have title : blockReader.step (.title mark.span) name =
        .more (.titleEnd mark.span name.lexeme) := by
      simp [blockReader, BlockState.step, named]
    have titleEnd : blockReader.step (.titleEnd mark.span name.lexeme) first =
        .more (.gap mark.span name.lexeme) := by
      simp [blockReader, BlockState.step, broken]
    rw [Reader.steps_cons head, Reader.steps_cons title, Reader.steps_cons titleEnd,
      Reader.steps_append (gap_taken blank _ _)]
    obtain ⟨token, rest, rfl, kind⟩ := inner.starts
    rw [steps_gap kind]
    exact Reader.steps_map (blockReader_body _ _) inner.taken

theorem breaks_taken {gap : List Token} (blank : AllBreaks gap) (blocks : List Block) :
    documentReader.steps (.between blocks) gap = .more (.between blocks) := by
  induction gap with
  | nil => rfl
  | cons token gap ih =>
    obtain ⟨kind, rest⟩ := List.forall_mem_cons.mp blank
    have taken : documentReader.step (.between blocks) token = .more (.between blocks) := by
      simp [documentReader, DocumentState.step, kind]
    rw [Reader.steps_cons taken]
    exact ih rest

theorem SpellsBlock.taken_between {tokens : List Token} {block : Block}
    (spelt : SpellsBlock breaks tokens block) (blocks : List Block) :
    documentReader.steps (.between blocks) tokens = .more (.after (block :: blocks)) := by
  have taken := spelt.taken
  obtain ⟨token, rest, rfl, kind⟩ : ∃ token rest, tokens = token :: rest ∧ token.kind = .head := by
    cases spelt with
    | intro marked named broken blank inner => exact ⟨_, _, rfl, marked⟩
  have same : documentReader.step (.between blocks) token =
      documentReader.step (.block blocks .head) token := by
    simp [documentReader, DocumentState.step, kind]
  rw [Reader.steps_congr same]
  exact Reader.steps_map (documentReader_block blocks) taken

theorem SpellsBlocks.taken {tokens : List Token} {blocks : List Block}
    (spelt : SpellsBlocks breaks tokens blocks) :
    documentReader.steps (.between []) tokens = .more (.after blocks.reverse) := by
  induction spelt with
  | single only => exact only.taken_between []
  | @snoc tokens gap tokens' first blocks block before broken blank last ih =>
    have parted : documentReader.step (.after blocks.reverse) first =
        .more (.between blocks.reverse) := by
      simp [documentReader, DocumentState.step, broken]
    rw [Reader.steps_append ih, Reader.steps_cons parted,
      Reader.steps_append (breaks_taken blank _), last.taken_between]
    simp

/-- Up to the last token everything is used up, and then the tree is there. -/
theorem SpellsDocument.taken {tokens : List Token} {document : Document}
    (spelt : SpellsDocument breaks tokens document) :
    ∃ front stop state, tokens = front ++ [stop] ∧ stop.kind = .finish ∧
      documentReader.steps (.between []) front = .more state ∧ state.atEnd = .ok document := by
  cases spelt with
  | @empty leading trailing stop blank blank' finished =>
    refine ⟨leading ++ trailing, stop, .between [], (List.append_assoc ..).symm, finished, ?_, rfl⟩
    rw [Reader.steps_append (breaks_taken blank []), breaks_taken blank']
  | @blocks leading tokens trailing stop blocks blank inner blank' finished =>
    have taken : documentReader.steps (.between []) (leading ++ tokens) =
        .more (.after blocks.reverse) := by
      rw [Reader.steps_append (breaks_taken blank []), inner.taken]
    -- the input may end right after the last block or after more line breaks
    have last : ∃ state, documentReader.steps (.after blocks.reverse) trailing = .more state ∧
        state.atEnd = .ok ⟨blocks⟩ := by
      cases trailing with
      | nil => exact ⟨_, rfl, by simp [DocumentState.atEnd]⟩
      | cons token gap =>
        obtain ⟨kind, rest⟩ := List.forall_mem_cons.mp blank'
        have parted : documentReader.step (.after blocks.reverse) token =
            .more (.between blocks.reverse) := by
          simp [documentReader, DocumentState.step, kind]
        rw [Reader.steps_cons parted, breaks_taken rest]
        exact ⟨_, rfl, by simp [DocumentState.atEnd]⟩
    obtain ⟨state, taken', complete⟩ := last
    refine ⟨leading ++ tokens ++ trailing, stop, state, ?_, finished, ?_, complete⟩
    · simp only [List.append_assoc]
    · rw [Reader.steps_append taken, taken']

end Taken
end TextGrammar
