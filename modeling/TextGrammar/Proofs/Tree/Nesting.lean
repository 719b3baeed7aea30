import TextGrammar.Proofs.Token.Modes
import TextGrammar.Tree.Document

/-!
# Open constructs stand on the stack of modes

A reader keeps the constructs that are open as frames, and the scanner keeps them as modes. The two
agree: the modes in which a token has been scanned have the frames of the state that judges it on
top, in the same order. What is below does not matter, so this holds wherever reading has begun. It
rules out the tokens that a construct has no answer to: in a template none is left, and in a list
just the bracket that opens another list.
-/
namespace TextGrammar

def Frame.mode : Frame → Mode
  | template .. => .template
  | list .. => .list

@[simp] theorem Frame.mode_add (frame : Frame) (node : Node) :
    (frame.add node).mode = frame.mode := by
  cases frame <;> rfl

namespace BodyState

/-- In these modes the next token for the state is scanned. -/
def Fits : BodyState → List Mode → Prop
  | inside frame outer, modes => ∃ base, modes = frame.mode :: (outer.map Frame.mode ++ base)
  | reference _ _ _ outer, modes =>
    ∃ base, modes = .name :: .template :: (outer.map Frame.mode ++ base)
  | body, _ | template, _ | list, _ => True

variable {state next : BodyState} {token : Token} {modes modes' : List Mode}

theorem fits_openTemplate {outer : List Frame} {base : List Mode}
    (opened : openTemplate token outer = .more next) :
    next.Fits (.template :: (outer.map Frame.mode ++ base)) := by
  cases opened
  exact ⟨base, rfl⟩

theorem fits_openList {outer : List Frame} {base : List Mode}
    (opened : openList token outer = .more next) :
    next.Fits (.list :: (outer.map Frame.mode ++ base)) := by
  cases opened
  exact ⟨base, rfl⟩

/-- The frame around a complete construct is on top again. -/
theorem fits_close {node : Node} {outer : List Frame} {base : List Mode}
    (closed : close node outer = .more next) : next.Fits (outer.map Frame.mode ++ base) := by
  cases outer with
  | nil => cases closed
  | cons frame outer =>
    cases closed
    exact ⟨base, by simp⟩

theorem close_ne_refuse (node : Node) (outer : List Frame) (expected : Option Kind) :
    close node outer ≠ .refuse expected := by
  cases outer <;> exact nofun

/-- Opening and closing a construct does to the frames what it does to the modes. -/
theorem Fits.step (fits : state.Fits modes) (moves : Moves modes token.kind modes')
    (taken : state.step token = .more next) : next.Fits modes' := by
  -- what is read first may be open in any modes, so only the token says which one is on top
  have opens_template (opened : openTemplate token [] = .more next)
      (kind : token.kind = .openQuote) : next.Fits modes' := by
    obtain ⟨base, rfl⟩ := (kind ▸ moves).of_openQuote
    exact fits_openTemplate opened
  have opens_list (opened : openList token [] = .more next) (kind : token.kind = .openBracket) :
      next.Fits modes' := by
    obtain ⟨base, rfl⟩ := (kind ▸ moves).of_openBracket
    exact fits_openList opened
  cases state with
  | body =>
    simp only [BodyState.step] at taken
    split at taken
    next kind => exact opens_template taken kind
    next kind => exact opens_list taken kind
    next => cases taken
  | template =>
    simp only [BodyState.step] at taken
    split at taken
    next kind => exact opens_template taken kind
    next => cases taken
  | list =>
    simp only [BodyState.step] at taken
    split at taken
    next kind => exact opens_list taken kind
    next => cases taken
  | inside frame outer =>
    obtain ⟨base, rfl⟩ := fits
    cases frame with
    | template place parts =>
      rcases moves.of_template with ⟨kind, rfl⟩ | ⟨kind, rfl⟩ | ⟨kind, rfl⟩ | ⟨kind, rfl⟩
      · simp only [BodyState.step, kind] at taken
        cases taken
        exact ⟨base, rfl⟩
      · simp only [BodyState.step, kind] at taken
        exact fits_close taken
      · simp only [BodyState.step, kind] at taken
        cases taken
        exact ⟨base, rfl⟩
      · simp only [BodyState.step, kind] at taken
        exact fits_openList taken
    | list place items =>
      rcases moves.of_list with ⟨kind | kind, rfl⟩ | ⟨kind, rfl⟩ | ⟨kind, rfl⟩ | ⟨kind, rfl⟩
      · simp only [BodyState.step, kind] at taken
        cases taken
        exact ⟨base, rfl⟩
      · simp only [BodyState.step, kind] at taken
        cases taken
        exact ⟨base, rfl⟩
      · simp only [BodyState.step, kind] at taken
        exact fits_close taken
      · simp only [BodyState.step, kind] at taken
        exact fits_openTemplate taken
      · simp only [BodyState.step, kind] at taken
        cases taken
  | reference mark place parts outer =>
    obtain ⟨base, rfl⟩ := fits
    obtain ⟨kind, rfl⟩ := moves.of_name
    simp only [BodyState.step, kind] at taken
    cases taken
    exact ⟨base, rfl⟩

/-- A token that the state may come upon. A template takes it, whatever it is, and a list takes it
unless it opens another list; neither comes upon the end of the input. -/
def MayMeet : BodyState → Token → Prop
  | inside (.template place parts) outer, token =>
    token.kind ≠ .finish ∧
      ∀ expected, (inside (.template place parts) outer).step token ≠ .refuse expected
  | inside (.list place items) outer, token =>
    token.kind ≠ .finish ∧ token.kind ≠ .lineBreak ∧
      ((∃ expected, (inside (.list place items) outer).step token = .refuse expected) ↔
        token.kind = .openBracket)
  | _, _ => True

theorem Fits.mayMeet (fits : state.Fits modes) (moves : Moves modes token.kind modes') :
    state.MayMeet token := by
  cases state with
  | body | template | list | reference => trivial
  | inside frame outer =>
    obtain ⟨base, rfl⟩ := fits
    cases frame with
    | template place parts =>
      rcases moves.of_template with ⟨kind, rfl⟩ | ⟨kind, rfl⟩ | ⟨kind, rfl⟩ | ⟨kind, rfl⟩
      all_goals simp [MayMeet, BodyState.step, kind, openList, close_ne_refuse]
    | list place items =>
      rcases moves.of_list with ⟨kind | kind, rfl⟩ | ⟨kind, rfl⟩ | ⟨kind, rfl⟩ | ⟨kind, rfl⟩
      all_goals simp [MayMeet, BodyState.step, kind, openTemplate, close_ne_refuse]

/-- What is not inside anything may meet any token. -/
theorem mayMeet_of_fresh (fresh : state.Fits []) (token : Token) : state.MayMeet token := by
  cases state with
  | body | template | list | reference => trivial
  | inside frame outer => cases fresh.choose_spec

end BodyState

/-! ## Bodies that are read as part of something -/

section Parts

variable {σ α σ' α' : Type}

theorem Step.map_eq_more_iff {step : Step σ α} {wrap : σ → σ'} {finish : α → Step σ' α'}
    {next : σ'} : step.map wrap finish = .more next ↔
      (∃ inner, step = .more inner ∧ wrap inner = next) ∨
        ∃ result, step = .done result ∧ finish result = .more next := by
  cases step <;> simp [Step.map]

/-- The state in which a body is being read, if the reader is at one. -/
def BlockState.body? : BlockState → Option BodyState
  | body _ _ state => some state
  | head | title _ | titleEnd .. | gap .. => none

def DocumentState.body? : DocumentState → Option BodyState
  | block _ state => state.body?
  | between _ | after _ => none

/-- One step keeps the body that is being read in agreement with the modes. -/
def Reader.Nests (reader : Reader σ α) (body? : σ → Option BodyState) : Prop :=
  ∀ {state next : σ} {token : Token} {modes modes' : List Mode},
    (∀ inner ∈ body? state, inner.Fits modes) → Moves modes token.kind modes' →
      reader.step state token = .more next → ∀ inner ∈ body? next, inner.Fits modes'

theorem bodyReader_nests : bodyReader.Nests some := by
  rintro state next token modes modes' fits moves taken inner ⟨⟩
  exact (fits state rfl).step moves taken

theorem BlockState.fits_stepBody {place : Span} {name : String} {state : BodyState} {token : Token}
    {next : BlockState} {modes modes' : List Mode} (fits : state.Fits modes)
    (moves : Moves modes token.kind modes') (taken : stepBody place name state token = .more next) :
    ∀ inner ∈ next.body?, inner.Fits modes' := by
  rcases Step.map_eq_more_iff.mp taken with ⟨_, moved, rfl⟩ | ⟨_, _, ⟨⟩⟩
  rintro inner ⟨⟩
  exact fits.step moves moved

theorem blockReader_nests : blockReader.Nests BlockState.body? := by
  intro state next token modes modes' fits moves taken
  cases state with
  | head | title | titleEnd =>
    simp only [blockReader, BlockState.step] at taken
    split at taken <;> cases taken
    exact nofun
  | gap place name =>
    simp only [blockReader, BlockState.step] at taken
    split at taken
    · cases taken
      exact nofun
    · have start : BodyState.body.Fits modes := trivial
      exact BlockState.fits_stepBody start moves taken
  | body place name state => exact BlockState.fits_stepBody (fits state rfl) moves taken

theorem DocumentState.fits_stepBlock {blocks : List Block} {state : BlockState} {token : Token}
    {next : DocumentState} {modes modes' : List Mode}
    (fits : ∀ inner ∈ state.body?, inner.Fits modes) (moves : Moves modes token.kind modes')
    (taken : stepBlock blocks state token = .more next) :
    ∀ inner ∈ next.body?, inner.Fits modes' := by
  rcases Step.map_eq_more_iff.mp taken with ⟨_, moved, rfl⟩ | ⟨_, _, ⟨⟩⟩
  · exact blockReader_nests fits moves moved
  · exact nofun

theorem documentReader_nests : documentReader.Nests DocumentState.body? := by
  intro state next token modes modes' fits moves taken
  cases state with
  | between blocks =>
    simp only [documentReader, DocumentState.step] at taken
    split at taken
    · cases taken
      exact nofun
    · have start : ∀ inner ∈ BlockState.head.body?, inner.Fits modes := nofun
      exact DocumentState.fits_stepBlock start moves taken
  | block blocks state => exact DocumentState.fits_stepBlock fits moves taken
  | after blocks =>
    simp only [documentReader, DocumentState.step] at taken
    split at taken <;> cases taken
    exact nofun

end Parts
end TextGrammar
