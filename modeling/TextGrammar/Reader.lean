import TextGrammar.Window

/-!
# Readers

A reader consumes tokens one at a time. In each state a token other than the last is used up, with
or without completing the result, or refused, possibly with the kind that was wanted instead. At the
end of the input nothing can be used up: either the result is complete or the fault has a context.

Running a reader on a window ends, because each token that is used up makes the window smaller.
-/
namespace TextGrammar

inductive Step (σ α : Type) where
  | more (state : σ)
  | done (result : α)
  | refuse (expected : Option Kind)
  deriving DecidableEq, Repr

def Step.map {σ σ' α α' : Type} (state : σ → σ') (result : α → Step σ' α') :
    Step σ α → Step σ' α'
  | more next => more (state next)
  | done value => result value
  | refuse expected => refuse expected

structure Reader (σ α : Type) where
  step : σ → Token → Step σ α
  atEnd : σ → Except (Option String) α

namespace Reader

variable {σ α : Type}

def run (reader : Reader σ α) (state : σ) (window : Window) : Except Diagnostic α × Window :=
  if _ : window.current.kind = .finish then
    match reader.atEnd state with
    | .ok result => (.ok result, window)
    | .error context => (.error (window.exhausted context), window)
  else
    match reader.step state window.current with
    | .refuse expected => (.error (window.unexpected expected), window)
    | .done result =>
      let (moved, window) := window.advance
      (moved.map fun _ => result, window)
    | .more next =>
      match _ : window.advance with
      | (.ok (), window) => reader.run next window
      | (.error fault, window) => (.error fault, window)
termination_by window.size
decreasing_by exact Window.advance_shrinks ‹_› ‹_›

end Reader
end TextGrammar
