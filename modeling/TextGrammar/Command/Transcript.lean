import TextGrammar.Command.Generate

/-!
# Transcripts

A run of the command can be recorded instead of shown. What it would have met outside is given
beforehand, so the transcript is a function of that and of the arguments.
-/
namespace TextGrammar.Command

/-- The pieces that were written, latest first. -/
structure Transcript where
  out : List String
  err : List String
  deriving DecidableEq, Repr

namespace Transcript

def empty : Transcript := ⟨[], []⟩

def stdout (transcript : Transcript) : String := String.join transcript.out.reverse

def stderr (transcript : Transcript) : String := String.join transcript.err.reverse

end Transcript

structure Surroundings where
  load : String → Except String ByteArray
  isTerminal : Bool
  elapsed : String
  entropy : Int

def recorder (surroundings : Surroundings) : Console (StateM Transcript) where
  out piece := modify fun transcript => { transcript with out := piece :: transcript.out }
  err piece := modify fun transcript => { transcript with err := piece :: transcript.err }
  lap := pure surroundings.elapsed
  isTerminal := surroundings.isTerminal
  load file := pure (surroundings.load file)
  entropy := pure surroundings.entropy

def record (surroundings : Surroundings) (arguments : List String) (patience : Nat) :
    Exit × Transcript :=
  (run (recorder surroundings) arguments patience).run .empty

end TextGrammar.Command
