import TextGrammar.Lexicon
import TextGrammar.Random.Chooser

/-!
# Expansion

A rule is expanded to text depth first and left to right. The sequence at hand and the rests of the
sequences around it, innermost first, are all there is to remember: a reference or a picked sequence
replaces the sequence at hand, whose rest is put aside unless nothing is left of it. So a rule that
refers to itself at its end needs no room. A choice with items draws one of them, and a choice
without items is nothing.

Taking up a part is a step. Steps can be limited, and since a rule may never come to an end, a run
without a limit is given a patience instead: the number of steps after which it is left unfinished.
-/
namespace TextGrammar

inductive ExpansionFault where
  | unknownRule (name : String)
  | stepLimit (name : String) (limit : Int)
  | misplacedSequence (name : String) (parts : List Part)

def ExpansionFault.message : ExpansionFault → String
  | unknownRule name => "Error: The rule '" ++ name ++ "' is never defined."
  | stepLimit name limit =>
    "Error: Resolving '" ++ name ++ "' did not finish within " ++ toString limit ++ " steps."
  | misplacedSequence name parts =>
    "Error: Unhandled compiled part " ++ (Part.sequence parts).render ++ " in '" ++ name ++ "'."

/-- A run under way: the text so far, the parts at hand, the rests put aside, the draws so far with
the latest first, and what the next draws come from. -/
structure Run (σ : Type) where
  output : String
  current : List Part
  pending : List (List Part)
  draws : List Draw
  source : σ

inductive Ending where
  | text (value : String)
  | fault (fault : ExpansionFault)
  | unfinished

/-- How a run ended, the draws that it made, in order, and what further draws come from. -/
structure Outcome (σ : Type) where
  ending : Ending
  draws : List Draw
  source : σ

/-- The part to take up next and what is left after it. -/
def nextPart : List Part → List (List Part) → Option (Part × List Part × List (List Part))
  | part :: rest, pending => some (part, rest, pending)
  | [], frame :: pending => nextPart frame pending
  | [], [] => none

namespace Run

variable {σ : Type}

def stop (ending : Ending) (run : Run σ) : Outcome σ := ⟨ending, run.draws.reverse, run.source⟩

def write (text : String) (run : Run σ) : Run σ := { run with output := run.output ++ text }

/-- Goes on with `parts`, and later with what is at hand. -/
def enter (parts : List Part) (run : Run σ) : Run σ :=
  { run with
    current := parts
    pending := if run.current.isEmpty then run.pending else run.current :: run.pending }

/-- Draws one of `others + 1` items. -/
def draw [Chooser σ] (others : Nat) (run : Run σ) : Fin (others + 1) × Run σ :=
  let (pick, source) := Chooser.choose others run.source
  (pick, { run with draws := ⟨others + 1, pick⟩ :: run.draws, source := source })

/-- Does what a part asks for, once it has been taken up, or stops. `name` is the rule that is being
expanded. -/
def take [Chooser σ] (lexicon : Lexicon) (name : String) (part : Part) (run : Run σ) :
    Except (Outcome σ) (Run σ) :=
  match part with
  | .text value => .ok (run.write value)
  | .reference other =>
    match lexicon.rule? other with
    | some rule => .ok (run.enter rule)
    | none => .error (run.stop (.fault (.unknownRule other)))
  -- there is nothing to draw from
  | .choice [] => .ok run
  | .choice (item :: others) =>
    let (pick, run) := run.draw others.length
    match (item :: others).get pick with
    | .text value => .ok (run.write value)
    | .sequence parts => .ok (run.enter parts)
  -- a sequence belongs in a choice and is no part of its own
  | .sequence parts => .error (run.stop (.fault (.misplacedSequence name parts)))

/-- Goes on for at most `steps` steps. -/
def proceed [Chooser σ] (lexicon : Lexicon) (name : String) (steps : Nat) (run : Run σ) :
    Outcome σ :=
  match nextPart run.current run.pending with
  | none => run.stop (.text run.output)
  | some (part, rest, pending) =>
    match steps with
    | 0 => run.stop .unfinished
    | steps + 1 =>
      match { run with current := rest, pending := pending }.take lexicon name part with
      | .ok run => run.proceed lexicon name steps
      | .error outcome => outcome

end Run

/-- Expands the rule called `name`. With a limit, going on past it is a fault. -/
def Lexicon.expand {σ : Type} [Chooser σ] (lexicon : Lexicon) (name : String) (limit : Option Int)
    (patience : Nat) (source : σ) : Outcome σ :=
  match lexicon.rule? name with
  | none => ⟨.fault (.unknownRule name), [], source⟩
  | some rule =>
    let run : Run σ := ⟨"", rule, [], [], source⟩
    match limit with
    | none => run.proceed lexicon name patience
    | some limit =>
      let outcome := run.proceed lexicon name limit.toNat
      match outcome.ending with
      -- there is a part left, and taking it up would go past the limit
      | .unfinished => { outcome with ending := .fault (.stepLimit name limit) }
      | _ => outcome

end TextGrammar
