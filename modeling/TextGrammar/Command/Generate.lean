import TextGrammar.Command.Options
import TextGrammar.Command.Usage
import TextGrammar.Expansion
import TextGrammar.Lexicon.Compile
import TextGrammar.Lexicon.Listing
import TextGrammar.Random.Twister
import TextGrammar.Text.Encoded
import TextGrammar.Tree.Document

/-!
# The command

The command reads a grammar file, compiles it, and then either lists the rules or expands one of
them as often as asked, all expansions drawing from one source. A text is written as soon as it is
complete, so texts that come before a fault stay. What the command needs from its surroundings is a
console; nothing else is assumed about where it runs.
-/
namespace TextGrammar.Command

structure Console (m : Type → Type) where
  out : String → m Unit
  err : String → m Unit
  /-- The time since it was last asked for, as text. -/
  lap : m String
  isTerminal : Bool
  /-- The bytes of a file, or why they cannot be read. -/
  load : String → m (Except String ByteArray)
  entropy : m Int

/-- How the command ends. A file that is not text and an option that is needed and blank end it
without a message of its own, and a rule that has used up all patience leaves it unfinished. -/
inductive Exit where
  | code (number : Nat)
  | undecodable
  | blank (flag : Flag)
  | unfinished
  deriving DecidableEq, Repr

variable {m : Type → Type} [Monad m]

namespace Console

def outLine (console : Console m) (line : String) : m Unit := console.out (line ++ "\n")

def errLine (console : Console m) (line : String) : m Unit := console.err (line ++ "\n")

def outLines (console : Console m) : List String → m Unit
  | [] => pure ()
  | line :: lines => do
    console.outLine line
    console.outLines lines

def fail (console : Console m) (message : String) : m Exit := do
  console.errLine message
  return .code 1

end Console

/-- Expands a rule `count` times. -/
def generate (console : Console m) (lexicon : Lexicon) (rule : String) (limit : Option Int)
    (timings : Bool) (patience : Nat) : Nat → Twister → m Exit
  | 0, _ => pure (.code 0)
  | count + 1, source => do
    let _ ← if timings then console.lap else pure ""
    let outcome := lexicon.expand rule limit patience source
    match outcome.ending with
    | .unfinished => return .unfinished
    | .fault fault => console.fail fault.message
    | .text text => do
      console.outLine text
      if timings then
        console.errLine ("resolve: " ++ (← console.lap))
      generate console lexicon rule limit timings patience count outcome.source

/-- Expands the rule that is asked for. The rule is needed for the first expansion, and the limit
for the first part of it, which every compiled rule has. -/
def generateAll (console : Console m) (lexicon : Lexicon) (options : Options) (patience : Nat)
    (count : Nat) (source : Twister) : m Exit :=
  let generateRule (rule : String) : m Exit :=
    let generateWithin (limit : Option Int) : m Exit :=
      generate console lexicon rule limit options.timings patience count source
    match options.maxSteps with
    | .unset => generateWithin none
    | .given limit => generateWithin (some limit)
    | .blank =>
      -- an unknown rule is noticed before the limit is needed
      if count = 0 then pure (.code 0)
      else if lexicon.has rule then pure (.blank .maxSteps)
      else console.fail (ExpansionFault.unknownRule rule).message
  match options.rule with
  | .unset => generateRule "main"
  | .given rule => generateRule rule
  | .blank => pure (if count = 0 then .code 0 else .blank .rule)

/-- Lists the rules, or expands the one that is asked for, once unless told otherwise. The seed is
needed before the count. -/
def produce (console : Console m) (lexicon : Lexicon) (options : Options) (patience : Nat) :
    m Exit := do
  if options.dump then
    console.outLines lexicon.listing
    return .code 0
  else
    let generateFrom (seed : Int) : m Exit :=
      let source := Twister.ofSeed seed
      match options.count with
      | .unset => generateAll console lexicon options patience 1 source
      | .given count => generateAll console lexicon options patience count.toNat source
      | .blank => pure (.blank .count)
    match options.seed with
    | .unset => generateFrom (← console.entropy)
    | .given seed => generateFrom seed
    | .blank => return .blank .seed

/-- Goes on with the text of the grammar file. -/
def runSource (console : Console m) (source : String) (options : Options) (patience : Nat) :
    m Exit := do
  let _ ← if options.timings then console.lap else pure ""
  match parse options.file source with
  | .error fault => console.fail (fault.describe console.isTerminal)
  | .ok document =>
    let parsed ← if options.timings then console.lap else pure ""
    match document.compile with
    | .error fault => console.fail fault.message
    | .ok lexicon =>
      let compiled ← if options.timings then console.lap else pure ""
      if options.timings then
        console.errLine ("parse: " ++ parsed ++ " | compile: " ++ compiled)
      produce console lexicon options patience

def runOptions (console : Console m) (options : Options) (patience : Nat) : m Exit := do
  match ← console.load options.file with
  | .error reason =>
    console.fail ("Error: Could not read '" ++ options.file ++ "': " ++ reason ++ ".")
  | .ok bytes =>
    match Text.decode? bytes with
    | none => return .undecodable
    | some source => runSource console source options patience

/-- Runs the command on its arguments. An expansion is given up after `patience` steps. -/
def run (console : Console m) (arguments : List String) (patience : Nat) : m Exit := do
  match readArguments arguments with
  | .error fault =>
    console.err (String.join (synopsis.map (· ++ "\n")))
    console.errLine (programName ++ ": error: " ++ fault.message)
    return .code 2
  | .ok .help =>
    console.outLines usage
    return .code 0
  | .ok (.run options) => runOptions console options patience

end TextGrammar.Command
