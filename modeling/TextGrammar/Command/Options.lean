import TextGrammar.Text.Integer
import TextGrammar.Text.Quoted

/-!
# Command line options

A word that starts with a dash is an option, except that a lone dash, a negative number and a word
with a space in it are values. A long option may be shortened as long as it stays unambiguous, and
takes its value after an equals sign or from the next word; a short one may also have its value
attached. After a double dash all words are values. The first free value names the grammar file. A
double dash attached to an option stands for no value at all: the option is left blank, which is a
fault only of a run that comes to need it.

Words are read from left to right, so the first fault wins, and a request for help ends the reading.
Only an ambiguous option is noticed before anything else, and words that belong to nothing after
everything else.
-/
namespace TextGrammar.Command

inductive Flag where
  | help
  | rule
  | count
  | seed
  | maxSteps
  | timings
  | dump
  deriving DecidableEq, Repr

namespace Flag

def all : List Flag := [help, rule, count, seed, maxSteps, timings, dump]

def long : Flag → String
  | help => "--help"
  | rule => "--rule"
  | count => "--count"
  | seed => "--seed"
  | maxSteps => "--max-steps"
  | timings => "--timings"
  | dump => "--dump"

def short? : Flag → Option Char
  | help => some 'h'
  | rule => some 'r'
  | count => some 'n'
  | seed => some 's'
  | maxSteps | timings | dump => none

def takesValue : Flag → Bool
  | rule | count | seed | maxSteps => true
  | help | timings | dump => false

/-- How messages name a flag. -/
def label (flag : Flag) : String :=
  match flag.short? with
  | some char => "-" ++ char.toString ++ "/" ++ flag.long
  | none => flag.long

def ofShort? (char : Char) : Option Flag := all.find? fun flag => flag.short? == some char

/-- The flags whose long form starts with `name`. -/
def abbreviated (name : List Char) : List Flag :=
  all.filter fun flag => name.isPrefixOf flag.long.toList

end Flag

inductive ArgumentFault where
  | ambiguous (word : String) (flags : List Flag)
  | missingValue (flag : Flag)
  | surplusValue (flag : Flag) (value : String)
  | invalidInteger (flag : Flag) (value : String)
  | missingFile
  | unrecognized (words : List String)
  deriving DecidableEq, Repr

def ArgumentFault.message : ArgumentFault → String
  | ambiguous word flags =>
    "ambiguous option: " ++ word ++ " could match " ++ ", ".intercalate (flags.map Flag.long)
  | missingValue flag => "argument " ++ flag.label ++ ": expected one argument"
  | surplusValue flag value =>
    "argument " ++ flag.label ++ ": ignored explicit argument " ++ Text.quoted value
  | invalidInteger flag value =>
    "argument " ++ flag.label ++ ": invalid int value: " ++ Text.quoted value
  | missingFile => "the following arguments are required: filename"
  | unrecognized words => "unrecognized arguments: " ++ " ".intercalate words

/-- What a word of the command line is: a value, the double dash, a flag that takes a value, which
may be attached, one that takes none, the short form of help with what is attached to it, or an
option that there is not. -/
inductive Word where
  | value (text : String)
  | separator
  | setting (flag : Flag) (attached : Option String)
  | switch (flag : Flag) (attached : Option String)
  | shortHelp (attached : Option String)
  | unknown (text : String)
  deriving DecidableEq, Repr

namespace Word

def isNumber (text : List Char) : Bool :=
  match text.dropWhile Text.isDigit with
  | [] => !text.isEmpty
  | char :: fraction => char = '.' && !fraction.isEmpty && fraction.all Text.isDigit

/-- A line break at the very end does not keep a word from being a number. -/
def withoutLastBreak (text : List Char) : List Char :=
  if text.getLast? = some '\n' then text.dropLast else text

def ofUnknown (text : String) (afterDash : List Char) : Word :=
  if isNumber (withoutLastBreak afterDash) || text.contains ' ' then value text else unknown text

def ofFlag (flag : Flag) (attached : Option String) : Word :=
  if flag.takesValue then setting flag attached else switch flag attached

/-- The value attached to a short option, if there is one. -/
def attachedValue : List Char → Option String
  | [] => none
  | '=' :: rest => some (String.ofList rest)
  | rest => some (String.ofList rest)

def ofShort (flag : Flag) (attached : List Char) : Word :=
  let value := attachedValue attached
  if flag.takesValue then setting flag value else shortHelp value

def ofLong (text : String) : Except ArgumentFault Word :=
  let name := text.toList.takeWhile (· ≠ '=')
  let attached :=
    match text.toList.dropWhile (· ≠ '=') with
    | [] => none
    | _ :: rest => some (String.ofList rest)
  match Flag.abbreviated name with
  | [] => .ok (ofUnknown text (text.toList.drop 1))
  | [flag] => .ok (ofFlag flag attached)
  | flags => .error (.ambiguous text flags)

def ofText (text : String) : Except ArgumentFault Word :=
  match text.toList with
  | '-' :: '-' :: _ => ofLong text
  | '-' :: char :: rest =>
    match Flag.ofShort? char with
    | some flag => .ok (ofShort flag rest)
    | none => .ok (ofUnknown text (char :: rest))
  | _ => .ok (value text)

def ofTexts : List String → Except ArgumentFault (List Word)
  | [] => .ok []
  | text :: texts =>
    -- behind the first double dash everything is a value
    if text = "--" then .ok (separator :: texts.map value)
    else do
      let word ← ofText text
      let words ← ofTexts texts
      return word :: words

end Word

inductive Setting (α : Type) where
  | unset
  | given (value : α)
  | blank
  deriving DecidableEq, Repr

structure Options where
  file : String
  rule : Setting String
  count : Setting Int
  seed : Setting Int
  maxSteps : Setting Int
  timings : Bool
  dump : Bool
  deriving DecidableEq, Repr

inductive Request where
  | help
  | run (options : Options)
  deriving DecidableEq, Repr

/-- What has been read so far: the file, once it has been named, the words that belong to nothing,
latest first, and the options, whose file does not count yet. -/
structure Reading where
  file : Option String
  surplus : List String
  options : Options
  deriving DecidableEq, Repr

namespace Reading

def start : Reading := ⟨none, [], ⟨"", .unset, .unset, .unset, .unset, false, false⟩⟩

def integer (flag : Flag) (text : String) : Except ArgumentFault (Setting Int) :=
  match Text.integer? text with
  | some number => .ok (.given number)
  | none => .error (.invalidInteger flag text)

/-- Sets a flag that takes a value. -/
def setValue (flag : Flag) (value : String) (options : Options) : Except ArgumentFault Options :=
  match flag with
  | .rule => .ok { options with rule := .given value }
  | .count => (integer flag value).map fun count => { options with count := count }
  | .seed => (integer flag value).map fun seed => { options with seed := seed }
  | .maxSteps => (integer flag value).map fun maxSteps => { options with maxSteps := maxSteps }
  | .help | .timings | .dump => .ok options

/-- Leaves a flag that takes a value blank. -/
def setBlank (flag : Flag) (options : Options) : Options :=
  match flag with
  | .rule => { options with rule := .blank }
  | .count => { options with count := .blank }
  | .seed => { options with seed := .blank }
  | .maxSteps => { options with maxSteps := .blank }
  | .help | .timings | .dump => options

/-- Sets a flag that takes no value. -/
def switch (flag : Flag) (options : Options) : Options :=
  match flag with
  | .timings => { options with timings := true }
  | .dump => { options with dump := true }
  | .help | .rule | .count | .seed | .maxSteps => options

/-- Checks what follows the short form of help in its word. That may be further short options; they
have no effect any more, but have to be well formed. -/
def checkCluster : List Char → List Word → Except ArgumentFault Unit
  | [], _ => .ok ()
  | char :: rest, words =>
    match Flag.ofShort? char with
    | none => .error (.surplusValue .help (String.ofList (char :: rest)))
    | some flag =>
      if flag.takesValue then
        -- the value is the rest of the word, or else the next word
        match rest, words with
        | _ :: _, _ | [], .value _ :: _ => .ok ()
        | [], _ => .error (.missingValue flag)
      else checkCluster rest words

def checkAttached (attached : Option String) (words : List Word) : Except ArgumentFault Unit :=
  match attached with
  | none => .ok ()
  | some "" => .error (.surplusValue .help "")
  | some text => checkCluster text.toList words

def finish (reading : Reading) : Except ArgumentFault Request :=
  match reading.file, reading.surplus with
  | none, _ => .error .missingFile
  | some file, [] => .ok (.run { reading.options with file := file })
  | some _, surplus => .error (.unrecognized surplus.reverse)

def name (file : String) (reading : Reading) : Reading := { reading with file := some file }

def leave (text : String) (reading : Reading) : Reading :=
  { reading with surplus := text :: reading.surplus }

def set (flag : Flag) (value : String) (reading : Reading) : Except ArgumentFault Reading := do
  return { reading with options := ← setValue flag value reading.options }

/-- Sets a flag to the value attached to it. -/
def setAttached (flag : Flag) (value : String) (reading : Reading) :
    Except ArgumentFault Reading :=
  if value = "--" then .ok { reading with options := setBlank flag reading.options }
  else reading.set flag value

def read (reading : Reading) : List Word → Except ArgumentFault Request
  | [] => reading.finish
  | .value text :: words =>
    match reading.file, words with
    -- a double dash right behind the file goes with it
    | none, .separator :: words => (reading.name text).read words
    | none, words => (reading.name text).read words
    | some _, words => (reading.leave text).read words
  | .separator :: words =>
    match reading.file with
    | none => reading.read words
    | some _ => (reading.leave "--").read words
  | .unknown text :: words => (reading.leave text).read words
  | .setting flag attached :: words =>
    match attached, words with
    | some value, words => do (← reading.setAttached flag value).read words
    | none, .value value :: words => do (← reading.set flag value).read words
    | none, _ => .error (.missingValue flag)
  | .switch flag attached :: words =>
    match attached with
    | some value => .error (.surplusValue flag value)
    | none =>
      if flag = .help then .ok .help
      else { reading with options := switch flag reading.options }.read words
  | .shortHelp attached :: words => do
    checkAttached attached words
    return .help

end Reading

def readArguments (texts : List String) : Except ArgumentFault Request := do
  Reading.start.read (← Word.ofTexts texts)

end TextGrammar.Command
