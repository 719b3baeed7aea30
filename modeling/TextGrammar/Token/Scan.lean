import TextGrammar.Text.Blank
import TextGrammar.Token

/-!
# Scanning one token

What a character means depends on what surrounds it: a quote opens a template at the top level and
closes one inside a template, and a hash is a reference only inside a template. So scanning is
guided by a stack of modes, innermost first. One scan looks at the rest of the input alone, apart
from one bit: whether the line read so far is blank, which is what lets a star open a header.

A scan splits off a gap that is skipped and then finds a token, a character that cannot start a
name, or a token that the input ends in the middle of. It also says which modes come next.
-/
namespace TextGrammar

inductive Mode where
  | top
  | lineStart
  | template
  | name
  | list
  | finished
  deriving DecidableEq, Repr

/-- What follows the gap. An unfinished token has taken all that was left. -/
inductive Found where
  | token (kind : Kind) (text : List Char)
  | badCharacter (char : Char)
  | unfinished (context : String) (text : List Char)
  deriving DecidableEq, Repr

namespace Found

/-- The characters that are used up; a bad character stays where it is. -/
def taken : Found → List Char
  | token _ text => text
  | badCharacter _ => []
  | unfinished _ text => text

end Found

structure Scan where
  gap : List Char
  found : Found
  modes : List Mode
  deriving DecidableEq, Repr

def isSpace (char : Char) : Bool := char = ' ' || char = '\t' || char = '\r'

/-- Lists may span lines, so inside one a line break is just more space. -/
def isListSpace (char : Char) : Bool := isSpace char || char = '\n'

def isJoiner (char : Char) : Bool := char = '_' || char = '-'

def isNameChar (char : Char) : Bool := char.isAlphanum || isJoiner char

def isTemplateText (char : Char) : Bool := !(char = '"' || char = '#' || char = '[')

def isItemText (char : Char) : Bool := !(char = ',' || char = ']' || char = '"' || char = '[')

/-- The longest run of name characters. Inside a template the joiners at its end are left to the
text that follows, so that `#a-#a` names `a` twice. -/
def scanName (below : List Mode) (input : List Char) : Scan :=
  match input with
  | [] => ⟨[], .unfinished "while reading an identifier" [], .name :: below⟩
  | char :: _ =>
    if char.isAlpha then
      let run := input.takeWhile isNameChar
      match input.dropWhile isNameChar with
      -- only a character that belongs to no name shows that the name is over
      | [] => ⟨[], .unfinished "while reading an identifier" run, .name :: below⟩
      | _ :: _ =>
        let name := if below.head? = some .template then Text.trimEnd isJoiner run else run
        ⟨[], .token .name name, below⟩
    else ⟨[], .badCharacter char, .name :: below⟩

def scanTop (blankLine : Bool) (modes : List Mode) (input : List Char) : Scan :=
  let gap := input.takeWhile isSpace
  match input.dropWhile isSpace with
  | [] => ⟨gap, .token .finish [], .finished :: modes⟩
  | char :: rest =>
    if char = '\n' then ⟨gap, .token .lineBreak [char], .lineStart :: modes⟩
    else if char = '"' then ⟨gap, .token .openQuote [char], .template :: modes⟩
    else if char = '[' then ⟨gap, .token .openBracket [char], .list :: modes⟩
    else if char = '*' && blankLine then ⟨gap, .token .head [char], modes⟩
    -- a star behind other text is no header, so it is a bad character like any other
    else { scanName modes (char :: rest) with gap := gap }

/-- Right after a line break a star is a header without looking back. -/
def scanLineStart (blankLine : Bool) (below : List Mode) (input : List Char) : Scan :=
  match input with
  | '*' :: _ => ⟨[], .token .head ['*'], below⟩
  | _ => scanTop blankLine below input

def scanTemplate (below : List Mode) (input : List Char) : Scan :=
  let run := input.takeWhile isTemplateText
  match input.dropWhile isTemplateText with
  | [] => ⟨[], .unfinished "inside a quoted string" run, .template :: below⟩
  | char :: _ =>
    -- what ends a run of text is a token of its own and left to the next scan
    if run ≠ [] then ⟨[], .token .text run, .template :: below⟩
    else if char = '"' then ⟨[], .token .closeQuote [char], below⟩
    else if char = '#' then ⟨[], .token .hash [char], .name :: .template :: below⟩
    else ⟨[], .token .openBracket [char], .list :: .template :: below⟩

/-- A bare item runs up to the next structural character and is not trimmed here. -/
def scanList (below : List Mode) (input : List Char) : Scan :=
  let gap := input.takeWhile isListSpace
  match input.dropWhile isListSpace with
  | [] => ⟨gap, .unfinished "inside a list" [], .list :: below⟩
  | char :: rest =>
    if char = '[' then ⟨gap, .token .openBracket [char], .list :: .list :: below⟩
    else if char = '"' then ⟨gap, .token .openQuote [char], .template :: .list :: below⟩
    else if char = ',' then ⟨gap, .token .comma [char], .list :: below⟩
    else if char = ']' then ⟨gap, .token .closeBracket [char], below⟩
    else
      let run := (char :: rest).takeWhile isItemText
      match (char :: rest).dropWhile isItemText with
      | [] => ⟨gap, .unfinished "inside a list" run, .list :: below⟩
      | _ :: _ => ⟨gap, .token .text run, .list :: below⟩

def scan (blankLine : Bool) (modes : List Mode) (input : List Char) : Scan :=
  match modes with
  | .top :: _ => scanTop blankLine modes input
  | .lineStart :: below => scanLineStart blankLine below input
  | .template :: below => scanTemplate below input
  | .name :: below => scanName below input
  | .list :: below => scanList below input
  | .finished :: _ | [] => ⟨[], .token .finish [], modes⟩

end TextGrammar
