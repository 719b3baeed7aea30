import TextGrammar.Reader
import TextGrammar.Text.Blank
import TextGrammar.Tree

/-!
# Reading bodies

A template stands between quotes and holds text, references and lists. A list stands between
brackets and holds bare items and templates, with commas between them wherever there are any; bare
items are stripped. The constructs whose end has not been reached form a stack of frames, innermost
first, each with what it has collected so far.
-/
namespace TextGrammar

/-- An open construct: where it opened, and its nodes so far, latest first. -/
inductive Frame where
  | template (place : Span) (parts : List Node)
  | list (place : Span) (items : List Node)
  deriving Repr

def Frame.add (node : Node) : Frame → Frame
  | template place parts => template place (node :: parts)
  | list place items => list place (node :: items)

inductive BodyState where
  | body
  | template
  | list
  | inside (frame : Frame) (outer : List Frame)
  | reference (mark place : Span) (parts : List Node) (outer : List Frame)
  deriving Repr

namespace BodyState

def openTemplate (token : Token) (outer : List Frame) : Step BodyState Node :=
  .more (.inside (.template token.span []) outer)

def openList (token : Token) (outer : List Frame) : Step BodyState Node :=
  .more (.inside (.list token.span []) outer)

/-- Hands a complete node to the construct around it. -/
def close (node : Node) : List Frame → Step BodyState Node
  | [] => .done node
  | frame :: outer => .more (.inside (frame.add node) outer)

def step : BodyState → Token → Step BodyState Node
  | body, token =>
    match token.kind with
    | .openQuote => openTemplate token []
    | .openBracket => openList token []
    | _ => .refuse none
  | template, token =>
    match token.kind with
    | .openQuote => openTemplate token []
    | _ => .refuse (some .openQuote)
  | list, token =>
    match token.kind with
    | .openBracket => openList token []
    | _ => .refuse (some .openBracket)
  | inside (.template place parts) outer, token =>
    match token.kind with
    | .closeQuote => close (.template parts.reverse (some place)) outer
    | .text =>
      .more (.inside (.template place (.literal token.lexeme (some token.span) :: parts)) outer)
    | .hash => .more (.reference token.span place parts outer)
    | .openBracket => openList token (.template place parts :: outer)
    | _ => .refuse none
  | inside (.list place items) outer, token =>
    match token.kind with
    | .closeBracket => close (.list items.reverse (some place)) outer
    -- passed over, however many there are
    | .comma | .lineBreak => .more (.inside (.list place items) outer)
    | .text =>
      let item := .literal (Text.strip token.lexeme) (some token.span)
      .more (.inside (.list place (item :: items)) outer)
    | .openQuote => openTemplate token (.list place items :: outer)
    | _ => .refuse none
  | reference mark place parts outer, token =>
    match token.kind with
    | .name =>
      .more (.inside (.template place (.reference token.lexeme (some mark) :: parts)) outer)
    | _ => .refuse (some .name)

/-- What is being read when the input ends, for the message. -/
def context : BodyState → Option String
  | body => some "while looking for the body of a rule"
  | inside (.template ..) _ => some "inside a quoted string"
  | inside (.list ..) _ => some "inside a list"
  | template | list | reference .. => none

end BodyState

def bodyReader : Reader BodyState Node where
  step := BodyState.step
  atEnd state := .error state.context

end TextGrammar
