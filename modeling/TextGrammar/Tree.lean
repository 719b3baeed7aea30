import TextGrammar.Span

/-!
# Syntax trees

A document is a list of blocks, each of which names a body. Bodies are templates and lists; they
hold literals, references, and each other. A node may also be built by hand, so its type lets any
node stand anywhere, and the place in the text that it came from is optional. Two trees are alike
when they differ in places only.
-/
namespace TextGrammar

inductive Node where
  | literal (value : String) (place : Option Span)
  | reference (name : String) (place : Option Span)
  | list (items : List Node) (place : Option Span)
  | template (parts : List Node) (place : Option Span)
  | block (name : String) (body : Node) (place : Option Span)
  | document (blocks : List Node) (place : Option Span)
  deriving Repr, Inhabited

structure Block where
  name : String
  body : Node
  place : Option Span
  deriving Repr

structure Document where
  blocks : List Block
  deriving Repr

namespace Node

def place : Node → Option Span
  | literal _ place | reference _ place | list _ place | template _ place | block _ _ place
  | document _ place => place

/-- The word for a node in messages. -/
def label : Node → String
  | literal .. => "Literal"
  | reference .. => "Reference"
  | list .. => "List"
  | template .. => "Expansion"
  | block .. => "Block"
  | document .. => "Document"

mutual

def alike : Node → Node → Bool
  | literal value _, literal value' _ => value == value'
  | reference name _, reference name' _ => name == name'
  | list items _, list items' _ => allAlike items items'
  | template parts _, template parts' _ => allAlike parts parts'
  | block name body _, block name' body' _ => name == name' && body.alike body'
  | document blocks _, document blocks' _ => allAlike blocks blocks'
  | _, _ => false

def allAlike : List Node → List Node → Bool
  | [], [] => true
  | node :: nodes, node' :: nodes' => node.alike node' && allAlike nodes nodes'
  | _, _ => false

end

end Node

def Block.alike (block block' : Block) : Bool :=
  block.name == block'.name && block.body.alike block'.body

def Document.alike (document document' : Document) : Bool :=
  document.blocks.isEqv document'.blocks Block.alike

end TextGrammar
