import TextGrammar.Lexicon
import TextGrammar.Tree

/-!
# The lexicon of a document

A list becomes a choice between its items, and a template the sequence of its parts. A block whose
body is a template of literals alone gets the joined text as its rule. A template in a list keeps
its parts apart. A node that stands where it does not belong is a fault, and the first one in
reading order is reported, in every block, also one that a later block of the same name replaces.
-/
namespace TextGrammar

inductive CompileFault where
  | body (block : Block)
  | part (node : Node)
  | item (node : Node)
  deriving Repr

namespace CompileFault

def placed (place : Option Span) (message : String) : String :=
  (match place with | some span => span.render | none => "None") ++ " Error: " ++ message

def message : CompileFault → String
  | body block =>
    placed block.place
      ("Rule '" ++ block.name ++ "' has a body of unknown kind " ++ block.body.label ++ ".")
  | part node => placed node.place ("Unhandled template part " ++ node.label ++ ".")
  | item node => placed node.place ("Unhandled list item " ++ node.label ++ ".")

end CompileFault

namespace Node

mutual

def compilePart : Node → Except CompileFault Part
  | literal value _ => .ok (.text value)
  | reference name _ => .ok (.reference name)
  | list items _ => do return .choice (← compileItems items)
  | node => .error (.part node)

def compileParts : List Node → Except CompileFault (List Part)
  | [] => .ok []
  | node :: nodes => do
    let part ← node.compilePart
    let parts ← compileParts nodes
    return part :: parts

def compileItem : Node → Except CompileFault Alternative
  | literal value _ => .ok (.text value)
  | template parts _ => do return .sequence (← compileParts parts)
  | node => .error (.item node)

def compileItems : List Node → Except CompileFault (List Alternative)
  | [] => .ok []
  | node :: nodes => do
    let item ← node.compileItem
    let items ← compileItems nodes
    return item :: items

end

def literal? : Node → Option String
  | literal value _ => some value
  | _ => none

/-- The rule of a template that is the body of a block. -/
def compileTemplate (parts : List Node) : Except CompileFault Rule :=
  match parts.mapM literal? with
  -- a template without any parts is one of literals too, and its rule is the empty text
  | some values => .ok [.text (String.join values)]
  | none => compileParts parts

end Node

def Block.compile (block : Block) : Except CompileFault Rule :=
  match block.body with
  | .list items _ => do return [.choice (← Node.compileItems items)]
  | .template parts _ => Node.compileTemplate parts
  | _ => .error (.body block)

def Document.compile (document : Document) : Except CompileFault Lexicon :=
  document.blocks.foldlM
    (fun lexicon block => do return lexicon.put block.name (← block.compile)) Lexicon.empty

end TextGrammar
