import TextGrammar.Text.Blank
import TextGrammar.Token
import TextGrammar.Tree

/-!
# The grammar of documents

Which tokens spell a document, and the tree that goes with each derivation:

    document ::= lineBreak* (block (lineBreak+ block)*)? lineBreak* finish
    block    ::= head name lineBreak+ body
    body     ::= template | list
    template ::= openQuote (text | hash name | list)* closeQuote
    list     ::= openBracket (text | template | comma | lineBreak)* closeBracket

Line breaks inside a list are only there when `breaks` says so. A production asks for nothing but
the kinds of its tokens; their texts and places go into the tree.
-/
namespace TextGrammar

mutual

inductive SpellsTemplate (breaks : Bool) : List Token → Node → Prop where
  | intro {start stop : Token} {tokens : List Token} {parts : List Node}
      (opened : start.kind = .openQuote) (inner : SpellsParts breaks tokens parts)
      (closed : stop.kind = .closeQuote) :
      SpellsTemplate breaks (start :: (tokens ++ [stop])) (.template parts (some start.span))

/-- The text inside a template is kept as it is. -/
inductive SpellsParts (breaks : Bool) : List Token → List Node → Prop where
  | nil : SpellsParts breaks [] []
  | text {tokens : List Token} {parts : List Node} {token : Token}
      (before : SpellsParts breaks tokens parts) (kind : token.kind = .text) :
      SpellsParts breaks (tokens ++ [token])
        (parts ++ [.literal token.lexeme (some token.span)])
  | reference {tokens : List Token} {parts : List Node} {mark name : Token}
      (before : SpellsParts breaks tokens parts) (marked : mark.kind = .hash)
      (named : name.kind = .name) :
      SpellsParts breaks (tokens ++ [mark, name])
        (parts ++ [.reference name.lexeme (some mark.span)])
  | list {tokens tokens' : List Token} {parts : List Node} {node : Node}
      (before : SpellsParts breaks tokens parts) (last : SpellsList breaks tokens' node) :
      SpellsParts breaks (tokens ++ tokens') (parts ++ [node])

inductive SpellsList (breaks : Bool) : List Token → Node → Prop where
  | intro {start stop : Token} {tokens : List Token} {items : List Node}
      (opened : start.kind = .openBracket) (inner : SpellsItems breaks tokens items)
      (closed : stop.kind = .closeBracket) :
      SpellsList breaks (start :: (tokens ++ [stop])) (.list items (some start.span))

/-- The text of an item is stripped. Neither commas nor line breaks add an item. -/
inductive SpellsItems (breaks : Bool) : List Token → List Node → Prop where
  | nil : SpellsItems breaks [] []
  | text {tokens : List Token} {items : List Node} {token : Token}
      (before : SpellsItems breaks tokens items) (kind : token.kind = .text) :
      SpellsItems breaks (tokens ++ [token])
        (items ++ [.literal (Text.strip token.lexeme) (some token.span)])
  | comma {tokens : List Token} {items : List Node} {token : Token}
      (before : SpellsItems breaks tokens items) (kind : token.kind = .comma) :
      SpellsItems breaks (tokens ++ [token]) items
  | lineBreak {tokens : List Token} {items : List Node} {token : Token}
      (before : SpellsItems breaks tokens items) (allowed : breaks = true)
      (kind : token.kind = .lineBreak) : SpellsItems breaks (tokens ++ [token]) items
  | template {tokens tokens' : List Token} {items : List Node} {node : Node}
      (before : SpellsItems breaks tokens items) (last : SpellsTemplate breaks tokens' node) :
      SpellsItems breaks (tokens ++ tokens') (items ++ [node])

end

inductive SpellsBody (breaks : Bool) : List Token → Node → Prop where
  | template {tokens : List Token} {node : Node} (spelt : SpellsTemplate breaks tokens node) :
      SpellsBody breaks tokens node
  | list {tokens : List Token} {node : Node} (spelt : SpellsList breaks tokens node) :
      SpellsBody breaks tokens node

/-- Some number of line breaks, maybe none. -/
def AllBreaks (tokens : List Token) : Prop := ∀ token ∈ tokens, token.kind = .lineBreak

inductive SpellsBlock (breaks : Bool) : List Token → Block → Prop where
  | intro {mark name first : Token} {gap tokens : List Token} {body : Node}
      (marked : mark.kind = .head) (named : name.kind = .name)
      (broken : first.kind = .lineBreak) (blank : AllBreaks gap)
      (inner : SpellsBody breaks tokens body) :
      SpellsBlock breaks (mark :: name :: first :: (gap ++ tokens))
        ⟨name.lexeme, body, some mark.span⟩

inductive SpellsBlocks (breaks : Bool) : List Token → List Block → Prop where
  | single {tokens : List Token} {block : Block} (only : SpellsBlock breaks tokens block) :
      SpellsBlocks breaks tokens [block]
  | snoc {tokens gap tokens' : List Token} {first : Token} {blocks : List Block} {block : Block}
      (before : SpellsBlocks breaks tokens blocks) (broken : first.kind = .lineBreak)
      (blank : AllBreaks gap) (last : SpellsBlock breaks tokens' block) :
      SpellsBlocks breaks (tokens ++ first :: (gap ++ tokens')) (blocks ++ [block])

/-- The tokens are a sentence of the grammar, and this is its tree. -/
inductive SpellsDocument (breaks : Bool) : List Token → Document → Prop where
  | empty {leading trailing : List Token} {stop : Token} (blank : AllBreaks leading)
      (blank' : AllBreaks trailing) (finished : stop.kind = .finish) :
      SpellsDocument breaks (leading ++ (trailing ++ [stop])) ⟨[]⟩
  | blocks {leading tokens trailing : List Token} {stop : Token} {blocks : List Block}
      (blank : AllBreaks leading) (inner : SpellsBlocks breaks tokens blocks)
      (blank' : AllBreaks trailing) (finished : stop.kind = .finish) :
      SpellsDocument breaks (leading ++ (tokens ++ (trailing ++ [stop]))) ⟨blocks⟩

/-! ## Contents put together -/

section Contents

variable {breaks : Bool}

theorem SpellsParts.append {tokens tokens' : List Token} {parts parts' : List Node}
    (front : SpellsParts breaks tokens parts) (back : SpellsParts breaks tokens' parts') :
    SpellsParts breaks (tokens ++ tokens') (parts ++ parts') := by
  match back with
  | .nil => simpa using front
  | .text before kind => simpa using SpellsParts.text (front.append before) kind
  | .reference before marked named => simpa using (front.append before).reference marked named
  | .list before last => simpa using (front.append before).list last

theorem SpellsItems.append {tokens tokens' : List Token} {items items' : List Node}
    (front : SpellsItems breaks tokens items) (back : SpellsItems breaks tokens' items') :
    SpellsItems breaks (tokens ++ tokens') (items ++ items') := by
  match back with
  | .nil => simpa using front
  | .text before kind => simpa using SpellsItems.text (front.append before) kind
  | .comma before kind => simpa using (front.append before).comma kind
  | .lineBreak before allowed kind => simpa using (front.append before).lineBreak allowed kind
  | .template before last => simpa using (front.append before).template last

end Contents

end TextGrammar
