import TextGrammar.Proofs.Tree.Grammar

/-!
# Shapes

The shape of a tree is the tree without its places, and trees are alike just when their shapes are
the same. The tree that some tokens spell takes its places from the places of the tokens, and its
shape from their kinds and texts alone: tokens with the same kinds and texts spell alike trees.
-/
namespace TextGrammar

namespace Node

mutual

def bare : Node → Node
  | literal value _ => literal value none
  | reference name _ => reference name none
  | list items _ => list (allBare items) none
  | template parts _ => template (allBare parts) none
  | block name body _ => block name body.bare none
  | document blocks _ => document (allBare blocks) none

def allBare : List Node → List Node
  | [] => []
  | node :: nodes => node.bare :: allBare nodes

end

theorem allBare_eq_map (nodes : List Node) : allBare nodes = nodes.map bare := by
  induction nodes with
  | nil => rfl
  | cons node nodes ih => rw [allBare, ih, List.map_cons]

@[simp] theorem allBare_append (front back : List Node) :
    allBare (front ++ back) = allBare front ++ allBare back := by
  simp only [allBare_eq_map, List.map_append]

mutual

theorem alike_iff_bare (node node' : Node) : node.alike node' = true ↔ node.bare = node'.bare := by
  match node with
  | literal value place => cases node' <;> simp [alike, bare]
  | reference name place => cases node' <;> simp [alike, bare]
  | list items place =>
    have inner := allAlike_iff_bare items
    cases node' <;> simp [alike, bare, inner]
  | template parts place =>
    have inner := allAlike_iff_bare parts
    cases node' <;> simp [alike, bare, inner]
  | block name body place =>
    have inner := alike_iff_bare body
    cases node' <;> simp [alike, bare, inner]
  | document blocks place =>
    have inner := allAlike_iff_bare blocks
    cases node' <;> simp [alike, bare, inner]

theorem allAlike_iff_bare (nodes nodes' : List Node) :
    allAlike nodes nodes' = true ↔ allBare nodes = allBare nodes' := by
  match nodes, nodes' with
  | [], [] => simp [allAlike, allBare]
  | [], _ :: _ => simp [allAlike, allBare]
  | _ :: _, [] => simp [allAlike, allBare]
  | node :: nodes, node' :: nodes' =>
    simp [allAlike, allBare, alike_iff_bare node node', allAlike_iff_bare nodes nodes']

end

end Node

def Block.bare (block : Block) : Block := ⟨block.name, block.body.bare, none⟩

theorem Block.alike_iff_bare (block block' : Block) :
    block.alike block' = true ↔ block.bare = block'.bare := by
  simp [alike, bare, Node.alike_iff_bare]

theorem Document.alike_iff_bare (document document' : Document) :
    document.alike document' = true ↔
      document.blocks.map Block.bare = document'.blocks.map Block.bare := by
  obtain ⟨blocks⟩ := document
  obtain ⟨blocks'⟩ := document'
  induction blocks generalizing blocks' with
  | nil => cases blocks' <;> simp [alike]
  | cons block blocks ih =>
    cases blocks' with
    | nil => simp [alike]
    | cons block' blocks' =>
      have rest := ih blocks'
      simp only [alike] at rest
      rw [alike, List.isEqv_cons_cons, Bool.and_eq_true, Block.alike_iff_bare, rest]
      simp

/-! ## Spellings with the same words -/

/-- What a token is, apart from where it stands. -/
def Token.word (token : Token) : Kind × String := (token.kind, token.lexeme)

theorem Token.word_eq_iff {token token' : Token} :
    token'.word = token.word ↔ token'.kind = token.kind ∧ token'.lexeme = token.lexeme := by
  simp [word]

/-- The same words in the same order. -/
def SameWords (tokens tokens' : List Token) : Prop := tokens'.map Token.word = tokens.map Token.word

section Words

variable {tokens tokens' front back : List Token} {token : Token}

theorem sameWords_nil_iff : SameWords [] tokens' ↔ tokens' = [] := by
  simp [SameWords]

theorem sameWords_cons_iff : SameWords (token :: tokens) tokens' ↔
    ∃ token' rest', tokens' = token' :: rest' ∧ token'.kind = token.kind ∧
      token'.lexeme = token.lexeme ∧ SameWords tokens rest' := by
  rw [SameWords, List.map_cons, List.map_eq_cons_iff]
  constructor
  · rintro ⟨token', rest', rfl, word, words⟩
    obtain ⟨kind, lexeme⟩ := Token.word_eq_iff.mp word
    exact ⟨token', rest', rfl, kind, lexeme, words⟩
  · rintro ⟨token', rest', rfl, kind, lexeme, words⟩
    exact ⟨token', rest', rfl, Token.word_eq_iff.mpr ⟨kind, lexeme⟩, words⟩

theorem sameWords_append_iff : SameWords (front ++ back) tokens' ↔
    ∃ front' back', tokens' = front' ++ back' ∧ SameWords front front' ∧ SameWords back back' := by
  rw [SameWords, List.map_append, List.map_eq_append_iff]
  exact Iff.rfl

theorem sameWords_singleton_iff : SameWords [token] tokens' ↔
    ∃ token', tokens' = [token'] ∧ token'.kind = token.kind ∧ token'.lexeme = token.lexeme := by
  rw [sameWords_cons_iff]
  constructor
  · rintro ⟨token', rest', rfl, kind, lexeme, words⟩
    rw [sameWords_nil_iff.mp words]
    exact ⟨token', rfl, kind, lexeme⟩
  · rintro ⟨token', rfl, kind, lexeme⟩
    exact ⟨token', [], rfl, kind, lexeme, rfl⟩

/-- What holds of the kinds of all the tokens holds of those of the others. -/
theorem SameWords.forall_kind (words : SameWords tokens tokens') (holds : Kind → Prop)
    (every : ∀ token ∈ tokens, holds token.kind) : ∀ token ∈ tokens', holds token.kind := by
  induction tokens generalizing tokens' with
  | nil =>
    rw [sameWords_nil_iff.mp words]
    exact nofun
  | cons token tokens ih =>
    obtain ⟨first, rest⟩ := List.forall_mem_cons.mp every
    obtain ⟨token', rest', rfl, kind, _, others⟩ := sameWords_cons_iff.mp words
    exact List.forall_mem_cons.mpr ⟨kind ▸ first, ih others rest⟩

theorem SameWords.getLast_kind (words : SameWords tokens tokens') (holds : Kind → Prop)
    (last : ∀ token ∈ tokens.getLast?, holds token.kind) :
    ∀ token ∈ tokens'.getLast?, holds token.kind := by
  intro token' ends
  have same := congrArg List.getLast? words
  rw [List.getLast?_map, List.getLast?_map, Option.mem_def.mp ends, Option.map_some] at same
  obtain ⟨token, isLast, word⟩ := Option.map_eq_some_iff.mp same.symm
  rw [← (Token.word_eq_iff.mp word).1]
  exact last token isLast

theorem SameWords.allBreaks (blank : AllBreaks tokens) (words : SameWords tokens tokens') :
    AllBreaks tokens' := words.forall_kind (· = .lineBreak) blank

end Words

variable {breaks : Bool}

-- By induction on the derivation: each production is there for the other tokens too.
mutual

theorem SpellsTemplate.retold {tokens tokens' : List Token} {node : Node}
    (spelt : SpellsTemplate breaks tokens node) (words : SameWords tokens tokens') :
    ∃ node', SpellsTemplate breaks tokens' node' ∧ node'.bare = node.bare := by
  match spelt with
  | .intro opened inner closed =>
    obtain ⟨start, rest, rfl, kind, _, others⟩ := sameWords_cons_iff.mp words
    obtain ⟨middle, last, rfl, between, ends⟩ := sameWords_append_iff.mp others
    obtain ⟨stop, rfl, kind', _⟩ := sameWords_singleton_iff.mp ends
    obtain ⟨parts, inner, shape⟩ := inner.retold between
    exact ⟨_, .intro (kind.trans opened) inner (kind'.trans closed), by simp [Node.bare, shape]⟩

theorem SpellsParts.retold {tokens tokens' : List Token} {parts : List Node}
    (spelt : SpellsParts breaks tokens parts) (words : SameWords tokens tokens') :
    ∃ parts', SpellsParts breaks tokens' parts' ∧ Node.allBare parts' = Node.allBare parts := by
  match spelt with
  | .nil =>
    rw [sameWords_nil_iff.mp words]
    exact ⟨[], .nil, rfl⟩
  | .text before kind =>
    obtain ⟨front, back, rfl, early, late⟩ := sameWords_append_iff.mp words
    obtain ⟨token, rfl, kind', lexeme⟩ := sameWords_singleton_iff.mp late
    obtain ⟨parts, before, shape⟩ := before.retold early
    exact ⟨_, .text before (kind'.trans kind), by simp [Node.allBare, Node.bare, shape, lexeme]⟩
  | .reference before marked named =>
    obtain ⟨front, back, rfl, early, late⟩ := sameWords_append_iff.mp words
    obtain ⟨mark, rest, rfl, kind, _, later⟩ := sameWords_cons_iff.mp late
    obtain ⟨name, rfl, kind', lexeme⟩ := sameWords_singleton_iff.mp later
    obtain ⟨parts, before, shape⟩ := before.retold early
    exact ⟨_, .reference before (kind.trans marked) (kind'.trans named),
      by simp [Node.allBare, Node.bare, shape, lexeme]⟩
  | .list before last =>
    obtain ⟨front, back, rfl, early, late⟩ := sameWords_append_iff.mp words
    obtain ⟨parts, before, shape⟩ := before.retold early
    obtain ⟨node, last, shape'⟩ := last.retold late
    exact ⟨_, .list before last, by simp [Node.allBare, shape, shape']⟩

theorem SpellsList.retold {tokens tokens' : List Token} {node : Node}
    (spelt : SpellsList breaks tokens node) (words : SameWords tokens tokens') :
    ∃ node', SpellsList breaks tokens' node' ∧ node'.bare = node.bare := by
  match spelt with
  | .intro opened inner closed =>
    obtain ⟨start, rest, rfl, kind, _, others⟩ := sameWords_cons_iff.mp words
    obtain ⟨middle, last, rfl, between, ends⟩ := sameWords_append_iff.mp others
    obtain ⟨stop, rfl, kind', _⟩ := sameWords_singleton_iff.mp ends
    obtain ⟨items, inner, shape⟩ := inner.retold between
    exact ⟨_, .intro (kind.trans opened) inner (kind'.trans closed), by simp [Node.bare, shape]⟩

theorem SpellsItems.retold {tokens tokens' : List Token} {items : List Node}
    (spelt : SpellsItems breaks tokens items) (words : SameWords tokens tokens') :
    ∃ items', SpellsItems breaks tokens' items' ∧ Node.allBare items' = Node.allBare items := by
  match spelt with
  | .nil =>
    rw [sameWords_nil_iff.mp words]
    exact ⟨[], .nil, rfl⟩
  | .text before kind =>
    obtain ⟨front, back, rfl, early, late⟩ := sameWords_append_iff.mp words
    obtain ⟨token, rfl, kind', lexeme⟩ := sameWords_singleton_iff.mp late
    obtain ⟨items, before, shape⟩ := before.retold early
    exact ⟨_, .text before (kind'.trans kind), by simp [Node.allBare, Node.bare, shape, lexeme]⟩
  | .comma before kind =>
    obtain ⟨front, back, rfl, early, late⟩ := sameWords_append_iff.mp words
    obtain ⟨token, rfl, kind', _⟩ := sameWords_singleton_iff.mp late
    obtain ⟨items, before, shape⟩ := before.retold early
    exact ⟨items, .comma before (kind'.trans kind), shape⟩
  | .lineBreak before allowed kind =>
    obtain ⟨front, back, rfl, early, late⟩ := sameWords_append_iff.mp words
    obtain ⟨token, rfl, kind', _⟩ := sameWords_singleton_iff.mp late
    obtain ⟨items, before, shape⟩ := before.retold early
    exact ⟨items, .lineBreak before allowed (kind'.trans kind), shape⟩
  | .template before last =>
    obtain ⟨front, back, rfl, early, late⟩ := sameWords_append_iff.mp words
    obtain ⟨items, before, shape⟩ := before.retold early
    obtain ⟨node, last, shape'⟩ := last.retold late
    exact ⟨_, .template before last, by simp [Node.allBare, shape, shape']⟩

end

section Documents

variable {tokens tokens' : List Token}

theorem SpellsBody.retold {node : Node} (spelt : SpellsBody breaks tokens node)
    (words : SameWords tokens tokens') :
    ∃ node', SpellsBody breaks tokens' node' ∧ node'.bare = node.bare := by
  cases spelt with
  | template spelt =>
    obtain ⟨node', spelt, shape⟩ := spelt.retold words
    exact ⟨node', .template spelt, shape⟩
  | list spelt =>
    obtain ⟨node', spelt, shape⟩ := spelt.retold words
    exact ⟨node', .list spelt, shape⟩

theorem SpellsBlock.retold {block : Block} (spelt : SpellsBlock breaks tokens block)
    (words : SameWords tokens tokens') :
    ∃ block', SpellsBlock breaks tokens' block' ∧ block'.bare = block.bare := by
  cases spelt with
  | intro marked named broken blank inner =>
    obtain ⟨mark, rest, rfl, kind, _, others⟩ := sameWords_cons_iff.mp words
    obtain ⟨name, rest, rfl, kind', lexeme, others'⟩ := sameWords_cons_iff.mp others
    obtain ⟨first, rest, rfl, kind'', _, others''⟩ := sameWords_cons_iff.mp others'
    obtain ⟨gap, back, rfl, early, late⟩ := sameWords_append_iff.mp others''
    obtain ⟨body, inner, shape⟩ := inner.retold late
    have spelt := SpellsBlock.intro (kind.trans marked) (kind'.trans named) (kind''.trans broken)
      (early.allBreaks blank) inner
    exact ⟨_, spelt, by simp [Block.bare, shape, lexeme]⟩

theorem SpellsBlocks.retold {blocks : List Block} (spelt : SpellsBlocks breaks tokens blocks)
    (words : SameWords tokens tokens') :
    ∃ blocks', SpellsBlocks breaks tokens' blocks' ∧
      blocks'.map Block.bare = blocks.map Block.bare := by
  induction spelt generalizing tokens' with
  | single only =>
    obtain ⟨block', only, shape⟩ := only.retold words
    exact ⟨_, .single only, by simp [shape]⟩
  | snoc before broken blank last ih =>
    obtain ⟨front, back, rfl, early, late⟩ := sameWords_append_iff.mp words
    obtain ⟨first, rest, rfl, kind, _, later⟩ := sameWords_cons_iff.mp late
    obtain ⟨gap, back, rfl, between, behind⟩ := sameWords_append_iff.mp later
    obtain ⟨blocks', before, shape⟩ := ih early
    obtain ⟨block', last, shape'⟩ := last.retold behind
    have spelt := SpellsBlocks.snoc before (kind.trans broken) (between.allBreaks blank) last
    exact ⟨_, spelt, by simp [shape, shape']⟩

/-- Tokens with the words of a sentence are a sentence, and its tree has the same shape. -/
theorem SpellsDocument.retold {document : Document} (spelt : SpellsDocument breaks tokens document)
    (words : SameWords tokens tokens') :
    ∃ document', SpellsDocument breaks tokens' document' ∧ document'.alike document = true := by
  cases spelt with
  | empty blank blank' finished =>
    obtain ⟨leading, back, rfl, early, late⟩ := sameWords_append_iff.mp words
    obtain ⟨trailing, last, rfl, behind, ends⟩ := sameWords_append_iff.mp late
    obtain ⟨stop, rfl, kind, _⟩ := sameWords_singleton_iff.mp ends
    have finished' := kind.trans finished
    exact ⟨⟨[]⟩, .empty (early.allBreaks blank) (behind.allBreaks blank') finished', rfl⟩
  | blocks blank inner blank' finished =>
    obtain ⟨leading, back, rfl, early, late⟩ := sameWords_append_iff.mp words
    obtain ⟨middle, back, rfl, between, later⟩ := sameWords_append_iff.mp late
    obtain ⟨trailing, last, rfl, behind, ends⟩ := sameWords_append_iff.mp later
    obtain ⟨stop, rfl, kind, _⟩ := sameWords_singleton_iff.mp ends
    obtain ⟨blocks, inner, shape⟩ := inner.retold between
    have spelt := SpellsDocument.blocks (early.allBreaks blank) inner (behind.allBreaks blank')
      (kind.trans finished)
    exact ⟨_, spelt, (Document.alike_iff_bare _ _).mpr shape⟩

end Documents
end TextGrammar
