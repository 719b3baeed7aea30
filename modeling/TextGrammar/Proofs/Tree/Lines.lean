import TextGrammar.Proofs.Token.Stream
import TextGrammar.Proofs.Tree.Grammar

/-!
# No line breaks inside lists

The grammar may allow line breaks inside lists, but a scanner never gives one there: inside a list a
line break is just space. So tokens that a scanner gives spell the same things whether or not line
breaks are allowed. The modes are what tells the inside of a list: in a template and in a list each
construct leaves the stack as it was when it started.
-/
namespace TextGrammar

variable {breaks : Bool}

mutual

theorem SpellsTemplate.strict {tokens : List Token} {node : Node}
    (spelt : SpellsTemplate breaks tokens node) {scanner after : Scanner}
    (gives : scanner.Gives tokens after) :
    SpellsTemplate false tokens node ∧
      Moves scanner.modes .openQuote (.template :: after.modes) := by
  match spelt with
  | .intro opened inner closed =>
    -- the template goes on top of some stack, and closing it leaves just this stack
    obtain ⟨opening, closing, base, first, inside, between, last⟩ := gives.quoted opened
    have opens := (Scanner.gives_singleton_iff.mpr first).moves opened rfl
    obtain ⟨strict, still⟩ := inner.strict between inside
    have closes := (last.moves closed still).of_template
    have outside : after.modes = base := by simpa using closes
    rw [outside, ← inside]
    exact ⟨.intro opened strict closed, opens⟩

theorem SpellsParts.strict {tokens : List Token} {parts : List Node}
    (spelt : SpellsParts breaks tokens parts) {scanner after : Scanner} {below : List Mode}
    (gives : scanner.Gives tokens after) (inside : scanner.modes = .template :: below) :
    SpellsParts false tokens parts ∧ after.modes = .template :: below := by
  match spelt with
  | .nil =>
    obtain rfl := Scanner.gives_nil_iff.mp gives
    exact ⟨.nil, inside⟩
  | .text before kind =>
    obtain ⟨middle, front, back⟩ := Scanner.gives_append_iff.mp gives
    obtain ⟨strict, still⟩ := before.strict front inside
    have moved := (back.moves kind still).of_template
    exact ⟨.text strict kind, by simpa using moved⟩
  | .reference before marked named =>
    obtain ⟨middle, front, back⟩ := Scanner.gives_append_iff.mp gives
    obtain ⟨strict, still⟩ := before.strict front inside
    obtain ⟨hashed, first, last⟩ := Scanner.gives_cons_iff.mp back
    have moved := ((Scanner.gives_singleton_iff.mpr first).moves marked still).of_template
    -- a hash asks for a name, which leads back into the template
    have naming : hashed.modes = .name :: .template :: below := by simpa using moved
    have named' := (last.moves named naming).of_name
    exact ⟨.reference strict marked named, named'.2⟩
  | .list before last =>
    obtain ⟨middle, front, back⟩ := Scanner.gives_append_iff.mp gives
    obtain ⟨strict, still⟩ := before.strict front inside
    obtain ⟨strict', opens⟩ := last.strict back
    rw [still] at opens
    have moved := opens.of_template
    exact ⟨.list strict strict', by simpa using moved⟩

theorem SpellsList.strict {tokens : List Token} {node : Node}
    (spelt : SpellsList breaks tokens node) {scanner after : Scanner}
    (gives : scanner.Gives tokens after) :
    SpellsList false tokens node ∧
      Moves scanner.modes .openBracket (.list :: after.modes) := by
  match spelt with
  | .intro opened inner closed =>
    obtain ⟨opening, closing, base, first, inside, between, last⟩ := gives.bracketed opened
    have opens := (Scanner.gives_singleton_iff.mpr first).moves opened rfl
    obtain ⟨strict, still⟩ := inner.strict between inside
    have closes := (last.moves closed still).of_list
    have outside : after.modes = base := by simpa using closes
    rw [outside, ← inside]
    exact ⟨.intro opened strict closed, opens⟩

theorem SpellsItems.strict {tokens : List Token} {items : List Node}
    (spelt : SpellsItems breaks tokens items) {scanner after : Scanner} {below : List Mode}
    (gives : scanner.Gives tokens after) (inside : scanner.modes = .list :: below) :
    SpellsItems false tokens items ∧ after.modes = .list :: below := by
  match spelt with
  | .nil =>
    obtain rfl := Scanner.gives_nil_iff.mp gives
    exact ⟨.nil, inside⟩
  | .text before kind =>
    obtain ⟨middle, front, back⟩ := Scanner.gives_append_iff.mp gives
    obtain ⟨strict, still⟩ := before.strict front inside
    have moved := (back.moves kind still).of_list
    exact ⟨.text strict kind, by simpa using moved⟩
  | .comma before kind =>
    obtain ⟨middle, front, back⟩ := Scanner.gives_append_iff.mp gives
    obtain ⟨strict, still⟩ := before.strict front inside
    have moved := (back.moves kind still).of_list
    exact ⟨.comma strict kind, by simpa using moved⟩
  | .lineBreak before allowed kind =>
    -- this is the one production that the scanner rules out
    obtain ⟨middle, front, back⟩ := Scanner.gives_append_iff.mp gives
    obtain ⟨strict, still⟩ := before.strict front inside
    have moved := (back.moves kind still).of_list
    simp at moved
  | .template before last =>
    obtain ⟨middle, front, back⟩ := Scanner.gives_append_iff.mp gives
    obtain ⟨strict, still⟩ := before.strict front inside
    obtain ⟨strict', opens⟩ := last.strict back
    rw [still] at opens
    have moved := opens.of_list
    exact ⟨.template strict strict', by simpa using moved⟩

end

section Documents

variable {tokens : List Token} {scanner after : Scanner}

theorem SpellsBody.strict {node : Node} (spelt : SpellsBody breaks tokens node)
    (gives : scanner.Gives tokens after) : SpellsBody false tokens node := by
  cases spelt with
  | template spelt => exact .template (spelt.strict gives).1
  | list spelt => exact .list (spelt.strict gives).1

theorem SpellsBlock.strict {block : Block} (spelt : SpellsBlock breaks tokens block)
    (gives : scanner.Gives tokens after) : SpellsBlock false tokens block := by
  cases spelt with
  | @intro mark name first gap tokens body marked named broken blank inner =>
    obtain ⟨middle, front, back⟩ :=
      Scanner.gives_append_iff.mp (show scanner.Gives ([mark, name, first] ++ (gap ++ tokens)) after
        from gives)
    obtain ⟨start, _, gives⟩ := Scanner.gives_append_iff.mp back
    exact .intro marked named broken blank (inner.strict gives)

theorem SpellsBlocks.strict {blocks : List Block} (spelt : SpellsBlocks breaks tokens blocks)
    (gives : scanner.Gives tokens after) : SpellsBlocks false tokens blocks := by
  induction spelt generalizing after with
  | single only => exact .single (only.strict gives)
  | snoc before broken blank last ih =>
    obtain ⟨middle, front, back⟩ := Scanner.gives_append_iff.mp gives
    obtain ⟨parted, _, rest⟩ := Scanner.gives_cons_iff.mp back
    obtain ⟨start, _, gives⟩ := Scanner.gives_append_iff.mp rest
    exact .snoc (ih front) broken blank (last.strict gives)

/-- What a scanner gives needs no line breaks inside lists. -/
theorem SpellsDocument.strict {document : Document} (spelt : SpellsDocument breaks tokens document)
    (gives : scanner.Gives tokens after) : SpellsDocument false tokens document := by
  cases spelt with
  | empty blank blank' finished => exact .empty blank blank' finished
  | blocks blank inner blank' finished =>
    obtain ⟨start, _, rest⟩ := Scanner.gives_append_iff.mp gives
    obtain ⟨stop, gives, _⟩ := Scanner.gives_append_iff.mp rest
    exact .blocks blank (inner.strict gives) blank' finished

end Documents
end TextGrammar
