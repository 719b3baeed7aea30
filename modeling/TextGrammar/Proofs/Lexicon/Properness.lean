import TextGrammar.Proofs.Expansion.Reachability
import TextGrammar.Proofs.Lexicon.Compiled
import TextGrammar.Proofs.Tree.Readable

/-!
# Nothing is misplaced in a source

The type of parts lets a sequence stand where a part should, and the type of nodes lets any node
stand anywhere. The tree of a source has each node where it belongs, so it is compiled without a
fault, and to parts that belong where they stand. This is handed on from a part to all that it leads
to, and so expanding never finds a misplaced sequence, however long it goes on.
-/
namespace TextGrammar

/-! ## Proper parts -/

mutual

/-- No sequence stands where a part should, however deep inside. -/
inductive Part.IsProper : Part → Prop where
  | text (value : String) : Part.IsProper (.text value)
  | reference (name : String) : Part.IsProper (.reference name)
  | choice {items : List Alternative} (each : ∀ item ∈ items, item.IsProper) :
      Part.IsProper (.choice items)

inductive Alternative.IsProper : Alternative → Prop where
  | text (value : String) : Alternative.IsProper (.text value)
  | sequence {parts : List Part} (each : ∀ part ∈ parts, part.IsProper) :
      Alternative.IsProper (.sequence parts)

end

structure Lexicon.IsProper (lexicon : Lexicon) : Prop where
  nonempty : ∀ {name rule}, lexicon.rule? name = some rule → rule ≠ []
  each : ∀ {name rule}, lexicon.rule? name = some rule → ∀ part ∈ rule, part.IsProper

/-- The endings of an expansion of `name` that comes upon nothing misplaced. -/
inductive Ending.Regular (name : String) (limit : Option Int) : Ending → Prop where
  | text (value : String) : Ending.Regular name limit (.text value)
  | unknown (other : String) : Ending.Regular name limit (.fault (.unknownRule other))
  | exceeded {bound : Int} (limited : limit = some bound) :
      Ending.Regular name limit (.fault (.stepLimit name bound))
  | unfinished (unlimited : limit = none) : Ending.Regular name limit .unfinished

theorem Lexicon.IsProper.inherited {lexicon : Lexicon} (proper : lexicon.IsProper) :
    Inherited lexicon Part.IsProper := by
  intro part parts leads here
  cases leads with
  | rule defined => exact proper.each defined
  | item member =>
    cases here with
    | choice each =>
      cases each _ member with
      | sequence inner => exact inner

theorem Lexicon.IsProper.regular {σ : Type} [Chooser σ] {lexicon : Lexicon}
    (proper : lexicon.IsProper) (name : String) (limit : Option Int) (patience : Nat) (source : σ) :
    (lexicon.expand name limit patience source).ending.Regular name limit := by
  have explained := lexicon.expand_inherits proper.inherited (.reference name) limit patience source
  generalize (lexicon.expand name limit patience source).ending = ending at explained ⊢
  cases explained with
  | text value => exact .text value
  | exceeded limited => exact .exceeded limited
  | unfinished unlimited => exact .unfinished unlimited
  | fails here fails =>
    cases fails with
    | unknown undefined => exact .unknown _
    | misplaced parts => cases here

/-! ## Trees that can be read -/

/-- A name that can be referred to. A header may define others as well. -/
structure IsReference (name : List Char) : Prop where
  named : IsName name
  ends : ∀ last ∈ name.getLast?, last.isAlphanum = true

/-- The parts that trees that can be read are compiled to: proper ones, and what they mention can be
referred to. -/
structure Part.IsReadable (part : Part) : Prop where
  proper : part.IsProper
  refers : ∀ name, part.Mentions name → IsReference name.toList

structure Alternative.IsReadable (item : Alternative) : Prop where
  proper : item.IsProper
  refers : ∀ name, item.Mentions name → IsReference name.toList

theorem Part.isReadable_text (value : String) : (Part.text value).IsReadable :=
  ⟨.text value, fun _ mentions => absurd mentions not_mentions_text⟩

theorem Part.isReadable_reference {name : String} (reference : IsReference name.toList) :
    (Part.reference name).IsReadable := by
  refine ⟨.reference name, fun other mentions => ?_⟩
  rw [mentions_reference.mp mentions]
  exact reference

theorem Part.isReadable_choice {items : List Alternative}
    (each : ∀ item ∈ items, item.IsReadable) : (Part.choice items).IsReadable := by
  refine ⟨.choice fun item member => (each item member).proper, fun name mentions => ?_⟩
  obtain ⟨item, member, inside⟩ := mentions_choice.mp mentions
  exact (each item member).refers name inside

theorem Alternative.isReadable_text (value : String) : (Alternative.text value).IsReadable :=
  ⟨.text value, fun _ mentions => absurd mentions not_mentions_text⟩

theorem Alternative.isReadable_sequence {parts : List Part}
    (each : ∀ part ∈ parts, part.IsReadable) : (Alternative.sequence parts).IsReadable := by
  refine ⟨.sequence fun part member => (each part member).proper, fun name mentions => ?_⟩
  obtain ⟨part, member, inside⟩ := mentions_sequence.mp mentions
  exact (each part member).refers name inside

mutual

theorem Node.IsTemplate.compiles {node : Node} (template : node.IsTemplate) :
    ∃ parts, compileParts node.pieces = .ok parts ∧ ∀ part ∈ parts, part.IsReadable := by
  match template with
  | .intro each _ => exact compileParts_of_each fun part member => (each part member).compiles

theorem Node.IsPart.compiles {node : Node} (part : node.IsPart) :
    ∃ compiled, node.compilePart = .ok compiled ∧ compiled.IsReadable := by
  match part with
  | .literal .. => exact ⟨_, rfl, Part.isReadable_text _⟩
  | .reference named ends => exact ⟨_, rfl, Part.isReadable_reference ⟨named, ends⟩⟩
  | .list inner => exact inner.compiles

theorem Node.IsList.compiles {node : Node} (list : node.IsList) :
    ∃ compiled, node.compilePart = .ok compiled ∧ compiled.IsReadable := by
  match list with
  | .intro each =>
    obtain ⟨items, compiled, readable⟩ :=
      compileItems_of_each fun item member => (each item member).compiles
    exact ⟨_, compilePart_list.mpr ⟨items, compiled, rfl⟩, Part.isReadable_choice readable⟩

theorem Node.IsItem.compiles {node : Node} (item : node.IsItem) :
    ∃ compiled, node.compileItem = .ok compiled ∧ compiled.IsReadable := by
  match item with
  | .literal .. => exact ⟨_, rfl, Alternative.isReadable_text _⟩
  | .template inner =>
    obtain ⟨parts, compiled, readable⟩ := inner.compiles
    cases inner with
    | intro each apart =>
      exact ⟨_, compileItem_template.mpr ⟨parts, compiled, rfl⟩,
        Alternative.isReadable_sequence readable⟩

end

/-- A template without parts is one of literals only, so even its rule is not empty. -/
theorem Block.IsReadable.compiles {block : Block} (readable : block.IsReadable) :
    ∃ rule, block.compile = .ok rule ∧ rule ≠ [] ∧ ∀ part ∈ rule, part.IsReadable := by
  obtain ⟨name, body, place⟩ := block
  rcases readable.body with template | list
  · obtain ⟨parts, compiled, each⟩ := template.compiles
    cases template with
    | @intro nodes place _ apart =>
      simp only [compile, Node.compileTemplate]
      split
      next values literals =>
        exact ⟨_, rfl, List.cons_ne_nil _ _, by simpa using Part.isReadable_text _⟩
      next other =>
        refine ⟨parts, compiled, ?_, each⟩
        -- without any parts there would have been literals only
        rintro rfl
        have empty : nodes = [] := Node.eq_nil_of_compileParts compiled
        rw [empty] at other
        cases other
  · obtain ⟨part, compiled, readable⟩ := list.compiles
    cases list with
    | intro each =>
      obtain ⟨items, itemised, rfl⟩ := Node.compilePart_list.mp compiled
      refine ⟨[.choice items], ?_, List.cons_ne_nil _ _, by simpa using readable⟩
      simp only [compile, itemised]
      rfl

/-- Every rule of the lexicon has come from some block. -/
theorem Document.IsReadable.rule {document : Document} {lexicon : Lexicon} {name : String}
    {rule : Rule} (readable : document.IsReadable) (compiled : document.compile = .ok lexicon)
    (defined : lexicon.rule? name = some rule) :
    IsName name.toList ∧ rule ≠ [] ∧ ∀ part ∈ rule, part.IsReadable := by
  obtain ⟨block, member, rfl, ruled⟩ := Document.exists_block compiled defined
  obtain ⟨rule', ruled', nonempty, each⟩ := (readable block member).compiles
  obtain rfl : rule' = rule := Except.ok.inj (ruled'.symm.trans ruled)
  exact ⟨(readable block member).named, nonempty, each⟩

theorem Document.IsReadable.compiles {document : Document} (readable : document.IsReadable) :
    ∃ lexicon, document.compile = .ok lexicon ∧ lexicon.IsProper := by
  have each : ∀ block ∈ document.blocks, ∃ rule, block.compile = .ok rule := by
    intro block member
    obtain ⟨rule, ruled, _⟩ := (readable block member).compiles
    exact ⟨rule, ruled⟩
  obtain ⟨lexicon, compiled⟩ := Document.compile_of_each each
  refine ⟨lexicon, compiled, fun defined => ?_, fun defined part member => ?_⟩
  · exact (readable.rule compiled defined).2.1
  · exact ((readable.rule compiled defined).2.2 part member).proper

/-- A source that is parsed is compiled, to rules with proper parts of which there is always one,
and then no expansion finds anything misplaced, whatever is drawn and whether or not there is a
limit. -/
theorem parse_regular {file source : String} {document : Document}
    (parsed : parse file source = .ok document) :
    ∃ lexicon, document.compile = .ok lexicon ∧
      (∀ name rule, lexicon.rule? name = some rule →
        rule ≠ [] ∧ ∀ part ∈ rule, part.IsProper) ∧
      ∀ (σ : Type) [Chooser σ] (name : String) (limit : Option Int) (patience : Nat) (draws : σ),
        (lexicon.expand name limit patience draws).ending.Regular name limit := by
  obtain ⟨lexicon, compiled, proper⟩ := (readable_of_parse parsed).compiles
  refine ⟨lexicon, compiled, fun name rule defined => ?_, fun σ _ name limit patience draws => ?_⟩
  · exact ⟨proper.nonempty defined, proper.each defined⟩
  · exact proper.regular name limit patience draws

/-- A rule that may go on for ever, with an empty list and a reference to no rule in it. -/
theorem parse_regular_recurring :
    ∃ document lexicon, parse "" "*a\n[b,\"#a-[]#c\"]" = .ok document ∧
      document.compile = .ok lexicon ∧
      (∀ rule, lexicon.rule? "a" = some rule → rule ≠ [] ∧ ∀ part ∈ rule, part.IsProper) ∧
      ∀ limit patience, (lexicon.expand "a" limit patience
        (⟨[1, 0], 1⟩ : Script)).ending.Regular "a" limit := by
  obtain ⟨document, parsed⟩ : ∃ document, parse "" "*a\n[b,\"#a-[]#c\"]" = .ok document :=
    ⟨_, parse_of_firsts 16 rfl rfl (by decide) rfl rfl rfl⟩
  obtain ⟨lexicon, compiled, proper, regular⟩ := parse_regular parsed
  exact ⟨document, lexicon, parsed, compiled, proper "a",
    fun limit patience => regular Script "a" limit patience _⟩

end TextGrammar
