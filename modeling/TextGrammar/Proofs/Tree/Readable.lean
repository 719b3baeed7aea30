import Mathlib.Data.List.Chain
import TextGrammar.Proofs.Tree.Parsing
import TextGrammar.Proofs.Tree.Shape

/-!
# Trees that can be read

Not every tree is the tree of a source. What a scanner takes for text or for a name is a run that
goes on as long as it can, so two texts never stand next to each other, and a text behind a
reference does not go on with the name. The latter is the delicate case: of the characters behind a
reference the name has been given all that could belong to it, so only joiners are left in front of
the first character that could not.
-/
namespace TextGrammar

open Text

/-! ## The trees -/

/-- A letter and then any number of name characters. -/
def IsName (name : List Char) : Prop :=
  ∃ first text, name = first :: text ∧ first.isAlpha = true ∧ Every isNameChar text

namespace Node

/-- Inside a template the second part may come right after the first. -/
def MayPrecede : Node → Node → Prop
  | literal .., literal .. => False
  | reference .., literal value _ => Every isJoiner (value.toList.takeWhile isNameChar)
  | _, _ => True

mutual

inductive IsTemplate : Node → Prop where
  | intro {parts : List Node} {place : Option Span} (each : ∀ part ∈ parts, part.IsPart)
      (apart : parts.IsChain MayPrecede) : IsTemplate (.template parts place)

inductive IsPart : Node → Prop where
  | literal {value : String} {place : Option Span} (nonempty : value ≠ "")
      (plain : Every isTemplateText value.toList) : IsPart (.literal value place)
  | reference {name : String} {place : Option Span} (named : IsName name.toList)
      (ends : ∀ last ∈ name.toList.getLast?, last.isAlphanum = true) :
      IsPart (.reference name place)
  | list {node : Node} (list : node.IsList) : IsPart node

inductive IsList : Node → Prop where
  | intro {items : List Node} {place : Option Span} (each : ∀ item ∈ items, item.IsItem) :
      IsList (.list items place)

inductive IsItem : Node → Prop where
  | literal {value : String} {place : Option Span} (stripped : strip value = value)
      (plain : Every isItemText value.toList) : IsItem (.literal value place)
  | template {node : Node} (template : node.IsTemplate) : IsItem node

end

def IsBody (node : Node) : Prop := node.IsTemplate ∨ node.IsList

end Node

structure Block.IsReadable (block : Block) : Prop where
  named : IsName block.name.toList
  body : block.body.IsBody

def Document.IsReadable (document : Document) : Prop := ∀ block ∈ document.blocks, block.IsReadable

/-! ## Places do not matter -/

namespace Node

variable {node node' : Node}

theorem bare_eq_literal {value : String} :
    node.bare = .literal value none ↔ ∃ place, node = .literal value place := by
  cases node <;> simp [bare]

theorem bare_eq_reference {name : String} :
    node.bare = .reference name none ↔ ∃ place, node = .reference name place := by
  cases node <;> simp [bare]

theorem bare_eq_template {shapes : List Node} :
    node.bare = .template shapes none ↔
      ∃ parts place, node = .template parts place ∧ allBare parts = shapes := by
  cases node <;> simp [bare]

theorem bare_eq_list {shapes : List Node} :
    node.bare = .list shapes none ↔
      ∃ items place, node = .list items place ∧ allBare items = shapes := by
  cases node <;> simp [bare]

theorem exists_mem_bare {nodes nodes' : List Node} (same : allBare nodes' = allBare nodes)
    (member : node' ∈ nodes') : ∃ node ∈ nodes, node'.bare = node.bare := by
  simp only [allBare_eq_map] at same
  have present := List.mem_map_of_mem (f := bare) member
  rw [same] at present
  obtain ⟨node, member, shape⟩ := List.mem_map.mp present
  exact ⟨node, member, shape.symm⟩

theorem mayPrecede_bare (node node' : Node) :
    node.bare.MayPrecede node'.bare ↔ node.MayPrecede node' := by
  cases node <;> cases node' <;> rfl

theorem isChain_bare {nodes : List Node} :
    (allBare nodes).IsChain MayPrecede ↔ nodes.IsChain MayPrecede := by
  rw [allBare_eq_map, List.isChain_map]
  simp only [mayPrecede_bare]

mutual

theorem IsTemplate.alike {node node' : Node} (template : node.IsTemplate)
    (same : node'.bare = node.bare) : node'.IsTemplate := by
  match template with
  | .intro each apart =>
    obtain ⟨parts', place', rfl, shapes⟩ := bare_eq_template.mp same
    refine .intro (fun part' member => ?_) ?_
    · obtain ⟨part, member, shape⟩ := exists_mem_bare shapes member
      exact (each part member).alike shape
    · rwa [← isChain_bare, shapes, isChain_bare]

theorem IsPart.alike {node node' : Node} (part : node.IsPart) (same : node'.bare = node.bare) :
    node'.IsPart := by
  match part with
  | .literal nonempty plain =>
    obtain ⟨place', rfl⟩ := bare_eq_literal.mp same
    exact .literal nonempty plain
  | .reference named ends =>
    obtain ⟨place', rfl⟩ := bare_eq_reference.mp same
    exact .reference named ends
  | .list inner => exact .list (inner.alike same)

theorem IsList.alike {node node' : Node} (list : node.IsList) (same : node'.bare = node.bare) :
    node'.IsList := by
  match list with
  | .intro each =>
    obtain ⟨items', place', rfl, shapes⟩ := bare_eq_list.mp same
    refine .intro fun item' member => ?_
    obtain ⟨item, member, shape⟩ := exists_mem_bare shapes member
    exact (each item member).alike shape

theorem IsItem.alike {node node' : Node} (item : node.IsItem) (same : node'.bare = node.bare) :
    node'.IsItem := by
  match item with
  | .literal stripped plain =>
    obtain ⟨place', rfl⟩ := bare_eq_literal.mp same
    exact .literal stripped plain
  | .template inner => exact .template (inner.alike same)

end

end Node

theorem Block.IsReadable.alike {block block' : Block} (readable : block.IsReadable)
    (same : block'.bare = block.bare) : block'.IsReadable := by
  obtain ⟨name, body, _⟩ := Block.mk.inj same
  exact ⟨name ▸ readable.named, readable.body.imp (·.alike body) (·.alike body)⟩

theorem Document.IsReadable.alike {document document' : Document} (readable : document.IsReadable)
    (alike : document.alike document' = true) : document'.IsReadable := by
  have same := (Document.alike_iff_bare _ _).mp alike
  intro block' member
  have present := List.mem_map_of_mem (f := Block.bare) member
  rw [← same] at present
  obtain ⟨block, member, shape⟩ := List.mem_map.mp present
  exact (readable block member).alike shape.symm

/-! ## Stripped text -/

namespace Text

variable {drop : Char → Bool} {text : List Char}

/-- Nothing is left to be dropped at the ends of what has been trimmed, and all of it has been there
before. -/
theorem trim_ends (drop : Char → Bool) (text : List Char) :
    (∀ first ∈ (trim drop text).head?, drop first = false) ∧
      (∀ last ∈ (trim drop text).getLast?, drop last = false) ∧
      ∀ char ∈ trim drop text, char ∈ text := by
  obtain ⟨dropped, whole, _, ends⟩ := trimEnd_split drop (text.dropWhile drop)
  refine ⟨fun first member => ?_, ends, fun char member => ?_⟩
  · have front : first ∈ (text.dropWhile drop).head? := by
      rw [trim, Option.mem_def] at member
      rw [whole, List.head?_append, member]
      rfl
    have stopped := List.head?_dropWhile_not drop text
    rwa [Option.mem_def.mp front] at stopped
  · refine (List.dropWhile_suffix drop).subset ?_
    rw [whole]
    exact List.mem_append_left _ member

theorem trim_of_ends (starts : ∀ first ∈ text.head?, drop first = false)
    (ends : ∀ last ∈ text.getLast?, drop last = false) : trim drop text = text := by
  have kept : text.dropWhile drop = text := by
    cases text with
    | nil => rfl
    | cons first rest => exact dropWhile_stops (.of_head (starts first rfl))
  have trimmed := trimEnd_append ends (List.forall_mem_nil fun char => drop char = true)
  rw [List.append_nil] at trimmed
  rw [trim, kept, trimmed]

theorem strip_strip (value : String) : strip (strip value) = strip value := by
  obtain ⟨starts, ends, _⟩ := trim_ends isBlank value.toList
  simp only [strip, String.toList_ofList, trim_of_ends starts ends]

theorem every_strip {p : Char → Bool} {value : String} (every : Every p value.toList) :
    Every p (strip value).toList := by
  obtain ⟨_, _, within⟩ := trim_ends isBlank value.toList
  intro char member
  rw [strip, String.toList_ofList] at member
  exact every char (within char member)

end Text

/-! ## Every source is the text of such a tree -/

/-- What a template can go on with behind the node. -/
def Node.Followed : Node → List Char → Prop
  | literal .., later => Stops isTemplateText later
  | reference .., later =>
    ∃ joiners rest, later = joiners ++ rest ∧ Every isJoiner joiners ∧ Stops isNameChar rest
  | _, _ => True

theorem Node.Followed.mayPrecede {node : Node} {value : String} {place : Option Span}
    {later : List Char} (followed : node.Followed (value.toList ++ later))
    (nonempty : value.toList ≠ []) (plain : Every isTemplateText value.toList) :
    node.MayPrecede (.literal value place) := by
  cases node with
  | literal =>
    -- a text goes on until there is a character that another text could not begin with
    obtain ⟨char, rest, starts, differs⟩ := followed
    obtain ⟨first, text, split⟩ := List.exists_cons_of_ne_nil nonempty
    rw [split, List.cons_append] at starts
    obtain ⟨rfl, _⟩ := List.cons.inj starts
    have belongs := plain first (by simp [split])
    rw [differs] at belongs
    cases belongs
  | reference =>
    -- what the text begins with is the beginning of what is left behind the name
    obtain ⟨joiners, rest, split, joined, stops⟩ := followed
    have run := takeWhile_run (joined.imp fun _ => isNameChar_of_isJoiner) stops
    intro char member
    have within : char ∈ (value.toList ++ later).takeWhile isNameChar := by
      rw [List.takeWhile_append]
      split
      · exact List.mem_append_left _ ((List.takeWhile_prefix _).subset member)
      · exact member
    rw [split, run] at within
    exact joined char within
  | list | template | block | document => trivial

theorem Node.mayPrecede_reference (node : Node) (name : String) (place : Option Span) :
    node.MayPrecede (.reference name place) := by
  cases node <;> trivial

theorem Node.IsList.mayFollow {node : Node} (list : node.IsList) (previous : Node) :
    previous.MayPrecede node := by
  cases list
  cases previous <;> trivial

theorem Node.IsList.followed {node : Node} (list : node.IsList) (later : List Char) :
    node.Followed later := by
  cases list
  trivial

theorem FindsName.isName {below later modes : List _} {text : List Char}
    (finds : FindsName below (.token .name text) later modes) : IsName text := by
  cases finds with
  | whole outside letter plain stops => exact ⟨_, _, rfl, letter, plain⟩
  | trimmed inside letter plain ends joined stops => exact ⟨_, _, rfl, letter, plain⟩

theorem Finds.isName {blankLine : Bool} {modes gap text later modes' : List _}
    (finds : Finds blankLine modes gap (.token .name text) later modes') : IsName text := by
  have named : ∀ {base}, FindsTop blankLine base gap (.token .name text) later modes' →
      IsName text := by
    intro base finds
    cases finds with
    | named skipped starts unmarked finds => exact finds.isName
  cases finds with
  | top finds => exact named finds
  | lineStart other finds => exact named finds
  | template finds => cases finds
  | name finds => exact finds.isName
  | list finds => cases finds

namespace Scanner

variable {scanner after : Scanner} {token : Token} {below : List Mode}

theorem next_name (found : scanner.next = (.ok token, after)) (kind : token.kind = .name) :
    IsName token.lexeme.toList := by
  obtain ⟨gap, text, later, cuts⟩ := next_ok_iff.mp found
  rw [cuts.lexeme, String.toList_ofList]
  exact (kind ▸ cuts.finds).isName

/-- A name in a template ends with a letter or a digit, and it has left only joiners behind. -/
theorem next_reference (found : scanner.next = (.ok token, after)) (kind : token.kind = .name)
    (inside : scanner.modes = .name :: .template :: below) :
    (∀ last ∈ token.lexeme.toList.getLast?, last.isAlphanum = true) ∧
      ∃ joiners rest, after.cursor.rest = joiners ++ rest ∧ Every isJoiner joiners ∧
        Stops isNameChar rest := by
  obtain ⟨gap, text, later, cuts⟩ := next_ok_iff.mp found
  have finds := cuts.finds
  rw [kind, inside] at finds
  generalize after.modes = modes at finds
  rw [cuts.lexeme, String.toList_ofList, cuts.left]
  cases finds with
  | name finds =>
    cases finds with
    | whole outside letter plain stops => exact absurd rfl outside
    | trimmed _ letter plain ends joined stops =>
      refine ⟨fun last member => ?_, _, _, rfl, joined, stops⟩
      have belongs := plain.cons (isNameChar_of_isAlpha letter) last (List.mem_of_getLast? member)
      exact isAlphanum_of_isNameChar belongs (ends last member)

theorem next_text (found : scanner.next = (.ok token, after)) (kind : token.kind = .text)
    (inside : scanner.modes = .template :: below) :
    token.lexeme.toList ≠ [] ∧ Every isTemplateText token.lexeme.toList ∧
      Stops isTemplateText after.cursor.rest ∧
      scanner.cursor.rest = token.lexeme.toList ++ after.cursor.rest := by
  obtain ⟨gap, text, later, cuts⟩ := next_ok_iff.mp found
  have finds := cuts.finds
  have rest := cuts.rest
  rw [kind, inside] at finds
  generalize after.modes = modes at finds
  rw [cuts.lexeme, String.toList_ofList, cuts.left]
  cases finds with
  | template finds =>
    cases finds with
    | text nonempty plain stops => exact ⟨nonempty, plain, stops, rest⟩

theorem next_item (found : scanner.next = (.ok token, after)) (kind : token.kind = .text)
    (inside : scanner.modes = .list :: below) :
    Every isItemText token.lexeme.toList ∧ Stops isItemText after.cursor.rest := by
  obtain ⟨gap, text, later, cuts⟩ := next_ok_iff.mp found
  have finds := cuts.finds
  rw [kind, inside] at finds
  generalize after.modes = modes at finds
  rw [cuts.lexeme, String.toList_ofList, cuts.left]
  cases finds with
  | list finds =>
    cases finds with
    | text skipped starts plain stops => exact ⟨plain, stops⟩

end Scanner

theorem forall_mem_snoc {α : Type} {holds : α → Prop} {front : List α} {last : α}
    (each : ∀ member ∈ front, holds member) (also : holds last) :
    ∀ member ∈ front ++ [last], holds member :=
  List.forall_mem_append.mpr ⟨each, List.forall_mem_singleton.mpr also⟩

theorem forall_getLast?_snoc {α : Type} {holds : α → Prop} {front : List α} {last : α}
    (also : holds last) : ∀ member ∈ (front ++ [last]).getLast?, holds member := by
  simpa using also

theorem Node.isChain_snoc {parts : List Node} {last : Node} (apart : parts.IsChain MayPrecede)
    (next : ∀ previous ∈ parts.getLast?, previous.MayPrecede last) :
    (parts ++ [last]).IsChain MayPrecede :=
  apart.append (.singleton last) (by simpa using next)

variable {breaks : Bool}

mutual

theorem SpellsTemplate.readable {tokens : List Token} {node : Node}
    (spelt : SpellsTemplate breaks tokens node) {scanner after : Scanner}
    (gives : scanner.Gives tokens after) : node.IsTemplate := by
  match spelt with
  | .intro opened inner closed =>
    obtain ⟨_, _, _, _, inside, between, _⟩ := gives.quoted opened
    obtain ⟨each, apart, _⟩ := inner.readable between inside
    exact .intro each apart

theorem SpellsParts.readable {tokens : List Token} {parts : List Node}
    (spelt : SpellsParts breaks tokens parts) {scanner after : Scanner} {below : List Mode}
    (gives : scanner.Gives tokens after) (inside : scanner.modes = .template :: below) :
    (∀ part ∈ parts, part.IsPart) ∧ parts.IsChain Node.MayPrecede ∧
      ∀ last ∈ parts.getLast?, last.Followed after.cursor.rest := by
  match spelt with
  | .nil => exact ⟨nofun, .nil, nofun⟩
  | .text before kind =>
    obtain ⟨middle, front, back⟩ := Scanner.gives_append_iff.mp gives
    obtain ⟨each, apart, followed⟩ := before.readable front inside
    obtain ⟨_, still⟩ := before.strict front inside
    obtain ⟨nonempty, plain, stops, rest⟩ :=
      Scanner.next_text (Scanner.gives_singleton_iff.mp back) kind still
    have some := mt String.toList_eq_nil_iff.mpr nonempty
    refine ⟨forall_mem_snoc each (.literal some plain), ?_, ?_⟩
    · refine Node.isChain_snoc apart fun previous member => ?_
      -- the part before has left off where this text begins
      have front := followed previous member
      rw [rest] at front
      exact front.mayPrecede nonempty plain
    · exact forall_getLast?_snoc stops
  | .reference before marked named =>
    obtain ⟨middle, front, back⟩ := Scanner.gives_append_iff.mp gives
    obtain ⟨each, apart, _⟩ := before.readable front inside
    obtain ⟨_, still⟩ := before.strict front inside
    obtain ⟨hashed, first, last⟩ := Scanner.gives_cons_iff.mp back
    have moved := ((Scanner.gives_singleton_iff.mpr first).moves marked still).of_template
    have naming : hashed.modes = .name :: .template :: below := by simpa using moved
    have found := Scanner.gives_singleton_iff.mp last
    obtain ⟨ends, followed⟩ := Scanner.next_reference found named naming
    refine ⟨forall_mem_snoc each (.reference (Scanner.next_name found named) ends), ?_, ?_⟩
    · exact Node.isChain_snoc apart fun previous _ => previous.mayPrecede_reference _ _
    · exact forall_getLast?_snoc followed
  | .list before last =>
    obtain ⟨middle, front, back⟩ := Scanner.gives_append_iff.mp gives
    obtain ⟨each, apart, _⟩ := before.readable front inside
    have list := last.readable back
    refine ⟨forall_mem_snoc each (.list list), ?_, ?_⟩
    · exact Node.isChain_snoc apart fun previous _ => list.mayFollow previous
    · exact forall_getLast?_snoc (list.followed _)

theorem SpellsList.readable {tokens : List Token} {node : Node}
    (spelt : SpellsList breaks tokens node) {scanner after : Scanner}
    (gives : scanner.Gives tokens after) : node.IsList := by
  match spelt with
  | .intro opened inner closed =>
    obtain ⟨_, _, _, _, inside, between, _⟩ := gives.bracketed opened
    exact .intro (inner.readable between inside)

theorem SpellsItems.readable {tokens : List Token} {items : List Node}
    (spelt : SpellsItems breaks tokens items) {scanner after : Scanner} {below : List Mode}
    (gives : scanner.Gives tokens after) (inside : scanner.modes = .list :: below) :
    ∀ item ∈ items, item.IsItem := by
  match spelt with
  | .nil => exact nofun
  | .text before kind =>
    obtain ⟨middle, front, back⟩ := Scanner.gives_append_iff.mp gives
    have each := before.readable front inside
    obtain ⟨_, still⟩ := before.strict front inside
    obtain ⟨plain, _⟩ := Scanner.next_item (Scanner.gives_singleton_iff.mp back) kind still
    exact forall_mem_snoc each (.literal (strip_strip _) (every_strip plain))
  | .comma before kind | .lineBreak before allowed kind =>
    obtain ⟨middle, front, _⟩ := Scanner.gives_append_iff.mp gives
    exact before.readable front inside
  | .template before last =>
    obtain ⟨middle, front, back⟩ := Scanner.gives_append_iff.mp gives
    have each := before.readable front inside
    exact forall_mem_snoc each (.template (last.readable back))

end

section Documents

variable {tokens : List Token} {scanner after : Scanner}

theorem SpellsBody.readable {node : Node} (spelt : SpellsBody breaks tokens node)
    (gives : scanner.Gives tokens after) : node.IsBody := by
  cases spelt with
  | template spelt => exact .inl (spelt.readable gives)
  | list spelt => exact .inr (spelt.readable gives)

theorem SpellsBlock.readable {block : Block} (spelt : SpellsBlock breaks tokens block)
    (gives : scanner.Gives tokens after) : block.IsReadable := by
  cases spelt with
  | intro marked named broken blank inner =>
    obtain ⟨titled, _, rest⟩ := Scanner.gives_cons_iff.mp gives
    obtain ⟨broke, title, rest⟩ := Scanner.gives_cons_iff.mp rest
    obtain ⟨start, _, rest⟩ := Scanner.gives_cons_iff.mp rest
    obtain ⟨opening, _, body⟩ := Scanner.gives_append_iff.mp rest
    exact ⟨Scanner.next_name title named, inner.readable body⟩

theorem SpellsBlocks.readable {blocks : List Block} (spelt : SpellsBlocks breaks tokens blocks)
    (gives : scanner.Gives tokens after) : ∀ block ∈ blocks, block.IsReadable := by
  induction spelt generalizing after with
  | single only => simpa using only.readable gives
  | snoc before broken blank last ih =>
    obtain ⟨middle, front, back⟩ := Scanner.gives_append_iff.mp gives
    obtain ⟨parted, _, rest⟩ := Scanner.gives_cons_iff.mp back
    obtain ⟨start, _, gives⟩ := Scanner.gives_append_iff.mp rest
    exact forall_mem_snoc (ih front) (last.readable gives)

theorem SpellsDocument.readable {document : Document}
    (spelt : SpellsDocument breaks tokens document) (gives : scanner.Gives tokens after) :
    document.IsReadable := by
  cases spelt with
  | empty => exact nofun
  | blocks blank inner blank' finished =>
    obtain ⟨start, _, rest⟩ := Scanner.gives_append_iff.mp gives
    obtain ⟨stop, gives, _⟩ := Scanner.gives_append_iff.mp rest
    exact inner.readable gives

end Documents

theorem readable_of_parse {file source : String} {document : Document}
    (parsed : parse file source = .ok document) : document.IsReadable := by
  obtain ⟨tokens, all, spelt⟩ := spells_of_parse parsed
  obtain ⟨front, stop, after, rfl, _, _, gives⟩ := Scanner.tokens_ok_iff.mp all
  exact spelt.readable gives

end TextGrammar
