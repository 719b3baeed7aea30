import TextGrammar.Proofs.Expansion.Simulation
import TextGrammar.Proofs.Lexicon.Compiled

/-!
# Compiling keeps the meaning

What a tree derives is said on the tree itself, with the names looked up among the blocks. The
expansion of what a tree was compiled to comes to the same texts after the same draws, and to the
same undefined names. Each derivation is turned into an expansion of the compiled pieces, and each
expansion back into a derivation.
-/
namespace TextGrammar

mutual

/-- What a node derives, and the draws made on the way: a text, or the first undefined name that is
met from left to right. -/
inductive Node.Derives (document : Document) :
    Node → Except String String → List Draw → Prop where
  | literal (value : String) (place : Option Span) :
      Node.Derives document (.literal value place) (.ok value) []
  | reference {name : String} {place : Option Span} {block : Block}
      {result : Except String String} {draws : List Draw}
      (last : document.lastBlock? name = some block)
      (derive : Node.Derives document block.body result draws) :
      Node.Derives document (.reference name place) result draws
  | undefined {name : String} {place : Option Span} (missing : document.lastBlock? name = none) :
      Node.Derives document (.reference name place) (.error name) []
  | emptyList (place : Option Span) : Node.Derives document (.list [] place) (.ok "") []
  | list (items : List Node) (place : Option Span) {result : Except String String}
      {draws : List Draw} (pick : Fin items.length)
      (derive : Node.Derives document (items.get pick) result draws) :
      Node.Derives document (.list items place) result (⟨items.length, pick⟩ :: draws)
  | template {parts : List Node} {place : Option Span} {result : Except String String}
      {draws : List Draw} (derive : Node.AllDerive document parts result draws) :
      Node.Derives document (.template parts place) result draws

/-- What nodes derive one after the other: their texts are joined, and the first undefined name
ends it. -/
inductive Node.AllDerive (document : Document) :
    List Node → Except String String → List Draw → Prop where
  | nil : Node.AllDerive document [] (.ok "") []
  | cons {node : Node} {nodes : List Node} {text : String} {result : Except String String}
      {draws later : List Draw} (first : Node.Derives document node (.ok text) draws)
      (rest : Node.AllDerive document nodes result later) :
      Node.AllDerive document (node :: nodes) (result.map (text ++ ·)) (draws ++ later)
  | stop {node : Node} {nodes : List Node} {name : String} {draws : List Draw}
      (first : Node.Derives document node (.error name) draws) :
      Node.AllDerive document (node :: nodes) (.error name) draws

end

theorem mapError_map_append (text : String) (result : Except String String) :
    (result.map (text ++ ·)).mapError ExpansionFault.unknownRule =
      (result.mapError ExpansionFault.unknownRule).map (text ++ ·) := by
  cases result <;> rfl

section Expansion

variable {lexicon : Lexicon} {name : String}

theorem Part.allExpand_singleton {part : Part} {result : Except ExpansionFault String}
    {draws : List Draw} :
    Part.AllExpand lexicon name [part] result draws ↔ part.Expands lexicon name result draws := by
  constructor
  · intro expand
    cases expand with
    | stop first => exact first
    | cons first rest =>
      cases rest
      simpa [Except.map] using first
  · intro expands
    cases result with
    | error fault => exact .stop expands
    | ok text => simpa [Except.map] using Part.AllExpand.cons expands .nil

theorem Part.allExpand_texts {values : List String} {result : Except ExpansionFault String}
    {draws : List Draw} :
    Part.AllExpand lexicon name (values.map .text) result draws ↔
      result = .ok (String.join values) ∧ draws = [] := by
  induction values generalizing result draws with
  | nil =>
    constructor
    · intro expand
      cases expand
      exact ⟨rfl, rfl⟩
    · rintro ⟨rfl, rfl⟩
      exact .nil
  | cons value values ih =>
    rw [List.map_cons, String.join_cons]
    constructor
    · intro expand
      cases expand with
      | stop first => cases first
      | cons first rest =>
        cases first
        obtain ⟨rfl, rfl⟩ := ih.mp rest
        exact ⟨rfl, rfl⟩
    · rintro ⟨rfl, rfl⟩
      exact .cons (.text value) (ih.mpr ⟨rfl, rfl⟩)

end Expansion

namespace Node

theorem AllDerive.of_literals {document : Document} {nodes : List Node} {values : List String}
    (literals : nodes.mapM literal? = some values) :
    AllDerive document nodes (.ok (String.join values)) [] := by
  induction nodes generalizing values with
  | nil =>
    cases literals
    exact .nil
  | cons node nodes ih =>
    obtain ⟨value, place, others, rfl, rest, rfl⟩ := cons_of_literals literals
    rw [String.join_cons]
    exact .cons (.literal value place) (ih rest)

theorem allDerive_singleton {document : Document} {node : Node} {result : Except String String}
    {draws : List Draw} :
    AllDerive document [node] result draws ↔ node.Derives document result draws := by
  constructor
  · intro derive
    cases derive with
    | stop first => exact first
    | cons first rest =>
      cases rest
      simpa [Except.map] using first
  · intro derives
    cases result with
    | error name => exact .stop derives
    | ok text => simpa [Except.map] using AllDerive.cons derives .nil

theorem allDerive_pieces {document : Document} {node : Node} {result : Except String String}
    {draws : List Draw} :
    AllDerive document node.pieces result draws ↔ node.Derives document result draws := by
  cases node with
  | template parts place =>
    constructor
    · exact .template
    · intro derives
      cases derives with
      | template derive => exact derive
  | _ => exact allDerive_singleton

end Node

theorem draw_cast {count count' : Nat} (same : count = count') (pick : Fin count) :
    (⟨count, pick⟩ : Draw) = ⟨count', pick.cast same⟩ := by
  simp [same]

/-! ## From derivations to expansions -/

section Compiled

variable {document : Document} {lexicon : Lexicon} {name : String}

/-- A rule does what the pieces of its body do, also where their texts were joined. -/
theorem Block.rule_expands {block : Block} {rule : Rule} (ruled : block.compile = .ok rule)
    {result : Except ExpansionFault String} {draws : List Draw}
    (expand : ∀ parts, Node.compileParts block.body.pieces = .ok parts →
      Part.AllExpand lexicon name parts result draws) :
    Part.AllExpand lexicon name rule result draws := by
  rcases block.pieces_of_compile ruled with same | ⟨values, literals, rfl⟩
  · exact expand rule same
  · -- joined or apart, literals come to one text and draw nothing
    have apart := expand _ (Node.compileParts_of_literals literals)
    obtain ⟨rfl, rfl⟩ := Part.allExpand_texts.mp apart
    exact Part.allExpand_singleton.mpr (.text _)

-- By induction on the derivation. A node is compiled in one way as a part, in another as an item,
-- and in yet another as a body; what all three have in common is the pieces.
mutual

theorem Node.Derives.expand (compiled : document.compile = .ok lexicon) {node : Node}
    {result : Except String String} {draws : List Draw} {parts : List Part}
    (derives : node.Derives document result draws)
    (pieces : Node.compileParts node.pieces = .ok parts) :
    Part.AllExpand lexicon name parts (result.mapError .unknownRule) draws := by
  match derives with
  | .literal value place =>
    obtain ⟨_, ⟨⟩, rfl⟩ := Node.compileParts_singleton.mp pieces
    exact Part.allExpand_singleton.mpr (.text value)
  | .reference last derive =>
    obtain ⟨_, ⟨⟩, rfl⟩ := Node.compileParts_singleton.mp pieces
    rcases document.rule?_cases compiled _ with ⟨missing, _⟩ | ⟨block, rule, last', ruled, found⟩
    · rw [last] at missing
      cases missing
    · obtain rfl := Option.some.inj (last.symm.trans last')
      refine Part.allExpand_singleton.mpr (.reference found (Block.rule_expands ruled ?_))
      exact fun parts pieces => derive.expand compiled pieces
  | .undefined missing =>
    obtain ⟨_, ⟨⟩, rfl⟩ := Node.compileParts_singleton.mp pieces
    rcases document.rule?_cases compiled _ with ⟨_, absent⟩ | ⟨block, rule, last, _, _⟩
    · exact Part.allExpand_singleton.mpr (.unknown absent)
    · rw [missing] at last
      cases last
  | .emptyList place =>
    obtain ⟨_, ⟨⟩, rfl⟩ := Node.compileParts_singleton.mp pieces
    exact Part.allExpand_singleton.mpr .emptyChoice
  | .list nodes place pick derive =>
    obtain ⟨part, listed, rfl⟩ := Node.compileParts_singleton.mp pieces
    obtain ⟨items, itemised, rfl⟩ := Node.compilePart_list.mp listed
    have length := Node.length_of_compileItems itemised
    have item := Node.compileItem_get itemised pick
    -- the choice has as many items as the list, so the draws are the same
    rw [draw_cast length pick]
    apply Part.allExpand_singleton.mpr
    cases picked : items.get (pick.cast length) with
    | text value =>
      rw [picked] at item
      obtain ⟨place, literal⟩ := Node.compileItem_cases item
      rw [literal] at derive
      cases derive
      exact .pickedText (pick.cast length) picked
    | sequence parts =>
      rw [picked] at item
      have spelt := Node.compileItem_cases item
      exact .pickedSequence (pick.cast length) picked (derive.expand compiled spelt)
  | .template derive => exact derive.expand compiled pieces

theorem Node.AllDerive.expand (compiled : document.compile = .ok lexicon) {nodes : List Node}
    {result : Except String String} {draws : List Draw} {parts : List Part}
    (derives : Node.AllDerive document nodes result draws)
    (pieces : Node.compileParts nodes = .ok parts) :
    Part.AllExpand lexicon name parts (result.mapError .unknownRule) draws := by
  match derives with
  | .nil =>
    cases pieces
    exact .nil
  | .cons first rest =>
    obtain ⟨part, others, spelt, spelt', rfl⟩ := Node.compileParts_cons.mp pieces
    have front := first.expand compiled (Node.compileParts_pieces spelt)
    rw [mapError_map_append]
    exact .cons (Part.allExpand_singleton.mp front) (rest.expand compiled spelt')
  | .stop first =>
    obtain ⟨part, others, spelt, spelt', rfl⟩ := Node.compileParts_cons.mp pieces
    have front := first.expand compiled (Node.compileParts_pieces spelt)
    exact .stop (Part.allExpand_singleton.mp front)

end

/-! ## From expansions to derivations -/

-- By induction on the expansion, with the node that a part came from read off `compilePart_cases`.
mutual

theorem Part.Expands.derive (compiled : document.compile = .ok lexicon) {part : Part} {node : Node}
    {outcome : Except ExpansionFault String} {draws : List Draw}
    (expands : part.Expands lexicon name outcome draws) (spelt : node.compilePart = .ok part) :
    ∃ result, outcome = result.mapError .unknownRule ∧ node.Derives document result draws := by
  have origin := Node.compilePart_cases spelt
  match expands with
  | .text value =>
    obtain ⟨place, rfl⟩ := origin
    exact ⟨.ok value, rfl, .literal value place⟩
  | .emptyChoice =>
    obtain ⟨nodes, place, rfl, itemised⟩ := origin
    obtain rfl := List.length_eq_zero_iff.mp (Node.length_of_compileItems itemised)
    exact ⟨.ok "", rfl, .emptyList place⟩
  | .pickedText pick picked =>
    obtain ⟨nodes, place, rfl, itemised⟩ := origin
    have length := Node.length_of_compileItems itemised
    have item : (nodes.get (pick.cast length.symm)).compileItem = .ok (List.get _ pick) :=
      Node.compileItem_get itemised (pick.cast length.symm)
    rw [picked] at item
    obtain ⟨place, literal⟩ := Node.compileItem_cases item
    rw [draw_cast length.symm pick]
    refine ⟨.ok _, rfl, .list nodes _ (pick.cast length.symm) ?_⟩
    rw [literal]
    exact .literal _ place
  | .pickedSequence pick picked expand =>
    obtain ⟨nodes, place, rfl, itemised⟩ := origin
    have length := Node.length_of_compileItems itemised
    have item : (nodes.get (pick.cast length.symm)).compileItem = .ok (List.get _ pick) :=
      Node.compileItem_get itemised (pick.cast length.symm)
    rw [picked] at item
    obtain ⟨result, rfl, derive⟩ := expand.derive compiled (Node.compileItem_cases item)
    rw [draw_cast length.symm pick]
    exact ⟨result, rfl, .list nodes place (pick.cast length.symm) (Node.allDerive_pieces.mp derive)⟩
  | .reference defined expand =>
    obtain ⟨place, rfl⟩ := origin
    rcases document.rule?_cases compiled _ with ⟨_, absent⟩ | ⟨block, rule, last, ruled, found⟩
    · rw [defined] at absent
      cases absent
    · rw [Option.some.inj (found.symm.trans defined)] at ruled
      rcases block.pieces_of_compile ruled with same | ⟨values, literals, joined⟩
      · obtain ⟨result, rfl, derive⟩ := expand.derive compiled same
        exact ⟨result, rfl, .reference last (Node.allDerive_pieces.mp derive)⟩
      · -- the joined text leaves no pieces, but then there is just one thing to derive
        rw [joined] at expand
        cases Part.allExpand_singleton.mp expand
        exact ⟨.ok _, rfl, .reference last (Node.allDerive_pieces.mp (.of_literals literals))⟩
  | .unknown undefined =>
    obtain ⟨place, rfl⟩ := origin
    rcases document.rule?_cases compiled _ with ⟨missing, _⟩ | ⟨block, rule, last, ruled, found⟩
    · exact ⟨.error _, rfl, .undefined missing⟩
    · rw [undefined] at found
      cases found
  -- the compiler never leaves a sequence where a part should be
  | .misplaced parts => exact origin.elim

theorem Part.AllExpand.derive (compiled : document.compile = .ok lexicon) {parts : List Part}
    {nodes : List Node} {outcome : Except ExpansionFault String} {draws : List Draw}
    (expand : Part.AllExpand lexicon name parts outcome draws)
    (spelt : Node.compileParts nodes = .ok parts) :
    ∃ result, outcome = result.mapError .unknownRule ∧
      Node.AllDerive document nodes result draws := by
  match expand with
  | .nil =>
    obtain rfl := Node.eq_nil_of_compileParts spelt
    exact ⟨.ok "", rfl, .nil⟩
  | .cons first rest =>
    obtain ⟨node, nodes, rfl, spelt, spelt'⟩ := Node.eq_cons_of_compileParts spelt
    obtain ⟨front, outcome, derives⟩ := first.derive compiled spelt
    obtain ⟨back, rfl, derive⟩ := rest.derive compiled spelt'
    cases front with
    | error name => cases outcome
    | ok value =>
      cases outcome
      exact ⟨back.map _, (mapError_map_append _ back).symm, .cons derives derive⟩
  | .stop first =>
    obtain ⟨node, nodes, rfl, spelt, spelt'⟩ := Node.eq_cons_of_compileParts spelt
    obtain ⟨front, outcome, derives⟩ := first.derive compiled spelt
    cases front with
    | error name => exact ⟨.error name, outcome, .stop derives⟩
    | ok value => cases outcome

end

end Compiled

mutual

theorem Node.Derives.draws_inside {document : Document} {node : Node}
    {result : Except String String} {draws : List Draw}
    (derives : node.Derives document result draws) : ∀ draw ∈ draws, draw.pick < draw.stop := by
  match derives with
  | .literal value place => simp
  | .reference last derive => exact derive.draws_inside
  | .undefined missing => simp
  | .emptyList place => simp
  | .list nodes place pick derive =>
    exact List.forall_mem_cons.mpr ⟨pick.isLt, derive.draws_inside⟩
  | .template derive => exact derive.draws_inside

theorem Node.AllDerive.draws_inside {document : Document} {nodes : List Node}
    {result : Except String String} {draws : List Draw}
    (derive : Node.AllDerive document nodes result draws) :
    ∀ draw ∈ draws, draw.pick < draw.stop := by
  match derive with
  | .nil => simp
  | .cons first rest =>
    exact List.forall_mem_append.mpr ⟨first.draws_inside, rest.draws_inside⟩
  | .stop first => exact first.draws_inside

end

section Meaning

variable {document : Document} {lexicon : Lexicon}

theorem Document.expandsTo_of_derives (compiled : document.compile = .ok lexicon) {name : String}
    {result : Except String String} {draws : List Draw}
    (derives : (Node.reference name none).Derives document result draws) {σ : Type} [Chooser σ]
    {source after : σ} (makes : Chooser.Makes source draws after) :
    lexicon.ExpandsTo name source (result.mapError .unknownRule) draws after := by
  have pieces : Node.compileParts (Node.reference name none).pieces = .ok [.reference name] := rfl
  have expand : Part.AllExpand lexicon name [.reference name] (result.mapError .unknownRule)
      draws := derives.expand compiled pieces
  exact (Part.allExpand_singleton.mp expand).expandsTo makes

theorem Document.derives_of_expandsTo (compiled : document.compile = .ok lexicon) {name : String}
    {outcome : Except ExpansionFault String} {draws : List Draw} {σ : Type} [Chooser σ]
    {source after : σ} (expandsTo : lexicon.ExpandsTo name source outcome draws after) :
    ∃ result, outcome = result.mapError .unknownRule ∧
      (Node.reference name none).Derives document result draws := by
  obtain ⟨expands, makes⟩ := Part.Expands.of_expandsTo expandsTo
  exact expands.derive compiled rfl

theorem mapError_unknownRule_inj {result result' : Except String String}
    (same : result.mapError ExpansionFault.unknownRule =
      result'.mapError ExpansionFault.unknownRule) : result = result' := by
  cases result <;> cases result' <;> cases same <;> rfl

/-- Compiling keeps the meaning: expanding a name in the lexicon of a document ends with a text, or
with an undefined name, just when the tree derives it from the name with the same draws. Whatever is
derived is expanded by some source of draws. -/
theorem Document.expandsTo_iff_derives (compiled : document.compile = .ok lexicon) (name : String)
    (result : Except String String) (draws : List Draw) :
    (∀ {σ : Type} [Chooser σ] (source after : σ),
      lexicon.ExpandsTo name source (result.mapError .unknownRule) draws after ↔
        (Node.reference name none).Derives document result draws ∧
          Chooser.Makes source draws after) ∧
    ((∃ source after : Script,
      lexicon.ExpandsTo name source (result.mapError .unknownRule) draws after) ↔
        (Node.reference name none).Derives document result draws) := by
  have derived {σ : Type} [Chooser σ] {source after : σ}
      (expandsTo : lexicon.ExpandsTo name source (result.mapError .unknownRule) draws after) :
      (Node.reference name none).Derives document result draws := by
    obtain ⟨result', same, derives⟩ := document.derives_of_expandsTo compiled expandsTo
    rwa [mapError_unknownRule_inj same]
  refine ⟨fun source after => ⟨fun expandsTo => ?_, ?_⟩, ⟨?_, fun derives => ?_⟩⟩
  · exact ⟨derived expandsTo, (Part.Expands.of_expandsTo expandsTo).2⟩
  · rintro ⟨derives, makes⟩
    exact document.expandsTo_of_derives compiled derives makes
  · rintro ⟨source, after, expandsTo⟩
    exact derived expandsTo
  · -- any draws that are derived can be scripted
    have makes := Script.makes_draws 0 derives.draws_inside
    exact ⟨_, _, document.expandsTo_of_derives compiled derives makes⟩

/-- A name whose first block is replaced by a list that leads back to the name itself. -/
def Document.recurring : Document where
  blocks := [
    ⟨"a", .template [.literal "old" none] none, none⟩,
    ⟨"a", .list [.literal "x" none,
      .template [.literal "y" none, .reference "a" none] none] none, none⟩]

theorem Document.recurring_expandsTo :
    ∃ lexicon, recurring.compile = .ok lexicon ∧ ∃ source after : Script,
      lexicon.ExpandsTo "a" source (.ok "yx") [⟨2, 1⟩, ⟨2, 0⟩] after := by
  obtain ⟨lexicon, compiled⟩ : ∃ lexicon, recurring.compile = .ok lexicon := ⟨_, rfl⟩
  refine ⟨lexicon, compiled,
    (expandsTo_iff_derives compiled "a" (.ok "yx") [⟨2, 1⟩, ⟨2, 0⟩]).2.mpr ?_⟩
  have once : (Node.reference "a" none).Derives recurring (.ok "x") [⟨2, 0⟩] :=
    .reference rfl (.list [_, _] none 0 (.literal "x" none))
  have again : Node.AllDerive recurring [.literal "y" none, .reference "a" none] (.ok "yx")
      [⟨2, 0⟩] :=
    .cons (.literal "y" none) (.cons once .nil)
  exact .reference rfl (.list [_, _] none 1 (.template again))

end Meaning
end TextGrammar
