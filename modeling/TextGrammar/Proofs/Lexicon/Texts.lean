import TextGrammar.Proofs.Lexicon.Derivation
import TextGrammar.Proofs.Lexicon.Properness
import TextGrammar.Proofs.Tree.Printing

/-!
# The texts that can be written

What stands in a template ends at a quote, a hash mark or a bracket, and a bare item at a comma, a
bracket or a quote. A hash mark may be an item, and a comma or a closing bracket may stand in a
template, so between the two of them only the quote and the opening bracket can never be written.
Everything else can: a template holds the text itself, with a list of one item for each hash mark.
-/
namespace TextGrammar

def isWritable (char : Char) : Bool := !(char = '"' || char = '[')

theorem isWritable_of_isTemplateText {char : Char} (plain : isTemplateText char = true) :
    isWritable char = true := by
  simp only [isTemplateText, isWritable] at plain ⊢
  simp_all

theorem isWritable_of_isItemText {char : Char} (plain : isItemText char = true) :
    isWritable char = true := by
  simp only [isItemText, isWritable] at plain ⊢
  simp_all

/-- A hash mark is the only character that can be written but not in a template. -/
theorem isTemplateText_of_isWritable {char : Char} (writable : isWritable char = true)
    (other : char ≠ '#') : isTemplateText char = true := by
  simp only [isTemplateText, isWritable] at writable ⊢
  simp_all

theorem every_isWritable_iff {text : List Char} :
    Every isWritable text ↔ '"' ∉ text ∧ '[' ∉ text := by
  constructor
  · intro every
    refine ⟨fun member => ?_, fun member => ?_⟩
    · cases every _ member
    · cases every _ member
  · rintro ⟨quote, bracket⟩ char member
    simp only [isWritable, Bool.not_eq_true', Bool.or_eq_false_iff, decide_eq_false_iff_not]
    constructor
    · rintro rfl
      exact quote member
    · rintro rfl
      exact bracket member

/-! ## Nothing else is written -/

namespace Node

variable {value : String} {nodes : List Node} {place : Option Span}

/-- A node inside a tree that can be read, or the body of one of its blocks. -/
def IsInner (node : Node) : Prop := node.IsPart ∨ node.IsItem

theorem IsBody.isInner {node : Node} (body : node.IsBody) : node.IsInner := by
  rcases body with template | list
  · exact .inr (.template template)
  · exact .inl (.list list)

theorem IsInner.writable (inner : (literal value place).IsInner) :
    Every isWritable value.toList := by
  rcases inner with part | item
  · cases part with
    | literal nonempty plain => exact plain.imp fun _ => isWritable_of_isTemplateText
    | list list => cases list
  · cases item with
    | literal stripped plain => exact plain.imp fun _ => isWritable_of_isItemText
    | template template => cases template

theorem IsInner.items (inner : (list nodes place).IsInner) : ∀ item ∈ nodes, item.IsInner := by
  rcases inner with part | item
  · cases part with
    | list list =>
      cases list with
      | intro each => exact fun item member => .inr (each item member)
  · cases item with
    | template template => cases template

theorem IsInner.parts (inner : (template nodes place).IsInner) : ∀ part ∈ nodes, part.IsInner := by
  rcases inner with part | item
  · cases part with
    | list list => cases list
  · cases item with
    | template template =>
      cases template with
      | intro each apart => exact fun part member => .inl (each part member)

end Node

theorem Document.IsReadable.isInner_of_last {document : Document} {name : String} {block : Block}
    (readable : document.IsReadable) (last : document.lastBlock? name = some block) :
    block.body.IsInner := by
  have member := List.mem_of_find?_eq_some last
  exact (readable block (List.mem_reverse.mp member)).body.isInner

section Derived

variable {document : Document}

-- By induction on the derivation, with every node inside a tree that can be read.
mutual

theorem Node.Derives.writable (readable : document.IsReadable) {node : Node}
    {result : Except String String} {draws : List Draw}
    (derives : node.Derives document result draws) (inner : node.IsInner) :
    ∀ text, result = .ok text → Every isWritable text.toList := by
  match derives with
  | .literal value place =>
    rintro text ⟨⟩
    exact inner.writable
  | .reference last derive => exact derive.writable readable (readable.isInner_of_last last)
  | .undefined missing => exact nofun
  | .emptyList place =>
    rintro text ⟨⟩
    exact List.forall_mem_nil _
  | .list items place pick derive =>
    exact derive.writable readable (inner.items _ (List.get_mem items pick))
  | .template derive => exact derive.writable readable inner.parts

theorem Node.AllDerive.writable (readable : document.IsReadable) {nodes : List Node}
    {result : Except String String} {draws : List Draw}
    (derive : Node.AllDerive document nodes result draws) (each : ∀ node ∈ nodes, node.IsInner) :
    ∀ text, result = .ok text → Every isWritable text.toList := by
  match derive with
  | .nil =>
    rintro text ⟨⟩
    exact List.forall_mem_nil _
  | @Node.AllDerive.cons _ _ _ front back _ _ first rest =>
    obtain ⟨here, others⟩ := List.forall_mem_cons.mp each
    have early := first.writable readable here front rfl
    have late := rest.writable readable others
    intro text whole
    cases back with
    | error name => cases whole
    | ok behind =>
      cases whole
      rw [String.toList_append]
      exact List.forall_mem_append.mpr ⟨early, late behind rfl⟩
  | .stop first => exact nofun

end

section Expanded

variable {σ : Type} [Chooser σ] {lexicon : Lexicon} {name text : String} {limit : Option Int}
  {patience : Nat} {source : σ}

/-- With or without a limit, a text comes of a run of some number of steps. -/
theorem Lexicon.proceed_of_text {rule : Rule} (defined : lexicon.rule? name = some rule)
    (written : (lexicon.expand name limit patience source).ending = .text text) :
    ∃ steps, (Run.proceed lexicon name steps ⟨"", rule, [], [], source⟩).ending = .text text := by
  simp only [expand, defined] at written
  cases limit with
  | none => exact ⟨patience, written⟩
  | some bound =>
    refine ⟨bound.toNat, ?_⟩
    dsimp only at written
    split at written
    next unfinished => cases written
    next => exact written

theorem Lexicon.expands_of_text
    (written : (lexicon.expand name limit patience source).ending = .text text) :
    ∃ draws, (Part.reference name).Expands lexicon name (.ok text) draws := by
  cases defined : lexicon.rule? name with
  | none =>
    simp only [expand, defined] at written
    cases written
  | some rule =>
    obtain ⟨steps, ends⟩ := proceed_of_text defined written
    have ended : (Run.proceed lexicon name steps ⟨"", rule, [], [], source⟩).ending ≠
        .unfinished := by
      rw [ends]
      exact Ending.noConfusion
    obtain ⟨result, draws, accounts⟩ := Run.accounts_of_proceed steps _ ended
    -- the run has begun with no text, so its text is what the rule comes to
    have same : Ending.ofResult (.ok text) = .ofResult result := by
      rw [← map_append_nothing result, ← accounts.ending, ends, Ending.ofResult]
    rw [Ending.ofResult_inj] at same
    have expand := accounts.expand
    rw [← same] at expand
    exact ⟨draws, .reference defined (by simpa [Run.todo] using expand)⟩

theorem Document.IsReadable.writable (readable : document.IsReadable)
    (compiled : document.compile = .ok lexicon)
    (written : (lexicon.expand name limit patience source).ending = .text text) :
    Every isWritable text.toList := by
  obtain ⟨draws, expands⟩ := Lexicon.expands_of_text written
  have spelt : (Node.reference name none).compilePart = .ok (.reference name) := rfl
  obtain ⟨result, same, derives⟩ := expands.derive compiled spelt
  cases result with
  | error name => cases same
  | ok value =>
    cases same
    cases derives with
    | reference last derive =>
      exact derive.writable readable (readable.isInner_of_last last) text rfl

end Expanded

end Derived

/-! ## Places do not matter -/

section Alike

variable {document document' : Document}

theorem Document.lastBlock?_bare (document : Document) (name : String) :
    (document.lastBlock? name).map Block.bare =
      (document.blocks.map Block.bare).reverse.find? (·.name = name) := by
  rw [← List.map_reverse, List.find?_map]
  rfl

theorem Document.map_lastBlock?_alike (alike : document'.alike document = true) (name : String) :
    (document'.lastBlock? name).map Block.bare = (document.lastBlock? name).map Block.bare := by
  rw [lastBlock?_bare, lastBlock?_bare, (alike_iff_bare document' document).mp alike]

theorem Document.lastBlock?_alike (alike : document'.alike document = true) {name : String}
    {block : Block} (last : document.lastBlock? name = some block) :
    ∃ block', document'.lastBlock? name = some block' ∧ block'.body.bare = block.body.bare := by
  have same := map_lastBlock?_alike alike name
  rw [last, Option.map_some, Option.map_eq_some_iff] at same
  obtain ⟨block', last', shape⟩ := same
  exact ⟨block', last', congrArg Block.body shape⟩

theorem Document.lastBlock?_none_alike (alike : document'.alike document = true) {name : String}
    (missing : document.lastBlock? name = none) : document'.lastBlock? name = none := by
  have same := map_lastBlock?_alike alike name
  rwa [missing, Option.map_none, Option.map_eq_none_iff] at same

theorem Node.length_of_bare {nodes nodes' : List Node} (same : allBare nodes' = allBare nodes) :
    nodes.length = nodes'.length := by
  simpa [allBare_eq_map] using (congrArg List.length same).symm

theorem Node.get_bare {nodes nodes' : List Node} (same : allBare nodes' = allBare nodes)
    (pick : Fin nodes.length) :
    (nodes'.get (pick.cast (length_of_bare same))).bare = (nodes.get pick).bare := by
  have inside : pick.val < nodes'.length := length_of_bare same ▸ pick.isLt
  have both := congrArg (·[pick.val]?) same
  simpa [allBare_eq_map, inside] using both

-- By induction on the derivation. The other tree takes the same way through nodes of its own.
mutual

theorem Node.Derives.alike (alike : document'.alike document = true) {node node' : Node}
    {result : Except String String} {draws : List Draw}
    (derives : node.Derives document result draws) (same : node'.bare = node.bare) :
    node'.Derives document' result draws := by
  match derives with
  | .literal value place =>
    obtain ⟨place', rfl⟩ := bare_eq_literal.mp same
    exact .literal value place'
  | .reference last derive =>
    obtain ⟨place', rfl⟩ := bare_eq_reference.mp same
    obtain ⟨block', last', shape⟩ := Document.lastBlock?_alike alike last
    exact .reference last' (derive.alike alike shape)
  | .undefined missing =>
    obtain ⟨place', rfl⟩ := bare_eq_reference.mp same
    exact .undefined (Document.lastBlock?_none_alike alike missing)
  | .emptyList place =>
    obtain ⟨items', place', rfl, shapes⟩ := bare_eq_list.mp same
    rw [allBare_eq_map, allBare, List.map_eq_nil_iff] at shapes
    subst shapes
    exact .emptyList place'
  | .list items place pick derive =>
    obtain ⟨items', place', rfl, shapes⟩ := bare_eq_list.mp same
    rw [draw_cast (length_of_bare shapes) pick]
    exact .list items' place' _ (derive.alike alike (get_bare shapes pick))
  | .template derive =>
    obtain ⟨parts', place', rfl, shapes⟩ := bare_eq_template.mp same
    exact .template (derive.alike alike shapes)

theorem Node.AllDerive.alike (alike : document'.alike document = true) {nodes nodes' : List Node}
    {result : Except String String} {draws : List Draw}
    (derive : Node.AllDerive document nodes result draws) (same : allBare nodes' = allBare nodes) :
    Node.AllDerive document' nodes' result draws := by
  match derive with
  | .nil =>
    rw [allBare_eq_map, allBare, List.map_eq_nil_iff] at same
    subst same
    exact .nil
  | .cons first rest =>
    rw [allBare_eq_map, allBare, List.map_eq_cons_iff] at same
    obtain ⟨node', others', rfl, shape, shapes⟩ := same
    rw [← allBare_eq_map] at shapes
    exact .cons (first.alike alike shape) (rest.alike alike shapes)
  | .stop first =>
    rw [allBare_eq_map, allBare, List.map_eq_cons_iff] at same
    obtain ⟨node', others', rfl, shape, _⟩ := same
    exact .stop (first.alike alike shape)

end

end Alike

/-! ## Everything else is written -/

namespace Node

/-- Puts a character in front of the parts of a template. -/
def glue (char : Char) : List Node → List Node
  | literal value place :: parts => literal (String.singleton char ++ value) place :: parts
  | parts => literal (String.singleton char) none :: parts

/-- The parts of a template that says the text. -/
def saying : List Char → List Node
  | [] => []
  | char :: text =>
    if char = '#' then list [literal "#" none] none :: saying text else glue char (saying text)

theorem glue_isPart {char : Char} {parts : List Node} (plain : isTemplateText char = true)
    (each : ∀ part ∈ parts, part.IsPart) : ∀ part ∈ glue char parts, part.IsPart := by
  unfold glue
  split
  next value place parts =>
    obtain ⟨first, others⟩ := List.forall_mem_cons.mp each
    cases first with
    | literal nonempty rest =>
      refine List.forall_mem_cons.mpr ⟨.literal (by simp) ?_, others⟩
      simpa using rest.cons plain
    | list list => cases list
  next =>
    refine List.forall_mem_cons.mpr ⟨.literal (by simp) ?_, each⟩
    simpa [Every] using plain

/-- What stands behind a text is no text, also after the text has become longer. -/
theorem glue_isChain {parts : List Node} (char : Char) (apart : parts.IsChain MayPrecede) :
    (glue char parts).IsChain MayPrecede := by
  unfold glue
  split
  next value place parts =>
    cases parts with
    | nil => exact .singleton _
    | cons part parts =>
      obtain ⟨next, rest⟩ := List.isChain_cons_cons.mp apart
      -- a text keeps its neighbour: what matters is only that it is a text
      refine .cons_cons ?_ rest
      cases part <;> exact next
  next other =>
    cases parts with
    | nil => exact .singleton _
    | cons part parts =>
      refine .cons_cons ?_ apart
      cases part with
      | literal value place => exact absurd rfl (other value place parts)
      | reference | list | template | block | document => trivial

theorem glue_derive {document : Document} {char : Char} {parts : List Node} {text : String}
    {draws : List Draw} (derive : AllDerive document parts (.ok text) draws) :
    AllDerive document (glue char parts) (.ok (String.singleton char ++ text)) draws := by
  unfold glue
  split
  next value place parts =>
    generalize whole : Except.ok text = result at derive
    cases derive with
    | @cons _ _ front back _ _ first rest =>
      -- the literal in front says one character more
      cases first
      cases back with
      | error name => cases whole
      | ok behind =>
        cases whole
        rw [← String.append_assoc]
        exact .cons (.literal _ place) rest
    | stop first => cases whole
  next => exact .cons (.literal _ none) derive

theorem saying_isPart {text : List Char} (writable : Every isWritable text) :
    ∀ part ∈ saying text, part.IsPart := by
  induction text with
  | nil => exact List.forall_mem_nil _
  | cons char text ih =>
    obtain ⟨first, rest⟩ := List.forall_mem_cons.mp writable
    unfold saying
    by_cases hash : char = '#'
    · -- a hash mark stands in a list of its own, where it has no meaning
      have item : (literal "#" none).IsItem := .literal rfl (by simp [Every, isItemText])
      have list : (list [literal "#" none] none).IsList :=
        .intro (List.forall_mem_singleton.mpr item)
      rw [if_pos hash]
      exact List.forall_mem_cons.mpr ⟨.list list, ih rest⟩
    · rw [if_neg hash]
      exact glue_isPart (isTemplateText_of_isWritable first hash) (ih rest)

theorem saying_isChain (text : List Char) : (saying text).IsChain MayPrecede := by
  induction text with
  | nil => exact .nil
  | cons char text ih =>
    unfold saying
    split
    · exact List.isChain_cons.mpr ⟨fun next member => by cases next <;> trivial, ih⟩
    · exact glue_isChain char ih

/-- There is a draw for each hash mark, and only one item to draw. -/
theorem saying_derive (document : Document) (text : List Char) :
    AllDerive document (saying text) (.ok (String.ofList text))
      (List.replicate (text.count '#') ⟨1, 0⟩) := by
  induction text with
  | nil => exact .nil
  | cons char text ih =>
    have whole : String.ofList (char :: text) = String.singleton char ++ String.ofList text := by
      simp
    unfold saying
    rw [whole]
    by_cases hash : char = '#'
    · subst hash
      -- the list has one item, so it is known what is drawn
      have first : (list [literal "#" none] none).Derives document (.ok "#") [⟨1, 0⟩] :=
        .list [_] none 0 (.literal "#" none)
      rw [if_pos rfl, List.count_cons_self, List.replicate_succ]
      exact .cons first ih
    · rw [if_neg hash, List.count_cons_of_ne hash]
      exact glue_derive ih

end Node

/-- A rule that says the text. -/
def Document.saying (text : String) : Document where
  blocks := [⟨"main", .template (Node.saying text.toList) none, none⟩]

theorem Document.saying_isReadable {text : String} (writable : Every isWritable text.toList) :
    (saying text).IsReadable := by
  intro block member
  obtain rfl := List.mem_singleton.mp member
  have named : IsName "main".toList := by
    refine ⟨'m', ['a', 'i', 'n'], rfl, rfl, ?_⟩
    simp only [Every, List.forall_mem_cons]
    exact ⟨rfl, rfl, rfl, List.forall_mem_nil _⟩
  refine ⟨named, .inl ?_⟩
  exact .intro (Node.saying_isPart writable) (Node.saying_isChain _)

/-- Where there is only one item to draw, every source makes the draws. -/
theorem Chooser.exists_makes_only {σ : Type} [Chooser σ] (source : σ) (count : Nat) :
    ∃ after, Chooser.Makes source (List.replicate count ⟨1, 0⟩) after := by
  induction count generalizing source with
  | zero => exact ⟨source, .nil source⟩
  | succ count ih =>
    obtain ⟨after, makes⟩ := ih (Chooser.choose 0 source).2
    have only : (Chooser.choose 0 source).1.val = 0 := by omega
    exact ⟨after, Chooser.makes_cons_iff.mpr ⟨only, makes⟩⟩

/-- The texts that sources can write are those without a quote and without an opening bracket. What
comes of any source that is parsed contains neither, whatever is drawn and whether or not there is a
limit; and for a text that contains neither there is a source, with a rule that comes to this text
whatever is drawn. -/
theorem parse_writes (file : String) :
    (∀ source document, parse file source = .ok document →
      ∃ lexicon, document.compile = .ok lexicon ∧
        ∀ (σ : Type) [Chooser σ] (name : String) (limit : Option Int) (patience : Nat) (draws : σ)
          (text : String), (lexicon.expand name limit patience draws).ending = .text text →
            '"' ∉ text.toList ∧ '[' ∉ text.toList) ∧
    ∀ text : String, '"' ∉ text.toList → '[' ∉ text.toList →
      ∃ source document lexicon, parse file source = .ok document ∧
        document.compile = .ok lexicon ∧
        ∀ (σ : Type) [Chooser σ] (draws : σ), ∃ made after,
          lexicon.ExpandsTo "main" draws (.ok text) made after := by
  constructor
  · intro source document parsed
    have readable := readable_of_parse parsed
    obtain ⟨lexicon, compiled, _⟩ := readable.compiles
    refine ⟨lexicon, compiled, fun σ _ name limit patience draws text written => ?_⟩
    exact every_isWritable_iff.mp (readable.writable compiled written)
  · intro text quote bracket
    have writable := every_isWritable_iff.mpr ⟨quote, bracket⟩
    obtain ⟨document, parsed, alike⟩ := parse_print file (Document.saying_isReadable writable)
    obtain ⟨lexicon, compiled, _⟩ := (readable_of_parse parsed).compiles
    refine ⟨_, document, lexicon, parsed, compiled, fun σ _ draws => ?_⟩
    have said := Node.saying_derive (Document.saying text) text.toList
    rw [String.ofList_toList] at said
    have body : (Node.reference "main" none).Derives (Document.saying text) (.ok text) _ :=
      .reference rfl (.template said)
    obtain ⟨after, makes⟩ := Chooser.exists_makes_only draws (text.toList.count '#')
    -- the tree that is read has places, and the one that was printed has none
    exact ⟨_, after, document.expandsTo_of_derives compiled (body.alike alike rfl) makes⟩

/-- A text with characters that mean something elsewhere, which a source comes to. -/
theorem parse_writes_marks :
    ∃ source document lexicon, parse "" source = .ok document ∧ document.compile = .ok lexicon ∧
      ∃ patience, (lexicon.expand "main" none patience (⟨[], 0⟩ : Script)).ending = .text "*#,]\n" ∧
        '"' ∉ "*#,]\n".toList ∧ '[' ∉ "*#,]\n".toList := by
  obtain ⟨source, document, lexicon, parsed, compiled, expands⟩ :=
    (parse_writes "").2 "*#,]\n" (by decide) (by decide)
  obtain ⟨made, after, enough, ends⟩ := expands Script ⟨[], 0⟩
  have ending := congrArg Outcome.ending (ends enough (Nat.le_refl enough))
  obtain ⟨lexicon', compiled', only⟩ := (parse_writes "").1 source document parsed
  obtain rfl := Except.ok.inj (compiled'.symm.trans compiled)
  have free := only Script "main" none enough _ _ ending
  exact ⟨source, document, lexicon', parsed, compiled, enough, ending, free⟩

example : (Document.saying "a#, ]").print = "\n*main\n\"a[#,], ]\"" := rfl

end TextGrammar
