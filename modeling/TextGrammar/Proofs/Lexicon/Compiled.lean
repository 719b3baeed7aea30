import TextGrammar.Lexicon.Compile

/-!
# What compiling leaves behind

Each function of the compiler, read backwards: from a compiled piece to the node that it came from.
The rule of a name is that of the last block of this name, and compiling a document looks at every
block on the way.
-/
namespace TextGrammar

theorem bind_eq_ok_iff {ε α β : Type} {first : Except ε α} {next : α → Except ε β} {result : β} :
    first >>= next = .ok result ↔ ∃ value, first = .ok value ∧ next value = .ok result := by
  cases first <;> simp [bind, Except.bind]

theorem lookup_putEntry (name other : String) (rule : Rule) (entries : List (String × Rule)) :
    (putEntry name rule entries).lookup other =
      if other = name then some rule else entries.lookup other := by
  induction entries with
  | nil =>
    by_cases same : other = name
    · simp [putEntry, same]
    · simp [putEntry, same, List.lookup_cons, beq_eq_false_iff_ne.mpr same]
  | cons entry entries ih =>
    obtain ⟨key, rule'⟩ := entry
    unfold putEntry
    -- an entry of this name is replaced, and any other one is stepped over
    by_cases here : key = name
    · by_cases same : other = name
      · simp [here, same]
      · simp [here, same, List.lookup_cons, beq_eq_false_iff_ne.mpr same]
    · by_cases found : other = key
      · have different : ¬other = name := fun equal => here (found ▸ equal)
        simp [here, found]
      · simp only [here, if_false, List.lookup_cons, beq_eq_false_iff_ne.mpr found]
        exact ih

theorem Lexicon.rule?_put (name other : String) (rule : Rule) (lexicon : Lexicon) :
    (lexicon.put name rule).rule? other =
      if other = name then some rule else lexicon.rule? other :=
  lookup_putEntry name other rule lexicon.entries

/-! ## Blocks -/

/-- The last block called `name`. -/
def Document.lastBlock? (document : Document) (name : String) : Option Block :=
  document.blocks.reverse.find? (·.name = name)

/-- The lexicon that there is when these blocks have been compiled over another one. -/
def compileOver (blocks : List Block) (first : Lexicon) : Except CompileFault Lexicon :=
  blocks.foldlM (fun lexicon block => do return lexicon.put block.name (← block.compile)) first

theorem compileOver_cons {block : Block} {blocks : List Block} {first lexicon : Lexicon} :
    compileOver (block :: blocks) first = .ok lexicon ↔
      ∃ rule, block.compile = .ok rule ∧
        compileOver blocks (first.put block.name rule) = .ok lexicon := by
  rw [compileOver, List.foldlM_cons]
  cases block.compile with
  | error fault => simp [bind, Except.bind]
  | ok rule => simp [bind, Except.bind, pure, Except.pure, compileOver]

theorem compileOver_append {front back : List Block} {first lexicon : Lexicon} :
    compileOver (front ++ back) first = .ok lexicon ↔
      ∃ middle, compileOver front first = .ok middle ∧ compileOver back middle = .ok lexicon := by
  rw [compileOver, List.foldlM_append, bind_eq_ok_iff]
  rfl

/-- The rule of a name is that of the last block that has it, or the one that it had before. -/
theorem rule?_of_compileOver {blocks : List Block} {first lexicon : Lexicon} (name : String)
    (compiled : compileOver blocks first = .ok lexicon) :
    match blocks.reverse.find? (·.name = name) with
    | none => lexicon.rule? name = first.rule? name
    | some block => ∃ rule, block.compile = .ok rule ∧ lexicon.rule? name = some rule := by
  induction blocks generalizing first with
  | nil =>
    cases compiled
    rfl
  | cons block blocks ih =>
    obtain ⟨rule, ruled, others⟩ := compileOver_cons.mp compiled
    have later := ih others
    -- this block counts only where none of the later ones has the name
    rw [List.reverse_cons, List.find?_append]
    cases found : blocks.reverse.find? (·.name = name) with
    | some block' => simpa [found] using later
    | none =>
      simp only [found, Lexicon.rule?_put] at later
      by_cases same : block.name = name
      · simp only [same, if_true] at later
        simpa [same] using ⟨rule, ruled, later⟩
      · have different : ¬name = block.name := fun equal => same equal.symm
        simpa [same, different] using later

/-- The rule of a name is that of its last block, and there is none where there is no block. -/
theorem Document.rule?_cases {document : Document} {lexicon : Lexicon}
    (compiled : document.compile = .ok lexicon) (name : String) :
    (document.lastBlock? name = none ∧ lexicon.rule? name = none) ∨
      ∃ block rule, document.lastBlock? name = some block ∧ block.compile = .ok rule ∧
        lexicon.rule? name = some rule := by
  have found := rule?_of_compileOver name compiled
  rw [← lastBlock?] at found
  cases last : document.lastBlock? name with
  | none =>
    rw [last] at found
    exact .inl ⟨rfl, found⟩
  | some block =>
    rw [last] at found
    obtain ⟨rule, ruled, found⟩ := found
    exact .inr ⟨block, rule, rfl, ruled, found⟩

theorem exists_compileOver {blocks : List Block}
    (each : ∀ block ∈ blocks, ∃ rule, block.compile = .ok rule) (first : Lexicon) :
    ∃ lexicon, compileOver blocks first = .ok lexicon := by
  induction blocks generalizing first with
  | nil => exact ⟨first, rfl⟩
  | cons block blocks ih =>
    obtain ⟨⟨rule, ruled⟩, others⟩ := List.forall_mem_cons.mp each
    obtain ⟨lexicon, rest⟩ := ih others (first.put block.name rule)
    exact ⟨lexicon, compileOver_cons.mpr ⟨rule, ruled, rest⟩⟩

/-- A document is compiled when each of its blocks is. -/
theorem Document.compile_of_each {document : Document}
    (each : ∀ block ∈ document.blocks, ∃ rule, block.compile = .ok rule) :
    ∃ lexicon, document.compile = .ok lexicon :=
  exists_compileOver each Lexicon.empty

/-- A rule is that of some block. -/
theorem Document.exists_block {document : Document} {lexicon : Lexicon} {name : String}
    {rule : Rule} (compiled : document.compile = .ok lexicon)
    (defined : lexicon.rule? name = some rule) :
    ∃ block ∈ document.blocks, block.name = name ∧ block.compile = .ok rule := by
  rcases rule?_cases compiled name with ⟨_, undefined⟩ | ⟨block, rule', last, ruled, defined'⟩
  · rw [undefined] at defined
    cases defined
  · obtain rfl : rule' = rule := Option.some.inj (defined'.symm.trans defined)
    have member := List.mem_of_find?_eq_some last
    have named := List.find?_some last
    exact ⟨block, List.mem_reverse.mp member, by simpa using named, ruled⟩

/-- Every block has a rule of its name, if only that of a later block. -/
theorem Document.exists_rule {document : Document} {lexicon : Lexicon} {block : Block}
    (compiled : document.compile = .ok lexicon) (member : block ∈ document.blocks) :
    ∃ rule, lexicon.rule? block.name = some rule := by
  rcases rule?_cases compiled block.name with ⟨missing, _⟩ | ⟨_, rule, _, _, defined⟩
  · have other := List.find?_eq_none.mp missing block (List.mem_reverse.mpr member)
    simp at other
  · exact ⟨rule, defined⟩

namespace Node

/-! ## Nodes -/

theorem compilePart_list {nodes : List Node} {place : Option Span} {part : Part} :
    (Node.list nodes place).compilePart = .ok part ↔
      ∃ items, compileItems nodes = .ok items ∧ part = .choice items := by
  rw [compilePart, bind_eq_ok_iff]
  simp [pure, Except.pure, eq_comm]

/-- The node that a part came from. -/
theorem compilePart_cases {node : Node} {part : Part} (compiled : node.compilePart = .ok part) :
    match part with
    | .text value => ∃ place, node = .literal value place
    | .reference name => ∃ place, node = .reference name place
    | .choice items => ∃ nodes place, node = .list nodes place ∧ compileItems nodes = .ok items
    | .sequence _ => False := by
  cases node with
  | literal value place =>
    cases compiled
    exact ⟨place, rfl⟩
  | reference name place =>
    cases compiled
    exact ⟨place, rfl⟩
  | list nodes place =>
    obtain ⟨items, itemised, rfl⟩ := compilePart_list.mp compiled
    exact ⟨nodes, place, rfl, itemised⟩
  | _ => cases compiled

theorem compileItem_template {nodes : List Node} {place : Option Span} {item : Alternative} :
    (Node.template nodes place).compileItem = .ok item ↔
      ∃ parts, compileParts nodes = .ok parts ∧ item = .sequence parts := by
  rw [compileItem, bind_eq_ok_iff]
  simp [pure, Except.pure, eq_comm]

theorem compileParts_cons {node : Node} {nodes : List Node} {parts : List Part} :
    compileParts (node :: nodes) = .ok parts ↔
      ∃ part others, node.compilePart = .ok part ∧ compileParts nodes = .ok others ∧
        parts = part :: others := by
  rw [compileParts, bind_eq_ok_iff]
  simp only [bind_eq_ok_iff, pure, Except.pure, Except.ok.injEq]
  constructor
  · rintro ⟨part, first, others, rest, rfl⟩
    exact ⟨part, others, first, rest, rfl⟩
  · rintro ⟨part, others, first, rest, rfl⟩
    exact ⟨part, first, others, rest, rfl⟩

theorem compileParts_singleton {node : Node} {parts : List Part} :
    compileParts [node] = .ok parts ↔ ∃ part, node.compilePart = .ok part ∧ parts = [part] := by
  rw [compileParts_cons]
  simp [compileParts]

theorem eq_nil_of_compileParts {nodes : List Node} (compiled : compileParts nodes = .ok []) :
    nodes = [] := by
  cases nodes with
  | nil => rfl
  | cons node nodes =>
    obtain ⟨part, others, _, _, impossible⟩ := compileParts_cons.mp compiled
    cases impossible

theorem eq_cons_of_compileParts {nodes : List Node} {part : Part} {parts : List Part}
    (compiled : compileParts nodes = .ok (part :: parts)) :
    ∃ node others, nodes = node :: others ∧ node.compilePart = .ok part ∧
      compileParts others = .ok parts := by
  cases nodes with
  | nil => cases compiled
  | cons node nodes =>
    obtain ⟨part, others, first, rest, same⟩ := compileParts_cons.mp compiled
    cases same
    exact ⟨node, nodes, rfl, first, rest⟩

theorem compileItems_cons {node : Node} {nodes : List Node} {items : List Alternative} :
    compileItems (node :: nodes) = .ok items ↔
      ∃ item others, node.compileItem = .ok item ∧ compileItems nodes = .ok others ∧
        items = item :: others := by
  rw [compileItems, bind_eq_ok_iff]
  simp only [bind_eq_ok_iff, pure, Except.pure, Except.ok.injEq]
  constructor
  · rintro ⟨item, first, others, rest, rfl⟩
    exact ⟨item, others, first, rest, rfl⟩
  · rintro ⟨item, others, first, rest, rfl⟩
    exact ⟨item, first, others, rest, rfl⟩

theorem length_of_compileItems {nodes : List Node} {items : List Alternative}
    (compiled : compileItems nodes = .ok items) : nodes.length = items.length := by
  induction nodes generalizing items with
  | nil =>
    cases compiled
    rfl
  | cons node nodes ih =>
    obtain ⟨item, others, first, rest, rfl⟩ := compileItems_cons.mp compiled
    simp [ih rest]

theorem compileItem_get {nodes : List Node} {items : List Alternative}
    (compiled : compileItems nodes = .ok items) (pick : Fin nodes.length) :
    (nodes.get pick).compileItem =
      .ok (items.get (pick.cast (length_of_compileItems compiled))) := by
  induction nodes generalizing items with
  | nil => exact pick.elim0
  | cons node nodes ih =>
    obtain ⟨item, others, first, rest, rfl⟩ := compileItems_cons.mp compiled
    cases pick using Fin.cases with
    | zero => exact first
    | succ pick => exact ih rest pick

/-- When each of the nodes is compiled, they are compiled together, and what holds of each part
holds of them all. -/
theorem compileParts_of_each {holds : Part → Prop} {nodes : List Node}
    (each : ∀ node ∈ nodes, ∃ part, node.compilePart = .ok part ∧ holds part) :
    ∃ parts, compileParts nodes = .ok parts ∧ ∀ part ∈ parts, holds part := by
  induction nodes with
  | nil => exact ⟨[], rfl, nofun⟩
  | cons node nodes ih =>
    obtain ⟨⟨part, first, here⟩, others⟩ := List.forall_mem_cons.mp each
    obtain ⟨parts, rest, there⟩ := ih others
    exact ⟨part :: parts, compileParts_cons.mpr ⟨part, parts, first, rest, rfl⟩,
      List.forall_mem_cons.mpr ⟨here, there⟩⟩

theorem compileItems_of_each {holds : Alternative → Prop} {nodes : List Node}
    (each : ∀ node ∈ nodes, ∃ item, node.compileItem = .ok item ∧ holds item) :
    ∃ items, compileItems nodes = .ok items ∧ ∀ item ∈ items, holds item := by
  induction nodes with
  | nil => exact ⟨[], rfl, nofun⟩
  | cons node nodes ih =>
    obtain ⟨⟨item, first, here⟩, others⟩ := List.forall_mem_cons.mp each
    obtain ⟨items, rest, there⟩ := ih others
    exact ⟨item :: items, compileItems_cons.mpr ⟨item, items, first, rest, rfl⟩,
      List.forall_mem_cons.mpr ⟨here, there⟩⟩

/-- What is compiled for a node, part by part: a template brings its parts along, any other node is
a part by itself. -/
def pieces : Node → List Node
  | template parts _ => parts
  | node => [node]

theorem pieces_of_compilePart {node : Node} {part : Part} (compiled : node.compilePart = .ok part) :
    node.pieces = [node] := by
  cases node with
  | template => cases compiled
  | _ => rfl

theorem compileParts_pieces {node : Node} {part : Part} (compiled : node.compilePart = .ok part) :
    compileParts node.pieces = .ok [part] := by
  rw [pieces_of_compilePart compiled]
  exact compileParts_singleton.mpr ⟨part, compiled, rfl⟩

/-- An item is the text of a literal, or the parts that the node brings along. -/
theorem compileItem_cases {node : Node} {item : Alternative}
    (compiled : node.compileItem = .ok item) :
    match item with
    | .text value => ∃ place, node = .literal value place
    | .sequence parts => compileParts node.pieces = .ok parts := by
  cases node with
  | literal value place =>
    cases compiled
    exact ⟨place, rfl⟩
  | template nodes place =>
    obtain ⟨parts, spelt, rfl⟩ := compileItem_template.mp compiled
    exact spelt
  | _ => cases compiled

theorem cons_of_literals {node : Node} {nodes : List Node} {values : List String}
    (literals : (node :: nodes).mapM literal? = some values) :
    ∃ value place others, node = .literal value place ∧ nodes.mapM literal? = some others ∧
      values = value :: others := by
  simp only [List.mapM_cons, bind, Option.bind_eq_some_iff, pure, Option.some.injEq] at literals
  obtain ⟨value, first, others, rest, rfl⟩ := literals
  cases node with
  | literal value' place =>
    cases first
    exact ⟨value, place, others, rfl, rest, rfl⟩
  | _ => cases first

theorem compileParts_of_literals {nodes : List Node} {values : List String}
    (literals : nodes.mapM literal? = some values) :
    compileParts nodes = .ok (values.map .text) := by
  induction nodes generalizing values with
  | nil =>
    cases literals
    rfl
  | cons node nodes ih =>
    obtain ⟨value, place, others, rfl, rest, rfl⟩ := cons_of_literals literals
    exact compileParts_cons.mpr ⟨_, _, rfl, ih rest, rfl⟩

end Node

/-- A rule is made of what its body brings along, or is the joined text of a template that holds
literals only. -/
theorem Block.pieces_of_compile {block : Block} {rule : Rule}
    (compiled : block.compile = .ok rule) :
    Node.compileParts block.body.pieces = .ok rule ∨
      ∃ values, block.body.pieces.mapM Node.literal? = some values ∧
        rule = [.text (String.join values)] := by
  unfold Block.compile at compiled
  split at compiled
  next items place body =>
    obtain ⟨items', listed, made⟩ := bind_eq_ok_iff.mp compiled
    cases made
    rw [body]
    have part : (Node.list items place).compilePart = .ok (.choice items') :=
      Node.compilePart_list.mpr ⟨items', listed, rfl⟩
    exact .inl (Node.compileParts_singleton.mpr ⟨_, part, rfl⟩)
  next nodes place body =>
    rw [body]
    unfold Node.compileTemplate at compiled
    -- only here the texts are joined
    split at compiled
    next values literals =>
      cases compiled
      exact .inr ⟨values, literals, rfl⟩
    next => exact .inl compiled
  next => cases compiled

end TextGrammar
