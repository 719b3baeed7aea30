import TextGrammar.Proofs.Tree.Joining
import TextGrammar.Proofs.Tree.Readable

/-!
# Printing trees

Every tree that can be read is printed as a source that is read as this tree again. A printed node
is read in the same way wherever it stands: what matters of the text in front of it is in the modes
of the scanner, and what matters of the text behind it is whether it ends the last run of the node.
So reading what is printed follows the tree, from a scanner that stands in front of the text of a
node to one that stands behind it.
-/
namespace TextGrammar

/-! ## Printed trees -/

/-- An item without text is printed as a blank character that is stripped from an item, but that is
not skipped in front of it. -/
def orBlank : List Char → List Char
  | [] => ['\x0b']
  | text => text

namespace Node

mutual

def print : Node → List Char
  | literal value _ => value.toList
  | reference name _ => '#' :: name.toList
  | list items _ => '[' :: (printItems items ++ [']'])
  | template parts _ => '"' :: (printParts parts ++ ['"'])
  | block .. | document .. => []

def printParts : List Node → List Char
  | [] => []
  | part :: parts => part.print ++ printParts parts

/-- There is a comma behind each item. -/
def printItems : List Node → List Char
  | [] => []
  | item :: items => orBlank item.print ++ [','] ++ printItems items

end

theorem printParts_append (front back : List Node) :
    printParts (front ++ back) = printParts front ++ printParts back := by
  induction front with
  | nil => rfl
  | cons part front ih => simp only [List.cons_append, printParts, ih, List.append_assoc]

end Node

def Block.print (block : Block) : List Char :=
  '*' :: (block.name.toList ++ '\n' :: block.body.print)

/-- There is a line break in front of each block. -/
def Document.print (document : Document) : String :=
  String.ofList (document.blocks.flatMap fun block => '\n' :: block.print)

/-! ## From one scanner to the other -/

namespace Scanner

theorem Stands.comma {scanner : Scanner} {below : List Mode} {later : List Char}
    (stands : scanner.Stands (.list :: below) (',' :: later)) :
    ∃ token after, scanner.next = (.ok token, after) ∧ token.kind = .comma ∧
      after.Stands (.list :: below) later := by
  obtain ⟨token, after, found, kind, _, stands⟩ :=
    Stands.next stands fun _ => .list (.comma (List.forall_mem_nil _))
  exact ⟨token, after, found, kind, stands⟩

end Scanner

/-! ## What may follow a node -/

section Following

variable {node previous : Node} {char : Char} {rest later : List Char}

theorem isNameChar_of_delimiter (delimits : isTemplateText char = false) :
    isNameChar char = false := by
  simp only [isTemplateText, Bool.not_eq_false', Bool.or_eq_true, decide_eq_true_eq] at delimits
  rcases delimits with (rfl | rfl) | rfl <;> rfl

/-- A character that ends a text in a template ends everything. -/
theorem Node.followed_of_delimiter (node : Node) (delimits : isTemplateText char = false)
    (rest : List Char) : node.Followed (char :: rest) := by
  cases node with
  | literal => exact .of_head delimits
  | reference => exact ⟨[], _, rfl, nofun, .of_head (isNameChar_of_delimiter delimits)⟩
  | list | template | block | document => trivial

theorem Node.IsPart.follows (part : node.IsPart) (follows : previous.MayPrecede node)
    (followed : node.Followed later) : previous.Followed (node.print ++ later) := by
  cases part with
  | literal nonempty plain =>
    rename_i value place
    cases previous with
    | literal => exact follows.elim
    | reference =>
      -- the joiners at the beginning of the text are all that could belong to the name
      refine ⟨_, value.toList.dropWhile isNameChar ++ later, ?_, follows, ?_⟩
      · rw [← List.append_assoc, List.takeWhile_append_dropWhile, Node.print]
      · cases left : value.toList.dropWhile isNameChar with
        | nil =>
          -- the whole text is joiners, but what ends the text ends the name too
          obtain ⟨char, rest, rfl, delimits⟩ := followed
          exact .of_head (isNameChar_of_delimiter delimits)
        | cons char rest => exact .of_head (stops_of_dropWhile left)
    | list | template | block | document => trivial
  | reference named ends => exact previous.followed_of_delimiter rfl _
  | list inner =>
    cases inner
    exact previous.followed_of_delimiter rfl _

end Following

/-! ## Reading what is printed -/

/-- With these modes the text is read as nodes of these shapes, and the modes are the same again. -/
def Reads (spells : List Token → List Node → Prop) (modes : List Mode) (text later : List Char)
    (nodes : List Node) : Prop :=
  ∀ scanner : Scanner, scanner.Stands modes (text ++ later) →
    ∃ tokens nodes' after, scanner.Gives tokens after ∧ spells tokens nodes' ∧
      Node.allBare nodes' = Node.allBare nodes ∧ after.Stands modes later

section Reading

variable {spells : List Token → List Node → Prop} {modes : List Mode} {text text' later : List Char}
  {nodes nodes' : List Node}

theorem Reads.nil (empty : spells [] []) : Reads spells modes [] later [] := by
  intro scanner stands
  exact ⟨[], [], scanner, .nil scanner, empty, rfl, stands⟩

theorem Reads.append
    (closed : ∀ {tokens tokens' nodes nodes'}, spells tokens nodes → spells tokens' nodes' →
      spells (tokens ++ tokens') (nodes ++ nodes'))
    (front : Reads spells modes text (text' ++ later) nodes)
    (back : Reads spells modes text' later nodes') :
    Reads spells modes (text ++ text') later (nodes ++ nodes') := by
  intro scanner stands
  rw [List.append_assoc] at stands
  obtain ⟨tokens, shapes, middle, gives, spelt, same, stands⟩ := front scanner stands
  obtain ⟨tokens', shapes', after, gives', spelt', same', stands⟩ := back middle stands
  exact ⟨_, _, after, Scanner.gives_append_iff.mpr ⟨middle, gives, gives'⟩, closed spelt spelt',
    by simp only [Node.allBare_append, same, same'], stands⟩

/-- Between a token that leads to these modes and one that leads away from them. -/
theorem Reads.enclosed {kind kind' : Kind} {char char' : Char} {outer base : List Mode}
    (inner : Reads spells modes text (char' :: later) nodes)
    (opens : ∀ blankLine later, Finds blankLine outer [] (.token kind [char]) later modes)
    (closes : ∀ blankLine later, Finds blankLine modes [] (.token kind' [char']) later base)
    {scanner : Scanner} (stands : scanner.Stands outer (char :: (text ++ [char']) ++ later)) :
    ∃ start tokens stop nodes' after, start.kind = kind ∧ spells tokens nodes' ∧
      stop.kind = kind' ∧ scanner.Gives (start :: (tokens ++ [stop])) after ∧
      Node.allBare nodes' = Node.allBare nodes ∧ after.Stands base later := by
  rw [List.cons_append, List.append_assoc] at stands
  obtain ⟨start, opened, found, opening, _, stands⟩ := Scanner.Stands.next stands (opens · _)
  obtain ⟨tokens, nodes', ended, gives, spelt, shapes, stands⟩ := inner opened stands
  obtain ⟨stop, after, found', closing, _, stands⟩ := Scanner.Stands.next stands (closes · later)
  exact ⟨start, tokens, stop, nodes', after, opening, spelt, closing,
    .cons found (gives.snoc found'), shapes, stands⟩

/-- The parts are read from the left, but what follows a part is known from the right. -/
theorem reads_parts {parts : List Node} {below : List Mode} (each : ∀ part ∈ parts, part.IsPart)
    (apart : parts.IsChain Node.MayPrecede)
    (reads : ∀ part ∈ parts, ∀ later, part.Followed later →
      Reads (SpellsParts false) (.template :: below) part.print later [part])
    (followed : ∀ last ∈ parts.getLast?, last.Followed later) :
    Reads (SpellsParts false) (.template :: below) (Node.printParts parts) later parts := by
  induction parts using List.reverseRecOn generalizing later with
  | nil => exact .nil .nil
  | append_singleton front last ih =>
    obtain ⟨each, part⟩ := List.forall_mem_append.mp each
    obtain ⟨reads, here⟩ := List.forall_mem_append.mp reads
    obtain ⟨apart, _, next⟩ := List.isChain_append.mp apart
    have part := part last (List.mem_singleton_self last)
    have ends : last.Followed later := followed last List.getLast?_concat
    -- for the parts in front, the last one belongs to the text that follows
    have before := ih each apart reads fun previous member =>
      part.follows (next previous member last rfl) ends
    rw [Node.printParts_append, Node.printParts, Node.printParts, List.append_nil]
    exact before.append SpellsParts.append (here last (List.mem_singleton_self last) later ends)

theorem reads_items {items : List Node} {below : List Mode}
    (reads : ∀ item ∈ items, ∀ later,
      Reads (SpellsItems false) (.list :: below) (orBlank item.print ++ [',']) later [item]) :
    Reads (SpellsItems false) (.list :: below) (Node.printItems items) later items := by
  induction items with
  | nil => exact .nil .nil
  | cons item items ih =>
    obtain ⟨first, others⟩ := List.forall_mem_cons.mp reads
    exact (first _).append SpellsItems.append (ih others)

end Reading

/-- A blank item is not skipped, and what is stripped from it leaves nothing. -/
theorem orBlank_item {value : String} (stripped : Text.strip value = value)
    (plain : Every isItemText value.toList) :
    ∃ first text, orBlank value.toList = first :: text ∧ isListSpace first = false ∧
      Every isItemText (first :: text) ∧ Text.strip (String.ofList (first :: text)) = value := by
  cases split : value.toList with
  | nil =>
    have empty : value = "" := String.toList_eq_nil_iff.mp split
    refine ⟨'\x0b', [], rfl, rfl, by simp [Every, isItemText], ?_⟩
    rw [empty]
    rfl
  | cons first text =>
    have whole : value = String.ofList (first :: text) := by rw [← split, String.ofList_toList]
    rw [split] at plain
    refine ⟨first, text, rfl, ?_, plain, by rw [← whole, stripped]⟩
    have trimmed : Text.trim Text.isBlank value.toList = value.toList := by
      have same := congrArg String.toList stripped
      rwa [Text.strip, String.toList_ofList] at same
    obtain ⟨starts, _⟩ := Text.trim_ends Text.isBlank value.toList
    rw [trimmed, split] at starts
    have kept : Text.isBlank first = false := starts first rfl
    cases spaced : isListSpace first with
    | false => rfl
    | true => rw [isBlank_of_isListSpace spaced] at kept; cases kept

mutual

theorem Node.IsTemplate.reads {node : Node} (template : node.IsTemplate) {outer base : List Mode}
    (opens : ∀ blankLine later,
      Finds blankLine outer [] (.token .openQuote ['"']) later (.template :: base))
    (later : List Char) {scanner : Scanner} (stands : scanner.Stands outer (node.print ++ later)) :
    ∃ tokens node' after, scanner.Gives tokens after ∧ SpellsTemplate false tokens node' ∧
      node'.bare = node.bare ∧ after.Stands base later := by
  match template with
  | .intro each apart =>
    have quote : isTemplateText '"' = false := rfl
    have inner := reads_parts each apart (fun part member => (each part member).reads base)
      fun last _ => last.followed_of_delimiter quote later
    obtain ⟨start, tokens, stop, parts', after, opened, spelt, closed, gives, shapes, stands⟩ :=
      inner.enclosed opens (fun _ _ => .template .close) stands
    exact ⟨_, _, after, gives, .intro opened spelt closed, by simp only [bare, shapes], stands⟩

theorem Node.IsPart.reads {node : Node} (part : node.IsPart) (below : List Mode)
    (later : List Char) (followed : node.Followed later) :
    Reads (SpellsParts false) (.template :: below) node.print later [node] := by
  intro scanner stands
  match part with
  | .literal nonempty plain =>
    have some := mt String.toList_eq_nil_iff.mp nonempty
    obtain ⟨token, after, found, kind, lexeme, stands⟩ :=
      Scanner.Stands.next stands fun _ => .template (.text some plain followed)
    exact ⟨[token], _, after, Scanner.gives_singleton_iff.mpr found, SpellsParts.nil.text kind,
      by simp [allBare, bare, print, lexeme], stands⟩
  | @IsPart.reference name _ named ends =>
    -- the scanner takes the joiners behind the name with it and gives them back
    obtain ⟨first, text, split, letter, plain⟩ := named
    obtain ⟨joiners, rest, rfl, joined, stops⟩ := followed
    have marked : scanner.Stands (.template :: below)
        (['#'] ++ (name.toList ++ (joiners ++ rest))) := stands
    rw [split] at marked ends
    obtain ⟨mark, middle, found, kind, _, stands⟩ := marked.next fun _ => .template .hash
    obtain ⟨token, after, found', kind', lexeme, stands⟩ := stands.next fun _ =>
      .name (.trimmed rfl letter plain
        (fun last member => not_joiner_of_isAlphanum (ends last member)) joined stops)
    have whole : token.lexeme = name := by rw [lexeme, ← split, String.ofList_toList]
    exact ⟨[mark, token], _, after, .cons found (Scanner.gives_singleton_iff.mpr found'),
      SpellsParts.nil.reference kind kind', by simp [allBare, bare, whole], stands⟩
  | .list inner =>
    obtain ⟨tokens, node', after, gives, spelt, shape, stands⟩ :=
      inner.reads (fun _ _ => .template .openList) later stands
    exact ⟨tokens, [node'], after, gives, .list .nil spelt, by simp [allBare, shape], stands⟩

theorem Node.IsList.reads {node : Node} (list : node.IsList) {outer base : List Mode}
    (opens : ∀ blankLine later,
      Finds blankLine outer [] (.token .openBracket ['[']) later (.list :: base))
    (later : List Char) {scanner : Scanner} (stands : scanner.Stands outer (node.print ++ later)) :
    ∃ tokens node' after, scanner.Gives tokens after ∧ SpellsList false tokens node' ∧
      node'.bare = node.bare ∧ after.Stands base later := by
  match list with
  | .intro each =>
    have inner : Reads (SpellsItems false) (.list :: base) _ (']' :: later) _ :=
      reads_items fun item member => (each item member).reads base
    obtain ⟨start, tokens, stop, items', after, opened, spelt, closed, gives, shapes, stands⟩ :=
      inner.enclosed opens (fun _ _ => .list (.close nofun)) stands
    exact ⟨_, _, after, gives, .intro opened spelt closed, by simp only [bare, shapes], stands⟩

theorem Node.IsItem.reads {node : Node} (item : node.IsItem) (below : List Mode)
    (later : List Char) :
    Reads (SpellsItems false) (.list :: below) (orBlank node.print ++ [',']) later [node] := by
  intro scanner stands
  match item with
  | .literal stripped plain =>
    obtain ⟨first, text, printed, starts, plain, value⟩ := orBlank_item stripped plain
    rw [print, printed, List.append_assoc] at stands
    obtain ⟨token, middle, found, kind, lexeme, stands⟩ := stands.next fun _ =>
      .list (.text nofun starts plain (.of_head rfl))
    obtain ⟨comma, after, found', kind', stands⟩ := stands.comma
    rw [← lexeme] at value
    exact ⟨[token, comma], _, after, .cons found (Scanner.gives_singleton_iff.mpr found'),
      (SpellsItems.nil.text kind).comma kind', by simp [allBare, bare, value], stands⟩
  | .template inner =>
    -- a template begins with its quote and so is never blank
    have printed : orBlank node.print = node.print := by
      cases inner
      rfl
    rw [printed, List.append_assoc] at stands
    obtain ⟨tokens, node', middle, gives, spelt, shape, stands⟩ :=
      inner.reads (fun _ _ => .list (.openTemplate nofun)) (',' :: later) stands
    obtain ⟨comma, after, found, kind, stands⟩ := stands.comma
    exact ⟨_, [node'], after, gives.snoc found, (SpellsItems.nil.template spelt).comma kind,
      by simp only [allBare, shape], stands⟩

end

/-! ## Whole sources -/

theorem marksTop_of_isAlpha {char : Char} (letter : char.isAlpha = true) (blankLine : Bool) :
    marksTop blankLine char = false := by
  have differs : ∀ other : Char, other.isAlpha = false → char ≠ other := by
    rintro other plain rfl
    rw [letter] at plain
    cases plain
  simp [marksTop, isSpace, differs ' ' rfl, differs '\t' rfl, differs '\r' rfl, differs '\n' rfl,
    differs '"' rfl, differs '[' rfl, differs '*' rfl]

theorem Node.IsBody.reads {body : Node} (readable : body.IsBody) (later : List Char)
    {scanner : Scanner} (stands : scanner.Stands [.lineStart, .top] (body.print ++ later)) :
    ∃ tokens body' after, scanner.Gives tokens after ∧ SpellsBody false tokens body' ∧
      body'.bare = body.bare ∧ after.Stands [.top] later := by
  rcases readable with template | list
  · obtain ⟨tokens, body', after, gives, spelt, shape, stands⟩ :=
      template.reads (fun _ _ => .lineStart (by simp [Found.taken]) (.openTemplate nofun)) later
        stands
    exact ⟨tokens, body', after, gives, .template spelt, shape, stands⟩
  · obtain ⟨tokens, body', after, gives, spelt, shape, stands⟩ :=
      list.reads (fun _ _ => .lineStart (by simp [Found.taken]) (.openList nofun)) later stands
    exact ⟨tokens, body', after, gives, .list spelt, shape, stands⟩

theorem Block.IsReadable.reads {block : Block} (readable : block.IsReadable) (later : List Char)
    {scanner : Scanner} (stands : scanner.Stands [.lineStart, .top] (block.print ++ later)) :
    ∃ tokens block' after, scanner.Gives tokens after ∧ SpellsBlock false tokens block' ∧
      block'.bare = block.bare ∧ after.Stands [.top] later := by
  obtain ⟨first, text, split, letter, plain⟩ := readable.named
  have starts : scanner.Stands [.lineStart, .top]
      (['*'] ++ (first :: text ++ (['\n'] ++ (block.body.print ++ later)))) := by
    rw [← split]
    simpa [print] using stands
  obtain ⟨mark, titled, found, marked, _, stands⟩ := starts.next fun _ => .header
  obtain ⟨name, ended, found', named, lexeme, stands⟩ := stands.next fun blankLine =>
    .top (.named nofun rfl (marksTop_of_isAlpha letter blankLine)
      (.whole nofun letter plain (.of_head rfl)))
  obtain ⟨line, broken, found'', breaks, _, stands⟩ := stands.next fun _ => .top (.lineBreak nofun)
  obtain ⟨tokens, body, after, gives, spelt, shape, stands⟩ := readable.body.reads later stands
  have whole : name.lexeme = block.name := by rw [lexeme, ← split, String.ofList_toList]
  exact ⟨mark :: name :: line :: ([] ++ tokens), _, after,
    .cons found (.cons found' (.cons found'' gives)), .intro marked named breaks nofun spelt,
    by simp [bare, whole, shape], stands⟩

/-- Whichever token ends the text behind these blocks, there is a sentence up to there. -/
theorem reads_blocks {blocks : List Block} (each : ∀ block ∈ blocks, block.IsReadable)
    (later : List Char) {scanner : Scanner} (stands : scanner.Stands [.top]
      (blocks.flatMap (fun block => '\n' :: block.print) ++ later)) :
    ∃ tokens document after, scanner.Gives tokens after ∧ after.Stands [.top] later ∧
      (∀ stop : Token, stop.kind = .finish → SpellsDocument false (tokens ++ [stop]) document) ∧
      document.alike ⟨blocks⟩ = true := by
  induction blocks using List.reverseRecOn generalizing later with
  | nil =>
    have empty : ∀ stop : Token, stop.kind = .finish →
        SpellsDocument false ([] ++ ([] ++ [stop])) ⟨[]⟩ :=
      fun stop finished => .empty nofun nofun finished
    exact ⟨[], ⟨[]⟩, scanner, .nil scanner, stands, empty, rfl⟩
  | append_singleton front block ih =>
    obtain ⟨each, last⟩ := List.forall_mem_append.mp each
    simp only [List.flatMap_append, List.flatMap_singleton, List.append_assoc,
      List.cons_append] at stands
    obtain ⟨tokens, document, middle, gives, stands, spelt, alike⟩ := ih each _ stands
    -- behind the line break it does not matter what has been read before
    obtain ⟨line, broken, found, breaks, _, stands⟩ :=
      Scanner.Stands.next stands fun _ => .top (.lineBreak (List.forall_mem_nil _))
    obtain ⟨tokens', block', after, gives', spelt', shape, stands⟩ :=
      (last block (List.mem_singleton_self block)).reads later stands
    refine ⟨tokens ++ line :: tokens', ⟨document.blocks ++ [block']⟩, after, ?_, stands, ?_, ?_⟩
    · exact Scanner.gives_append_iff.mpr ⟨middle, gives, .cons found gives'⟩
    · intro stop finished
      have sentence : SpellsDocument false ([] ++ (tokens' ++ ([] ++ [stop]))) ⟨[block']⟩ :=
        .blocks nofun (.single spelt') nofun finished
      simpa using (spelt stop finished).join breaks sentence
    · rw [Document.alike_iff_bare] at alike ⊢
      simp [alike, shape]

/-- What is printed for a tree that can be read is read as a tree that is alike. -/
theorem parse_print (file : String) {document : Document} (readable : document.IsReadable) :
    ∃ parsed, parse file document.print = .ok parsed ∧ parsed.alike document = true := by
  have stands : (Scanner.ofSource file document.print).Stands [.top]
      (document.blocks.flatMap (fun block => '\n' :: block.print) ++ []) := by
    refine ⟨rfl, ?_⟩
    simp [Scanner.ofSource, Cursor.ofSource, Document.print]
  obtain ⟨tokens, parsed, middle, gives, stands, spelt, alike⟩ := reads_blocks readable [] stands
  have unended := gives.unended (by simp [Scanner.mode, stands.modes])
  obtain ⟨stop, after, found, finished, _, _⟩ := stands.next fun _ => .top (.finish nofun)
  have scanned : tokensOf file document.print = .ok (tokens ++ [stop]) :=
    Scanner.tokens_ok_iff.mpr ⟨tokens, stop, after, rfl, unended, finished, gives.snoc found⟩
  exact ⟨parsed, parse_of_spells scanned (spelt stop finished), alike⟩

/-- A tree is that of some source just when it can be read, and it is then that of what is printed
for it. -/
theorem parse_image (file : String) (document : Document) :
    ((∃ source parsed, parse file source = .ok parsed ∧ parsed.alike document = true) ↔
      document.IsReadable) ∧
    ((∃ parsed, parse file document.print = .ok parsed ∧ parsed.alike document = true) ↔
      document.IsReadable) := by
  have sound : ∀ {source parsed}, parse file source = .ok parsed →
      parsed.alike document = true → document.IsReadable :=
    fun parsed alike => (readable_of_parse parsed).alike alike
  refine ⟨⟨?_, fun readable => ⟨_, parse_print file readable⟩⟩, ⟨?_, parse_print file⟩⟩
  · rintro ⟨source, parsed, found, alike⟩
    exact sound found alike
  · rintro ⟨parsed, found, alike⟩
    exact sound found alike

example :
    let items : List Node := [.literal "" none, .template [.reference "b" none] none]
    Document.print ⟨[⟨"a", .list items none, none⟩]⟩ = "\n*a\n[\x0b,\"#b\",]" := rfl

end TextGrammar
