import TextGrammar.Proofs.Token.Tiling
import TextGrammar.Proofs.Tree.Pointing
import TextGrammar.Proofs.Tree.Readable

/-!
# Where nodes come from

The place of a node tells where in the source the node has been read: there stands what it begins
with. One after the other in reading order, the nodes of a tree come from places further and further
on, whatever lists and templates have been nested and over however many lines they go.
-/
namespace TextGrammar

/-! ## Reading order -/

/-- What one comes upon in a tree. A bare item of a list is told apart from a text in a template,
since it has been stripped. -/
inductive Landmark where
  | ofBlock (block : Block)
  | ofNode (node : Node)
  | ofItem (value : String) (place : Option Span)

namespace Landmark

def place : Landmark → Option Span
  | ofBlock block => block.place
  | ofNode node => node.place
  | ofItem _ place => place

/-- What a text begins with where the landmark has been read. -/
def Begins (ahead : List Char) : Landmark → Prop
  | ofBlock _ => ['*'] <+: ahead
  | ofNode (.template ..) => ['"'] <+: ahead
  | ofNode (.list ..) => ['['] <+: ahead
  | ofNode (.reference name _) => '#' :: name.toList <+: ahead
  | ofNode (.literal value _) => value.toList <+: ahead
  | ofNode (.block ..) | ofNode (.document ..) => False
  | ofItem value _ => ∃ run later, ahead = run ++ later ∧ Every isItemText run ∧
      Stops isItemText later ∧ Text.strip (String.ofList run) = value

/-- The place of the landmark is that of this offset in the text, and it begins there. -/
structure StandsAt (text : List Char) (start : Nat) (landmark : Landmark) : Prop where
  within : start < text.length
  placed : ∃ span, landmark.place = some span ∧ span.StartsAt text start
  begins : landmark.Begins (text.drop start)

end Landmark

mutual

/-- A node in front of what is inside of it. Nothing is listed of a block or a document in place of
a node: there is no text that one begins with. -/
def Node.landmarks : Node → List Landmark
  | .template parts place => .ofNode (.template parts place) :: partLandmarks parts
  | .list items place => .ofNode (.list items place) :: itemLandmarks items
  | node => [.ofNode node]

def Node.partLandmarks : List Node → List Landmark
  | [] => []
  | node :: nodes => node.landmarks ++ partLandmarks nodes

def Node.itemLandmarks : List Node → List Landmark
  | [] => []
  | node :: nodes =>
    (match node with
      | .literal value place => [.ofItem value place]
      | _ => node.landmarks) ++ itemLandmarks nodes

end

def Block.landmarks (block : Block) : List Landmark := .ofBlock block :: block.body.landmarks

def Document.landmarks (document : Document) : List Landmark :=
  document.blocks.flatMap Block.landmarks

theorem Node.partLandmarks_append (front back : List Node) :
    partLandmarks (front ++ back) = partLandmarks front ++ partLandmarks back := by
  induction front with
  | nil => rfl
  | cons node nodes ih => simp [partLandmarks, ih]

theorem Node.itemLandmarks_append (front back : List Node) :
    itemLandmarks (front ++ back) = itemLandmarks front ++ itemLandmarks back := by
  induction front with
  | nil => rfl
  | cons node nodes ih => simp [itemLandmarks, ih]

/-! ## Landmarks in order -/

/-- The landmarks stand in the text, each behind where the one in front of it begins, and all of
them between these offsets. -/
inductive Successive (text : List Char) : Nat → List Landmark → Nat → Prop where
  | nil {start stop : Nat} (le : start ≤ stop) : Successive text start [] stop
  | cons {start here stop : Nat} {landmark : Landmark} {landmarks : List Landmark}
      (le : start ≤ here) (stands : landmark.StandsAt text here)
      (rest : Successive text (here + 1) landmarks stop) :
      Successive text start (landmark :: landmarks) stop

namespace Successive

variable {text : List Char} {start start' middle stop stop' : Nat}
  {landmarks landmarks' : List Landmark}

theorem later (order : Successive text start landmarks stop) (further : stop ≤ stop') :
    Successive text start landmarks stop' := by
  induction order with
  | nil le => exact .nil (Nat.le_trans le further)
  | cons le stands _ ih => exact .cons le stands (ih further)

theorem earlier (order : Successive text start landmarks stop) (before : start' ≤ start) :
    Successive text start' landmarks stop := by
  cases order with
  | nil le => exact .nil (Nat.le_trans before le)
  | cons le stands rest => exact .cons (Nat.le_trans before le) stands rest

theorem append (front : Successive text start landmarks middle)
    (back : Successive text middle landmarks' stop) :
    Successive text start (landmarks ++ landmarks') stop := by
  induction front with
  | nil le => exact back.earlier le
  | cons le stands _ ih => exact .cons le stands (ih back)

theorem exists_standsAt (order : Successive text start landmarks stop) :
    ∀ landmark ∈ landmarks, ∃ here, start ≤ here ∧ landmark.StandsAt text here := by
  induction order with
  | nil => exact nofun
  | @cons start here stop landmark landmarks le stands rest ih =>
    intro other member
    rcases List.mem_cons.mp member with rfl | member
    · exact ⟨here, le, stands⟩
    · obtain ⟨there, further, stands'⟩ := ih other member
      exact ⟨there, by omega, stands'⟩

end Successive

/-- A place is in front of another one: on an earlier line, or further to the left on its line. -/
def Span.Before (span span' : Span) : Prop :=
  span.row < span'.row ∨ (span.row = span'.row ∧ span.col < span'.col)

theorem Span.StartsAt.before {text : List Char} {start start' : Nat} {span span' : Span}
    (starts : span.StartsAt text start) (starts' : span'.StartsAt text start')
    (earlier : start < start') : span.Before span' := by
  have rows := Text.count_take_le text (Nat.le_of_lt earlier)
  unfold Before
  rw [starts.row, starts'.row, starts.col, starts'.col]
  rcases Nat.lt_or_eq_of_le rows with above | level
  · exact .inl (Int.ofNat_lt.mpr above)
  · -- as many line breaks are in front of both, so they are on the same line
    obtain ⟨more, split⟩ := Text.lineStarts_prefix text (Nat.le_of_lt earlier)
    have here := Text.getElem?_lineStart text start
    have there := Text.getElem?_lineStart text start'
    have bound := (List.getElem?_eq_some_iff.mp here).1
    rw [← level, ← split, List.getElem?_append_left bound, here, Option.some.injEq] at there
    refine .inr ⟨congrArg Nat.cast level, ?_⟩
    omega

/-- In order, they are at places that are in front of each other. -/
theorem Successive.pairwise {text : List Char} {start stop : Nat} {landmarks : List Landmark}
    (order : Successive text start landmarks stop) :
    landmarks.Pairwise fun landmark landmark' => ∃ span span',
      landmark.place = some span ∧ landmark'.place = some span' ∧ span.Before span' := by
  induction order with
  | nil => exact .nil
  | cons le stands rest ih =>
    refine .cons (fun other member => ?_) ih
    obtain ⟨there, further, stands'⟩ := rest.exists_standsAt other member
    obtain ⟨span, place, starts⟩ := stands.placed
    obtain ⟨span', place', starts'⟩ := stands'.placed
    exact ⟨span, span', place, place', starts.before starts' (Nat.lt_of_succ_le further)⟩

/-! ## Landmarks of what is spelt -/

namespace Scanner

variable {text : List Char} {scanner after : Scanner} {token : Token}

theorem next_sign {char : Char} (found : scanner.next = (.ok token, after))
    (signed : token.kind.sign? = some char) : token.lexeme.toList = [char] := by
  obtain ⟨gap, word, later, cuts⟩ := next_ok_iff.mp found
  rw [cuts.lexeme, String.toList_ofList]
  exact cuts.finds.text_of_sign signed

/-- A name that is asked for comes without a gap. -/
theorem next_asked {below : List Mode} (found : scanner.next = (.ok token, after))
    (asked : scanner.modes = .name :: below) :
    scanner.cursor.rest = token.lexeme.toList ++ after.cursor.rest := by
  obtain ⟨gap, word, later, cuts⟩ := next_ok_iff.mp found
  have skips := cuts.finds.skips
  rw [asked] at skips
  obtain rfl : gap = [] := List.eq_nil_iff_forall_not_mem.mpr fun char member =>
    absurd (skips char member) (by simp [Mode.skips])
  rw [cuts.lexeme, String.toList_ofList, cuts.left, cuts.rest, List.nil_append]

/-- A landmark with the place of a token comes first, and what is in order behind the token comes
behind it. -/
theorem successive_cons {landmark : Landmark} {landmarks : List Landmark} {stop : Nat}
    (charted : scanner.cursor.Charted text) (found : scanner.next = (.ok token, after))
    (real : token.kind ≠ .finish) (place : landmark.place = some token.span)
    (begins : landmark.Begins (token.lexeme.toList ++ after.cursor.rest))
    (rest : Successive text after.cursor.offset landmarks stop) :
    Successive text scanner.cursor.offset (landmark :: landmarks) stop := by
  obtain ⟨start, further, ends, placed⟩ := placedAt_of_next charted found
  have charted' := (proceeds_of_next charted found).charted
  have nonempty : token.lexeme.length ≠ 0 := by
    obtain ⟨gap, word, later, cuts⟩ := next_ok_iff.mp found
    rw [Ne, String.length_eq_zero_iff]
    exact cuts.lexeme_ne_empty real
  have ahead : text.drop start = token.lexeme.toList ++ after.cursor.rest := by
    rw [← placed.lexeme, ← charted'.rest, ← ends, ← List.drop_drop, List.take_append_drop]
  have within := charted'.within
  rw [← ahead] at begins
  exact .cons further ⟨by omega, ⟨_, place, placed.startsAt⟩, begins⟩ (rest.earlier (by omega))

theorem successive_cons_of_sign {landmark : Landmark} {landmarks : List Landmark} {stop : Nat}
    {char : Char} (charted : scanner.cursor.Charted text)
    (found : scanner.next = (.ok token, after)) (signed : token.kind.sign? = some char)
    (place : landmark.place = some token.span)
    (begins : landmark.Begins (char :: after.cursor.rest))
    (rest : Successive text after.cursor.offset landmarks stop) :
    Successive text scanner.cursor.offset (landmark :: landmarks) stop := by
  refine successive_cons charted found (fun last => ?_) place ?_ rest
  · rw [last] at signed
    cases signed
  · rw [next_sign found signed]
    exact begins

end Scanner

variable {breaks : Bool} {text : List Char}

mutual

theorem SpellsTemplate.successive {tokens : List Token} {node : Node}
    (spelt : SpellsTemplate breaks tokens node) {scanner after : Scanner}
    (gives : scanner.Gives tokens after) (charted : scanner.cursor.Charted text) :
    Successive text scanner.cursor.offset node.landmarks after.cursor.offset := by
  match spelt with
  | .intro opened inner closed =>
    obtain ⟨opening, closing, base, first, inside, between, last⟩ := gives.quoted opened
    have charted' := (Scanner.proceeds_of_next charted first).charted
    have closes := last.proceeds (between.proceeds charted').charted
    have parts := inner.successive between inside charted'
    exact Scanner.successive_cons_of_sign charted first (opened ▸ rfl) rfl ⟨_, rfl⟩
      (parts.later closes.further)

theorem SpellsParts.successive {tokens : List Token} {parts : List Node}
    (spelt : SpellsParts breaks tokens parts) {scanner after : Scanner} {below : List Mode}
    (gives : scanner.Gives tokens after) (inside : scanner.modes = .template :: below)
    (charted : scanner.cursor.Charted text) :
    Successive text scanner.cursor.offset (Node.partLandmarks parts) after.cursor.offset := by
  match spelt with
  | .nil => exact .nil (gives.proceeds charted).further
  | .text before kind =>
    obtain ⟨middle, front, back⟩ := Scanner.gives_append_iff.mp gives
    have found := Scanner.gives_singleton_iff.mp back
    rw [Node.partLandmarks_append]
    refine (before.successive front inside charted).append ?_
    exact Scanner.successive_cons (front.proceeds charted).charted found (by simp [kind]) rfl
      (List.prefix_append _ _) (.nil (Nat.le_refl _))
  | .reference before marked named =>
    obtain ⟨middle, front, back⟩ := Scanner.gives_append_iff.mp gives
    obtain ⟨_, still⟩ := before.strict front inside
    obtain ⟨hashed, first, last⟩ := Scanner.gives_cons_iff.mp back
    have moved := ((Scanner.gives_singleton_iff.mpr first).moves marked still).of_template
    have naming : hashed.modes = .name :: .template :: below := by simpa using moved
    have ahead := Scanner.next_asked (Scanner.gives_singleton_iff.mp last) naming
    have charted' := (front.proceeds charted).charted
    have names := last.proceeds (Scanner.proceeds_of_next charted' first).charted
    rw [Node.partLandmarks_append]
    refine (before.successive front inside charted).append ?_
    -- the reference has the place of its hash, and the name comes right behind it
    exact Scanner.successive_cons_of_sign charted' first (marked ▸ rfl) rfl
      (List.prefix_cons_inj _ |>.mpr ⟨_, ahead.symm⟩) (.nil names.further)
  | .list before last =>
    obtain ⟨middle, front, back⟩ := Scanner.gives_append_iff.mp gives
    rw [Node.partLandmarks_append]
    refine (before.successive front inside charted).append ?_
    simpa [Node.partLandmarks] using last.successive back (front.proceeds charted).charted

theorem SpellsList.successive {tokens : List Token} {node : Node}
    (spelt : SpellsList breaks tokens node) {scanner after : Scanner}
    (gives : scanner.Gives tokens after) (charted : scanner.cursor.Charted text) :
    Successive text scanner.cursor.offset node.landmarks after.cursor.offset := by
  match spelt with
  | .intro opened inner closed =>
    obtain ⟨opening, closing, base, first, inside, between, last⟩ := gives.bracketed opened
    have charted' := (Scanner.proceeds_of_next charted first).charted
    have closes := last.proceeds (between.proceeds charted').charted
    have items := inner.successive between inside charted'
    exact Scanner.successive_cons_of_sign charted first (opened ▸ rfl) rfl ⟨_, rfl⟩
      (items.later closes.further)

theorem SpellsItems.successive {tokens : List Token} {items : List Node}
    (spelt : SpellsItems breaks tokens items) {scanner after : Scanner} {below : List Mode}
    (gives : scanner.Gives tokens after) (inside : scanner.modes = .list :: below)
    (charted : scanner.cursor.Charted text) :
    Successive text scanner.cursor.offset (Node.itemLandmarks items) after.cursor.offset := by
  match spelt with
  | .nil => exact .nil (gives.proceeds charted).further
  | .text before kind =>
    obtain ⟨middle, front, back⟩ := Scanner.gives_append_iff.mp gives
    obtain ⟨_, still⟩ := before.strict front inside
    have found := Scanner.gives_singleton_iff.mp back
    obtain ⟨plain, stops⟩ := Scanner.next_item found kind still
    rw [Node.itemLandmarks_append]
    refine (before.successive front inside charted).append ?_
    exact Scanner.successive_cons (front.proceeds charted).charted found (by simp [kind]) rfl
      ⟨_, _, rfl, plain, stops, by rw [String.ofList_toList]⟩ (.nil (Nat.le_refl _))
  | .comma before kind | .lineBreak before allowed kind =>
    -- nothing is added to the tree, but the scanner has gone on
    obtain ⟨middle, front, back⟩ := Scanner.gives_append_iff.mp gives
    have passed := back.proceeds (front.proceeds charted).charted
    exact (before.successive front inside charted).later passed.further
  | .template before last =>
    obtain ⟨middle, front, back⟩ := Scanner.gives_append_iff.mp gives
    have inner := last.successive back (front.proceeds charted).charted
    rw [Node.itemLandmarks_append]
    refine (before.successive front inside charted).append ?_
    -- a template is no literal, so it is listed as any other node
    cases last with
    | intro => simpa [Node.itemLandmarks] using inner

end

section Documents

variable {tokens : List Token} {scanner after : Scanner}

theorem SpellsBody.successive {body : Node} (spelt : SpellsBody breaks tokens body)
    (gives : scanner.Gives tokens after) (charted : scanner.cursor.Charted text) :
    Successive text scanner.cursor.offset body.landmarks after.cursor.offset := by
  cases spelt with
  | template spelt => exact spelt.successive gives charted
  | list spelt => exact spelt.successive gives charted

theorem SpellsBlock.successive {block : Block} (spelt : SpellsBlock breaks tokens block)
    (gives : scanner.Gives tokens after) (charted : scanner.cursor.Charted text) :
    Successive text scanner.cursor.offset block.landmarks after.cursor.offset := by
  cases spelt with
  | @intro mark name first gap tokens body marked named broken blank inner =>
    have split : scanner.Gives ((mark :: name :: first :: gap) ++ tokens) after := gives
    obtain ⟨start, front, body⟩ := Scanner.gives_append_iff.mp split
    obtain ⟨titled, head, between⟩ := Scanner.gives_cons_iff.mp front
    have charted' := (Scanner.proceeds_of_next charted head).charted
    have passed := between.proceeds charted'
    exact Scanner.successive_cons_of_sign charted head (marked ▸ rfl) rfl ⟨_, rfl⟩
      ((inner.successive body passed.charted).earlier passed.further)

theorem SpellsBlocks.successive {blocks : List Block} (spelt : SpellsBlocks breaks tokens blocks)
    (gives : scanner.Gives tokens after) (charted : scanner.cursor.Charted text) :
    Successive text scanner.cursor.offset (blocks.flatMap Block.landmarks) after.cursor.offset := by
  induction spelt generalizing after with
  | single only => simpa using only.successive gives charted
  | snoc before broken blank last ih =>
    obtain ⟨middle, front, back⟩ := Scanner.gives_append_iff.mp gives
    rw [← List.cons_append] at back
    obtain ⟨start, between, block⟩ := Scanner.gives_append_iff.mp back
    have passed := between.proceeds (front.proceeds charted).charted
    rw [List.flatMap_append, List.flatMap_singleton]
    exact (ih front).append ((last.successive block passed.charted).earlier passed.further)

theorem SpellsDocument.successive {document : Document}
    (spelt : SpellsDocument breaks tokens document) (gives : scanner.Gives tokens after)
    (charted : scanner.cursor.Charted text) :
    ∃ start stop, Successive text start document.landmarks stop := by
  cases spelt with
  | empty => exact ⟨0, 0, .nil (Nat.le_refl 0)⟩
  | blocks blank inner blank' finished =>
    obtain ⟨start, leading, rest⟩ := Scanner.gives_append_iff.mp gives
    obtain ⟨stop, gives, _⟩ := Scanner.gives_append_iff.mp rest
    exact ⟨_, _, inner.successive gives (leading.proceeds charted).charted⟩

end Documents

/-- In the tree of a source every node stands where its place says, and in reading order the places
are each in front of all that follow. -/
theorem parse_landmarks {file source : String} {document : Document}
    (parsed : parse file source = .ok document) :
    (∀ landmark ∈ document.landmarks, ∃ start, landmark.StandsAt source.toList start) ∧
    document.landmarks.Pairwise fun landmark landmark' => ∃ span span',
      landmark.place = some span ∧ landmark'.place = some span' ∧ span.Before span' := by
  obtain ⟨tokens, all, spelt⟩ := spells_of_parse parsed
  obtain ⟨front, stop, after, rfl, _, _, gives⟩ := Scanner.tokens_ok_iff.mp all
  obtain ⟨start, stop, order⟩ := spelt.successive gives (.ofSource source.toList)
  refine ⟨fun landmark member => ?_, order.pairwise⟩
  obtain ⟨here, _, stands⟩ := order.exists_standsAt landmark member
  exact ⟨here, stands⟩

/-- A text goes on over a line break, a list stands in a template and a template in a list, and an
item has space around it. -/
theorem parse_landmarks_nested :
    ∃ document, parse "" "*a\n\"b\n#c-[ d ,\"\"]\"" = .ok document ∧
      document.landmarks.map (·.place.map fun span => (span.row, span.col)) =
        [some (0, 0), some (1, 0), some (1, 1), some (2, 0), some (2, 2), some (2, 3), some (2, 5),
          some (2, 8)] ∧
      (∀ landmark ∈ document.landmarks, ∃ start,
        landmark.StandsAt "*a\n\"b\n#c-[ d ,\"\"]\"".toList start) ∧
      document.landmarks.Pairwise fun landmark landmark' => ∃ span span',
        landmark.place = some span ∧ landmark'.place = some span' ∧ span.Before span' := by
  let span (row col stop : Int) : Option Span := some ⟨"", row, col, stop⟩
  let parts : List Node :=
    [.literal "b\n" (span 1 1 2), .reference "c" (span 2 0 1), .literal "-" (span 2 2 3),
      .list [.literal "d" (span 2 5 7), .template [] (span 2 8 9)] (span 2 3 4)]
  let document : Document := ⟨[⟨"a", .template parts (span 1 0 1), span 0 0 1⟩]⟩
  have parsed : parse "" "*a\n\"b\n#c-[ d ,\"\"]\"" = .ok document :=
    parse_of_firsts 15 rfl rfl (by decide) rfl rfl rfl
  exact ⟨document, parsed, rfl, parse_landmarks parsed⟩

end TextGrammar
