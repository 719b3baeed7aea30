import TextGrammar.Proofs.Token.Finding

/-!
# How the modes move

The kinds of tokens that a stack of modes allows, and the stack that each of them leaves. The text
that is scanned decides which of these tokens it is, and whether there is one at all.
-/
namespace TextGrammar

/-- The stack is at the top level, where what comes next goes on `base`. A line start is used up by
whatever follows it. -/
inductive AtTop : List Mode → List Mode → Prop where
  | top (below : List Mode) : AtTop (.top :: below) (.top :: below)
  | lineStart (below : List Mode) : AtTop (.lineStart :: below) below

/-- With these modes there may be a token of this kind, and then come those modes. -/
inductive Moves : List Mode → Kind → List Mode → Prop where
  | finish {modes base : List Mode} (top : AtTop modes base) :
      Moves modes .finish (.finished :: base)
  | lineBreak {modes base : List Mode} (top : AtTop modes base) :
      Moves modes .lineBreak (.lineStart :: base)
  | openTemplate {modes base : List Mode} (top : AtTop modes base) :
      Moves modes .openQuote (.template :: base)
  | openList {modes base : List Mode} (top : AtTop modes base) :
      Moves modes .openBracket (.list :: base)
  | head {modes base : List Mode} (top : AtTop modes base) : Moves modes .head base
  | title {modes base : List Mode} (top : AtTop modes base) : Moves modes .name base
  | text (below : List Mode) : Moves (.template :: below) .text (.template :: below)
  | closeTemplate (below : List Mode) : Moves (.template :: below) .closeQuote below
  | hash (below : List Mode) : Moves (.template :: below) .hash (.name :: .template :: below)
  | listInTemplate (below : List Mode) :
      Moves (.template :: below) .openBracket (.list :: .template :: below)
  | name (below : List Mode) : Moves (.name :: below) .name below
  | item (below : List Mode) : Moves (.list :: below) .text (.list :: below)
  | comma (below : List Mode) : Moves (.list :: below) .comma (.list :: below)
  | closeList (below : List Mode) : Moves (.list :: below) .closeBracket below
  | templateInList (below : List Mode) :
      Moves (.list :: below) .openQuote (.template :: .list :: below)
  | listInList (below : List Mode) : Moves (.list :: below) .openBracket (.list :: .list :: below)
  | finished (below : List Mode) : Moves (.finished :: below) .finish (.finished :: below)
  | none : Moves [] .finish []

theorem Moves.of_openQuote {modes modes' : List Mode} (moves : Moves modes .openQuote modes') :
    ∃ base, modes' = .template :: base := by
  cases moves <;> exact ⟨_, rfl⟩

theorem Moves.of_openBracket {modes modes' : List Mode} (moves : Moves modes .openBracket modes') :
    ∃ base, modes' = .list :: base := by
  cases moves <;> exact ⟨_, rfl⟩

theorem Moves.of_template {below modes : List Mode} {kind : Kind}
    (moves : Moves (.template :: below) kind modes) :
    (kind = .text ∧ modes = .template :: below) ∨ (kind = .closeQuote ∧ modes = below) ∨
      (kind = .hash ∧ modes = .name :: .template :: below) ∨
      (kind = .openBracket ∧ modes = .list :: .template :: below) := by
  cases moves with
  | text | closeTemplate | hash | listInTemplate => simp
  | finish top | lineBreak top | openTemplate top | openList top | head top | title top =>
    cases top

theorem Moves.of_name {below modes : List Mode} {kind : Kind}
    (moves : Moves (.name :: below) kind modes) : kind = .name ∧ modes = below := by
  cases moves with
  | name => exact ⟨rfl, rfl⟩
  | finish top | lineBreak top | openTemplate top | openList top | head top | title top =>
    cases top

theorem Moves.of_list {below modes : List Mode} {kind : Kind}
    (moves : Moves (.list :: below) kind modes) :
    ((kind = .text ∨ kind = .comma) ∧ modes = .list :: below) ∨
      (kind = .closeBracket ∧ modes = below) ∨
      (kind = .openQuote ∧ modes = .template :: .list :: below) ∨
      (kind = .openBracket ∧ modes = .list :: .list :: below) := by
  cases moves with
  | item | comma | closeList | templateInList | listInList => simp
  | finish top | lineBreak top | openTemplate top | openList top | head top | title top =>
    cases top

theorem Moves.of_hash {modes modes' : List Mode} (moves : Moves modes .hash modes') :
    ∃ below, modes = .template :: below ∧ modes' = .name :: .template :: below := by
  cases moves with
  | hash below => exact ⟨below, rfl, rfl⟩

theorem Moves.of_text {modes modes' : List Mode} (moves : Moves modes .text modes') :
    (∃ below, modes' = .template :: below) ∨ ∃ below, modes' = .list :: below := by
  cases moves with
  | text below => exact .inl ⟨below, rfl⟩
  | item below => exact .inr ⟨below, rfl⟩

theorem Moves.of_comma {modes modes' : List Mode} (moves : Moves modes .comma modes') :
    ∃ below, modes = .list :: below := by
  cases moves with
  | comma below => exact ⟨below, rfl⟩

theorem Moves.of_lineBreak {modes modes' : List Mode} (moves : Moves modes .lineBreak modes') :
    ∃ base, AtTop modes base ∧ modes' = .lineStart :: base := by
  cases moves with
  | lineBreak top => exact ⟨_, top, rfl⟩

theorem Moves.headD_of_finish {modes modes' : List Mode} (moves : Moves modes .finish modes') :
    modes'.headD .finished = .finished := by
  cases moves <;> rfl

theorem Moves.at_top {modes modes' : List Mode} {kind : Kind} (moves : Moves modes kind modes')
    (outer : kind = .head ∨ kind = .lineBreak) : ∃ base, AtTop modes base := by
  rcases outer with rfl | rfl
  · cases moves with
    | head top => exact ⟨_, top⟩
  · cases moves with
    | lineBreak top => exact ⟨_, top⟩

theorem FindsName.is_name {below later modes : List _} {kind : Kind} {text : List Char}
    (finds : FindsName below (.token kind text) later modes) : kind = .name ∧ modes = below := by
  cases finds <;> exact ⟨rfl, rfl⟩

theorem FindsTop.moves {blankLine : Bool} {modes base gap later modes' : List _} {kind : Kind}
    {text : List Char} (top : AtTop modes base)
    (finds : FindsTop blankLine base gap (.token kind text) later modes') :
    Moves modes kind modes' ∧ (kind = .finish → text = []) := by
  cases finds with
  | finish => exact ⟨.finish top, fun _ => rfl⟩
  | lineBreak => exact ⟨.lineBreak top, nofun⟩
  | openTemplate => exact ⟨.openTemplate top, nofun⟩
  | openList => exact ⟨.openList top, nofun⟩
  | head => exact ⟨.head top, nofun⟩
  | named _ _ _ finds =>
    obtain ⟨rfl, rfl⟩ := finds.is_name
    exact ⟨.title top, nofun⟩

/-- Whatever the input, tokens and modes keep to the table, and at the end there is no text. -/
theorem Finds.moves {blankLine : Bool} {modes gap later modes' : List _} {kind : Kind}
    {text : List Char} (finds : Finds blankLine modes gap (.token kind text) later modes') :
    Moves modes kind modes' ∧ (kind = .finish → text = []) := by
  cases finds with
  | top finds => exact finds.moves (.top _)
  | header => exact ⟨.head (.lineStart _), nofun⟩
  | lineStart other finds => exact finds.moves (.lineStart _)
  | template finds =>
    cases finds with
    | text => exact ⟨.text _, nofun⟩
    | close => exact ⟨.closeTemplate _, nofun⟩
    | hash => exact ⟨.hash _, nofun⟩
    | openList => exact ⟨.listInTemplate _, nofun⟩
  | name finds =>
    obtain ⟨rfl, rfl⟩ := finds.is_name
    exact ⟨.name _, nofun⟩
  | list finds =>
    cases finds with
    | openList => exact ⟨.listInList _, nofun⟩
    | openTemplate => exact ⟨.templateInList _, nofun⟩
    | comma => exact ⟨.comma _, nofun⟩
    | close => exact ⟨.closeList _, nofun⟩
    | text => exact ⟨.item _, nofun⟩
  | finished => exact ⟨.finished _, fun _ => rfl⟩
  | none => exact ⟨.none, fun _ => rfl⟩

/-- After the last token there is just the last token. -/
theorem Moves.finds_again {modes modes' : List Mode} (moves : Moves modes .finish modes')
    (blankLine : Bool) (later : List Char) :
    Finds blankLine modes' [] (.token .finish []) later modes' := by
  cases moves with
  | finish | finished => exact .finished
  | none => exact .none

/-- Where there is no token, the modes stay or there is the name that is still to be read. -/
inductive Stalls : List Mode → List Mode → Prop where
  | stay (modes : List Mode) : Stalls modes modes
  | title {modes base : List Mode} (top : AtTop modes base) : Stalls modes (.name :: base)

theorem FindsName.stalls {below later modes : List _} {found : Found}
    (finds : FindsName below found later modes) (fault : ∀ kind text, found ≠ .token kind text) :
    modes = .name :: below := by
  cases finds with
  | whole | trimmed => exact absurd rfl (fault _ _)
  | bad | unfinished => rfl

theorem Finds.stalls {blankLine : Bool} {modes gap later modes' : List _} {found : Found}
    (finds : Finds blankLine modes gap found later modes')
    (fault : ∀ kind text, found ≠ .token kind text) : Stalls modes modes' := by
  -- at the top level it is only a name that can fail to come
  have atTop {base : List Mode} (top : AtTop modes base)
      (finds : FindsTop blankLine base gap found later modes') : Stalls modes modes' := by
    cases finds with
    | finish | lineBreak | openTemplate | openList | head => exact absurd rfl (fault _ _)
    | named _ _ _ finds =>
      rw [finds.stalls fault]
      exact .title top
  cases finds with
  | top finds => exact atTop (.top _) finds
  | lineStart other finds => exact atTop (.lineStart _) finds
  | template finds =>
    cases finds with
    | text | close | hash | openList => exact absurd rfl (fault _ _)
    | unfinished => exact .stay _
  | name finds =>
    rw [finds.stalls fault]
    exact .stay _
  | list finds =>
    cases finds with
    | openList | openTemplate | comma | close | text => exact absurd rfl (fault _ _)
    | unfinished => exact .stay _
  | header | finished | none => exact absurd rfl (fault _ _)

/-- What is found in place of a fault when the scan is made again where it has left off: the bad
character, or nothing more of what is unfinished. -/
def Found.again : Found → Found
  | token kind text => token kind text
  | badCharacter char => badCharacter char
  | unfinished context _ => unfinished context []

theorem FindsName.again {below later modes : List _} {found : Found}
    (finds : FindsName below found later modes) (fault : ∀ kind text, found ≠ .token kind text)
    (blankLine : Bool) : Finds blankLine modes [] found.again later modes := by
  cases finds with
  | whole | trimmed => exact absurd rfl (fault _ _)
  | bad other => exact .name (.bad other)
  | unfinished => exact .name (.unfinished nofun nofun)

theorem FindsTop.again {blankLine : Bool} {base gap later modes : List _} {found : Found}
    (finds : FindsTop blankLine base gap found later modes)
    (fault : ∀ kind text, found ≠ .token kind text) (blankLine' : Bool) :
    Finds blankLine' modes [] found.again later modes := by
  cases finds with
  | finish | lineBreak | openTemplate | openList | head => exact absurd rfl (fault _ _)
  | named _ _ _ finds => exact finds.again fault blankLine'

/-- A bad character stays where it is, and what is unfinished has come to the end of the input. -/
theorem Finds.again {blankLine : Bool} {modes gap later modes' : List _} {found : Found}
    (finds : Finds blankLine modes gap found later modes')
    (fault : ∀ kind text, found ≠ .token kind text) (blankLine' : Bool) :
    Finds blankLine' modes' [] found.again later modes' := by
  cases finds with
  | top finds => exact finds.again fault blankLine'
  | lineStart other finds => exact finds.again fault blankLine'
  | template finds =>
    cases finds with
    | text | close | hash | openList => exact absurd rfl (fault _ _)
    | unfinished => exact .template (.unfinished nofun)
  | name finds => exact finds.again fault blankLine'
  | list finds =>
    cases finds with
    | openList | openTemplate | comma | close | text => exact absurd rfl (fault _ _)
    | unfinished => exact .list (.unfinished nofun nofun nofun)
  | header | finished | none => exact absurd rfl (fault _ _)

/-- What is left of the input behind a fault: the bad character is still there, and behind what is
unfinished there is nothing. -/
def Found.Leaves (found : Found) (later : List Char) : Prop :=
  match found with
  | token .. => True
  | badCharacter char => ∃ rest, later = char :: rest
  | unfinished .. => later = []

theorem FindsName.leaves {below later modes : List _} {found : Found}
    (finds : FindsName below found later modes) : found.Leaves later := by
  cases finds with
  | whole | trimmed => trivial
  | bad other => exact ⟨_, rfl⟩
  | unfinished => rfl

theorem FindsTop.leaves {blankLine : Bool} {base gap later modes : List _} {found : Found}
    (finds : FindsTop blankLine base gap found later modes) : found.Leaves later := by
  cases finds with
  | finish | lineBreak | openTemplate | openList | head => trivial
  | named _ _ _ finds => exact finds.leaves

theorem Finds.leaves {blankLine : Bool} {modes gap later modes' : List _} {found : Found}
    (finds : Finds blankLine modes gap found later modes') : found.Leaves later := by
  cases finds with
  | top finds => exact finds.leaves
  | lineStart other finds => exact finds.leaves
  | template finds =>
    cases finds with
    | text | close | hash | openList => trivial
    | unfinished => rfl
  | name finds => exact finds.leaves
  | list finds =>
    cases finds with
    | openList | openTemplate | comma | close | text => trivial
    | unfinished => rfl
  | header | finished | none => trivial

/-! ## Stacks -/

/-- The stacks in which everything that is open has been opened at the top level, with a list around
every template in a template. -/
inductive Nested : List Mode → Prop where
  | top : Nested [.top]
  | template {below : List Mode} (inner : Nested below) (apart : below.head? ≠ some .template) :
      Nested (.template :: below)
  | list {below : List Mode} (inner : Nested below) : Nested (.list :: below)

/-- The stacks that there are before the end of the input. -/
inductive Stacked : List Mode → Prop where
  | nested {modes : List Mode} (inner : Nested modes) : Stacked modes
  | lineStart : Stacked [.lineStart, .top]
  | name {below : List Mode} (inner : Nested (.template :: below)) :
      Stacked (.name :: .template :: below)

theorem Nested.of_template {below : List Mode} (nested : Nested (.template :: below)) :
    Nested below := by
  cases nested with
  | template inner apart => exact inner

theorem Nested.of_list {below : List Mode} (nested : Nested (.list :: below)) : Nested below := by
  cases nested with
  | list inner => exact inner

theorem AtTop.eq_top {modes base : List Mode} (top : AtTop modes base) (stacked : Stacked modes) :
    base = [.top] := by
  cases top with
  | top below =>
    cases stacked with
    | nested inner =>
      cases inner
      rfl
  | lineStart below =>
    cases stacked with
    | nested inner => cases inner
    | lineStart => rfl

theorem Stacked.nested_template {below : List Mode} (stacked : Stacked (.template :: below)) :
    Nested (.template :: below) := by
  cases stacked with
  | nested inner => exact inner

theorem Stacked.nested_list {below : List Mode} (stacked : Stacked (.list :: below)) :
    Nested (.list :: below) := by
  cases stacked with
  | nested inner => exact inner

/-- Every token but the last keeps the stack in order. -/
theorem Moves.stacked {modes modes' : List Mode} {kind : Kind} (moves : Moves modes kind modes')
    (stacked : Stacked modes) (real : kind ≠ .finish) : Stacked modes' := by
  cases moves with
  | finish | finished | none => exact absurd rfl real
  | lineBreak top =>
    rw [top.eq_top stacked]
    exact .lineStart
  | openTemplate top =>
    rw [top.eq_top stacked]
    exact .nested (.template .top nofun)
  | openList top =>
    rw [top.eq_top stacked]
    exact .nested (.list .top)
  -- neither opens anything, but a line start is used up
  | head top | title top =>
    rw [top.eq_top stacked]
    exact .nested .top
  | text below | item below | comma below => exact stacked
  | closeTemplate below => exact .nested stacked.nested_template.of_template
  | hash below => exact .name stacked.nested_template
  | listInTemplate below => exact .nested (.list stacked.nested_template)
  | name below =>
    cases stacked with
    | nested inner => cases inner
    | name inner => exact .nested inner
  | closeList below => exact .nested stacked.nested_list.of_list
  | templateInList below => exact .nested (.template stacked.nested_list nofun)
  | listInList below => exact .nested (.list stacked.nested_list)

/-- Only a line break leads to a line start. -/
theorem Moves.of_lineStart {modes modes' : List Mode} {kind : Kind}
    (moves : Moves modes kind modes') (stacked : Stacked modes)
    (lineStart : modes'.headD .finished = .lineStart) : kind = .lineBreak := by
  cases moves with
  | lineBreak => rfl
  | finish | openTemplate | openList | text | hash | listInTemplate | item | comma | templateInList
  | listInList | finished | none => cases lineStart
  | head top | title top =>
    rw [top.eq_top stacked] at lineStart
    cases lineStart
  -- there is never a line start below a template, a name or a list
  | closeTemplate below =>
    cases stacked.nested_template.of_template <;> cases lineStart
  | name below =>
    cases stacked with
    | nested inner => cases inner
    | name inner => cases lineStart
  | closeList below => cases stacked.nested_list.of_list <;> cases lineStart

/-- The character that every token of the kind is made of. -/
def Kind.sign? : Kind → Option Char
  | head => some '*'
  | openQuote | closeQuote => some '"'
  | openBracket => some '['
  | closeBracket => some ']'
  | comma => some ','
  | hash => some '#'
  | lineBreak => some '\n'
  | name | text | finish => none

theorem Finds.text_of_sign {blankLine : Bool} {modes gap text later modes' : List _} {kind : Kind}
    {char : Char} (finds : Finds blankLine modes gap (.token kind text) later modes')
    (signed : kind.sign? = some char) : text = [char] := by
  have atTop : ∀ {base}, FindsTop blankLine base gap (.token kind text) later modes' →
      text = [char] := by
    intro base finds
    cases finds with
    | lineBreak | openTemplate | openList | head => cases signed; rfl
    | finish => cases signed
    | named _ _ _ finds =>
      rw [finds.is_name.1] at signed
      cases signed
  cases finds with
  | top finds => exact atTop finds
  | header => cases signed; rfl
  | lineStart other finds => exact atTop finds
  | template finds =>
    cases finds with
    | close | hash | openList => cases signed; rfl
    | text => cases signed
  | name finds =>
    rw [finds.is_name.1] at signed
    cases signed
  | list finds =>
    cases finds with
    | openList | openTemplate | comma | close => cases signed; rfl
    | text => cases signed
  | finished | none => cases signed

/-- The input only ends at the top level, behind some space. -/
theorem Finds.of_finish {blankLine : Bool} {modes gap text later modes' : List _}
    (finds : Finds blankLine modes gap (.token .finish text) later modes')
    (stacked : Stacked modes) :
    AtTop modes [.top] ∧ Every isSpace gap ∧ text = [] ∧ later = [] := by
  have ends : ∀ {base}, AtTop modes base →
      FindsTop blankLine base gap (.token .finish text) later modes' →
      AtTop modes [.top] ∧ Every isSpace gap ∧ text = [] ∧ later = [] := by
    intro base top finds
    cases finds with
    | finish skipped => exact ⟨top.eq_top stacked ▸ top, skipped, rfl, rfl⟩
    | named _ _ _ finds => cases finds
  cases finds with
  | top finds => exact ends (.top _) finds
  | lineStart other finds => exact ends (.lineStart _) finds
  | template finds => cases finds
  | name finds => cases finds
  | list finds => cases finds
  | finished =>
    cases stacked with
    | nested inner => cases inner
  | none =>
    cases stacked with
    | nested inner => cases inner

end TextGrammar
