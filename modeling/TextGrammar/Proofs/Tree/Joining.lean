import TextGrammar.Proofs.Token.Extension
import TextGrammar.Proofs.Tree.Parsing
import TextGrammar.Proofs.Tree.Shape

/-!
# Sources put together

Two sources that are parsed can be put together with a line break between them. The scanner gives
the tokens of the first up to its end; there it stands at the top level with nothing but space left,
so the line break is a token of its own, and behind it the second source is scanned as if it came
first. Only the places of its tokens are other ones, which does not show in the shape of the tree.
-/
namespace TextGrammar

/-! ## Scanners that stand before the same text -/

namespace Cursor

theorem pass_agree {cursor cursor' : Cursor} (rest : cursor'.rest = cursor.rest)
    (blank : cursor'.onBlankLine = cursor.onBlankLine) (count : Nat) :
    (cursor'.pass count).rest = (cursor.pass count).rest ∧
      (cursor'.pass count).onBlankLine = (cursor.pass count).onBlankLine := by
  induction count generalizing cursor cursor' with
  | zero => exact ⟨rest, blank⟩
  | succ count ih =>
    rw [pass, pass, rest]
    cases split : cursor.rest with
    | nil => exact ⟨rest, blank⟩
    | cons char later => exact ih rfl (by simp [step, blank])

end Cursor

namespace Scanner

/-- The next scan is the same, and so are all others after it. Where the scanners are in their files
does not matter. -/
structure Agrees (scanner scanner' : Scanner) : Prop where
  rest : scanner'.cursor.rest = scanner.cursor.rest
  blank : scanner'.cursor.onBlankLine = scanner.cursor.onBlankLine
  scan : scan scanner'.cursor.onBlankLine scanner'.modes scanner'.cursor.rest =
    scan scanner.cursor.onBlankLine scanner.modes scanner.cursor.rest

theorem Agrees.next {scanner scanner' after : Scanner} {token : Token}
    (agrees : scanner.Agrees scanner') (found : scanner.next = (.ok token, after)) :
    ∃ token' after', scanner'.next = (.ok token', after') ∧ token'.kind = token.kind ∧
      token'.lexeme = token.lexeme ∧ after.Agrees after' := by
  simp only [Scanner.next, Prod.mk.injEq] at found
  obtain ⟨reported, rfl⟩ := found
  obtain ⟨text, isToken, lexeme⟩ := found_of_report reported
  simp only [Scanner.next, agrees.scan]
  generalize TextGrammar.scan scanner.cursor.onBlankLine scanner.modes scanner.cursor.rest = scan
    at isToken ⊢
  obtain ⟨rest, blank⟩ := Cursor.pass_agree agrees.rest agrees.blank scan.gap.length
  obtain ⟨rest', blank'⟩ := Cursor.pass_agree rest blank scan.found.taken.length
  refine ⟨_, _, Prod.ext (congrArg (report _ _) isToken) rfl, rfl, lexeme.symm, rest', blank', ?_⟩
  dsimp only
  rw [rest', blank']

theorem Agrees.gives {scanner scanner' after : Scanner} {tokens : List Token}
    (agrees : scanner.Agrees scanner') (gives : scanner.Gives tokens after) :
    ∃ tokens' after', scanner'.Gives tokens' after' ∧ SameWords tokens tokens' := by
  induction gives generalizing scanner' with
  | nil scanner => exact ⟨[], scanner', .nil _, rfl⟩
  | cons found rest ih =>
    obtain ⟨token', middle', found', kind, lexeme, agrees⟩ := agrees.next found
    obtain ⟨tokens', after', rest', words⟩ := ih agrees
    exact ⟨token' :: tokens', after', .cons found' rest',
      sameWords_cons_iff.mpr ⟨token', tokens', rfl, kind, lexeme, words⟩⟩

end Scanner

/-! ## The end of a source -/

theorem AtTop.finds_lineBreak {modes base : List Mode} (top : AtTop modes base) (blankLine : Bool)
    {gap : List Char} (skipped : Every isSpace gap) (later : List Char) :
    Finds blankLine modes gap (.token .lineBreak ['\n']) later (.lineStart :: base) := by
  cases top with
  | top below => exact .top (.lineBreak skipped)
  | lineStart below =>
    refine .lineStart ?_ (.lineBreak skipped)
    cases gap with
    | nil => simp [Found.taken]
    | cons char gap =>
      -- a space is no star
      have space : isSpace char = true := skipped char List.mem_cons_self
      rintro ⟨rfl⟩
      cases space

namespace Scanner

/-- Behind the end of a source and a line break, another source is scanned as from its beginning. -/
theorem gives_seam {file first : String} {front : List Token} {stop : Token}
    {middle after : Scanner} (gives : (ofSource file first).Gives front middle)
    (unended : Unended front) (ended : middle.next = (.ok stop, after))
    (finished : stop.kind = .finish) (second : String) :
    ∃ line fresh, (ofSource file (first ++ "\n" ++ second)).Gives (front ++ [line]) fresh ∧
      line.kind = .lineBreak ∧ (ofSource file second).Agrees fresh := by
  obtain ⟨gap, text, later, cuts⟩ := next_ok_iff.mp ended
  have finds := cuts.finds
  rw [finished] at finds
  obtain ⟨top, skipped, rfl, rfl⟩ := finds.of_finish (gives.stacked unended)
  have extended := gives.extend unended ('\n' :: second.toList)
  have whole : first ++ "\n" ++ second = first ++ ("\n" ++ second) := String.append_assoc
  have tail : ("\n" ++ second).toList = '\n' :: second.toList := by simp
  rw [whole, ofSource_append, tail]
  -- the line break is found where the end was found, behind the same space
  let start := (middle.extend ('\n' :: second.toList)).cursor.pass gap.length
  let fresh : Scanner := ⟨middle.file, start.pass 1, [.lineStart, .top]⟩
  have rest : (middle.extend ('\n' :: second.toList)).cursor.rest =
      gap ++ (['\n'] ++ second.toList) := by
    simp [extend, Cursor.extend, cuts.rest]
  have cuts' : (middle.extend ('\n' :: second.toList)).Cuts gap ['\n'] second.toList
      ⟨.lineBreak, "\n", start.locate middle.file ['\n']⟩ fresh :=
    ⟨rest, top.finds_lineBreak _ skipped _, rfl, rfl, rfl, rfl⟩
  refine ⟨_, fresh, extended.snoc (next_ok_iff.mpr ⟨_, _, _, cuts'⟩), rfl, ?_⟩
  have left : fresh.cursor.rest = second.toList := cuts'.left
  have blank : fresh.cursor.onBlankLine = true := by
    have startRest : start.rest = '\n' :: second.toList := by
      simp [start, Cursor.rest_pass, rest]
    simp [fresh, Cursor.pass, startRest, Cursor.step]
  refine ⟨left, blank, ?_⟩
  rw [left, blank]
  exact scanLineStart_fresh [.top] second.toList

end Scanner

/-! ## Sentences put together -/

section Sentences

variable {breaks : Bool}

theorem SpellsBlocks.append {tokens gap tokens' : List Token} {first : Token}
    {blocks blocks' : List Block} (before : SpellsBlocks breaks tokens blocks)
    (broken : first.kind = .lineBreak) (blank : AllBreaks gap)
    (behind : SpellsBlocks breaks tokens' blocks') :
    SpellsBlocks breaks (tokens ++ first :: (gap ++ tokens')) (blocks ++ blocks') := by
  induction behind with
  | single only => exact .snoc before broken blank only
  | snoc _ broken' blank' last ih =>
    have spelt := SpellsBlocks.snoc ih broken' blank' last
    simpa using spelt

/-- What a sentence is without the last token: either it has no blocks, or there are line breaks
around its blocks. -/
theorem SpellsDocument.front_cases {front : List Token} {stop : Token} {document : Document}
    (spelt : SpellsDocument breaks (front ++ [stop]) document) :
    (AllBreaks front ∧ document = ⟨[]⟩) ∨
      ∃ leading inner trailing blocks, front = leading ++ (inner ++ trailing) ∧
        AllBreaks leading ∧ SpellsBlocks breaks inner blocks ∧ AllBreaks trailing ∧
        document = ⟨blocks⟩ := by
  generalize split : front ++ [stop] = tokens at spelt
  cases spelt with
  | empty blank blank' finished =>
    rw [← List.append_assoc] at split
    obtain ⟨rfl, _⟩ := List.append_inj' split rfl
    exact .inl ⟨List.forall_mem_append.mpr ⟨blank, blank'⟩, rfl⟩
  | blocks blank inner blank' finished =>
    rw [← List.append_assoc, ← List.append_assoc] at split
    obtain ⟨rfl, _⟩ := List.append_inj' split rfl
    exact .inr ⟨_, _, _, _, List.append_assoc .., blank, inner, blank', rfl⟩

/-- A line break between two sentences makes one sentence of them. -/
theorem SpellsDocument.join {front tokens : List Token} {stop line : Token}
    {document document' : Document} (spelt : SpellsDocument breaks (front ++ [stop]) document)
    (broken : line.kind = .lineBreak) (spelt' : SpellsDocument breaks tokens document') :
    SpellsDocument breaks (front ++ line :: tokens) ⟨document.blocks ++ document'.blocks⟩ := by
  have apart : ∀ {gap gap' : List Token}, AllBreaks gap → AllBreaks gap' →
      AllBreaks (gap ++ line :: gap') := fun blank blank' =>
    List.forall_mem_append.mpr ⟨blank, List.forall_mem_cons.mpr ⟨broken, blank'⟩⟩
  rcases spelt.front_cases with ⟨blank, rfl⟩ |
    ⟨leading, inner, trailing, blocks, rfl, blank, only, blank', rfl⟩
  · cases spelt' with
    | empty leading trailing finished =>
      have whole : SpellsDocument breaks _ _ := .empty (apart blank leading) trailing finished
      simpa using whole
    | blocks leading spelt' trailing finished =>
      have whole := SpellsDocument.blocks (apart blank leading) spelt' trailing finished
      simpa using whole
  · cases spelt' with
    | @empty leading' trailing' stop' leads trails finished =>
      have whole := SpellsDocument.blocks blank only
        (apart blank' (List.forall_mem_append.mpr ⟨leads, trails⟩)) finished
      simpa using whole
    | @blocks leading' inner' trailing' stop' blocks' leads spelt' trails finished =>
      -- one of the line breaks in between comes first
      obtain ⟨first, gap, between⟩ := List.exists_cons_of_ne_nil
        (List.append_ne_nil_of_right_ne_nil trailing (List.cons_ne_nil line leading'))
      have gapped := apart blank' leads
      rw [between] at gapped
      obtain ⟨broken', rest⟩ := List.forall_mem_cons.mp gapped
      have whole := SpellsDocument.blocks blank (only.append broken' rest spelt') trails finished
      have ordered : leading ++ (inner ++ first :: (gap ++ inner') ++ (trailing' ++ [stop'])) =
          leading ++ (inner ++ (first :: gap) ++ inner' ++ (trailing' ++ [stop'])) := by simp
      rw [ordered, ← between] at whole
      simpa using whole

end Sentences

/-- Two sources that are parsed make one with a line break between them, and its blocks are those of
the first source followed by blocks that are alike those of the second. -/
theorem parse_join {file first second : String} {document document' : Document}
    (parsed : parse file first = .ok document) (parsed' : parse file second = .ok document') :
    ∃ blocks, parse file (first ++ "\n" ++ second) = .ok ⟨document.blocks ++ blocks⟩ ∧
      Document.alike ⟨blocks⟩ document' = true := by
  obtain ⟨tokens, all, spelt⟩ := spells_of_parse parsed
  obtain ⟨tokens', all', spelt'⟩ := spells_of_parse parsed'
  obtain ⟨front, stop, after, rfl, unended, finished, gives⟩ := Scanner.tokens_ok_iff.mp all
  obtain ⟨front', stop', after', rfl, unended', finished', gives'⟩ := Scanner.tokens_ok_iff.mp all'
  obtain ⟨middle, before, last⟩ := Scanner.gives_append_iff.mp gives
  obtain ⟨line, fresh, seam, broken, agrees⟩ := Scanner.gives_seam before unended
    (Scanner.gives_singleton_iff.mp last) finished second
  obtain ⟨tokens, end', behind, words⟩ := agrees.gives gives'
  obtain ⟨⟨blocks⟩, retold, alike⟩ := spelt'.retold words
  obtain ⟨back, ends, rfl, early, late⟩ := sameWords_append_iff.mp words
  obtain ⟨stop'', rfl, kind, _⟩ := sameWords_singleton_iff.mp late
  -- the first source's last token has given way to the line break
  have given := Scanner.gives_append_iff.mpr ⟨fresh, seam, behind⟩
  rw [List.append_assoc, List.singleton_append, ← List.cons_append, ← List.append_assoc] at given
  have real : line.kind ≠ .finish := by simp [broken]
  have others := early.forall_kind (· ≠ .finish) unended'
  have whole : Unended (front ++ line :: back) :=
    List.forall_mem_append.mpr ⟨unended, List.forall_mem_cons.mpr ⟨real, others⟩⟩
  have scanned := Scanner.tokens_ok_iff.mpr ⟨_, _, _, rfl, whole, kind.trans finished', given⟩
  have joined := spelt.join broken retold
  rw [← List.cons_append, ← List.append_assoc] at joined
  exact ⟨blocks, parse_of_spells scanned joined, alike⟩

theorem parse_join_list :
    ∃ document document' blocks, parse "" "*a\n[b] " = .ok document ∧
      parse "" "*c\n\"#a\"" = .ok document' ∧
      parse "" ("*a\n[b] " ++ "\n" ++ "*c\n\"#a\"") = .ok ⟨document.blocks ++ blocks⟩ ∧
      Document.alike ⟨blocks⟩ document' = true := by
  obtain ⟨document, parsed⟩ : ∃ document, parse "" "*a\n[b] " = .ok document :=
    ⟨_, parse_of_firsts 6 rfl rfl (by decide) rfl rfl rfl⟩
  obtain ⟨document', parsed'⟩ : ∃ document, parse "" "*c\n\"#a\"" = .ok document :=
    ⟨_, parse_of_firsts 7 rfl rfl (by decide) rfl rfl rfl⟩
  obtain ⟨blocks, joined, alike⟩ := parse_join parsed parsed'
  exact ⟨document, document', blocks, parsed, parsed', joined, alike⟩

end TextGrammar
