import TextGrammar.Proofs.Token.Splicing
import TextGrammar.Proofs.Tree.Joining

/-!
# Scanning a padded source

When space is put into a source where a scanner stands between two tokens, the tokens in front of it
are given again, or the last of them is an item that takes the space in. Behind it the scanner is
where it was: the next token is the same, and so are all others, but that on a fresh line the line
breaks that have been put in come first.
-/
namespace TextGrammar
namespace Scanner

variable {scanner scanner' middle after : Scanner} {tokens : List Token} {token : Token}
  {modes base below : List Mode} {blankLine blankLine' : Bool} {rest back padding : List Char}

theorem Faces.agrees (here : scanner.Faces modes blankLine rest)
    (there : scanner'.Faces modes blankLine rest) : scanner.Agrees scanner' := by
  refine ⟨there.rest.trans here.rest.symm, there.blank.trans here.blank.symm, ?_⟩
  rw [there.modes, there.blank, there.rest, here.modes, here.blank, here.rest]

/-- What one call does to what is ahead. -/
theorem Faces.cut (here : scanner.Faces modes blankLine rest)
    (found : scanner.next = (.ok token, after)) :
    ∃ gap text later, rest = gap ++ (text ++ later) ∧
      Finds blankLine modes gap (.token token.kind text) later after.modes ∧
      token.lexeme = String.ofList text ∧
      after.Faces after.modes (blankAfter blankLine (gap ++ text)) later := by
  obtain ⟨rfl, rfl, rfl⟩ := here
  obtain ⟨gap, text, later, cuts⟩ := next_ok_iff.mp found
  exact ⟨gap, text, later, cuts.rest, cuts.finds, cuts.lexeme, rfl, cuts.blank, cuts.left⟩

theorem Gives.ahead (gives : scanner.Gives tokens after) (unended : Unended tokens) :
    ∃ front, scanner.cursor.rest = front ++ after.cursor.rest ∧ (tokens ≠ [] → front ≠ []) := by
  induction gives with
  | nil scanner => exact ⟨[], rfl, absurd rfl⟩
  | cons found rest ih =>
    obtain ⟨real, others⟩ := List.forall_mem_cons.mp unended
    obtain ⟨front, ahead, _⟩ := ih others
    obtain ⟨gap, text, later, whole, finds, _, faces⟩ := (faces_self _).cut found
    refine ⟨gap ++ (text ++ front), ?_, fun _ => ?_⟩
    · rw [whole, ← faces.rest, ahead]
      simp
    · exact List.append_ne_nil_of_right_ne_nil gap
        (List.append_ne_nil_of_left_ne_nil (finds.text_ne_nil real) front)

/-- When the text is changed somewhere behind some tokens, they are given again. The change does not
come right behind a text, nor does it begin with what could belong to a name. -/
theorem Gives.change {keep back' : List Char} (gives : scanner.Gives tokens middle)
    (unended : Unended tokens) (stops : Stops isNameChar back')
    (kept : middle.cursor.rest = keep ++ back)
    (inner : keep ≠ [] ∨ ∀ last ∈ tokens.getLast?, last.kind ≠ .text) {front : List Char}
    (here : scanner.Faces modes blankLine (front ++ back))
    (there : scanner'.Faces modes blankLine (front ++ back')) :
    ∃ tokens' middle', scanner'.Gives tokens' middle' ∧ SameWords tokens tokens' ∧
      middle'.Faces middle.modes middle.cursor.onBlankLine (keep ++ back') := by
  induction gives generalizing scanner' modes blankLine front with
  | nil scanner =>
    obtain ⟨rfl, rfl, rest⟩ := here
    obtain rfl : front = keep := List.append_cancel_right (rest.symm.trans kept)
    exact ⟨[], scanner', .nil scanner', rfl, there⟩
  | @cons scanner next middle token tokens found later ih =>
    obtain ⟨real, others⟩ := List.forall_mem_cons.mp unended
    obtain ⟨gap, text, rest, whole, finds, lexeme, faces⟩ := here.cut found
    obtain ⟨passed, ahead, nonempty⟩ := later.ahead others
    have left : rest = passed ++ keep ++ back := by
      rw [← faces.rest, ahead, kept, List.append_assoc]
    rw [left] at whole finds faces
    obtain rfl : front = gap ++ (text ++ (passed ++ keep)) :=
      List.append_cancel_right (whole.trans (by simp))
    -- a text right in front of what differs might go on into it
    have apart : passed ++ keep ≠ [] ∨ token.kind ≠ .text := by
      cases tokens with
      | nil =>
        rcases inner with kept | last
        · exact .inl (List.append_ne_nil_of_right_ne_nil passed kept)
        · exact .inr (last token rfl)
      | cons second tokens =>
        exact .inl (List.append_ne_nil_of_left_ne_nil (nonempty (List.cons_ne_nil _ _)) keep)
    have inner' : keep ≠ [] ∨ ∀ last ∈ tokens.getLast?, last.kind ≠ .text := by
      refine inner.imp_right fun last => ?_
      cases tokens with
      | nil => exact nofun
      | cons second tokens => simpa using last
    have there' : scanner'.Faces modes blankLine (gap ++ (text ++ (passed ++ keep ++ back'))) := by
      simpa using there
    obtain ⟨token', next', found', kind, lexeme', faces'⟩ :=
      there'.next (finds.change real stops apart)
    obtain ⟨tokens', middle', gives', words, last⟩ := ih others kept inner' faces faces'
    exact ⟨token' :: tokens', middle', .cons found' gives',
      sameWords_cons_iff.mpr ⟨token', tokens', rfl, kind, lexeme'.trans lexeme.symm, words⟩, last⟩

/-- The scanner has a token like this one to give, and goes on as the one that is left behind it. -/
def Resumes (scanner : Scanner) (token : Token) (after : Scanner) : Prop :=
  ∃ token' after', scanner.next = (.ok token', after') ∧ token'.kind = token.kind ∧
    token'.lexeme = token.lexeme ∧ after.Agrees after'

/-- A token is found as it was, behind some other gap, and the line is as blank as it was. -/
theorem Faces.resumes {modes' : List Mode} {gap gap' text later : List Char}
    (faces : after.Faces after.modes (blankAfter blankLine (gap ++ text)) later)
    (lexeme : token.lexeme = String.ofList text)
    (there : scanner'.Faces modes' blankLine' (gap' ++ (text ++ later)))
    (finds : Finds blankLine' modes' gap' (.token token.kind text) later after.modes)
    (blank : blankAfter blankLine' (gap' ++ text) = blankAfter blankLine (gap ++ text)) :
    scanner'.Resumes token after := by
  obtain ⟨token', after', found', kind, lexeme', faces'⟩ := there.next finds
  rw [blank] at faces'
  exact ⟨token', after', found', kind, lexeme'.trans lexeme.symm, faces.agrees faces'⟩

theorem resumes_in_list (here : scanner.Faces (.list :: below) blankLine rest)
    (there : scanner'.Faces (.list :: below) blankLine' (padding ++ rest))
    (spaces : Every isListSpace padding) (found : scanner.next = (.ok token, after)) :
    scanner'.Resumes token after := by
  obtain ⟨gap, text, later, rfl, finds, lexeme, faces⟩ := here.cut found
  rw [← List.append_assoc] at there
  cases finds with
  | list finds =>
    refine faces.resumes lexeme there (.list (finds.pad spaces)) ?_
    -- the text of the token settles whether the line is blank
    obtain ⟨char, member, solid⟩ := finds.solid
    rw [blankAfter_append blankLine', blankAfter_append blankLine]
    exact blankAfter_solid member solid _ _

theorem resumes_at_top (here : scanner.Faces (.top :: below) blankLine rest)
    (there : scanner'.Faces (.top :: below) blankLine (padding ++ rest))
    (spaces : Every isSpace padding) (found : scanner.next = (.ok token, after)) :
    scanner'.Resumes token after := by
  obtain ⟨gap, text, later, rfl, finds, lexeme, faces⟩ := here.cut found
  rw [← List.append_assoc] at there
  cases finds with
  | top finds =>
    exact faces.resumes lexeme there (.top (finds.pad spaces)) (blankAfter_pad spaces ..)

theorem resumes_at_fresh_line {modes' : List Mode} (top : AtTop modes base)
    (top' : AtTop modes' base) (here : scanner.Faces modes true rest)
    (there : scanner'.Faces modes' true (padding ++ rest)) (spaces : Every isSpace padding)
    (found : scanner.next = (.ok token, after)) : scanner'.Resumes token after := by
  obtain ⟨gap, text, later, rfl, finds, lexeme, faces⟩ := here.cut found
  rw [← List.append_assoc] at there
  have padded := ((top.finds_iff fun _ => rfl).mp finds).pad spaces
  have found' := (top'.finds_iff fun _ => rfl).mpr padded
  exact faces.resumes lexeme there found' (blankAfter_pad spaces ..)

/-- On a fresh line each line break that is put in is a token, and the line is fresh again. -/
theorem gives_breaks {modes' : List Mode} (top : AtTop modes base) (top' : AtTop modes' base)
    (here : scanner.Faces modes true rest) {spaces : List Char}
    (there : scanner'.Faces modes' true (spaces ++ (padding ++ rest)))
    (skipped : Every isSpace spaces) (filling : Every isListSpace padding)
    (found : scanner.next = (.ok token, after)) :
    ∃ breaks fresh, scanner'.Gives breaks fresh ∧ AllBreaks breaks ∧ fresh.Resumes token after := by
  induction padding generalizing scanner' modes' spaces with
  | nil =>
    exact ⟨[], scanner', .nil scanner', nofun,
      resumes_at_fresh_line top top' here there skipped found⟩
  | cons char padding ih =>
    obtain ⟨first, others⟩ := List.forall_mem_cons.mp filling
    by_cases isBreak : char = '\n'
    · subst isBreak
      -- the line feed is a token of its own, and behind it the scanner is as before
      have broken : scanner'.Faces modes' true (spaces ++ (['\n'] ++ (padding ++ rest))) := there
      obtain ⟨line, next, found', kind, _, faces⟩ :=
        broken.next (top'.finds_lineBreak true skipped _)
      rw [blankAfter_append, blankAfter_lineBreak] at faces
      have again : next.Faces (.lineStart :: base) true ([] ++ (padding ++ rest)) := faces
      obtain ⟨breaks, fresh, gives, blank, resumes⟩ := ih (.lineStart base) again nofun others
      exact ⟨line :: breaks, fresh, .cons found' gives,
        List.forall_mem_cons.mpr ⟨kind, blank⟩, resumes⟩
    · have space : isSpace char = true := by
        simpa [isListSpace, isBreak] using first
      -- the space joins those that are skipped before the next token
      have ordered : spaces ++ (char :: padding ++ rest) =
          spaces ++ [char] ++ (padding ++ rest) := by simp
      rw [ordered] at there
      exact ih top' there (skipped.append (List.forall_mem_singleton.mpr space)) others

theorem isItemText_of_isListSpace {char : Char} (space : isListSpace char = true) :
    isItemText char = true := by
  simp only [isListSpace, isSpace, Bool.or_eq_true, decide_eq_true_eq] at space
  rcases space with ((rfl | rfl) | rfl) | rfl <;> rfl

/-- Space behind an item is taken into it. -/
theorem finds_item (here : scanner.Faces modes blankLine rest)
    (found : scanner.next = (.ok token, middle)) (kind : token.kind = .text)
    (inside : middle.modes = .list :: below) :
    modes = .list :: below ∧ ∃ gap text, rest = gap ++ (text ++ middle.cursor.rest) ∧ text ≠ [] ∧
      token.lexeme = String.ofList text ∧ ∀ padding, Every isListSpace padding →
        FindsList below gap (.token .text (text ++ padding)) middle.cursor.rest
          (.list :: below) := by
  obtain ⟨gap, text, later, rfl, finds, lexeme, faces⟩ := here.cut found
  rw [kind, inside] at finds
  have solid := finds.text_ne_nil nofun
  cases finds.moves.1 with
  | item =>
    refine ⟨rfl, gap, text, by rw [faces.rest], solid, lexeme, fun padding spaces => ?_⟩
    rw [faces.rest]
    cases finds with
    | list finds =>
      cases finds with
      | text skipped starts plain stops =>
        exact .text skipped starts (plain.append (spaces.imp fun _ => isItemText_of_isListSpace))
          stops

section Source

variable {file source : String}

/-- At the beginning and behind a line break the line is fresh. -/
theorem Gives.fresh (gives : (ofSource file source).Gives tokens middle) (unended : Unended tokens)
    (broken : ∀ last ∈ tokens.getLast?, last.kind = .lineBreak) :
    AtTop middle.modes [.top] ∧ middle.cursor.onBlankLine = true := by
  rcases tokens.eq_nil_or_concat' with rfl | ⟨front, last, rfl⟩
  · rw [gives_nil_iff.mp gives]
    exact ⟨.top [], rfl⟩
  · obtain ⟨before, gives, given⟩ := gives_append_iff.mp gives
    have stacked := gives.stacked (List.forall_mem_append.mp unended).1
    obtain ⟨gap, text, later, _, finds, _, faces⟩ :=
      (faces_self before).cut (gives_singleton_iff.mp given)
    rw [broken last (by simp)] at finds
    obtain ⟨base, top, modes⟩ := finds.moves.1.of_lineBreak
    rw [top.eq_top stacked] at modes
    obtain rfl := finds.text_of_sign rfl
    refine ⟨modes ▸ .lineStart [.top], ?_⟩
    rw [faces.blank, blankAfter_append, blankAfter_lineBreak]

theorem Gives.broken (gives : (ofSource file source).Gives tokens middle) (unended : Unended tokens)
    (lineStart : middle.mode = .lineStart) : ∀ last ∈ tokens.getLast?, last.kind = .lineBreak := by
  rcases tokens.eq_nil_or_concat' with rfl | ⟨front, last, rfl⟩
  · exact nofun
  · obtain ⟨before, gives, given⟩ := gives_append_iff.mp gives
    have stacked := gives.stacked (List.forall_mem_append.mp unended).1
    have moves := moves_of_next (gives_singleton_iff.mp given)
    have broken := moves.of_lineStart stacked lineStart
    simpa using broken

/-! ## Where the padding is -/

/-- The scanner of a source stands behind these tokens, and another source is the same with some
space put in there. -/
structure Inserts (file source source' : String) (tokens : List Token) (middle : Scanner)
    (padding : List Char) : Prop where
  gives : (ofSource file source).Gives tokens middle
  unended : Unended tokens
  spaces : Every isListSpace padding
  nonempty : padding ≠ []
  around : ∃ read, source.toList = read ++ middle.cursor.rest ∧
    source'.toList = read ++ (padding ++ middle.cursor.rest)

variable {source' : String}

theorem ofSource_faces (file : String) {source : String} {text : List Char}
    (whole : source.toList = text) : (ofSource file source).Faces [.top] true text :=
  ⟨rfl, rfl, whole⟩

theorem not_name_of_isListSpace {char : Char} (space : isListSpace char = true) :
    isNameChar char = false := by
  simp only [isListSpace, isSpace, Bool.or_eq_true, decide_eq_true_eq] at space
  rcases space with ((rfl | rfl) | rfl) | rfl <;> rfl

theorem Inserts.stops (inserts : Inserts file source source' tokens middle padding) :
    Stops isNameChar (padding ++ middle.cursor.rest) := by
  obtain ⟨first, others, rfl⟩ := List.exists_cons_of_ne_nil inserts.nonempty
  exact .of_head (not_name_of_isListSpace (inserts.spaces first List.mem_cons_self))

/-- Behind tokens of which the last is no text, the scanner stands in front of the padding. -/
theorem Inserts.told (inserts : Inserts file source source' tokens middle padding)
    (closed : ∀ last ∈ tokens.getLast?, last.kind ≠ .text) :
    ∃ told middle', (ofSource file source').Gives told middle' ∧ SameWords tokens told ∧
      middle'.Faces middle.modes middle.cursor.onBlankLine (padding ++ middle.cursor.rest) := by
  obtain ⟨read, whole, whole'⟩ := inserts.around
  have kept : middle.cursor.rest = [] ++ middle.cursor.rest := rfl
  have changed := inserts.gives.change inserts.unended inserts.stops kept (.inr closed)
    (ofSource_faces file whole) (ofSource_faces file whole')
  exact changed

/-- An item in front of the padding takes it in. -/
theorem Inserts.told_item {last : Token}
    (inserts : Inserts file source source' (tokens ++ [last]) middle padding)
    (inside : middle.modes = .list :: below) (text : last.kind = .text) :
    ∃ told before item middle' blankLine, (ofSource file source').Gives told before ∧
      SameWords tokens told ∧ before.modes = .list :: below ∧
      before.next = (.ok item, middle') ∧ item.kind = .text ∧
      item.lexeme = last.lexeme ++ String.ofList padding ∧
      middle'.Faces (.list :: below) blankLine middle.cursor.rest := by
  obtain ⟨read, whole, whole'⟩ := inserts.around
  obtain ⟨before, early, given⟩ := gives_append_iff.mp inserts.gives
  have unended := (List.forall_mem_append.mp inserts.unended).1
  obtain ⟨modes, gap, letters, ahead, solid, lexeme, finds⟩ :=
    finds_item (faces_self before) (gives_singleton_iff.mp given) text inside
  have kept : before.cursor.rest = gap ++ letters ++ middle.cursor.rest := by
    rw [ahead, List.append_assoc]
  have apart : gap ++ letters ≠ [] := List.append_ne_nil_of_right_ne_nil gap solid
  -- the tokens before the item are those of the source, for the item is still behind them
  obtain ⟨told, before', early', words, faces⟩ := early.change unended inserts.stops kept
    (.inl apart) (ofSource_faces file whole) (ofSource_faces file whole')
  have ordered : gap ++ letters ++ (padding ++ middle.cursor.rest) =
      gap ++ (letters ++ padding ++ middle.cursor.rest) := by simp
  rw [ordered, modes] at faces
  obtain ⟨item, middle', found, kind, lexeme', faces'⟩ :=
    faces.next (.list (finds padding inserts.spaces))
  have longer : item.lexeme = last.lexeme ++ String.ofList padding := by
    rw [lexeme', lexeme, String.ofList_append]
  exact ⟨told, before', item, middle', _, early', words, faces.modes, found, kind, longer, faces'⟩

end Source
end Scanner
end TextGrammar
