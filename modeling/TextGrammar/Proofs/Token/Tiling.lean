import TextGrammar.Proofs.Token.Stream

/-!
# Tokens tile the source

A scanner cuts its source into pieces, a gap and the text of a token each, and there is nothing
between one piece and the next: where a name gives joiners back to the text behind it, the offset is
where the name ends. What a gap can be made of depends on the mode. Nothing is left of a source when
all its tokens have been read.
-/
namespace TextGrammar

/-! ## Offsets -/

/-- The cursor stands behind `read` in `source`. -/
structure Cursor.Past (source read : List Char) (cursor : Cursor) : Prop where
  text : cursor.source = source
  whole : read ++ cursor.rest = source
  offset : cursor.offset = read.length

theorem Cursor.Past.ofSource (source : List Char) : (Cursor.ofSource source).Past source [] :=
  ⟨rfl, rfl, rfl⟩

theorem Cursor.Past.drop_offset {source read : List Char} {cursor : Cursor}
    (past : cursor.Past source read) : source.drop cursor.offset = cursor.rest := by
  rw [← past.whole, past.offset, List.drop_left]

theorem Cursor.Past.pass {source read text later : List Char} {cursor : Cursor}
    (past : cursor.Past source read) (ahead : cursor.rest = text ++ later) :
    (cursor.pass text.length).Past source (read ++ text) := by
  induction text generalizing cursor read with
  | nil => simpa [Cursor.pass] using past
  | cons char text ih =>
    have next : (cursor.step char (text ++ later)).Past source (read ++ [char]) := by
      refine ⟨past.text, ?_, ?_⟩
      · rw [← past.whole, ahead]
        simp [step]
      · simp [step, past.offset]
    have moved := ih next rfl
    rw [List.length_cons, Cursor.pass, ahead]
    simpa using moved

/-! ## Pieces -/

/-- What one call uses up: the gap that it skips, and the token that it gives. -/
structure Piece where
  gap : List Char
  token : Token

def Piece.text (piece : Piece) : List Char := piece.gap ++ piece.token.lexeme.toList

/-- The characters that are skipped in front of a token. -/
def Mode.skips : Mode → Char → Bool
  | .top | .lineStart => isSpace
  | .list => isListSpace
  | .template | .name | .finished => fun _ => false

theorem Finds.skips {blankLine : Bool} {modes gap later modes' : List _} {found : Found}
    (finds : Finds blankLine modes gap found later modes') :
    Every (modes.headD .finished).skips gap := by
  have atTop {base : List Mode} (finds : FindsTop blankLine base gap found later modes') :
      Every isSpace gap := by
    cases finds <;> assumption
  cases finds with
  | top finds => exact atTop finds
  | header => exact nofun
  | lineStart other finds => exact atTop finds
  | template | name | finished | none => exact nofun
  | list finds => cases finds <;> assumption

namespace Scanner

theorem Cuts.lexeme_ne_empty {scanner after : Scanner} {gap text later : List Char} {token : Token}
    (cuts : scanner.Cuts gap text later token after) (real : token.kind ≠ .finish) :
    token.lexeme ≠ "" := by
  have advances := scan_advances scanner.cursor.onBlankLine scanner.modes
    (gap ++ ((Found.token token.kind text).taken ++ later))
  rw [cuts.finds.scan] at advances
  rw [cuts.lexeme, Ne, String.ofList_eq_empty_iff]
  exact advances _ _ rfl real

/-- Call by call the scanner cuts these pieces off the source, each from where it stands: the text
of a token is what lies between the offsets in front of it and behind it. -/
inductive Tiles (source : List Char) : Scanner → List Piece → Scanner → Prop where
  | nil (scanner : Scanner) : Tiles source scanner [] scanner
  | cons {scanner middle after : Scanner} {piece : Piece} {pieces : List Piece}
      (first : scanner.next = (.ok piece.token, middle))
      (skipped : Every scanner.mode.skips piece.gap)
      (cut : source.drop scanner.cursor.offset =
        piece.gap ++ (piece.token.lexeme.toList ++ source.drop middle.cursor.offset))
      (moved : middle.cursor.offset =
        scanner.cursor.offset + piece.gap.length + piece.token.lexeme.length)
      (solid : piece.token.kind ≠ .finish → piece.token.lexeme ≠ "")
      (rest : Tiles source middle pieces after) :
      Tiles source scanner (piece :: pieces) after

/-- One call: the piece and where the scanner stands behind it. -/
theorem exists_piece {source read : List Char} {scanner after : Scanner} {token : Token}
    (past : scanner.cursor.Past source read) (found : scanner.next = (.ok token, after)) :
    ∃ piece : Piece, piece.token = token ∧ after.cursor.Past source (read ++ piece.text) ∧
      Every scanner.mode.skips piece.gap ∧ (token.kind ≠ .finish → token.lexeme ≠ "") := by
  obtain ⟨gap, text, later, cuts⟩ := next_ok_iff.mp found
  refine ⟨⟨gap, token⟩, rfl, ?_, cuts.finds.skips, cuts.lexeme_ne_empty⟩
  have skipped := past.pass cuts.rest
  have ahead : (scanner.cursor.pass gap.length).rest = text ++ later :=
    Cursor.rest_behind cuts.rest
  rw [cuts.cursor, Piece.text, cuts.lexeme, String.toList_ofList, ← List.append_assoc]
  exact skipped.pass ahead

theorem Gives.tiles {source read : List Char} {scanner after : Scanner} {tokens : List Token}
    (gives : scanner.Gives tokens after) (past : scanner.cursor.Past source read) :
    ∃ pieces : List Piece, pieces.map Piece.token = tokens ∧ scanner.Tiles source pieces after ∧
      after.cursor.Past source (read ++ pieces.flatMap Piece.text) := by
  induction gives generalizing read with
  | nil scanner => exact ⟨[], rfl, .nil scanner, by simpa using past⟩
  | @cons scanner middle after _ tokens first rest ih =>
    obtain ⟨piece, rfl, next, skipped, solid⟩ := exists_piece past first
    obtain ⟨pieces, rfl, tiles, last⟩ := ih next
    -- the piece lies between what is left in front of the call and what is left behind it
    have here := past.drop_offset
    have there := next.drop_offset
    have between : scanner.cursor.rest = piece.text ++ middle.cursor.rest :=
      List.append_cancel_left (past.whole.trans (by rw [← List.append_assoc, next.whole]))
    refine ⟨piece :: pieces, rfl, .cons first skipped ?_ ?_ solid tiles, ?_⟩
    · rw [here, there, between, Piece.text, List.append_assoc]
    · rw [next.offset, past.offset, Piece.text]
      simp [Nat.add_assoc, String.length_toList]
    · simpa using last

/-- Reading all tokens reads all of the source: the last gap is its end. -/
theorem rest_of_tokens {file source : String} {tokens : List Token} {after : Scanner}
    (all : (ofSource file source).tokens = (.ok tokens, after)) :
    (ofSource file source).Gives tokens after ∧ after.cursor.rest = [] := by
  obtain ⟨front, stop, rfl, unended, finished, gives⟩ := gives_of_tokens all
  obtain ⟨middle, before, last⟩ := gives_append_iff.mp gives
  obtain ⟨gap, text, later, cuts⟩ := next_ok_iff.mp (gives_singleton_iff.mp last)
  have finds := cuts.finds
  rw [finished] at finds
  obtain ⟨_, _, _, ended⟩ := finds.of_finish (before.stacked unended)
  exact ⟨gives, cuts.left.trans ended⟩

/-- The source is the gaps and the texts of the tokens, in order, and what has not been read yet,
which is nothing once all tokens have been read. -/
theorem gives_tiling (file source : String) :
    (∀ tokens after, (ofSource file source).Gives tokens after →
      ∃ pieces : List Piece, pieces.map Piece.token = tokens ∧
        (ofSource file source).Tiles source.toList pieces after ∧
        source.toList = pieces.flatMap Piece.text ++ after.cursor.rest) ∧
    ∀ tokens after, (ofSource file source).tokens = (.ok tokens, after) →
      (ofSource file source).Gives tokens after ∧ after.cursor.rest = [] := by
  refine ⟨fun tokens after gives => ?_, fun tokens after all => rest_of_tokens all⟩
  obtain ⟨pieces, given, tiles, past⟩ := gives.tiles (Cursor.Past.ofSource source.toList)
  exact ⟨pieces, given, tiles, past.whole.symm⟩

/-- The dash behind the first name is part of the text behind it, and the last line is blank. -/
theorem gives_tiling_template :
    ∃ tokens after, (ofSource "" " \"#a-#a\"\t").Gives tokens after ∧
      (ofSource "" " \"#a-#a\"\t").tokens = (.ok tokens, after) ∧
      tokens.map (·.lexeme) = ["\"", "#", "a", "-", "#", "a", "\"", ""] ∧
      (∃ pieces : List Piece, pieces.map Piece.token = tokens ∧
        (ofSource "" " \"#a-#a\"\t").Tiles " \"#a-#a\"\t".toList pieces after ∧
        " \"#a-#a\"\t".toList = pieces.flatMap Piece.text ++ after.cursor.rest) ∧
      after.cursor.rest = [] := by
  obtain ⟨tokens, after, all, lexemes⟩ : ∃ tokens after,
      (ofSource "" " \"#a-#a\"\t").tokens = (.ok tokens, after) ∧
        tokens.map (·.lexeme) = ["\"", "#", "a", "-", "#", "a", "\"", ""] :=
    ⟨_, _, tokens_of_firsts 7 rfl rfl (by decide) rfl, by decide⟩
  obtain ⟨front, stop, rfl, _, _, gives⟩ := gives_of_tokens all
  exact ⟨_, after, gives, all, lexemes, (gives_tiling "" _).1 _ _ gives,
    ((gives_tiling "" _).2 _ _ all).2⟩

end Scanner
end TextGrammar
