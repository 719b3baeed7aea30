import TextGrammar.Token.Scan

/-!
# A scan splits its input

The gap and what is taken stand at the front of the input, in this order, and every token but the
last has text. So each call that finds a token before the end leaves less to read.
-/
namespace TextGrammar

def Scan.Splits (scan : Scan) (input : List Char) : Prop :=
  scan.gap ++ scan.found.taken <+: input

def Scan.Advances (scan : Scan) : Prop :=
  ∀ kind text, scan.found = .token kind text → kind ≠ .finish → text ≠ []

theorem trimEnd_isPrefix (drop : Char → Bool) (text : List Char) :
    Text.trimEnd drop text <+: text := by
  have suffix := List.dropWhile_suffix (l := text.reverse) drop
  simpa [Text.trimEnd] using List.reverse_prefix.mpr suffix

theorem mem_takeWhile_of_head {p : Char → Bool} {char : Char} {rest : List Char}
    (holds : p char = true) : char ∈ (char :: rest).takeWhile p := by
  simp [holds]

theorem trimEnd_ne_nil {drop : Char → Bool} {text : List Char} {char : Char}
    (member : char ∈ text) (kept : drop char = false) : Text.trimEnd drop text ≠ [] := by
  intro empty
  have nothing : text.reverse.dropWhile drop = [] := by simpa [Text.trimEnd] using empty
  -- where nothing is left, each character has been dropped
  have dropped : ∀ char ∈ text, drop char = true := by
    simpa [nothing] using List.any_dropWhile (p := drop) (l := text.reverse)
  simp [dropped char member] at kept

theorem prefix_through_gap {p : Char → Bool} {input after text : List Char}
    (skipped : input.dropWhile p = after) (front : text <+: after) :
    input.takeWhile p ++ text <+: input := by
  obtain ⟨rest, rfl⟩ := front
  refine ⟨rest, ?_⟩
  have whole := List.takeWhile_append_dropWhile (p := p) (l := input)
  rw [skipped] at whole
  simpa using whole

theorem not_joiner_of_isAlphanum {char : Char} (alphanumeric : char.isAlphanum = true) :
    isJoiner char = false := by
  cases joins : isJoiner char with
  | false => rfl
  | true =>
    simp only [isJoiner, Bool.or_eq_true, decide_eq_true_eq] at joins
    rcases joins with rfl | rfl <;> cases alphanumeric

theorem not_joiner_of_isAlpha {char : Char} (letter : char.isAlpha = true) :
    isJoiner char = false :=
  not_joiner_of_isAlphanum (by simp [Char.isAlphanum, letter])

theorem scanName_splits (below : List Mode) (input : List Char) :
    (scanName below input).Splits input := by
  unfold scanName Scan.Splits
  split
  · exact List.nil_prefix
  · split
    · split
      · exact List.takeWhile_prefix _
      · simp only [Found.taken, List.nil_append]
        split
        · exact (trimEnd_isPrefix _ _).trans (List.takeWhile_prefix _)
        · exact List.takeWhile_prefix _
    · exact List.nil_prefix

@[simp] theorem scanName_gap (below : List Mode) (input : List Char) :
    (scanName below input).gap = [] := by
  unfold scanName
  repeat' split
  all_goals rfl

theorem scanName_advances (below : List Mode) (input : List Char) :
    (scanName below input).Advances := by
  intro kind text found _
  unfold scanName at found
  split at found
  · cases found
  next char rest =>
    split at found
    next letter =>
      split at found
      · cases found
      · have present : char ∈ (char :: rest).takeWhile isNameChar :=
          mem_takeWhile_of_head (by simp [isNameChar, Char.isAlphanum, letter])
        cases found
        split
        · exact trimEnd_ne_nil present (not_joiner_of_isAlpha letter)
        · exact List.ne_nil_of_mem present
    · cases found

theorem scanTop_splits (blankLine : Bool) (modes : List Mode) (input : List Char) :
    (scanTop blankLine modes input).Splits input := by
  unfold scanTop Scan.Splits
  dsimp only
  split
  · next skipped => exact prefix_through_gap skipped List.nil_prefix
  · next char rest skipped =>
    have single : [char] <+: char :: rest := ⟨rest, rfl⟩
    split
    · exact prefix_through_gap skipped single
    · split
      · exact prefix_through_gap skipped single
      · split
        · exact prefix_through_gap skipped single
        · split
          · exact prefix_through_gap skipped single
          · have named := scanName_splits modes (char :: rest)
            rw [Scan.Splits, scanName_gap] at named
            exact prefix_through_gap skipped named

theorem scanTop_advances (blankLine : Bool) (modes : List Mode) (input : List Char) :
    (scanTop blankLine modes input).Advances := by
  intro kind text found real
  unfold scanTop at found
  dsimp only at found
  split at found
  · cases found; exact absurd rfl real
  · split at found
    · cases found; simp
    · split at found
      · cases found; simp
      · split at found
        · cases found; simp
        · split at found
          · cases found; simp
          · exact scanName_advances _ _ kind text found real

theorem scanLineStart_splits (blankLine : Bool) (below : List Mode) (input : List Char) :
    (scanLineStart blankLine below input).Splits input := by
  unfold scanLineStart
  split
  · next rest => exact ⟨rest, rfl⟩
  · exact scanTop_splits ..

theorem scanLineStart_advances (blankLine : Bool) (below : List Mode) (input : List Char) :
    (scanLineStart blankLine below input).Advances := by
  intro kind text found real
  unfold scanLineStart at found
  split at found
  · cases found; simp
  · exact scanTop_advances _ _ _ kind text found real

theorem scanTemplate_splits (below : List Mode) (input : List Char) :
    (scanTemplate below input).Splits input := by
  unfold scanTemplate Scan.Splits
  dsimp only
  split
  · exact List.takeWhile_prefix _
  · next char rest after =>
    split
    · exact List.takeWhile_prefix _
    · next empty =>
      have whole := prefix_through_gap after (List.prefix_append [char] rest)
      rw [Decidable.not_not] at empty
      have single : [char] <+: input := by simpa [empty] using whole
      repeat' split
      all_goals exact single

theorem scanTemplate_advances (below : List Mode) (input : List Char) :
    (scanTemplate below input).Advances := by
  intro kind text found real
  unfold scanTemplate at found
  dsimp only at found
  split at found
  · cases found
  · split at found
    · next run => cases found; exact run
    · repeat' split at found
      all_goals cases found; simp

theorem scanList_splits (below : List Mode) (input : List Char) :
    (scanList below input).Splits input := by
  unfold scanList Scan.Splits
  dsimp only
  split
  · next skipped => exact prefix_through_gap skipped List.nil_prefix
  · next char rest skipped =>
    have single : [char] <+: char :: rest := ⟨rest, rfl⟩
    split
    · exact prefix_through_gap skipped single
    · split
      · exact prefix_through_gap skipped single
      · split
        · exact prefix_through_gap skipped single
        · split
          · exact prefix_through_gap skipped single
          · split <;> exact prefix_through_gap skipped (List.takeWhile_prefix _)

theorem isItemText_of_not_delimiter {char : Char} (bracket : char ≠ '[') (quote : char ≠ '"')
    (comma : char ≠ ',') (close : char ≠ ']') : isItemText char = true := by
  simp [isItemText, bracket, quote, comma, close]

theorem scanList_advances (below : List Mode) (input : List Char) :
    (scanList below input).Advances := by
  intro kind text found real
  unfold scanList at found
  dsimp only at found
  split at found
  · cases found
  · split at found
    · cases found; simp
    · split at found
      · cases found; simp
      · split at found
        · cases found; simp
        · split at found
          · cases found; simp
          · next bracket quote comma close =>
            split at found
            · cases found
            · cases found
              exact List.ne_nil_of_mem
                (mem_takeWhile_of_head (isItemText_of_not_delimiter bracket quote comma close))

theorem scan_splits (blankLine : Bool) (modes : List Mode) (input : List Char) :
    (scan blankLine modes input).Splits input := by
  unfold scan
  split
  · exact scanTop_splits ..
  · exact scanLineStart_splits ..
  · exact scanTemplate_splits ..
  · exact scanName_splits ..
  · exact scanList_splits ..
  · exact List.nil_prefix
  · exact List.nil_prefix

theorem scan_advances (blankLine : Bool) (modes : List Mode) (input : List Char) :
    (scan blankLine modes input).Advances := by
  unfold scan
  split
  · exact scanTop_advances _ _ _
  · exact scanLineStart_advances _ _ _
  · exact scanTemplate_advances _ _
  · exact scanName_advances _ _
  · exact scanList_advances _ _
  all_goals
    intro kind text found real
    cases found
    exact absurd rfl real

end TextGrammar
