import TextGrammar.Proofs.Token.Headers

/-!
# Names

A name is the longest run of name characters, and it is over only where there is a character that
belongs to no name. Inside a template the run gives back the joiners at its end, so the name is the
longest piece of it that ends with a letter or a digit. What is given back is not lost: it is what
the very next text begins with.
-/
namespace TextGrammar

/-! ## Runs of name characters -/

/-- There is a last character, and it is a letter or a digit. -/
def EndsSolid (text : List Char) : Prop := ∃ last ∈ text.getLast?, last.isAlphanum = true

/-- Of what the run begins with, this is the longest that ends with a letter or a digit. -/
structure LongestSolid (run front : List Char) : Prop where
  begins : front <+: run
  solid : EndsSolid front
  longest : ∀ other, other <+: run → EndsSolid other → other.length ≤ front.length

theorem longestSolid_append {front joiners : List Char} (solid : EndsSolid front)
    (joined : Every isJoiner joiners) : LongestSolid (front ++ joiners) front := by
  refine ⟨List.prefix_append _ _, solid, fun other begins ends => ?_⟩
  rcases List.prefix_or_prefix_of_prefix begins (List.prefix_append front joiners) with
    short | ⟨more, rfl⟩
  · exact short.length_le
  · -- whatever is more has been taken from the joiners, and so it does not end with one
    have taken : more <+: joiners := (List.prefix_append_right_inj front).mp begins
    cases more using List.reverseRecOn with
    | nil => simp
    | append_singleton more last =>
      have joins := joined last (taken.subset (by simp))
      obtain ⟨_, isLast, alphanumeric⟩ := ends
      obtain rfl : last = _ := by simpa [← List.append_assoc] using isLast
      rw [not_joiner_of_isAlphanum alphanumeric] at joins
      cases joins

namespace Text

/-- The longest run of name characters that begins at an offset. -/
def nameRun (text : List Char) (start : Nat) : List Char := (text.drop start).takeWhile isNameChar

variable {text : List Char} {start : Nat}

theorem nameRun_whole (ends : start + (nameRun text start).length = text.length) :
    nameRun text start = text.drop start := by
  refine (List.takeWhile_prefix isNameChar).eq_of_length ?_
  rw [List.length_drop, ← nameRun]
  omega

/-- A run that begins with a letter and does not reach the end of the text. -/
theorem nameRun_split (starts : ∀ char ∈ text[start]?, char.isAlpha = true)
    (more : start + (nameRun text start).length < text.length) :
    ∃ first front later, nameRun text start = first :: front ∧
      text.drop start = first :: front ++ later ∧ first.isAlpha = true ∧
      Every isNameChar front ∧ Stops isNameChar later := by
  have cut := List.takeWhile_append_dropWhile (p := isNameChar) (l := text.drop start)
  have plain := every_takeWhile isNameChar (text.drop start)
  rw [← nameRun] at cut plain
  have enough := congrArg List.length cut
  rw [List.length_append, List.length_drop] at enough
  cases left : (text.drop start).dropWhile isNameChar with
  | nil =>
    -- then the run would be all that there is
    rw [left, List.length_nil] at enough
    omega
  | cons stop rest =>
    have stops : Stops isNameChar (stop :: rest) := .of_head (stops_of_dropWhile left)
    rw [left] at cut
    cases run : nameRun text start with
    | nil =>
      -- the character that has stopped the run is then the first one, which is a letter
      rw [run, List.nil_append] at cut
      have here : text[start]? = some stop := by
        rw [← List.head?_drop, ← cut, List.head?_cons]
      have belongs := isNameChar_of_isAlpha (starts stop here)
      rw [stops_of_dropWhile left] at belongs
      cases belongs
    | cons first front =>
      rw [run] at cut plain
      have here : text[start]? = some first := by
        rw [← List.head?_drop, ← cut, List.cons_append, List.head?_cons]
      exact ⟨first, front, stop :: rest, rfl, cut.symm, starts first here,
        (List.forall_mem_cons.mp plain).2, stops⟩

end Text

/-! ## Where a name is read -/

namespace Scanner

/-- The next call looks for a name, from this offset on, and goes on with these modes behind it: the
name has been asked for by a hash, or there is at the top level something that is nothing else. -/
inductive SeeksName (text : List Char) (scanner : Scanner) : Nat → List Mode → Prop where
  | asked {below : List Mode} (modes : scanner.modes = .name :: below) :
      SeeksName text scanner scanner.cursor.offset below
  | title {base : List Mode} {first : Char} (top : AtTop scanner.modes base)
      (here : text[Text.behindSpace text scanner.cursor.offset]? = some first)
      (other : first ≠ '\n' ∧ first ≠ '"' ∧ first ≠ '[')
      (stray : first = '*' → ¬Text.BlankBefore text (Text.behindSpace text scanner.cursor.offset)) :
      SeeksName text scanner (Text.behindSpace text scanner.cursor.offset) base

section Names

variable {text later : List Char} {scanner after : Scanner} {start : Nat} {below modes' : List Mode}
  {found : Found}

/-- Where a name is looked for, the scanner finds whatever there is to be found of a name. -/
theorem Kept.finds_name (kept : scanner.Kept text) (seeks : scanner.SeeksName text start below)
    (here : text.drop start = found.taken ++ later) (finds : FindsName below found later modes') :
    ∃ gap, scanner.cursor.rest = gap ++ (found.taken ++ later) ∧
      start = scanner.cursor.offset + gap.length ∧
      Finds scanner.cursor.onBlankLine scanner.modes gap found later modes' := by
  cases seeks with
  | asked modes =>
    rw [kept.charted.rest] at here
    exact ⟨[], here, rfl, modes ▸ .name finds⟩
  | @title base first top first' other stray =>
    obtain ⟨gap, rest, ahead, skipped, differs, behind⟩ := kept.exists_gap
    rw [behind] at first' stray here ⊢
    have isRest : text.drop (scanner.cursor.offset + gap.length) = rest := by
      rw [← List.drop_drop, kept.charted.rest, ahead, List.drop_left]
    rw [← List.head?_drop, isRest] at first'
    rw [isRest] at here
    subst here
    -- behind the space there is none of the other tokens, so a name is taken to begin there
    obtain ⟨others, starts⟩ := List.head?_eq_some_iff.mp first'
    have unmarked : marksTop scanner.cursor.onBlankLine first = false := by
      have unstarred : ¬(first = '*' ∧ scanner.cursor.onBlankLine = true) := fun ⟨isStar, blank⟩ =>
        stray isStar ((kept.blank_iff ahead skipped).mp blank)
      simp only [marksTop, differs first first', other, decide_false, Bool.or_self, Bool.false_or]
      simpa using unstarred
    exact ⟨gap, ahead, rfl, (top.finds_iff kept.fresh).mpr
      (.named skipped starts unmarked finds)⟩

/-- The name that is given is the piece of the text that begins here, and the scanner is left right
behind it, which is further on but on the same line. -/
structure TakesName (text : List Char) (scanner : Scanner) (start : Nat) (below : List Mode)
    (token : Token) (after : Scanner) : Prop where
  found : scanner.next = (.ok token, after)
  isName : token.kind = .name
  placed : token.PlacedAt text start
  ends : after.cursor.offset = start + token.lexeme.length
  further : start + 1 ≤ after.cursor.offset
  unbroken : '\n' ∉ (text.take after.cursor.offset).drop start
  modes : after.modes = below

/-- The next call begins with this text where the scanner is: there is a token that goes on with it,
or the template is not closed any more. -/
def Continues (text : List Char) (scanner : Scanner) (front : List Char) : Prop :=
  (∃ token after, scanner.next = (.ok token, after) ∧ token.kind = .text ∧
    front <+: token.lexeme.toList ∧ token.PlacedAt text scanner.cursor.offset) ∨
  scanner.FailsAt text scanner.cursor.offset
    (.endOfInput (some "inside a quoted string") (some .finish))

theorem Kept.takes_name {first : Char} {front : List Char} (kept : scanner.Kept text)
    (seeks : scanner.SeeksName text start below) (here : text.drop start = first :: front ++ later)
    (finds : FindsName below (.token .name (first :: front)) later below)
    (plain : Every isNameChar (first :: front)) :
    ∃ token after, scanner.TakesName text start below token after ∧
      token.lexeme.toList = first :: front ∧ after.cursor.rest = later := by
  obtain ⟨gap, ahead, rfl, finds⟩ := kept.finds_name seeks here finds
  obtain ⟨token, after, cuts, isName, modes⟩ := exists_cuts ahead finds
  obtain ⟨placed, ends⟩ := cuts.placedAt kept.charted
  have lexeme : token.lexeme.toList = first :: front := by
    rw [cuts.lexeme, String.toList_ofList, Found.taken]
  have length : token.lexeme.length = front.length + 1 := by
    rw [← String.length_toList, lexeme, List.length_cons]
  refine ⟨token, after, ⟨next_ok_iff.mpr ⟨_, _, _, cuts⟩, isName, placed, ends, ?_, ?_, modes⟩,
    lexeme, cuts.left⟩
  · omega
  · rw [ends, List.drop_take, Nat.add_sub_cancel_left, placed.lexeme, lexeme]
    intro isBreak
    cases plain _ isBreak

theorem isTemplateText_of_isJoiner {char : Char} (joiner : isJoiner char = true) :
    isTemplateText char = true := by
  simp only [isJoiner, Bool.or_eq_true, decide_eq_true_eq] at joiner
  rcases joiner with rfl | rfl <;> rfl

/-- Joiners are text like any other. -/
theorem Kept.continues {joiners : List Char} (kept : scanner.Kept text)
    (inside : scanner.modes.head? = some .template) (joined : Every isJoiner joiners)
    (nonempty : joiners ≠ []) (ahead : scanner.cursor.rest = joiners ++ later) :
    scanner.Continues text joiners := by
  obtain ⟨outer, modes⟩ := List.head?_eq_some_iff.mp inside
  have plain := (joined.imp fun _ => isTemplateText_of_isJoiner).append
    (every_takeWhile isTemplateText later)
  have cut := List.takeWhile_append_dropWhile (p := isTemplateText) (l := later)
  -- the text goes on behind the joiners, and whether anything ends it decides what is found
  generalize later.takeWhile isTemplateText = run at plain cut
  cases left : later.dropWhile isTemplateText with
  | nil =>
    rw [left, List.append_nil] at cut
    have finds : Finds scanner.cursor.onBlankLine scanner.modes []
        (.unfinished "inside a quoted string" (joiners ++ run)) [] scanner.modes :=
      modes ▸ .template (.unfinished plain)
    exact .inr (failsAt_of_unfinished kept.charted (by rw [ahead, cut, List.nil_append]) finds)
  | cons stop rest =>
    have stops : Stops isTemplateText (stop :: rest) := .of_head (stops_of_dropWhile left)
    have finds : Finds scanner.cursor.onBlankLine scanner.modes [] (.token .text (joiners ++ run))
        (stop :: rest) scanner.modes :=
      modes ▸ .template (.text (List.append_ne_nil_of_left_ne_nil nonempty run) plain stops)
    rw [left] at cut
    obtain ⟨token, after, cuts, isText, _⟩ := exists_cuts (by simp [ahead, ← cut]) finds
    refine .inl ⟨token, after, next_ok_iff.mpr ⟨_, _, _, cuts⟩, isText, ?_,
      (cuts.placedAt kept.charted).1⟩
    rw [cuts.lexeme, String.toList_ofList]
    exact List.prefix_append joiners run

/-- What the scanner makes of a name is told by the text alone: a run of name characters has to
begin with a letter and to be stopped by some character, and it is then a name as a whole, or in a
template without the joiners at its end. -/
structure ReadsName (text : List Char) (scanner : Scanner) (start : Nat) (below : List Mode) :
    Prop where
  bad : ∀ char, text[start]? = some char → char.isAlpha = false →
    scanner.FailsAt text start (.badCharacter char.toString (some .name))
  unfinished : (∀ char ∈ text[start]?, char.isAlpha = true) →
    start + (Text.nameRun text start).length = text.length →
    scanner.FailsAt text start (.endOfInput (some "while reading an identifier") (some .finish))
  whole : (∀ char ∈ text[start]?, char.isAlpha = true) →
    start + (Text.nameRun text start).length < text.length → below.head? ≠ some .template →
    ∃ token after, scanner.TakesName text start below token after ∧
      token.lexeme.toList = Text.nameRun text start
  trimmed : (∀ char ∈ text[start]?, char.isAlpha = true) →
    start + (Text.nameRun text start).length < text.length → below.head? = some .template →
    ∃ token after joiners, scanner.TakesName text start below token after ∧
      Text.nameRun text start = token.lexeme.toList ++ joiners ∧ Every isJoiner joiners ∧
      LongestSolid (Text.nameRun text start) token.lexeme.toList ∧
      (joiners ≠ [] → after.Continues text joiners)

theorem Kept.bad_name {char : Char} (kept : scanner.Kept text)
    (seeks : scanner.SeeksName text start below) (here : text[start]? = some char)
    (other : char.isAlpha = false) :
    scanner.FailsAt text start (.badCharacter char.toString (some .name)) := by
  rw [← List.head?_drop] at here
  obtain ⟨rest, split⟩ := List.head?_eq_some_iff.mp here
  have finds : FindsName below (.badCharacter char) (char :: rest) (.name :: below) := .bad other
  obtain ⟨gap, ahead, rfl, finds⟩ := kept.finds_name seeks split finds
  exact failsAt_of_bad kept.charted ahead finds

theorem Kept.unfinished_name (kept : scanner.Kept text)
    (seeks : scanner.SeeksName text start below)
    (starts : ∀ char ∈ text[start]?, char.isAlpha = true)
    (ends : start + (Text.nameRun text start).length = text.length) :
    scanner.FailsAt text start
      (.endOfInput (some "while reading an identifier") (some .finish)) := by
  have whole := Text.nameRun_whole ends
  have plain := every_takeWhile isNameChar (text.drop start)
  rw [← Text.nameRun, whole] at plain
  rw [← List.head?_drop] at starts
  have finds : FindsName below (.unfinished "while reading an identifier" (text.drop start)) []
      (.name :: below) := .unfinished starts plain
  obtain ⟨gap, ahead, rfl, finds⟩ := kept.finds_name seeks (List.append_nil _).symm finds
  exact failsAt_of_unfinished kept.charted (by simpa [Found.taken] using ahead) finds

theorem Kept.whole_name (kept : scanner.Kept text) (seeks : scanner.SeeksName text start below)
    (starts : ∀ char ∈ text[start]?, char.isAlpha = true)
    (more : start + (Text.nameRun text start).length < text.length)
    (outside : below.head? ≠ some .template) :
    ∃ token after, scanner.TakesName text start below token after ∧
      token.lexeme.toList = Text.nameRun text start := by
  obtain ⟨first, front, later, run, here, letter, plain, stops⟩ := Text.nameRun_split starts more
  obtain ⟨token, after, takes, lexeme, _⟩ := kept.takes_name seeks here
    (.whole outside letter plain stops) (plain.cons (isNameChar_of_isAlpha letter))
  exact ⟨token, after, takes, lexeme.trans run.symm⟩

theorem Kept.trimmed_name (kept : scanner.Kept text) (seeks : scanner.SeeksName text start below)
    (starts : ∀ char ∈ text[start]?, char.isAlpha = true)
    (more : start + (Text.nameRun text start).length < text.length)
    (inside : below.head? = some .template) :
    ∃ token after joiners, scanner.TakesName text start below token after ∧
      Text.nameRun text start = token.lexeme.toList ++ joiners ∧ Every isJoiner joiners ∧
      LongestSolid (Text.nameRun text start) token.lexeme.toList ∧
      (joiners ≠ [] → after.Continues text joiners) := by
  obtain ⟨first, front, later, run, here, letter, plain, stops⟩ := Text.nameRun_split starts more
  obtain ⟨name, joiners, _, rfl, joined, ends⟩ := trimEnd_name letter front
  have plain : Every isNameChar name := (List.forall_mem_append.mp plain).1
  have plain' := plain.cons (isNameChar_of_isAlpha letter)
  have solid : EndsSolid (first :: name) := by
    have isLast := List.getLast?_eq_some_getLast (List.cons_ne_nil first name)
    have belongs := plain' _ (List.mem_of_getLast? isLast)
    exact ⟨_, isLast, isAlphanum_of_isNameChar belongs (ends _ isLast)⟩
  -- the joiners are left in front of what has stopped the run
  rw [← List.cons_append, List.append_assoc] at here
  obtain ⟨token, after, takes, lexeme, ahead⟩ := kept.takes_name seeks here
    (.trimmed inside letter plain ends joined stops) plain'
  have kept' : after.Kept text := by
    have next := kept.next
    rwa [takes.found] at next
  refine ⟨token, after, joiners, takes, ?_, joined, ?_, fun given => ?_⟩
  · rw [run, lexeme, List.cons_append]
  · rw [run, lexeme, ← List.cons_append]
    exact longestSolid_append solid joined
  · exact kept'.continues (takes.modes ▸ inside) joined given ahead

theorem Kept.reads_name (kept : scanner.Kept text) (seeks : scanner.SeeksName text start below) :
    scanner.ReadsName text start below :=
  ⟨fun _ here other => kept.bad_name seeks here other, kept.unfinished_name seeks,
    kept.whole_name seeks, kept.trimmed_name seeks⟩

end Names

end Scanner
end TextGrammar
