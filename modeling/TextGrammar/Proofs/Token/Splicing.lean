import Mathlib.Data.List.Basic
import TextGrammar.Proofs.Token.Stream

/-!
# Changing the text behind a token

What a scanner finds depends on the modes, on whether the line is blank so far, and on the text that
is ahead (`Scanner.Faces`); of the text behind the token it depends on the first character at most.
So the tokens in front of a change stay what they are, unless the change comes right behind some
text, which goes on for as long as it can. And what is put in as space adds to the gap in front of
the next token: inside a list any white space, at the top level space other than a line break, and
at a fresh line also line breaks, which then are tokens of their own.
-/
namespace TextGrammar

/-! ## Behind a token -/

section Changes

variable {blankLine : Bool} {below base modes gap front back back' text modes' : List _}
  {kind : Kind}

theorem Stops.change {p : Char → Bool} (stops : Stops p (front ++ back))
    (inner : front ≠ [] ∨ Stops p back') : Stops p (front ++ back') := by
  cases front with
  | nil => exact inner.resolve_left (absurd rfl)
  | cons char front =>
    obtain ⟨_, _, ⟨⟩, differs⟩ := stops
    exact .of_head differs

theorem FindsName.change (finds : FindsName below (.token kind text) (front ++ back) modes')
    (stops : Stops isNameChar back') :
    FindsName below (.token kind text) (front ++ back') modes' := by
  generalize ahead : front ++ back = later at finds
  cases finds with
  | whole outside letter plain ends =>
    rw [← ahead] at ends
    exact .whole outside letter plain (ends.change (.inr stops))
  | trimmed inside letter plain ends joined ends' =>
    rcases List.append_eq_append_iff.mp ahead with ⟨rest, rfl, rfl⟩ | ⟨rest, rfl, rfl⟩
    · -- the change comes among the joiners, and those in front of it are still left behind
      exact .trimmed inside letter plain ends (List.forall_mem_append.mp joined).1 stops
    · rw [List.append_assoc]
      exact .trimmed inside letter plain ends joined (ends'.change (.inr stops))

theorem FindsName.starts {later : List Char}
    (finds : FindsName below (.token kind text) later modes') :
    ∃ letter rest, text = letter :: rest := by
  cases finds <;> exact ⟨_, _, rfl⟩

theorem Finds.text_ne_nil {later : List Char}
    (finds : Finds blankLine modes gap (.token kind text) later modes') (real : kind ≠ .finish) :
    text ≠ [] := by
  have advances := scan_advances blankLine modes (gap ++ ((Found.token kind text).taken ++ later))
  rw [finds.scan] at advances
  exact advances _ _ rfl real

theorem FindsTop.change
    (finds : FindsTop blankLine base gap (.token kind text) (front ++ back) modes')
    (real : kind ≠ .finish) (stops : Stops isNameChar back') :
    FindsTop blankLine base gap (.token kind text) (front ++ back') modes' := by
  generalize ahead : front ++ back = later at finds
  cases finds with
  | finish => exact absurd rfl real
  | lineBreak skipped => exact .lineBreak skipped
  | openTemplate skipped => exact .openTemplate skipped
  | openList skipped => exact .openList skipped
  | head skipped fresh => exact .head skipped fresh
  | named skipped starts unmarked finds =>
    subst ahead
    obtain ⟨letter, rest, rfl⟩ := finds.starts
    cases starts
    exact .named skipped rfl unmarked (finds.change stops)

/-- A token is found again when the text is changed somewhere behind it, or right behind it if it is
no run that would go on. -/
theorem Finds.change (finds : Finds blankLine modes gap (.token kind text) (front ++ back) modes')
    (real : kind ≠ .finish) (stops : Stops isNameChar back') (inner : front ≠ [] ∨ kind ≠ .text) :
    Finds blankLine modes gap (.token kind text) (front ++ back') modes' := by
  have solid := finds.text_ne_nil real
  generalize ahead : front ++ back = later at finds
  cases finds with
  | top finds =>
    subst ahead
    exact .top (finds.change real stops)
  | header => exact .header
  | lineStart other finds =>
    subst ahead
    refine .lineStart ?_ (finds.change real stops)
    -- the first character belongs to the gap or to the token
    have present : gap ++ text ≠ [] := List.append_ne_nil_of_right_ne_nil gap solid
    rw [Found.taken, ← List.append_assoc, List.head?_append_of_ne_nil _ present] at other ⊢
    exact other
  | template finds =>
    cases finds with
    | text nonempty plain ends =>
      rw [← ahead] at ends
      have apart := inner.resolve_right (absurd rfl)
      exact .template (.text nonempty plain (ends.change (.inl apart)))
    | close => exact .template .close
    | hash => exact .template .hash
    | openList => exact .template .openList
  | name finds =>
    subst ahead
    exact .name (finds.change stops)
  | list finds =>
    cases finds with
    | openList skipped => exact .list (.openList skipped)
    | openTemplate skipped => exact .list (.openTemplate skipped)
    | comma skipped => exact .list (.comma skipped)
    | close skipped => exact .list (.close skipped)
    | text skipped starts plain ends =>
      rw [← ahead] at ends
      have apart := inner.resolve_right (absurd rfl)
      exact .list (.text skipped starts plain (ends.change (.inl apart)))
  | finished | none => exact absurd rfl real

end Changes

/-! ## In front of a token -/

section Gaps

variable {blankLine : Bool} {below base modes padding gap text later modes' : List _}
  {found : Found} {kind : Kind}

theorem FindsTop.pad (finds : FindsTop blankLine base gap found later modes')
    (spaces : Every isSpace padding) :
    FindsTop blankLine base (padding ++ gap) found later modes' := by
  cases finds with
  | finish skipped => exact .finish (spaces.append skipped)
  | lineBreak skipped => exact .lineBreak (spaces.append skipped)
  | openTemplate skipped => exact .openTemplate (spaces.append skipped)
  | openList skipped => exact .openList (spaces.append skipped)
  | head skipped fresh => exact .head (spaces.append skipped) fresh
  | named skipped starts unmarked finds =>
    exact .named (spaces.append skipped) starts unmarked finds

theorem FindsList.pad (finds : FindsList below gap found later modes')
    (spaces : Every isListSpace padding) : FindsList below (padding ++ gap) found later modes' := by
  cases finds with
  | openList skipped => exact .openList (spaces.append skipped)
  | openTemplate skipped => exact .openTemplate (spaces.append skipped)
  | comma skipped => exact .comma (spaces.append skipped)
  | close skipped => exact .close (spaces.append skipped)
  | text skipped starts plain stops => exact .text (spaces.append skipped) starts plain stops
  | unfinished skipped starts plain => exact .unfinished (spaces.append skipped) starts plain

/-- A line start is only there on a fresh line. -/
def Fresh (modes : List Mode) (blankLine : Bool) : Prop :=
  modes.head? = some .lineStart → blankLine = true

/-- At a fresh line it makes no difference whether the line break has just been read. -/
theorem AtTop.finds_iff (top : AtTop modes base) (fresh : Fresh modes blankLine) :
    Finds blankLine modes gap found later modes' ↔
      FindsTop blankLine base gap found later modes' := by
  cases top with
  | top below =>
    constructor
    · intro finds
      cases finds with
      | top finds => exact finds
    · exact .top
  | lineStart below =>
    obtain rfl := fresh rfl
    constructor
    · intro finds
      cases finds with
      | header => exact .head nofun rfl
      | lineStart other finds => exact finds
    · intro finds
      have scanned : scan true (.lineStart :: base) (gap ++ (found.taken ++ later)) =
          ⟨gap, found, modes'⟩ := by
        rw [scan, scanLineStart_fresh]
        exact finds.scan
      obtain ⟨later', same, finds'⟩ := scan_eq_iff.mp scanned
      rwa [List.append_cancel_left (List.append_cancel_left same)]

/-- Some character of the text of a list token is no space. -/
theorem FindsList.solid (finds : FindsList below gap (.token kind text) later modes') :
    ∃ char ∈ text, isListSpace char = false := by
  cases finds with
  | openList | openTemplate | comma | close => exact ⟨_, List.mem_cons_self, rfl⟩
  | text _ starts => exact ⟨_, List.mem_cons_self, starts⟩

end Gaps

/-! ## Blank lines -/

/-- Whether the line is blank so far when a text has been read. -/
def blankAfter (blankLine : Bool) (text : List Char) : Bool :=
  text.foldl (fun blank char => char = '\n' || (blank && isSpace char)) blankLine

theorem blankAfter_cons (blankLine : Bool) (char : Char) (text : List Char) :
    blankAfter blankLine (char :: text) =
      blankAfter (char = '\n' || (blankLine && isSpace char)) text := rfl

theorem blankAfter_append (blankLine : Bool) (front back : List Char) :
    blankAfter blankLine (front ++ back) = blankAfter (blankAfter blankLine front) back :=
  List.foldl_append

theorem blankAfter_spaces {spaces : List Char} (every : Every isSpace spaces) (blankLine : Bool) :
    blankAfter blankLine spaces = blankLine := by
  induction spaces generalizing blankLine with
  | nil => rfl
  | cons char spaces ih =>
    obtain ⟨space, rest⟩ := List.forall_mem_cons.mp every
    have inLine : char ≠ '\n' := by
      rintro rfl
      cases space
    rw [blankAfter_cons]
    simpa [space, inLine] using ih rest blankLine

theorem blankAfter_pad {spaces : List Char} (every : Every isSpace spaces) (blankLine : Bool)
    (gap text : List Char) :
    blankAfter blankLine (spaces ++ gap ++ text) = blankAfter blankLine (gap ++ text) := by
  rw [List.append_assoc, blankAfter_append, blankAfter_spaces every]

theorem blankAfter_lineBreak (blankLine : Bool) : blankAfter blankLine ['\n'] = true := rfl

/-- Behind a character that is no space it does not matter what the line was before. -/
theorem blankAfter_solid {text : List Char} {char : Char} (member : char ∈ text)
    (solid : isListSpace char = false) (blankLine blankLine' : Bool) :
    blankAfter blankLine text = blankAfter blankLine' text := by
  obtain ⟨front, back, rfl⟩ := List.append_of_mem member
  have ink : isSpace char = false := by
    simpa using (Bool.or_eq_false_iff.mp solid).1
  have stops : ∀ blank, blankAfter blank (char :: back) = blankAfter (char = '\n') back := by
    intro blank
    simp [blankAfter_cons, ink]
  rw [blankAfter_append, blankAfter_append, stops, stops]

theorem Cursor.blank_pass {cursor : Cursor} {text later : List Char}
    (ahead : cursor.rest = text ++ later) :
    (cursor.pass text.length).onBlankLine = blankAfter cursor.onBlankLine text := by
  induction text generalizing cursor with
  | nil => rfl
  | cons char text ih =>
    rw [List.length_cons, Cursor.pass, ahead, blankAfter_cons]
    exact ih rfl

/-! ## Scanners that have the same ahead -/

namespace Scanner

/-- What the tokens that are to come depend on, apart from their places. -/
structure Faces (scanner : Scanner) (modes : List Mode) (blankLine : Bool) (rest : List Char) :
    Prop where
  modes : scanner.modes = modes
  blank : scanner.cursor.onBlankLine = blankLine
  rest : scanner.cursor.rest = rest

theorem faces_self (scanner : Scanner) :
    scanner.Faces scanner.modes scanner.cursor.onBlankLine scanner.cursor.rest := ⟨rfl, rfl, rfl⟩

theorem Cuts.blank {scanner after : Scanner} {gap text later : List Char} {token : Token}
    (cuts : scanner.Cuts gap text later token after) :
    after.cursor.onBlankLine = blankAfter scanner.cursor.onBlankLine (gap ++ text) := by
  have ahead : (scanner.cursor.pass gap.length).rest = text ++ later :=
    Cursor.rest_behind cuts.rest
  rw [cuts.cursor, Cursor.blank_pass ahead, Cursor.blank_pass cuts.rest, blankAfter_append]

theorem Faces.next {scanner : Scanner} {modes modes' : List Mode} {blankLine : Bool}
    {gap text later : List Char} {kind : Kind}
    (faces : scanner.Faces modes blankLine (gap ++ (text ++ later)))
    (finds : Finds blankLine modes gap (.token kind text) later modes') :
    ∃ token after, scanner.next = (.ok token, after) ∧ token.kind = kind ∧
      token.lexeme = String.ofList text ∧
      after.Faces modes' (blankAfter blankLine (gap ++ text)) later := by
  obtain ⟨rfl, rfl, rest⟩ := faces
  obtain ⟨token, after, cuts, isKind, modes⟩ := exists_cuts rest finds
  exact ⟨token, after, next_ok_iff.mpr ⟨_, _, _, cuts⟩, isKind, cuts.lexeme, modes, cuts.blank,
    cuts.left⟩

end Scanner
end TextGrammar
