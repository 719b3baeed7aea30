import Mathlib.Data.List.Basic
import TextGrammar.Proofs.Token.Stream

/-!
# Tokens of a longer input

A token is only given once it is seen to be over: a run has a character behind it that does not
belong to it, and every other token is a single character. So whatever is put behind the input, the
scanner gives the same tokens at the same places, and only at the end of the shorter input can the
longer one make a difference.
-/
namespace TextGrammar

/-! ## One scan -/

/-- Nothing that comes behind it can change what has been found: it is a token before the end, or a
character that is there. -/
def Found.Settled : Found → Prop
  | .token kind _ => kind ≠ .finish
  | .badCharacter _ => True
  | .unfinished _ _ => False

section Scans

variable {blankLine : Bool} {below base modes gap later modes' : List _} {found : Found}

theorem FindsName.extend (finds : FindsName below found later modes') (settled : found.Settled)
    (more : List Char) : FindsName below found (later ++ more) modes' := by
  cases finds with
  | whole outside letter plain stops => exact .whole outside letter plain (stops.append more)
  | trimmed inside letter plain ends joined stops =>
    rw [List.append_assoc]
    exact .trimmed inside letter plain ends joined (stops.append more)
  | bad other => exact .bad other
  | unfinished => exact settled.elim

theorem FindsTop.extend (finds : FindsTop blankLine base gap found later modes')
    (settled : found.Settled) (more : List Char) :
    FindsTop blankLine base gap found (later ++ more) modes' := by
  cases finds with
  | finish => exact absurd rfl settled
  | lineBreak skipped => exact .lineBreak skipped
  | openTemplate skipped => exact .openTemplate skipped
  | openList skipped => exact .openList skipped
  | head skipped fresh => exact .head skipped fresh
  | named skipped starts unmarked finds =>
    have starts' := congrArg (· ++ more) starts
    rw [List.append_assoc] at starts'
    exact .named skipped starts' unmarked (finds.extend settled more)

theorem FindsTemplate.extend (finds : FindsTemplate below found later modes')
    (settled : found.Settled) (more : List Char) :
    FindsTemplate below found (later ++ more) modes' := by
  cases finds with
  | text nonempty plain stops => exact .text nonempty plain (stops.append more)
  | close => exact .close
  | hash => exact .hash
  | openList => exact .openList
  | unfinished => exact settled.elim

theorem FindsList.extend (finds : FindsList below gap found later modes')
    (settled : found.Settled) (more : List Char) :
    FindsList below gap found (later ++ more) modes' := by
  cases finds with
  | openList skipped => exact .openList skipped
  | openTemplate skipped => exact .openTemplate skipped
  | comma skipped => exact .comma skipped
  | close skipped => exact .close skipped
  | text skipped starts plain stops => exact .text skipped starts plain (stops.append more)
  | unfinished => exact settled.elim

theorem FindsTop.ahead_ne_nil (finds : FindsTop blankLine base gap found later modes')
    (settled : found.Settled) : found.taken ++ later ≠ [] := by
  cases finds with
  | finish => exact absurd rfl settled
  | lineBreak | openTemplate | openList | head => exact List.cons_ne_nil _ _
  | named _ starts _ _ =>
    rw [starts]
    exact List.cons_ne_nil _ _

/-- What has been found is found in a longer input. -/
theorem Finds.extend (finds : Finds blankLine modes gap found later modes')
    (settled : found.Settled) (more : List Char) :
    Finds blankLine modes gap found (later ++ more) modes' := by
  cases finds with
  | top finds => exact .top (finds.extend settled more)
  | header => exact .header
  | lineStart other finds =>
    refine .lineStart ?_ (finds.extend settled more)
    -- there is a first character, and so it is still the same
    have present := List.append_ne_nil_of_right_ne_nil gap (finds.ahead_ne_nil settled)
    rwa [← List.append_assoc, ← List.append_assoc, List.append_assoc gap,
      List.head?_append_of_ne_nil _ present]
  | template finds => exact .template (finds.extend settled more)
  | name finds => exact .name (finds.extend settled more)
  | list finds => exact .list (finds.extend settled more)
  | finished => exact absurd rfl settled
  | none => exact absurd rfl settled

end Scans

/-! ## Runs of a scanner -/

def Cursor.extend (more : List Char) (cursor : Cursor) : Cursor :=
  { cursor with source := cursor.source ++ more, rest := cursor.rest ++ more }

/-- The scanner as it would be had the input gone on with `more`. -/
def Scanner.extend (more : List Char) (scanner : Scanner) : Scanner :=
  { scanner with cursor := scanner.cursor.extend more }

theorem Cursor.pass_extend {count : Nat} {cursor : Cursor} (enough : count ≤ cursor.rest.length)
    (more : List Char) : (cursor.extend more).pass count = (cursor.pass count).extend more := by
  induction count generalizing cursor with
  | zero => rfl
  | succ count ih =>
    obtain ⟨char, rest, split⟩ := List.exists_cons_of_length_pos (Nat.zero_lt_of_lt enough)
    have stepped : (cursor.extend more).step char (rest ++ more) =
        (cursor.step char rest).extend more := rfl
    have left : count ≤ (cursor.step char rest).rest.length := by
      rw [split] at enough
      exact Nat.le_of_succ_le_succ enough
    rw [pass, pass]
    simp only [extend, split, List.cons_append] at stepped ⊢
    rw [stepped]
    exact ih left

theorem Cursor.pass_front {cursor : Cursor} {front back : List Char}
    (ahead : cursor.rest = front ++ back) (more : List Char) :
    (cursor.extend more).pass front.length = (cursor.pass front.length).extend more := by
  apply Cursor.pass_extend
  rw [ahead, List.length_append]
  exact Nat.le_add_right _ _

namespace Scanner

theorem ofSource_append (file front back : String) :
    ofSource file (front ++ back) = (ofSource file front).extend back.toList := by
  simp [ofSource, Cursor.ofSource, extend, Cursor.extend]

theorem Cuts.extend {scanner after : Scanner} {gap text later : List Char} {token : Token}
    (cuts : scanner.Cuts gap text later token after) (real : token.kind ≠ .finish)
    (more : List Char) :
    (scanner.extend more).Cuts gap text (later ++ more) token (after.extend more) := by
  have behind : (scanner.cursor.pass gap.length).rest = text ++ later :=
    Cursor.rest_behind cuts.rest
  have start := Cursor.pass_front cuts.rest more
  refine ⟨?_, cuts.finds.extend real more, cuts.lexeme, ?_, cuts.file, ?_⟩
  · simp [Scanner.extend, Cursor.extend, cuts.rest]
  · -- a place is read off from what has been passed alone
    rw [cuts.place]
    exact congrArg (·.locate scanner.file text) start.symm
  · calc after.cursor.extend more
      _ = ((scanner.cursor.pass gap.length).pass text.length).extend more := by rw [cuts.cursor]
      _ = ((scanner.cursor.pass gap.length).extend more).pass text.length :=
        (Cursor.pass_front behind more).symm
      _ = (((scanner.extend more).cursor.pass gap.length).pass text.length) := by rw [← start]; rfl

theorem next_extend {scanner after : Scanner} {token : Token}
    (found : scanner.next = (.ok token, after)) (real : token.kind ≠ .finish) (more : List Char) :
    (scanner.extend more).next = (.ok token, after.extend more) := by
  obtain ⟨gap, text, later, cuts⟩ := next_ok_iff.mp found
  exact next_ok_iff.mpr ⟨gap, text, later ++ more, cuts.extend real more⟩

/-- A bad character is just as bad in a longer input; only the line that is shown may be longer. -/
theorem next_extend_bad {scanner after : Scanner} {text line : String} {kind : Option Kind}
    {span : Span} (bad : scanner.next = (.error ⟨.badCharacter text kind, span, line⟩, after))
    (more : List Char) : ∃ line', (scanner.extend more).next =
      (.error ⟨.badCharacter text kind, span, line'⟩, after.extend more) := by
  obtain ⟨gap, found, later, misses⟩ := next_error_iff.mp bad
  have reported := misses.reported
  cases found with
  | token | unfinished => cases reported
  | badCharacter char =>
    cases reported
    have start := Cursor.pass_front misses.rest more
    -- the place is the same, but its line is cut from the longer text
    obtain ⟨line', reported⟩ : ∃ line',
        report scanner.file ((scanner.extend more).cursor.pass gap.length) (.badCharacter char) =
          .error ⟨_, _, line'⟩ := ⟨_, congrArg (report scanner.file · (.badCharacter char)) start⟩
    refine ⟨line', next_error_iff.mpr ⟨gap, .badCharacter char, later ++ more, ?_,
      misses.finds.extend trivial more, reported, misses.file, ?_⟩⟩
    · simp [Scanner.extend, Cursor.extend, misses.rest]
    · calc after.cursor.extend more
        _ = (scanner.cursor.pass gap.length).extend more := by rw [misses.cursor]; rfl
        _ = (scanner.extend more).cursor.pass gap.length := start.symm

theorem Gives.extend {scanner after : Scanner} {tokens : List Token}
    (gives : scanner.Gives tokens after) (unended : Unended tokens) (more : List Char) :
    (scanner.extend more).Gives tokens (after.extend more) := by
  induction gives with
  | nil scanner => exact .nil _
  | cons first rest ih =>
    obtain ⟨real, others⟩ := List.forall_mem_cons.mp unended
    exact .cons (next_extend first real more) (ih others)

/-- The tokens before the end or the first fault of a source are the first tokens of every longer
source, with the same texts at the same places, and they leave the scanner in the same state. -/
theorem gives_longer (file source more : String) {tokens : List Token} {after : Scanner}
    (gives : (ofSource file source).Gives tokens after) (unended : Unended tokens) :
    (ofSource file (source ++ more)).Gives tokens (after.extend more.toList) := by
  rw [ofSource_append]
  exact gives.extend unended more.toList

/-- The source ends where a name should follow the hash, and the longer one has the name. -/
theorem gives_longer_template :
    ∃ tokens after, (ofSource "" "*a\n\"x-#").Gives tokens after ∧ Unended tokens ∧
      tokens.map (·.lexeme) = ["*", "a", "\n", "\"", "x-", "#"] ∧
      (ofSource "" ("*a\n\"x-#" ++ "b\"")).Gives tokens (after.extend "b\"".toList) := by
  obtain ⟨tokens, after, gives, unended, lexemes⟩ : ∃ tokens after,
      (ofSource "" "*a\n\"x-#").Gives tokens after ∧ Unended tokens ∧
        tokens.map (·.lexeme) = ["*", "a", "\n", "\"", "x-", "#"] :=
    ⟨_, _, gives_of_firsts 6 rfl, by decide, by decide⟩
  exact ⟨tokens, after, gives, unended, lexemes, gives_longer "" _ "b\"" gives unended⟩

end Scanner
end TextGrammar
