import TextGrammar.Proofs.Token.Extension

/-!
# Sources that end too early

There are two kinds of faults in the tokens of a source. Where the source ends in the middle of
something, the modes at this point say how to go on so that all of it can be read. A character that
cannot begin a name cannot be mended by whatever comes behind it.
-/
namespace TextGrammar

/-! ## Closing what is open -/

/-- All tokens of the scanner can be read. -/
def Scanner.Ends (scanner : Scanner) : Prop := ∃ tokens, scanner.tokens.1 = .ok tokens

theorem Scanner.Ends.of_next {scanner after : Scanner} {token : Token}
    (found : scanner.next = (.ok token, after)) (ends : after.Ends) : scanner.Ends := by
  obtain ⟨tokens, all⟩ := ends
  rw [Ends, tokens_of_ok found]
  split
  · exact ⟨[token], rfl⟩
  · exact ⟨token :: tokens, by rw [all]; rfl⟩

theorem Scanner.Gives.ends {scanner after : Scanner} {tokens : List Token}
    (gives : scanner.Gives tokens after) (ends : after.Ends) : scanner.Ends := by
  induction gives with
  | nil scanner => exact ends
  | cons first rest ih => exact .of_next first (ih ends)

/-- A character that ends what is being read in a mode; a name may still have to begin with it. -/
def Mode.closer : Mode → Char
  | .name => 'a'
  | .template => '"'
  | .list => ']'
  | .top | .lineStart | .finished => '\n'

/-- The text that closes everything in these modes, innermost first. -/
def completion (modes : List Mode) : List Char := modes.map Mode.closer

theorem Nested.stops_name {modes : List Mode} (nested : Nested modes) :
    Stops isNameChar (completion modes) := by
  cases nested <;> exact .of_head (by decide)

theorem Nested.ends {scanner : Scanner} {modes : List Mode} (nested : Nested modes)
    (stands : scanner.Stands modes (completion modes)) : scanner.Ends := by
  induction nested generalizing scanner with
  | top =>
    -- nothing is open any more: the line break is read, and then there is nothing left
    have atBreak (blankLine : Bool) : Finds blankLine [.top] [] (.token .lineBreak ['\n']) []
        [.lineStart, .top] := .top (.lineBreak nofun)
    have atEnd (blankLine : Bool) : Finds blankLine [.lineStart, .top] [] (.token .finish []) []
        [.finished, .top] := .lineStart nofun (.finish nofun)
    obtain ⟨token, middle, found, _, _, there⟩ := stands.next atBreak
    obtain ⟨stop, after, found', finished, _⟩ := there.next atEnd
    have ends : middle.Ends := ⟨[stop], by rw [Scanner.tokens_of_ok found', if_pos finished]⟩
    exact .of_next found ends
  | @template below inner apart ih =>
    have closes (blankLine : Bool) : Finds blankLine (.template :: below) []
        (.token .closeQuote ['"']) (completion below) below := .template .close
    obtain ⟨token, middle, found, _, _, there⟩ := stands.next closes
    exact .of_next found (ih there)
  | @list below inner ih =>
    have closes (blankLine : Bool) : Finds blankLine (.list :: below) []
        (.token .closeBracket [']']) (completion below) below := .list (.close nofun)
    obtain ⟨token, middle, found, _, _, there⟩ := stands.next closes
    exact .of_next found (ih there)

/-! ## Finding the unfinished token -/

section Complete

variable {blankLine : Bool} {below modes gap text later modes' : List _} {context : String}

theorem FindsName.complete (finds : FindsName below (.unfinished context text) later modes')
    (nested : Nested below) :
    later = [] ∧ modes' = .name :: below ∧
      FindsName below (.token .name (text ++ ['a'])) (completion below) below := by
  cases finds with
  | unfinished starts plain =>
    refine ⟨rfl, rfl, ?_⟩
    obtain ⟨first, rest, split⟩ :=
      List.exists_cons_of_ne_nil (List.append_ne_nil_of_right_ne_nil text (List.cons_ne_nil 'a' []))
    -- the letter at the end is the first one if there was none
    have letter : first.isAlpha = true := by
      cases text with
      | nil => cases split; decide
      | cons char text => cases split; exact starts _ rfl
    have plain' : Every isNameChar (first :: rest) := by
      rw [← split]
      exact plain.append (.cons nofun (by decide))
    have ends : ∀ last ∈ (first :: rest).getLast?, isJoiner last = false := by
      rw [← split, List.getLast?_concat]
      rintro last ⟨⟩
      decide
    rw [split]
    have run : Every isNameChar rest := (List.forall_mem_cons.mp plain').2
    by_cases inside : below.head? = some .template
    · exact .trimmed inside letter run ends (List.forall_mem_nil _) nested.stops_name
    · exact .whole inside letter run nested.stops_name

theorem FindsTop.complete
    (finds : FindsTop blankLine [.top] gap (.unfinished context text) later modes') :
    later = [] ∧ modes' = [.name, .top] ∧ text ≠ [] ∧
      FindsTop blankLine [.top] gap (.token .name (text ++ ['a'])) (completion [.top]) [.top] := by
  cases finds with
  | named skipped starts unmarked finds =>
    obtain ⟨rfl, rfl, named⟩ := finds.complete .top
    rw [Found.taken, List.append_nil] at starts
    have starts' := congrArg (· ++ (['a'] ++ completion [.top])) starts
    rw [← List.append_assoc] at starts'
    exact ⟨rfl, rfl, by simp [starts], .named skipped starts' unmarked named⟩

/-- What has not been finished is a token once everything is closed behind it, and then there is
nothing but what closes the rest. -/
theorem Finds.complete (finds : Finds blankLine modes gap (.unfinished context text) later modes')
    (stacked : Stacked modes) :
    later = [] ∧ ∃ kind run modes'', Nested modes'' ∧
      text ++ completion modes' = run ++ completion modes'' ∧
      Finds blankLine modes gap (.token kind run) (completion modes'') modes'' := by
  cases finds with
  | @top below _ _ _ _ finds =>
    rw [(AtTop.top below).eq_top stacked] at finds ⊢
    obtain ⟨rfl, rfl, _, named⟩ := finds.complete
    exact ⟨rfl, .name, text ++ ['a'], [.top], .top, by simp [completion, Mode.closer], .top named⟩
  | @lineStart below _ _ _ _ other finds =>
    obtain rfl : below = [.top] := (AtTop.lineStart below).eq_top stacked
    obtain ⟨rfl, rfl, nonempty, named⟩ := finds.complete
    have other' : (gap ++ (text ++ ['a'] ++ completion [.top])).head? ≠ some '*' := by
      -- it is the unfinished name or what is in front of it that the line begins with
      have present := List.append_ne_nil_of_right_ne_nil gap nonempty
      rw [Found.taken, List.append_nil] at other
      rwa [List.append_assoc, ← List.append_assoc gap, List.head?_append_of_ne_nil _ present]
    exact ⟨rfl, .name, text ++ ['a'], [.top], .top, by simp [completion, Mode.closer],
      .lineStart other' named⟩
  | template finds =>
    have nested := stacked.nested_template
    cases finds with
    | unfinished plain =>
      refine ⟨rfl, ?_⟩
      by_cases empty : text = []
      · subst empty
        exact ⟨.closeQuote, ['"'], _, nested.of_template, rfl, .template .close⟩
      · exact ⟨.text, text, _, nested, rfl, .template (.text empty plain (.of_head (by decide)))⟩
  | name finds =>
    cases stacked with
    | nested inner => cases inner
    | name inner =>
      obtain ⟨rfl, rfl, named⟩ := finds.complete inner
      exact ⟨rfl, .name, text ++ ['a'], _, inner, by simp [completion, Mode.closer], .name named⟩
  | list finds =>
    have nested := stacked.nested_list
    cases finds with
    | unfinished skipped starts plain =>
      refine ⟨rfl, ?_⟩
      cases text with
      | nil =>
        exact ⟨.closeBracket, [']'], _, nested.of_list, rfl, .list (.close skipped)⟩
      | cons first rest =>
        exact ⟨.text, first :: rest, _, nested, rfl,
          .list (.text skipped (starts _ rfl) plain (.of_head (by decide)))⟩

end Complete

/-! ## The two kinds of faults -/

namespace Scanner

theorem cause_of_next {scanner after : Scanner} {fault : Diagnostic}
    (faulty : scanner.next = (.error fault, after)) :
    (∃ context kind, fault.cause = .endOfInput context kind) ∨
      ∃ text kind, fault.cause = .badCharacter text kind := by
  obtain ⟨gap, found, later, misses⟩ := next_error_iff.mp faulty
  have reported := misses.reported
  cases found with
  | token => cases reported
  | badCharacter =>
    cases reported
    exact .inr ⟨_, _, rfl⟩
  | unfinished =>
    cases reported
    exact .inl ⟨_, _, rfl⟩

theorem ends_of_unfinished {scanner after : Scanner} {fault : Diagnostic} {context : Option String}
    {kind : Option Kind} (faulty : scanner.next = (.error fault, after))
    (cause : fault.cause = .endOfInput context kind) (stacked : Stacked scanner.modes) :
    (scanner.extend (completion after.modes)).Ends := by
  obtain ⟨gap, found, later, misses⟩ := next_error_iff.mp faulty
  have reported := misses.reported
  cases found with
  | token => cases reported
  | badCharacter =>
    cases reported
    cases cause
  | unfinished context text =>
    obtain ⟨rfl, kind, run, modes, nested, same, finds⟩ := misses.finds.complete stacked
    have rest : (scanner.extend (completion after.modes)).cursor.rest =
        gap ++ (run ++ completion modes) := by
      rw [← same]
      simp [Scanner.extend, Cursor.extend, misses.rest, Found.taken]
    obtain ⟨token, next, first, _, _, stands⟩ := next_of_finds rest finds
    exact .of_next first (nested.ends stands)

end Scanner

/-- What a fault in the tokens of a source says about the sources that begin with this one. -/
def Diagnostic.Foretells (file source : String) (fault : Diagnostic) : Prop :=
  match fault.cause with
  | .endOfInput _ _ => ∃ more tokens, tokensOf file (source ++ more) = .ok tokens
  | .badCharacter _ _ => ∀ more, ∃ line,
      tokensOf file (source ++ more) = .error { fault with line := line }
  | .stated _ _ | .unexpected _ _ _ => False

/-- A source that ends too early is the beginning of one that can be read, and a bad character is
there, at the same place, in every source that begins like this. -/
theorem tokensOf_foretells (file source : String) :
    (∃ tokens, tokensOf file source = .ok tokens) ∨
      ∃ fault, tokensOf file source = .error fault ∧ fault.Foretells file source := by
  rcases (Scanner.ofSource file source).tokens_cases with ⟨front, stop, after, all, _⟩ |
    ⟨front, middle, fault, after, all, unended, gives, faulty⟩
  · exact .inl ⟨front ++ [stop], congrArg Prod.fst all⟩
  · refine .inr ⟨fault, congrArg Prod.fst all, ?_⟩
    rcases Scanner.cause_of_next faulty with ⟨context, kind, cause⟩ | ⟨text, kind, cause⟩
    · simp only [Diagnostic.Foretells, cause]
      have ends := Scanner.ends_of_unfinished faulty cause (gives.stacked unended)
      refine ⟨String.ofList (completion after.modes), ?_⟩
      rw [tokensOf, Scanner.ofSource_append, String.toList_ofList]
      exact (gives.extend unended _).ends ends
    · simp only [Diagnostic.Foretells, cause]
      intro more
      obtain ⟨_, span, line⟩ := fault
      obtain rfl := cause
      obtain ⟨line', worse⟩ := Scanner.next_extend_bad faulty more.toList
      refine ⟨line', ?_⟩
      rw [tokensOf, Scanner.ofSource_append,
        Scanner.tokens_of_faulty (gives.extend unended _) unended worse]

end TextGrammar
