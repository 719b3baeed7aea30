import Mathlib.Data.List.TakeWhile
import TextGrammar.Token.Split

/-!
# What a scan finds

A scan cuts its input into a gap, what is taken, and the rest. Here the scan is described by these
three pieces, without a word on how they are measured: a run of characters is followed by one that
does not belong to it, and what is unfinished is followed by nothing. The description is complete
(`scan_eq_iff`), so that everything else about scans goes by cases on it.
-/
namespace TextGrammar

/-! ## Runs -/

def Every (p : Char → Bool) (text : List Char) : Prop := ∀ char ∈ text, p char = true

/-- There is a character, and a run in front of it does not take it in. -/
def Stops (p : Char → Bool) (later : List Char) : Prop :=
  ∃ char rest, later = char :: rest ∧ p char = false

section Runs

variable {p : Char → Bool} {input run later rest : List Char} {char : Char}

theorem Every.imp {q : Char → Bool} (every : Every p run)
    (implies : ∀ char, p char = true → q char = true) : Every q run :=
  fun char member => implies char (every char member)

theorem Every.append (front : Every p run) (back : Every p later) : Every p (run ++ later) :=
  List.forall_mem_append.mpr ⟨front, back⟩

theorem Every.cons (rest : Every p run) (first : p char = true) : Every p (char :: run) :=
  List.forall_mem_cons.mpr ⟨first, rest⟩

theorem Stops.of_head (differs : p char = false) : Stops p (char :: rest) := ⟨_, _, rfl, differs⟩

theorem Stops.append (stops : Stops p later) (more : List Char) : Stops p (later ++ more) := by
  obtain ⟨char, rest, rfl, differs⟩ := stops
  exact .of_head differs

theorem every_takeWhile (p : Char → Bool) (input : List Char) : Every p (input.takeWhile p) :=
  fun _ member => List.mem_takeWhile_imp member

theorem takeWhile_run (every : Every p run) (stops : Stops p later) :
    (run ++ later).takeWhile p = run := by
  obtain ⟨char, rest, rfl, differs⟩ := stops
  rw [List.takeWhile_append_of_pos every, List.takeWhile_cons_of_neg (by simp [differs]),
    List.append_nil]

theorem dropWhile_run (every : Every p run) (stops : Stops p later) :
    (run ++ later).dropWhile p = later := by
  obtain ⟨char, rest, rfl, differs⟩ := stops
  rw [List.dropWhile_append_of_pos every, List.dropWhile_cons_of_neg (by simp [differs])]

theorem dropWhile_stops (stops : Stops p later) : later.dropWhile p = later :=
  dropWhile_run (List.forall_mem_nil _) stops

theorem takeWhile_all (every : Every p run) : run.takeWhile p = run :=
  List.takeWhile_eq_self_iff.mpr every

theorem dropWhile_all (every : Every p run) : run.dropWhile p = [] :=
  List.dropWhile_eq_nil_iff.mpr every

theorem stops_of_dropWhile (left : input.dropWhile p = char :: rest) :
    p char = false := by
  have stopped := List.head?_dropWhile_not p input
  rwa [left] at stopped

theorem split_of_dropWhile (left : input.dropWhile p = later) :
    input = input.takeWhile p ++ later := by
  rw [← left, List.takeWhile_append_dropWhile]

theorem trimEnd_split (drop : Char → Bool) (text : List Char) :
    ∃ dropped, text = Text.trimEnd drop text ++ dropped ∧ Every drop dropped ∧
      ∀ last ∈ (Text.trimEnd drop text).getLast?, drop last = false := by
  refine ⟨(text.reverse.takeWhile drop).reverse, ?_, ?_, ?_⟩
  · rw [Text.trimEnd, ← List.reverse_append, List.takeWhile_append_dropWhile, List.reverse_reverse]
  · intro char member
    exact List.mem_takeWhile_imp (List.mem_reverse.mp member)
  · intro last member
    rw [Text.trimEnd, List.getLast?_reverse] at member
    have stopped := List.head?_dropWhile_not drop text.reverse
    rwa [Option.mem_def.mp member] at stopped

theorem trimEnd_append {drop : Char → Bool} {text dropped : List Char}
    (ends : ∀ last ∈ text.getLast?, drop last = false) (every : Every drop dropped) :
    Text.trimEnd drop (text ++ dropped) = text := by
  have backwards : Every drop dropped.reverse := fun char member =>
    every char (List.mem_reverse.mp member)
  rw [Text.trimEnd, List.reverse_append, List.dropWhile_append_of_pos backwards]
  cases reversed : text.reverse with
  | nil => rw [List.reverse_eq_nil_iff.mp reversed]; rfl
  | cons last front =>
    have kept : drop last = false :=
      ends last (by rw [← List.head?_reverse, reversed]; exact rfl)
    rw [List.dropWhile_cons_of_neg (by simp [kept]), ← reversed, List.reverse_reverse]

end Runs

theorem isListSpace_of_isSpace {char : Char} (space : isSpace char = true) :
    isListSpace char = true := by
  simp [isListSpace, space]

theorem isBlank_of_isListSpace {char : Char} (space : isListSpace char = true) :
    Text.isBlank char = true := by
  simp only [isListSpace, isSpace, Bool.or_eq_true, decide_eq_true_eq] at space
  rcases space with ((rfl | rfl) | rfl) | rfl <;> rfl

/-! ## The description -/

/-- A name goes on as far as it can. In a template the joiners at its end are left behind. -/
inductive FindsName (below : List Mode) : Found → List Char → List Mode → Prop where
  | whole {first : Char} {text later : List Char} (outside : below.head? ≠ some .template)
      (letter : first.isAlpha = true) (plain : Every isNameChar text)
      (stops : Stops isNameChar later) :
      FindsName below (.token .name (first :: text)) later below
  | trimmed {first : Char} {text joiners later : List Char}
      (inside : below.head? = some .template) (letter : first.isAlpha = true)
      (plain : Every isNameChar text)
      (ends : ∀ last ∈ (first :: text).getLast?, isJoiner last = false)
      (joined : Every isJoiner joiners) (stops : Stops isNameChar later) :
      FindsName below (.token .name (first :: text)) (joiners ++ later) below
  | bad {char : Char} {later : List Char} (other : char.isAlpha = false) :
      FindsName below (.badCharacter char) (char :: later) (.name :: below)
  | unfinished {text : List Char} (starts : ∀ char ∈ text.head?, char.isAlpha = true)
      (plain : Every isNameChar text) :
      FindsName below (.unfinished "while reading an identifier" text) [] (.name :: below)

/-- The characters that do not begin a name at the top level, where all others are taken for the
beginning of one. -/
def marksTop (blankLine : Bool) (char : Char) : Bool :=
  isSpace char || char = '\n' || char = '"' || char = '[' || (char = '*' && blankLine)

inductive FindsTop (blankLine : Bool) (base : List Mode) :
    List Char → Found → List Char → List Mode → Prop where
  | finish {gap : List Char} (skipped : Every isSpace gap) :
      FindsTop blankLine base gap (.token .finish []) [] (.finished :: base)
  | lineBreak {gap later : List Char} (skipped : Every isSpace gap) :
      FindsTop blankLine base gap (.token .lineBreak ['\n']) later (.lineStart :: base)
  | openTemplate {gap later : List Char} (skipped : Every isSpace gap) :
      FindsTop blankLine base gap (.token .openQuote ['"']) later (.template :: base)
  | openList {gap later : List Char} (skipped : Every isSpace gap) :
      FindsTop blankLine base gap (.token .openBracket ['[']) later (.list :: base)
  | head {gap later : List Char} (skipped : Every isSpace gap) (fresh : blankLine = true) :
      FindsTop blankLine base gap (.token .head ['*']) later base
  | named {gap later rest : List Char} {found : Found} {modes : List Mode} {first : Char}
      (skipped : Every isSpace gap) (starts : found.taken ++ later = first :: rest)
      (unmarked : marksTop blankLine first = false) (finds : FindsName base found later modes) :
      FindsTop blankLine base gap found later modes

inductive FindsTemplate (below : List Mode) : Found → List Char → List Mode → Prop where
  | text {text later : List Char} (nonempty : text ≠ []) (plain : Every isTemplateText text)
      (stops : Stops isTemplateText later) :
      FindsTemplate below (.token .text text) later (.template :: below)
  | close {later : List Char} : FindsTemplate below (.token .closeQuote ['"']) later below
  | hash {later : List Char} :
      FindsTemplate below (.token .hash ['#']) later (.name :: .template :: below)
  | openList {later : List Char} :
      FindsTemplate below (.token .openBracket ['[']) later (.list :: .template :: below)
  | unfinished {text : List Char} (plain : Every isTemplateText text) :
      FindsTemplate below (.unfinished "inside a quoted string" text) [] (.template :: below)

inductive FindsList (below : List Mode) :
    List Char → Found → List Char → List Mode → Prop where
  | openList {gap later : List Char} (skipped : Every isListSpace gap) :
      FindsList below gap (.token .openBracket ['[']) later (.list :: .list :: below)
  | openTemplate {gap later : List Char} (skipped : Every isListSpace gap) :
      FindsList below gap (.token .openQuote ['"']) later (.template :: .list :: below)
  | comma {gap later : List Char} (skipped : Every isListSpace gap) :
      FindsList below gap (.token .comma [',']) later (.list :: below)
  | close {gap later : List Char} (skipped : Every isListSpace gap) :
      FindsList below gap (.token .closeBracket [']']) later below
  | text {gap text later : List Char} {first : Char} (skipped : Every isListSpace gap)
      (starts : isListSpace first = false) (plain : Every isItemText (first :: text))
      (stops : Stops isItemText later) :
      FindsList below gap (.token .text (first :: text)) later (.list :: below)
  | unfinished {gap text : List Char} (skipped : Every isListSpace gap)
      (starts : ∀ char ∈ text.head?, isListSpace char = false) (plain : Every isItemText text) :
      FindsList below gap (.unfinished "inside a list" text) [] (.list :: below)

/-- With these modes the input can be cut into a gap, what is found, and what is left, and then come
those modes. A star right at a line start is a header whatever stands in front of it. -/
inductive Finds (blankLine : Bool) :
    List Mode → List Char → Found → List Char → List Mode → Prop where
  | top {below gap later modes : List _} {found : Found}
      (finds : FindsTop blankLine (.top :: below) gap found later modes) :
      Finds blankLine (.top :: below) gap found later modes
  | header {below : List Mode} {later : List Char} :
      Finds blankLine (.lineStart :: below) [] (.token .head ['*']) later below
  | lineStart {below gap later modes : List _} {found : Found}
      (other : (gap ++ (found.taken ++ later)).head? ≠ some '*')
      (finds : FindsTop blankLine below gap found later modes) :
      Finds blankLine (.lineStart :: below) gap found later modes
  | template {below later modes : List _} {found : Found}
      (finds : FindsTemplate below found later modes) :
      Finds blankLine (.template :: below) [] found later modes
  | name {below later modes : List _} {found : Found} (finds : FindsName below found later modes) :
      Finds blankLine (.name :: below) [] found later modes
  | list {below gap later modes : List _} {found : Found}
      (finds : FindsList below gap found later modes) :
      Finds blankLine (.list :: below) gap found later modes
  | finished {below : List Mode} {later : List Char} :
      Finds blankLine (.finished :: below) [] (.token .finish []) later (.finished :: below)
  | none {later : List Char} : Finds blankLine [] [] (.token .finish []) later []

/-! ## What is found is what is described -/

/-- The input is cut into the pieces of the scan and a rest, and these are as described. -/
def Scan.Meets (scan : Scan) (input : List Char)
    (finds : List Char → Found → List Char → List Mode → Prop) : Prop :=
  ∃ later, input = scan.gap ++ (scan.found.taken ++ later) ∧
    finds scan.gap scan.found later scan.modes

/-- Trimming a name leaves its first letter alone. -/
theorem trimEnd_name {first : Char} (letter : first.isAlpha = true) (run : List Char) :
    ∃ text joiners, Text.trimEnd isJoiner (first :: run) = first :: text ∧
      run = text ++ joiners ∧ Every isJoiner joiners ∧
      ∀ last ∈ (first :: text).getLast?, isJoiner last = false := by
  obtain ⟨joiners, whole, joined, ends⟩ := trimEnd_split isJoiner (first :: run)
  have nonempty : Text.trimEnd isJoiner (first :: run) ≠ [] :=
    trimEnd_ne_nil List.mem_cons_self (not_joiner_of_isAlpha letter)
  obtain ⟨first', text, trimmed⟩ := List.exists_cons_of_ne_nil nonempty
  rw [trimmed] at whole ends
  obtain ⟨rfl, rest⟩ := List.cons.inj whole
  exact ⟨text, joiners, trimmed, rest, joined, ends⟩

theorem isNameChar_of_isAlpha {char : Char} (letter : char.isAlpha = true) :
    isNameChar char = true := by
  simp [isNameChar, Char.isAlphanum, letter]

theorem isNameChar_of_isJoiner {char : Char} (joiner : isJoiner char = true) :
    isNameChar char = true := by
  simp [isNameChar, joiner]

theorem isAlphanum_of_isNameChar {char : Char} (belongs : isNameChar char = true)
    (solid : isJoiner char = false) : char.isAlphanum = true := by
  simpa [isNameChar, solid] using belongs

theorem scanName_meets (below : List Mode) (input : List Char) :
    (scanName below input).Meets input fun _ => FindsName below := by
  unfold scanName
  split
  · exact ⟨[], rfl, .unfinished nofun nofun⟩
  next first text =>
    split
    next letter =>
      dsimp only
      split
      next ended =>
        have plain := List.dropWhile_eq_nil_iff.mp ended
        rw [takeWhile_all plain]
        exact ⟨[], by simp [Found.taken], .unfinished (by simpa using letter) plain⟩
      next char rest left =>
        have cut := split_of_dropWhile left
        have stops : Stops isNameChar (char :: rest) := .of_head (stops_of_dropWhile left)
        have plain := every_takeWhile isNameChar text
        rw [List.takeWhile_cons_of_pos (isNameChar_of_isAlpha letter)] at cut ⊢
        generalize text.takeWhile isNameChar = run at cut plain ⊢
        split
        next inside =>
          -- inside of a template, joiners at the end of the run are left to the text behind it
          obtain ⟨name, joiners, trimmed, rfl, joined, ends⟩ := trimEnd_name letter run
          rw [trimmed]
          refine ⟨joiners ++ char :: rest, by simp [cut, Found.taken], ?_⟩
          exact .trimmed inside letter (List.forall_mem_append.mp plain).1 ends joined stops
        next outside => exact ⟨char :: rest, cut, .whole outside letter plain stops⟩
    next other => exact ⟨first :: text, rfl, .bad (by simpa using other)⟩

theorem FindsName.scan {below later modes : List _} {found : Found}
    (finds : FindsName below found later modes) :
    scanName below (found.taken ++ later) = ⟨[], found, modes⟩ := by
  cases finds with
  | @whole first text later outside letter plain stops =>
    have plain' := plain.cons (isNameChar_of_isAlpha letter)
    have run := takeWhile_run plain' stops
    have left := dropWhile_run plain' stops
    obtain ⟨char, rest, rfl, _⟩ := stops
    simp only [Found.taken, scanName, List.cons_append] at run left ⊢
    simp [letter, run, left, outside]
  | @trimmed first text joiners later inside letter plain ends joined stops =>
    have joiners' := joined.imp fun _ => isNameChar_of_isJoiner
    have plain' := (plain.cons (isNameChar_of_isAlpha letter)).append joiners'
    have run := takeWhile_run plain' stops
    have left := dropWhile_run plain' stops
    have trimmed := trimEnd_append ends joined
    obtain ⟨char, rest, rfl, _⟩ := stops
    simp only [Found.taken, scanName, List.cons_append, List.append_assoc] at run left trimmed ⊢
    simp [letter, run, left, inside, trimmed]
  | bad other => simp [Found.taken, scanName, other]
  | @unfinished text starts plain =>
    cases text with
    | nil => rfl
    | cons first text =>
      have letter : first.isAlpha = true := starts first rfl
      have run := takeWhile_all plain
      have left := dropWhile_all plain
      simp [Found.taken, scanName, letter, run, left]

theorem scanTop_meets (blankLine : Bool) (base : List Mode) (input : List Char) :
    (scanTop blankLine base input).Meets input (FindsTop blankLine base) := by
  unfold scanTop
  dsimp only
  have skipped := every_takeWhile isSpace input
  split
  next left =>
    have cut := split_of_dropWhile left
    exact ⟨[], cut, .finish skipped⟩
  next char rest left =>
    have cut := split_of_dropWhile left
    have differs := stops_of_dropWhile left
    generalize input.takeWhile isSpace = gap at cut skipped ⊢
    subst cut
    split
    next isBreak => exact ⟨rest, by simp [Found.taken], isBreak ▸ .lineBreak skipped⟩
    next notBreak =>
      split
      next isQuote => exact ⟨rest, by simp [Found.taken], isQuote ▸ .openTemplate skipped⟩
      next notQuote =>
        split
        next isBracket => exact ⟨rest, by simp [Found.taken], isBracket ▸ .openList skipped⟩
        next notBracket =>
          split
          next isHead =>
            simp only [Bool.and_eq_true, decide_eq_true_eq] at isHead
            obtain ⟨rfl, fresh⟩ := isHead
            exact ⟨rest, by simp [Found.taken], .head skipped fresh⟩
          next notHead =>
            have unmarked : marksTop blankLine char = false := by
              simp only [Bool.not_eq_true] at notHead
              simp [marksTop, differs, notBreak, notQuote, notBracket, notHead]
            obtain ⟨later, cut, finds⟩ := scanName_meets base (char :: rest)
            rw [scanName_gap, List.nil_append] at cut
            exact ⟨later, congrArg (gap ++ ·) cut, .named skipped cut.symm unmarked finds⟩

/-- A gap is skipped, and what comes behind it is scanned as if it came first. -/
theorem scanTop_skip {gap rest : List Char} {char : Char} (skipped : Every isSpace gap)
    (differs : isSpace char = false) (blankLine : Bool) (base : List Mode) :
    scanTop blankLine base (gap ++ char :: rest) =
      { scanTop blankLine base (char :: rest) with gap := gap } := by
  have stops : Stops isSpace (char :: rest) := .of_head differs
  simp only [scanTop, takeWhile_run skipped stops, dropWhile_run skipped stops,
    dropWhile_stops stops]
  repeat' split
  all_goals rfl

theorem FindsTop.scan {blankLine : Bool} {base gap later modes : List _} {found : Found}
    (finds : FindsTop blankLine base gap found later modes) :
    scanTop blankLine base (gap ++ (found.taken ++ later)) = ⟨gap, found, modes⟩ := by
  cases finds with
  | finish skipped =>
    simp [Found.taken, scanTop, takeWhile_all skipped, dropWhile_all skipped]
  | lineBreak skipped => exact scanTop_skip skipped rfl blankLine base
  | openTemplate skipped => exact scanTop_skip skipped rfl blankLine base
  | openList skipped => exact scanTop_skip skipped rfl blankLine base
  | head skipped fresh =>
    subst fresh
    exact scanTop_skip skipped rfl true base
  | @named _ _ rest _ first skipped starts unmarked finds =>
    simp only [marksTop, Bool.or_eq_false_iff, decide_eq_false_iff_not] at unmarked
    obtain ⟨⟨⟨⟨differs, notBreak⟩, notQuote⟩, notBracket⟩, notHead⟩ := unmarked
    have named := finds.scan
    rw [starts] at named ⊢
    rw [scanTop_skip skipped differs]
    simp [scanTop, differs, notBreak, notQuote, notBracket, notHead, named]

theorem scanTemplate_meets (blankLine : Bool) (below : List Mode) (input : List Char) :
    (scanTemplate below input).Meets input (Finds blankLine (.template :: below)) := by
  unfold scanTemplate
  dsimp only
  have plain := every_takeWhile isTemplateText input
  split
  next ended =>
    have cut := split_of_dropWhile ended
    exact ⟨[], by simpa [Found.taken] using cut, .template (.unfinished plain)⟩
  next char rest left =>
    have cut := split_of_dropWhile left
    have differs := stops_of_dropWhile left
    generalize input.takeWhile isTemplateText = run at cut plain ⊢
    subst cut
    split
    next nonempty => exact ⟨char :: rest, rfl, .template (.text nonempty plain (.of_head differs))⟩
    next empty =>
      obtain rfl : run = [] := Decidable.not_not.mp empty
      refine ⟨rest, ?_, ?_⟩
      · split
        · rfl
        · split <;> rfl
      · split
        next isQuote => exact isQuote ▸ .template .close
        next notQuote =>
          split
          next isHash => exact isHash ▸ .template .hash
          next notHash =>
            obtain rfl : char = '[' := by
              simpa [isTemplateText, notQuote, notHash] using differs
            exact .template .openList

theorem FindsTemplate.scan {below later modes : List _} {found : Found}
    (finds : FindsTemplate below found later modes) :
    scanTemplate below (found.taken ++ later) = ⟨[], found, modes⟩ := by
  cases finds with
  | text nonempty plain stops =>
    have run := takeWhile_run plain stops
    have left := dropWhile_run plain stops
    obtain ⟨char, rest, rfl, _⟩ := stops
    simp [Found.taken, scanTemplate, run, left, nonempty]
  | close | hash | openList => simp [Found.taken, scanTemplate, isTemplateText]
  | unfinished plain =>
    simp [Found.taken, scanTemplate, takeWhile_all plain, dropWhile_all plain]

theorem scanList_meets (below : List Mode) (input : List Char) :
    (scanList below input).Meets input (FindsList below) := by
  unfold scanList
  dsimp only
  have skipped := every_takeWhile isListSpace input
  split
  next left =>
    have cut := split_of_dropWhile left
    exact ⟨[], cut, .unfinished skipped nofun nofun⟩
  next char rest left =>
    have cut := split_of_dropWhile left
    have differs := stops_of_dropWhile left
    generalize input.takeWhile isListSpace = gap at cut skipped ⊢
    subst cut
    split
    next isBracket => exact ⟨rest, by simp [Found.taken], isBracket ▸ .openList skipped⟩
    next notBracket =>
      split
      next isQuote => exact ⟨rest, by simp [Found.taken], isQuote ▸ .openTemplate skipped⟩
      next notQuote =>
        split
        next isComma => exact ⟨rest, by simp [Found.taken], isComma ▸ .comma skipped⟩
        next notComma =>
          split
          next isClose => exact ⟨rest, by simp [Found.taken], isClose ▸ .close skipped⟩
          next notClose =>
            have item := isItemText_of_not_delimiter notBracket notQuote notComma notClose
            have plain := every_takeWhile isItemText (char :: rest)
            split
            next ended =>
              have run := takeWhile_all (List.dropWhile_eq_nil_iff.mp ended)
              rw [run] at plain ⊢
              refine ⟨[], by simp [Found.taken], .unfinished skipped ?_ plain⟩
              simpa using differs
            next stop later left =>
              have cut := split_of_dropWhile left
              have stops : Stops isItemText (stop :: later) := .of_head (stops_of_dropWhile left)
              rw [List.takeWhile_cons_of_pos item] at cut plain ⊢
              exact ⟨stop :: later, congrArg (gap ++ ·) cut, .text skipped differs plain stops⟩

theorem scanList_skip {gap rest : List Char} {char : Char} (skipped : Every isListSpace gap)
    (differs : isListSpace char = false) (below : List Mode) :
    scanList below (gap ++ char :: rest) =
      { scanList below (char :: rest) with gap := gap } := by
  have stops : Stops isListSpace (char :: rest) := .of_head differs
  simp only [scanList, takeWhile_run skipped stops, dropWhile_run skipped stops,
    dropWhile_stops stops]
  repeat' split
  all_goals rfl

theorem FindsList.scan {below gap later modes : List _} {found : Found}
    (finds : FindsList below gap found later modes) :
    scanList below (gap ++ (found.taken ++ later)) = ⟨gap, found, modes⟩ := by
  cases finds with
  | openList skipped => exact scanList_skip skipped rfl below
  | openTemplate skipped => exact scanList_skip skipped rfl below
  | comma skipped => exact scanList_skip skipped rfl below
  | close skipped => exact scanList_skip skipped rfl below
  | @text text _ first skipped starts plain stops =>
    have run := takeWhile_run plain stops
    have left := dropWhile_run plain stops
    have item := plain first List.mem_cons_self
    simp only [isItemText, Bool.not_eq_true', Bool.or_eq_false_iff, decide_eq_false_iff_not] at item
    obtain ⟨⟨⟨notComma, notClose⟩, notQuote⟩, notBracket⟩ := item
    obtain ⟨char, rest, rfl, _⟩ := stops
    simp only [Found.taken, List.cons_append] at run left ⊢
    rw [scanList_skip skipped starts]
    simp [scanList, starts, notComma, notClose, notQuote, notBracket, run, left]
  | @unfinished text skipped starts plain =>
    cases text with
    | nil => simp [Found.taken, scanList, takeWhile_all skipped, dropWhile_all skipped]
    | cons first text =>
      have starts := starts first rfl
      have item := plain first List.mem_cons_self
      simp only [isItemText, Bool.not_eq_true', Bool.or_eq_false_iff,
        decide_eq_false_iff_not] at item
      obtain ⟨⟨⟨notComma, notClose⟩, notQuote⟩, notBracket⟩ := item
      have run := takeWhile_all plain
      have left := dropWhile_all plain
      simp only [Found.taken, List.append_nil]
      rw [scanList_skip skipped starts]
      simp [scanList, starts, notComma, notClose, notQuote, notBracket, run, left]

/-- At a fresh line a line start is worth no more than the top level. -/
theorem scanLineStart_fresh (base : List Mode) (input : List Char) :
    scanLineStart true base input = scanTop true base input := by
  unfold scanLineStart
  split <;> rfl

theorem scanLineStart_meets (blankLine : Bool) (below : List Mode) (input : List Char) :
    (scanLineStart blankLine below input).Meets input (Finds blankLine (.lineStart :: below)) := by
  unfold scanLineStart
  split
  next rest => exact ⟨rest, rfl, .header⟩
  next other =>
    obtain ⟨later, cut, finds⟩ := scanTop_meets blankLine below input
    refine ⟨later, cut, .lineStart ?_ finds⟩
    rw [← cut]
    intro star
    obtain ⟨rest, isStar⟩ := List.head?_eq_some_iff.mp star
    exact other rest isStar

theorem scan_meets (blankLine : Bool) (modes : List Mode) (input : List Char) :
    (scan blankLine modes input).Meets input (Finds blankLine modes) := by
  unfold scan
  split
  next below =>
    obtain ⟨later, cut, finds⟩ := scanTop_meets blankLine (.top :: below) input
    exact ⟨later, cut, .top finds⟩
  next below => exact scanLineStart_meets blankLine below input
  next below => exact scanTemplate_meets blankLine below input
  next below =>
    obtain ⟨later, cut, finds⟩ := scanName_meets below input
    exact ⟨later, cut, scanName_gap below input ▸ .name finds⟩
  next below =>
    obtain ⟨later, cut, finds⟩ := scanList_meets below input
    exact ⟨later, cut, .list finds⟩
  next => exact ⟨input, rfl, .finished⟩
  next => exact ⟨input, rfl, .none⟩

theorem Finds.scan {blankLine : Bool} {modes gap later modes' : List _} {found : Found}
    (finds : Finds blankLine modes gap found later modes') :
    scan blankLine modes (gap ++ (found.taken ++ later)) = ⟨gap, found, modes'⟩ := by
  cases finds with
  | top finds => exact finds.scan
  | header => rfl
  | lineStart other finds =>
    have scanned := finds.scan
    simp only [TextGrammar.scan, scanLineStart]
    split
    next rest isStar =>
      rw [isStar] at other
      exact absurd rfl other
    next => exact scanned
  | template finds => exact finds.scan
  | name finds => exact finds.scan
  | list finds => exact finds.scan
  | finished => rfl
  | none => rfl

/-- A scan comes to this just when the input can be cut in the way that is described. -/
theorem scan_eq_iff {blankLine : Bool} {modes input gap modes' : List _} {found : Found} :
    scan blankLine modes input = ⟨gap, found, modes'⟩ ↔
      ∃ later, input = gap ++ (found.taken ++ later) ∧
        Finds blankLine modes gap found later modes' := by
  constructor
  · intro scanned
    have meets := scan_meets blankLine modes input
    rwa [scanned] at meets
  · rintro ⟨later, rfl, finds⟩
    exact finds.scan

end TextGrammar
