import TextGrammar.Proofs.Expansion.Meaning

/-!
# A run does what the parts mean

A run only depends on the parts that are left to do, whichever way they are spread over the sequence
at hand and the rests put aside. With `todo` for these parts, an expansion of the first of them is a
number of steps that ends with the others left to do, or with a fault; and conversely a run that
ends within some number of steps has an expansion of everything that was left to do behind it.
-/
namespace TextGrammar

def Ending.ofResult : Except ExpansionFault String → Ending
  | .ok value => .text value
  | .error reason => .fault reason

theorem Ending.ofResult_inj {result result' : Except ExpansionFault String} :
    ofResult result = ofResult result' ↔ result = result' := by
  cases result <;> cases result' <;> simp [ofResult]

/-- Expanding `name` without a limit ends with this result, whatever the patience once it is
enough. -/
def Lexicon.ExpandsTo {σ : Type} [Chooser σ] (lexicon : Lexicon) (name : String) (source : σ)
    (result : Except ExpansionFault String) (draws : List Draw) (after : σ) : Prop :=
  ∃ enough, ∀ patience, enough ≤ patience →
    lexicon.expand name none patience source = ⟨.ofResult result, draws, after⟩

theorem nextPart_none {current : List Part} {pending : List (List Part)}
    (none : nextPart current pending = none) : current ++ pending.flatten = [] := by
  fun_induction nextPart current pending with
  | case1 part rest pending => cases none
  | case2 frame pending ih => simpa using ih none
  | case3 => rfl

theorem nextPart_some {current rest : List Part} {pending pending' : List (List Part)} {part : Part}
    (next : nextPart current pending = some (part, rest, pending')) :
    current ++ pending.flatten = part :: (rest ++ pending'.flatten) := by
  fun_induction nextPart current pending with
  | case1 part rest pending => cases next; rfl
  | case2 frame pending ih => simpa using ih next
  | case3 => cases next

namespace Run

variable {σ : Type}

def todo (run : Run σ) : List Part := run.current ++ run.pending.flatten

@[simp] theorem todo_write (text : String) (run : Run σ) : (run.write text).todo = run.todo := rfl

@[simp] theorem todo_enter (parts : List Part) (run : Run σ) :
    (run.enter parts).todo = parts ++ run.todo := by
  unfold enter todo
  split
  next done => simp [List.isEmpty_iff.mp done]
  next => simp

variable [Chooser σ] {lexicon : Lexicon} {name : String}

theorem take_choice (item : Alternative) (others : List Alternative) (run : Run σ) :
    run.take lexicon name (.choice (item :: others)) =
      match (item :: others).get (Chooser.choose others.length run.source).1 with
      | .text value => .ok ((run.draw others.length).2.write value)
      | .sequence parts => .ok ((run.draw others.length).2.enter parts) := rfl

theorem take_reference {other : String} {rule : Rule} (defined : lexicon.rule? other = some rule)
    (run : Run σ) : run.take lexicon name (.reference other) = .ok (run.enter rule) := by
  simp only [take, defined]

theorem proceed_done {run : Run σ} (todo : run.todo = []) (steps : Nat) :
    run.proceed lexicon name steps = run.stop (.text run.output) := by
  unfold proceed
  split
  · rfl
  next next =>
    have nonempty := nextPart_some next
    rw [← Run.todo, todo] at nonempty
    cases nonempty

/-- `taken` is the run when its next part has been taken up but not been acted on: that part then
decides how the run goes on. -/
structure TakesUp (lexicon : Lexicon) (name : String) (run : Run σ) (part : Part)
    (rest : List Part) (taken : Run σ) : Prop where
  output : taken.output = run.output
  made : taken.draws = run.draws
  source : taken.source = run.source
  todo : taken.todo = rest
  stalls : run.proceed lexicon name 0 = run.stop .unfinished
  proceeds : ∀ steps, run.proceed lexicon name (steps + 1) =
    match taken.take lexicon name part with
    | .ok next => next.proceed lexicon name steps
    | .error outcome => outcome

theorem exists_takesUp (lexicon : Lexicon) (name : String) {run : Run σ} {part : Part}
    {rest : List Part} (todo : run.todo = part :: rest) :
    ∃ taken, TakesUp lexicon name run part rest taken := by
  cases next : nextPart run.current run.pending with
  | none =>
    have empty := nextPart_none next
    rw [← Run.todo, todo] at empty
    cases empty
  | some found =>
    obtain ⟨part', current, pending⟩ := found
    have front := nextPart_some next
    rw [← Run.todo, todo] at front
    cases front
    -- putting frames away changes neither what is left to do nor what has happened
    refine ⟨{ run with current := current, pending := pending }, rfl, rfl, rfl, rfl, ?_, ?_⟩
    · rw [proceed, next]
    · intro steps
      rw [proceed]
      exact next ▸ rfl

/-- From `run` on, `result` comes of the parts in front of `rest`: their text is written and `rest`
is left to do, or their fault ends the run. -/
def Carries (lexicon : Lexicon) (name : String) (run : Run σ)
    (result : Except ExpansionFault String) (draws : List Draw) (after : σ) (rest : List Part) :
    Prop :=
  match result with
  | .ok text => ∃ steps, ∃ later : Run σ, later.output = run.output ++ text ∧
      later.draws = draws.reverse ++ run.draws ∧ later.source = after ∧ later.todo = rest ∧
      ∀ more, run.proceed lexicon name (steps + more) = later.proceed lexicon name more
  | .error fault => ∃ steps, ∀ more, run.proceed lexicon name (steps + more) =
      ⟨.fault fault, run.draws.reverse ++ draws, after⟩

theorem Carries.nothing {run : Run σ} : run.Carries lexicon name (.ok "") [] run.source run.todo :=
  ⟨0, run, by simp, by simp, rfl, rfl, fun more => by rw [Nat.zero_add]⟩

/-- What comes of `next` comes of `run`, after what has happened in between. -/
theorem Carries.advance {run next : Run σ} {steps : Nat} {text : String}
    {result : Except ExpansionFault String} {draws later : List Draw} {after : σ}
    {rest : List Part}
    (proceeds : ∀ more, run.proceed lexicon name (steps + more) = next.proceed lexicon name more)
    (output : next.output = run.output ++ text) (made : next.draws = draws.reverse ++ run.draws)
    (carries : next.Carries lexicon name result later after rest) :
    run.Carries lexicon name (result.map (text ++ ·)) (draws ++ later) after rest := by
  cases result with
  | ok text' =>
    obtain ⟨steps', last, output', made', source', todo', proceeds'⟩ := carries
    refine ⟨steps + steps', last, ?_, ?_, source', todo', fun more => ?_⟩
    · rw [output', output, String.append_assoc]
    · rw [made', made, List.reverse_append, List.append_assoc]
    · rw [Nat.add_assoc, proceeds, proceeds']
  | error fault =>
    obtain ⟨steps', ends⟩ := carries
    refine ⟨steps + steps', fun more => ?_⟩
    rw [Nat.add_assoc, proceeds, ends, made]
    simp

theorem Carries.follow {run : Run σ} {text : String} {result : Except ExpansionFault String}
    {draws later : List Draw} {middle after : σ} {between rest : List Part}
    (first : run.Carries lexicon name (.ok text) draws middle between)
    (follows : ∀ next : Run σ, next.todo = between → next.source = middle →
      next.Carries lexicon name result later after rest) :
    run.Carries lexicon name (result.map (text ++ ·)) (draws ++ later) after rest := by
  obtain ⟨steps, next, output, made, source, todo, proceeds⟩ := first
  exact .advance proceeds output made (follows next todo source)

/-- `drawn` is `taken` after nothing but some draws. -/
structure Drawn (taken : Run σ) (draws : List Draw) (drawn : Run σ) : Prop where
  output : drawn.output = taken.output
  made : drawn.draws = draws.reverse ++ taken.draws
  todo : drawn.todo = taken.todo
  makes : Chooser.Makes taken.source draws drawn.source

theorem Drawn.refl (taken : Run σ) : Drawn taken [] taken := ⟨rfl, rfl, rfl, .nil _⟩

theorem Drawn.draw (taken : Run σ) (others : Nat) :
    Drawn taken [⟨others + 1, (Chooser.choose others taken.source).1⟩] (taken.draw others).2 :=
  ⟨rfl, rfl, rfl, .cons rfl (.nil _)⟩

section Taken

variable {run taken drawn : Run σ} {part : Part} {rest target : List Part} {draws later : List Draw}
  {text : String} {fault : ExpansionFault} {result : Except ExpansionFault String} {after : σ}

theorem Carries.fail (up : TakesUp lexicon name run part rest taken)
    (took : taken.take lexicon name part = .error (taken.stop (.fault fault))) :
    run.Carries lexicon name (.error fault) [] run.source rest := by
  refine ⟨1, fun more => ?_⟩
  rw [Nat.add_comm, up.proceeds, took]
  simp [stop, up.made, up.source]

theorem Carries.write (up : TakesUp lexicon name run part rest taken)
    (drawing : Drawn taken draws drawn)
    (took : taken.take lexicon name part = .ok (drawn.write text)) :
    run.Carries lexicon name (.ok text) draws drawn.source rest := by
  refine ⟨1, drawn.write text, ?_, ?_, rfl, ?_, fun more => ?_⟩
  · rw [← up.output, ← drawing.output]
    rfl
  · exact up.made ▸ drawing.made
  · rw [todo_write, drawing.todo, up.todo]
  · rw [Nat.add_comm, up.proceeds, took]

/-- Going on with a sequence comes to what the sequence comes to. -/
theorem Carries.enter (up : TakesUp lexicon name run part rest taken)
    (drawing : Drawn taken draws drawn)
    (took : taken.take lexicon name part = .ok (drawn.enter target))
    (inner : (drawn.enter target).todo = target ++ rest →
      (drawn.enter target).Carries lexicon name result later after rest) :
    run.Carries lexicon name result (draws ++ later) after rest := by
  have proceeds (more : Nat) : run.proceed lexicon name (1 + more) =
      (drawn.enter target).proceed lexicon name more := by
    rw [Nat.add_comm, up.proceeds, took]
  -- entering writes nothing, so the text that comes before the sequence is empty
  have silent : (drawn.enter target).output = run.output ++ "" := by
    rw [String.append_empty, ← up.output, ← drawing.output]
    rfl
  have left : (drawn.enter target).todo = target ++ rest := by
    rw [todo_enter, drawing.todo, up.todo]
  have carried := (inner left).advance proceeds silent (up.made ▸ drawing.made)
  rwa [map_append_nothing] at carried

end Taken

/-- What taking up a part can lead to, and what it says about the meaning of the part. -/
inductive Turn (lexicon : Lexicon) (name : String) (taken : Run σ) (part : Part) :
    Except (Outcome σ) (Run σ) → Prop where
  | fails {fault : ExpansionFault} (means : part.Expands lexicon name (.error fault) []) :
      Turn lexicon name taken part (.error (taken.stop (.fault fault)))
  | writes {text : String} {draws : List Draw} {drawn : Run σ} (drawing : Drawn taken draws drawn)
      (means : part.Expands lexicon name (.ok text) draws) :
      Turn lexicon name taken part (.ok (drawn.write text))
  | enters {target : List Part} {draws : List Draw} {drawn : Run σ}
      (drawing : Drawn taken draws drawn)
      (means : ∀ result later, Part.AllExpand lexicon name target result later →
        part.Expands lexicon name result (draws ++ later)) :
      Turn lexicon name taken part (.ok (drawn.enter target))

theorem take_turn (lexicon : Lexicon) (name : String) (taken : Run σ) (part : Part) :
    Turn lexicon name taken part (taken.take lexicon name part) := by
  cases part with
  | text value => exact .writes (.refl taken) (.text value)
  | sequence parts => exact .fails (.misplaced parts)
  | reference other =>
    cases defined : lexicon.rule? other with
    | none =>
      simp only [take, defined]
      exact .fails (.unknown defined)
    | some rule =>
      rw [take_reference defined]
      exact .enters (.refl taken) fun _ _ expand => .reference defined expand
  | choice items =>
    cases items with
    | nil =>
      -- nothing happens, which is to write the empty text
      have silent : taken.write "" = taken := by simp [Run.write]
      have turn : Turn lexicon name taken (.choice []) (.ok (taken.write "")) :=
        .writes (.refl taken) .emptyChoice
      rw [silent] at turn
      exact turn
    | cons item others =>
      rw [take_choice]
      split
      next value picked => exact .writes (.draw taken others.length) (.pickedText _ picked)
      next parts picked =>
        exact .enters (.draw taken others.length) fun _ _ expand =>
          .pickedSequence _ picked expand

end Run

section Forward

open Run

variable {σ : Type} [Chooser σ] {lexicon : Lexicon} {name : String}

/-- A source that makes a draw leads a choice to the item that was drawn. -/
theorem Run.take_picked {items : List Alternative} {taken : Run σ} {pick : Fin items.length}
    {later : List Draw} {after : σ}
    (makes : Chooser.Makes taken.source (⟨items.length, pick⟩ :: later) after) :
    ∃ drawn : Run σ, Drawn taken [⟨items.length, pick⟩] drawn ∧
      Chooser.Makes drawn.source later after ∧
      taken.take lexicon name (.choice items) =
        match items.get pick with
        | .text value => .ok (drawn.write value)
        | .sequence parts => .ok (drawn.enter parts) := by
  cases items with
  | nil => exact pick.elim0
  | cons item others =>
    obtain ⟨chosen, rest⟩ := Chooser.makes_cons_iff.mp makes
    have same : (Chooser.choose others.length taken.source).1 = pick := Fin.ext chosen
    refine ⟨(taken.draw others.length).2, ?_, rest, ?_⟩
    · rw [← same]
      exact .draw taken others.length
    · rw [take_choice, same]

-- By induction on the expansion. What is left to do behind the part is arbitrary, so the steps that
-- a part takes can be followed by those of the parts after it.
mutual

theorem Part.Expands.carried {part : Part} {result : Except ExpansionFault String}
    {draws : List Draw} {run : Run σ} {rest : List Part} {after : σ}
    (expands : part.Expands lexicon name result draws) (todo : run.todo = part :: rest)
    (makes : Chooser.Makes run.source draws after) :
    run.Carries lexicon name result draws after rest := by
  obtain ⟨taken, up⟩ := exists_takesUp lexicon name todo
  rw [← up.source] at makes
  match expands with
  | .text value =>
    obtain rfl := Chooser.makes_nil_iff.mp makes
    exact .write up (.refl taken) rfl
  | .emptyChoice =>
    obtain rfl := Chooser.makes_nil_iff.mp makes
    refine .write up (.refl taken) ?_
    simp [take, Run.write]
  | .pickedText pick picked =>
    obtain ⟨drawn, drawing, drawn_makes, took⟩ := take_picked makes
    obtain rfl := Chooser.makes_nil_iff.mp drawn_makes
    rw [picked] at took
    exact .write up drawing took
  | .pickedSequence pick picked expand =>
    obtain ⟨drawn, drawing, drawn_makes, took⟩ := take_picked makes
    rw [picked] at took
    exact .enter up drawing took fun left => expand.carried left drawn_makes
  | .reference defined expand =>
    exact .enter up (.refl taken) (take_reference defined taken) fun left =>
      expand.carried left makes
  | .unknown undefined =>
    obtain rfl := Chooser.makes_nil_iff.mp makes
    rw [up.source]
    exact .fail up (by simp only [take, undefined])
  | .misplaced parts =>
    obtain rfl := Chooser.makes_nil_iff.mp makes
    rw [up.source]
    exact .fail up rfl

theorem Part.AllExpand.carried {parts : List Part} {result : Except ExpansionFault String}
    {draws : List Draw} {run : Run σ} {rest : List Part} {after : σ}
    (expand : Part.AllExpand lexicon name parts result draws) (todo : run.todo = parts ++ rest)
    (makes : Chooser.Makes run.source draws after) :
    run.Carries lexicon name result draws after rest := by
  match expand with
  | .nil =>
    obtain rfl := Chooser.makes_nil_iff.mp makes
    obtain rfl : run.todo = rest := todo
    exact .nothing
  | .cons first others =>
    obtain ⟨middle, front, back⟩ := Chooser.makes_append_iff.mp makes
    exact (first.carried todo front).follow fun next left source =>
      others.carried left (source ▸ back)
  | .stop first =>
    -- a fault does not care about what is left to do
    have stopped : run.Carries lexicon name _ draws after (_ ++ rest) := first.carried todo makes
    exact stopped

end

theorem Lexicon.expand_defined {rule : Rule} (defined : lexicon.rule? name = some rule)
    (patience : Nat) (source : σ) :
    lexicon.expand name none patience source =
      Run.proceed lexicon name patience ⟨"", rule, [], [], source⟩ := by
  simp only [Lexicon.expand, defined]

/-- What an expansion comes to is how the expansion by a run ends. -/
theorem Part.Expands.expandsTo {source after : σ} {result : Except ExpansionFault String}
    {draws : List Draw} (expands : (Part.reference name).Expands lexicon name result draws)
    (makes : Chooser.Makes source draws after) :
    lexicon.ExpandsTo name source result draws after := by
  cases expands with
  | unknown undefined =>
    obtain rfl := Chooser.makes_nil_iff.mp makes
    refine ⟨0, fun patience _ => ?_⟩
    simp only [Lexicon.expand, undefined]
    rfl
  | @reference _ rule _ _ defined expand =>
    have carried : Run.Carries lexicon name ⟨"", rule, [], [], source⟩ result draws after [] :=
      expand.carried (by simp [todo]) makes
    cases result with
    | error fault =>
      obtain ⟨steps, ends⟩ := carried
      refine ⟨steps, fun patience enough => ?_⟩
      obtain ⟨more, rfl⟩ := Nat.exists_eq_add_of_le enough
      rw [Lexicon.expand_defined defined, ends]
      rfl
    | ok text =>
      obtain ⟨steps, later, output, made, rfl, done, proceeds⟩ := carried
      refine ⟨steps, fun patience enough => ?_⟩
      obtain ⟨more, rfl⟩ := Nat.exists_eq_add_of_le enough
      rw [Lexicon.expand_defined defined, proceeds, proceed_done done]
      simp [stop, output, made, Ending.ofResult]

end Forward

section Backward

open Run

variable {σ : Type} [Chooser σ] {lexicon : Lexicon} {name : String}

/-- `outcome` is what comes of `run` when everything that is left to do comes to `result`. -/
structure Run.Accounts (lexicon : Lexicon) (name : String) (run : Run σ) (outcome : Outcome σ)
    (result : Except ExpansionFault String) (draws : List Draw) : Prop where
  expand : Part.AllExpand lexicon name run.todo result draws
  makes : Chooser.Makes run.source draws outcome.source
  ending : outcome.ending = .ofResult (result.map (run.output ++ ·))
  made : outcome.draws = run.draws.reverse ++ draws

theorem Run.Accounts.done {run : Run σ} (todo : run.todo = []) (steps : Nat) :
    run.Accounts lexicon name (run.proceed lexicon name steps) (.ok "") [] := by
  rw [proceed_done todo]
  refine ⟨todo ▸ .nil, .nil _, ?_, ?_⟩
  · simp [stop, Except.map, Ending.ofResult]
  · simp [stop]

theorem Run.Accounts.advance {run next : Run σ} {outcome : Outcome σ} {text : String}
    {result : Except ExpansionFault String} {draws later : List Draw}
    (accounts : next.Accounts lexicon name outcome result later)
    (output : next.output = run.output ++ text) (made : next.draws = draws.reverse ++ run.draws)
    (makes : Chooser.Makes run.source draws next.source)
    (expand : Part.AllExpand lexicon name run.todo (result.map (text ++ ·)) (draws ++ later)) :
    run.Accounts lexicon name outcome (result.map (text ++ ·)) (draws ++ later) := by
  refine ⟨expand, Chooser.makes_append_iff.mpr ⟨_, makes, accounts.makes⟩, ?_, ?_⟩
  · rw [accounts.ending, output, map_append_map_append]
  · rw [accounts.made, made]
    simp

theorem Run.Accounts.of_turn {run taken : Run σ} {part : Part} {rest : List Part}
    {taking : Except (Outcome σ) (Run σ)} {steps : Nat} (todo : run.todo = part :: rest)
    (up : TakesUp lexicon name run part rest taken) (turn : Turn lexicon name taken part taking)
    (follows : ∀ next, taking = .ok next →
      ∃ result draws, next.Accounts lexicon name (next.proceed lexicon name steps) result draws) :
    ∃ result draws, run.Accounts lexicon name
      (match taking with | .ok next => next.proceed lexicon name steps | .error outcome => outcome)
      result draws := by
  cases turn with
  | fails means =>
    -- a fault ends the run before anything of the rest has been drawn
    refine ⟨.error _, [], ?_, ?_, rfl, ?_⟩
    · rw [todo]
      exact .stop means
    · rw [← up.source]
      exact .nil _
    · simp [stop, up.made]
  | @writes text draws drawn drawing means =>
    obtain ⟨result, later, accounts⟩ := follows _ rfl
    have others := accounts.expand
    rw [todo_write, drawing.todo, up.todo] at others
    have output : (drawn.write text).output = run.output ++ text := by
      rw [← up.output, ← drawing.output]
      rfl
    refine ⟨_, _, accounts.advance output (up.made ▸ drawing.made) (up.source ▸ drawing.makes) ?_⟩
    rw [todo]
    exact .cons means others
  | @enters target draws drawn drawing means =>
    obtain ⟨result, later, accounts⟩ := follows _ rfl
    have whole := accounts.expand
    rw [todo_enter, drawing.todo, up.todo] at whole
    have silent : (drawn.enter target).output = run.output ++ "" := by
      rw [String.append_empty, ← up.output, ← drawing.output]
      rfl
    refine ⟨_, _, accounts.advance silent (up.made ▸ drawing.made) (up.source ▸ drawing.makes) ?_⟩
    rw [todo, map_append_nothing]
    exact .replace means whole

/-- A run that ends has an expansion of everything that was left to do behind it. -/
theorem Run.accounts_of_proceed (steps : Nat) (run : Run σ)
    (ended : (run.proceed lexicon name steps).ending ≠ .unfinished) :
    ∃ result draws, run.Accounts lexicon name (run.proceed lexicon name steps) result draws := by
  induction steps generalizing run with
  | zero =>
    cases todo : run.todo with
    | nil => exact ⟨_, _, .done todo 0⟩
    | cons part rest =>
      obtain ⟨taken, up⟩ := exists_takesUp lexicon name todo
      rw [up.stalls] at ended
      exact absurd rfl ended
  | succ steps ih =>
    cases todo : run.todo with
    | nil => exact ⟨_, _, .done todo (steps + 1)⟩
    | cons part rest =>
      obtain ⟨taken, up⟩ := exists_takesUp lexicon name todo
      rw [up.proceeds] at ended ⊢
      have turn := take_turn lexicon name taken part
      refine Accounts.of_turn todo up turn fun next took => ih next ?_
      rw [took] at ended
      exact ended

/-- How the expansion by a run ends is what an expansion comes to. -/
theorem Part.Expands.of_expandsTo {source after : σ} {result : Except ExpansionFault String}
    {draws : List Draw} (expandsTo : lexicon.ExpandsTo name source result draws after) :
    (Part.reference name).Expands lexicon name result draws ∧
      Chooser.Makes source draws after := by
  obtain ⟨enough, ends⟩ := expandsTo
  have whole := ends enough (Nat.le_refl enough)
  cases defined : lexicon.rule? name with
  | none =>
    simp only [Lexicon.expand, defined, Outcome.mk.injEq] at whole
    obtain ⟨ending, rfl, rfl⟩ := whole
    have unknown : Except.error (.unknownRule name) = result := Ending.ofResult_inj.mp ending
    rw [← unknown]
    exact ⟨.unknown defined, .nil source⟩
  | some rule =>
    rw [Lexicon.expand_defined defined] at whole
    have ended : (Run.proceed lexicon name enough ⟨"", rule, [], [], source⟩).ending ≠
        .unfinished := by
      rw [whole]
      cases result <;> exact Ending.noConfusion
    obtain ⟨result', draws', accounts⟩ := accounts_of_proceed enough _ ended
    rw [whole] at accounts
    have same := Ending.ofResult_inj.mp accounts.ending
    obtain rfl : draws = draws' := by simpa using accounts.made
    rw [map_append_nothing] at same
    have expand := accounts.expand
    rw [← same] at expand
    exact ⟨.reference defined (by simpa [todo] using expand), accounts.makes⟩

/-- Expanding with the sequences put aside on a stack does what the parts mean: without a limit it
ends with a text or a fault exactly when recursive expansion comes to it, with the same draws in the
same order. -/
theorem Lexicon.expandsTo_iff_expands (lexicon : Lexicon) (name : String) (source after : σ)
    (result : Except ExpansionFault String) (draws : List Draw) :
    lexicon.ExpandsTo name source result draws after ↔
      (Part.reference name).Expands lexicon name result draws ∧
        Chooser.Makes source draws after := by
  constructor
  · exact Part.Expands.of_expandsTo
  · rintro ⟨expands, makes⟩
    exact expands.expandsTo makes

end Backward
end TextGrammar
