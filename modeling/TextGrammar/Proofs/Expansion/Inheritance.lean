import TextGrammar.Proofs.Expansion.Simulation

/-!
# What holds of every part of a run

A run takes up parts that it was given at its start or that a part before has led to: a reference
leads to the parts of its rule, and a choice to those of its sequences. Whatever is handed on like
this holds of all parts that a run ever has left to do, whichever items are drawn. So an expansion
only fails for a part of which it holds.
-/
namespace TextGrammar

/-- What can take the place of the part when it is taken up. -/
inductive Part.LeadsTo (lexicon : Lexicon) : Part → List Part → Prop where
  | rule {other : String} {rule : Rule} (defined : lexicon.rule? other = some rule) :
      Part.LeadsTo lexicon (.reference other) rule
  | item {items : List Alternative} {parts : List Part} (member : .sequence parts ∈ items) :
      Part.LeadsTo lexicon (.choice items) parts

/-- Taking up the part ends an expansion of `name` with this fault. -/
inductive Part.FailsWith (lexicon : Lexicon) (name : String) : Part → ExpansionFault → Prop where
  | unknown {other : String} (undefined : lexicon.rule? other = none) :
      Part.FailsWith lexicon name (.reference other) (.unknownRule other)
  | misplaced (parts : List Part) :
      Part.FailsWith lexicon name (.sequence parts) (.misplacedSequence name parts)

def Inherited (lexicon : Lexicon) (holds : Part → Prop) : Prop :=
  ∀ {part : Part} {parts : List Part}, part.LeadsTo lexicon parts → holds part →
    ∀ next ∈ parts, holds next

/-- How an expansion of `name` ends when `holds` is true of all its parts. -/
inductive Ending.Explained (lexicon : Lexicon) (name : String) (limit : Option Int)
    (holds : Part → Prop) : Ending → Prop where
  | text (value : String) : Ending.Explained lexicon name limit holds (.text value)
  | fails {part : Part} {fault : ExpansionFault} (here : holds part)
      (fails : part.FailsWith lexicon name fault) :
      Ending.Explained lexicon name limit holds (.fault fault)
  | exceeded {bound : Int} (limited : limit = some bound) :
      Ending.Explained lexicon name limit holds (.fault (.stepLimit name bound))
  | unfinished (unlimited : limit = none) : Ending.Explained lexicon name limit holds .unfinished

section Runs

variable {σ : Type} [Chooser σ] {lexicon : Lexicon} {name : String} {holds : Part → Prop}

/-- Taking up a part puts parts that it leads to in its place, or drops it, or fails for it. -/
theorem Run.take_cases (lexicon : Lexicon) (name : String) (part : Part) (run : Run σ) :
    match run.take lexicon name part with
    | .ok next => next.todo = run.todo ∨
        ∃ parts, part.LeadsTo lexicon parts ∧ next.todo = parts ++ run.todo
    | .error outcome => ∃ fault, outcome.ending = .fault fault ∧
        part.FailsWith lexicon name fault := by
  cases part with
  | text value => exact .inl rfl
  | sequence parts => exact ⟨_, rfl, .misplaced parts⟩
  | reference other =>
    cases defined : lexicon.rule? other with
    | none =>
      simp only [take, defined]
      exact ⟨_, rfl, .unknown defined⟩
    | some rule =>
      rw [take_reference defined]
      exact .inr ⟨rule, .rule defined, todo_enter rule run⟩
  | choice items =>
    cases items with
    | nil => exact .inl rfl
    | cons item others =>
      rw [take_choice]
      split
      next next picked =>
        split at picked
        next value drawn =>
          cases picked
          exact .inl rfl
        next target drawn =>
          cases picked
          have member : Alternative.sequence target ∈ item :: others := drawn ▸ List.get_mem ..
          exact .inr ⟨target, .item member, todo_enter target _⟩
      next outcome picked => split at picked <;> cases picked

/-- Whatever is handed on to the parts that a part leads to holds of all that is left to do. -/
theorem Run.take_inherits (inherited : Inherited lexicon holds) (name : String) {part : Part}
    {run next : Run σ} (here : holds part) (left : ∀ part ∈ run.todo, holds part)
    (took : run.take lexicon name part = .ok next) : ∀ part ∈ next.todo, holds part := by
  have taking := Run.take_cases lexicon name part run
  rw [took] at taking
  rcases taking with same | ⟨parts, leads, same⟩
  · rw [same]
    exact left
  · rw [same]
    exact List.forall_mem_append.mpr ⟨inherited leads here, left⟩

/-- By induction on the steps: the parts that are left to do are the invariant. -/
theorem Run.proceed_inherits (inherited : Inherited lexicon holds) (name : String) (steps : Nat)
    (run : Run σ) (left : ∀ part ∈ run.todo, holds part) :
    (run.proceed lexicon name steps).ending.Explained lexicon name none holds := by
  induction steps generalizing run with
  | zero =>
    cases todo : run.todo with
    | nil =>
      rw [proceed_done todo]
      exact .text run.output
    | cons part rest =>
      obtain ⟨taken, up⟩ := exists_takesUp lexicon name todo
      rw [up.stalls]
      exact .unfinished rfl
  | succ steps ih =>
    cases todo : run.todo with
    | nil =>
      rw [proceed_done todo]
      exact .text run.output
    | cons part rest =>
      obtain ⟨taken, up⟩ := exists_takesUp lexicon name todo
      rw [todo] at left
      obtain ⟨here, others⟩ := List.forall_mem_cons.mp left
      rw [← up.todo] at others
      have taking := Run.take_cases lexicon name part taken
      rw [up.proceeds]
      cases took : taken.take lexicon name part with
      | ok next => exact ih next (Run.take_inherits inherited name here others took)
      | error outcome =>
        rw [took] at taking
        obtain ⟨fault, ending, fails⟩ := taking
        simp only [ending]
        exact .fails here fails

theorem Lexicon.expand_inherits (inherited : Inherited lexicon holds)
    (start : holds (.reference name)) (limit : Option Int) (patience : Nat) (source : σ) :
    (lexicon.expand name limit patience source).ending.Explained lexicon name limit holds := by
  unfold expand
  split
  next undefined => exact .fails start (.unknown undefined)
  next rule defined =>
    have left : ∀ part ∈ (⟨"", rule, [], [], source⟩ : Run σ).todo, holds part := by
      simpa [Run.todo] using inherited (.rule defined) start
    dsimp only
    split
    next => exact Run.proceed_inherits inherited name patience _ left
    next bound =>
      have ends := Run.proceed_inherits inherited name bound.toNat _ left
      -- only a run that did not come to an end turns into a fault
      split
      next => exact .exceeded rfl
      next finished =>
        cases ending : (Run.proceed lexicon name bound.toNat ⟨"", rule, [], [], source⟩).ending with
        | unfinished => exact absurd ending finished
        | text value => exact .text value
        | fault fault =>
          rw [ending] at ends
          cases ends with
          | fails here fails => exact .fails here fails
          | exceeded limited => cases limited

end Runs
end TextGrammar
