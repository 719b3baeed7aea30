import TextGrammar.Proofs.Expansion.Inheritance

/-!
# Reachable names

A name reaches the names that its rule mentions, those that their rules mention, and so on. All that
an expansion ever has left to do mentions reachable names only, so these are the only rules that it
looks up. Lexicons that give the same rules to the reachable names expand a name in the same way,
whatever else is in them and whichever order it is in.
-/
namespace TextGrammar

mutual

/-- A reference to the name occurs in the part, however deep inside. -/
inductive Part.Mentions (name : String) : Part → Prop where
  | reference : Part.Mentions name (.reference name)
  | choice {items : List Alternative} {item : Alternative} (member : item ∈ items)
      (inside : item.Mentions name) : Part.Mentions name (.choice items)
  | sequence {parts : List Part} {part : Part} (member : part ∈ parts)
      (inside : part.Mentions name) : Part.Mentions name (.sequence parts)

inductive Alternative.Mentions (name : String) : Alternative → Prop where
  | sequence {parts : List Part} {part : Part} (member : part ∈ parts)
      (inside : part.Mentions name) : Alternative.Mentions name (.sequence parts)

end

section Mentions

variable {name other value : String} {items : List Alternative} {parts : List Part}

@[simp] theorem Part.not_mentions_text : ¬(Part.text value).Mentions name := nofun

@[simp] theorem Part.mentions_reference : (Part.reference other).Mentions name ↔ name = other := by
  constructor
  · rintro ⟨⟩
    rfl
  · rintro rfl
    exact .reference

@[simp] theorem Part.mentions_choice :
    (Part.choice items).Mentions name ↔ ∃ item ∈ items, item.Mentions name := by
  constructor
  · rintro ⟨⟩
    exact ⟨_, ‹_›, ‹_›⟩
  · rintro ⟨item, member, inside⟩
    exact .choice member inside

@[simp] theorem Alternative.not_mentions_text : ¬(Alternative.text value).Mentions name := nofun

@[simp] theorem Alternative.mentions_sequence :
    (Alternative.sequence parts).Mentions name ↔ ∃ part ∈ parts, part.Mentions name := by
  constructor
  · rintro ⟨member, inside⟩
    exact ⟨_, member, inside⟩
  · rintro ⟨part, member, inside⟩
    exact .sequence member inside

end Mentions

namespace Lexicon

/-- The second name is the first one, or some rule that can be reached from there mentions it. The
name need not have a rule. -/
inductive Reaches (lexicon : Lexicon) (name : String) : String → Prop where
  | here : Reaches lexicon name name
  | further {between other : String} {rule : Rule} {part : Part}
      (reached : Reaches lexicon name between) (defined : lexicon.rule? between = some rule)
      (member : part ∈ rule) (mentions : part.Mentions other) : Reaches lexicon name other

/-- Everything that the part mentions can be reached. -/
def Covers (lexicon : Lexicon) (name : String) (part : Part) : Prop :=
  ∀ other, part.Mentions other → lexicon.Reaches name other

theorem covers_reference (lexicon : Lexicon) (name : String) :
    lexicon.Covers name (.reference name) := by
  intro other mentions
  cases mentions
  exact .here

theorem covers_inherited (lexicon : Lexicon) (name : String) :
    Inherited lexicon (lexicon.Covers name) := by
  intro part parts leads covers next member other mentions
  cases leads with
  -- what a rule mentions is one reference further, and an item mentions nothing new
  | rule defined => exact .further (covers _ .reference) defined member mentions
  | item listed => exact covers other (.choice listed (.sequence member mentions))

end Lexicon

section Runs

variable {σ : Type} [Chooser σ] {lexicon lexicon' : Lexicon}

/-- Only the rule of a reference is looked up. -/
theorem Run.take_congr {part : Part}
    (agree : ∀ other, part.Mentions other → lexicon'.rule? other = lexicon.rule? other)
    (name : String) (run : Run σ) :
    run.take lexicon' name part = run.take lexicon name part := by
  cases part with
  | text | sequence => rfl
  | choice items => cases items <;> rfl
  | reference other => simp only [take, agree other .reference]

/-- By induction on the steps, side by side: both runs have the same parts left to do, and so long
as these are as `holds` says, the next lookup gives the same rule in both lexicons. -/
theorem Run.proceed_congr {holds : Part → Prop} (inherited : Inherited lexicon holds)
    (agree : ∀ part, holds part → ∀ other, part.Mentions other →
      lexicon'.rule? other = lexicon.rule? other)
    (name : String) (steps : Nat) (run : Run σ) (left : ∀ part ∈ run.todo, holds part) :
    run.proceed lexicon' name steps = run.proceed lexicon name steps := by
  induction steps generalizing run with
  | zero =>
    unfold proceed
    rfl
  | succ steps ih =>
    unfold proceed
    split
    next => rfl
    next part rest pending next =>
      rw [Run.todo, nextPart_some next] at left
      obtain ⟨here, others⟩ := List.forall_mem_cons.mp left
      let taken : Run σ := { run with current := rest, pending := pending }
      have remaining : ∀ part ∈ taken.todo, holds part := others
      dsimp only
      rw [Run.take_congr (agree part here)]
      split
      next later took => exact ih later (Run.take_inherits inherited name here remaining took)
      next => rfl

namespace Lexicon

/-- An expansion depends on the rules of the reachable names alone: with the same rules for these it
ends in the same way after the same draws, or is unfinished after as many steps. -/
theorem expand_reachable {name : String}
    (agree : ∀ other, lexicon.Reaches name other → lexicon'.rule? other = lexicon.rule? other)
    (limit : Option Int) (patience : Nat) (source : σ) :
    lexicon'.expand name limit patience source = lexicon.expand name limit patience source := by
  have inherited : Inherited lexicon (lexicon.Covers name) := lexicon.covers_inherited name
  have start := lexicon.covers_reference name
  have same (steps : Nat) {rule : Rule} (defined : lexicon.rule? name = some rule) :
      Run.proceed lexicon' name steps (⟨"", rule, [], [], source⟩ : Run σ) =
        Run.proceed lexicon name steps ⟨"", rule, [], [], source⟩ := by
    refine Run.proceed_congr inherited (fun part covers other mentions => ?_) name steps _ ?_
    · exact agree other (covers other mentions)
    · simpa [Run.todo] using inherited (.rule defined) start
  unfold expand
  rw [agree name .here]
  cases defined : lexicon.rule? name with
  | none => rfl
  | some rule =>
    cases limit with
    | none => exact same patience defined
    | some bound =>
      dsimp only
      rw [same bound.toNat defined]

end Lexicon
end Runs

/-- A name that reaches itself and one that has no rule, next to a rule that it does not reach. -/
def Lexicon.echo : Lexicon :=
  .ofList [("a", [.choice [.text "x", .sequence [.choice [.sequence [.reference "b"]],
    .reference "a"]]]), ("b", [.text "y", .reference "c"]), ("d", [.text "z"])]

/-- The other rule is another one, and there is one more, which leads back; the order is new too. -/
def Lexicon.otherEcho : Lexicon :=
  .ofList [("e", [.reference "a"]), ("d", []), ("b", [.text "y", .reference "c"]),
    ("a", [.choice [.text "x", .sequence [.choice [.sequence [.reference "b"]],
      .reference "a"]]])]

theorem Lexicon.echo_reachable :
    (∀ other, echo.Reaches "a" other → otherEcho.rule? other = echo.rule? other) ∧
    otherEcho.rule? "d" ≠ echo.rule? "d" ∧
    ∀ limit patience picks, otherEcho.expand "a" limit patience (⟨picks, 0⟩ : Script) =
      echo.expand "a" limit patience ⟨picks, 0⟩ := by
  -- by induction on how a name is reached: only these three are ever mentioned
  have few : ∀ other, echo.Reaches "a" other → other = "a" ∨ other = "b" ∨ other = "c" := by
    intro other reaches
    induction reaches with
    | here => exact .inl rfl
    | @further between other rule part reached defined member mentions ih =>
      rcases ih with rfl | rfl | rfl <;> cases defined
      · obtain rfl := List.mem_singleton.mp member
        have inside : other = "b" ∨ other = "a" := by simpa using mentions
        exact inside.symm.imp_right .inl
      · have listed : part = .text "y" ∨ part = .reference "c" := by simpa using member
        rcases listed with rfl | rfl
        · exact absurd mentions Part.not_mentions_text
        · exact .inr (.inr (Part.mentions_reference.mp mentions))
  have agree : ∀ other, echo.Reaches "a" other → otherEcho.rule? other = echo.rule? other := by
    intro other reaches
    rcases few other reaches with rfl | rfl | rfl <;> rfl
  refine ⟨agree, nofun, fun limit patience picks => ?_⟩
  exact expand_reachable agree limit patience _

end TextGrammar
