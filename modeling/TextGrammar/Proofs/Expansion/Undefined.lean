import TextGrammar.Proofs.Expansion.Limit
import TextGrammar.Proofs.Expansion.Reachability

/-!
# Names without a rule

An expansion only complains of a name that has no rule and that it has really come upon. What it can
come upon is found by unfolding: a reference unfolds to the parts of its rule, and a choice to those
of its sequences. An expansion fails for a misplaced sequence, so that nothing inside of one is come
upon, although its names are mentioned.
-/
namespace TextGrammar
namespace Lexicon

/-- The second part is the first one, or it stands in a sequence that the first one leads to over
any number of rules and choices. -/
inductive Unfolds (lexicon : Lexicon) (first : Part) : Part → Prop where
  | here : Unfolds lexicon first first
  | further {part next : Part} {parts : List Part} (reached : Unfolds lexicon first part)
      (leads : part.LeadsTo lexicon parts) (member : next ∈ parts) : Unfolds lexicon first next

variable {lexicon : Lexicon} {name other : String} {first part : Part}

theorem unfolds_inherited (lexicon : Lexicon) (first : Part) :
    Inherited lexicon (lexicon.Unfolds first) :=
  fun leads reached _ member => .further reached leads member

/-- What is come upon at the end is come upon from the first part, or from one that it leads to. -/
theorem Unfolds.cases_first (unfolds : lexicon.Unfolds first part) :
    part = first ∨ ∃ parts, first.LeadsTo lexicon parts ∧
      ∃ next ∈ parts, lexicon.Unfolds next part := by
  induction unfolds with
  | here => exact .inl rfl
  | @further between last parts reached leads member ih =>
    rcases ih with rfl | ⟨parts', leads', next, member', unfolds⟩
    · exact .inr ⟨parts, leads, last, member, .here⟩
    · exact .inr ⟨parts', leads', next, member', .further unfolds leads member⟩

theorem Unfolds.of_next {parts : List Part} {next : Part} (leads : first.LeadsTo lexicon parts)
    (member : next ∈ parts) (unfolds : lexicon.Unfolds next part) : lexicon.Unfolds first part := by
  induction unfolds with
  | here => exact .further .here leads member
  | further _ leads member ih => exact .further ih leads member

/-- A name is come upon where an expansion starts, or from its rule. -/
theorem unfolds_reference_iff : lexicon.Unfolds (.reference name) (.reference other) ↔
    other = name ∨ ∃ rule, lexicon.rule? name = some rule ∧
      ∃ part ∈ rule, lexicon.Unfolds part (.reference other) := by
  constructor
  · intro unfolds
    rcases unfolds.cases_first with same | ⟨rule, leads, part, member, unfolds⟩
    · cases same
      exact .inl rfl
    · cases leads with
      | rule defined => exact .inr ⟨rule, defined, part, member, unfolds⟩
  · rintro (rfl | ⟨rule, defined, part, member, unfolds⟩)
    · exact .here
    · exact .of_next (.rule defined) member unfolds

theorem rule?_eq_none_iff : lexicon.rule? name = none ↔ name ∉ lexicon.names := by
  rw [rule?, names, List.lookup_eq_none_iff]
  constructor
  · intro absent member
    obtain ⟨entry, present, rfl⟩ := List.mem_map.mp member
    simpa using absent entry present
  · intro absent entry present
    have different : name ≠ entry.1 := by
      rintro rfl
      exact absent (List.mem_map_of_mem present)
    simpa using different

/-- An unknown rule is one that the lexicon does not have, and it is the rule to expand or one that
this rule comes to over references, in rules and in the items of choices. So where all of these are
there, no rule is ever unknown, whatever is drawn and whether or not there is a limit. -/
theorem expand_unknown_justified (lexicon : Lexicon) (name : String) :
    (∀ {σ : Type} [Chooser σ] (limit : Option Int) (patience : Nat) (source : σ) (other : String),
      (lexicon.expand name limit patience source).ending = .fault (.unknownRule other) →
        other ∉ lexicon.names ∧
          (other = name ∨ ∃ rule, lexicon.rule? name = some rule ∧
            ∃ part ∈ rule, lexicon.Unfolds part (.reference other))) ∧
    ((∀ other, lexicon.Unfolds (.reference name) (.reference other) → other ∈ lexicon.names) →
      ∀ {σ : Type} [Chooser σ] (limit : Option Int) (patience : Nat) (source : σ) (other : String),
        (lexicon.expand name limit patience source).ending ≠ .fault (.unknownRule other)) := by
  have blamed {σ : Type} [Chooser σ] {limit : Option Int} {patience : Nat} {source : σ}
      {other : String}
      (ends : (lexicon.expand name limit patience source).ending = .fault (.unknownRule other)) :
      other ∉ lexicon.names ∧ lexicon.Unfolds (.reference name) (.reference other) := by
    -- whatever is still to be done has been come upon, and so has what the expansion fails for
    have explained := lexicon.expand_inherits (unfolds_inherited lexicon (.reference name)) .here
      limit patience source
    rw [ends] at explained
    cases explained with
    | fails unfolds fails =>
      cases fails with
      | unknown undefined => exact ⟨rule?_eq_none_iff.mp undefined, unfolds⟩
  constructor
  · intro σ _ limit patience source other ends
    obtain ⟨absent, unfolds⟩ := blamed ends
    exact ⟨absent, unfolds_reference_iff.mp unfolds⟩
  · intro all σ _ limit patience source other ends
    obtain ⟨absent, unfolds⟩ := blamed ends
    exact absent (all other unfolds)

/-- A name is unknown behind a choice in a choice, and one that only refers to itself is not. -/
theorem echo_unknown_justified :
    ((echo.expand "a" none 6 (⟨[1, 0], 0⟩ : Script)).ending = .fault (.unknownRule "c") ∧
      "c" ∉ echo.names ∧ ∃ rule, echo.rule? "a" = some rule ∧
        ∃ part ∈ rule, echo.Unfolds part (.reference "c")) ∧
    ∀ limit patience picks other,
      (looping.expand "loop" limit patience (⟨picks, 0⟩ : Script)).ending ≠
        .fault (.unknownRule other) := by
  constructor
  · have ends : (echo.expand "a" none 6 (⟨[1, 0], 0⟩ : Script)).ending =
        .fault (.unknownRule "c") := rfl
    obtain ⟨absent, same | unfolds⟩ := (expand_unknown_justified echo "a").1 _ _ _ _ ends
    · exact absurd same (by decide)
    · exact ⟨ends, absent, unfolds⟩
  · -- the rule has nothing but the reference to itself
    have alone : ∀ part, looping.Unfolds (.reference "loop") part → part = .reference "loop" := by
      intro part unfolds
      induction unfolds with
      | here => rfl
      | further _ leads member ih =>
        subst ih
        cases leads with
        | rule defined =>
          cases defined
          exact List.mem_singleton.mp member
    have all : ∀ other, looping.Unfolds (.reference "loop") (.reference other) →
        other ∈ looping.names := by
      intro other unfolds
      obtain rfl := Part.reference.inj (alone _ unfolds)
      decide
    intro limit patience picks
    exact (expand_unknown_justified looping "loop").2 all limit patience _

end Lexicon
end TextGrammar
