import TextGrammar.Expansion

/-!
# The meaning of rules

What parts expand to, said by recursion on what they stand for: there is no stack here, no count of
steps, and no source of draws. An expansion comes with the draws that it makes, in order, and any
item of a choice can be drawn. Which draws a source really makes is said apart, by `Chooser.Makes`.
-/
namespace TextGrammar

mutual

/-- Expanding a part comes to a text or to a fault, after some draws. `name` is the rule that the
whole expansion is for. -/
inductive Part.Expands (lexicon : Lexicon) (name : String) :
    Part → Except ExpansionFault String → List Draw → Prop where
  | text (value : String) : Part.Expands lexicon name (.text value) (.ok value) []
  | emptyChoice : Part.Expands lexicon name (.choice []) (.ok "") []
  | pickedText {items : List Alternative} {value : String} (pick : Fin items.length)
      (picked : items.get pick = .text value) :
      Part.Expands lexicon name (.choice items) (.ok value) [⟨items.length, pick⟩]
  | pickedSequence {items : List Alternative} {parts : List Part}
      {result : Except ExpansionFault String} {draws : List Draw} (pick : Fin items.length)
      (picked : items.get pick = .sequence parts)
      (expand : Part.AllExpand lexicon name parts result draws) :
      Part.Expands lexicon name (.choice items) result (⟨items.length, pick⟩ :: draws)
  | reference {other : String} {rule : Rule} {result : Except ExpansionFault String}
      {draws : List Draw} (defined : lexicon.rule? other = some rule)
      (expand : Part.AllExpand lexicon name rule result draws) :
      Part.Expands lexicon name (.reference other) result draws
  | unknown {other : String} (undefined : lexicon.rule? other = none) :
      Part.Expands lexicon name (.reference other) (.error (.unknownRule other)) []
  | misplaced (parts : List Part) :
      Part.Expands lexicon name (.sequence parts) (.error (.misplacedSequence name parts)) []

/-- Expanding a sequence from left to right: its texts are joined, and the first fault ends it. -/
inductive Part.AllExpand (lexicon : Lexicon) (name : String) :
    List Part → Except ExpansionFault String → List Draw → Prop where
  | nil : Part.AllExpand lexicon name [] (.ok "") []
  | cons {part : Part} {parts : List Part} {text : String}
      {result : Except ExpansionFault String} {draws later : List Draw}
      (first : Part.Expands lexicon name part (.ok text) draws)
      (rest : Part.AllExpand lexicon name parts result later) :
      Part.AllExpand lexicon name (part :: parts) (result.map (text ++ ·)) (draws ++ later)
  | stop {part : Part} {parts : List Part} {fault : ExpansionFault} {draws : List Draw}
      (first : Part.Expands lexicon name part (.error fault) draws) :
      Part.AllExpand lexicon name (part :: parts) (.error fault) draws

end

/-- Asked in turn for as many items as the draws say, the source makes just these draws. -/
inductive Chooser.Makes {σ : Type} [Chooser σ] : σ → List Draw → σ → Prop where
  | nil (source : σ) : Chooser.Makes source [] source
  | cons {others : Nat} {pick : Fin (others + 1)} {source next after : σ} {draws : List Draw}
      (chosen : Chooser.choose others source = (pick, next))
      (rest : Chooser.Makes next draws after) :
      Chooser.Makes source (⟨others + 1, pick⟩ :: draws) after

section Makes

variable {σ : Type} [Chooser σ]

@[simp] theorem Chooser.makes_nil_iff {source after : σ} :
    Chooser.Makes source [] after ↔ after = source := by
  constructor
  · intro makes
    cases makes
    rfl
  · rintro rfl
    exact .nil after

theorem Chooser.makes_cons_iff {others pick : Nat} {source after : σ} {draws : List Draw} :
    Chooser.Makes source (⟨others + 1, pick⟩ :: draws) after ↔
      (Chooser.choose others source).1 = pick ∧
        Chooser.Makes (Chooser.choose others source).2 draws after := by
  constructor
  · intro makes
    cases makes with
    | cons chosen rest => exact ⟨by rw [chosen], by rw [chosen]; exact rest⟩
  · rintro ⟨rfl, rest⟩
    exact .cons rfl rest

theorem Chooser.makes_append_iff {source after : σ} {draws later : List Draw} :
    Chooser.Makes source (draws ++ later) after ↔
      ∃ middle, Chooser.Makes source draws middle ∧ Chooser.Makes middle later after := by
  induction draws generalizing source with
  | nil => simp
  | cons draw draws ih =>
    constructor
    · intro makes
      cases makes with
      | cons chosen rest =>
        obtain ⟨middle, front, back⟩ := ih.mp rest
        exact ⟨middle, .cons chosen front, back⟩
    · rintro ⟨middle, front, back⟩
      cases front with
      | cons chosen rest => exact .cons chosen (ih.mpr ⟨middle, rest, back⟩)

end Makes

theorem Script.reduce_of_lt {others pick : Nat} (inside : pick < others + 1) :
    (Script.reduce others pick).val = pick := by
  have remainder : (pick : Int) % ((others : Int) + 1) = pick :=
    Int.emod_eq_of_lt (by omega) (by omega)
  simp [Script.reduce, remainder]

/-- A script makes the draws that it was written for. -/
theorem Script.makes_draws {draws : List Draw} (fallback : Int)
    (inside : ∀ draw ∈ draws, draw.pick < draw.stop) :
    Chooser.Makes (⟨draws.map fun draw => (draw.pick : Int), fallback⟩ : Script) draws
      ⟨[], fallback⟩ := by
  induction draws with
  | nil => exact .nil _
  | cons draw draws ih =>
    obtain ⟨stop, pick⟩ := draw
    obtain ⟨first, rest⟩ := List.forall_mem_cons.mp inside
    -- there is an item to draw, so a chooser can be asked at all
    obtain ⟨others, rfl⟩ : ∃ others, stop = others + 1 :=
      Nat.exists_eq_succ_of_ne_zero (Nat.ne_zero_of_lt first)
    exact Chooser.makes_cons_iff.mpr ⟨Script.reduce_of_lt first, ih rest⟩

theorem map_append_nothing {ε : Type} (result : Except ε String) :
    result.map ("" ++ ·) = result := by
  cases result <;> simp [Except.map]

theorem map_append_map_append {ε : Type} (text text' : String) (result : Except ε String) :
    (result.map (text' ++ ·)).map (text ++ ·) = result.map (text ++ text' ++ ·) := by
  cases result <;> simp [Except.map, String.append_assoc]

section Sequences

variable {lexicon : Lexicon} {name : String}

/-- A fault in the first of two sequences leaves out the second. -/
theorem Part.AllExpand.split {front back : List Part} {result : Except ExpansionFault String}
    {draws : List Draw} (expand : Part.AllExpand lexicon name (front ++ back) result draws) :
    (∃ text result' early late, Part.AllExpand lexicon name front (.ok text) early ∧
      Part.AllExpand lexicon name back result' late ∧
      result = result'.map (text ++ ·) ∧ draws = early ++ late) ∨
    (∃ fault, Part.AllExpand lexicon name front (.error fault) draws ∧ result = .error fault) := by
  -- the case that holds for the rest of `front` holds for all of it
  induction front generalizing result draws with
  | nil =>
    exact .inl ⟨"", result, [], draws, .nil, expand, (map_append_nothing result).symm, rfl⟩
  | cons part front ih =>
    cases expand with
    | stop first => exact .inr ⟨_, .stop first, rfl⟩
    | @cons _ _ text rest early late first rest =>
      rcases ih rest with
        ⟨text', result', early', late', front, back, rfl, rfl⟩ | ⟨fault, front, rfl⟩
      · have front' := Part.AllExpand.cons first front
        refine .inl ⟨text ++ text', result', early ++ early', late', front', back, ?_, ?_⟩
        · exact map_append_map_append text text' result'
        · exact (List.append_assoc ..).symm
      · exact .inr ⟨fault, .cons first front, rfl⟩

/-- A part that stands for a sequence, once it has made some draws, can be replaced by it. -/
theorem Part.AllExpand.replace {part : Part} {target rest : List Part} {before : List Draw}
    (stands : ∀ result draws, Part.AllExpand lexicon name target result draws →
      part.Expands lexicon name result (before ++ draws))
    {result : Except ExpansionFault String} {draws : List Draw}
    (expand : Part.AllExpand lexicon name (target ++ rest) result draws) :
    Part.AllExpand lexicon name (part :: rest) result (before ++ draws) := by
  rcases expand.split with ⟨text, result', early, late, front, back, rfl, rfl⟩ | ⟨fault, front, rfl⟩
  · rw [← List.append_assoc]
    exact .cons (stands _ _ front) back
  · exact .stop (stands _ _ front)

end Sequences
end TextGrammar
