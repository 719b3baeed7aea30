import Mathlib.Data.List.Induction
import TextGrammar.Proofs.Lexicon.Compiled

/-!
# Compiling one document behind another

The blocks of two documents, one behind the other, are compiled to the lexicon of the second laid
over that of the first. What the second says of a name counts, but a name that the first has already
stays where it is. So the place of a name in a lexicon is that of its first block, and its rule that
of its last one.
-/
namespace TextGrammar

/-! ## One lexicon over another -/

/-- The lexicon says of a name what the later of the two says of it, if anything, and what the
earlier one says if not. The names that only the later one has stand behind the others. -/
structure Lexicon.Overlays (early late lexicon : Lexicon) : Prop where
  rule : ∀ name, lexicon.rule? name = (late.rule? name).or (early.rule? name)
  names : lexicon.names = early.names ++ late.names.filter (· ∉ early.names)

namespace Lexicon

theorem names_put (name : String) (rule : Rule) (lexicon : Lexicon) :
    (lexicon.put name rule).names =
      if name ∈ lexicon.names then lexicon.names else lexicon.names ++ [name] :=
  putEntry_names name rule lexicon.entries

namespace Overlays

variable {early late lexicon : Lexicon}

theorem empty (early : Lexicon) : Overlays early Lexicon.empty early :=
  ⟨fun _ => rfl, (List.append_nil _).symm⟩

theorem mem_names (overlays : Overlays early late lexicon) (name : String) :
    name ∈ lexicon.names ↔ name ∈ early.names ∨ name ∈ late.names := by
  rw [overlays.names, List.mem_append, List.mem_filter]
  by_cases old : name ∈ early.names <;> simp [old]

/-- A rule that is put into the later lexicon is put into what comes of the two as well. -/
theorem put (overlays : Overlays early late lexicon) (name : String) (rule : Rule) :
    Overlays early (late.put name rule) (lexicon.put name rule) := by
  constructor
  · intro other
    rw [rule?_put, rule?_put, overlays.rule]
    split <;> rfl
  · rw [names_put, names_put]
    by_cases known : name ∈ late.names
    · rw [if_pos known, if_pos ((overlays.mem_names name).mpr (.inr known)), overlays.names]
    · by_cases old : name ∈ early.names
      · rw [if_neg known, if_pos ((overlays.mem_names name).mpr (.inl old)), overlays.names]
        simp [old]
      · have absent : name ∉ lexicon.names := by simp [overlays.mem_names, known, old]
        rw [if_neg known, if_neg absent, overlays.names]
        simp [old]

end Overlays

end Lexicon

/-! ## Blocks behind blocks -/

/-- Blocks that are compiled over nothing can be compiled over whatever has been laid below. -/
theorem Lexicon.Overlays.compileOver {early late late' lexicon : Lexicon} {blocks : List Block}
    (overlays : Overlays early late lexicon) (compiled : compileOver blocks late = .ok late') :
    ∃ lexicon', compileOver blocks lexicon = .ok lexicon' ∧ Overlays early late' lexicon' := by
  induction blocks generalizing late lexicon with
  | nil =>
    cases compiled
    exact ⟨lexicon, rfl, overlays⟩
  | cons block blocks ih =>
    obtain ⟨rule, ruled, rest⟩ := compileOver_cons.mp compiled
    obtain ⟨lexicon', laid, overlays'⟩ := ih (overlays.put block.name rule) rest
    exact ⟨lexicon', compileOver_cons.mpr ⟨rule, ruled, laid⟩, overlays'⟩

theorem compile_append {front back : List Block} {early late : Lexicon}
    (first : Document.compile ⟨front⟩ = .ok early) (second : Document.compile ⟨back⟩ = .ok late) :
    ∃ lexicon, Document.compile ⟨front ++ back⟩ = .ok lexicon ∧
      Lexicon.Overlays early late lexicon := by
  obtain ⟨lexicon, laid, overlays⟩ := (Lexicon.Overlays.empty early).compileOver second
  exact ⟨lexicon, compileOver_append.mpr ⟨early, first, laid⟩, overlays⟩

theorem eraseDups_snoc (front : List String) (last : String) :
    (front ++ [last]).eraseDups =
      if last ∈ front then front.eraseDups else front.eraseDups ++ [last] := by
  rw [List.eraseDups_append]
  split
  next known => simp [List.removeAll, known]
  next new => simp [List.removeAll, new, List.eraseDups_cons]

/-- The names are in the order of their first blocks. -/
theorem names_of_compile {blocks : List Block} {lexicon : Lexicon}
    (compiled : Document.compile ⟨blocks⟩ = .ok lexicon) :
    lexicon.names = (blocks.map Block.name).eraseDups := by
  induction blocks using List.reverseRecOn generalizing lexicon with
  | nil =>
    cases compiled
    rfl
  | append_singleton front block ih =>
    obtain ⟨early, first, last⟩ := compileOver_append.mp compiled
    obtain ⟨rule, _, made⟩ := compileOver_cons.mp last
    cases made
    rw [Lexicon.names_put, ih first, List.map_append, List.map_singleton, eraseDups_snoc]
    simp only [List.mem_eraseDups]

/-- Documents are compiled one behind the other as each of them is compiled, with the lexicon of
the second over that of the first. In any lexicon a name stands once, where its first block does,
and has the rule of its last block. -/
theorem compile_overlays :
    (∀ front back early late, Document.compile ⟨front⟩ = .ok early →
      Document.compile ⟨back⟩ = .ok late →
      ∃ lexicon, Document.compile ⟨front ++ back⟩ = .ok lexicon ∧
        Lexicon.Overlays early late lexicon) ∧
    ∀ (document : Document) lexicon, document.compile = .ok lexicon →
      lexicon.names.Nodup ∧ lexicon.names = (document.blocks.map Block.name).eraseDups ∧
      ∀ name, (document.lastBlock? name = none ∧ lexicon.rule? name = none) ∨
        ∃ block rule, document.lastBlock? name = some block ∧ block.compile = .ok rule ∧
          lexicon.rule? name = some rule := by
  refine ⟨fun front back early late first second => compile_append first second, ?_⟩
  intro document lexicon compiled
  exact ⟨lexicon.distinct, names_of_compile compiled, Document.rule?_cases compiled⟩

/-- Each document has a name more than once, and they have one name in common. -/
theorem compile_overlays_interleaved :
    let block (name value : String) : Block := ⟨name, .template [.literal value none] none, none⟩
    let front := [block "b" "1", block "a" "2", block "b" "3"]
    let back := [block "c" "4", block "a" "5", block "c" "6"]
    ∃ early late lexicon, Document.compile ⟨front⟩ = .ok early ∧
      Document.compile ⟨back⟩ = .ok late ∧ Document.compile ⟨front ++ back⟩ = .ok lexicon ∧
      late.names = ["c", "a"] ∧ lexicon.names = ["b", "a", "c"] ∧
      lexicon.rule? "b" = some [.text "3"] ∧ lexicon.rule? "a" = some [.text "5"] ∧
      lexicon.rule? "c" = some [.text "6"] := by
  intro block front back
  obtain ⟨merges, _⟩ := compile_overlays
  obtain ⟨lexicon, compiled, overlays⟩ := merges front back _ _ rfl rfl
  refine ⟨_, _, lexicon, rfl, rfl, compiled, rfl, overlays.names, ?_⟩
  exact ⟨overlays.rule "b", overlays.rule "a", overlays.rule "c"⟩

end TextGrammar
