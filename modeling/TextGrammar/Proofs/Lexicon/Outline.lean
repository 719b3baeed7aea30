import TextGrammar.Proofs.Token.Positions

/-!
# Outlines

An outline is a tree of lines: a line is written two spaces further in than the one that it belongs
to, and in front of the lines that belong to it. The tree can be read off the spaces alone. What
belongs to a line are the lines behind it that stand further in, up to the first one that does not.
-/
namespace TextGrammar

inductive Outline where
  | node (line : List Char) (inner : List Outline)

namespace Outline

mutual

def lines (depth : Nat) : Outline → List (List Char)
  | node line inner => (List.replicate (2 * depth) ' ' ++ line) :: linesAll (depth + 1) inner

def linesAll (depth : Nat) : List Outline → List (List Char)
  | [] => []
  | outline :: others => outline.lines depth ++ linesAll depth others

end

/-- No line begins with a space of its own, and none goes on over a line break. -/
inductive Flush : Outline → Prop where
  | node {first : Char} {line : List Char} {inner : List Outline} (solid : first ≠ ' ')
      (unbroken : '\n' ∉ first :: line) (each : ∀ outline ∈ inner, outline.Flush) :
      Flush (.node (first :: line) inner)

/-- How many spaces a line has in front. -/
def margin (line : List Char) : Nat := (line.takeWhile (· = ' ')).length

def ofLines : List (List Char) → List Outline
  | [] => []
  | line :: lines =>
    let inner := lines.takeWhile (margin line < margin ·)
    let others := lines.dropWhile (margin line < margin ·)
    .node (line.dropWhile (· = ' ')) (ofLines inner) :: ofLines others
termination_by lines => lines.length
decreasing_by
  · exact Nat.lt_succ_of_le (List.takeWhile_prefix _).length_le
  · exact Nat.lt_succ_of_le (List.dropWhile_suffix _).length_le

/-! ## Margins -/

theorem le_margin (count : Nat) (line : List Char) :
    count ≤ margin (List.replicate count ' ' ++ line) := by
  rw [margin, List.takeWhile_append_of_pos (by simp), List.length_append, List.length_replicate]
  exact Nat.le_add_right _ _

theorem margin_of_solid {first : Char} (solid : first ≠ ' ') (count : Nat) (line : List Char) :
    margin (List.replicate count ' ' ++ first :: line) = count := by
  rw [margin, List.takeWhile_append_of_pos (by simp), List.takeWhile_cons_of_neg (by simp [solid]),
    List.append_nil, List.length_replicate]

theorem dropWhile_margin {first : Char} (solid : first ≠ ' ') (count : Nat) (line : List Char) :
    (List.replicate count ' ' ++ first :: line).dropWhile (· = ' ') = first :: line := by
  rw [List.dropWhile_append_of_pos (by simp), List.dropWhile_cons_of_neg (by simp [solid])]

-- what is further inside stands even further in
mutual

theorem margin_lines {line : List Char} {outline : Outline} {depth : Nat}
    (member : line ∈ outline.lines depth) : 2 * depth ≤ margin line := by
  match outline with
  | .node _ inner =>
    rcases List.mem_cons.mp member with rfl | below
    · exact le_margin _ _
    · have deeper := margin_linesAll below
      omega

theorem margin_linesAll {line : List Char} {outlines : List Outline} {depth : Nat}
    (member : line ∈ linesAll depth outlines) : 2 * depth ≤ margin line := by
  match outlines with
  | [] => cases member
  | outline :: others =>
    rcases List.mem_append.mp member with here | there
    · exact margin_lines here
    · exact margin_linesAll there

end

/-- The lines of a neighbour are not taken for lines that belong to the one before. -/
theorem span_linesAll (depth : Nat) (inner : List Outline) {others : List Outline}
    (flush : ∀ outline ∈ others, outline.Flush) :
    (linesAll (depth + 1) inner ++ linesAll depth others).takeWhile (2 * depth < margin ·) =
        linesAll (depth + 1) inner ∧
      (linesAll (depth + 1) inner ++ linesAll depth others).dropWhile (2 * depth < margin ·) =
        linesAll depth others := by
  have further : ∀ line ∈ linesAll (depth + 1) inner,
      decide (2 * depth < margin line) = true := by
    intro line member
    have deeper := margin_linesAll member
    simp only [decide_eq_true_eq]
    omega
  rw [List.takeWhile_append_of_pos further, List.dropWhile_append_of_pos further]
  -- the first line of a neighbour stands no further in, and so it ends the lines that are taken
  cases others with
  | nil => simp [linesAll]
  | cons outline others =>
    cases flush outline List.mem_cons_self with
    | node solid unbroken each => simp [linesAll, lines, margin_of_solid solid]

/-- An outline can be read off its lines, wherever it stands. -/
theorem ofLines_linesAll {outlines : List Outline} (flush : ∀ outline ∈ outlines, outline.Flush)
    (depth : Nat) : ofLines (linesAll depth outlines) = outlines := by
  match outlines with
  | [] =>
    unfold linesAll ofLines
    rfl
  | .node line inner :: others =>
    obtain ⟨first, rest⟩ := List.forall_mem_cons.mp flush
    cases first with
    | @node first line _ solid unbroken each =>
      obtain ⟨belonging, left⟩ := span_linesAll depth inner rest
      rw [linesAll, lines, List.cons_append, ofLines, margin_of_solid solid, belonging, left,
        dropWhile_margin solid, ofLines_linesAll each, ofLines_linesAll rest]

/-! ## Text -/

mutual

theorem unbroken_lines {line : List Char} {outline : Outline} {depth : Nat} (flush : outline.Flush)
    (member : line ∈ outline.lines depth) : '\n' ∉ line := by
  match flush with
  | .node solid unbroken each =>
    rcases List.mem_cons.mp member with rfl | below
    · -- there are only spaces in front of what is solid
      simp only [List.mem_append, List.mem_replicate, not_or]
      exact ⟨fun space => absurd space.2 (by decide), unbroken⟩
    · exact unbroken_linesAll each below

theorem unbroken_linesAll {line : List Char} {outlines : List Outline} {depth : Nat}
    (flush : ∀ outline ∈ outlines, outline.Flush) (member : line ∈ linesAll depth outlines) :
    '\n' ∉ line := by
  match outlines with
  | [] => cases member
  | outline :: others =>
    obtain ⟨first, rest⟩ := List.forall_mem_cons.mp flush
    rcases List.mem_append.mp member with here | there
    · exact unbroken_lines first here
    · exact unbroken_linesAll rest there

end

end Outline

/-- Lines that each end with a line break, and nothing behind the last one. -/
theorem Text.lines_flatMap {lines : List (List Char)} (unbroken : ∀ line ∈ lines, '\n' ∉ line) :
    Text.lines (lines.flatMap (· ++ ['\n'])) = lines ++ [[]] := by
  induction lines with
  | nil => rfl
  | cons line lines ih =>
    obtain ⟨first, rest⟩ := List.forall_mem_cons.mp unbroken
    have plain : ∀ char ∈ line, (char == '\n') = false := by
      intro char member
      have other : char ≠ '\n' := by
        rintro rfl
        exact first member
      simpa using other
    have cut := List.splitOnP_append_cons_of_forall_mem plain '\n' rfl
      (lines.flatMap (· ++ ['\n']))
    rw [List.flatMap_cons, List.append_assoc, List.singleton_append, List.cons_append, ← ih rest]
    exact cut

end TextGrammar
