import TextGrammar.Lexicon.Listing
import TextGrammar.Proofs.Expansion.Reachability
import TextGrammar.Proofs.Lexicon.Outline
import TextGrammar.Proofs.Text.Quoting

/-!
# Reading listings

The listing of a lexicon can be read back. Its lines are an outline, whose outermost lines name the
rules, and what a line shows is said by its first character. An item of a choice is listed like a
part, and the line that it belongs to says which of them it is. Only a name is written as it is, so
names have to be such that they keep to their line and are not taken for a part.
-/
namespace TextGrammar

/-- The part that is listed like the item. -/
def Alternative.asPart : Alternative → Part
  | text value => .text value
  | sequence parts => .sequence parts

def Part.asItem? : Part → Option Alternative
  | text value => some (.text value)
  | sequence parts => some (.sequence parts)
  | _ => none

namespace Outline

mutual

/-- The part that a line shows, with what belongs to it. -/
def part? : Outline → Option Part
  | node line inner =>
    -- the word for the kind takes up eight characters, of which the first one tells it
    match line with
    | 'T' :: rest => (Text.unquote (rest.drop 7)).map fun value => .text (String.ofList value)
    | 'R' :: rest => some (.reference (String.ofList (rest.drop 7)))
    | 'C' :: _ => (parts? inner).bind fun parts => (parts.mapM Part.asItem?).map .choice
    | 'S' :: _ => (parts? inner).map .sequence
    | _ => none

def parts? : List Outline → Option (List Part)
  | [] => some []
  | outline :: others => outline.part?.bind fun part => (parts? others).map (part :: ·)

end

/-- The name that a line ends with a colon, and the rule that belongs to it. -/
def definition? : Outline → Option (String × Rule)
  | node line inner => (parts? inner).map fun rule => (String.ofList line.dropLast, rule)

end Outline

/-- The rules that a text lists, in order. -/
def Lexicon.readListing? (text : String) : Option (List (String × Rule)) :=
  (Outline.ofLines (Text.lines text.toList).dropLast).mapM Outline.definition?

/-! ## Parts -/

namespace Outline

/-- The outline is that of the part, and it can be told from it. -/
structure Shows (part : Part) (outline : Outline) : Prop where
  flush : outline.Flush
  read : outline.part? = some part
  listed : ∀ depth, (part.listing depth).map String.toList = outline.lines depth

structure ShowAll (parts : List Part) (outlines : List Outline) : Prop where
  flush : ∀ outline ∈ outlines, outline.Flush
  read : parts? outlines = some parts
  listed : ∀ depth, (Part.listings depth parts).map String.toList = linesAll depth outlines

theorem toList_indented (depth : Nat) (line : String) :
    (indented depth line).toList = List.replicate (2 * depth) ' ' ++ line.toList := by
  simp [indented]

theorem ShowAll.nil : ShowAll [] [] := ⟨nofun, rfl, fun _ => rfl⟩

theorem ShowAll.cons {part : Part} {parts : List Part} {outline : Outline}
    {outlines : List Outline} (first : Shows part outline) (rest : ShowAll parts outlines) :
    ShowAll (part :: parts) (outline :: outlines) := by
  refine ⟨List.forall_mem_cons.mpr ⟨first.flush, rest.flush⟩, ?_, fun depth => ?_⟩
  · rw [parts?, first.read, rest.read]
    rfl
  · rw [Part.listings, List.map_append, first.listed, rest.listed, linesAll]

theorem exists_shows_text (value : String) : ∃ outline, Shows (.text value) outline := by
  refine ⟨.node ("TEXT    ".toList ++ Text.quotedChars value.toList) [], ?_, ?_, fun depth => ?_⟩
  · have quoted := Text.unbroken_quotedChars value.toList
    have unbroken : '\n' ∉ "TEXT    ".toList ++ Text.quotedChars value.toList := by simp [quoted]
    exact .node (by decide) unbroken nofun
  · simp [part?, Text.unquote_quotedChars]
  · simp [Part.listing, toList_indented, lines, linesAll, Text.quoted]

theorem exists_shows_reference {name : String} (named : '\n' ∉ name.toList) :
    ∃ outline, Shows (.reference name) outline := by
  refine ⟨.node ("REF     ".toList ++ name.toList) [], ?_, ?_, fun depth => ?_⟩
  · have unbroken : '\n' ∉ "REF     ".toList ++ name.toList := by simp [named]
    exact .node (by decide) unbroken nofun
  · simp [part?]
  · simp [Part.listing, toList_indented, lines, linesAll]

theorem ShowAll.exists_shows_sequence {parts : List Part} {outlines : List Outline}
    (all : ShowAll parts outlines) : ∃ outline, Shows (.sequence parts) outline := by
  refine ⟨.node "SEQ".toList outlines, ?_, ?_, fun depth => ?_⟩
  · exact .node (by decide) (by decide) all.flush
  · simp [part?, all.read]
  · simp [Part.listing, toList_indented, lines, all.listed]

theorem mapM_asItem? (items : List Alternative) :
    (items.map Alternative.asPart).mapM Part.asItem? = some items := by
  induction items with
  | nil => rfl
  | cons item items ih =>
    have first : item.asPart.asItem? = some item := by cases item <;> rfl
    simp [first, ih]

theorem listings_asPart (depth : Nat) (items : List Alternative) :
    Part.listings depth (items.map Alternative.asPart) = Alternative.listings depth items := by
  induction items with
  | nil => rfl
  | cons item items ih =>
    have first : item.asPart.listing depth = item.listing depth := by cases item <;> rfl
    rw [List.map_cons, Part.listings, first, ih, Alternative.listings]

theorem unbroken_toDigits (number : Nat) : '\n' ∉ Nat.toDigits 10 number := by
  intro member
  have digit : Char.isDigit '\n' = true :=
    Nat.isDigit_of_mem_toDigits (by decide) (Nat.le_refl 10) member
  revert digit
  decide

theorem ShowAll.exists_shows_choice {items : List Alternative} {outlines : List Outline}
    (all : ShowAll (items.map Alternative.asPart) outlines) :
    ∃ outline, Shows (.choice items) outline := by
  refine ⟨.node ("CHOICE  (".toList ++ (Nat.toDigits 10 items.length ++ [')'])) outlines, ?_, ?_,
    fun depth => ?_⟩
  · have digits := unbroken_toDigits items.length
    have unbroken : '\n' ∉ "CHOICE  (".toList ++ (Nat.toDigits 10 items.length ++ [')']) := by
      simp [digits]
    exact .node (by decide) unbroken all.flush
  · -- the number of items is not needed, for the items are there
    show (parts? outlines).bind _ = _
    rw [all.read, Option.bind_some, mapM_asItem?]
    rfl
  · have listed := all.listed (depth + 1)
    rw [listings_asPart] at listed
    simp [Part.listing, toList_indented, lines, listed]

end Outline

/-- Every name that is mentioned keeps to its line. -/
def Part.KeepsLines (part : Part) : Prop := ∀ name, part.Mentions name → '\n' ∉ name.toList

def Alternative.KeepsLines (item : Alternative) : Prop :=
  ∀ name, item.Mentions name → '\n' ∉ name.toList

open Outline

mutual

theorem Part.exists_shows {part : Part} (keeps : part.KeepsLines) :
    ∃ outline, Shows part outline := by
  match part with
  | .text value => exact exists_shows_text value
  | .reference name => exact exists_shows_reference (keeps name .reference)
  | .choice items =>
    obtain ⟨outlines, all⟩ := Alternative.exists_showAll fun item member name mentions =>
      keeps name (.choice member mentions)
    exact all.exists_shows_choice
  | .sequence parts =>
    obtain ⟨outlines, all⟩ := Part.exists_showAll fun part member name mentions =>
      keeps name (.sequence member mentions)
    exact all.exists_shows_sequence

theorem Part.exists_showAll {parts : List Part} (keep : ∀ part ∈ parts, part.KeepsLines) :
    ∃ outlines, ShowAll parts outlines := by
  match parts with
  | [] => exact ⟨[], .nil⟩
  | part :: parts =>
    obtain ⟨first, rest⟩ := List.forall_mem_cons.mp keep
    obtain ⟨outline, shows⟩ := Part.exists_shows first
    obtain ⟨outlines, all⟩ := Part.exists_showAll rest
    exact ⟨outline :: outlines, .cons shows all⟩

theorem Alternative.exists_shows {item : Alternative} (keeps : item.KeepsLines) :
    ∃ outline, Shows item.asPart outline := by
  match item with
  | .text value => exact exists_shows_text value
  | .sequence parts =>
    obtain ⟨outlines, all⟩ := Part.exists_showAll fun part member name mentions =>
      keeps name (.sequence member mentions)
    exact all.exists_shows_sequence

theorem Alternative.exists_showAll {items : List Alternative}
    (keep : ∀ item ∈ items, item.KeepsLines) :
    ∃ outlines, ShowAll (items.map Alternative.asPart) outlines := by
  match items with
  | [] => exact ⟨[], .nil⟩
  | item :: items =>
    obtain ⟨first, rest⟩ := List.forall_mem_cons.mp keep
    obtain ⟨outline, shows⟩ := Alternative.exists_shows first
    obtain ⟨outlines, all⟩ := Alternative.exists_showAll rest
    exact ⟨outline :: outlines, .cons shows all⟩

end

/-! ## Rules -/

/-- The name of a rule, and the names in it, keep to their lines, and the name of the rule is not
taken for a line that belongs to another one. -/
structure Rule.KeepsLines (name : String) (rule : Rule) : Prop where
  solid : ∀ first ∈ name.toList.head?, first ≠ ' '
  unbroken : '\n' ∉ name.toList
  each : ∀ part ∈ rule, part.KeepsLines

theorem Rule.KeepsLines.exists_outline {name : String} {rule : Rule}
    (keeps : Rule.KeepsLines name rule) :
    ∃ outline : Outline, outline.Flush ∧ outline.definition? = some (name, rule) ∧
      ((name ++ ":") :: Part.listings 1 rule).map String.toList = outline.lines 0 := by
  obtain ⟨outlines, all⟩ := Part.exists_showAll keeps.each
  refine ⟨.node (name.toList ++ [':']) outlines, ?_, ?_, ?_⟩
  · have unbroken : '\n' ∉ name.toList ++ [':'] := by simp [keeps.unbroken]
    have solid := keeps.solid
    -- an empty name leaves a line that begins with the colon
    cases chars : name.toList with
    | nil => exact .node (by decide) (by decide) all.flush
    | cons first more =>
      rw [chars] at unbroken solid
      exact .node (solid first rfl) unbroken all.flush
  · simp [definition?, all.read]
  · simp [lines, ← all.listed]

theorem exists_outlines {entries : List (String × Rule)}
    (keep : ∀ entry ∈ entries, Rule.KeepsLines entry.1 entry.2) :
    ∃ outlines : List Outline, (∀ outline ∈ outlines, outline.Flush) ∧
      outlines.mapM Outline.definition? = some entries ∧
      (entries.flatMap fun entry => (entry.1 ++ ":") :: Part.listings 1 entry.2).map
        String.toList = linesAll 0 outlines := by
  induction entries with
  | nil => exact ⟨[], nofun, rfl, rfl⟩
  | cons entry entries ih =>
    obtain ⟨first, rest⟩ := List.forall_mem_cons.mp keep
    obtain ⟨outline, flush, read, listed⟩ := first.exists_outline
    obtain ⟨outlines, flushAll, readAll, listedAll⟩ := ih rest
    refine ⟨outline :: outlines, List.forall_mem_cons.mpr ⟨flush, flushAll⟩, ?_, ?_⟩
    · simp [read, readAll]
    · rw [List.flatMap_cons, List.map_append, listed, listedAll, linesAll]

/-- What has been listed is read back, each line with a line break behind it. -/
theorem Lexicon.readListing?_listing {lexicon : Lexicon}
    (keep : ∀ entry ∈ lexicon.entries, Rule.KeepsLines entry.1 entry.2) :
    readListing? (String.join (lexicon.listing.map (· ++ "\n"))) = some lexicon.entries := by
  obtain ⟨outlines, flush, read, listed⟩ := exists_outlines keep
  have text : (String.join (lexicon.listing.map (· ++ "\n"))).toList =
      (linesAll 0 outlines).flatMap (· ++ ['\n']) := by
    rw [← listed, listing]
    simp [String.toList_join, List.flatMap_map]
  rw [readListing?, text, Text.lines_flatMap fun line => unbroken_linesAll flush,
    List.dropLast_concat, ofLines_linesAll flush, read]

end TextGrammar
