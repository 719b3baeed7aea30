import TextGrammar.Proofs.Command.Repetition
import TextGrammar.Proofs.Lexicon.Decoding

/-!
# Dumps

Asked for a dump, the command writes the listing of the lexicon in place of any text. The names in a
source are such that a listing can be read back, so the dump of a grammar file tells its rules and
their order, and two files with the same dump have the same rules.
-/
namespace TextGrammar

/-! ## What is read can be read back -/

theorem IsName.solid {name : List Char} (named : IsName name) :
    ∀ first ∈ name.head?, first ≠ ' ' := by
  obtain ⟨first, text, rfl, alpha, every⟩ := named
  rintro _ ⟨⟩ rfl
  exact absurd alpha (by decide)

theorem IsName.unbroken {name : List Char} (named : IsName name) : '\n' ∉ name := by
  obtain ⟨first, text, rfl, alpha, every⟩ := named
  rw [List.mem_cons]
  rintro (rfl | member)
  · exact absurd alpha (by decide)
  · exact absurd (every _ member) (by decide)

theorem Lexicon.rule?_of_mem {lexicon : Lexicon} {entry : String × Rule}
    (member : entry ∈ lexicon.entries) : lexicon.rule? entry.1 = some entry.2 := by
  obtain ⟨front, after, split⟩ := List.append_of_mem member
  -- no entry in front has the same name
  have distinct := lexicon.distinct
  rw [split, List.map_append, List.map_cons, List.nodup_append] at distinct
  refine List.lookup_eq_some_iff.mpr ⟨front, after, split, fun other earlier => ?_⟩
  have apart : other.1 ≠ entry.1 :=
    distinct.2.2 _ (List.mem_map_of_mem earlier) _ (List.mem_cons_self ..)
  exact bne_iff_ne.mpr apart.symm

theorem Document.IsReadable.keepsLines {document : Document} {lexicon : Lexicon}
    (readable : document.IsReadable) (compiled : document.compile = .ok lexicon) :
    ∀ entry ∈ lexicon.entries, Rule.KeepsLines entry.1 entry.2 := by
  intro entry member
  obtain ⟨named, _, each⟩ := readable.rule compiled (Lexicon.rule?_of_mem member)
  exact ⟨named.solid, named.unbroken,
    fun part inside name mentions => ((each part inside).refers name mentions).named.unbroken⟩

namespace Command

/-! ## What is written -/

/-- What is written when the lexicon is dumped. -/
def dumped (surroundings : Surroundings) (lexicon : Lexicon) : String :=
  (((recorder surroundings).outLines lexicon.listing).run .empty).2.stdout

section Dumped

variable {surroundings : Surroundings} {lexicon : Lexicon}

theorem outLines_run (lines : List String) (transcript : Transcript) :
    ((recorder surroundings).outLines lines).run transcript =
      ((), transcript.extend lines none) := by
  induction lines generalizing transcript with
  | nil => rfl
  | cons line lines ih =>
    have written : ((recorder surroundings).outLines (line :: lines)).run transcript =
        ((recorder surroundings).outLines lines).run (transcript.extend [line] none) := rfl
    rw [written, ih, Transcript.extend_extend]

theorem dumped_eq (surroundings : Surroundings) (lexicon : Lexicon) :
    dumped surroundings lexicon = String.join (lexicon.listing.map (· ++ "\n")) := by
  rw [dumped, outLines_run, Transcript.stdout_extend]

/-- Where a dump is asked for, no rule is expanded, and the other options do not matter. -/
theorem produce_of_dump {options : Options} (asked : options.dump = true) (patience : Nat) :
    ∃ transcript, (produce (recorder surroundings) lexicon options patience).run .empty =
      (.code 0, transcript) ∧ transcript.stdout = dumped surroundings lexicon ∧
        transcript.stderr = "" := by
  refine ⟨Transcript.empty.extend lexicon.listing none, ?_, ?_, rfl⟩
  · have written := @outLines_run surroundings lexicon.listing .empty
    rw [produce, if_pos asked, StateT.run_bind, written]
    rfl
  · rw [dumped, outLines_run]

/-- The names in a source keep to their lines, so its dump can be read. -/
theorem readListing?_dumped {file source : String} {document : Document}
    (parsed : parse file source = .ok document) (compiled : document.compile = .ok lexicon)
    (surroundings : Surroundings) :
    Lexicon.readListing? (dumped surroundings lexicon) = some lexicon.entries := by
  rw [dumped_eq]
  exact Lexicon.readListing?_listing ((readable_of_parse parsed).keepsLines compiled)

end Dumped

/-- The dump of what has been compiled from a source is read back, with every rule in its place, and
so it is the dump of no other rules and of no other order. -/
theorem parse_dump_unambiguous {file source : String} {document : Document} {lexicon : Lexicon}
    (parsed : parse file source = .ok document) (compiled : document.compile = .ok lexicon)
    (surroundings : Surroundings) :
    Lexicon.readListing? (dumped surroundings lexicon) = some lexicon.entries ∧
      ∀ (file' source' : String) (document' : Document) (lexicon' : Lexicon)
        (surroundings' : Surroundings), parse file' source' = .ok document' →
        document'.compile = .ok lexicon' →
        dumped surroundings' lexicon' = dumped surroundings lexicon →
        lexicon'.entries = lexicon.entries := by
  have here := readListing?_dumped parsed compiled surroundings
  refine ⟨here, fun file' source' document' lexicon' surroundings' parsed' compiled' same => ?_⟩
  -- the same text is not read in two ways
  have there := readListing?_dumped parsed' compiled' surroundings'
  rw [same, here] at there
  exact (Option.some.inj there).symm

/-- Two sources that differ in their spaces and line breaks only. -/
theorem parse_dump_unambiguous_spaced :
    let surroundings : Surroundings := ⟨fun _ => .error "", false, "", 0⟩
    let text := "a:\n  CHOICE  (2)\n    TEXT    \"it's\"\n    SEQ\n" ++
      "      REF     c\n      CHOICE  (0)\n"
    ∃ document lexicon document' lexicon', parse "" "*a\n[it's,\"#c[]\"]" = .ok document ∧
      document.compile = .ok lexicon ∧ parse "" "*a\n\n[ it's ,\"#c[]\"]\n" = .ok document' ∧
      document'.compile = .ok lexicon' ∧ dumped surroundings lexicon = text ∧
      dumped surroundings lexicon' = text ∧ Lexicon.readListing? text = some lexicon.entries ∧
      lexicon'.entries = lexicon.entries := by
  intro surroundings text
  -- the tree of both sources, whose places are not the same
  let tree (word name inner template list block : Option Span) : Document :=
    ⟨[⟨"a", .list [.literal "it's" word, .template [.reference "c" name, .list [] inner] template]
      list, block⟩]⟩
  have dumps (word name inner template list block : Option Span) : ∃ lexicon,
      (tree word name inner template list block).compile = .ok lexicon ∧
        dumped surroundings lexicon = text := ⟨_, rfl, (dumped_eq surroundings _).trans rfl⟩
  obtain ⟨document, parsed, lexicon, compiled, shown⟩ :
      ∃ document, parse "" "*a\n[it's,\"#c[]\"]" = .ok document ∧ ∃ lexicon,
        document.compile = .ok lexicon ∧ dumped surroundings lexicon = text :=
    ⟨tree _ _ _ _ _ _, parse_of_firsts 13 rfl rfl (by decide) rfl rfl rfl, dumps ..⟩
  obtain ⟨document', parsed', lexicon', compiled', shown'⟩ :
      ∃ document, parse "" "*a\n\n[ it's ,\"#c[]\"]\n" = .ok document ∧ ∃ lexicon,
        document.compile = .ok lexicon ∧ dumped surroundings lexicon = text :=
    ⟨tree _ _ _ _ _ _, parse_of_firsts 15 rfl rfl (by decide) rfl rfl rfl, dumps ..⟩
  obtain ⟨reads, unambiguous⟩ := parse_dump_unambiguous parsed compiled surroundings
  have same := unambiguous _ _ document' lexicon' surroundings parsed' compiled'
    (shown'.trans shown.symm)
  rw [shown] at reads
  exact ⟨document, lexicon, document', lexicon', parsed, compiled, parsed', compiled', shown,
    shown', reads, same⟩

end Command
end TextGrammar
