import TextGrammar.Proofs.Lexicon.Properness
import TextGrammar.Proofs.Token.Names
import TextGrammar.Proofs.Tree.Printing

/-!
# What is referred to

A reference is a name that has been read in a template, so it ends with a letter or a digit. The
title of a block is read at the top level, where it may end with joiners as well: such a rule can be
asked for by its name, but no template refers to it.
-/
namespace TextGrammar

theorem Document.names_of_alike {document document' : Document}
    (alike : document.alike document' = true) :
    document.blocks.map Block.name = document'.blocks.map Block.name := by
  have names := congrArg (List.map Block.name) ((alike_iff_bare _ _).mp alike)
  simpa [Block.bare, Function.comp_def] using names

/-- Whatever can be read as a name may be that of a rule. -/
theorem exists_rule_of_isName (file : String) {name : String} (named : IsName name.toList) :
    ∃ source document lexicon rule, parse file source = .ok document ∧
      document.compile = .ok lexicon ∧ lexicon.rule? name = some rule := by
  have readable : Document.IsReadable ⟨[⟨name, .list [] none, none⟩]⟩ :=
    List.forall_mem_singleton.mpr ⟨named, .inr (.intro (List.forall_mem_nil _))⟩
  obtain ⟨document, parsed, alike⟩ := parse_print file readable
  obtain ⟨lexicon, compiled, _⟩ := (readable_of_parse parsed).compiles
  have present : name ∈ document.blocks.map Block.name := by
    rw [Document.names_of_alike alike]
    exact List.mem_singleton_self name
  obtain ⟨block, member, rfl⟩ := List.mem_map.mp present
  obtain ⟨rule, defined⟩ := Document.exists_rule compiled member
  exact ⟨_, document, lexicon, rule, parsed, compiled, defined⟩

theorem IsReference.unjoined {name : List Char} (reference : IsReference name) :
    ∀ last ∈ name.getLast?, last ≠ '-' ∧ last ≠ '_' := by
  intro last isLast
  have alphanumeric := reference.ends last isLast
  constructor <;> rintro rfl <;> cases alphanumeric

/-- Wherever a name is looked for, the longest run of name characters is read, without the joiners
at its end if it is looked for in a template. So no rule mentions a name that ends with a joiner,
although any name may be that of a rule. -/
theorem names_munched (file source : String) :
    (∀ calls start below,
      ((Scanner.ofSource file source).called calls).SeeksName source.toList start below →
        ((Scanner.ofSource file source).called calls).ReadsName source.toList start below) ∧
    (∀ document lexicon name rule part other, parse file source = .ok document →
      document.compile = .ok lexicon → lexicon.rule? name = some rule → part ∈ rule →
      part.Mentions other → ∀ last ∈ other.toList.getLast?, last ≠ '-' ∧ last ≠ '_') ∧
    ∀ name : String, IsName name.toList →
      ∃ source document lexicon rule, parse file source = .ok document ∧
        document.compile = .ok lexicon ∧ lexicon.rule? name = some rule := by
  refine ⟨fun calls start below seeks => ?_, ?_, fun name named => exists_rule_of_isName file named⟩
  · exact ((Scanner.Kept.ofSource file source).called calls).reads_name seeks
  · intro document lexicon name rule part other parsed compiled defined member mentions
    have readable := ((readable_of_parse parsed).rule compiled defined).2.2 part member
    exact (readable.refers other mentions).unjoined

/-- The joiners in the middle of the reference stay, and those at its end go to a text that goes on
over a line break. The joiner at the end of the title stays. -/
theorem names_munched_joiners :
    (∃ token after, ((Scanner.ofSource "" "*a-\n\"#b-_c--\nd\"").called 1).TakesName
      "*a-\n\"#b-_c--\nd\"".toList 1 [.top] token after ∧ token.lexeme.toList = ['a', '-']) ∧
    (∃ token after, ((Scanner.ofSource "" "*a-\n\"#b-_c--\nd\"").called 5).TakesName
      "*a-\n\"#b-_c--\nd\"".toList 6 [.template, .top] token after ∧
      token.lexeme.toList = ['b', '-', '_', 'c'] ∧
      after.Continues "*a-\n\"#b-_c--\nd\"".toList ['-', '-']) ∧
    ∃ source document lexicon rule, parse "" source = .ok document ∧
      document.compile = .ok lexicon ∧ lexicon.rule? "a-" = some rule := by
  obtain ⟨reads, _, rules⟩ := names_munched "" "*a-\n\"#b-_c--\nd\""
  have title := @Scanner.SeeksName.title "*a-\n\"#b-_c--\nd\"".toList
    ((Scanner.ofSource "" "*a-\n\"#b-_c--\nd\"").called 1) [.top] 'a' (.top []) rfl
    ⟨by decide, by decide, by decide⟩ (by simp)
  have reference := reads 5 6 [.template, .top] (.asked rfl)
  refine ⟨?_, ?_, rules "a-" ⟨'a', ['-'], rfl, rfl, by simp [Every, isNameChar, isJoiner]⟩⟩
  · exact (reads 1 1 [.top] title).whole (by rintro _ ⟨⟩; rfl) (by decide) (by decide)
  · obtain ⟨token, after, joiners, takes, split, _, _, continues⟩ :=
      reference.trimmed (by rintro _ ⟨⟩; rfl) (by decide) rfl
    obtain ⟨token', after', found, lexeme⟩ : ∃ token' after',
        ((Scanner.ofSource "" "*a-\n\"#b-_c--\nd\"").called 5).next = (.ok token', after') ∧
          token'.lexeme.toList = ['b', '-', '_', 'c'] := ⟨_, _, rfl, rfl⟩
    obtain ⟨same, rfl⟩ := Prod.mk.inj (takes.found.symm.trans found)
    obtain rfl := Except.ok.inj same
    have run : Text.nameRun "*a-\n\"#b-_c--\nd\"".toList 6 =
      ['b', '-', '_', 'c'] ++ ['-', '-'] := by decide
    rw [run, lexeme] at split
    obtain rfl := List.append_cancel_left split
    exact ⟨token, after, takes, lexeme, continues (List.cons_ne_nil _ _)⟩

end TextGrammar
