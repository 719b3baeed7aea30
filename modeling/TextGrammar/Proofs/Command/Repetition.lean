import TextGrammar.Command.Transcript
import TextGrammar.Proofs.Expansion.Limit
import TextGrammar.Proofs.Lexicon.Properness

/-!
# Expanding a rule again and again

All expansions of a run of the command draw from one source, one after the other, and each of them
goes on where the one before has left the source. So a run that is asked for more texts begins with
the texts of a run that is asked for fewer, and a fault ends both at the same place.
-/
namespace TextGrammar

/-! ## Patience -/

section Patience

variable {σ : Type} [Chooser σ] {lexicon : Lexicon} {name : String} {limit : Option Int}
  {source : σ} {steps patience : Nat}

/-- A run that has ended ends in the same way with more patience. -/
theorem Run.proceed_more {run : Run σ}
    (ended : (run.proceed lexicon name steps).ending ≠ .unfinished) (more : Nat) :
    run.proceed lexicon name (steps + more) = run.proceed lexicon name steps := by
  induction steps generalizing run with
  | zero =>
    by_cases last : run.act lexicon name = none
    · rw [proceed_of_none last, proceed_of_none last]
    · rw [proceed_zero last] at ended
      exact absurd rfl ended
  | succ steps ih =>
    rw [Nat.succ_add]
    cases acted : run.act lexicon name with
    | none => rw [proceed_of_none acted, proceed_of_none acted]
    | some taken =>
      cases taken with
      | error outcome => rw [proceed_of_error acted, proceed_of_error acted]
      | ok next =>
        rw [proceed_of_ok acted] at ended ⊢
        rw [proceed_of_ok acted]
        exact ih ended

theorem Lexicon.expand_more
    (ended : (lexicon.expand name limit patience source).ending ≠ .unfinished) (more : Nat) :
    lexicon.expand name limit (patience + more) source =
      lexicon.expand name limit patience source := by
  cases defined : lexicon.rule? name with
  | none => simp only [expand, defined]
  | some rule =>
    cases limit with
    | none =>
      rw [expand_defined defined] at ended
      rw [expand_defined defined, expand_defined defined]
      exact Run.proceed_more ended more
    | some bound => simp only [expand, defined]

/-- With enough patience the expansion ends like this. -/
def Lexicon.Finishes (lexicon : Lexicon) (name : String) (limit : Option Int) (source : σ)
    (outcome : Outcome σ) : Prop :=
  outcome.ending ≠ .unfinished ∧ ∃ patience, lexicon.expand name limit patience source = outcome

theorem Lexicon.Finishes.unique {outcome outcome' : Outcome σ}
    (finishes : lexicon.Finishes name limit source outcome)
    (finishes' : lexicon.Finishes name limit source outcome') : outcome = outcome' := by
  obtain ⟨ended, patience, rfl⟩ := finishes
  obtain ⟨ended', patience', rfl⟩ := finishes'
  rw [← expand_more ended patience', ← expand_more ended' patience, Nat.add_comm]

end Patience

/-! ## Repeated expansion -/

section Repeated

variable {σ : Type} [Chooser σ]

/-- Expanding the rule as often as asked, each time from where the source has been left, comes to
these texts, and to a fault if there is one. -/
inductive Lexicon.Repeats (lexicon : Lexicon) (rule : String) (limit : Option Int) :
    Nat → σ → List String → Option ExpansionFault → Prop where
  | done (source : σ) : Repeats lexicon rule limit 0 source [] none
  | fails {count : Nat} {source : σ} {outcome : Outcome σ} {fault : ExpansionFault}
      (finishes : lexicon.Finishes rule limit source outcome)
      (ending : outcome.ending = .fault fault) :
      Repeats lexicon rule limit (count + 1) source [] (some fault)
  | more {count : Nat} {source : σ} {outcome : Outcome σ} {text : String} {texts : List String}
      {fault : Option ExpansionFault} (finishes : lexicon.Finishes rule limit source outcome)
      (ending : outcome.ending = .text text)
      (rest : Repeats lexicon rule limit count outcome.source texts fault) :
      Repeats lexicon rule limit (count + 1) source (text :: texts) fault

variable {lexicon : Lexicon} {rule : String} {limit : Option Int} {count count' : Nat} {source : σ}
  {texts texts' : List String} {fault fault' : Option ExpansionFault}

theorem Lexicon.Repeats.length (repeats : lexicon.Repeats rule limit count source texts none) :
    texts.length = count := by
  generalize missing : (none : Option ExpansionFault) = fault at repeats
  induction repeats with
  | done source => rfl
  | fails finishes ending => cases missing
  | more finishes ending rest ih => rw [List.length_cons, ih missing]

/-- What is repeated more often begins in the same way, and a fault ends it where it was. -/
theorem Lexicon.Repeats.extend (short : lexicon.Repeats rule limit count source texts fault)
    (long : lexicon.Repeats rule limit count' source texts' fault') (fewer : count ≤ count') :
    texts <+: texts' ∧ (fault ≠ none → texts' = texts ∧ fault' = fault) := by
  induction short generalizing count' texts' with
  | done source => exact ⟨List.nil_prefix, fun missing => absurd rfl missing⟩
  | fails finishes ending =>
    cases long with
    | done => exact absurd fewer (Nat.not_succ_le_zero _)
    | fails finishes' ending' =>
      rw [finishes'.unique finishes, ending] at ending'
      cases ending'
      exact ⟨List.nil_prefix, fun _ => ⟨rfl, rfl⟩⟩
    | more finishes' ending' rest' =>
      rw [finishes'.unique finishes, ending] at ending'
      cases ending'
  | more finishes ending rest ih =>
    cases long with
    | done => exact absurd fewer (Nat.not_succ_le_zero _)
    | fails finishes' ending' =>
      rw [finishes'.unique finishes, ending] at ending'
      cases ending'
    | more finishes' ending' rest' =>
      -- the same text leaves the same source for the rest
      obtain rfl := finishes'.unique finishes
      rw [ending] at ending'
      cases ending'
      obtain ⟨front, stopped⟩ := ih rest' (Nat.le_of_succ_le_succ fewer)
      refine ⟨List.cons_prefix_cons.mpr ⟨rfl, front⟩, fun failed => ?_⟩
      obtain ⟨rfl, rfl⟩ := stopped failed
      exact ⟨rfl, rfl⟩

end Repeated

namespace Command

/-! ## The loop -/

/-- What has been written when these texts have come, and perhaps a fault. -/
def Transcript.extend (transcript : Transcript) (texts : List String)
    (fault : Option ExpansionFault) : Transcript where
  out := (texts.map (· ++ "\n")).reverse ++ transcript.out
  err := (fault.map fun fault => fault.message ++ "\n").toList ++ transcript.err

def Exit.ofFault : Option ExpansionFault → Exit
  | none => .code 0
  | some _ => .code 1

theorem Exit.ofFault_eq_zero {fault : Option ExpansionFault} (zero : ofFault fault = .code 0) :
    fault = none := by
  cases fault with
  | none => rfl
  | some fault => cases zero

theorem Exit.ofFault_eq_one {fault : Option ExpansionFault} (one : ofFault fault = .code 1) :
    fault ≠ none := by
  rintro rfl
  cases one

theorem Exit.ofFault_cases (fault : Option ExpansionFault) :
    ofFault fault = .code 0 ∨ ofFault fault = .code 1 := by
  cases fault with
  | none => exact .inl rfl
  | some fault => exact .inr rfl

section Loop

variable {surroundings : Surroundings} {lexicon : Lexicon} {rule text : String}
  {limit : Option Int} {patience count : Nat} {source : Twister} {transcript : Transcript}
  {fault : ExpansionFault}

theorem generate_of_text
    (ending : (lexicon.expand rule limit patience source).ending = .text text) :
    (generate (recorder surroundings) lexicon rule limit false patience (count + 1) source).run
      transcript =
    (generate (recorder surroundings) lexicon rule limit false patience count
      (lexicon.expand rule limit patience source).source).run (transcript.extend [text] none) := by
  rw [generate]
  simp only [ending]
  rfl

theorem generate_of_fault
    (ending : (lexicon.expand rule limit patience source).ending = .fault fault) :
    (generate (recorder surroundings) lexicon rule limit false patience (count + 1) source).run
      transcript = (.code 1, transcript.extend [] (some fault)) := by
  rw [generate]
  simp only [ending]
  rfl

theorem generate_of_unfinished
    (ending : (lexicon.expand rule limit patience source).ending = .unfinished) :
    (generate (recorder surroundings) lexicon rule limit false patience (count + 1) source).run
      transcript = (.unfinished, transcript) := by
  rw [generate]
  simp only [ending]
  rfl

theorem Transcript.extend_extend (transcript : Transcript) (text : String) (texts : List String)
    (fault : Option ExpansionFault) :
    (transcript.extend [text] none).extend texts fault =
      transcript.extend (text :: texts) fault := by
  simp [extend]

/-- An expansion that comes to the same text from everywhere is written as often as asked. -/
theorem generate_of_always
    (always : ∀ source : Twister,
      (lexicon.expand rule limit patience source).ending = .text text) :
    (generate (recorder surroundings) lexicon rule limit false patience count source).run
      transcript = (.code 0, transcript.extend (List.replicate count text) none) := by
  induction count generalizing source transcript with
  | zero => rfl
  | succ count ih =>
    rw [generate_of_text (always source), ih, Transcript.extend_extend, List.replicate_succ]

/-- A loop that ends writes what repeated expansion comes to. -/
theorem generate_repeats (surroundings : Surroundings) (lexicon : Lexicon) (rule : String)
    (limit : Option Int) (patience count : Nat) (source : Twister) (transcript : Transcript)
    (ended : ((generate (recorder surroundings) lexicon rule limit false patience count
      source).run transcript).1 ≠ .unfinished) :
    ∃ texts fault, lexicon.Repeats rule limit count source texts fault ∧
      (generate (recorder surroundings) lexicon rule limit false patience count source).run
        transcript = (.ofFault fault, transcript.extend texts fault) := by
  induction count generalizing source transcript with
  | zero => exact ⟨[], none, .done source, rfl⟩
  | succ count ih =>
    have finishes (real : (lexicon.expand rule limit patience source).ending ≠ .unfinished) :
        lexicon.Finishes rule limit source (lexicon.expand rule limit patience source) :=
      ⟨real, patience, rfl⟩
    cases ending : (lexicon.expand rule limit patience source).ending with
    | unfinished =>
      -- the loop stops where an expansion does not end, and it was said to end
      rw [generate_of_unfinished ending] at ended
      exact absurd rfl ended
    | fault fault =>
      rw [generate_of_fault ending]
      have real := finishes (by rw [ending]; exact Ending.noConfusion)
      exact ⟨[], some fault, .fails real ending, rfl⟩
    | text text =>
      rw [generate_of_text ending] at ended ⊢
      obtain ⟨texts, fault, rest, same⟩ := ih _ _ ended
      have real := finishes (by rw [ending]; exact Ending.noConfusion)
      rw [same, Transcript.extend_extend]
      exact ⟨text :: texts, fault, .more real ending rest, rfl⟩

end Loop

/-! ## Whole runs -/

/-- The options ask for the rule to be expanded so often, with this seed and this limit, and for
nothing else. -/
structure Options.Asks (options : Options) (file rule : String) (limit : Option Int)
    (seed count : Int) : Prop where
  file : options.file = file
  rule : options.rule = .given rule ∨ options.rule = .unset ∧ rule = "main"
  limit : options.maxSteps = limit.elim .unset .given
  seed : options.seed = .given seed
  count : options.count = .given count ∨ options.count = .unset ∧ count = 1
  quiet : options.timings = false
  plain : options.dump = false

section Runs

variable {surroundings : Surroundings} {arguments : List String} {options : Options}
  {file rule source : String} {limit : Option Int} {seed count : Int} {bytes : ByteArray}

theorem generateAll_of_asks {console : Console (StateM Transcript)} {lexicon : Lexicon}
    (asks : options.Asks file rule limit seed count) (patience times : Nat) (source : Twister) :
    generateAll console lexicon options patience times source =
      generate console lexicon rule limit false patience times source := by
  unfold generateAll
  rw [asks.limit, asks.quiet]
  rcases asks.rule with given | ⟨unset, rfl⟩
  · rw [given]
    cases limit <;> rfl
  · rw [unset]
    cases limit <;> rfl

theorem produce_of_asks {console : Console (StateM Transcript)} {lexicon : Lexicon}
    (asks : options.Asks file rule limit seed count) (patience : Nat) :
    produce console lexicon options patience =
      generate console lexicon rule limit false patience count.toNat (.ofSeed seed) := by
  unfold produce
  rw [asks.plain, asks.seed]
  rcases asks.count with given | ⟨unset, rfl⟩
  · rw [given]
    exact generateAll_of_asks asks patience _ _
  · rw [unset]
    exact generateAll_of_asks asks patience _ _

theorem record_eq_runSource (read : readArguments arguments = .ok (.run options))
    (asks : options.Asks file rule limit seed count)
    (loaded : surroundings.load file = .ok bytes) (decoded : Text.decode? bytes = some source)
    (patience : Nat) :
    record surroundings arguments patience =
      (runSource (recorder surroundings) source options patience).run .empty := by
  have load : (recorder surroundings).load options.file = pure (.ok bytes) := by
    rw [asks.file, ← loaded]
    rfl
  simp only [record, run, read, runOptions, load, pure_bind, decoded]

theorem record_of_fault (read : readArguments arguments = .ok (.run options))
    (asks : options.Asks file rule limit seed count)
    (loaded : surroundings.load file = .ok bytes) (decoded : Text.decode? bytes = some source)
    {fault : Diagnostic} (failed : parse file source = .error fault) (patience : Nat) :
    record surroundings arguments patience =
      (.code 1, ⟨[], [fault.describe surroundings.isTerminal ++ "\n"]⟩) := by
  rw [record_eq_runSource read asks loaded decoded, runSource, asks.quiet, asks.file, failed]
  rfl

theorem record_of_parse (read : readArguments arguments = .ok (.run options))
    (asks : options.Asks file rule limit seed count)
    (loaded : surroundings.load file = .ok bytes) (decoded : Text.decode? bytes = some source)
    {document : Document} {lexicon : Lexicon} (parsed : parse file source = .ok document)
    (compiled : document.compile = .ok lexicon) (patience : Nat) :
    record surroundings arguments patience =
      (generate (recorder surroundings) lexicon rule limit false patience count.toNat
        (.ofSeed seed)).run .empty := by
  rw [record_eq_runSource read asks loaded decoded, runSource, asks.quiet, asks.file, parsed]
  simp only [Bool.false_eq_true, if_false, pure_bind, compiled]
  rw [produce_of_asks asks]

/-- A run on a file that is parsed writes what repeated expansion comes to, if it ends. -/
theorem record_repeats (read : readArguments arguments = .ok (.run options))
    (asks : options.Asks file rule limit seed count)
    (loaded : surroundings.load file = .ok bytes) (decoded : Text.decode? bytes = some source)
    {document : Document} {lexicon : Lexicon} (parsed : parse file source = .ok document)
    (compiled : document.compile = .ok lexicon) {patience : Nat}
    (ended : (record surroundings arguments patience).1 ≠ .unfinished) :
    ∃ texts fault, lexicon.Repeats rule limit count.toNat (Twister.ofSeed seed) texts fault ∧
      record surroundings arguments patience =
        (.ofFault fault, Transcript.empty.extend texts fault) := by
  rw [record_of_parse read asks loaded decoded parsed compiled] at ended ⊢
  exact generate_repeats surroundings lexicon rule limit patience _ _ _ ended

end Runs

theorem Transcript.stdout_extend (texts : List String) (fault : Option ExpansionFault) :
    (empty.extend texts fault).stdout = String.join (texts.map (· ++ "\n")) := by
  simp [stdout, extend, empty]

/-- What has been written of fewer texts is what is written first of more. -/
theorem Transcript.stdout_of_prefix {texts texts' : List String} (front : texts <+: texts')
    (fault fault' : Option ExpansionFault) :
    ∃ more, (empty.extend texts' fault').stdout = (empty.extend texts fault).stdout ++ more := by
  obtain ⟨others, rfl⟩ := front
  refine ⟨String.join (others.map (· ++ "\n")), ?_⟩
  rw [stdout_extend, stdout_extend, List.map_append, String.join_append]

/-- What comes of a run with a smaller count is what a run with a greater one begins with; if the
former ends with a fault, so does the latter at the same place. Without a fault there are as many
texts as asked for, each of them from where the one before has left the source. A file that is not
parsed comes to the same with every count. -/
theorem record_prefix_stable {surroundings : Surroundings} {arguments arguments' : List String}
    {options options' : Options} {file rule source : String} {limit : Option Int}
    {seed count count' : Int} {bytes : ByteArray}
    (read : readArguments arguments = .ok (.run options))
    (read' : readArguments arguments' = .ok (.run options'))
    (asks : options.Asks file rule limit seed count)
    (asks' : options'.Asks file rule limit seed count') (fewer : count ≤ count')
    (loaded : surroundings.load file = .ok bytes) (decoded : Text.decode? bytes = some source)
    (patience patience' : Nat) :
    let short := record surroundings arguments patience
    let long := record surroundings arguments' patience'
    (∀ fault, parse file source = .error fault → short.1 = .code 1 ∧ short.2.stdout = "") ∧
    (short.1 ≠ .unfinished → long.1 ≠ .unfinished →
      (∃ more, long.2.stdout = short.2.stdout ++ more) ∧
      (short.1 = .code 0 ∨ short.1 = .code 1) ∧
      (short.1 = .code 1 → long.1 = .code 1 ∧ long.2.stdout = short.2.stdout ∧
        long.2.stderr = short.2.stderr) ∧
      (short.1 = .code 0 → short.2.stderr = "" ∧ ∃ document lexicon texts,
        parse file source = .ok document ∧ document.compile = .ok lexicon ∧
        lexicon.Repeats rule limit count.toNat (Twister.ofSeed seed) texts none ∧
        texts.length = count.toNat ∧
        short.2.stdout = String.join (texts.map (· ++ "\n")))) := by
  intro short long
  cases parsed : parse file source with
  | error fault =>
    -- a fault of the file comes before anything that depends on the count
    have recorded : short = _ := record_of_fault read asks loaded decoded parsed patience
    have recorded' : long = _ := record_of_fault read' asks' loaded decoded parsed patience'
    have same : long = short := recorded'.trans recorded.symm
    have ends : short.1 = .code 1 := congrArg Prod.fst recorded
    have quiet : short.2.stdout = "" := by
      rw [recorded]
      rfl
    refine ⟨fun _ _ => ⟨ends, quiet⟩, fun _ _ => ⟨⟨"", ?_⟩, .inr ends, fun _ => ?_, fun zero => ?_⟩⟩
    · rw [same, String.append_empty]
    · rw [same]
      exact ⟨ends, rfl, rfl⟩
    · rw [ends] at zero
      cases zero
  | ok document =>
    obtain ⟨lexicon, compiled, _⟩ := parse_regular parsed
    refine ⟨fun fault failed => ?_, fun ended ended' => ?_⟩
    · cases failed
    -- both runs repeat the same expansions, one of them more often
    obtain ⟨texts, fault, repeats, shown⟩ :=
      record_repeats read asks loaded decoded parsed compiled ended
    obtain ⟨texts', fault', repeats', shown'⟩ :=
      record_repeats read' asks' loaded decoded parsed compiled ended'
    obtain ⟨front, stopped⟩ := repeats.extend repeats' (by omega)
    have isShort : short = (.ofFault fault, Transcript.empty.extend texts fault) := shown
    have isLong : long = (.ofFault fault', Transcript.empty.extend texts' fault') := shown'
    rw [isShort, isLong]
    refine ⟨Transcript.stdout_of_prefix front fault fault', Exit.ofFault_cases fault, ?_, ?_⟩
    · intro one
      obtain ⟨rfl, rfl⟩ := stopped (Exit.ofFault_eq_one one)
      exact ⟨one, rfl, rfl⟩
    · intro zero
      obtain rfl := Exit.ofFault_eq_zero zero
      exact ⟨rfl, document, lexicon, texts, rfl, compiled, repeats, repeats.length,
        Transcript.stdout_extend texts none⟩

/-- A rule that always comes to the same text, expanded once and twice. -/
theorem record_prefix_stable_twice :
    let surroundings : Surroundings := ⟨fun _ => .ok "*main\n\"x\"".toUTF8, false, "", 0⟩
    let short := record surroundings ["g", "-s", "7"] 9
    let long := record surroundings ["g", "-s", "7", "-n", "2"] 9
    (∃ more, long.2.stdout = short.2.stdout ++ more) ∧ short.1 = .code 0 ∧
      short.2.stdout = "x\n" ∧ short.2.stderr = "" ∧ long.1 = .code 0 ∧
      long.2.stdout = "x\nx\n" ∧ ∃ lexicon : Lexicon, ∃ texts,
        lexicon.Repeats "main" none 1 (Twister.ofSeed 7) texts none ∧
        short.2.stdout = String.join (texts.map (· ++ "\n")) := by
  intro surroundings short long
  -- what the source comes to, and that its rule draws nothing
  obtain ⟨document, lexicon, parsed, compiled, expands⟩ : ∃ document lexicon,
      parse "g" "*main\n\"x\"" = .ok document ∧ document.compile = .ok lexicon ∧
        ∀ source : Twister, lexicon.expand "main" none 9 source = ⟨.text "x", [], source⟩ :=
    ⟨_, _, parse_of_firsts 6 rfl rfl (by decide) rfl rfl rfl, rfl, fun _ => rfl⟩
  have text (source : Twister) :
      (lexicon.expand "main" none 9 source).ending = .text "x" := by rw [expands]
  let options : Options := ⟨"g", .unset, .unset, .given 7, .unset, false, false⟩
  have asks : options.Asks "g" "main" none 7 1 :=
    ⟨rfl, .inr ⟨rfl, rfl⟩, rfl, rfl, .inr ⟨rfl, rfl⟩, rfl, rfl⟩
  have asks' : { options with count := .given 2 }.Asks "g" "main" none 7 2 :=
    ⟨rfl, .inr ⟨rfl, rfl⟩, rfl, rfl, .inl rfl, rfl, rfl⟩
  have read : readArguments ["g", "-s", "7"] = .ok (.run options) := rfl
  have read' : readArguments ["g", "-s", "7", "-n", "2"] =
      .ok (.run { options with count := .given 2 }) := rfl
  have loaded : surroundings.load "g" = .ok "*main\n\"x\"".toUTF8 := rfl
  have decoded : Text.decode? "*main\n\"x\"".toUTF8 = some "*main\n\"x\"" := rfl
  have isShort : short = (.code 0, ⟨["x\n"], []⟩) := by
    refine (record_of_parse read asks loaded decoded parsed compiled 9).trans ?_
    rw [generate_of_always text]
    rfl
  have isLong : long = (.code 0, ⟨["x\n", "x\n"], []⟩) := by
    refine (record_of_parse read' asks' loaded decoded parsed compiled 9).trans ?_
    rw [generate_of_always text]
    rfl
  have ended : short.1 ≠ .unfinished := by rw [isShort]; exact Exit.noConfusion
  have ended' : long.1 ≠ .unfinished := by rw [isLong]; exact Exit.noConfusion
  have zero : short.1 = .code 0 := by rw [isShort]
  obtain ⟨more, _, _, whole⟩ :=
    (record_prefix_stable read read' asks asks' (by decide) loaded decoded 9 9).2 ended ended'
  obtain ⟨quiet, _, lexicon', texts, _, _, repeats, _, shown⟩ := whole zero
  refine ⟨more, zero, ?_, quiet, ?_, ?_, lexicon', texts, repeats, shown⟩
  · rw [isShort]
    rfl
  · rw [isLong]
  · rw [isLong]
    rfl

end Command
end TextGrammar
