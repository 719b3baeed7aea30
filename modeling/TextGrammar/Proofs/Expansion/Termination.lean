import Mathlib.Tactic.ByContra
import TextGrammar.Proofs.Expansion.Limit
import TextGrammar.Proofs.Expansion.Reachability

/-!
# Expansions that have to end

Where no name that can be reached refers back to itself, every expansion ends, and how many parts it
takes up is bounded before anything is drawn. The bound weighs a part by the most parts that it can
lead to, itself included: of a sequence all parts count, and of a choice only the heaviest item. A
rule is weighed by following its references as deep as there are names. That is deep enough, since
on a path of references no name comes twice. Every step then takes some weight off what is left to
do, wherever it has been put aside.
-/
namespace TextGrammar

mutual

/-- The most parts that are taken up until nothing is left of a part, when `rules` says so for the
rules of the names. -/
def Part.weight (rules : String → Nat) : Part → Nat
  | .text _ => 1
  | .reference other => rules other + 1
  | .choice items => Alternative.weights rules items + 1
  | .sequence _ => 1

def Part.weights (rules : String → Nat) : List Part → Nat
  | [] => 0
  | part :: parts => part.weight rules + Part.weights rules parts

def Alternative.weight (rules : String → Nat) : Alternative → Nat
  | .text _ => 0
  | .sequence parts => Part.weights rules parts

def Alternative.weights (rules : String → Nat) : List Alternative → Nat
  | [] => 0
  | item :: items => max (item.weight rules) (Alternative.weights rules items)

end

namespace Lexicon

/-- The weight of the rule of a name, with references followed only so deep. -/
def weightWithin (lexicon : Lexicon) : Nat → String → Nat
  | 0, _ => 0
  | depth + 1, name =>
    match lexicon.rule? name with
    | some rule => Part.weights (lexicon.weightWithin depth) rule
    | none => 0

def weight (lexicon : Lexicon) (name : String) : Nat := lexicon.weightWithin lexicon.size name

/-- The rule of the name mentions a name that leads back to it. -/
def Recurs (lexicon : Lexicon) (name : String) : Prop :=
  ∃ rule, lexicon.rule? name = some rule ∧
    ∃ part ∈ rule, ∃ other, part.Mentions other ∧ lexicon.Reaches other name

end Lexicon

/-! ## Weights -/

section Weights

variable {rules rules' : String → Nat} {lexicon : Lexicon}

theorem Part.weights_append (front back : List Part) :
    weights rules (front ++ back) = weights rules front + weights rules back := by
  induction front with
  | nil => simp [weights]
  | cons part front ih => simp only [List.cons_append, weights, ih, Nat.add_assoc]

theorem Part.weight_pos (rules : String → Nat) (part : Part) : 0 < part.weight rules := by
  cases part <;> simp [weight]

theorem Alternative.weights_of_mem {items : List Alternative} {item : Alternative}
    (member : item ∈ items) : item.weight rules ≤ weights rules items := by
  induction items with
  | nil => cases member
  | cons first items ih =>
    rw [weights]
    rcases List.mem_cons.mp member with rfl | later
    · exact Nat.le_max_left _ _
    · exact Nat.le_trans (ih later) (Nat.le_max_right _ _)

-- only the weights of the names that are mentioned matter
mutual

theorem Part.weight_congr {part : Part}
    (agree : ∀ other, part.Mentions other → rules' other = rules other) :
    part.weight rules' = part.weight rules := by
  match part with
  | .text _ | .sequence _ => simp only [Part.weight]
  | .reference other => simp only [Part.weight, agree other .reference]
  | .choice items =>
    have inner := Alternative.weights_congr fun item member other mentions =>
      agree other (.choice member mentions)
    simp only [Part.weight, inner]

theorem Part.weights_congr {parts : List Part}
    (agree : ∀ part ∈ parts, ∀ other, part.Mentions other → rules' other = rules other) :
    Part.weights rules' parts = Part.weights rules parts := by
  match parts with
  | [] => simp only [Part.weights]
  | part :: parts =>
    obtain ⟨first, others⟩ := List.forall_mem_cons.mp agree
    simp only [Part.weights, Part.weight_congr first, Part.weights_congr others]

theorem Alternative.weight_congr {item : Alternative}
    (agree : ∀ other, item.Mentions other → rules' other = rules other) :
    item.weight rules' = item.weight rules := by
  match item with
  | .text _ => simp only [Alternative.weight]
  | .sequence parts =>
    have inner := Part.weights_congr fun part member other mentions =>
      agree other (.sequence member mentions)
    simp only [Alternative.weight, inner]

theorem Alternative.weights_congr {items : List Alternative}
    (agree : ∀ item ∈ items, ∀ other, item.Mentions other → rules' other = rules other) :
    Alternative.weights rules' items = Alternative.weights rules items := by
  match items with
  | [] => simp only [Alternative.weights]
  | item :: items =>
    obtain ⟨first, others⟩ := List.forall_mem_cons.mp agree
    simp only [Alternative.weights, Alternative.weight_congr first,
      Alternative.weights_congr others]

end

/-- What takes the place of a part is lighter, if the rules of the names are no heavier than
`rules` says. -/
theorem Part.LeadsTo.weights_lt {part : Part} {parts : List Part}
    (leads : part.LeadsTo lexicon parts)
    (bounds : ∀ other, part.Mentions other → ∀ rule, lexicon.rule? other = some rule →
      Part.weights rules rule ≤ rules other) : Part.weights rules parts < part.weight rules := by
  cases leads with
  | rule defined => exact Nat.lt_succ_of_le (bounds _ .reference _ defined)
  | item member => exact Nat.lt_succ_of_le (Alternative.weights_of_mem member)

end Weights

/-! ## Runs -/

/-- By induction on the steps: each of them makes what is left to do lighter. -/
theorem Run.proceed_ends {σ : Type} [Chooser σ] {lexicon : Lexicon} {rules : String → Nat}
    {holds : Part → Prop} (inherited : Inherited lexicon holds)
    (lighter : ∀ {part parts}, part.LeadsTo lexicon parts → holds part →
      Part.weights rules parts < part.weight rules)
    (name : String) {steps : Nat} (run : Run σ) (left : ∀ part ∈ run.todo, holds part)
    (enough : Part.weights rules run.todo ≤ steps) :
    (run.proceed lexicon name steps).ending ≠ .unfinished := by
  induction steps generalizing run with
  | zero =>
    cases todo : run.todo with
    | nil =>
      rw [proceed_done todo]
      exact Ending.noConfusion
    | cons part rest =>
      rw [todo, Part.weights] at enough
      have positive := part.weight_pos rules
      omega
  | succ steps ih =>
    cases todo : run.todo with
    | nil =>
      rw [proceed_done todo]
      exact Ending.noConfusion
    | cons part rest =>
      obtain ⟨taken, up⟩ := exists_takesUp lexicon name todo
      rw [todo] at left enough
      rw [Part.weights] at enough
      have positive := part.weight_pos rules
      obtain ⟨here, others⟩ := List.forall_mem_cons.mp left
      rw [← up.todo] at others
      have taking := Run.take_cases lexicon name part taken
      rw [up.proceeds]
      cases took : taken.take lexicon name part with
      | error outcome =>
        rw [took] at taking
        obtain ⟨fault, ending, _⟩ := taking
        simp only [ending]
        exact Ending.noConfusion
      | ok next =>
        rw [took] at taking
        apply ih next (Run.take_inherits inherited name here others took)
        rcases taking with same | ⟨parts, leads, same⟩
        -- either the part is gone, or lighter ones have taken its place
        · rw [same, up.todo]
          omega
        · have less := lighter leads here
          rw [same, up.todo, Part.weights_append]
          omega

/-! ## Lexicons -/

namespace Lexicon

variable {lexicon : Lexicon} {name other between : String}

theorem Reaches.trans (reaches : lexicon.Reaches name between)
    (further : lexicon.Reaches between other) : lexicon.Reaches name other := by
  induction further with
  | here => exact reaches
  | further _ defined member mentions ih => exact .further ih defined member mentions

theorem weightWithin_of_undefined (undefined : lexicon.rule? name = none) (depth : Nat) :
    lexicon.weightWithin depth name = 0 := by
  cases depth <;> simp only [weightWithin, undefined]

theorem weightWithin_of_defined {rule : Rule} (defined : lexicon.rule? name = some rule)
    (depth : Nat) :
    lexicon.weightWithin (depth + 1) name = Part.weights (lexicon.weightWithin depth) rule := by
  simp only [weightWithin, defined]

/-- It makes no difference to follow references deeper than there are names to come. `free` has the
names that may still come; behind a name it does not come again. -/
theorem weightWithin_succ (free : List String) {depth : Nat}
    (acyclic : ∀ other, lexicon.Reaches name other → ¬lexicon.Recurs other)
    (within : ∀ other rule, lexicon.Reaches name other → lexicon.rule? other = some rule →
      other ∈ free) (deep : free.length ≤ depth) :
    lexicon.weightWithin (depth + 1) name = lexicon.weightWithin depth name := by
  induction depth generalizing free name with
  | zero =>
    cases defined : lexicon.rule? name with
    | none => simp only [weightWithin_of_undefined defined]
    | some rule =>
      have present := within name rule .here defined
      rw [List.length_eq_zero_iff.mp (Nat.le_zero.mp deep)] at present
      cases present
  | succ depth ih =>
    cases defined : lexicon.rule? name with
    | none => simp only [weightWithin_of_undefined defined]
    | some rule =>
      simp only [weightWithin_of_defined defined]
      refine Part.weights_congr fun part member other mentions => ?_
      have reaches : lexicon.Reaches name other := .further .here defined member mentions
      -- a name that comes behind this one is another one, so one name less is free
      refine ih (free.erase name) (fun later reached => acyclic later (reaches.trans reached))
        (fun later rule' reached defined' => ?_) ?_
      · have different : later ≠ name := by
          rintro rfl
          exact acyclic later .here ⟨rule, defined, part, member, other, mentions, reached⟩
        have present := within later rule' (reaches.trans reached) defined'
        exact (List.mem_erase_of_ne different).mpr present
      · have present := within name rule .here defined
        have shorter := List.length_erase_of_mem present
        omega

theorem mem_names {rule : Rule} (defined : lexicon.rule? name = some rule) :
    name ∈ lexicon.names := by
  obtain ⟨front, back, split, _⟩ := List.lookup_eq_some_iff.mp defined
  simp [names, split]

theorem weights_rule (acyclic : ∀ other, lexicon.Reaches name other → ¬lexicon.Recurs other)
    (reached : lexicon.Reaches name other) {rule : Rule}
    (defined : lexicon.rule? other = some rule) :
    Part.weights lexicon.weight rule = lexicon.weight other := by
  have deep : lexicon.names.length ≤ lexicon.size := by simp [names, size]
  have stable : lexicon.weightWithin (lexicon.size + 1) other =
      lexicon.weightWithin lexicon.size other :=
    weightWithin_succ lexicon.names (fun later further => acyclic later (reached.trans further))
      (fun later rule _ defined => mem_names defined) deep
  rw [weightWithin_of_defined defined] at stable
  exact stable

open Run

/-- A run that ends within so many steps has not taken up more parts. -/
theorem exists_halts_of_ends {σ : Type} [Chooser σ] {run : Run σ} {bound : Nat}
    (ends : (run.proceed lexicon name bound).ending ≠ .unfinished) :
    ∃ total ≤ bound, run.Halts lexicon name none 0 total (run.proceed lexicon name bound) := by
  -- a run that could go on after so many steps would have been left unfinished
  have stalled : ∀ later : Run σ, Goes lexicon name bound run later →
      later.act lexicon name = none := by
    intro later goes
    by_contra more
    rw [goes.proceed more] at ends
    exact ends rfl
  by_cases halting : ∃ total outcome, run.Halts lexicon name none 0 total outcome
  · obtain ⟨total, outcome, halts⟩ := halting
    have short : total ≤ bound := by
      by_contra beyond
      obtain ⟨later, goes, more⟩ := halts.goes_before (show 0 + bound < total by omega)
      exact more (stalled later goes)
    rw [halts.proceed (show total ≤ 0 + bound by omega)]
    exact ⟨total, short, halts⟩
  · -- a run that never ends would have gone on
    obtain ⟨later, goes, more⟩ := goes_of_endless
      (fun total outcome halts => halting ⟨total, outcome, halts⟩) bound
    exact absurd (stalled later goes) more

/-- Where no name that can be reached leads back to itself, an expansion without a limit ends after
at most as many parts as the name weighs, whatever is drawn. -/
theorem expand_ends (acyclic : ∀ other, lexicon.Reaches name other → ¬lexicon.Recurs other)
    {σ : Type} [Chooser σ] (source : σ) :
    ∃ outcome : Outcome σ, outcome.ending ≠ .unfinished ∧
      (∀ patience, lexicon.weight name ≤ patience →
        lexicon.expand name none patience source = outcome) ∧
      ∀ rule, lexicon.rule? name = some rule → ∃ total ≤ lexicon.weight name,
        (start rule source).Halts lexicon name none 0 total outcome := by
  cases defined : lexicon.rule? name with
  | none =>
    refine ⟨⟨.fault (.unknownRule name), [], source⟩, Ending.noConfusion, ?_, nofun⟩
    intro patience _
    simp only [expand, defined]
  | some rule =>
    -- whatever is left to do mentions reachable names only, whose rules weigh what they do
    have lighter : ∀ {part parts}, part.LeadsTo lexicon parts → lexicon.Covers name part →
        Part.weights lexicon.weight parts < part.weight lexicon.weight := by
      intro part parts leads covers
      apply leads.weights_lt
      intro other mentions rule defined
      exact Nat.le_of_eq (weights_rule acyclic (covers other mentions) defined)
    have start_todo : (start rule source).todo = rule := List.append_nil rule
    have covered : ∀ part ∈ (start rule source).todo, lexicon.Covers name part := by
      rw [start_todo]
      exact covers_inherited lexicon name (.rule defined) (covers_reference lexicon name)
    have enough : Part.weights lexicon.weight (start rule source).todo ≤ lexicon.weight name := by
      rw [start_todo]
      exact Nat.le_of_eq (weights_rule acyclic .here defined)
    have ends := Run.proceed_ends (covers_inherited lexicon name) lighter name _ covered enough
    obtain ⟨total, short, halts⟩ := exists_halts_of_ends ends
    refine ⟨_, ends, ?_, ?_⟩
    · intro patience within
      rw [expand_defined defined]
      exact halts.proceed (show total ≤ 0 + patience by omega)
    · rintro _ ⟨⟩
      exact ⟨total, short, halts⟩

/-- Names are acyclic when they can be ranked, each above those that its rule mentions. -/
theorem not_recurs_of_rank (rank : String → Nat)
    (drops : ∀ {other rule part later}, lexicon.Reaches name other →
      lexicon.rule? other = some rule → part ∈ rule → part.Mentions later →
      rank later < rank other) :
    ∀ other, lexicon.Reaches name other → ¬lexicon.Recurs other := by
  intro other reaches ⟨rule, defined, part, member, next, mentions, back⟩
  have first := drops reaches defined member mentions
  have reached : lexicon.Reaches name next := .further reaches defined member mentions
  have descends : ∀ later, lexicon.Reaches next later → rank later ≤ rank next := by
    intro later further
    induction further with
    | here => exact Nat.le_refl _
    | further before defined member mentions ih =>
      have below := drops (reached.trans before) defined member mentions
      omega
  have again := descends other back
  omega

/-- Two names share a rule, and one of them has a name without a rule behind it. There is a cycle
too, but out of reach. -/
def shared : Lexicon :=
  .ofList [("a", [.reference "b", .choice [.text "x", .sequence [.reference "b", .reference "c"]]]),
    ("b", [.text "y"]), ("loop", [.reference "loop"])]

theorem shared_ends :
    (∀ other, shared.Reaches "a" other → ¬shared.Recurs other) ∧ shared.Recurs "loop" ∧
    shared.weight "a" = 6 ∧ ∀ picks, ∃ outcome : Outcome Script, outcome.ending ≠ .unfinished ∧
      (∀ patience, 6 ≤ patience → shared.expand "a" none patience ⟨picks, 0⟩ = outcome) ∧
      ∀ rule, shared.rule? "a" = some rule → ∃ total ≤ 6,
        (start rule (⟨picks, 0⟩ : Script)).Halts shared "a" none 0 total outcome := by
  -- of the names in reach only the first one mentions others
  have mentioned : ∀ {between rule part other}, between = "a" ∨ between = "b" ∨ between = "c" →
      shared.rule? between = some rule → part ∈ rule → part.Mentions other →
      between = "a" ∧ (other = "b" ∨ other = "c") := by
    rintro between rule part other (rfl | rfl | rfl) ⟨⟩ member mentions
    · refine ⟨rfl, ?_⟩
      have listed : part = .reference "b" ∨
          part = .choice [.text "x", .sequence [.reference "b", .reference "c"]] := by
        simpa using member
      rcases listed with rfl | rfl
      · exact .inl (Part.mentions_reference.mp mentions)
      · simpa using mentions
    · obtain rfl := List.mem_singleton.mp member
      exact absurd mentions Part.not_mentions_text
  have few : ∀ other, shared.Reaches "a" other → other = "a" ∨ other = "b" ∨ other = "c" := by
    intro other reaches
    induction reaches with
    | here => exact .inl rfl
    | further reached defined member mentions ih =>
      exact .inr (mentioned ih defined member mentions).2
  have acyclic : ∀ other, shared.Reaches "a" other → ¬shared.Recurs other := by
    apply not_recurs_of_rank fun name => if name = "a" then 1 else 0
    intro other rule part later reaches defined member mentions
    obtain ⟨rfl, rfl | rfl⟩ := mentioned (few other reaches) defined member mentions
    · decide
    · decide
  refine ⟨acyclic, ?_, ?_, fun picks => ?_⟩
  · exact ⟨_, rfl, _, List.mem_singleton_self _, "loop", .reference, .here⟩
  · decide
  · exact expand_ends acyclic (⟨picks, 0⟩ : Script)

end Lexicon
end TextGrammar
