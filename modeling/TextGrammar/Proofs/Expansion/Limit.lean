import TextGrammar.Proofs.Expansion.Simulation

/-!
# Limits

An expansion takes up one part after the other. Here this is told as a relation, with a count of the
parts that have been taken up: each part is counted first, then the count is held against the limit,
if there is one, and only then is the part acted on. So the part that exceeds the limit is looked at
but has no effect, and a run with a limit does what the run without it does in as many steps as the
limit allows.
-/
namespace TextGrammar

namespace Run

variable {σ : Type} [Chooser σ]

def start (rule : Rule) (source : σ) : Run σ := ⟨"", rule, [], [], source⟩

/-- What comes of the next part, if there is one. -/
def act (lexicon : Lexicon) (name : String) (run : Run σ) : Option (Except (Outcome σ) (Run σ)) :=
  (nextPart run.current run.pending).map fun next =>
    { run with current := next.2.1, pending := next.2.2 }.take lexicon name next.1

/-- With `count` parts behind it, the run ends like this, after taking up `total` parts that are not
beyond the limit. -/
inductive Halts (lexicon : Lexicon) (name : String) (limit : Option Int) :
    Nat → Run σ → Nat → Outcome σ → Prop where
  | done {count : Nat} {run : Run σ} (ended : run.act lexicon name = none) :
      Halts lexicon name limit count run count (run.stop (.text run.output))
  | exceeded {count : Nat} {run : Run σ} {bound : Int} (more : run.act lexicon name ≠ none)
      (limited : limit = some bound) (beyond : bound < count + 1) :
      Halts lexicon name limit count run count (run.stop (.fault (.stepLimit name bound)))
  | fails {count : Nat} {run : Run σ} {outcome : Outcome σ}
      (within : ∀ bound ∈ limit, (count + 1 : Int) ≤ bound)
      (acted : run.act lexicon name = some (.error outcome)) :
      Halts lexicon name limit count run (count + 1) outcome
  | goes {count total : Nat} {run next : Run σ} {outcome : Outcome σ}
      (within : ∀ bound ∈ limit, (count + 1 : Int) ≤ bound)
      (acted : run.act lexicon name = some (.ok next))
      (rest : Halts lexicon name limit (count + 1) next total outcome) :
      Halts lexicon name limit count run total outcome

/-- Acting on `steps` parts leads from one run to the other. -/
inductive Goes (lexicon : Lexicon) (name : String) : Nat → Run σ → Run σ → Prop where
  | zero (run : Run σ) : Goes lexicon name 0 run run
  | succ {steps : Nat} {run next later : Run σ} (acted : run.act lexicon name = some (.ok next))
      (rest : Goes lexicon name steps next later) : Goes lexicon name (steps + 1) run later

variable {lexicon : Lexicon} {name : String} {run next later : Run σ} {outcome : Outcome σ}
  {count total steps : Nat} {limit : Int}

/-! ## One step -/

theorem proceed_of_none (ended : run.act lexicon name = none) (steps : Nat) :
    run.proceed lexicon name steps = run.stop (.text run.output) := by
  rw [act, Option.map_eq_none_iff] at ended
  rw [proceed, ended]

theorem proceed_zero (more : run.act lexicon name ≠ none) :
    run.proceed lexicon name 0 = run.stop .unfinished := by
  obtain ⟨result, acted⟩ := Option.ne_none_iff_exists'.mp more
  obtain ⟨_, next, _⟩ := Option.map_eq_some_iff.mp acted
  rw [proceed, next]

theorem proceed_of_ok (acted : run.act lexicon name = some (.ok next)) (steps : Nat) :
    run.proceed lexicon name (steps + 1) = next.proceed lexicon name steps := by
  obtain ⟨_, next, took⟩ := Option.map_eq_some_iff.mp acted
  rw [proceed, next]
  simp only [took]

theorem proceed_of_error (acted : run.act lexicon name = some (.error outcome)) (steps : Nat) :
    run.proceed lexicon name (steps + 1) = outcome := by
  obtain ⟨_, next, took⟩ := Option.map_eq_some_iff.mp acted
  rw [proceed, next]
  simp only [took]

/-- Acting on a part never leaves a run unfinished. -/
theorem finished_of_act (acted : run.act lexicon name = some (.error outcome)) :
    outcome.ending ≠ .unfinished := by
  obtain ⟨⟨part, rest, pending⟩, _, took⟩ := Option.map_eq_some_iff.mp acted
  have turn := take_turn lexicon name { run with current := rest, pending := pending } part
  rw [took] at turn
  cases turn with
  | fails means => exact Ending.noConfusion

/-! ## Runs without a limit -/

theorem Halts.finished {limit : Option Int}
    (halts : run.Halts lexicon name limit count total outcome) : outcome.ending ≠ .unfinished := by
  induction halts with
  | done | exceeded => exact Ending.noConfusion
  | fails within acted => exact finished_of_act acted
  | goes within acted rest ih => exact ih

theorem Halts.count_le {limit : Option Int}
    (halts : run.Halts lexicon name limit count total outcome) : count ≤ total := by
  induction halts with
  | done | exceeded => exact Nat.le_refl _
  | fails => exact Nat.le_succ _
  | goes within acted rest ih => exact Nat.le_of_succ_le ih

theorem Halts.proceed (halts : run.Halts lexicon name none count total outcome)
    (enough : total ≤ count + steps) : run.proceed lexicon name steps = outcome := by
  induction halts generalizing steps with
  | done ended => exact proceed_of_none ended steps
  | exceeded more limited beyond => cases limited
  | fails within acted =>
    obtain ⟨steps, rfl⟩ : ∃ fewer, steps = fewer + 1 := ⟨steps - 1, by omega⟩
    exact proceed_of_error acted steps
  | goes within acted rest ih =>
    have short := rest.count_le
    obtain ⟨steps, rfl⟩ : ∃ fewer, steps = fewer + 1 := ⟨steps - 1, by omega⟩
    rw [proceed_of_ok acted]
    exact ih (by omega)

theorem Goes.proceed (goes : Goes lexicon name steps run later)
    (more : later.act lexicon name ≠ none) :
    run.proceed lexicon name steps = later.stop .unfinished := by
  induction goes with
  | zero run => exact proceed_zero more
  | succ acted rest ih =>
    rw [proceed_of_ok acted]
    exact ih more

/-- Before it has taken up all its parts, a run that ends goes on. -/
theorem Halts.goes_before (halts : run.Halts lexicon name none count total outcome)
    (before : count + steps < total) :
    ∃ later, Goes lexicon name steps run later ∧ later.act lexicon name ≠ none := by
  induction halts generalizing steps with
  | done ended => omega
  | exceeded more limited beyond => cases limited
  | fails within acted =>
    -- the part that fails has been taken up too, so it is the next part
    obtain rfl : steps = 0 := by omega
    exact ⟨_, .zero _, by simp [acted]⟩
  | @goes count total _ _ _ within acted rest ih =>
    cases steps with
    | zero => exact ⟨_, .zero _, by simp [acted]⟩
    | succ steps =>
      have sooner : count + 1 + steps < total := by omega
      obtain ⟨later, goes, more⟩ := ih sooner
      exact ⟨later, .succ acted goes, more⟩

/-- A run that never ends always goes on. -/
theorem goes_of_endless
    (endless : ∀ total outcome, ¬run.Halts lexicon name none count total outcome) (steps : Nat) :
    ∃ later, Goes lexicon name steps run later ∧ later.act lexicon name ≠ none := by
  induction steps generalizing run count with
  | zero =>
    refine ⟨run, .zero run, fun ended => ?_⟩
    exact endless _ _ (.done ended)
  | succ steps ih =>
    cases acted : run.act lexicon name with
    | none => exact absurd (.done acted) (endless _ _)
    | some result =>
      cases result with
      | error outcome => exact absurd (.fails nofun acted) (endless _ _)
      | ok next =>
        have later : ∀ total outcome, ¬next.Halts lexicon name none (count + 1) total outcome :=
          fun total outcome rest => endless total outcome (.goes nofun acted rest)
        obtain ⟨later, goes, more⟩ := ih later
        exact ⟨later, .succ acted goes, more⟩

/-! ## Runs with a limit -/

/-- A limit that is high enough makes no difference. -/
theorem Halts.within (halts : run.Halts lexicon name none count total outcome)
    (enough : (total : Int) ≤ max limit 0) :
    run.Halts lexicon name (some limit) count total outcome := by
  induction halts with
  | done ended => exact .done ended
  | exceeded more limited beyond => cases limited
  | fails within acted =>
    refine .fails (fun bound member => ?_) acted
    obtain rfl := Option.some.inj member
    omega
  | goes within acted rest ih =>
    have short := rest.count_le
    refine .goes (fun bound member => ?_) acted (ih enough)
    obtain rfl := Option.some.inj member
    omega

/-- A run that would go on past the limit ends there. -/
theorem Goes.exceeds (goes : Goes lexicon name steps run later)
    (more : later.act lexicon name ≠ none) (reached : count + steps = limit.toNat) :
    run.Halts lexicon name (some limit) count limit.toNat
      (later.stop (.fault (.stepLimit name limit))) := by
  -- as the run goes on, the count grows by as much as the steps get fewer
  induction goes generalizing count with
  | zero run =>
    obtain rfl : count = limit.toNat := reached
    exact .exceeded more rfl (by omega)
  | succ acted rest ih =>
    refine .goes (fun bound member => ?_) acted (ih more (by omega))
    obtain rfl := Option.some.inj member
    omega

end Run

namespace Lexicon

open Run

variable {σ : Type} [Chooser σ] {lexicon : Lexicon} {name : String} {rule : Rule} {source : σ}

theorem expand_limited_of_halts (defined : lexicon.rule? name = some rule) {total : Nat}
    {outcome : Outcome σ} (halts : (start rule source).Halts lexicon name none 0 total outcome)
    {limit : Int} (enough : (total : Int) ≤ max limit 0) (patience : Nat) :
    lexicon.expand name (some limit) patience source = outcome := by
  have steps : total ≤ 0 + limit.toNat := by omega
  have ends := halts.proceed steps
  simp only [start] at ends
  simp only [expand, defined, ends]
  split
  next unfinished => exact absurd unfinished halts.finished
  next => rfl

theorem expand_limited_of_goes (defined : lexicon.rule? name = some rule) {limit : Int}
    {later : Run σ} (goes : Goes lexicon name limit.toNat (start rule source) later)
    (more : later.act lexicon name ≠ none) (patience : Nat) :
    lexicon.expand name (some limit) patience source =
      later.stop (.fault (.stepLimit name limit)) := by
  have stalls := goes.proceed more
  simp only [start] at stalls
  simp only [expand, defined, stalls]
  rfl

theorem expand_unlimited_of_goes (defined : lexicon.rule? name = some rule) {patience : Nat}
    {later : Run σ} (goes : Goes lexicon name patience (start rule source) later)
    (more : later.act lexicon name ≠ none) :
    lexicon.expand name none patience source = later.stop .unfinished := by
  rw [expand_defined defined]
  exact goes.proceed more

/-- With a limit there is always an end, after no more parts than the limit says. -/
theorem expand_halts_limited (defined : lexicon.rule? name = some rule) (source : σ) (limit : Int)
    (patience : Nat) : ∃ total ≤ limit.toNat, (start rule source).Halts lexicon name (some limit) 0
      total (lexicon.expand name (some limit) patience source) := by
  have exceeds {later : Run σ} (goes : Goes lexicon name limit.toNat (start rule source) later)
      (more : later.act lexicon name ≠ none) : ∃ total ≤ limit.toNat,
        (start rule source).Halts lexicon name (some limit) 0 total
          (lexicon.expand name (some limit) patience source) := by
    rw [expand_limited_of_goes defined goes more]
    exact ⟨limit.toNat, Nat.le_refl _, goes.exceeds more (Nat.zero_add _)⟩
  by_cases ends : ∃ total outcome, (start rule source).Halts lexicon name none 0 total outcome
  · obtain ⟨total, outcome, halts⟩ := ends
    by_cases enough : (total : Int) ≤ max limit 0
    · rw [expand_limited_of_halts defined halts enough]
      exact ⟨total, by omega, halts.within enough⟩
    · have before : 0 + limit.toNat < total := by omega
      obtain ⟨later, goes, more⟩ := halts.goes_before before
      exact exceeds goes more
  · -- a run that never ends is stopped by any limit
    have endless : ∀ total outcome, ¬(start rule source).Halts lexicon name none 0 total outcome :=
      fun total outcome halts => ends ⟨total, outcome, halts⟩
    obtain ⟨later, goes, more⟩ := goes_of_endless endless limit.toNat
    exact exceeds goes more

/-- For a rule that is there, an expansion without a limit either ends, with a total of parts, or
always goes on. Up to that total, and else forever, a limit ends it after as many parts as the limit
says; a limit that is not below the total changes nothing. -/
theorem expand_limit_law (lexicon : Lexicon) (name : String) (source : σ) :
    (lexicon.rule? name = none → ∀ limit patience,
      lexicon.expand name limit patience source = ⟨.fault (.unknownRule name), [], source⟩) ∧
    ∀ rule, lexicon.rule? name = some rule →
      (∀ total outcome, (start rule source).Halts lexicon name none 0 total outcome →
        (∀ patience, total ≤ patience → lexicon.expand name none patience source = outcome) ∧
        ∀ limit patience,
          ((total : Int) ≤ max limit 0 →
            lexicon.expand name (some limit) patience source = outcome) ∧
          (max limit 0 < (total : Int) → ∃ later,
            Goes lexicon name limit.toNat (start rule source) later ∧
            lexicon.expand name (some limit) patience source =
              ⟨.fault (.stepLimit name limit), later.draws.reverse, later.source⟩)) ∧
      ((∀ total outcome, ¬(start rule source).Halts lexicon name none 0 total outcome) →
        (∀ patience, (lexicon.expand name none patience source).ending = .unfinished) ∧
        ∀ limit patience, ∃ later,
          Goes lexicon name limit.toNat (start rule source) later ∧
          lexicon.expand name (some limit) patience source =
            ⟨.fault (.stepLimit name limit), later.draws.reverse, later.source⟩) ∧
      ∀ limit patience, (lexicon.expand name (some limit) patience source).ending ≠ .unfinished ∧
        ∃ total ≤ limit.toNat, (start rule source).Halts lexicon name (some limit) 0 total
          (lexicon.expand name (some limit) patience source) := by
  refine ⟨fun undefined limit patience => by simp only [expand, undefined], ?_⟩
  intro rule defined
  refine ⟨fun total outcome halts => ⟨fun patience enough => ?_, fun limit patience => ⟨?_, ?_⟩⟩,
    fun endless => ⟨fun patience => ?_, fun limit patience => ?_⟩, fun limit patience => ?_⟩
  · rw [expand_defined defined]
    have steps : total ≤ 0 + patience := by omega
    exact halts.proceed steps
  · intro enough
    exact expand_limited_of_halts defined halts enough patience
  · intro short
    have before : 0 + limit.toNat < total := by omega
    obtain ⟨later, goes, more⟩ := halts.goes_before before
    exact ⟨later, goes, expand_limited_of_goes defined goes more patience⟩
  · obtain ⟨later, goes, more⟩ := goes_of_endless endless patience
    rw [expand_unlimited_of_goes defined goes more]
    rfl
  · obtain ⟨later, goes, more⟩ := goes_of_endless endless limit.toNat
    exact ⟨later, goes, expand_limited_of_goes defined goes more patience⟩
  · obtain ⟨total, within, halts⟩ := expand_halts_limited defined source limit patience
    exact ⟨halts.finished, total, within, halts⟩

/-- A rule that never ends, and one that ends after two parts. -/
def looping : Lexicon :=
  .ofList [("loop", [.reference "loop"]), ("word", [.text "x", .choice [.text "y", .text "z"]])]

theorem looping_limited :
    let picks : Script := ⟨[1], 0⟩
    looping.expand "none" (some 0) 0 picks = ⟨.fault (.unknownRule "none"), [], picks⟩ ∧
    looping.expand "word" (some 2) 0 picks = ⟨.text "xz", [⟨2, 1⟩], ⟨[], 0⟩⟩ ∧
    (looping.expand "word" (some 1) 0 picks).ending = .fault (.stepLimit "word" 1) ∧
    (looping.expand "loop" (some 9) 0 picks).ending = .fault (.stepLimit "loop" 9) := by
  intro picks
  have word := (looping.expand_limit_law "word" picks).2 _ rfl
  have halts : (start [.text "x", .choice [.text "y", .text "z"]] picks).Halts looping "word" none
      0 2 ⟨.text "xz", [⟨2, 1⟩], ⟨[], 0⟩⟩ :=
    .goes nofun rfl (.goes nofun rfl (.done rfl))
  have loop := (looping.expand_limit_law "loop" picks).2 _ rfl
  have endless : ∀ total outcome,
      ¬(start [.reference "loop"] picks).Halts looping "loop" none 0 total outcome := by
    generalize 0 = count
    intro total outcome halts
    -- the one step there is leads back to where it started
    generalize first : start [.reference "loop"] picks = run at halts
    have again : run.act looping "loop" = some (.ok run) := by subst first; rfl
    induction halts with
    | done ended => simp [ended] at again
    | exceeded more limited beyond => cases limited
    | fails within acted => simp [acted] at again
    | goes within acted rest ih =>
      obtain rfl : _ = _ := Except.ok.inj (Option.some.inj (acted.symm.trans again))
      exact ih first again
  refine ⟨(looping.expand_limit_law "none" picks).1 rfl _ _, ?_, ?_, ?_⟩
  · exact ((word.1 _ _ halts).2 2 0).1 (by decide)
  · obtain ⟨later, goes, ends⟩ := ((word.1 _ _ halts).2 1 0).2 (by decide)
    rw [ends]
  · obtain ⟨later, goes, ends⟩ := (loop.2.1 endless).2 9 0
    rw [ends]

end Lexicon
end TextGrammar
