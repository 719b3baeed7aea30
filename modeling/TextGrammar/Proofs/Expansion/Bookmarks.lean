import TextGrammar.Proofs.Expansion.Inheritance
import TextGrammar.Proofs.Expansion.Limit

/-!
# Where an expansion comes back to

A run puts aside what is left of a sequence, and not the sequence itself. Here the sequences are
written down beside the run, each with a bookmark in it. The bookmark at hand moves on when a part
is taken up. When another sequence takes the place of that part, the bookmark is kept if the run has
put something aside, and is forgotten if it has not. So it can be told of every bookmark that is
kept that the sequence has been begun and is not at its end. And where only the last part of a
sequence ever gives way to another one, none is kept at all, however long the run goes on.
-/
namespace TextGrammar

/-- The part is there to be replaced: it is a reference, or there is an item to draw. -/
def Part.isPlaceholder : Part → Bool
  | .text _ | .sequence _ => false
  | .reference _ => true
  | .choice items => !items.isEmpty

/-- The sequence that takes the place of the part, if one does, with the item that is drawn from
`source`. -/
def Part.target? {σ : Type} [Chooser σ] (lexicon : Lexicon) (source : σ) :
    Part → Option (List Part)
  | .text _ | .choice [] | .sequence _ => none
  | .reference other => lexicon.rule? other
  | .choice (item :: others) =>
    match (item :: others).get (Chooser.choose others.length source).1 with
    | .text _ => none
    | .sequence parts => some parts

/-- A sequence and the number of its parts that have been taken up. -/
structure Bookmark where
  index : Nat
  sequence : List Part

namespace Bookmark

variable {mark : Bookmark} {part : Part} {parts : List Part}

def rest (mark : Bookmark) : List Part := mark.sequence.drop mark.index

def next (mark : Bookmark) : Bookmark := { mark with index := mark.index + 1 }

theorem rest_next (front : mark.rest = part :: parts) : mark.next.rest = parts := by
  have moved : mark.next.rest = mark.rest.tail := List.tail_drop.symm
  rw [moved, front, List.tail_cons]

theorem mem_sequence (front : mark.rest = part :: parts) : part ∈ mark.sequence := by
  have member : part ∈ mark.rest := front ▸ List.mem_cons_self
  exact List.mem_of_mem_drop member

/-- A part with another one behind it is not the last of its sequence. -/
theorem mem_dropLast (front : mark.rest = part :: parts) (more : parts ≠ []) :
    part ∈ mark.sequence.dropLast := by
  have split : mark.sequence = mark.sequence.take mark.index ++ part :: parts :=
    front ▸ (List.take_append_drop ..).symm
  rw [split, List.dropLast_append_cons, List.dropLast_cons_of_ne_nil more]
  simp

theorem index_lt (more : mark.rest ≠ []) : mark.index < mark.sequence.length := by
  simpa [rest] using more

end Bookmark

/-- The sequences that an expansion of `name` can go into: its rule, and from there the rules of the
names and the items of the choices that come up, over any number of rules and choices. -/
inductive Lexicon.Enters (lexicon : Lexicon) (name : String) : List Part → Prop where
  | rule {rule : Rule} (defined : lexicon.rule? name = some rule) : Enters lexicon name rule
  | further {outer parts : List Part} {part : Part} (enters : Enters lexicon name outer)
      (member : part ∈ outer) (leads : part.LeadsTo lexicon parts) : Enters lexicon name parts

section Target

variable {σ : Type} [Chooser σ] {lexicon : Lexicon} {source : σ} {part : Part} {parts : List Part}

theorem Part.leadsTo_of_target? (target : part.target? lexicon source = some parts) :
    part.LeadsTo lexicon parts := by
  cases part with
  | text | sequence => cases target
  | reference other => exact .rule target
  | choice items =>
    cases items with
    | nil => cases target
    | cons item others =>
      rw [target?] at target
      split at target
      next => cases target
      next drawn picked =>
        cases target
        exact .item (picked ▸ List.get_mem ..)

theorem Part.isPlaceholder_of_target? (target : part.target? lexicon source = some parts) :
    part.isPlaceholder := by
  cases part.leadsTo_of_target? target with
  | rule defined => rfl
  | item member =>
    have listed := List.ne_nil_of_mem member
    simpa [isPlaceholder] using listed

namespace Run

/-- `part` is in front of the run, which acts on it and goes on; `rest` is what is behind it in the
sequence at hand. -/
structure Steps (lexicon : Lexicon) (name : String) (run : Run σ) (part : Part) (rest : List Part)
    (next : Run σ) : Prop where
  front : run.current = part :: rest
  took : { run with current := rest }.take lexicon name part = .ok next

variable {name : String} {run next : Run σ} {rest : List Part}

/-- A part that is acted on leaves the run where it is, or has it go on in its target. -/
theorem take_target (took : run.take lexicon name part = .ok next) :
    match part.target? lexicon run.source with
    | none => next.current = run.current ∧ next.pending = run.pending
    | some parts => next.current = parts ∧
        next.pending = if run.current.isEmpty then run.pending else run.current :: run.pending := by
  cases part with
  | text value =>
    cases took
    exact ⟨rfl, rfl⟩
  | sequence parts => cases took
  | reference other =>
    cases defined : lexicon.rule? other with
    | none => simp [take, defined] at took
    | some rule =>
      rw [take_reference defined] at took
      cases took
      simp only [Part.target?, defined]
      exact ⟨rfl, rfl⟩
  | choice items =>
    cases items with
    | nil =>
      cases took
      exact ⟨rfl, rfl⟩
    | cons item others =>
      rw [take_choice] at took
      cases picked : (item :: others).get (Chooser.choose others.length run.source).1 with
      | text value =>
        rw [picked] at took
        cases took
        simp only [Part.target?, picked]
        exact ⟨rfl, rfl⟩
      | sequence parts =>
        rw [picked] at took
        cases took
        simp only [Part.target?, picked]
        exact ⟨rfl, rfl⟩

theorem Steps.stays (steps : run.Steps lexicon name part rest next)
    (target : part.target? lexicon run.source = none) :
    next.current = rest ∧ next.pending = run.pending := by
  have taking := take_target steps.took
  simpa only [target] using taking

theorem Steps.enters (steps : run.Steps lexicon name part rest next)
    (target : part.target? lexicon run.source = some parts) :
    next.current = parts ∧
      next.pending = if rest.isEmpty then run.pending else rest :: run.pending := by
  have taking := take_target steps.took
  simpa only [target] using taking

/-- Nothing is put aside of a sequence that is at its end. -/
theorem Steps.ne_nil (steps : run.Steps lexicon name part rest next)
    (target : part.target? lexicon run.source = some parts)
    (aside : next.pending = rest :: run.pending) : rest ≠ [] := by
  rintro rfl
  have same : next.pending = run.pending := (steps.enters target).2
  exact List.cons_ne_self _ _ (aside.symm.trans same)

end Run
end Target

namespace Lexicon

open Run

variable {σ : Type} [Chooser σ]

/-- Expanding `name` comes to the run, which is at the first bookmark and will come back to the
others, the nearest first. -/
inductive Visits (lexicon : Lexicon) (name : String) (source : σ) :
    Run σ → Bookmark → List Bookmark → Prop where
  | start {rule : Rule} (defined : lexicon.rule? name = some rule) :
      Visits lexicon name source (start rule source) ⟨0, rule⟩ []
  -- the sequence at hand is done
  | back {run : Run σ} {here mark : Bookmark} {marks : List Bookmark} {rest : List Part}
      {pending : List (List Part)} (visits : Visits lexicon name source run here (mark :: marks))
      (done : run.current = []) (waiting : run.pending = rest :: pending) :
      Visits lexicon name source { run with current := rest, pending := pending } mark marks
  -- nothing takes the place of the part
  | stay {run next : Run σ} {here : Bookmark} {marks : List Bookmark} {part : Part}
      {rest : List Part} (visits : Visits lexicon name source run here marks)
      (steps : run.Steps lexicon name part rest next)
      (target : part.target? lexicon run.source = none) :
      Visits lexicon name source next here.next marks
  -- a sequence takes the place of the part, and what is behind the part is put aside
  | keep {run next : Run σ} {here : Bookmark} {marks : List Bookmark} {part : Part}
      {rest parts : List Part} (visits : Visits lexicon name source run here marks)
      (steps : run.Steps lexicon name part rest next)
      (target : part.target? lexicon run.source = some parts)
      (aside : next.pending = rest :: run.pending) :
      Visits lexicon name source next ⟨0, parts⟩ (here.next :: marks)
  -- a sequence takes the place of the part, and nothing is put aside
  | forget {run next : Run σ} {here : Bookmark} {marks : List Bookmark} {part : Part}
      {rest parts : List Part} (visits : Visits lexicon name source run here marks)
      (steps : run.Steps lexicon name part rest next)
      (target : part.target? lexicon run.source = some parts)
      (same : next.pending = run.pending) :
      Visits lexicon name source next ⟨0, parts⟩ marks

variable {lexicon : Lexicon} {name : String} {source : σ} {run later : Run σ} {here : Bookmark}
  {marks : List Bookmark}

/-- What is left behind the bookmarks is what the run has left. -/
theorem Visits.rests (visits : lexicon.Visits name source run here marks) :
    run.current = here.rest ∧ run.pending = marks.map Bookmark.rest := by
  induction visits with
  | start => exact ⟨rfl, rfl⟩
  | back visits done waiting ih =>
    obtain ⟨-, pending⟩ := ih
    rw [waiting] at pending
    exact List.cons.inj pending
  | stay visits steps target ih =>
    obtain ⟨current, pending⟩ := ih
    obtain ⟨left, same⟩ := steps.stays target
    have front := current.symm.trans steps.front
    exact ⟨left.trans (Bookmark.rest_next front).symm, same.trans pending⟩
  | keep visits steps target aside ih =>
    obtain ⟨current, pending⟩ := ih
    have front := current.symm.trans steps.front
    refine ⟨(steps.enters target).1, ?_⟩
    rw [aside, List.map_cons, Bookmark.rest_next front, pending]
  | forget visits steps target same ih =>
    exact ⟨(steps.enters target).1, same.trans ih.2⟩

theorem Visits.front (visits : lexicon.Visits name source run here marks) {part : Part}
    {rest : List Part} {next : Run σ} (steps : run.Steps lexicon name part rest next) :
    here.rest = part :: rest :=
  visits.rests.1.symm.trans steps.front

/-- Whichever way a bookmark has come to be kept, there is a part in front of it and one behind. -/
theorem Visits.between (visits : lexicon.Visits name source run here marks) :
    ∀ mark ∈ marks, 1 ≤ mark.index ∧ mark.index < mark.sequence.length := by
  induction visits with
  | start => exact List.forall_mem_nil _
  | back visits done waiting ih => exact (List.forall_mem_cons.mp ih).2
  | stay visits steps target ih => exact ih
  | keep visits steps target aside ih =>
    -- the one that is new has moved past the part, and the run has put aside what is behind it
    have more := steps.ne_nil target aside
    rw [← Bookmark.rest_next (visits.front steps)] at more
    exact List.forall_mem_cons.mpr ⟨⟨Nat.succ_pos _, Bookmark.index_lt more⟩, ih⟩
  | forget visits steps target same ih => exact ih

theorem Visits.enters_target (visits : lexicon.Visits name source run here marks) {part : Part}
    {rest parts : List Part} {next : Run σ} (steps : run.Steps lexicon name part rest next)
    (target : part.target? lexicon run.source = some parts)
    (outer : lexicon.Enters name here.sequence) : lexicon.Enters name parts :=
  outer.further (Bookmark.mem_sequence (visits.front steps)) (Part.leadsTo_of_target? target)

/-- A run only ever is in sequences that can be gone into, and only comes back to such. -/
theorem Visits.enters (visits : lexicon.Visits name source run here marks) :
    ∀ mark ∈ here :: marks, lexicon.Enters name mark.sequence := by
  induction visits with
  | start defined => exact List.forall_mem_singleton.mpr (.rule defined)
  | back visits done waiting ih => exact (List.forall_mem_cons.mp ih).2
  | stay visits steps target ih => exact List.forall_mem_cons.mpr (List.forall_mem_cons.mp ih)
  | keep visits steps target aside ih =>
    obtain ⟨outer, others⟩ := List.forall_mem_cons.mp ih
    have inner := visits.enters_target steps target outer
    exact List.forall_mem_cons.mpr ⟨inner, List.forall_mem_cons.mpr ⟨outer, others⟩⟩
  | forget visits steps target same ih =>
    obtain ⟨outer, others⟩ := List.forall_mem_cons.mp ih
    have inner := visits.enters_target steps target outer
    exact List.forall_mem_cons.mpr ⟨inner, others⟩

/-- Nothing is kept where only the last part of a sequence gives way to another one. -/
theorem Visits.marks_nil
    (last : ∀ parts, lexicon.Enters name parts → ∀ part ∈ parts.dropLast, ¬part.isPlaceholder)
    (visits : lexicon.Visits name source run here marks) : marks = [] := by
  induction visits with
  | start => rfl
  | back visits done waiting ih => cases ih
  | stay visits steps target ih => exact ih
  | keep visits steps target aside ih =>
    -- the part is not the last one, as there is something left to put aside
    have entered := visits.enters _ List.mem_cons_self
    have early := Bookmark.mem_dropLast (visits.front steps) (steps.ne_nil target aside)
    exact absurd (Part.isPlaceholder_of_target? target) (last _ entered _ early)
  | forget visits steps target same ih => exact ih

/-! ## Every run is visited -/

theorem Visits.exists_front (visits : lexicon.Visits name source run here marks) {part : Part}
    {rest : List Part} {pending : List (List Part)}
    (found : nextPart run.current run.pending = some (part, rest, pending)) :
    ∃ here marks, lexicon.Visits name source
      { run with current := part :: rest, pending := pending } here marks := by
  obtain ⟨output, current, waiting, draws, picks⟩ := run
  simp only at found
  fun_induction nextPart current waiting generalizing here marks with
  | case1 =>
    cases found
    exact ⟨here, marks, visits⟩
  | case2 frame waiting ih =>
    -- for what has been put aside there is a bookmark to come back to
    obtain ⟨mark, others, rfl, -, -⟩ := List.map_eq_cons_iff.mp visits.rests.2.symm
    exact ih (.back visits rfl rfl) found
  | case3 => cases found

theorem Visits.exists_next (visits : lexicon.Visits name source run here marks)
    (acted : run.act lexicon name = some (.ok later)) :
    ∃ here marks, lexicon.Visits name source later here marks := by
  obtain ⟨⟨part, rest, pending⟩, found, took⟩ := Option.map_eq_some_iff.mp acted
  obtain ⟨here, marks, visits⟩ := visits.exists_front found
  have steps : Steps lexicon name { run with current := part :: rest, pending := pending } part
      rest later := ⟨rfl, took⟩
  cases target : part.target? lexicon run.source with
  | none => exact ⟨_, _, .stay visits steps target⟩
  | some parts =>
    have aside := (steps.enters target).2
    split at aside
    next => exact ⟨_, _, .forget visits steps target aside⟩
    next => exact ⟨_, _, .keep visits steps target aside⟩

theorem Visits.exists_later {steps : Nat} (visits : lexicon.Visits name source run here marks)
    (goes : Goes lexicon name steps run later) :
    ∃ here marks, lexicon.Visits name source later here marks := by
  induction goes generalizing here marks with
  | zero run => exact ⟨here, marks, visits⟩
  | succ acted rest ih =>
    obtain ⟨here, marks, visits⟩ := visits.exists_next acted
    exact ih visits

/-! ## Bookmarks that are kept -/

/-- Whatever an expansion goes on to is visited, with bookmarks that have behind them what the run
has left. In all states of the run each bookmark that is kept has parts on both sides. And where a
reference or a choice with items is always the last part of its sequence, in all the sequences that
the expansion can go into, none is ever kept, however many steps are taken. -/
theorem expand_bookmarks (lexicon : Lexicon) (name : String) (source : σ) :
    (∀ rule, lexicon.rule? name = some rule → ∀ steps (later : Run σ),
      Goes lexicon name steps (start rule source) later →
        ∃ here marks, lexicon.Visits name source later here marks) ∧
    (∀ (run : Run σ) here marks, lexicon.Visits name source run here marks →
      run.current = here.rest ∧ run.pending = marks.map Bookmark.rest ∧
      ∀ mark ∈ marks, 1 ≤ mark.index ∧ mark.index < mark.sequence.length) ∧
    ((∀ parts, lexicon.Enters name parts → ∀ part ∈ parts.dropLast, ¬part.isPlaceholder) →
      ∀ (run : Run σ) here marks, lexicon.Visits name source run here marks → marks = []) := by
  refine ⟨fun rule defined steps later goes => ?_, fun run here marks visits => ?_,
    fun last run here marks visits => visits.marks_nil last⟩
  · exact (Visits.start defined).exists_later goes
  · obtain ⟨current, pending⟩ := visits.rests
    exact ⟨current, pending, visits.between⟩

/-- A rule that comes back to what is behind its reference, and one that has it at its end. -/
def counting : Lexicon :=
  .ofList [("count", [.choice [.sequence [.reference "count", .text "."], .text "done"]]),
    ("list", [.text "-", .choice [.sequence [.choice [], .text "x", .reference "list"],
      .text "end"]])]

theorem counting_bookmarks :
    let picks : Script := ⟨[], 0⟩
    let mark : Bookmark := ⟨1, [.reference "count", .text "."]⟩
    let item : List Part := [.choice [], .text "x", .reference "list"]
    let rule : Rule := [.text "-", .choice [.sequence item, .text "end"]]
    (∃ run here, counting.Visits "count" picks run here [mark, mark] ∧
      1 ≤ mark.index ∧ mark.index < mark.sequence.length) ∧
    (∀ parts, counting.Enters "list" parts → ∀ part ∈ parts.dropLast, ¬part.isPlaceholder) ∧
    counting.rule? "list" = some rule ∧
    ∃ later, Goes counting "list" 7 (start rule picks) later ∧ later.pending = [] := by
  intro picks mark item rule
  have visits : ∃ run here, counting.Visits "count" picks run here [mark, mark] := by
    have first : counting.Visits "count" picks _ _ [] := .start rfl
    have drawn := first.forget ⟨rfl, rfl⟩ rfl rfl
    have once := drawn.keep ⟨rfl, rfl⟩ rfl rfl
    have twice := (once.forget ⟨rfl, rfl⟩ rfl rfl).keep ⟨rfl, rfl⟩ rfl rfl
    exact ⟨_, _, twice⟩
  -- by induction on how a sequence is gone into: there is the rule, and the item that leads back
  have few : ∀ parts, counting.Enters "list" parts → parts = rule ∨ parts = item := by
    intro parts enters
    induction enters with
    | rule defined =>
      cases defined
      exact .inl rfl
    | @further outer parts part _ member leads ih =>
      rcases ih with rfl | rfl
      · have listed : part = .text "-" ∨ part = .choice [.sequence item, .text "end"] := by
          simpa [rule] using member
        rcases listed with rfl | rfl
        · cases leads
        · cases leads with
          | item among => exact .inr (by simpa using among)
      · have listed : part = .choice [] ∨ part = .text "x" ∨ part = .reference "list" := by
          simpa [item] using member
        rcases listed with rfl | rfl | rfl
        · cases leads with
          | item among => cases among
        · cases leads
        · cases leads with
          | rule defined =>
            cases defined
            exact .inl rfl
  have last : ∀ parts, counting.Enters "list" parts →
      ∀ part ∈ parts.dropLast, ¬part.isPlaceholder := by
    intro parts enters
    rcases few parts enters with rfl | rfl <;> decide
  have onwards : ∃ later, Goes counting "list" 7 (start rule picks) later :=
    ⟨_, .succ rfl (.succ rfl (.succ rfl (.succ rfl (.succ rfl (.succ rfl (.succ rfl (.zero _)))))))⟩
  obtain ⟨-, between, -⟩ := counting.expand_bookmarks "count" picks
  obtain ⟨goes, rests, none⟩ := counting.expand_bookmarks "list" picks
  refine ⟨?_, last, rfl, ?_⟩
  · obtain ⟨run, here, visits⟩ := visits
    exact ⟨run, here, visits, (between run here _ visits).2.2 mark List.mem_cons_self⟩
  · obtain ⟨later, onwards⟩ := onwards
    obtain ⟨here, marks, visits⟩ := goes rule rfl 7 later onwards
    refine ⟨later, onwards, ?_⟩
    rw [(rests later here marks visits).2.1, none last later here marks visits, List.map_nil]

end Lexicon
end TextGrammar
