import TextGrammar.Proofs.Tree.Nesting
import TextGrammar.Proofs.Tree.Parsing

/-!
# Reading again and again from one window

A window may be asked for one construct after the other, wherever the last one has left it and also
after a fault. All that any of this does to the window is to move it. So the window stands on two
tokens in a row for as long as the scanner has tokens to give. The first fault of the scanner leaves
it on the last token that there was, for good, and from then on nothing can be read.

While there are tokens, a body is being read in modes that fit it, so that neither a template nor a
list comes upon anything that it is not made for, apart from a list in a list.
-/
namespace TextGrammar

/-! ## Windows that move -/

namespace Window

/-- The window when it has moved this often, whether or not the scanner had a token for it. -/
def after : Nat → Window → Window
  | 0, window => window
  | count + 1, window => after count window.advance.2

/-- What the scanner answers while the window moves this often. -/
def answers : Nat → Window → List (Except Diagnostic Token)
  | 0, _ => []
  | count + 1, window => window.scanner.next.1 :: answers count window.advance.2

/-- All the tokens that the scanner has given by then, from those that the window stands on. -/
def given (count : Nat) (window : Window) : List Token :=
  window.current :: window.ahead :: (window.answers count).filterMap Except.toOption

/-- By then the scanner has not reported a fault. -/
def Sound (count : Nat) (window : Window) : Prop :=
  ∀ answer ∈ window.answers count, ∃ token, answer = .ok token

variable {window moved : Window} {token : Token} {scanner origin : Scanner} {fault : Diagnostic}

theorem after_add (count more : Nat) (window : Window) :
    window.after (count + more) = (window.after count).after more := by
  induction count generalizing window with
  | zero => rw [Nat.zero_add, after]
  | succ count ih => rw [Nat.succ_add, after, after, ih]

theorem advance_of_token (found : window.scanner.next = (.ok token, scanner)) :
    window.advance = (.ok (), ⟨window.ahead, token, scanner⟩) := by
  simp [advance, found]

theorem advance_of_fault (faulty : window.scanner.next = (.error fault, scanner)) :
    window.advance = (.error fault, ⟨window.ahead, window.ahead, scanner⟩) := by
  simp [advance, faulty]

theorem token_of_advance (moves : window.advance = (.ok (), moved)) :
    ∃ token scanner, window.scanner.next = (.ok token, scanner) ∧
      moved = ⟨window.ahead, token, scanner⟩ := by
  cases found : window.scanner.next with
  | mk answer scanner =>
    cases answer with
    | ok token =>
      rw [advance_of_token found] at moves
      cases moves
      exact ⟨token, scanner, rfl, rfl⟩
    | error fault =>
      rw [advance_of_fault found] at moves
      cases moves

/-- The window stands where the scanner has come to from `origin`, behind these tokens. -/
def Follows (origin : Scanner) (front : List Token) (window : Window) : Prop :=
  origin.Gives (front ++ [window.current, window.ahead]) window.scanner

theorem follows_of_ofScanner (opened : ofScanner origin = .ok window) :
    window.Follows origin [] := by
  unfold ofScanner at opened
  split at opened
  · cases opened
  next current middle found =>
    split at opened
    · cases opened
    next ahead scanner found' =>
      cases opened
      exact .cons found (.cons found' (.nil scanner))

theorem Follows.advance {front : List Token} (follows : window.Follows origin front)
    (found : window.scanner.next = (.ok token, scanner)) :
    Follows origin (front ++ [window.current]) ⟨window.ahead, token, scanner⟩ := by
  have further := Scanner.Gives.snoc follows found
  simpa [Follows] using further

/-- The scanner has reported a fault, and moving does not change anything. -/
structure Stuck (window : Window) : Prop where
  doubled : window.ahead = window.current
  real : window.current.kind ≠ .finish
  faulty : ∃ fault, window.scanner.next = (.error fault, window.scanner)

theorem Stuck.advance (stuck : window.Stuck) :
    ∃ fault, window.advance = (.error fault, window) := by
  obtain ⟨fault, faulty⟩ := stuck.faulty
  obtain ⟨current, ahead, scanner⟩ := window
  obtain rfl : ahead = current := stuck.doubled
  exact ⟨fault, advance_of_fault faulty⟩

theorem Stuck.after (stuck : window.Stuck) (count : Nat) : window.after count = window := by
  obtain ⟨fault, blocked⟩ := stuck.advance
  induction count with
  | zero => rfl
  | succ count ih => rw [Window.after, blocked, ih]

theorem Stuck.no_token (stuck : window.Stuck) (count : Nat) :
    (window.answers count).filterMap Except.toOption = [] := by
  obtain ⟨fault, blocked⟩ := stuck.advance
  obtain ⟨fault', faulty⟩ := stuck.faulty
  induction count with
  | zero => rfl
  | succ count ih =>
    rw [answers, blocked, faulty]
    simpa [Except.toOption] using ih

/-- A fault of the scanner leaves the window stuck. The token ahead is not the last one, which would
have been given again. -/
theorem Follows.stuck {front : List Token} (follows : window.Follows origin front)
    (faulty : window.scanner.next = (.error fault, scanner)) :
    Stuck ⟨window.ahead, window.ahead, scanner⟩ := by
  refine ⟨rfl, ?_, Scanner.next_of_error faulty⟩
  intro finished
  obtain ⟨_, _, last⟩ := Scanner.gives_append_iff.mp follows
  obtain ⟨_, _, last⟩ := Scanner.gives_cons_iff.mp last
  rw [Scanner.next_of_finish (Scanner.gives_singleton_iff.mp last) finished] at faulty
  cases faulty

/-- A window that has moved follows more tokens, or it is stuck at the last that was given. -/
theorem Follows.after_cases {front : List Token} (follows : window.Follows origin front)
    (count : Nat) :
    (window.Sound count ∧ ∃ passed, passed.length = count ∧
      window.given count = passed ++ [(window.after count).current, (window.after count).ahead] ∧
      (window.after count).Follows origin (front ++ passed)) ∨
    (¬window.Sound count ∧ (window.after count).Stuck ∧
      (window.given count).getLast? = some (window.after count).current) := by
  induction count generalizing window front with
  | zero =>
    exact .inl ⟨List.forall_mem_nil _, [], rfl, rfl, by simpa [Window.after] using follows⟩
  | succ count ih =>
    cases found : window.scanner.next with
    | mk answer scanner =>
      cases answer with
      | ok token =>
        have moves := advance_of_token found
        have all : window.given (count + 1) =
            window.current :: Window.given count ⟨window.ahead, token, scanner⟩ := by
          simp [given, answers, moves, found, Except.toOption]
        have sound : window.Sound (count + 1) ↔
            Window.Sound count ⟨window.ahead, token, scanner⟩ := by
          simp [Sound, answers, moves, found]
        simp only [Window.after, moves, all, sound]
        rcases ih (follows.advance found) with ⟨sound, passed, length, shown, later⟩ |
          ⟨unsound, stuck, last⟩
        · refine .inl ⟨sound, window.current :: passed, by simp [length], by simp [shown], ?_⟩
          simpa using later
        · refine .inr ⟨unsound, stuck, ?_⟩
          rw [List.getLast?_cons, last]
          rfl
      | error fault =>
        -- from here on the window stays where it is, on the last token that it has been given
        have blocked := advance_of_fault found
        have stuck := follows.stuck found
        refine .inr ⟨?_, ?_, ?_⟩
        · intro sound
          obtain ⟨token, isToken⟩ := sound window.scanner.next.1 List.mem_cons_self
          rw [found] at isToken
          cases isToken
        · simpa only [Window.after, blocked, stuck.after] using stuck
        · have empty := stuck.no_token count
          simp only [given, answers, Window.after, blocked, found, stuck.after,
            List.filterMap_cons, Except.toOption, empty]
          rfl

/-- The window stands on two tokens that follow each other, or it is stuck. -/
def Placed (window : Window) : Prop := (∃ scanner, window.Follows scanner []) ∨ window.Stuck

theorem Follows.placed {front : List Token} (follows : window.Follows origin front) :
    window.Placed := by
  obtain ⟨scanner, _, last⟩ := Scanner.gives_append_iff.mp follows
  exact .inl ⟨scanner, last⟩

theorem Placed.after (placed : window.Placed) (count : Nat) : (window.after count).Placed := by
  rcases placed with ⟨scanner, follows⟩ | stuck
  · rcases follows.after_cases count with ⟨_, _, _, _, later⟩ | ⟨_, stuck, _⟩
    · exact later.placed
    · exact .inr stuck
  · rw [stuck.after]
    exact .inr stuck

end Window

/-! ## What a reader does on its way -/

namespace Reader

variable {σ α : Type} {reader : Reader σ α}

/-- Run on a window, the reader judges these tokens, each in the state that it is in by then, moves
the window so many times, and comes to this result. -/
inductive Course (reader : Reader σ α) :
    σ → Window → List (σ × Token) → Nat → Except Diagnostic α → Prop where
  | complete {state : σ} {window : Window} {result : α} (last : window.current.kind = .finish)
      (complete : reader.atEnd state = .ok result) :
      Course reader state window [(state, window.current)] 0 (.ok result)
  | exhausted {state : σ} {window : Window} {context : Option String}
      (last : window.current.kind = .finish) (incomplete : reader.atEnd state = .error context) :
      Course reader state window [(state, window.current)] 0 (.error (window.exhausted context))
  | refused {state : σ} {window : Window} {expected : Option Kind}
      (real : window.current.kind ≠ .finish)
      (refused : reader.step state window.current = .refuse expected) :
      Course reader state window [(state, window.current)] 0 (.error (window.unexpected expected))
  | done {state : σ} {window moved : Window} {result : α} {answer : Except Diagnostic Unit}
      (real : window.current.kind ≠ .finish)
      (done : reader.step state window.current = .done result)
      (moves : window.advance = (answer, moved)) :
      Course reader state window [(state, window.current)] 1 (answer.map fun _ => result)
  | blocked {state next : σ} {window moved : Window} {fault : Diagnostic}
      (real : window.current.kind ≠ .finish)
      (taken : reader.step state window.current = .more next)
      (moves : window.advance = (.error fault, moved)) :
      Course reader state window [(state, window.current)] 1 (.error fault)
  | more {state next : σ} {window moved : Window} {judged : List (σ × Token)} {count : Nat}
      {result : Except Diagnostic α} (real : window.current.kind ≠ .finish)
      (taken : reader.step state window.current = .more next)
      (moves : window.advance = (.ok (), moved))
      (rest : Course reader next moved judged count result) :
      Course reader state window ((state, window.current) :: judged) (count + 1) result

/-- The course of a run is what the run does. -/
theorem Course.run {state : σ} {window : Window} {judged : List (σ × Token)} {count : Nat}
    {result : Except Diagnostic α} (course : reader.Course state window judged count result) :
    reader.run state window = (result, window.after count) := by
  induction course with
  | complete last complete => exact run_complete last complete
  | exhausted last incomplete => exact run_exhausted last incomplete
  | refused real refused => exact run_refuse real refused
  | done real done moves => simpa [Window.after, moves] using run_done real done moves
  | blocked real taken moves => simpa [Window.after, moves] using run_blocked real taken moves
  | more real taken moves rest ih =>
    rw [run_more real taken moves, ih, Window.after, moves]

theorem exists_course (reader : Reader σ α) (state : σ) (window : Window) :
    ∃ judged count result, reader.Course state window judged count result := by
  by_cases last : window.current.kind = .finish
  · cases ended : reader.atEnd state with
    | ok result => exact ⟨_, _, _, .complete last ended⟩
    | error context => exact ⟨_, _, _, .exhausted last ended⟩
  · cases step : reader.step state window.current with
    | refuse expected => exact ⟨_, _, _, .refused last step⟩
    | done result => exact ⟨_, _, _, .done last step rfl⟩
    | more next =>
      cases moves : window.advance with
      | mk answer moved =>
        cases answer with
        | error fault => exact ⟨_, _, _, .blocked last step moves⟩
        | ok =>
          obtain ⟨judged, count, result, rest⟩ := reader.exists_course next moved
          exact ⟨_, _, _, .more last step moves rest⟩
termination_by window.size
decreasing_by exact Window.advance_shrinks moves last

/-- On a stuck window only one token is judged, and there is no result. -/
theorem Course.of_stuck {state : σ} {window : Window} {judged : List (σ × Token)} {count : Nat}
    {result : Except Diagnostic α} (course : reader.Course state window judged count result)
    (stuck : window.Stuck) :
    judged = [(state, window.current)] ∧ ∃ fault, result = .error fault := by
  obtain ⟨fault, blocked⟩ := stuck.advance
  cases course with
  | complete last => exact absurd last stuck.real
  | exhausted | refused | blocked => exact ⟨rfl, _, rfl⟩
  | done real done moves =>
    rw [blocked] at moves
    cases moves
    exact ⟨rfl, fault, rfl⟩
  | more real taken moves =>
    rw [blocked] at moves
    cases moves

/-- Wherever a body is being read, the modes behind the window fit it, so that each token is one
that may be met there. -/
theorem Course.mayMeet {body? : σ → Option BodyState} (nests : reader.Nests body?) {state : σ}
    {window : Window} {judged : List (σ × Token)} {count : Nat} {result : Except Diagnostic α}
    (course : reader.Course state window judged count result) {scanner : Scanner}
    (follows : window.Follows scanner [])
    (fits : ∀ inner ∈ body? state, inner.Fits scanner.modes) :
    ∀ entry ∈ judged, ∀ inner ∈ body? entry.1, inner.MayMeet entry.2 := by
  have first {state : σ} {window : Window} {scanner : Scanner}
      (follows : window.Follows scanner [])
      (fits : ∀ inner ∈ body? state, inner.Fits scanner.modes) :
      ∀ inner ∈ body? state, inner.MayMeet window.current := by
    intro inner isInner
    obtain ⟨middle, found, _⟩ := Scanner.gives_cons_iff.mp follows
    exact (fits inner isInner).mayMeet (Scanner.moves_of_next found)
  induction course generalizing scanner with
  | complete | exhausted | refused | done | blocked =>
    exact List.forall_mem_singleton.mpr (first follows fits)
  | more real taken moves rest ih =>
    refine List.forall_mem_cons.mpr ⟨first follows fits, ?_⟩
    -- after one token the modes are those that the next one is scanned in
    obtain ⟨token, scanner', found, rfl⟩ := Window.token_of_advance moves
    obtain ⟨middle, given, ahead⟩ := Scanner.gives_cons_iff.mp follows
    exact ih (Scanner.Gives.snoc ahead found) (nests fits (Scanner.moves_of_next given) taken)

end Reader

/-! ## One construct after the other -/

/-- What can be asked for. -/
inductive Construct where
  | document
  | block
  | body
  | template
  | list
  deriving DecidableEq, Repr

/-- What can be had. -/
inductive Tree where
  | document (document : Document)
  | block (block : Block)
  | body (body : Node)
  deriving Repr

/-- How a construct is read: the reader and the state that it starts in, and what is known of the
bodies inside. What is read first may stand in any modes. -/
structure Task (σ α : Type) where
  reader : Reader σ α
  start : σ
  tree : α → Tree
  body? : σ → Option BodyState
  nests : reader.Nests body?
  fresh : ∀ inner ∈ body? start, ∀ modes, inner.Fits modes

namespace Construct

def State : Construct → Type
  | document => DocumentState
  | block => BlockState
  | body | template | list => BodyState

def Result : Construct → Type
  | document => Document
  | block => Block
  | body | template | list => Node

def task : (construct : Construct) → Task construct.State construct.Result
  | document => ⟨documentReader, .between [], .document, _, documentReader_nests, nofun⟩
  | block => ⟨blockReader, .head, .block, _, blockReader_nests, nofun⟩
  | body => ⟨bodyReader, .body, .body, _, bodyReader_nests, by rintro _ ⟨⟩ _; trivial⟩
  | template => ⟨bodyReader, .template, .body, _, bodyReader_nests, by rintro _ ⟨⟩ _; trivial⟩
  | list => ⟨bodyReader, .list, .body, _, bodyReader_nests, by rintro _ ⟨⟩ _; trivial⟩

/-- Reads a construct from where the window stands, and leaves the window behind it or at what was
wrong. -/
def read (construct : Construct) (window : Window) : Except Diagnostic Tree × Window :=
  let task := construct.task
  let (result, moved) := task.reader.run task.start window
  (result.map task.tree, moved)

/-- How a construct is read: the tokens that are judged inside a body, how often the window moves,
and the result. -/
inductive Told (construct : Construct) (window : Window) :
    List (BodyState × Token) → Nat → Except Diagnostic Tree → Prop where
  | intro {judged : List (construct.State × Token)} {count : Nat}
      {result : Except Diagnostic construct.Result}
      (course : construct.task.reader.Course construct.task.start window judged count result) :
      Told construct window
        (judged.filterMap fun entry => (construct.task.body? entry.1).map (·, entry.2)) count
        (result.map construct.task.tree)

variable {construct : Construct} {window : Window} {judged : List (BodyState × Token)} {count : Nat}
  {result : Except Diagnostic Tree}

theorem exists_told (construct : Construct) (window : Window) :
    ∃ judged count result, construct.Told window judged count result := by
  obtain ⟨judged, count, result, course⟩ :=
    construct.task.reader.exists_course construct.task.start window
  exact ⟨_, count, _, .intro course⟩

theorem Told.read (told : construct.Told window judged count result) :
    construct.read window = (result, window.after count) := by
  cases told with
  | intro course => simp only [Construct.read, course.run]

theorem Told.of_stuck (told : construct.Told window judged count result) (stuck : window.Stuck) :
    ∃ fault, result = .error fault := by
  cases told with
  | intro course =>
    obtain ⟨_, fault, rfl⟩ := course.of_stuck stuck
    exact ⟨fault, rfl⟩

theorem Told.mayMeet (told : construct.Told window judged count result) (placed : window.Placed) :
    ∀ entry ∈ judged, entry.1.MayMeet entry.2 := by
  cases told with
  | @intro all _ result course =>
    have each : ∀ entry ∈ all, ∀ inner ∈ construct.task.body? entry.1, inner.MayMeet entry.2 := by
      rcases placed with ⟨scanner, follows⟩ | stuck
      · exact course.mayMeet construct.task.nests follows fun inner isInner =>
          construct.task.fresh inner isInner _
      · rw [(course.of_stuck stuck).1]
        refine List.forall_mem_singleton.mpr fun inner isInner => ?_
        exact BodyState.mayMeet_of_fresh (construct.task.fresh inner isInner []) _
    intro entry member
    obtain ⟨⟨state, token⟩, inAll, viewed⟩ := List.mem_filterMap.mp member
    obtain ⟨inner, isInner, rfl⟩ := Option.map_eq_some_iff.mp viewed
    exact each _ inAll inner isInner

end Construct

/-- What comes of reading constructs one after the other: the tokens that are judged inside bodies,
each with the state that it is judged in, the results, and how often the window moves. -/
structure Session where
  judged : List (BodyState × Token)
  results : List (Except Diagnostic Tree)
  moves : Nat

def Session.append (session later : Session) : Session :=
  ⟨session.judged ++ later.judged, session.results ++ later.results, session.moves + later.moves⟩

namespace Window

/-- Reads constructs one after the other, whether or not they can be read. -/
def serve : List Construct → Window → List (Except Diagnostic Tree) × Window
  | [], window => ([], window)
  | construct :: constructs, window =>
    let (result, moved) := construct.read window
    let (results, last) := serve constructs moved
    (result :: results, last)

inductive Serves : Window → List Construct → Session → Prop where
  | nil (window : Window) : Serves window [] ⟨[], [], 0⟩
  | cons {window : Window} {construct : Construct} {constructs : List Construct}
      {judged : List (BodyState × Token)} {count : Nat} {result : Except Diagnostic Tree}
      {session : Session} (first : construct.Told window judged count result)
      (rest : Serves (window.after count) constructs session) :
      Serves window (construct :: constructs)
        ⟨judged ++ session.judged, result :: session.results, count + session.moves⟩

variable {window : Window} {constructs : List Construct} {session : Session}

theorem exists_serves (constructs : List Construct) (window : Window) :
    ∃ session, window.Serves constructs session := by
  induction constructs generalizing window with
  | nil => exact ⟨_, .nil window⟩
  | cons construct constructs ih =>
    obtain ⟨judged, count, result, first⟩ := construct.exists_told window
    obtain ⟨session, rest⟩ := ih (window.after count)
    exact ⟨_, .cons first rest⟩

theorem Serves.serve (serves : window.Serves constructs session) :
    window.serve constructs = (session.results, window.after session.moves) := by
  induction serves with
  | nil window => rfl
  | cons first rest ih => simp only [Window.serve, first.read, ih, after_add]

theorem Serves.append {later : List Construct} {more : Session}
    (serves : window.Serves constructs session)
    (behind : (window.after session.moves).Serves later more) :
    window.Serves (constructs ++ later) (session.append more) := by
  induction serves with
  | nil window => simpa [Session.append, after] using behind
  | cons first rest ih =>
    rw [after_add] at behind
    have whole := Serves.cons first (ih behind)
    simpa [Session.append, Nat.add_assoc] using whole

theorem Serves.of_stuck (serves : window.Serves constructs session) (stuck : window.Stuck) :
    ∀ result ∈ session.results, ∃ fault, result = .error fault := by
  induction serves with
  | nil window => exact List.forall_mem_nil _
  | cons first rest ih =>
    rw [stuck.after] at ih
    exact List.forall_mem_cons.mpr ⟨first.of_stuck stuck, ih stuck⟩

theorem Serves.mayMeet (serves : window.Serves constructs session) (placed : window.Placed) :
    ∀ entry ∈ session.judged, entry.1.MayMeet entry.2 := by
  induction serves with
  | nil window => exact List.forall_mem_nil _
  | cons first rest ih =>
    exact List.forall_mem_append.mpr ⟨first.mayMeet placed, ih (placed.after _)⟩

end Window

/-- A window on a source stands on two tokens in a row until the scanner reports a fault, and from
then on, for ever, on the last token that was given. Whatever is read from it, the window moves
forward only, each token that comes up inside a template or a list is one that may be met there, and
once there was a fault nothing can be read. -/
theorem serves_in_step {file source : String} {window : Window}
    (opened : Window.ofScanner (Scanner.ofSource file source) = .ok window) :
    (∀ count,
      (window.Sound count → ∃ passed, passed.length = count ∧
        window.given count = passed ++ [(window.after count).current, (window.after count).ahead] ∧
        (Scanner.ofSource file source).Gives (window.given count) (window.after count).scanner) ∧
      (¬window.Sound count →
        (window.given count).getLast? = some (window.after count).current ∧
        (window.after count).ahead = (window.after count).current ∧
        ∀ more, window.after (count + more) = window.after count)) ∧
    ∀ constructs, (∃ session, window.Serves constructs session) ∧
      ∀ session, window.Serves constructs session →
        window.serve constructs = (session.results, window.after session.moves) ∧
        (∀ entry ∈ session.judged, entry.1.MayMeet entry.2) ∧
        ∀ later more, (window.after session.moves).Serves later more →
          window.Serves (constructs ++ later) (session.append more) ∧
          session.moves ≤ (session.append more).moves ∧
          (¬window.Sound session.moves →
            ∀ result ∈ more.results, ∃ fault, result = .error fault) := by
  have follows := Window.follows_of_ofScanner opened
  refine ⟨fun count => ?_, fun constructs => ⟨Window.exists_serves constructs window, ?_⟩⟩
  · rcases follows.after_cases count with ⟨sound, passed, length, shown, later⟩ |
      ⟨unsound, stuck, last⟩
    · refine ⟨fun _ => ⟨passed, length, shown, ?_⟩, fun unsound => absurd sound unsound⟩
      rw [shown]
      exact later
    · refine ⟨fun sound => absurd sound unsound, fun _ => ⟨last, stuck.doubled, fun more => ?_⟩⟩
      rw [Window.after_add, stuck.after]
  · intro session serves
    refine ⟨serves.serve, serves.mayMeet follows.placed, ?_⟩
    intro later more behind
    refine ⟨serves.append behind, Nat.le_add_right .., fun unsound => ?_⟩
    rcases follows.after_cases session.moves with ⟨sound, _⟩ | ⟨_, stuck, _⟩
    · exact absurd sound unsound
    · exact behind.of_stuck stuck

/-- A list in a list is refused, and then the list inside is asked for, which never ends. -/
theorem serves_list_in_list :
    ∃ window session, Window.ofScanner (Scanner.ofSource "" "[[]") = .ok window ∧
      window.Serves [.list, .list] session ∧ session.moves = 2 ∧ ¬window.Sound 2 ∧
      (∃ place items outer token, (.inside (.list place items) outer, token) ∈ session.judged ∧
        token.kind = .openBracket ∧
        BodyState.MayMeet (.inside (.list place items) outer) token) ∧
      (∃ passed, passed.length = 1 ∧
        window.given 1 = passed ++ [(window.after 1).current, (window.after 1).ahead]) ∧
      (window.given 2).getLast? = some (window.after 2).current ∧
      ∀ later more, (window.after 2).Serves later more →
        ∀ result ∈ more.results, ∃ fault, result = .error fault := by
  obtain ⟨window, session, opened, serves, moves, sound, unsound, place, items, outer, token,
      member, kind⟩ : ∃ window session, Window.ofScanner (Scanner.ofSource "" "[[]") = .ok window ∧
        window.Serves [.list, .list] session ∧ session.moves = 2 ∧ window.Sound 1 ∧
        ¬window.Sound 2 ∧ ∃ place items outer token,
          (.inside (.list place items) outer, token) ∈ session.judged ∧
            token.kind = .openBracket := by
    refine ⟨_, _, rfl, .cons (.intro (.more ?_ rfl rfl (.refused ?_ rfl)))
      (.cons (.intro (.blocked ?_ rfl rfl)) (.nil _)), rfl, ?_, ?_, _, _, _, _,
      List.mem_cons_of_mem _ List.mem_cons_self, rfl⟩
    · decide
    · decide
    · decide
    · exact List.forall_mem_singleton.mpr ⟨_, rfl⟩
    · intro sound
      obtain ⟨token, isToken⟩ := (List.forall_mem_cons.mp (List.forall_mem_cons.mp sound).2).1
      cases isToken
  obtain ⟨shown, served⟩ := serves_in_step opened
  obtain ⟨_, meets, beyond⟩ := (served _).2 session serves
  obtain ⟨passed, length, given, _⟩ := (shown 1).1 sound
  rw [moves] at beyond
  exact ⟨window, session, opened, serves, moves, unsound,
    ⟨place, items, outer, token, member, kind, meets _ member⟩, ⟨passed, length, given⟩,
    ((shown 2).2 unsound).1, fun later more behind => (beyond later more behind).2.2 unsound⟩

end TextGrammar
