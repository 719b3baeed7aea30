import TextGrammar.Tree.Body

/-!
# Reading documents

A block is a header mark, a name, at least one line break, and a body. A document is any number of
blocks with at least one line break between them, and line breaks anywhere around them. Reading a
block goes through the reader of bodies, and reading a document through the reader of blocks.
-/
namespace TextGrammar

inductive BlockState where
  | head
  | title (place : Span)
  | titleEnd (place : Span) (name : String)
  | gap (place : Span) (name : String)
  | body (place : Span) (name : String) (state : BodyState)
  deriving Repr

namespace BlockState

def stepBody (place : Span) (name : String) (state : BodyState) (token : Token) :
    Step BlockState Block :=
  (state.step token).map (.body place name) fun body => .done ⟨name, body, some place⟩

def step : BlockState → Token → Step BlockState Block
  | head, token =>
    match token.kind with
    | .head => .more (.title token.span)
    | _ => .refuse (some .head)
  | title place, token =>
    match token.kind with
    | .name => .more (.titleEnd place token.lexeme)
    | _ => .refuse (some .name)
  | titleEnd place name, token =>
    match token.kind with
    | .lineBreak => .more (.gap place name)
    | _ => .refuse (some .lineBreak)
  | gap place name, token =>
    match token.kind with
    | .lineBreak => .more (.gap place name)
    -- the body begins with the first token that is no line break
    | _ => stepBody place name .body token
  | body place name state, token => stepBody place name state token

def context : BlockState → Option String
  | head | title _ => none
  | titleEnd .. => some "before the body of a rule"
  | gap .. => BodyState.body.context
  | body _ _ state => state.context

end BlockState

def blockReader : Reader BlockState Block where
  step := BlockState.step
  atEnd state := .error state.context

/-- The blocks that are complete come latest first. -/
inductive DocumentState where
  | between (blocks : List Block)
  | block (blocks : List Block) (state : BlockState)
  | after (blocks : List Block)
  deriving Repr

namespace DocumentState

def stepBlock (blocks : List Block) (state : BlockState) (token : Token) :
    Step DocumentState Document :=
  (state.step token).map (.block blocks) fun block => .more (.after (block :: blocks))

def step : DocumentState → Token → Step DocumentState Document
  | between blocks, token =>
    match token.kind with
    | .lineBreak => .more (.between blocks)
    -- whatever else comes has to open a block
    | _ => stepBlock blocks .head token
  | block blocks state, token => stepBlock blocks state token
  | after blocks, token =>
    match token.kind with
    | .lineBreak => .more (.between blocks)
    | _ => .refuse (some .lineBreak)

def atEnd : DocumentState → Except (Option String) Document
  | between blocks | after blocks => .ok ⟨blocks.reverse⟩
  | block _ state => .error state.context

end DocumentState

def documentReader : Reader DocumentState Document where
  step := DocumentState.step
  atEnd := DocumentState.atEnd

/-- The tree of a whole source. -/
def parse (file source : String) : Except Diagnostic Document :=
  match Window.ofScanner (Scanner.ofSource file source) with
  | .ok window => (documentReader.run (.between []) window).1
  | .error fault => .error fault

end TextGrammar
