import TextGrammar.Proofs.Lexicon.Compiled

/-!
# Misplaced nodes

A document is compiled when each of its nodes is of a kind that may stand where it stands. If not,
the node that is blamed is the first misplaced one in reading order, in whichever block it is. The
reading order is written down as a list here, each node in front of what is inside of it, and what
compiles a list of nodes is compared with the part of this list that the nodes have.
-/
namespace TextGrammar

/-! ## Reading order -/

/-- A node and where it stands: as the body of a block, as a part of a template, or as an item of a
list. -/
inductive Site where
  | body (block : Block)
  | part (node : Node)
  | item (node : Node)

namespace Site

def node : Site → Node
  | body block => block.body
  | part node | item node => node

/-- The node is of a kind that may stand there. -/
def fits : Site → Bool
  | body ⟨_, .list .., _⟩ | body ⟨_, .template .., _⟩ => true
  | part (.literal ..) | part (.reference ..) | part (.list ..) => true
  | item (.literal ..) | item (.template ..) => true
  | _ => false

/-- The place that is shown when the node does not fit. For the body of a block it is the block's
own. -/
def place : Site → Option Span
  | body block => block.place
  | part node | item node => node.place

/-- What is said about the node in front of the word for its kind. -/
def complaint : Site → String
  | body block => "Rule '" ++ block.name ++ "' has a body of unknown kind "
  | part _ => "Unhandled template part "
  | item _ => "Unhandled list item "

def fault : Site → CompileFault
  | body block => .body block
  | part node => .part node
  | item node => .item node

theorem message_fault (site : Site) :
    site.fault.message =
      CompileFault.placed site.place (site.complaint ++ site.node.label ++ ".") := by
  cases site <;> rfl

end Site

mutual

/-- What is inside of a node, in reading order. A block or a document fits nowhere, so it does not
matter what is inside of one. -/
def Node.sites : Node → List Site
  | template parts _ => partSites parts
  | list items _ => itemSites items
  | _ => []

def Node.partSites : List Node → List Site
  | [] => []
  | node :: nodes => .part node :: (node.sites ++ partSites nodes)

def Node.itemSites : List Node → List Site
  | [] => []
  | node :: nodes => .item node :: (node.sites ++ itemSites nodes)

end

def Document.sites (document : Document) : List Site :=
  document.blocks.flatMap fun block => .body block :: block.body.sites

/-! ## Blame -/

/-- Without a misplaced node there is a value, and else the first of them is the fault. -/
def Blames {α : Type} (sites : List Site) (result : Except CompileFault α) : Prop :=
  match sites.find? (!·.fits) with
  | none => ∃ value, result = .ok value
  | some site => result = .error site.fault

section Blames

variable {α β : Type} {site : Site} {sites sites' : List Site}

theorem blames_ok (value : α) : Blames [] (.ok value) := ⟨value, rfl⟩

theorem Blames.fits {result : Except CompileFault α} (blames : Blames sites result)
    (fits : site.fits = true) : Blames (site :: sites) result := by
  unfold Blames
  rw [List.find?_cons_of_neg (by simp [fits])]
  exact blames

theorem blames_misplaced (sites : List Site) (misplaced : site.fits = false) :
    Blames (site :: sites) (.error site.fault : Except CompileFault α) := by
  unfold Blames
  rw [List.find?_cons_of_pos (by simp [misplaced])]

/-- What comes first is blamed first. -/
theorem Blames.bind {first : Except CompileFault α} {next : α → Except CompileFault β}
    (blames : Blames sites first) (later : ∀ value, Blames sites' (next value)) :
    Blames (sites ++ sites') (first >>= next) := by
  unfold Blames at blames ⊢
  rw [List.find?_append]
  cases found : sites.find? (!·.fits) with
  | none =>
    rw [found] at blames
    obtain ⟨value, rfl⟩ := blames
    exact later value
  | some site =>
    rw [found] at blames
    rw [blames]
    rfl

/-- It does not matter what the value is. -/
theorem Blames.map {result : Except CompileFault α} (blames : Blames sites result)
    (change : α → β) : Blames sites (result >>= fun value => pure (change value)) := by
  have both := blames.bind fun value => blames_ok (change value)
  rwa [List.append_nil] at both

end Blames

/-! ## Compiling -/

namespace Node

-- each node is its own first site, and what is inside of it comes before its later neighbours
mutual

theorem compilePart_blames (node : Node) : Blames (.part node :: node.sites) node.compilePart := by
  match node with
  | literal value _ => exact (blames_ok (Part.text value)).fits rfl
  | reference name _ => exact (blames_ok (Part.reference name)).fits rfl
  | list items _ => exact ((compileItems_blames items).map _).fits rfl
  | template .. | block .. | document .. => exact blames_misplaced _ rfl

theorem compileParts_blames (nodes : List Node) :
    Blames (partSites nodes) (compileParts nodes) := by
  match nodes with
  | [] => exact blames_ok []
  | node :: nodes =>
    exact (compilePart_blames node).bind fun part => (compileParts_blames nodes).map (part :: ·)

theorem compileItem_blames (node : Node) : Blames (.item node :: node.sites) node.compileItem := by
  match node with
  | literal value _ => exact (blames_ok (Alternative.text value)).fits rfl
  | template parts _ => exact ((compileParts_blames parts).map _).fits rfl
  | reference .. | list .. | block .. | document .. => exact blames_misplaced _ rfl

theorem compileItems_blames (nodes : List Node) :
    Blames (itemSites nodes) (compileItems nodes) := by
  match nodes with
  | [] => exact blames_ok []
  | node :: nodes =>
    exact (compileItem_blames node).bind fun item => (compileItems_blames nodes).map (item :: ·)

end

/-- Joining the texts passes over no fault, since a template of literals has none. -/
theorem compileTemplate_blames (parts : List Node) :
    Blames (partSites parts) (compileTemplate parts) := by
  unfold compileTemplate
  split
  next values literals =>
    have blames := compileParts_blames parts
    rw [compileParts_of_literals literals] at blames
    exact blames.map fun _ => [Part.text (String.join values)]
  next => exact compileParts_blames parts

end Node

theorem Block.compile_blames (block : Block) :
    Blames (.body block :: block.body.sites) block.compile := by
  obtain ⟨name, body, place⟩ := block
  match body with
  | .list items _ => exact ((Node.compileItems_blames items).map _).fits rfl
  | .template parts _ => exact (Node.compileTemplate_blames parts).fits rfl
  | .literal .. | .reference .. | .block .. | .document .. => exact blames_misplaced _ rfl

/-- By induction on the blocks: what is in the lexicon already makes no difference. -/
theorem Document.compile_blames (document : Document) :
    Blames document.sites document.compile := by
  obtain ⟨blocks⟩ := document
  unfold sites compile
  generalize Lexicon.empty = first
  induction blocks generalizing first with
  | nil => exact blames_ok first
  | cons block blocks ih =>
    rw [List.flatMap_cons, List.foldlM_cons]
    exact (block.compile_blames.map (first.put block.name)).bind ih

/-- A document is compiled just when every node in it fits where it stands, in every block. Else the
first one that does not is blamed, and the message says where it is and of which kind. -/
theorem Document.compile_blames_first (document : Document) :
    ((∃ lexicon, document.compile = .ok lexicon) ↔ ∀ site ∈ document.sites, site.fits = true) ∧
    (∀ fault, document.compile = .error fault ↔
      ∃ site, document.sites.find? (!·.fits) = some site ∧ fault = site.fault) ∧
    ∀ site : Site, site.fault.message =
      CompileFault.placed site.place (site.complaint ++ site.node.label ++ ".") := by
  have blames := document.compile_blames
  unfold Blames at blames
  cases found : document.sites.find? (!·.fits) with
  | none =>
    rw [found] at blames
    obtain ⟨lexicon, compiled⟩ := blames
    have all : ∀ site ∈ document.sites, site.fits = true := by simpa using found
    refine ⟨⟨fun _ => all, fun _ => ⟨lexicon, compiled⟩⟩, fun fault => ?_, Site.message_fault⟩
    simp [compiled]
  | some site =>
    rw [found] at blames
    have misplaced : ¬∀ site ∈ document.sites, site.fits = true := by
      intro all
      have present := List.mem_of_find?_eq_some found
      have bad := List.find?_some found
      simp [all site present] at bad
    refine ⟨⟨?_, fun all => absurd all misplaced⟩, fun fault => ?_, Site.message_fault⟩
    · rintro ⟨lexicon, compiled⟩
      rw [blames] at compiled
      cases compiled
    · simp [blames, eq_comm]

/-- The first block is replaced by the second one, but a template in a template is found there
first, behind another node that fits and in front of one that does not. -/
def Document.misplaced : Document :=
  ⟨[⟨"a", .template [.literal "x" none, .list [.literal "y" none,
      .template [.template [] (some ⟨"f", 1, 4, 5⟩), .block "b" (.list [] none) none] none]
        none] none, none⟩,
    ⟨"a", .literal "z" none, none⟩]⟩

theorem Document.misplaced_compile :
    Document.misplaced.compile = .error (.part (.template [] (some ⟨"f", 1, 4, 5⟩))) ∧
    (CompileFault.part (.template [] (some ⟨"f", 1, 4, 5⟩))).message =
      "[f @ 2:4] Error: Unhandled template part Expansion." ∧
    ∃ lexicon, (⟨[⟨"a", .list [.template [] none] none, none⟩]⟩ : Document).compile =
      .ok lexicon := by
  obtain ⟨_, blames, message⟩ := compile_blames_first Document.misplaced
  refine ⟨?_, ?_, ?_⟩
  · exact (blames _).mpr ⟨_, rfl, rfl⟩
  · exact (message (.part (.template [] (some ⟨"f", 1, 4, 5⟩)))).trans (by decide)
  · exact (compile_blames_first _).1.mpr (by decide)

end TextGrammar
