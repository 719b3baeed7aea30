import TextGrammar.Rule

/-!
# Lexicons

A lexicon is a finite map from names to rules that remembers the order in which the names first
came. Putting a rule under a name that is there already replaces the rule and leaves the name where
it is. Two lexicons are the same when they give the same rule to every name, whatever their order.
-/
namespace TextGrammar

/-- The entries after giving `name` the rule `rule`. -/
def putEntry (name : String) (rule : Rule) : List (String × Rule) → List (String × Rule)
  | [] => [(name, rule)]
  | entry :: others =>
    if entry.1 = name then (name, rule) :: others else entry :: putEntry name rule others

theorem putEntry_names (name : String) (rule : Rule) (entries : List (String × Rule)) :
    (putEntry name rule entries).map (·.1) =
      if name ∈ entries.map (·.1) then entries.map (·.1) else entries.map (·.1) ++ [name] := by
  induction entries with
  | nil => simp [putEntry]
  | cons entry others ih =>
    unfold putEntry
    by_cases same : entry.1 = name
    · simp [same]
    · have different : ¬name = entry.1 := fun equal => same equal.symm
      simp only [same, if_false, List.map_cons, ih, List.mem_cons, different, false_or]
      split <;> simp

structure Lexicon where
  entries : List (String × Rule)
  distinct : (entries.map (·.1)).Nodup

namespace Lexicon

def empty : Lexicon := ⟨[], List.nodup_nil⟩

def put (name : String) (rule : Rule) (lexicon : Lexicon) : Lexicon where
  entries := putEntry name rule lexicon.entries
  distinct := by
    rw [putEntry_names]
    split
    · exact lexicon.distinct
    next absent =>
      -- the new name stands behind all others and is none of them
      refine List.nodup_append.mpr ⟨lexicon.distinct, by simp, ?_⟩
      intro other present last singleton equal
      simp only [List.mem_singleton] at singleton
      exact absent (singleton ▸ equal ▸ present)

/-- The later of two rules for a name is kept. -/
def ofList (entries : List (String × Rule)) : Lexicon :=
  entries.foldl (fun lexicon entry => lexicon.put entry.1 entry.2) empty

def names (lexicon : Lexicon) : List String := lexicon.entries.map (·.1)

def rule? (lexicon : Lexicon) (name : String) : Option Rule := lexicon.entries.lookup name

def size (lexicon : Lexicon) : Nat := lexicon.entries.length

def has (lexicon : Lexicon) (name : String) : Bool := (lexicon.rule? name).isSome

def same (lexicon lexicon' : Lexicon) : Bool :=
  lexicon.size == lexicon'.size &&
    lexicon.entries.all fun entry =>
      match lexicon'.rule? entry.1 with
      | some rule => Part.allSame entry.2 rule
      | none => false

/-- The names in the order of their characters. -/
def sortedNames (lexicon : Lexicon) : List String :=
  lexicon.names.mergeSort fun name name' => decide (name ≤ name')

def render (lexicon : Lexicon) : String :=
  "Lexicon([" ++ ", ".intercalate (lexicon.sortedNames.map Text.quoted) ++ "])"

end Lexicon
end TextGrammar
