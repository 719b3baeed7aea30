import TextGrammar.Text.Quoted

/-!
# Rules

A rule is a sequence of parts: text, a reference to a rule, or a choice between alternatives. An
alternative is text or a sequence of its own. A sequence standing where a part should has no
meaning; it can only be built by hand, and expanding it is refused.
-/
namespace TextGrammar

mutual

inductive Part where
  | text (value : String)
  | reference (name : String)
  | choice (items : List Alternative)
  | sequence (parts : List Part)

inductive Alternative where
  | text (value : String)
  | sequence (parts : List Part)

end

abbrev Rule := List Part

mutual

def Part.same : Part → Part → Bool
  | .text value, .text value' => value == value'
  | .reference name, .reference name' => name == name'
  | .choice items, .choice items' => Alternative.allSame items items'
  | .sequence parts, .sequence parts' => Part.allSame parts parts'
  | _, _ => false

def Part.allSame : List Part → List Part → Bool
  | [], [] => true
  | part :: parts, part' :: parts' => part.same part' && Part.allSame parts parts'
  | _, _ => false

def Alternative.same : Alternative → Alternative → Bool
  | .text value, .text value' => value == value'
  | .sequence parts, .sequence parts' => Part.allSame parts parts'
  | _, _ => false

def Alternative.allSame : List Alternative → List Alternative → Bool
  | [], [] => true
  | item :: items, item' :: items' => item.same item' && Alternative.allSame items items'
  | _, _ => false

end

/-- Entries between parentheses; a comma follows an entry that is alone. -/
def tuple : List String → String
  | [] => "()"
  | [entry] => "(" ++ entry ++ ",)"
  | entries => "(" ++ ", ".intercalate entries ++ ")"

mutual

/-- A part as messages show it, on one line. -/
def Part.render : Part → String
  | .text value => "Text(value=" ++ Text.quoted value ++ ")"
  | .reference name => "Ref(name=" ++ Text.quoted name ++ ")"
  | .choice items => "Choice(items=" ++ tuple (Alternative.renderAll items) ++ ")"
  | .sequence parts => tuple (Part.renderAll parts)

def Part.renderAll : List Part → List String
  | [] => []
  | part :: parts => part.render :: Part.renderAll parts

def Alternative.render : Alternative → String
  | .text value => "Text(value=" ++ Text.quoted value ++ ")"
  | .sequence parts => tuple (Part.renderAll parts)

def Alternative.renderAll : List Alternative → List String
  | [] => []
  | item :: items => item.render :: Alternative.renderAll items

end

end TextGrammar
