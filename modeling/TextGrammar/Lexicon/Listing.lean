import TextGrammar.Lexicon

/-!
# Listings

A listing shows every rule of a lexicon, one part a line. A part stands two spaces further in than
what it is a part of, so that the nesting can be read off.
-/
namespace TextGrammar

def indented (depth : Nat) (line : String) : String :=
  String.ofList (List.replicate (2 * depth) ' ') ++ line

mutual

def Part.listing (depth : Nat) : Part → List String
  | .text value => [indented depth ("TEXT    " ++ Text.quoted value)]
  | .reference name => [indented depth ("REF     " ++ name)]
  | .choice items =>
    indented depth ("CHOICE  (" ++ toString items.length ++ ")") ::
      Alternative.listings (depth + 1) items
  | .sequence parts => indented depth "SEQ" :: Part.listings (depth + 1) parts

def Part.listings (depth : Nat) : List Part → List String
  | [] => []
  | part :: parts => part.listing depth ++ Part.listings depth parts

def Alternative.listing (depth : Nat) : Alternative → List String
  | .text value => [indented depth ("TEXT    " ++ Text.quoted value)]
  | .sequence parts => indented depth "SEQ" :: Part.listings (depth + 1) parts

def Alternative.listings (depth : Nat) : List Alternative → List String
  | [] => []
  | item :: items => item.listing depth ++ Alternative.listings depth items

end

namespace Lexicon

def listing (lexicon : Lexicon) : List String :=
  lexicon.entries.flatMap fun entry => (entry.1 ++ ":") :: Part.listings 1 entry.2

end Lexicon
end TextGrammar
