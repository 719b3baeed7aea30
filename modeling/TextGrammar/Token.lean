import TextGrammar.Span
import TextGrammar.Text.Quoted

/-!
# Tokens

The lexical units of a grammar: a header mark, names, the delimiters of templates and lists, the
text between them, line breaks between blocks, and the end of the input.
-/
namespace TextGrammar

inductive Kind where
  | head
  | name
  | openQuote
  | closeQuote
  | openBracket
  | closeBracket
  | comma
  | hash
  | text
  | lineBreak
  | finish
  deriving DecidableEq, Repr

namespace Kind

def all : List Kind :=
  [head, name, openQuote, closeQuote, openBracket, closeBracket, comma, hash, text, lineBreak,
   finish]

/-- The word for a kind in messages. -/
def label : Kind → String
  | head => "HEAD"
  | name => "IDENT"
  | openQuote => "QUOTE_L"
  | closeQuote => "QUOTE_R"
  | openBracket => "BRACKET_L"
  | closeBracket => "BRACKET_R"
  | comma => "COMMA"
  | hash => "HASH"
  | text => "STRING"
  | lineBreak => "NEWLINE"
  | finish => "EOF"

end Kind

structure Token where
  kind : Kind
  lexeme : String
  span : Span
  deriving DecidableEq, Repr

namespace Token

def render (token : Token) : String :=
  let lexeme := if token.lexeme.isEmpty then "" else " " ++ Text.quoted token.lexeme
  "<" ++ token.span.render ++ " " ++ token.kind.label ++ lexeme ++ ">"

end Token

/-- How a message names a token of this kind and text: only names and text show their lexeme. -/
def Kind.mention (kind : Kind) (lexeme : String) : String :=
  match kind with
  | .name | .text => kind.label ++ " " ++ Text.quoted lexeme
  | _ => kind.label

def Token.mention (token : Token) : String := token.kind.mention token.lexeme

end TextGrammar
