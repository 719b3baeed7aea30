import TextGrammar.Command.Transcript
import TextGrammar.Main
import TextGrammar.Proofs.Command.Dump
import TextGrammar.Proofs.Expansion.Bookmarks
import TextGrammar.Proofs.Expansion.Termination
import TextGrammar.Proofs.Expansion.Undefined
import TextGrammar.Proofs.Lexicon.Culprits
import TextGrammar.Proofs.Lexicon.Merging
import TextGrammar.Proofs.Lexicon.References
import TextGrammar.Proofs.Lexicon.Texts
import TextGrammar.Proofs.Token.Completion
import TextGrammar.Proofs.Token.Delimiters
import TextGrammar.Proofs.Token.Settling
import TextGrammar.Proofs.Token.Tiling
import TextGrammar.Proofs.Tree.Landmarks
import TextGrammar.Proofs.Tree.Layout
import TextGrammar.Proofs.Tree.Rejection
