import TexCalc.Tex.Extent
import TexCalc.Json.Reader
import TexCalc.Main
import TexCalc.Proofs.Words.Modes
import TexCalc.Proofs.Bracketed.Meaning
import TexCalc.Proofs.Legible.Translated
import TexCalc.Proofs.Polynomial.Meaning
import TexCalc.Proofs.Alphabet.Output
import TexCalc.Proofs.Nesting.Balanced
import TexCalc.Proofs.Vocabulary.Agreement
import TexCalc.Proofs.Constants.Untorn
import TexCalc.Proofs.Dollars.Transparent
import TexCalc.Proofs.Marks.Spelled
import TexCalc.Proofs.Tex.ControlWords
import TexCalc.Proofs.Canonical.Formula
import TexCalc.Proofs.Symbol.Neighbours
import TexCalc.Proofs.Powered.Formula
import TexCalc.Proofs.Linear.Attached
import TexCalc.Proofs.Powered.Attached
import TexCalc.Proofs.Powered.Meaning
import TexCalc.Proofs.Remaining.LogBases
import TexCalc.Proofs.Synonym.Agreement
import TexCalc.Proofs.Symbol.Conserved
import TexCalc.Proofs.Check.Accounts
import TexCalc.Proofs.Symbol.Splitting
import TexCalc.Proofs.Nesting.Depth
import TexCalc.Proofs.Check.Places
import TexCalc.Proofs.Chain.Meaning
import TexCalc.Proofs.Nesting.Rounds
import TexCalc.Proofs.Spacing.Interchanged
import TexCalc.Proofs.Tex.Spans
import TexCalc.Proofs.Linear.Termination
import TexCalc.Proofs.Exchanged.Read
import TexCalc.Proofs.Exchanged.Steps
import TexCalc.Proofs.Exchanged.Formula
import TexCalc.Proofs.Exchanged.Linear
import TexCalc.Proofs.Exchanged.Checked
import TexCalc.Proofs.Exchanged.Normal
import TexCalc.Proofs.Exchanged.Translated
import TexCalc.Proofs.Completed.Waiting
import TexCalc.Proofs.Completed.Layers
import TexCalc.Proofs.Completed.AtOnce
import TexCalc.Proofs.Tex.Reread
import TexCalc.Proofs.Vocabulary.History
import TexCalc.Proofs.Tex.Partners
import TexCalc.Proofs.Symbol.Recognized
import TexCalc.Proofs.Tex.Wrapped
import TexCalc.Proofs.Tex.Boundaries
