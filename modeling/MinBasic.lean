import MinBasic.Check.History
import MinBasic.Diagnostic.Session
import MinBasic.Files.Folder
import MinBasic.Main
import MinBasic.Proofs.Lexical.NumeralGrammar
import MinBasic.Proofs.Lexical.Spelling
import MinBasic.Proofs.Lexical.Calls
import MinBasic.Proofs.Lexical.Reference
import MinBasic.Proofs.Check.ClosedForm
import MinBasic.Proofs.Lexical.Lossless
import MinBasic.Proofs.Check.Clipped
import MinBasic.Proofs.Check.Occurrence
import MinBasic.Proofs.Text.Complete
import MinBasic.Proofs.Check.BrokenInput
import MinBasic.Proofs.Check.Composition
import MinBasic.Proofs.Check.Consistency
import MinBasic.Proofs.Lexical.Following
import MinBasic.Proofs.Lexical.Respacing
import MinBasic.Proofs.Lexical.Shape
import MinBasic.Proofs.Lexical.LineByLine
import MinBasic.Proofs.Check.Decodable
import MinBasic.Proofs.Command.EndToEnd
import MinBasic.Proofs.Lexical.Contents
import MinBasic.Proofs.Check.Alike
import MinBasic.Proofs.Check.OpaqueContents
import MinBasic.Proofs.Lexical.LineEnding
import MinBasic.Proofs.Check.LineEndings
import MinBasic.Proofs.Lexical.LetterCase
import MinBasic.Proofs.Check.LetterCase
import MinBasic.Proofs.Lexical.Characters
import MinBasic.Proofs.Check.Characters
import MinBasic.Proofs.Command.FileClause
import MinBasic.Proofs.Channel.Writes
import MinBasic.Proofs.Check.Bounded
import MinBasic.Proofs.Diagnostic.Session
import MinBasic.Proofs.Text.CharCase
import MinBasic.Proofs.Text.Trimming
import MinBasic.Proofs.Command.Settings
import MinBasic.Proofs.Command.Driving
import MinBasic.Proofs.Lexical.Terminal
