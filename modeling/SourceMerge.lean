import SourceMerge.Main
import SourceMerge.Braces.ByteScan
import SourceMerge.Proofs.Text.Runs
import SourceMerge.Proofs.Text.Lines
import SourceMerge.Proofs.Text.Utf8
import SourceMerge.Proofs.Text.Order
import SourceMerge.Proofs.Braces.Balance
import SourceMerge.Proofs.Declaration.Recognition
import SourceMerge.Proofs.Declaration.UsingClause
import SourceMerge.Proofs.Declaration.LineKind
import SourceMerge.Proofs.Declaration.ImportPath
import SourceMerge.Proofs.Declaration.FirstSeen
import SourceMerge.Proofs.Unwrap.Run
import SourceMerge.Proofs.Unwrap.BlockNamespace
import SourceMerge.Proofs.Unwrap.Thinning
import SourceMerge.Proofs.Unwrap.Wrapper
import SourceMerge.Proofs.Document.Marker
import SourceMerge.Proofs.Document.Layout
import SourceMerge.Proofs.Document.Balance
import SourceMerge.Proofs.Document.Hoisting
import SourceMerge.Proofs.Document.Remerge
import SourceMerge.Proofs.Document.LineMachine
import SourceMerge.Proofs.Document.PackagedLayout
import SourceMerge.Proofs.Document.PackagedRemerge
import SourceMerge.Proofs.Document.Unambiguous
import SourceMerge.Proofs.Text.Returns
import SourceMerge.Proofs.Document.LineEndings
import SourceMerge.Proofs.Collection.Relisting
import SourceMerge.Proofs.Collection.Saving
import SourceMerge.Proofs.Braces.Modes
import SourceMerge.Proofs.Project.Reading
import SourceMerge.Proofs.CommandLine.Outcome
import SourceMerge.Proofs.CommandLine.Logging
import SourceMerge.Proofs.Declaration.NamespaceLine
import SourceMerge.Proofs.Unwrap.Commented
import SourceMerge.Proofs.Declaration.Tail
import SourceMerge.Proofs.Document.Tails
import SourceMerge.Proofs.Document.Congruence
import SourceMerge.Proofs.Text.Words
import SourceMerge.Proofs.Declaration.BlockEntry
import SourceMerge.Proofs.Document.ImportBlock
import SourceMerge.Proofs.Document.Readings
import SourceMerge.Proofs.Document.CommentedBlock
import SourceMerge.Proofs.Document.Gathering
import SourceMerge.Proofs.Document.DeclarationBlock
import SourceMerge.Proofs.Document.ChosenNamespace
import SourceMerge.Proofs.Document.Verbatim
import SourceMerge.Proofs.Braces.ByteScan
import SourceMerge.Proofs.Braces.Bytewise
import SourceMerge.Proofs.Braces.Lexer
import SourceMerge.Proofs.Braces.Spelling
import SourceMerge.Proofs.Project.Lossy
import SourceMerge.Proofs.Project.Moved
import SourceMerge.Proofs.Declaration.UsingGrammar
import SourceMerge.Proofs.Declaration.EntryPointGrammar
import SourceMerge.Proofs.Text.Joining
import SourceMerge.Declarations.Indexed
import SourceMerge.Proofs.Declaration.Indexed
import SourceMerge.Proofs.Unwrap.Reached
import SourceMerge.Proofs.Clipboard.Installed
