import ShellTemplate.Command
import ShellTemplate.Compile
import ShellTemplate.Main
import ShellTemplate.Proofs.Backticked
import ShellTemplate.Proofs.Causality
import ShellTemplate.Proofs.DescriptorTable
import ShellTemplate.Proofs.DirectRun
import ShellTemplate.Proofs.Enclosure
import ShellTemplate.Proofs.Exchange
import ShellTemplate.Proofs.Grammar
import ShellTemplate.Proofs.HoleTexts
import ShellTemplate.Proofs.Launches
import ShellTemplate.Proofs.Layering
import ShellTemplate.Proofs.Lexeme.Erase
import ShellTemplate.Proofs.Lexeme.Quoted
import ShellTemplate.Proofs.LineContinuation
import ShellTemplate.Proofs.ListHole
import ShellTemplate.Proofs.LiteralWords
import ShellTemplate.Proofs.OpenedFiles
import ShellTemplate.Proofs.ParameterExpansion
import ShellTemplate.Proofs.RawBetweenBlanks
import ShellTemplate.Proofs.RoundTrip
import ShellTemplate.Proofs.SpecialParameters
import ShellTemplate.Proofs.Spellings
import ShellTemplate.Proofs.SplicedHoles
import ShellTemplate.Proofs.Transcription
import ShellTemplate.Proofs.Unterminated
import ShellTemplate.Proofs.Comments
import ShellTemplate.Proofs.HoleOrder
