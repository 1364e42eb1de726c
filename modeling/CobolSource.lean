import CobolSource.Scan.Session
import CobolSource.Proofs.Coordinates
import CobolSource.Proofs.TokenScan
import CobolSource.Proofs.Partition
import CobolSource.Proofs.Writing
import CobolSource.Proofs.Look
import CobolSource.Proofs.Extension
import CobolSource.Proofs.PhraseScan
import CobolSource.Proofs.PhraseWriting
import CobolSource.Proofs.Suffix
import CobolSource.Proofs.PhraseTokens
import CobolSource.Proofs.Progress
import CobolSource.Proofs.Pulling
import CobolSource.Proofs.Respelling
import CobolSource.Proofs.RespelledRun
import CobolSource.Proofs.LineEnds
import CobolSource.Proofs.Blanking
import CobolSource.Proofs.Indicator
import CobolSource.Proofs.Mark
import CobolSource.Proofs.WholeLines
import CobolSource.Proofs.ByteReading
import CobolSource.Proofs.ByteLexing
import CobolSource.Proofs.ByteMovement
import CobolSource.Proofs.SoundCuts
import CobolSource.Proofs.LatestSpan
import CobolSource.Proofs.Reporting
import CobolSource.Proofs.PhraseEnd
import CobolSource.Proofs.StringEnd
import CobolSource.Proofs.Renaming
import CobolSource.Proofs.LayoutScan
