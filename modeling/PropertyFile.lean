import PropertyFile.Main
import PropertyFile.Proofs.Checking
import PropertyFile.Proofs.CodeStore
import PropertyFile.Proofs.CommentBlocks
import PropertyFile.Proofs.Comments
import PropertyFile.Proofs.Configuration
import PropertyFile.Proofs.Discovery
import PropertyFile.Proofs.FailedRead
import PropertyFile.Proofs.FailedWrite
import PropertyFile.Proofs.HeaderGap
import PropertyFile.Proofs.Identity
import PropertyFile.Proofs.ListLine
import PropertyFile.Proofs.NestedLoad
import PropertyFile.Proofs.Nesting
import PropertyFile.Proofs.Normalizing
import PropertyFile.Proofs.Preview
import PropertyFile.Proofs.Recurrence
import PropertyFile.Proofs.Rereading
import PropertyFile.Proofs.RoundTrip
import PropertyFile.Proofs.Segments
import PropertyFile.Proofs.SettingsTable
import PropertyFile.Proofs.Splicing
import PropertyFile.Proofs.Subscription
import PropertyFile.Proofs.WrittenLine
import PropertyFile.Workspace
import PropertyFile.Writer
import PropertyFile.Proofs.Division
import PropertyFile.Proofs.Accounting
import PropertyFile.Proofs.Rejection
import PropertyFile.Proofs.DisguisedKey
import PropertyFile.Proofs.IdleDelimiter
import PropertyFile.Proofs.References
import PropertyFile.Proofs.CanonicalComment
import PropertyFile.Proofs.Partition
