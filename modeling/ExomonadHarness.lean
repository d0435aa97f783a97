import ExomonadHarness.Support.Run
import ExomonadHarness.Schema.RoundTrip
import ExomonadHarness.Finalize
import ExomonadHarness.Transport.Reader
import ExomonadHarness.Transport.Grammar
import ExomonadHarness.Transport.AssemblyRuns
import ExomonadHarness.Transport.Redaction
import ExomonadHarness.Transport.Credentials
import ExomonadHarness.Budget.Exhaustion
import ExomonadHarness.Provider.Admission
import ExomonadHarness.Compaction.Bookkeeping
import ExomonadHarness.Compaction.Ownership
import ExomonadHarness.Scheduler.Claimants
import ExomonadHarness.Scheduler.Activation
import ExomonadHarness.Scheduler.Completion
import ExomonadHarness.Scheduler.FalseStop
import ExomonadHarness.Scheduler.Requests
import ExomonadHarness.Scheduler.Wakeups
import ExomonadHarness.Server.Decimal
import ExomonadHarness.Store.ClaimWrites
import ExomonadHarness.Store.MailboxRuns
import ExomonadHarness.Store.MigrationSpec
import ExomonadHarness.Store.HistoryOrder
import ExomonadHarness.Store.LegacyEnvelopes
import ExomonadHarness.Store.PatchEffect
import ExomonadHarness.Store.PortabilitySpec
import ExomonadHarness.Store.Fence
import ExomonadHarness.Store.FormTotal
import ExomonadHarness.Engine.RoundFold
import ExomonadHarness.Embedding.RoundTrip
import ExomonadHarness.Browser.Convergence
import ExomonadHarness.Browser.LookupRuns
import ExomonadHarness.Browser.ConversationTree
import ExomonadHarness.Browser.Timeline
import ExomonadHarness.Browser.FormDrafts
