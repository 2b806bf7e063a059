import PrReviewer.Queue.Durable
import PrReviewer.Queue.Attempts
import PrReviewer.Queue.Tokens
import PrReviewer.Queue.Saveable
import PrReviewer.Publish.Certified
import PrReviewer.Queue.Publishing
import PrReviewer.Queue.Invisible
import PrReviewer.Gateway.Caps
import PrReviewer.Gateway.Restart
import PrReviewer.Gateway.Dispatch
import PrReviewer.Precheck.Separation
import PrReviewer.Followup.Window
import PrReviewer.Controller.Durability
import PrReviewer.Partition.Lossless
import PrReviewer.Partition.Certified
import PrReviewer.Tools.Counts
import PrReviewer.Tools.Window
import PrReviewer.Tools.Wire
import PrReviewer.Controller.Ownership
import PrReviewer.Ingress.Convergence
import PrReviewer.Controller.Settled
import PrReviewer.Governor.Order
import PrReviewer.Queue.Recovery
import PrReviewer.State.Accounting
import PrReviewer.Followup.Eviction
import PrReviewer.Credentials.Custody
import PrReviewer.Platform.PublicAddress
import PrReviewer.Platform.Gate
import PrReviewer.Enforcement.Grounded
import PrReviewer.Jobs.Identity
import PrReviewer.Corpus.Assembled
import PrReviewer.Corpus.Fenced
import PrReviewer.Corpus.Prioritized
import PrReviewer.Partition.Merge
import PrReviewer.Precheck.Metadata
import PrReviewer.Enforcement.Banner
import PrReviewer.Publish.Superseded
import PrReviewer.Outcomes.Reactions
import PrReviewer.Redact.Overlap
import PrReviewer.Redact.Diff
import PrReviewer.Outcomes.ReadBack
import PrReviewer.Credentials.Binding
import PrReviewer.Enforcement.SpanContent
import PrReviewer.Enforcement.TraceRepair
import PrReviewer.Gates.Reported
import PrReviewer.Requirements.PlanSection
import PrReviewer.Requirements.ReadBack
import PrReviewer.Context.ScopeSection
import PrReviewer.Enforcement.ThreadRows
import PrReviewer.Enforcement.CheckFolds
import PrReviewer.Model.Parse
import PrReviewer.Model.Truncation
import PrReviewer.Platform.TangledPatch
import PrReviewer.Context.StripSource
