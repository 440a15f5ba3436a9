import Flow.Ports.DiffCache
import Flow.Ports.MetadataMergeOrder
import Flow.Ports.MetadataRecordIds
import Flow.Ports.CodingCapacity
import Flow.Ports.CodingCoherence
import Flow.Ports.CodingRelease
import Flow.Ports.CodingTransitions
import Flow.Ports.CodingDeliveryInvariant
import Flow.Ports.CodingServingInvariant
import Flow.Ports.CodingInbox
import Flow.Ports.CollaborationAccess
import Flow.Ports.IssueFieldHistory
import Flow.Ports.OAuthFamilies
import Flow.Ports.ResourceSlug
import Flow.Ports.RunnerEventsInvariant
import Flow.Ports.SandboxBilling
import Flow.Ports.CodingLeaseWakes
import Flow.Ports.IssueGroupCountersExact
import Flow.Ports.IssueStatsExact
import Flow.Ports.DurableStreamOnce
import Flow.Ports.IssuePagesCover
import Flow.Ports.RealtimeHubOrder
import Flow.Ports.ContentSweepKeeps
import Flow.Ports.IssueMutationQueueLineage
import Flow.Ports.CollaborationClientKeeps
import Flow.Ports.InitiativeHierarchyBounded
import Flow.Ports.IssueCacheFresh
import Flow.Ports.IssueQueryScope
import Flow.Ports.MetadataCacheExact
import Flow.Ports.ChangeLogPages
import Flow.Ports.CodingDeadlines
import Flow.Ports.CodingRestart
import Flow.Ports.EventNumberingCovers
import Flow.Ports.IssueNumbersUnique
import Flow.Ports.LoopDocumentAppendsOnce
import Flow.Ports.CodingStops
import Flow.Ports.IssueRelations
import Flow.Ports.SlaRules
import Flow.Ports.PublicFilter
import Flow.Ports.SocketAccessQueue
import Flow.Ports.TeamHierarchy
import Flow.Ports.TokenBucket
import Flow.Ports.IdGenerator
import Flow.Ports.HistoryCompaction
