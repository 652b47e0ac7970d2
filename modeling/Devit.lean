import Devit.AtomicPatcher
import Devit.PatchClassify
import Devit.PatchTargets
import Devit.HunkSplicing
import Devit.UnifiedDiff
import Devit.PatchCorrectness
import Devit.Library.Directories
import Devit.AtomicWrite
import Devit.PatchSections
import Devit.PatchAtomicity
import Devit.Containment
import Devit.WorkspaceRoots
import Devit.PatchReplay
import Devit.ConcurrentApply
import Devit.NotificationDelivery
import Devit.TaskTables
import Devit.ApprovalDecisions
import Devit.ApprovalParity
import Devit.PolicyDecisions
import Devit.PolicySpelling
import Devit.CanonicalBody
import Devit.JournalEvidence
import Devit.ReturnTargets
import Devit.PatchPaths
import Devit.WorkspacePaths
import Devit.RestoreAtomicity
import Devit.SnapshotValidation
import Devit.StaleIds
import Devit.CoreJournal
import Devit.SignedJournal
import Devit.FieldMappings
import Devit.DiffSections
import Devit.DiffRoundTrip
import Devit.DryRun
import Devit.PatchFrame
import Devit.ToolCalling
import Devit.ToolCallFilter
import Devit.Compaction
import Devit.Library.LineStream
import Devit.Library.OrderedTable
import Devit.ThinkingTags
import Devit.ChatStreams
import Devit.NativeToolCalls
import Devit.DisplayedAnswer
import Devit.Library.Splices
import Devit.StructuredEdits
import Devit.EditSessions
import Devit.DiffWriter
import Devit.RateLimits
import Devit.RejectedMessages
import Devit.Screenshots
import Devit.SignatureCache
import Devit.WorkerTemplates
import Devit.WrittenDiffs
import Devit.Library.IpAddress
import Devit.HttpTransport
import Devit.JsonRpc
import Devit.FetchUrl
import Devit.WorkerBridge
import Devit.LspClient
import Devit.ProcessRegistry
import Devit.ProcessSupervision
import Devit.RegistryRaces
import Devit.ContextIndex
import Devit.Library.SystemPaths
import Devit.FileSystemContext
import Devit.ToolPaths
import Devit.Library.Walks
import Devit.FileExploration
import Devit.ExplorationWalks
import Devit.ExplorationSafety
import Devit.PolicyLevels
import Devit.HunkOrders
import Devit.HunkAcceptance
import Devit.BackendNotifications
import Devit.BytePreservation
import Devit.HeaderPaths
import Devit.PathPrefixes
import Devit.SectionSplits
import Devit.ModeMarks
import Devit.ParserTotality
import Devit.SnapshotReversion
import Devit.SnapshotRetention
import Devit.SnapshotConfinement
import Devit.Library.EditScripts
import Devit.McpPatcher
import Devit.ParsedFiles
import Devit.PatchReports
import Devit.SearchWeb
import Devit.SearchTransparency
import Devit.StatusFilters
import Devit.FilePaging
import Devit.SearchReports
import Devit.ToolCallTotality
import Devit.ToolCallObjects
import Devit.RobotsGroups
import Devit.HtmlExtraction
import Devit.OutputShaper
import Devit.OutputBounds
import Devit.Library.Escaping
import Devit.TableRows
import Devit.TableReading
import Devit.WritePaths
import Devit.Library.Glob
import Devit.BinaryAllowlist
import Devit.LineChunking
import Devit.ProcStat
import Devit.ContextAccounting
import Devit.Library.StableSort
import Devit.QueryPlanner
import Devit.SandboxResolution
import Devit.ThinkingLosses
import Devit.ToolCallStripping
import Devit.Library.Grouping
import Devit.Library.Segments
import Devit.GlmCalls
import Devit.GlmReadings
import Devit.FreshSnapshots
import Devit.MovedWorkspaces
import Devit.SessionStore
import Devit.MergeAssist
import Devit.DaemonClient
import Devit.Library.Mailbox
import Devit.ClientDelivery
import Devit.Library.JsonMaps
import Devit.CompactTables
import Devit.PatchPreviews
import Devit.Recommendations
import Devit.Library.Parallel
import Devit.ShownPermissions
import Devit.Library.Interleaving
import Devit.GhostEditing
import Devit.GhostDelivery
