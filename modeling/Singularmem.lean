import Singularmem.Core.Announcements
import Singularmem.Core.Chronology
import Singularmem.Core.Constraints
import Singularmem.Core.DisplayedTimes
import Singularmem.Core.EarlyYears
import Singularmem.Core.Error
import Singularmem.Core.HookTraces
import Singularmem.Core.Hooks
import Singularmem.Core.Ids
import Singularmem.Core.Ingest
import Singularmem.Core.ItemStore
import Singularmem.Core.Items
import Singularmem.Core.JsonText
import Singularmem.Core.Listings
import Singularmem.Core.Migration
import Singularmem.Core.MigrationStages
import Singularmem.Core.Objects
import Singularmem.Core.Openings
import Singularmem.Core.Query
import Singularmem.Core.Readback
import Singularmem.Core.Rejections
import Singularmem.Core.RevisionWalks
import Singularmem.Core.Schema
import Singularmem.Core.Scope
import Singularmem.Core.ScopeFilters
import Singularmem.Core.ScopeForms
import Singularmem.Core.ScopeGrammar
import Singularmem.Core.Shelf
import Singularmem.Core.ShelfRuns
import Singularmem.Core.ShelvedCalls
import Singularmem.Core.ShelvedReads
import Singularmem.Core.ShelvedWrites
import Singularmem.Core.Store
import Singularmem.Core.StoredScopes
import Singularmem.Core.StoredTimes
import Singularmem.Core.TagFilters
import Singularmem.Core.Text
import Singularmem.Core.Time
import Singularmem.Graph.Chains
import Singularmem.Graph.ComparedScopes
import Singularmem.Graph.Constraints
import Singularmem.Graph.Counting
import Singularmem.Graph.Export
import Singularmem.Graph.ExportLines
import Singularmem.Graph.ExportRuns
import Singularmem.Graph.Facts
import Singularmem.Graph.History
import Singularmem.Graph.MixedRuns
import Singularmem.Graph.NameForms
import Singularmem.Graph.Outcomes
import Singularmem.Graph.Partition
import Singularmem.Graph.Read
import Singularmem.Graph.Retries
import Singularmem.Graph.Revisions
import Singularmem.Graph.StoredEntities
import Singularmem.Graph.StoredFacts
import Singularmem.Graph.StoredRows
import Singularmem.Graph.Summaries
import Singularmem.Graph.TimeTravel
import Singularmem.Graph.Write
import Singularmem.Hooks.Command
import Singularmem.Hooks.Config
import Singularmem.Hooks.Foreign
import Singularmem.Hooks.Merging
import Singularmem.Hooks.Removing
import Singularmem.Hooks.SavedSessions
import Singularmem.Hooks.SessionStart
import Singularmem.Ingest.Accounting
import Singularmem.Ingest.Batches
import Singularmem.Ingest.CallRuns
import Singularmem.Ingest.Chunk
import Singularmem.Ingest.ChunkBounds
import Singularmem.Ingest.Claude
import Singularmem.Ingest.ClosedForm
import Singularmem.Ingest.Codex
import Singularmem.Ingest.Driver
import Singularmem.Ingest.DryRuns
import Singularmem.Ingest.Incremental
import Singularmem.Ingest.Isolation
import Singularmem.Ingest.LockedRuns
import Singularmem.Ingest.PercentEscapes
import Singularmem.Ingest.Refusals
import Singularmem.Ingest.Reminders
import Singularmem.Ingest.Rerun
import Singularmem.Ingest.SharedStore
import Singularmem.Ingest.SiftRuns
import Singularmem.Ingest.Sifting
import Singularmem.Ingest.Successes
import Singularmem.Ingest.TornLines
import Singularmem.Ingest.Transcripts
import Singularmem.Ingest.WalkedIds
import Singularmem.Ingest.WalkedRuns
import Singularmem.Ingest.Walker
import Singularmem.Library.Accesses
import Singularmem.Library.Bytes
import Singularmem.Library.Calendar
import Singularmem.Library.Codecs
import Singularmem.Library.CrashPoints
import Singularmem.Library.Delimited
import Singularmem.Library.Effects
import Singularmem.Library.FixedWidth
import Singularmem.Library.Lines
import Singularmem.Library.Links
import Singularmem.Library.LockedSections
import Singularmem.Library.Markup
import Singularmem.Library.Members
import Singularmem.Library.Merging
import Singularmem.Library.Mirrors
import Singularmem.Library.Nearest
import Singularmem.Library.Paths
import Singularmem.Library.Quoting
import Singularmem.Library.Ranking
import Singularmem.Library.Records
import Singularmem.Library.Revisions
import Singularmem.Library.Runs
import Singularmem.Library.SingleWrites
import Singularmem.Library.Splices
import Singularmem.Library.Splitting
import Singularmem.Library.SqlCatalog
import Singularmem.Library.Tables
import Singularmem.Library.Trimming
import Singularmem.Library.Triples
import Singularmem.Mcp.Handlers
import Singularmem.Mcp.MemoryRetrieve
import Singularmem.Mcp.RequestEffects
import Singularmem.Mcp.Server
import Singularmem.Mcp.Sessions
import Singularmem.Mcp.Tools
import Singularmem.Retrieve.Claude
import Singularmem.Retrieve.ProjectScopes
import Singularmem.Retrieve.Requests
import Singularmem.Retrieve.Retriever
import Singularmem.Retrieve.ScopeCounts
import Singularmem.Retrieve.Wakeup
import Singularmem.Retrieve.WakeupText
import Singularmem.Search.CommitPhases
import Singularmem.Search.Coverage
import Singularmem.Search.Directory
import Singularmem.Search.FaultyRuns
import Singularmem.Search.FileAccesses
import Singularmem.Search.FirstOpens
import Singularmem.Search.FreshIds
import Singularmem.Search.Fusion
import Singularmem.Search.HybridQuery
import Singularmem.Search.IndexRuns
import Singularmem.Search.IndexedSearch
import Singularmem.Search.IndexedStore
import Singularmem.Search.InterleavedLedger
import Singularmem.Search.Journal
import Singularmem.Search.JournalFormat
import Singularmem.Search.KeptPairs
import Singularmem.Search.Keymap
import Singularmem.Search.KeymapFormats
import Singularmem.Search.KilledRequests
import Singularmem.Search.KilledRuns
import Singularmem.Search.Ledger
import Singularmem.Search.LockedTraffic
import Singularmem.Search.Moves
import Singularmem.Search.NearestHits
import Singularmem.Search.Openable
import Singularmem.Search.Placement
import Singularmem.Search.Readded
import Singularmem.Search.Refinement
import Singularmem.Search.Removed
import Singularmem.Search.Replay
import Singularmem.Search.Rereads
import Singularmem.Search.ScopeIsolation
import Singularmem.Search.ScopeTerms
import Singularmem.Search.SharedDirectory
import Singularmem.Search.ShelteredRuns
import Singularmem.Search.SoleCrashes
import Singularmem.Search.SoleHandle
import Singularmem.Search.SoleRuns
import Singularmem.Search.SplitCalls
import Singularmem.Search.StaleReloads
import Singularmem.Search.Stops
import Singularmem.Search.TextIndex
import Singularmem.Search.Threads
import Singularmem.Search.TornAppend
import Singularmem.Search.TornPairs
import Singularmem.Search.VectorIndex
import Singularmem.Search.Visits
