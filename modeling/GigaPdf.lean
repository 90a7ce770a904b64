import GigaPdf.Admin.TenantMembers
import GigaPdf.Lib.Runs
import GigaPdf.Lib.Ledger
import GigaPdf.Lib.Closure
import GigaPdf.Storage.QuotaRuns
import GigaPdf.Storage.Readers
import GigaPdf.Storage.Ownership
import GigaPdf.Storage.Saves
import GigaPdf.Storage.Purge
import GigaPdf.Storage.Admission
import GigaPdf.Billing.Replacement
import GigaPdf.Billing.Trial
import GigaPdf.Sharing.Spelling
import GigaPdf.Sharing.Access
import GigaPdf.Sharing.LinkRuns
import GigaPdf.Billing.Limits
import GigaPdf.Editor.Coordinates
import GigaPdf.Editor.Redaction
import GigaPdf.Editor.InPlace
import GigaPdf.Editor.Reorders
import GigaPdf.Editor.OperationsStore
import GigaPdf.Editor.Bakes
import GigaPdf.Editor.Elements
import GigaPdf.Editor.Operations
import GigaPdf.Editor.SceneGraph
import GigaPdf.Editor.Indices
import GigaPdf.Editor.Drawing
import GigaPdf.Engine.Outline
import GigaPdf.Engine.Extraction
import GigaPdf.Editor.Deletes
import GigaPdf.Engine.Blocks
import GigaPdf.Engine.ParagraphOps
import GigaPdf.Engine.BlockGroups
import GigaPdf.Offline.Queue
import GigaPdf.Offline.Flushes
import GigaPdf.Editor.ParagraphReflow
import GigaPdf.Editor.LineEdits
import GigaPdf.Editor.FollowUpCommits
import GigaPdf.Editor.PageOperations
import GigaPdf.Editor.CanvasPool
import GigaPdf.Billing.ApiMetering
import GigaPdf.Collaboration.Service
import GigaPdf.Sharing.InvitationRaces
import GigaPdf.Collaboration.Locks
import GigaPdf.Collaboration.Sockets
import GigaPdf.Editor.DocumentSave
import GigaPdf.Lib.Ancestry
import GigaPdf.Storage.FolderMoves
import GigaPdf.Storage.FolderTree
import GigaPdf.Storage.FolderRaces
import GigaPdf.Storage.Recount
import GigaPdf.Storage.DocumentTransactions
import GigaPdf.Storage.Reconciliation
import GigaPdf.Storage.ErasureRaces
import GigaPdf.Editor.FindReplace
import GigaPdf.Editor.FormFills
import GigaPdf.Editor.GeometryEdits
import GigaPdf.Editor.ReorderQueue
import GigaPdf.Sessions.History
import GigaPdf.Lib.Lru
import GigaPdf.Sessions.Workers
import GigaPdf.Lib.Substitution
import GigaPdf.Lib.Json
import GigaPdf.Storage.Mentions
import GigaPdf.Storage.AccountErasure
import GigaPdf.Storage.ErasedAccounts
import GigaPdf.Lib.Chains
import GigaPdf.Editor.OutlineTree
import GigaPdf.Editor.OutlineEdits
import GigaPdf.Engine.PageRanges
import GigaPdf.Engine.MergeSplit
import GigaPdf.Engine.OcrBoxes
import GigaPdf.Engine.ParagraphEdits
import GigaPdf.Lib.Patterns
import GigaPdf.Security.UrlValidation
import GigaPdf.Engine.SpreadsheetGrid
import GigaPdf.Editor.TextRuns
import GigaPdf.Editor.PageLayout
import GigaPdf.Editor.SurgicalEdits
import GigaPdf.Collaboration.Takeover
import GigaPdf.Sessions.PageNumbers
import GigaPdf.Sessions.Documents
import GigaPdf.Sessions.Reads
import GigaPdf.Lib.Lockstep
import GigaPdf.Sessions.Pages
import GigaPdf.Sessions.Elements
import GigaPdf.Lib.Words
import GigaPdf.Search.Chunking
import GigaPdf.Security.ClientIp
import GigaPdf.Lib.Aead
import GigaPdf.Security.Encryption
import GigaPdf.Security.Envelopes
import GigaPdf.Lib.Candidates
import GigaPdf.Storage.CopyNames
import GigaPdf.Storage.FileNames
import GigaPdf.Lib.Attempts
import GigaPdf.Search.Reindexing
import GigaPdf.Engine.TextLines
import GigaPdf.Lib.Resources
import GigaPdf.Editor.Handles
import GigaPdf.Lib.Epochs
import GigaPdf.Security.RateLimits
import GigaPdf.Lib.Numerals
import GigaPdf.Editor.ListMarkers
import GigaPdf.Security.ApiKeys
import GigaPdf.Security.Identity
import GigaPdf.Security.TokenRefresh
import GigaPdf.Storage.Migration
import GigaPdf.Editor.FontCache
import GigaPdf.Lib.LiveIteration
import GigaPdf.Embedding.EditorSdk
import GigaPdf.Embedding.GetFile
import GigaPdf.Lib.Bytes
import GigaPdf.Editor.GlyphCoverage
import GigaPdf.Lib.LastWriter
import GigaPdf.Editor.BackendMerge
import GigaPdf.Editor.DocumentHook
