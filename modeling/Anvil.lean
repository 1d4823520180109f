import Anvil.Lib.Run
import Anvil.Engine.Cookies
import Anvil.Load.Record
import Anvil.Load.Observe
import Anvil.Load.Ledger
import Anvil.Lib.CountMap
import Anvil.Load.Metrics
import Anvil.Load.Timeline
import Anvil.Load.Report
import Anvil.Load.Snapshot
import Anvil.Lib.Utf8
import Anvil.Transport.Sse.Parser
import Anvil.Transport.Sse.Reference
import Anvil.Transport.Sse.Reconnect
import Anvil.Xml.Scan
import Anvil.Xml.Document
import Anvil.Xml.Exact
import Anvil.Lib.Net
import Anvil.Transport.Destination
import Anvil.Lib.Wire
import Anvil.Transport.ProxyProtocol
import Anvil.Import.Reimport.Request
import Anvil.Import.Reimport.Unit
import Anvil.Import.Reimport.Scope
import Anvil.Import.Reimport.Merge
import Anvil.Import.Reimport.Baseline
import Anvil.Import.Reimport.Again
import Anvil.Import.Reimport.Runs
import Anvil.Lib.Table
import Anvil.Transport.Fence
import Anvil.Transport.Pool
import Anvil.Transport.PoolRuns
import Anvil.Engine.Request
import Anvil.Engine.Attempts
import Anvil.Engine.AttemptRuns
import Anvil.App.Tree
import Anvil.App.TreeRuns
import Anvil.Storage.Vault
import Anvil.Storage.VaultRuns
import Anvil.Auth.Multi
import Anvil.Auth.Sent
import Anvil.Auth.MultiRuns
import Anvil.Lib.Digested
import Anvil.Store.Catalogue
import Anvil.Store.Records
import Anvil.Store.Handle
import Anvil.Store.RecordRuns
import Anvil.Store.CacheRuns
import Anvil.Store.Agreement
import Anvil.Engine.Redact
import Anvil.Auth.TokenCache
import Anvil.Auth.TokenCalls
import Anvil.Auth.TokenRuns
import Anvil.Auth.TokenFence
import Anvil.Auth.SingleFlight
import Anvil.Lib.Json
import Anvil.Portability.Sanitize
import Anvil.Portability.Restored
import Anvil.Portability.Slots
import Anvil.App.Attachments
import Anvil.App.Cleanup
import Anvil.Store.Effects
import Anvil.App.CleanupRuns
import Anvil.Lib.Splitter
import Anvil.Transport.GrpcWeb.Frames
import Anvil.Lib.Base64
import Anvil.Transport.GrpcWeb.Text
import Anvil.Lib.Delimited
import Anvil.Transport.Envelope
import Anvil.Load.TimelineCounts
import Anvil.Engine.CookieInsert
import Anvil.Load.AbortRing
import Anvil.Engine.Vars
import Anvil.Engine.Expand
import Anvil.Engine.Resolve
import Anvil.Engine.Mask
import Anvil.Domain.Secret
import Anvil.Transport.Session
import Anvil.Contract.Spec
import Anvil.Transport.WsMeter
import Anvil.Contract.SpecRuns
import Anvil.Transport.Deframe
import Anvil.Transport.Masque
import Anvil.Transport.MasqueRuns
import Anvil.Contract.Patch
import Anvil.Lib.JsonPatch
import Anvil.Contract.Diff
import Anvil.Contract.Infer
import Anvil.Contract.InferRuns
import Anvil.Lib.Quoted
import Anvil.Transport.WsExtensions
import Anvil.Transport.WsNegotiate
import Anvil.Import.Shell
import Anvil.Import.ShellRuns
import Anvil.Lib.Rfc3339
import Anvil.Contract.Formats
import Anvil.Engine.Prepare
import Anvil.Auth.Signing
import Anvil.Engine.CookieHeader
import Anvil.Import.Common
import Anvil.Import.Rendered
import Anvil.Contract.Locate
import Anvil.Contract.Located
import Anvil.Store.Aad
import Anvil.Lib.Sweep
import Anvil.Store.Reseal
import Anvil.Store.Retention
import Anvil.Lib.Ordered
import Anvil.Store.Encoded
import Anvil.Store.View
import Anvil.Engine.Targets
import Anvil.Import.Query
import Anvil.Engine.Multipart
import Anvil.Lib.Climb
import Anvil.Portability.Graph
import Anvil.Portability.Validate
import Anvil.Lib.Bits
import Anvil.Storage.Recovery
import Anvil.Import.Canonical
import Anvil.App.TreeScope
import Anvil.App.TreeView
import Anvil.Lib.JsonLayout
import Anvil.Portability.Nodes
import Anvil.Portability.Bundle
import Anvil.Portability.Export
import Anvil.Lib.Slices
import Anvil.Portability.Directory
import Anvil.App.Backup
