import Aisix.Aliyun.Pieces
import Aisix.Anthropic.Blocks
import Aisix.Anthropic.Inbound
import Aisix.Anthropic.Messages
import Aisix.Anthropic.Reading
import Aisix.Anthropic.Response
import Aisix.Anthropic.RoundTrip
import Aisix.Anthropic.SplitSystem
import Aisix.Anthropic.SseEncoder
import Aisix.Anthropic.StreamAgrees
import Aisix.Anthropic.StreamState
import Aisix.Anthropic.Wire
import Aisix.Base64
import Aisix.BlockStream
import Aisix.Breaker.CoolOff
import Aisix.Breaker.State
import Aisix.Budgets.Index
import Aisix.Budgets.Gate
import Aisix.ByteOffsets
import Aisix.Cache.Agreement
import Aisix.Cache.Key
import Aisix.Cache.KeyBytes
import Aisix.CasStore
import Aisix.Chat
import Aisix.ChatMerge
import Aisix.ChatReasoning
import Aisix.CircularWalk
import Aisix.ClientIp
import Aisix.Console.Promql
import Aisix.ContentPart
import Aisix.Counter
import Aisix.Delimited
import Aisix.Ebml
import Aisix.Ebml.Document
import Aisix.Etcd.Coalesce
import Aisix.Etcd.Event
import Aisix.Etcd.Key
import Aisix.Etcd.LastGood
import Aisix.Etcd.Loader
import Aisix.Etcd.Observed
import Aisix.Etcd.OwnRow
import Aisix.Etcd.Resync
import Aisix.Etcd.Revision
import Aisix.Etcd.ServedRecords
import Aisix.Etcd.Snapshot
import Aisix.Etcd.SnapshotCache
import Aisix.Etcd.Supervisor
import Aisix.FileSource.Identity
import Aisix.Glob
import Aisix.Guardrails.Segments
import Aisix.Health.RuntimeStatus
import Aisix.HeldContent.Chat
import Aisix.HeldContent.Ledger
import Aisix.HeldContent.NeverUndercounts
import Aisix.HeldContent.Responses
import Aisix.IpAddr
import Aisix.Json
import Aisix.JsonCanonical
import Aisix.JsonSchema
import Aisix.JsonSchema.Looser
import Aisix.JsonSchema.Pointer
import Aisix.JsonSplice.Accepted
import Aisix.JsonSplice.Exact
import Aisix.JsonSplice.Paths
import Aisix.JsonSplice.Readable
import Aisix.JsonSplice.Removal
import Aisix.JsonSplice.Removed
import Aisix.JsonSplice.Replacement
import Aisix.JsonSplice.Rewritten
import Aisix.JsonSplice.Scanner
import Aisix.JsonSplice.Sound
import Aisix.JsonSplice.Steps
import Aisix.JsonSplice.StringTokens
import Aisix.JsonSplice.Tokens
import Aisix.JsonSyntax
import Aisix.JsonText
import Aisix.KeyMap
import Aisix.LastTurn
import Aisix.Least
import Aisix.LegacyFunctions
import Aisix.LegacyFunctions.Answer
import Aisix.LegacyFunctions.History
import Aisix.Lts
import Aisix.Mcp.Acl
import Aisix.Mcp.StoreRules
import Aisix.Mcp.Gateway
import Aisix.Mcp.Layers
import Aisix.Mcp.Name
import Aisix.Mcp.RefreshLease
import Aisix.Mcp.SessionToken
import Aisix.Mcp.SharedStore
import Aisix.Mcp.TokenRefresh
import Aisix.Mcp.Wildcard
import Aisix.MediaFetch
import Aisix.ModelResolve
import Aisix.NumberedLogs
import Aisix.Occurrence
import Aisix.OpaqueId.EventsAgree
import Aisix.OpaqueId.Input
import Aisix.OpaqueId.Sealer
import Aisix.Overlay
import Aisix.Past
import Aisix.Policy.BucketKey
import Aisix.Policy.Conditions
import Aisix.Policy.Index
import Aisix.Policy.Layer
import Aisix.Portal.Billing
import Aisix.Portal.KeyOwner
import Aisix.Portal.Policies
import Aisix.Portal.Sweeper
import Aisix.Pricing.Index
import Aisix.Pricing.Live
import Aisix.RateLimit.Admission
import Aisix.RateLimit.Agreement
import Aisix.RateLimit.AllOrNothing
import Aisix.RateLimit.Allowance
import Aisix.RateLimit.Bucket
import Aisix.RateLimit.ClaimOnce
import Aisix.RateLimit.Conformance
import Aisix.RateLimit.KeyState
import Aisix.RateLimit.LocalStore
import Aisix.RateLimit.Meter
import Aisix.RateLimit.Reservation
import Aisix.RateLimit.ScriptSpec
import Aisix.RateLimit.Scripts
import Aisix.RateLimit.Slots
import Aisix.RateLimit.Window
import Aisix.Redact.AnthropicWalk
import Aisix.Redact.AnthropicWindow
import Aisix.Redact.ChatLockstep
import Aisix.Redact.ChatSlots
import Aisix.Redact.Jsonl
import Aisix.Redact.Moderation
import Aisix.Redact.SseFrames
import Aisix.Redact.SseSeal
import Aisix.Redact.ValueStrings
import Aisix.Redact.Walk
import Aisix.Redis
import Aisix.ResourceTable
import Aisix.ResourceTable.Indices
import Aisix.ResourcesFile
import Aisix.Responses.Adjoining
import Aisix.Responses.Encoder
import Aisix.Responses.GuardrailText
import Aisix.Responses.History
import Aisix.Responses.ItemLogs
import Aisix.Responses.Settle
import Aisix.Responses.Story
import Aisix.Responses.Stream
import Aisix.Responses.Terminal
import Aisix.Responses.ToolCalls
import Aisix.Responses.ToolNames
import Aisix.Responses.Turns
import Aisix.Routing.Attempts
import Aisix.Routing.Group
import Aisix.Routing.HashRing
import Aisix.Routing.PickTargets
import Aisix.Routing.RoundRobin
import Aisix.Routing.Target
import Aisix.Runs
import Aisix.Sink.Accounts
import Aisix.Sink.Pipeline
import Aisix.Sink.Retry
import Aisix.SlidingTail
import Aisix.SmoothRobin
import Aisix.SortedMap
import Aisix.Sse.Decoder
import Aisix.Sse.Fields
import Aisix.Sse.Framing
import Aisix.Sse.Splitter
import Aisix.Sse.Whole
import Aisix.Ssrf
import Aisix.StructuredOutput.InlineRefs
import Aisix.StructuredOutput.Limits
import Aisix.StructuredOutput.Loosen
import Aisix.StructuredOutput.Narrow
import Aisix.StructuredOutput.RefMeaning
import Aisix.StructuredOutput.Replay
import Aisix.Tasks
import Aisix.ToldTexts
import Aisix.ToolCalls.ThoughtSignatures
import Aisix.Utf8
import Aisix.WindowScan.Channels
import Aisix.WindowScan.ChoiceTexts
import Aisix.WindowScan.Coverage
import Aisix.WindowScan.Later
import Aisix.WindowScan.Policy
import Aisix.WindowScan.Relay
import Aisix.WindowScan.Strictest
import Aisix.WriteLog
import Aisix.Yaml
