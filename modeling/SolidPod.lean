import SolidPod.ActivityPub.Backoff
import SolidPod.ActivityPub.BodyDigest
import SolidPod.ActivityPub.ConcurrentDelivery
import SolidPod.ActivityPub.Delivery
import SolidPod.ActivityPub.DeliveryState
import SolidPod.ActivityPub.Federation
import SolidPod.ActivityPub.Followers
import SolidPod.ActivityPub.HttpSig
import SolidPod.ActivityPub.Inbox
import SolidPod.ActivityPub.InboxRuns
import SolidPod.ActivityPub.Outbox
import SolidPod.ActivityPub.OutboxIntegrity
import SolidPod.ActivityPub.SignatureRoundTrip
import SolidPod.ActivityPub.Store
import SolidPod.Auth.CidVerifier
import SolidPod.Auth.Nip98
import SolidPod.Auth.UrlBinding
import SolidPod.Build
import SolidPod.Config.Layering
import SolidPod.Config.StorageSelection
import SolidPod.DidKey.Jwt
import SolidPod.DidKey.SelfSigned
import SolidPod.Error
import SolidPod.Foundation.Breaker
import SolidPod.Foundation.Channels
import SolidPod.Foundation.Choices
import SolidPod.Foundation.Encodings
import SolidPod.Foundation.EndedLines
import SolidPod.Foundation.Expiry
import SolidPod.Foundation.Fallible
import SolidPod.Foundation.FileTree
import SolidPod.Foundation.Handover
import SolidPod.Foundation.JsonGrammar
import SolidPod.Foundation.Keeps
import SolidPod.Foundation.Lockstep
import SolidPod.Foundation.Loop
import SolidPod.Foundation.LruCache
import SolidPod.Foundation.NormalForm
import SolidPod.Foundation.Numerals
import SolidPod.Foundation.Occurrence
import SolidPod.Foundation.OneTime
import SolidPod.Foundation.Outbound
import SolidPod.Foundation.QuotedText
import SolidPod.Foundation.ReadModifyWrite
import SolidPod.Foundation.Register
import SolidPod.Foundation.ReplayMemory
import SolidPod.Foundation.Schedule
import SolidPod.Foundation.Search
import SolidPod.Foundation.SortedSet
import SolidPod.Foundation.SplitRegister
import SolidPod.Foundation.Splitter
import SolidPod.Foundation.Tables
import SolidPod.Foundation.Text
import SolidPod.Foundation.TripleSets
import SolidPod.Foundation.Turtle
import SolidPod.Foundation.UnixPath
import SolidPod.Foundation.Utf8
import SolidPod.Foundation.Windows
import SolidPod.Git.Cgi
import SolidPod.Git.Guard
import SolidPod.Git.Service
import SolidPod.Http.Client
import SolidPod.Idp.Accounts
import SolidPod.Idp.ClientFetch
import SolidPod.Idp.Clients
import SolidPod.Idp.CodeFlow
import SolidPod.Idp.KeyRotation
import SolidPod.Idp.Passkey
import SolidPod.Idp.PasskeyCounters
import SolidPod.Idp.Provider
import SolidPod.Idp.Schnorr
import SolidPod.Idp.Sessions
import SolidPod.Idp.Tokens
import SolidPod.Idp.Usability
import SolidPod.Interop.DidNostr
import SolidPod.Interop.KeptAnswers
import SolidPod.Interop.WellKnown
import SolidPod.Json
import SolidPod.JsonText
import SolidPod.Ldp.BlockSearch
import SolidPod.Ldp.ByteRanges
import SolidPod.Ldp.ContainerTurtle
import SolidPod.Ldp.Dialects
import SolidPod.Ldp.Discovery
import SolidPod.Ldp.Graph
import SolidPod.Ldp.JsonPatch
import SolidPod.Ldp.JsonPatchConformance
import SolidPod.Ldp.JsonPatchInPlace
import SolidPod.Ldp.JsonPatchMeaning
import SolidPod.Ldp.Links
import SolidPod.Ldp.Mentions
import SolidPod.Ldp.NTriples
import SolidPod.Ldp.Negotiation
import SolidPod.Ldp.Patch
import SolidPod.Ldp.PatchDocument
import SolidPod.Ldp.PatchReading
import SolidPod.Ldp.Preconditions
import SolidPod.Ldp.SparqlUpdate
import SolidPod.Nostr.Binding
import SolidPod.Nostr.Convergence
import SolidPod.Nostr.DidDocument
import SolidPod.Nostr.HistoryOrder
import SolidPod.Nostr.Ingestion
import SolidPod.Nostr.ProfileLinks
import SolidPod.Nostr.Relay
import SolidPod.Nostr.Resolver
import SolidPod.Nostr.SubscriptionRuns
import SolidPod.Nostr.Wire
import SolidPod.Notifications.Basic
import SolidPod.Notifications.BoundedDelivery
import SolidPod.Notifications.CircuitBreaker
import SolidPod.Notifications.FanOut
import SolidPod.Notifications.LegacyDriver
import SolidPod.Notifications.LegacySession
import SolidPod.Notifications.SignatureBinding
import SolidPod.Notifications.Signing
import SolidPod.Oidc.AccessToken
import SolidPod.Oidc.Dpop
import SolidPod.Oidc.DpopSoundness
import SolidPod.Oidc.Jwks
import SolidPod.Oidc.Replay
import SolidPod.Oidc.ReplayMemory
import SolidPod.Oidc.ReplayRuns
import SolidPod.Provision.AccessRules
import SolidPod.Provision.Containers
import SolidPod.Provision.ProfileIsland
import SolidPod.Provision.QuotaTracker
import SolidPod.Quota.BadSidecar
import SolidPod.Quota.Basic
import SolidPod.Quota.ConcurrentRecords
import SolidPod.Security.AddressRanges
import SolidPod.Security.Cors
import SolidPod.Security.HostLists
import SolidPod.Security.RateLimit
import SolidPod.Security.RateLimitIsolation
import SolidPod.Security.RateLimitRuns
import SolidPod.Security.RetryAfter
import SolidPod.Security.Ssrf
import SolidPod.Server.App
import SolidPod.Server.AppendOnly
import SolidPod.Server.ConcurrentPatch
import SolidPod.Server.Credentials
import SolidPod.Server.DotfileGuard
import SolidPod.Server.Escalation
import SolidPod.Server.Fetchers
import SolidPod.Server.GraphPatch
import SolidPod.Server.Handlers
import SolidPod.Server.Ledger
import SolidPod.Server.PatchSafety
import SolidPod.Server.PayloadBinding
import SolidPod.Server.ReadMediation
import SolidPod.Server.Steps
import SolidPod.Server.WacAllow
import SolidPod.Storage.Basic
import SolidPod.Storage.Fs
import SolidPod.Storage.FsPaths
import SolidPod.Storage.Interchange
import SolidPod.Storage.Memory
import SolidPod.Storage.Mirrors
import SolidPod.Storage.Seeding
import SolidPod.Storage.TornReads
import SolidPod.Storage.WatchOverflow
import SolidPod.Storage.WatchedMemory
import SolidPod.Wac.ConditionObjects
import SolidPod.Wac.Document
import SolidPod.Wac.Evaluator
import SolidPod.Wac.JsonDepth
import SolidPod.Wac.Origin
import SolidPod.Wac.OriginGate
import SolidPod.Wac.Parser
import SolidPod.Wac.Rendering
import SolidPod.Wac.Resolver
import SolidPod.Wac.RoundTrip
import SolidPod.Wac.Rule
import SolidPod.Wac.Serializer
import SolidPod.Wac.Tokens
import SolidPod.Wac.Triples
import SolidPod.Wac.TriplesText
import SolidPod.Wac.Walk
import SolidPod.Wac.WriteValidation
import SolidPod.Wac.WrittenConditions
