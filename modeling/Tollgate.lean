import Tollgate.Machine.Disk
import Tollgate.Machine.History
import Tollgate.Machine.Runs
import Tollgate.Machine.Simulation
import Tollgate.Model.Core.Checked
import Tollgate.Model.Core.Files
import Tollgate.Model.Core.IpAddr
import Tollgate.Model.Core.Text
import Tollgate.Model.Dns.Answer
import Tollgate.Model.Dns.Cache
import Tollgate.Model.Dns.Decoder
import Tollgate.Model.Dns.Format
import Tollgate.Model.Dns.Handler
import Tollgate.Model.Dns.HostResolver
import Tollgate.Model.Dns.LocalName
import Tollgate.Model.Dns.Packet
import Tollgate.Model.Dns.Reference
import Tollgate.Model.Dns.Session
import Tollgate.Model.Dns.Wire
import Tollgate.Model.Doh.Ledger
import Tollgate.Model.Doh.Resolve
import Tollgate.Model.Doh.Upstream
import Tollgate.Model.Engine.Authority
import Tollgate.Model.Engine.Delivery
import Tollgate.Model.Engine.LocalJobs
import Tollgate.Model.Engine.PinsFile
import Tollgate.Model.Engine.Resolving
import Tollgate.Model.Engine.World
import Tollgate.Model.Filter.Decision
import Tollgate.Model.Filter.Detect
import Tollgate.Model.Filter.DomainRules
import Tollgate.Model.Filter.DomainSet
import Tollgate.Model.Filter.Exempt
import Tollgate.Model.Filter.PatternSet
import Tollgate.Model.Filter.Trie
import Tollgate.Model.Filter.Wildcard
import Tollgate.Model.Mitm.Cut
import Tollgate.Model.Mitm.Filtering
import Tollgate.Model.Mitm.Flight
import Tollgate.Model.Mitm.Headers
import Tollgate.Model.Mitm.Idle
import Tollgate.Model.Mitm.Pool
import Tollgate.Model.Mitm.Requests
import Tollgate.Model.Mitm.Send
import Tollgate.Model.Mitm.TlsFormat
import Tollgate.Model.Policy.HostPattern
import Tollgate.Model.Policy.Learning
import Tollgate.Model.Policy.Operations
import Tollgate.Model.Policy.PinBook
import Tollgate.Model.Policy.PinsJson
import Tollgate.Model.Policy.Policy
import Tollgate.Model.Policy.SilentRule
import Tollgate.Proofs.Core.Files
import Tollgate.Proofs.Dns.CacheHits
import Tollgate.Proofs.Dns.Encoding
import Tollgate.Proofs.Dns.Fitted
import Tollgate.Proofs.Dns.HandlerRuns
import Tollgate.Proofs.Dns.HandlerSteps
import Tollgate.Proofs.Dns.Keys
import Tollgate.Proofs.Dns.Parsed
import Tollgate.Proofs.Dns.Queries
import Tollgate.Proofs.Dns.Rendered
import Tollgate.Proofs.Dns.Replies
import Tollgate.Proofs.Dns.Walk
import Tollgate.Proofs.Doh.Attempts
import Tollgate.Proofs.Doh.Marks
import Tollgate.Proofs.Doh.Slots
import Tollgate.Proofs.Engine.Delivery
import Tollgate.Proofs.Engine.LocalJobs
import Tollgate.Proofs.Engine.Networks
import Tollgate.Proofs.Engine.Places
import Tollgate.Proofs.Engine.Resolving
import Tollgate.Proofs.Engine.Steps
import Tollgate.Proofs.Filter.AnyFile
import Tollgate.Proofs.Filter.BlocklistDecision
import Tollgate.Proofs.Filter.DomainFile
import Tollgate.Proofs.Filter.DomainLookup
import Tollgate.Proofs.Filter.ExemptHosts
import Tollgate.Proofs.Filter.GlobScan
import Tollgate.Proofs.Filter.LineEffects
import Tollgate.Proofs.Filter.LineKinds
import Tollgate.Proofs.Filter.PatternLimits
import Tollgate.Proofs.Filter.PatternLookup
import Tollgate.Proofs.Filter.RuleSets
import Tollgate.Proofs.Filter.StoredNames
import Tollgate.Proofs.Filter.TrieLayout
import Tollgate.Proofs.Filter.TrieRuns
import Tollgate.Proofs.Filter.TrieWalk
import Tollgate.Proofs.Filter.WildcardText
import Tollgate.Proofs.Mitm.Flight
import Tollgate.Proofs.Mitm.Handing
import Tollgate.Proofs.Mitm.ServerHello
import Tollgate.Proofs.Mitm.Slots
import Tollgate.Proofs.Policy.Allowlist
import Tollgate.Proofs.Policy.BookStep
import Tollgate.Proofs.Policy.FreshPins
import Tollgate.Proofs.Policy.PerSecond
import Tollgate.Proofs.Policy.PinBook
import Tollgate.Proofs.Policy.PinRuns
import Tollgate.Proofs.Policy.SavedPins
import Tollgate.Proofs.Policy.SilentFrame
import Tollgate.Proofs.Policy.SilentHistory
import Tollgate.Proofs.Policy.SilentMirror
import Tollgate.Proofs.Policy.SilentRefusal
import Tollgate.Proofs.Policy.SilentRun
import Tollgate.Soundness.AuthorityFiles
import Tollgate.Soundness.BlockedHosts
import Tollgate.Soundness.Blocklist
import Tollgate.Soundness.BlocklistFile
import Tollgate.Soundness.CertificateWatch
import Tollgate.Soundness.ClientAlerts
import Tollgate.Soundness.CutSockets
import Tollgate.Soundness.Deliveries
import Tollgate.Soundness.DnsReplies
import Tollgate.Soundness.DnsWalks
import Tollgate.Soundness.DohGenerations
import Tollgate.Soundness.DohResets
import Tollgate.Soundness.ForwardedHeaders
import Tollgate.Soundness.HostLines
import Tollgate.Soundness.IdleDrop
import Tollgate.Soundness.LearningBounds
import Tollgate.Soundness.LocalLookups
import Tollgate.Soundness.PinLearning
import Tollgate.Soundness.PinReload
import Tollgate.Soundness.PoolConnections
import Tollgate.Soundness.PoolLimits
import Tollgate.Soundness.ResolverPermits
import Tollgate.Soundness.RuleOrder
import Tollgate.Soundness.SavedPins
import Tollgate.Soundness.SendOnce
import Tollgate.Soundness.SingleFlight
import Tollgate.Soundness.UpstreamAnswers
import Tollgate.Soundness.WholeFiles
import Tollgate.Soundness.WildcardLimits
import Tollgate.Soundness.WildcardMeaning
import Tollgate.Soundness.WildcardSearch
import Tollgate.ToMathlib.BinarySearch
import Tollgate.ToMathlib.Embedded
import Tollgate.ToMathlib.Endian
import Tollgate.ToMathlib.Glob
import Tollgate.ToMathlib.Lru
import Tollgate.ToMathlib.Multimap
import Tollgate.ToMathlib.PrefixCode
import Tollgate.ToMathlib.Retain
import Tollgate.ToMathlib.Separated
import Tollgate.ToMathlib.Tally
import Tollgate.ToMathlib.Words
