import DnsRelay.Foundation.Outcome
import DnsRelay.Foundation.Buffer
import DnsRelay.Foundation.CString
import DnsRelay.Foundation.Decimal
import DnsRelay.Foundation.Cyclic
import DnsRelay.Foundation.OpenAddressing
import DnsRelay.Foundation.Recency
import DnsRelay.Foundation.Transition
import DnsRelay.Foundation.Occupancy
import DnsRelay.Foundation.Lines
import DnsRelay.Foundation.Heap
import DnsRelay.Wire.Header
import DnsRelay.Wire.Name
import DnsRelay.Wire.NameGrammar
import DnsRelay.Wire.NameDecoding
import DnsRelay.Wire.Message
import DnsRelay.Wire.Ttl
import DnsRelay.Wire.TtlPatches
import DnsRelay.Wire.AgedMessage
import DnsRelay.Wire.TtlCollection
import DnsRelay.Wire.Safety
import DnsRelay.Wire.NameIdentity
import DnsRelay.Wire.NameEncoding
import DnsRelay.Wire.Normalization
import DnsRelay.Wire.NameRoundTrip
import DnsRelay.Wire.NameSizeLimit
import DnsRelay.Wire.Responses
import DnsRelay.Wire.NameWalkers
import DnsRelay.Wire.LocalAnswer
import DnsRelay.Wire.ErrorQuestion
import DnsRelay.Wire.IdRewrite
import DnsRelay.Store.PendingMap
import DnsRelay.Store.PendingInvariant
import DnsRelay.Store.IdReuse
import DnsRelay.Store.Cache
import DnsRelay.Store.CacheRecency
import DnsRelay.Store.CacheInvariant
import DnsRelay.Store.LocalTable
import DnsRelay.Store.LocalRules
import DnsRelay.Store.FailedInserts
import DnsRelay.Store.TableFile
import DnsRelay.Store.CutLines
import DnsRelay.Memory.LocalTable
import DnsRelay.Memory.Ownership
import DnsRelay.Memory.TableFile
import DnsRelay.Relay.Server
import DnsRelay.Relay.Outcomes
import DnsRelay.Relay.Replies
import DnsRelay.Relay.Frame
import DnsRelay.Relay.Timeouts
import DnsRelay.Relay.ClockSteps
import DnsRelay.Relay.Steps
import DnsRelay.Relay.LocalPriority
import DnsRelay.Relay.CacheHistory
import DnsRelay.Relay.CachedTtl
import DnsRelay.Relay.Attribution
import DnsRelay.Relay.PendingFate
import DnsRelay.Relay.Answerable
import DnsRelay.Relay.ForwardedQuestion
import DnsRelay.Relay.Transparency
import DnsRelay.Relay.RecursionDesired
import DnsRelay.Relay.Abstraction
import DnsRelay.Relay.Refinement
import DnsRelay.Relay.Deadlines
import DnsRelay.Relay.EndToEnd
import DnsRelay.Relay.MainLoop
import DnsRelay.Relay.Accounts
import DnsRelay.Relay.Bounds
import DnsRelay.Relay.Quiet
import DnsRelay.Relay.KeptAnswers
import DnsRelay.Host.Address
import DnsRelay.Host.Config
import DnsRelay.Host.PortText
import DnsRelay.Host.CommandLine
import DnsRelay.Host.Startup
import DnsRelay.Host.Program
