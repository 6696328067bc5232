import Enimul.GoSlice
import Enimul.PeerProgram
import Enimul.ClientHello
import Enimul.HelloEncoding
import Enimul.GoText
import Enimul.Policies
import Enimul.DomainMatcher
import Enimul.Fragment
import Enimul.FragmentStream
import Enimul.TunBridge
import Enimul.TunStream
import Enimul.NetIP
import Enimul.IPTrie
import Enimul.GoRun
import Enimul.Resolve
import Enimul.GenPolicy
import Enimul.GoTime
import Enimul.PolicyDecode
import Enimul.LoadConfig
import Enimul.TwoWay
import Enimul.NetIPText
import Enimul.FakeIP
import Enimul.FakeIPLog
import Enimul.DNSHijack
import Enimul.DNSAnswer
import Enimul.DNSPromise
import Enimul.DNSLeak
import Enimul.PlanRequest
import Enimul.PlanRecovery
import Enimul.PolicyFields
import Enimul.PlanPolicy
import Enimul.ResolveHistory
import Enimul.DoHDial
import Enimul.PathLookup
import Enimul.LongestPrefix
import Enimul.MostSpecific
import Enimul.AntiHijack
import Enimul.TunReject
import Enimul.LoadOrder
import Enimul.IPPolicyMatch
import Enimul.ConfigRepository
import Enimul.KotlinPolicy
import Enimul.BufReader
import Enimul.Tunnel
import Enimul.TunnelStream
import Enimul.LetterCase
import Enimul.CaseRouting
import Enimul.Machine
import Enimul.Exchange
import Enimul.ExchangeRace
import Enimul.FragmentSplit
import Enimul.PlanTarget
import Enimul.Nat64Plan
import Enimul.GFWList
import Enimul.StartLumine
import Enimul.PipePacket
import Enimul.UDPSession
import Enimul.LumineVpnService
import Enimul.DuplicateStop
import Enimul.PatternExpansion
import Enimul.TransformIP
import Enimul.EncryptedHello
import Enimul.HelloBounds
import Enimul.FakeIPExhaustion
import Enimul.NoRedirect
import Enimul.SniffOverride
import Enimul.AnswerRewrite
import Enimul.TTLProbe
import Enimul.TTLRules
import Enimul.Desync
import Enimul.WeightedChoice
import Enimul.IPPool
import Enimul.IPPoolRun
import Enimul.DNSTCPConn
import Enimul.LocalAddr
import Enimul.HTTPForward
import Enimul.RuleEditor
import Enimul.ToggleCooldown
import Enimul.FirstFree
import Enimul.ConfigName
import Enimul.SegmentedLog
import Enimul.LogFile
import Enimul.LogRotation
import Enimul.LinkedRing
import Enimul.FreeLRU
import Enimul.LRULayout
import Enimul.LRUInvariant
import Enimul.Recency
import Enimul.LRURefinement
import Enimul.ShardedLRU
import Enimul.SingleFlight
import Enimul.Memo
import Enimul.SharedResolver
import Enimul.Dialogue
import Enimul.Socks5
import Enimul.Socks5Handshake
import Enimul.QueuedPacketConn
import Enimul.Counter
import Enimul.HostPort
import Enimul.HTTPConnect
import Enimul.FakeTTL
import Enimul.Statistic
import Enimul.ShadowAEAD
