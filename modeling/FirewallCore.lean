import FirewallCore.Lib.Run
import FirewallCore.Lib.Slice
import FirewallCore.Lib.BinarySearch
import FirewallCore.Lib.Registry
import FirewallCore.Lib.RingBuffer
import FirewallCore.Lib.Chains
import FirewallCore.Lib.Fallible
import FirewallCore.Lib.Checked
import FirewallCore.Lib.Limits
import FirewallCore.Lib.UrlPath
import FirewallCore.Lib.Strings
import FirewallCore.Lib.Rfc3339
import FirewallCore.Lib.Bits
import FirewallCore.Aghalg.SortedMap
import FirewallCore.Net.Addr
import FirewallCore.Net.AddrText
import FirewallCore.Dhcpd.BitSet
import FirewallCore.Dhcpd.Config
import FirewallCore.Dhcpd.Options
import FirewallCore.Dhcpd.RouterAdv
import FirewallCore.Dhcpd.V4Server
import FirewallCore.Dhcpd.V4Spec
import FirewallCore.Dhcpd.V4HandlerSpec
import FirewallCore.Dhcpd.LocalRange
import FirewallCore.Dhcpd.V4Replies
import FirewallCore.Dhcpd.V4AddrInv
import FirewallCore.Dhcpd.V4Offsets
import FirewallCore.Dhcpd.V4Unique
import FirewallCore.Dhcpd.V4Quarantine
import FirewallCore.Dhcpd.V4Hosts
import FirewallCore.Dhcpd.V4Atomic
import FirewallCore.Dhcpd.V4Interleave
import FirewallCore.Dhcpd.V6Server
import FirewallCore.Dhcpd.V6Map
import FirewallCore.Dhcpd.V6Unique
import FirewallCore.Dhcpd.Db
import FirewallCore.Client.Persistent
import FirewallCore.Client.Identifiers
import FirewallCore.Client.Index
import FirewallCore.Client.Storage
import FirewallCore.Dhcpsvc.Server
import FirewallCore.Dhcpsvc.Coherence
import FirewallCore.Home.Sessions
import FirewallCore.Home.RateLimiter
import FirewallCore.Querylog.Log
import FirewallCore.Querylog.QLogFile
import FirewallCore.Querylog.Search
import FirewallCore.Querylog.Paging
import FirewallCore.Bmc.MacFilter
import FirewallCore.Bmc.DosPolicy
import FirewallCore.Stats.StatsUnit
import FirewallCore.Stats.StatsCtx
import FirewallCore.WebUI.LoginGate
import FirewallCore.Dnsforward.Access
import FirewallCore.Dnsforward.Msg
import FirewallCore.Dnsforward.Process
import FirewallCore.Filtering.Filter
import FirewallCore.Filtering.Refresh
import FirewallCore.Configmigrate.Yaml
import FirewallCore.Configmigrate.Migrations
import FirewallCore.Configmigrate.Effects
import FirewallCore.Configmigrate.Steps
import FirewallCore.Configmigrate.NilMaps
import FirewallCore.Configmigrate.Migrator
import FirewallCore.Configmigrate.Alike
import FirewallCore.Configmigrate.AlikeSteps
import FirewallCore.Configmigrate.Paths
import FirewallCore.Configmigrate.Settings
import FirewallCore.Configmigrate.Lossless
import FirewallCore.Configmigrate.LosslessSteps
import FirewallCore.Configmigrate.Survival
import FirewallCore.Ead.Crypt
import FirewallCore.Ead.Server
import FirewallCore.Ead.Login
import FirewallCore.Ead.Session
import FirewallCore.Mtd.BmtV2
import FirewallCore.Mtd.BmtV2Map
import FirewallCore.Mtd.BmtV2Boot
import FirewallCore.Mtd.Bmt
import FirewallCore.Mtd.BmtData
import FirewallCore.Mtd.BbtMapping
import FirewallCore.Dhcpsvc.V4Options
import FirewallCore.Dhcpsvc.IPRange
import FirewallCore.Filtering.Rewrites
import FirewallCore.Querylog.DiskReader
import FirewallCore.Querylog.DiskSeek
import FirewallCore.Querylog.QuickMatch
import FirewallCore.Filtering.LetterCase
import FirewallCore.Rulelist.Parser
import FirewallCore.Lib.Positions
import FirewallCore.Bmc.MacFilterText
import FirewallCore.Bmc.RuleDeletion
import FirewallCore.Bmc.Quarantine
import FirewallCore.Lib.Checksums
import FirewallCore.Lib.Cache
import FirewallCore.Hashprefix.Checker
import FirewallCore.Lib.Float64
import FirewallCore.Schedule.Weekly
import FirewallCore.Schedule.Storage
import FirewallCore.Schedule.RoundTrip
import FirewallCore.Mikrotik.Routerboot
import FirewallCore.Mikrotik.TagFind
import FirewallCore.Mikrotik.Lz77
import FirewallCore.Mikrotik.Lz77Faithful
import FirewallCore.Mikrotik.Lz77Bounds
import FirewallCore.Mikrotik.RunLengths
import FirewallCore.Mikrotik.HardConfig
import FirewallCore.Mikrotik.SoftConfig
import FirewallCore.Mikrotik.ConfigBounds
import FirewallCore.Lib.Dealing
import FirewallCore.Filtering.IdGenerator
import FirewallCore.Lib.Glob
import FirewallCore.Dnsforward.IPv6Hints
import FirewallCore.Nvram.Nvram
import FirewallCore.Nvram.Text
import FirewallCore.Nvram.Handles
import FirewallCore.Nvram.Commit
import FirewallCore.Nvram.RoundTrip
import FirewallCore.Lib.Blocks
import FirewallCore.MtdTool.Device
import FirewallCore.MtdTool.Rounds
import FirewallCore.MtdTool.Layout
import FirewallCore.MtdTool.OneDevice
import FirewallCore.MtdTool.Dump
import FirewallCore.MtdTool.ReadBack
import FirewallCore.MtdTool.Jffs2Search
import FirewallCore.MtdTool.BootCount
import FirewallCore.BaseFiles.IpcalcRange
import FirewallCore.Ead.Transfer
import FirewallCore.Ead.Bounds
import FirewallCore.MtdTool.FisSplice
import FirewallCore.Lib.SentItems
import FirewallCore.Ipset.Transparent
import FirewallCore.Mtdsplit.Fit
import FirewallCore.Mtdsplit.WfiSplit
import FirewallCore.Dhcpsvc.Offsets
import FirewallCore.Dhcpd.Hostnames
import FirewallCore.Stats.Storage
import FirewallCore.Stats.Upstreams
import FirewallCore.Ead.Checksum
import FirewallCore.Mtd.NandCopy
import FirewallCore.Mikrotik.RleExact
import FirewallCore.Home.Gate
