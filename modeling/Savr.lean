import Savr.Lib.Run
import Savr.Lib.Interleaving
import Savr.Lib.Patch
import Savr.Lib.PointerWalk
import Savr.Lib.Ranked
import Savr.Lib.Retained
import Savr.Lib.Script
import Savr.Lib.SoleClaim
import Savr.Lib.PrefixCode
import Savr.Lib.CommonStart
import Savr.Lib.Router
import Savr.Lib.Framing
import Savr.Lib.Hoare
import Savr.Lib.Placing
import Savr.Lib.Utf8
import Savr.Lib.Wildcard
import Savr.Lib.Positional
import Savr.Lib.Calendar
import Savr.Core.Types
import Savr.Core.PlainDigest
import Savr.Core.Snapshot
import Savr.Core.Path
import Savr.Core.GlobPattern
import Savr.Core.PathText
import Savr.Core.Ipc
import Savr.Core.FileSystem
import Savr.Core.Archive
import Savr.Core.PlainFormat
import Savr.Core.Collect
import Savr.Core.Confine
import Savr.Core.Subtree
import Savr.Daemon.Watcher
import Savr.Daemon.Settle
import Savr.Daemon.Vdf
import Savr.Daemon.ExeIndex
import Savr.Daemon.InstallDirs
import Savr.Server.Db
import Savr.Server.Invariant
import Savr.Server.HeadCas
import Savr.Server.Api
import Savr.Server.ApiSpec
import Savr.Server.Gc
import Savr.Server.GcRun
import Savr.Server.Retention
import Savr.Server.GcTwice
import Savr.Server.LinearHistory
import Savr.Server.Integrity
import Savr.Server.Lineage
import Savr.Server.BlobRace
import Savr.Server.Hub
import Savr.Server.Replay
import Savr.Server.CatchUp
import Savr.Server.Games
import Savr.Server.Config
import Savr.Server.Accounts
import Savr.Server.Service
import Savr.Server.BlobGate
import Savr.Server.Authorship
import Savr.Daemon.Chain
import Savr.Daemon.Paths
import Savr.Daemon.SaveRoots
import Savr.Daemon.Portability
import Savr.Daemon.Catalog
import Savr.Daemon.Scan
import Savr.Daemon.Identity
import Savr.Daemon.Engine
import Savr.Daemon.State
import Savr.Daemon.Backup
import Savr.Daemon.Actions
import Savr.Daemon.CrashConsistency
import Savr.Daemon.Restore
import Savr.Daemon.Pull
import Savr.Daemon.Computer
import Savr.Daemon.DiskRestore
import Savr.Daemon.Swap
import Savr.Daemon.Restored
import Savr.Daemon.EngineRestore
import Savr.Daemon.HomeAnchor
import Savr.System.Conflicts
import Savr.System.Resolution
import Savr.System.World
import Savr.System.Fidelity
import Savr.System.ChainReplay
import Savr.System.NoLoss
import Savr.System.OneGame
import Savr.System.SingleWriter
import Savr.System.ChainCap
import Savr.System.AutoPull
import Savr.System.Converge
import Savr.System.Pairing
import Savr.System.Settings
import Savr.System.Routes
import Savr.Lib.SoleClaim
import Savr.Core.Rfc3339
import Savr.Daemon.RetryTimes
import Savr.Server.PairingCodes
import Savr.System.StoredTimes
import Savr.Server.Revocation
import Savr.Server.PairGuard
import Savr.Lib.Inodes
import Savr.Server.BlobPut
import Savr.Core.Walk
import Savr.App.Supervisor
import Savr.Daemon.Interrupted
import Savr.Server.Tokens
import Savr.Server.Requests
import Savr.Server.Trust
import Savr.Daemon.ManifestCache
import Savr.App.Commands
import Savr.Daemon.PlayTime
import Savr.Daemon.Steam
import Savr.Daemon.CustomGames
import Savr.Daemon.Staged
